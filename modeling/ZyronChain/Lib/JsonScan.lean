import ZyronChain.Lib.JsonRoundTrip
import ZyronChain.Lib.Checks

/-!
# Structural limits on JSON text

A scan that bounds the nesting depth and the number of structural characters of a text before
it is parsed.  Characters inside string literals do not count.
-/

namespace Json

open List

/-- The state of the scan between two characters. -/
structure Scan where
  inString : Bool := false
  escaped : Bool := false
  depth : Nat := 0
  tokens : Nat := 0

/-- The limits of a scan and its error. -/
structure ScanLimits where
  maxDepth : Nat
  maxTokens : Nat
  message : String

def scanStep (limits : ScanLimits) (st : Scan) (c : Char) : Except String Scan :=
  if st.inString then
    if st.escaped then .ok { st with escaped := false }
    else if c = '\\' then .ok { st with escaped := true }
    else if c = '"' then .ok { st with inString := false }
    else .ok st
  else if c = '"' then .ok { st with inString := true }
  else if (c = '{' ∨ c = '[') ∧ st.depth + 1 > limits.maxDepth then .error limits.message
  else
    let next : Scan :=
      if c = '{' ∨ c = '[' then { st with depth := st.depth + 1, tokens := st.tokens + 1 }
      else if c = '}' ∨ c = ']' then { st with depth := st.depth - 1, tokens := st.tokens + 1 }
      else if c = ',' ∨ c = ':' then { st with tokens := st.tokens + 1 }
      else st
    if next.tokens > limits.maxTokens then .error limits.message else .ok next

def scan (limits : ScanLimits) (st : Scan) (text : List Char) : Except String Scan :=
  text.foldlM (scanStep limits) st

/-! ### The cost of a value -/

mutual

/-- The number of structural characters of a value's text. -/
def tokens : Json → Nat
  | arr items => 2 + tokensItems items
  | obj members => 2 + tokensMembers members
  | _ => 0

/-- The structural characters of the items, and of the commas between them. -/
def tokensItems : List Json → Nat
  | [] => 0
  | [v] => tokens v
  | v :: w :: vs => tokens v + 1 + tokensItems (w :: vs)

/-- The structural characters of the members, their colons and the commas between them. -/
def tokensMembers : List (String × Json) → Nat
  | [] => 0
  | [(_, v)] => 1 + tokens v
  | (_, v) :: m :: ms => 1 + tokens v + 1 + tokensMembers (m :: ms)

end

mutual

def nesting : Json → Nat
  | arr items => 1 + nestingItems items
  | obj members => 1 + nestingMembers members
  | _ => 0

/-- The greatest nesting depth of an item. -/
def nestingItems : List Json → Nat
  | [] => 0
  | v :: vs => max (nesting v) (nestingItems vs)

/-- The greatest nesting depth of a member. -/
def nestingMembers : List (String × Json) → Nat
  | [] => 0
  | (_, v) :: ms => max (nesting v) (nestingMembers ms)

end

/-! ### Scanning a rendered value -/

/-- Outside a string literal, at the given depth and count. -/
def outside (depth tokens : Nat) : Scan := { depth := depth, tokens := tokens }

variable {limits : ScanLimits}

theorem scan_append (st : Scan) (s t : List Char) :
    scan limits st (s ++ t) = scan limits st s >>= fun st' => scan limits st' t := by
  rw [scan, foldlM_append]
  rfl

theorem scan_cons (st : Scan) (c : Char) (s : List Char) :
    scan limits st (c :: s) = scanStep limits st c >>= fun st' => scan limits st' s := rfl

@[simp] theorem scan_nil (st : Scan) : scan limits st [] = .ok st := rfl

private theorem scanStep_inString (d t : Nat) {c : Char} (hq : c ≠ '"') (hb : c ≠ '\\') :
    scanStep limits { outside d t with inString := true } c =
      .ok { outside d t with inString := true } := by
  simp [scanStep, outside, hq, hb]

private theorem scan_escape (d t : Nat) (c : Char) (s : List Char) :
    scan limits { outside d t with inString := true } (escape c ++ s) =
      scan limits { outside d t with inString := true } s := by
  unfold escape
  split_ifs with h1 h2 h3 h4 h5 h6 h7 h8
  iterate 7
    · simp [scan_cons, scanStep, outside]
  · have key : ∀ n : Fin 32, (hexDigit (n.val / 16) ≠ '"' ∧ hexDigit (n.val / 16) ≠ '\\') ∧
        hexDigit (n.val % 16) ≠ '"' ∧ hexDigit (n.val % 16) ≠ '\\' := by decide
    obtain ⟨⟨ha, hb⟩, hc, hd⟩ := key ⟨c.toNat, h8⟩
    simp only at ha hb hc hd
    simp [scan_cons, scanStep, outside, ha, hb, hc, hd]
  · rw [List.singleton_append, scan_cons, scanStep_inString d t h1 h2]
    rfl

theorem scan_quote (d t : Nat) (s : List Char) :
    scan limits (outside d t) (quote s) = .ok (outside d t) := by
  have hbody : ∀ s : List Char,
      scan limits { outside d t with inString := true } (s.flatMap escape ++ ['"']) =
        .ok (outside d t) := by
    intro s
    induction s with
    | nil => simp [scan_cons, scanStep, outside]
    | cons c s ih => rw [flatMap_cons, append_assoc, scan_escape, ih]
  rw [quote, scan_cons]
  have hopen : scanStep limits (outside d t) '"' = .ok { outside d t with inString := true } := by
    simp [scanStep, outside]
  rw [hopen]
  exact hbody s

private theorem scanStep_neutral {d t : Nat} (ht : t ≤ limits.maxTokens) {c : Char}
    (hc : c ∉ ['"', '{', '[', '}', ']', ',', ':']) :
    scanStep limits (outside d t) c = .ok (outside d t) := by
  simp only [mem_cons, not_mem_nil, or_false, not_or] at hc
  obtain ⟨h1, h2, h3, h4, h5, h6, h7⟩ := hc
  simp [scanStep, outside, h1, h2, h3, h4, h5, h6, h7, Nat.not_lt.mpr ht]

theorem scan_neutral {d t : Nat} (ht : t ≤ limits.maxTokens) {s : List Char}
    (hs : ∀ c ∈ s, c ∉ ['"', '{', '[', '}', ']', ',', ':']) :
    scan limits (outside d t) s = .ok (outside d t) := by
  induction s with
  | nil => rfl
  | cons c s ih =>
    rw [scan_cons, scanStep_neutral ht (hs c List.mem_cons_self)]
    exact ih fun x hx => hs x (List.mem_cons_of_mem c hx)

private theorem scanStep_open {d t : Nat} (hd : d < limits.maxDepth) (ht : t < limits.maxTokens)
    {c : Char} (hc : c = '{' ∨ c = '[') :
    scanStep limits (outside d t) c = .ok (outside (d + 1) (t + 1)) := by
  have h1 : ¬ limits.maxDepth < d + 1 := by omega
  have h2 : ¬ limits.maxTokens < t + 1 := by omega
  rcases hc with rfl | rfl <;> simp [scanStep, outside, h1, h2]

private theorem scanStep_close {d t : Nat} (ht : t < limits.maxTokens) {c : Char}
    (hc : c = '}' ∨ c = ']') :
    scanStep limits (outside (d + 1) t) c = .ok (outside d (t + 1)) := by
  have h2 : ¬ limits.maxTokens < t + 1 := by omega
  rcases hc with rfl | rfl <;> simp [scanStep, outside, h2]

private theorem scanStep_separator {d t : Nat} (ht : t < limits.maxTokens) {c : Char}
    (hc : c = ',' ∨ c = ':') :
    scanStep limits (outside d t) c = .ok (outside d (t + 1)) := by
  have h2 : ¬ limits.maxTokens < t + 1 := by omega
  rcases hc with rfl | rfl <;> simp [scanStep, outside, h2]

private theorem numberChar_neutral {c : Char} (h : isNumberChar c = true) :
    c ∉ ['"', '{', '[', '}', ']', ',', ':'] := by
  intro hmem
  have key : (['"', '{', '[', '}', ']', ',', ':'].all fun x => !isNumberChar x) = true := by decide
  have hfalse := List.all_eq_true.mp key c hmem
  rw [h] at hfalse
  cases hfalse

private theorem word_neutral {w : List Char}
    (h : (w.all fun c => decide (c ∉ ['"', '{', '[', '}', ']', ',', ':'])) = true) :
    ∀ c ∈ w, c ∉ ['"', '{', '[', '}', ']', ',', ':'] :=
  fun c hc => of_decide_eq_true (List.all_eq_true.mp h c hc)

mutual

/-- The text of a value within the limits passes the scan. -/
theorem scan_render (v : Json) (hv : Plain v) {d t : Nat} (hd : d + nesting v ≤ limits.maxDepth)
    (ht : t + tokens v ≤ limits.maxTokens) :
    scan limits (outside d t) (render v) = .ok (outside d (t + tokens v)) := by
  match v, hv with
  | .null, _ => exact scan_neutral (by omega) (word_neutral (by decide))
  | .bool true, _ => exact scan_neutral (by omega) (word_neutral (by decide))
  | .bool false, _ => exact scan_neutral (by omega) (word_neutral (by decide))
  | .num n, _ =>
    exact scan_neutral (by omega) fun c hc => numberChar_neutral (intText_isNumberChar hc)
  | .str s, _ => exact scan_quote d t s.toList
  | .arr vs, hv =>
    rw [nesting] at hd
    rw [tokens] at ht
    have hbody := scanItems_render vs hv (d := d + 1) (t := t + 1) (by omega) (by omega)
    rw [render, scan_cons, scanStep_open (by omega) (by omega) (Or.inr rfl), Checks.ok_bind,
      scan_append, hbody, Checks.ok_bind, scan_cons, scanStep_close (by omega) (Or.inr rfl),
      Checks.ok_bind, scan_nil, tokens]
    congr 2
    omega
  | .obj ms, hv =>
    rw [nesting] at hd
    rw [tokens] at ht
    have hbody := scanMembers_render ms hv.2 (d := d + 1) (t := t + 1) (by omega) (by omega)
    rw [render, scan_cons, scanStep_open (by omega) (by omega) (Or.inl rfl), Checks.ok_bind,
      scan_append, hbody, Checks.ok_bind, scan_cons, scanStep_close (by omega) (Or.inl rfl),
      Checks.ok_bind, scan_nil, tokens]
    congr 2
    omega

theorem scanItems_render (vs : List Json) (hvs : PlainItems vs) {d t : Nat}
    (hd : d + nestingItems vs ≤ limits.maxDepth) (ht : t + tokensItems vs ≤ limits.maxTokens) :
    scan limits (outside d t) (renderItems vs) = .ok (outside d (t + tokensItems vs)) := by
  match vs, hvs with
  | [], _ => rfl
  | [v], hvs =>
    rw [nestingItems] at hd
    exact scan_render v hvs.1 (by omega) ht
  | v :: w :: vs, hvs =>
    rw [nestingItems] at hd
    rw [tokensItems] at ht
    have hv := scan_render v hvs.1 (d := d) (t := t) (by omega) (by omega)
    have hrest := scanItems_render (w :: vs) hvs.2 (d := d) (t := t + tokens v + 1)
      (by omega) (by omega)
    rw [renderItems, scan_append, hv, Checks.ok_bind, scan_cons,
      scanStep_separator (by omega) (Or.inl rfl), Checks.ok_bind, hrest, tokensItems]
    congr 2
    omega

theorem scanMembers_render (ms : List (String × Json)) (hms : PlainMembers ms) {d t : Nat}
    (hd : d + nestingMembers ms ≤ limits.maxDepth)
    (ht : t + tokensMembers ms ≤ limits.maxTokens) :
    scan limits (outside d t) (renderMembers ms) = .ok (outside d (t + tokensMembers ms)) := by
  match ms, hms with
  | [], _ => rfl
  | [(k, v)], hms =>
    rw [nestingMembers] at hd
    rw [tokensMembers] at ht
    have hv := scan_render v hms.1 (d := d) (t := t + 1) (by omega) (by omega)
    rw [renderMembers, scan_append, scan_quote, Checks.ok_bind, scan_cons,
      scanStep_separator (by omega) (Or.inr rfl), Checks.ok_bind, hv, tokensMembers]
    congr 2
    omega
  | (k, v) :: m :: ms, hms =>
    rw [nestingMembers] at hd
    rw [tokensMembers] at ht
    have hv := scan_render v hms.1 (d := d) (t := t + 1) (by omega) (by omega)
    have hrest := scanMembers_render (m :: ms) hms.2 (d := d) (t := t + 1 + tokens v + 1)
      (by omega) (by omega)
    rw [renderMembers, scan_append, scan_quote, Checks.ok_bind, scan_cons,
      scanStep_separator (by omega) (Or.inr rfl), Checks.ok_bind, scan_append, hv,
      Checks.ok_bind, scan_cons, scanStep_separator (by omega) (Or.inl rfl), Checks.ok_bind,
      hrest, tokensMembers]
    congr 2
    omega

end

end Json
