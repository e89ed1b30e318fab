import ZyronChain.Lib.JsonLocal
import Mathlib.Tactic.IntervalCases

/-!
# Reading back what was written

`Json.parse` undoes `Json.render` on every value without non-integer numbers and without a
repeated member name, which are the values the writers of this development produce.
-/

namespace Json

open List Option

mutual

/-- Only integer numbers, and no repeated member name in any object. -/
def Plain : Json → Prop
  | null | bool _ | num _ | str _ => True
  | decimal _ => False
  | arr items => PlainItems items
  | obj members => (members.map Prod.fst).Nodup ∧ PlainMembers members

def PlainItems : List Json → Prop
  | [] => True
  | v :: vs => Plain v ∧ PlainItems vs

def PlainMembers : List (String × Json) → Prop
  | [] => True
  | (_, v) :: ms => Plain v ∧ PlainMembers ms

end

/-! ### Numbers -/

variable {c x : Char} {ms : List (String × Json)} {α : Type}

theorem isDigit_isNumberChar (h : c.isDigit = true) : isNumberChar c = true := by
  simp [isNumberChar, h]

theorem natText_isDigit {n : Nat} (h : c ∈ natText n) : c.isDigit = true :=
  Nat.isDigit_of_mem_toDigits (by decide) (by decide) h

theorem natText_ne_nil (n : Nat) : natText n ≠ [] := by
  intro h
  have hlen := Nat.length_toDigits_pos (b := 10) (n := n)
  rw [natText] at h
  rw [h] at hlen
  exact absurd hlen (by decide)

/-- A number of more than one digit does not start with a zero. -/
theorem natText_head {n : Nat} (h : (natText n).head? = some '0') : (natText n).length = 1 := by
  induction n using Nat.strongRecOn with
  | _ n ih =>
    rw [natText, Nat.toDigits_eq_if (by decide)] at h ⊢
    split_ifs at h ⊢ with hlt
    · rfl
    · exfalso
      have hne : Nat.toDigits 10 (n / 10) ≠ [] := natText_ne_nil (n / 10)
      rw [List.head?_append_of_ne_nil _ hne] at h
      have hone := ih (n / 10) (Nat.div_lt_self (by omega) (by decide)) h
      -- a single digit that is `0` is the number 0, but `n / 10` is positive
      have hpos : 0 < n / 10 := Nat.div_pos (by omega) (by decide)
      have hval := Nat.ofDigitChars_toDigits (b := 10) (n := n / 10) (by decide) (by decide)
      obtain ⟨c, hc⟩ := length_eq_one_iff.mp hone
      rw [natText] at hc
      rw [hc, List.head?_cons, Option.some.injEq] at h
      rw [hc, h] at hval
      have : Nat.ofDigitChars 10 ['0'] 0 = 0 := by decide
      omega

private theorem takeWhile_self {p : Char → Bool} {l : List Char} (h : ∀ x ∈ l, p x = true) :
    l.takeWhile p = l ∧ l.dropWhile p = [] :=
  ⟨takeWhile_eq_self_iff.mpr h, dropWhile_eq_nil_iff.mpr h⟩

theorem unsigned_natText (literal : List Char) (sign : Int) (n : Nat) :
    unsigned literal sign (natText n) = some (num (sign * n)) := by
  obtain ⟨htake, hdrop⟩ := takeWhile_self (fun x (hx : x ∈ natText n) => natText_isDigit hx)
  have hcond : ¬ (natText n = [] ∨ (natText n).head? = some '0' ∧ (natText n).length ≠ 1) := by
    rintro (hnil | ⟨hzero, hlen⟩)
    · exact natText_ne_nil n hnil
    · exact hlen (natText_head hzero)
  have hval : Nat.ofDigitChars 10 (natText n) 0 = n := Nat.ofDigitChars_toDigits (by decide) (by decide)
  rw [unsigned, htake, hdrop]
  simp only [if_neg hcond, fraction, map_some, append_nil, hval, length_nil]
  have hscale : (0 : Int) - ((0 : Nat) : Int) = Int.ofNat 0 := rfl
  rw [hscale, scaled]
  simp

theorem numberOf_intText (n : Int) : numberOf (intText n) = some (num n) := by
  cases n with
  | ofNat n =>
    obtain ⟨c, s, hcs⟩ := exists_cons_of_ne_nil (natText_ne_nil n)
    have hc : c ≠ '-' := by
      rintro rfl
      have := natText_isDigit (n := n) (c := '-') (by rw [hcs]; simp)
      exact absurd this (by decide)
    have h := unsigned_natText (intText (.ofNat n)) 1 n
    rw [intText, hcs] at h ⊢
    rw [numberOf]
    simp only [if_neg hc, h]
    simp
  | negSucc n =>
    have h := unsigned_natText (intText (.negSucc n)) (-1) (n + 1)
    rw [intText] at h ⊢
    rw [numberOf, if_pos rfl, h]
    simp [Int.negSucc_eq]

theorem intText_isNumberChar {n : Int} (h : c ∈ intText n) : isNumberChar c = true := by
  cases n with
  | ofNat n => exact isDigit_isNumberChar (natText_isDigit h)
  | negSucc n =>
    rcases mem_cons.mp h with rfl | h
    · decide
    · exact isDigit_isNumberChar (natText_isDigit h)

theorem intText_ne_nil (n : Int) : intText n ≠ [] := by
  cases n with
  | ofNat n => exact natText_ne_nil n
  | negSucc n => exact cons_ne_nil _ _

/-- The next character does not continue a number literal. -/
def Stops (r : List Char) : Prop := ∀ x, r.head? = some x → isNumberChar x = false

theorem number_intText (n : Int) {r : List Char} (hr : Stops r) :
    number (intText n ++ r) = some (num n, r) := by
  have hall : ∀ x ∈ intText n, isNumberChar x = true := fun x hx => intText_isNumberChar hx
  have hstop : r.takeWhile isNumberChar = [] ∧ r.dropWhile isNumberChar = r := by
    cases r with
    | nil => exact ⟨rfl, rfl⟩
    | cons y t =>
      have hy := hr y rfl
      simp [hy]
  rw [number, takeWhile_append_of_pos hall, dropWhile_append_of_pos hall, hstop.1,
    hstop.2, append_nil, numberOf_intText]
  rfl

/-! ### Strings -/

private theorem unitChar_control (h : c.toNat < 0x20) :
    unitChar '0' '0' (hexDigit (c.toNat / 16)) (hexDigit (c.toNat % 16)) = some c := by
  have key : ∀ n : Fin 32,
      unitChar '0' '0' (hexDigit (n.val / 16)) (hexDigit (n.val % 16)) =
        some (Char.ofNat n.val) := by decide
  have := key ⟨c.toNat, h⟩
  rwa [Char.ofNat_toNat] at this

theorem stringBody_escape_append (c : Char) (t : List Char) :
    stringBody (escape c ++ t) = (stringBody t).map fun p => (c :: p.1, p.2) := by
  unfold escape
  split_ifs with h1 h2 h3 h4 h5 h6 h7 h8
  iterate 7
    · subst_vars
      exact stringBody_escape (by decide) t
  · change stringBody ('\\' :: 'u' :: '0' :: '0' :: _ :: _ :: t) = _
    rw [stringBody_unit, unitChar_control h8]
    rfl
  · exact stringBody_plain h1 h2 h8 t

theorem stringBody_flatMap (s r : List Char) :
    stringBody (s.flatMap escape ++ '"' :: r) = some (s, r) := by
  induction s with
  | nil => exact stringBody_quote r
  | cons c s ih =>
    rw [List.flatMap_cons, List.append_assoc, stringBody_escape_append, ih]
    rfl

/-- A visible character other than a quotation mark and a backslash stands for itself. -/
theorem escape_eq_self {c : Char} (h : 35 ≤ c.toNat ∧ c.toNat ≠ 92) : escape c = [c] := by
  have hne : ∀ d : Char, d.toNat < 35 ∨ d.toNat = 92 → c ≠ d := by
    rintro d hd rfl
    omega
  rw [escape, if_neg (hne _ (by decide)), if_neg (hne _ (by decide)), if_neg (hne _ (by decide)),
    if_neg (hne _ (by decide)), if_neg (hne _ (by decide)), if_neg (hne _ (by decide)),
    if_neg (hne _ (by decide)), if_neg (by omega)]

/-! ### Objects -/

/-- Members of different names are appended one after the other. -/
theorem foldl_fresh {K V : Type} {set : List (K × V) → K × V → List (K × V)}
    (hset : ∀ acc m, m.1 ∉ acc.map Prod.fst → set acc m = acc ++ [m]) {ms : List (K × V)}
    (acc : List (K × V)) (h : ((acc ++ ms).map Prod.fst).Nodup) : ms.foldl set acc = acc ++ ms := by
  induction ms generalizing acc with
  | nil => simp
  | cons m ms ih =>
    have hm : m.1 ∉ acc.map Prod.fst := by
      rw [List.map_append, List.map_cons, List.nodup_append] at h
      intro hmem
      exact h.2.2 _ hmem _ List.mem_cons_self rfl
    have hassoc : acc ++ m :: ms = (acc ++ [m]) ++ ms := by simp
    rw [List.foldl_cons, hset _ _ hm, ih _ (by rwa [← hassoc]), ← hassoc]

theorem collect_of_nodup (h : (ms.map Prod.fst).Nodup) : collect ms = ms :=
  foldl_fresh (fun _ _ hm => if_neg hm) [] h

/-! ### Values -/

theorem skipSpace_of_visible (hc : isSpace c = false) (s : List Char) :
    skipSpace (c :: s) = c :: s := by
  rw [skipSpace, List.dropWhile_cons_of_neg (by simp [hc])]

theorem after_cons {f : Char → Reader α} (hc : isSpace c = false) (s : List Char) :
    Reader.after f (c :: s) = f c s := by
  rw [Reader.after, skipSpace_of_visible hc]

theorem stops_cons (h : isNumberChar c = false) (s : List Char) : Stops (c :: s) := by
  intro x hx
  rw [List.head?_cons, Option.some.injEq] at hx
  rwa [← hx]

theorem stops_nil : Stops [] := by
  intro x hx
  cases hx

private theorem andThen_quoted (k : String) (f : List Char → Reader α) (t : List Char) :
    Reader.andThen stringBody f (k.toList.flatMap escape ++ '"' :: t) = f k.toList t := by
  rw [Reader.andThen, stringBody_flatMap, bind_some]

/-- The first character of a text is visible and no closing bracket. -/
theorem render_head (v : Json) (hv : Plain v) (t : List Char) :
    ∃ c s, render v ++ t = c :: s ∧ isSpace c = false ∧ c ≠ ']' := by
  cases v with
  | null => exact ⟨'n', _, rfl, by decide, by decide⟩
  | bool b => cases b <;> exact ⟨_, _, rfl, by decide, by decide⟩
  | num n =>
    obtain ⟨c, s, hcs⟩ := exists_cons_of_ne_nil (intText_ne_nil n)
    have hc : isNumberChar c = true := intText_isNumberChar (n := n) (by rw [hcs]; simp)
    have hne : ∀ y, isNumberChar y = false → c ≠ y := by
      rintro y hy rfl
      rw [hc] at hy
      cases hy
    refine ⟨c, s ++ t, by rw [render, hcs]; rfl, ?_, hne _ (by decide)⟩
    simp only [isSpace, Bool.or_eq_false_iff, decide_eq_false_iff_not]
    exact ⟨⟨⟨hne _ (by decide), hne _ (by decide)⟩, hne _ (by decide)⟩, hne _ (by decide)⟩
  | decimal l => exact hv.elim
  | str k => exact ⟨'"', _, rfl, by decide, by decide⟩
  | arr vs => exact ⟨'[', _, rfl, by decide, by decide⟩
  | obj ms => exact ⟨'{', _, rfl, by decide, by decide⟩

theorem renderItems_head {vs : List Json} (hvs : PlainItems vs) (hne : vs ≠ []) (t : List Char) :
    ∃ c s, renderItems vs ++ t = c :: s ∧ isSpace c = false ∧ c ≠ ']' := by
  match vs, hne with
  | [v], _ => exact render_head v hvs.1 t
  | v :: w :: vs, _ =>
    obtain ⟨c, s, hcs, hspace, hc⟩ := render_head v hvs.1 (',' :: renderItems (w :: vs) ++ t)
    exact ⟨c, s, by rw [renderItems, ← hcs]; simp, hspace, hc⟩

theorem renderMembers_head (hne : ms ≠ []) (t : List Char) :
    ∃ s, renderMembers ms ++ t = '"' :: s := by
  match ms, hne with
  | [(k, v)], _ => exact ⟨_, rfl⟩
  | (k, v) :: m :: ms, _ => exact ⟨_, rfl⟩

private theorem bracketed_of_head {close : Char} {e : Json} {f : α → Json} {p : Reader α}
    {s : List Char} (hspace : isSpace c = false) (hc : c ≠ close) :
    bracketed close e f p (c :: s) = p.map f (c :: s) := by
  rw [bracketed, skipSpace_of_visible hspace, List.head?_cons, if_neg (by simpa using hc)]

private theorem members_quote (n : Nat) (k : String) (t : List Char) :
    members (n + 1) (quote k.toList ++ ':' :: t) =
      (value n t).bind fun q => Reader.after (fun d =>
        if d = ',' then Reader.map ((String.ofList k.toList, q.1) :: ·) (members n)
        else if d = '}' then .done [(String.ofList k.toList, q.1)]
        else .fail) q.2 := by
  rw [members, quote, cons_append, after_cons (by decide), if_pos rfl, append_assoc,
    singleton_append, andThen_quoted, after_cons (by decide), if_pos rfl]
  rfl

mutual

theorem value_render (v : Json) (hv : Plain v) {n : Nat} (hn : (render v).length ≤ n)
    {r : List Char} (hr : Stops r) : value n (render v ++ r) = some (v, r) := by
  obtain ⟨c, s, hcs, hspace, -⟩ := render_head v hv r
  obtain ⟨n, rfl⟩ : ∃ k, n = k + 1 := by
    obtain ⟨c', s', hcs', -, -⟩ := render_head v hv []
    rw [append_nil] at hcs'
    rw [hcs', length_cons] at hn
    exact ⟨n - 1, by omega⟩
  match v, hv with
  | .null, _ => rfl
  | .bool true, _ => rfl
  | .bool false, _ => rfl
  | .num m, _ =>
    have hc : isNumberChar c = true := by
      obtain ⟨c', s', hcs'⟩ := exists_cons_of_ne_nil (intText_ne_nil m)
      have hmem : c' ∈ intText m := by rw [hcs']; simp
      rw [render, hcs', cons_append, List.cons.injEq] at hcs
      rw [← hcs.1]
      exact intText_isNumberChar hmem
    rw [hcs, value, after_cons hspace, dispatch_number hc, ← hcs, render]
    exact number_intText m hr
  | .str k, _ =>
    change value (n + 1) ('"' :: ((k.toList.flatMap escape ++ ['"']) ++ r)) = _
    rw [value, after_cons (by decide), append_assoc, singleton_append, dispatch,
      if_neg (by decide), if_neg (by decide), if_pos rfl, Reader.map, stringBody_flatMap,
      map_some, String.ofList_toList]
  | .arr [], _ => rfl
  | .arr (v :: vs), hv =>
    rw [render, length_cons, length_append] at hn
    obtain ⟨c, s, hcs, hspace, hc⟩ := renderItems_head hv (cons_ne_nil v vs) (']' :: r)
    have ih := items_render (v :: vs) hv (cons_ne_nil v vs) (n := n)
      (by simp only [length_singleton] at hn; omega) r
    rw [render, cons_append, append_assoc, singleton_append, value, after_cons (by decide)]
    change bracketed ']' _ _ _ _ = _
    rw [hcs] at ih ⊢
    rw [bracketed_of_head hspace hc, Reader.map, ih]
    rfl
  | .obj [], _ => rfl
  | .obj (m :: ms), hv =>
    rw [render, length_cons, length_append] at hn
    obtain ⟨s, hs⟩ := renderMembers_head (cons_ne_nil m ms) ('}' :: r)
    have ih := members_render (m :: ms) hv.2 (cons_ne_nil m ms) (n := n)
      (by simp only [length_singleton] at hn; omega) r
    rw [render, cons_append, append_assoc, singleton_append, value, after_cons (by decide)]
    change bracketed '}' _ _ _ _ = _
    rw [hs] at ih ⊢
    rw [bracketed_of_head (by decide) (by decide), Reader.map, ih, map_some, collect_of_nodup hv.1]

theorem items_render (vs : List Json) (hvs : PlainItems vs) (hne : vs ≠ []) {n : Nat}
    (hn : (renderItems vs).length < n) (r : List Char) :
    items n (renderItems vs ++ ']' :: r) = some (vs, r) := by
  obtain ⟨n, rfl⟩ : ∃ k, n = k + 1 := ⟨n - 1, by omega⟩
  match vs, hne with
  | [v], _ =>
    have ih := value_render v hvs.1 (n := n) (by rw [renderItems] at hn; omega)
      (stops_cons (c := ']') (by decide) r)
    rw [renderItems, items, Reader.andThen, ih, bind_some, after_cons (by decide)]
    rfl
  | v :: w :: vs, _ =>
    rw [renderItems, length_append, length_cons] at hn
    have ih := value_render v hvs.1 (n := n) (by omega)
      (stops_cons (c := ',') (by decide) (renderItems (w :: vs) ++ ']' :: r))
    have ih' := items_render (w :: vs) hvs.2 (cons_ne_nil w vs) (n := n) (by omega) r
    rw [renderItems, append_assoc, cons_append, items, Reader.andThen, ih,
      bind_some, after_cons (by decide)]
    change Reader.map _ (items n) _ = _
    rw [Reader.map, ih']
    rfl

theorem members_render (ms : List (String × Json)) (hms : PlainMembers ms) (hne : ms ≠ [])
    {n : Nat} (hn : (renderMembers ms).length < n) (r : List Char) :
    members n (renderMembers ms ++ '}' :: r) = some (ms, r) := by
  obtain ⟨n, rfl⟩ : ∃ k, n = k + 1 := ⟨n - 1, by omega⟩
  match ms, hne with
  | [(k, v)], _ =>
    rw [renderMembers, length_append, length_cons] at hn
    have ih := value_render v hms.1 (n := n) (by omega)
      (stops_cons (c := '}') (by decide) r)
    rw [renderMembers, append_assoc, cons_append, members_quote, ih, bind_some,
      after_cons (by decide)]
    simp [Reader.done]
  | (k, v) :: m :: ms, _ =>
    rw [renderMembers, length_append, length_cons, length_append, length_cons] at hn
    have ih := value_render v hms.1 (n := n) (by omega)
      (stops_cons (c := ',') (by decide) (renderMembers (m :: ms) ++ '}' :: r))
    have ih' := members_render (m :: ms) hms.2 (cons_ne_nil m ms) (n := n) (by omega) r
    rw [renderMembers, append_assoc, cons_append, append_assoc, cons_append,
      members_quote, ih, bind_some, after_cons (by decide), if_pos rfl, Reader.map, ih']
    simp

end

/-- Reading undoes writing. -/
theorem parse_render {v : Json} (hv : Plain v) : parse (render v) = some v := by
  have h := value_render v hv (Nat.le_succ _) stops_nil
  rw [append_nil] at h
  exact parse_eq_some_iff.mpr ⟨[], h, rfl⟩

theorem parse_render_nul {v : Json} (hv : Plain v) {k : Nat} (hk : 0 < k) :
    parse (render v ++ List.replicate k nul) = none := by
  obtain ⟨k, rfl⟩ : ∃ k', k = k' + 1 := ⟨k - 1, by omega⟩
  have hstops : Stops (List.replicate (k + 1) nul) := stops_cons (c := nul) (by decide) _
  have hlen : (render v).length ≤ (render v ++ List.replicate (k + 1) nul).length + 1 := by
    rw [length_append]
    omega
  rw [parse, value_render v hv hlen hstops, bind_some, if_neg]
  exact cons_ne_nil nul _

/-- A cut text of an object does not parse. -/
theorem parse_render_cut (hv : Plain (obj ms)) {p t : List Char} (h : render (obj ms) = p ++ t)
    (ht : t ≠ []) (k : Nat) : parse (p ++ List.replicate k nul) = none := by
  have hparse := parse_render hv
  cases p with
  | nil =>
    cases k with
    | zero | succ => rfl
  | cons c p =>
    rw [h, cons_append] at hparse
    rw [render, cons_append, List.cons.injEq] at h
    obtain ⟨rfl, h⟩ := h
    refine parse_cut_eq_none hparse ?_ k
    -- the last character of the text, a brace, is in the part cut off
    have hlast : t.getLast ht = '}' := by
      have hlast := List.getLast?_append_of_ne_nil p ht
      rw [← h, List.getLast?_append_of_ne_nil _ (by simp), List.getLast?_singleton,
        List.getLast?_eq_some_getLast ht, Option.some.injEq] at hlast
      exact hlast.symm
    exact ⟨'}', hlast ▸ getLast_mem ht, by decide⟩

/-! ### One line -/

private theorem escape_printable (h : x ∈ escape c) : 0x20 ≤ x.toNat := by
  unfold escape at h
  split_ifs at h with h1 h2 h3 h4 h5 h6 h7 h8
  iterate 7
    · simp only [mem_cons, not_mem_nil, or_false] at h
      rcases h with rfl | rfl <;> decide
  · have hhex : ∀ n : Fin 32, 0x20 ≤ (hexDigit (n.val / 16)).toNat ∧
        0x20 ≤ (hexDigit (n.val % 16)).toNat := by decide
    have hdigits := hhex ⟨c.toNat, h8⟩
    simp only [mem_cons, not_mem_nil, or_false] at h
    rcases h with rfl | rfl | rfl | rfl | rfl | rfl
    · decide
    · decide
    · decide
    · decide
    · exact hdigits.1
    · exact hdigits.2
  · rw [mem_singleton.mp h]
    omega

private theorem quote_printable {s : List Char} (h : x ∈ quote s) : 0x20 ≤ x.toNat := by
  simp only [quote, mem_cons, mem_append, mem_flatMap, not_mem_nil, or_false] at h
  rcases h with rfl | ⟨c, -, hc⟩ | rfl
  · decide
  · exact escape_printable hc
  · decide

private theorem numberChar_printable (h : isNumberChar x = true) : 0x20 ≤ x.toNat := by
  by_contra hlt
  have hx : Char.ofNat x.toNat = x := Char.ofNat_toNat x
  have key : ∀ n : Fin 32, isNumberChar (Char.ofNat n.val) = false := by decide
  have hfalse := key ⟨x.toNat, by omega⟩
  rw [hx, h] at hfalse
  cases hfalse

private theorem word_printable {w : List Char} (h : (w.all fun c => decide (0x20 ≤ c.toNat)) = true)
    (hx : x ∈ w) : 0x20 ≤ x.toNat :=
  of_decide_eq_true (all_eq_true.mp h x hx)

mutual

/-- A text has no control character. -/
theorem render_printable (v : Json) (hv : Plain v) {x : Char} (hx : x ∈ render v) :
    0x20 ≤ x.toNat := by
  match v, hv with
  | .null, _ => exact word_printable (by decide) hx
  | .bool true, _ => exact word_printable (by decide) hx
  | .bool false, _ => exact word_printable (by decide) hx
  | .num n, _ => exact numberChar_printable (intText_isNumberChar hx)
  | .str s, _ => exact quote_printable hx
  | .arr vs, hv =>
    simp only [render, mem_cons, mem_append, not_mem_nil, or_false] at hx
    rcases hx with rfl | hx | rfl
    · decide
    · exact renderItems_printable vs hv hx
    · decide
  | .obj ms, hv =>
    simp only [render, mem_cons, mem_append, not_mem_nil, or_false] at hx
    rcases hx with rfl | hx | rfl
    · decide
    · exact renderMembers_printable ms hv.2 hx
    · decide

theorem renderItems_printable (vs : List Json) (hvs : PlainItems vs) {x : Char}
    (hx : x ∈ renderItems vs) : 0x20 ≤ x.toNat := by
  match vs, hvs with
  | [], _ => cases hx
  | [v], hvs => exact render_printable v hvs.1 hx
  | v :: w :: vs, hvs =>
    simp only [renderItems, mem_append, mem_cons] at hx
    rcases hx with hx | rfl | hx
    · exact render_printable v hvs.1 hx
    · decide
    · exact renderItems_printable (w :: vs) hvs.2 hx

theorem renderMembers_printable (ms : List (String × Json)) (hms : PlainMembers ms) {x : Char}
    (hx : x ∈ renderMembers ms) : 0x20 ≤ x.toNat := by
  match ms, hms with
  | [], _ => cases hx
  | [(k, v)], hms =>
    simp only [renderMembers, mem_append, mem_cons] at hx
    rcases hx with hx | rfl | hx
    · exact quote_printable hx
    · decide
    · exact render_printable v hms.1 hx
  | (k, v) :: m :: ms, hms =>
    simp only [renderMembers, mem_append, mem_cons] at hx
    rcases hx with hx | rfl | hx | rfl | hx
    · exact quote_printable hx
    · decide
    · exact render_printable v hms.1 hx
    · decide
    · exact renderMembers_printable (m :: ms) hms.2 hx

end

end Json
