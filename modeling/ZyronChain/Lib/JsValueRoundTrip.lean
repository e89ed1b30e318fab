import ZyronChain.Lib.JsonRoundTrip
import ZyronChain.Lib.JsValue

/-!
# Reading back what ECMAScript writes

`JSON.parse` undoes `JSON.stringify` on every value without non-integer numbers and without a
repeated member name, up to negative zeros.

A body of a string literal is written code unit by code unit, and pair by pair where a high
surrogate is followed by a low one, so writing two parts of a string one after the other writes
the string unless a pair is cut.
-/

namespace JsValue

open Json (Reader)

/-! ### Code units -/

private theorem ofNat_val (u : CodeUnit) : Fin.ofNat 65536 u.val = u :=
  Fin.ext (Nat.mod_eq_of_lt u.isLt)

variable {n : Nat} {u v : CodeUnit} {c : Char} {ms : List (JsString × JsValue)}

private theorem toNat_ofNat (h : n.isValidChar) : (Char.ofNat n).toNat = n := by
  rw [Char.ofNat, dif_pos h]
  rfl

private theorem isValidChar_unit (h : (isHighSurrogate u || isLowSurrogate u) = false) :
    u.val.isValidChar := by
  simp only [isHighSurrogate, isLowSurrogate, Bool.or_eq_false_iff, decide_eq_false_iff_not] at h
  have hlt := u.isLt
  rw [Nat.isValidChar]
  omega

theorem charUnits_ofNat (h : (isHighSurrogate u || isLowSurrogate u) = false) :
    charUnits (Char.ofNat u.val) = [u] := by
  rw [charUnits, toNat_ofNat (isValidChar_unit h), if_pos u.isLt, ofNat_val]

private theorem pair_range (h : (isHighSurrogate u && isLowSurrogate v) = true) :
    0xd800 ≤ u.val ∧ u.val ≤ 0xdbff ∧ 0xdc00 ≤ v.val ∧ v.val ≤ 0xdfff := by
  simpa [isHighSurrogate, isLowSurrogate, and_assoc] using h

theorem toNat_pairChar (h : (isHighSurrogate u && isLowSurrogate v) = true) :
    (pairChar u v).toNat = 0x10000 + (u.val - 0xd800) * 0x400 + (v.val - 0xdc00) := by
  have hrange := pair_range h
  refine toNat_ofNat ?_
  rw [Nat.isValidChar]
  omega

theorem charUnits_pairChar (h : (isHighSurrogate u && isLowSurrogate v) = true) :
    charUnits (pairChar u v) = [u, v] := by
  have hrange := pair_range h
  have hhigh : 0xd800 + ((pairChar u v).toNat - 0x10000) / 0x400 = u.val := by
    rw [toNat_pairChar h]
    omega
  have hlow : 0xdc00 + ((pairChar u v).toNat - 0x10000) % 0x400 = v.val := by
    rw [toNat_pairChar h]
    omega
  have hlt : ¬ (pairChar u v).toNat < 0x10000 := by
    rw [toNat_pairChar h]
    omega
  rw [charUnits, if_neg hlt, hhigh, hlow, ofNat_val, ofNat_val]

private theorem hexValue_hexDigit (h : n < 16) : Json.hexValue (Json.hexDigit n) = some n := by
  have key : ∀ n : Fin 16, Json.hexValue (Json.hexDigit n.val) = some n.val := by decide
  exact key ⟨n, h⟩

private theorem unitOf_digits (u : CodeUnit) :
    unitOf (Json.hexDigit (u.val / 4096)) (Json.hexDigit (u.val / 256 % 16))
      (Json.hexDigit (u.val / 16 % 16)) (Json.hexDigit (u.val % 16)) = some u := by
  have hlt := u.isLt
  rw [unitOf, hexValue_hexDigit (by omega), hexValue_hexDigit (by omega),
    hexValue_hexDigit (by omega), hexValue_hexDigit (by omega)]
  have hval : (u.val / 4096 * 16 + u.val / 256 % 16) * 256 + u.val / 16 % 16 * 16 + u.val % 16 =
      u.val := by omega
  simp [hval]

/-! ### String literals -/

theorem unitsBody_quote (s : List Char) : unitsBody ('"' :: s) = some ([], s) := by
  rw [unitsBody.eq_def]
  simp

theorem unitsBody_unit (a b c d : Char) (s : List Char) :
    unitsBody ('\\' :: 'u' :: a :: b :: c :: d :: s) =
      (unitOf a b c d).bind fun u => (unitsBody s).map fun p => (u :: p.1, p.2) := by
  rw [unitsBody.eq_def]
  simp

theorem unitsBody_escape {e : Char} (he : e ≠ 'u') (s : List Char) :
    unitsBody ('\\' :: e :: s) =
      (Json.unescape e).bind fun ch => (unitsBody s).map fun p => (charUnits ch ++ p.1, p.2) := by
  rw [unitsBody.eq_def]
  simp [he]

theorem unitsBody_plain (hq : c ≠ '"') (hb : c ≠ '\\') (hc : ¬ c.toNat < 0x20) (s : List Char) :
    unitsBody (c :: s) = (unitsBody s).map fun p => (charUnits c ++ p.1, p.2) := by
  rw [unitsBody.eq_def]
  simp [hq, hb, hc]

private theorem unitOf_control (h : c.toNat < 0x20) :
    unitOf '0' '0' (Json.hexDigit (c.toNat / 16)) (Json.hexDigit (c.toNat % 16)) =
      some (Fin.ofNat 65536 c.toNat) := by
  have key : ∀ n : Fin 32, unitOf '0' '0' (Json.hexDigit (n.val / 16))
      (Json.hexDigit (n.val % 16)) = some (Fin.ofNat 65536 n.val) := by decide
  exact key ⟨c.toNat, h⟩

theorem unitsBody_escape_append (c : Char) (t : List Char) :
    unitsBody (Json.escape c ++ t) = (unitsBody t).map fun p => (charUnits c ++ p.1, p.2) := by
  unfold Json.escape
  split_ifs with h1 h2 h3 h4 h5 h6 h7 h8
  iterate 7
    · subst_vars
      exact unitsBody_escape (by decide) t
  · have hunits : charUnits c = [Fin.ofNat 65536 c.toNat] := if_pos (by omega)
    change unitsBody ('\\' :: 'u' :: '0' :: '0' :: _ :: _ :: t) = _
    rw [unitsBody_unit, unitOf_control h8, hunits]
    rfl
  · exact unitsBody_plain h1 h2 h8 t

private theorem unitsBody_quoteUnit (u : CodeUnit) (t : List Char) :
    unitsBody (quoteUnit u ++ t) = (unitsBody t).map fun p => (u :: p.1, p.2) := by
  rw [quoteUnit]
  by_cases h : (isHighSurrogate u || isLowSurrogate u) = true
  · rw [if_pos h]
    change unitsBody ('\\' :: 'u' :: _ :: _ :: _ :: _ :: t) = _
    rw [unitsBody_unit, unitOf_digits]
    rfl
  · rw [if_neg h, unitsBody_escape_append, charUnits_ofNat (Bool.not_eq_true _ ▸ h)]
    rfl

private theorem unitsBody_pairChar (h : (isHighSurrogate u && isLowSurrogate v) = true)
    (t : List Char) :
    unitsBody (pairChar u v :: t) = (unitsBody t).map fun p => (u :: v :: p.1, p.2) := by
  have hlarge : 0x10000 ≤ (pairChar u v).toNat := by
    rw [toNat_pairChar h]
    omega
  have hne : ∀ c : Char, c.toNat < 0x10000 → pairChar u v ≠ c := by
    rintro c hc heq
    rw [heq] at hlarge
    omega
  rw [unitsBody_plain (hne _ (by decide)) (hne _ (by decide)) (by omega), charUnits_pairChar h]
  rfl

/-- Reading a string literal back. -/
theorem unitsBody_quoteUnits (s : JsString) (r : List Char) :
    unitsBody (quoteUnits s ++ '"' :: r) = some (s, r) := by
  induction s using quoteUnits.induct with
  | case1 => exact unitsBody_quote r
  | case2 u =>
    rw [quoteUnits, unitsBody_quoteUnit, unitsBody_quote]
    rfl
  | case3 u v us hpair ih =>
    rw [quoteUnits, if_pos hpair, List.cons_append, unitsBody_pairChar hpair, ih]
    rfl
  | case4 u v us hpair ih =>
    rw [quoteUnits, if_neg hpair, List.append_assoc, unitsBody_quoteUnit, ih]
    rfl

/-- No surrogate pair stands across the boundary of two parts. -/
def CutsNoPair (a b : JsString) : Prop :=
  ∀ u ∈ a.getLast?, ∀ v ∈ b.head?, (isHighSurrogate u && isLowSurrogate v) = false

/-- Two parts that cut no pair are written one after the other. -/
theorem quoteUnits_append {a b : JsString} (h : CutsNoPair a b) :
    quoteUnits (a ++ b) = quoteUnits a ++ quoteUnits b := by
  induction a using quoteUnits.induct with
  | case1 => rfl
  | case2 u =>
    cases b with
    | nil => simp [quoteUnits]
    | cons v vs =>
      have hcut : ¬ (isHighSurrogate u && isLowSurrogate v) = true := by
        rw [h u rfl v rfl]
        exact Bool.false_ne_true
      have hquote : quoteUnits (u :: v :: vs) = quoteUnit u ++ quoteUnits (v :: vs) := by
        rw [quoteUnits, if_neg hcut]
      rw [List.singleton_append, hquote, quoteUnits]
  | case3 u v us hpair ih =>
    have hrest : CutsNoPair us b := by
      cases us with
      | nil => exact fun w hw => nomatch hw
      | cons w ws => exact h
    rw [List.cons_append, List.cons_append, quoteUnits, if_pos hpair, quoteUnits, if_pos hpair,
      ih hrest, List.cons_append]
  | case4 u v us hpair ih =>
    rw [List.cons_append, List.cons_append, quoteUnits, if_neg hpair, quoteUnits, if_neg hpair,
      List.append_assoc, ← List.cons_append, ih h]

/-! ### Objects -/

theorem collect_of_nodup (h : (ms.map Prod.fst).Nodup) : collect ms = ms :=
  Json.foldl_fresh (fun _ _ hm => if_neg hm) [] h

theorem map_fst_zeroedMembers (ms : List (JsString × JsValue)) :
    (zeroedMembers ms).map Prod.fst = ms.map Prod.fst := by
  induction ms with
  | nil => rfl
  | cons m ms ih => rw [zeroedMembers, List.map_cons, List.map_cons, ih]

/-! ### Values -/

/-- The first character of a text is visible and no closing bracket. -/
theorem stringify_head (v : JsValue) (hv : Plain v) (t : List Char) :
    ∃ c s, stringify v ++ t = c :: s ∧ Json.isSpace c = false ∧ c ≠ ']' := by
  cases v with
  | null => exact ⟨'n', _, rfl, by decide, by decide⟩
  | bool b => cases b <;> exact ⟨_, _, rfl, by decide, by decide⟩
  | num n => exact Json.render_head (.num n) trivial t
  | negZero => exact ⟨'0', _, rfl, by decide, by decide⟩
  | decimal l => exact hv.elim
  | str k => exact ⟨'"', _, rfl, by decide, by decide⟩
  | arr vs => exact ⟨'[', _, rfl, by decide, by decide⟩
  | obj ms => exact ⟨'{', _, rfl, by decide, by decide⟩

theorem stringifyItems_head {vs : List JsValue} (hvs : PlainItems vs) (hne : vs ≠ [])
    (t : List Char) :
    ∃ c s, stringifyItems vs ++ t = c :: s ∧ Json.isSpace c = false ∧ c ≠ ']' := by
  match vs, hne with
  | [v], _ => exact stringify_head v hvs.1 t
  | v :: w :: vs, _ =>
    obtain ⟨c, s, hcs, hspace, hc⟩ := stringify_head v hvs.1 (',' :: stringifyItems (w :: vs) ++ t)
    exact ⟨c, s, by rw [stringifyItems, ← hcs]; simp, hspace, hc⟩

theorem stringifyMembers_head (hne : ms ≠ []) (t : List Char) :
    ∃ s, stringifyMembers ms ++ t = '"' :: s := by
  match ms, hne with
  | [(k, v)], _ => exact ⟨_, rfl⟩
  | (k, v) :: m :: ms, _ => exact ⟨_, rfl⟩

private theorem bracketed_of_head {α : Type} {close : Char} {e : JsValue} {f : α → JsValue}
    {p : Reader α} {s : List Char} (hspace : Json.isSpace c = false) (hc : c ≠ close) :
    bracketed close e f p (c :: s) = p.map f (c :: s) := by
  rw [bracketed, Json.skipSpace_of_visible hspace, List.head?_cons, if_neg (by simpa using hc)]

private theorem members_quoteString (n : Nat) (k : JsString) (t : List Char) :
    members (n + 1) (quoteString k ++ ':' :: t) =
      (value n t).bind fun q => Reader.after (fun d =>
        if d = ',' then Reader.map ((k, q.1) :: ·) (members n)
        else if d = '}' then .done [(k, q.1)]
        else .fail) q.2 := by
  rw [members, quoteString, List.cons_append, Json.after_cons (by decide), if_pos rfl,
    List.append_assoc, List.singleton_append, Reader.andThen, unitsBody_quoteUnits,
    Option.bind_some, Json.after_cons (by decide), if_pos rfl]
  rfl

private theorem dispatch_number {ms : Reader (List (JsString × JsValue))}
    {is : Reader (List JsValue)} {x : Char} (hx : Json.isNumberChar x = true) (s : List Char) :
    dispatch ms is x s = number (x :: s) := by
  have hne : ∀ y, Json.isNumberChar y = false → x ≠ y := by
    rintro y hy rfl
    rw [hx] at hy
    cases hy
  unfold dispatch
  rw [if_neg (hne _ (by decide)), if_neg (hne _ (by decide)), if_neg (hne _ (by decide)),
    if_neg (hne _ (by decide)), if_neg (hne _ (by decide)), if_neg (hne _ (by decide))]

private theorem intText_head_zero {n : Int} (h : (Json.intText n).head? = some '-') : n ≠ 0 := by
  rintro rfl
  revert h
  decide

private theorem number_intText (n : Int) {r : List Char} (hr : Json.Stops r) :
    number (Json.intText n ++ r) = some (num n, r) := by
  have hhead : (Json.intText n ++ r).head? = (Json.intText n).head? :=
    List.head?_append_of_ne_nil _ (Json.intText_ne_nil n)
  rw [number, Json.number_intText n hr, Option.map_some, hhead]
  by_cases hneg : (Json.intText n).head? = some '-'
  · have hne := intText_head_zero hneg
    simp [ofNumber, hne]
  · simp [ofNumber, hneg]

private theorem value_intText (m : Int) (n : Nat) {r : List Char} (hr : Json.Stops r) :
    value (n + 1) (Json.intText m ++ r) = some (num m, r) := by
  obtain ⟨c, s, hcs⟩ := List.exists_cons_of_ne_nil (Json.intText_ne_nil m)
  have hc : Json.isNumberChar c = true :=
    Json.intText_isNumberChar (show c ∈ Json.intText m by rw [hcs]; simp)
  obtain ⟨c', s', hcs', hspace, -⟩ := stringify_head (num m) trivial r
  have hcons : Json.intText m ++ r = c :: (s ++ r) := by rw [hcs]; rfl
  have hspace' : Json.isSpace c = false := by
    rw [stringify, hcons, List.cons.injEq] at hcs'
    rw [hcs'.1]
    exact hspace
  rw [hcons, value, Json.after_cons hspace', dispatch_number hc, ← hcons]
  exact number_intText m hr

private theorem fuel_pos {v : JsValue} (hv : Plain v) (hn : (stringify v).length ≤ n) :
    ∃ k, n = k + 1 := by
  obtain ⟨c, s, hcs, -, -⟩ := stringify_head v hv []
  rw [List.append_nil] at hcs
  rw [hcs, List.length_cons] at hn
  exact ⟨n - 1, by omega⟩

mutual

theorem value_stringify (v : JsValue) (hv : Plain v) {n : Nat} (hn : (stringify v).length ≤ n)
    {r : List Char} (hr : Json.Stops r) : value n (stringify v ++ r) = some (zeroed v, r) := by
  obtain ⟨n, rfl⟩ := fuel_pos hv hn
  match v, hv with
  | .null, _ => rfl
  | .bool true, _ => rfl
  | .bool false, _ => rfl
  | .num m, _ => exact value_intText m n hr
  | .negZero, _ => exact value_intText 0 n hr
  | .str k, _ =>
    change value (n + 1) ('"' :: ((quoteUnits k ++ ['"']) ++ r)) = _
    rw [value, Json.after_cons (by decide), List.append_assoc, List.singleton_append, dispatch,
      if_neg (by decide), if_neg (by decide), if_pos rfl, Reader.map, unitsBody_quoteUnits]
    rfl
  | .arr [], _ => rfl
  | .arr (v :: vs), hv =>
    rw [stringify, List.length_cons, List.length_append] at hn
    obtain ⟨c, s, hcs, hspace, hc⟩ := stringifyItems_head hv (List.cons_ne_nil v vs) (']' :: r)
    have ih := items_stringify (v :: vs) hv (List.cons_ne_nil v vs) (n := n)
      (by simp only [List.length_singleton] at hn; omega) r
    rw [stringify, List.cons_append, List.append_assoc, List.singleton_append, value,
      Json.after_cons (by decide)]
    change bracketed ']' _ _ _ _ = _
    rw [hcs] at ih ⊢
    rw [bracketed_of_head hspace hc, Reader.map, ih]
    rfl
  | .obj [], _ => rfl
  | .obj (m :: ms), hv =>
    rw [stringify, List.length_cons, List.length_append] at hn
    obtain ⟨s, hs⟩ := stringifyMembers_head (List.cons_ne_nil m ms) ('}' :: r)
    have hnodup : ((zeroedMembers (m :: ms)).map Prod.fst).Nodup := by
      rw [map_fst_zeroedMembers]
      exact hv.1
    have ih := members_stringify (m :: ms) hv.2 (List.cons_ne_nil m ms) (n := n)
      (by simp only [List.length_singleton] at hn; omega) r
    rw [stringify, List.cons_append, List.append_assoc, List.singleton_append, value,
      Json.after_cons (by decide)]
    change bracketed '}' _ _ _ _ = _
    rw [hs] at ih ⊢
    rw [bracketed_of_head (by decide) (by decide), Reader.map, ih, Option.map_some,
      collect_of_nodup hnodup, zeroed]

theorem items_stringify (vs : List JsValue) (hvs : PlainItems vs) (hne : vs ≠ []) {n : Nat}
    (hn : (stringifyItems vs).length < n) (r : List Char) :
    items n (stringifyItems vs ++ ']' :: r) = some (zeroedItems vs, r) := by
  obtain ⟨n, rfl⟩ : ∃ k, n = k + 1 := ⟨n - 1, by omega⟩
  match vs, hne with
  | [v], _ =>
    have ih := value_stringify v hvs.1 (n := n) (by rw [stringifyItems] at hn; omega)
      (Json.stops_cons (c := ']') (by decide) r)
    rw [stringifyItems, items, Reader.andThen, ih, Option.bind_some, Json.after_cons (by decide)]
    rfl
  | v :: w :: vs, _ =>
    rw [stringifyItems, List.length_append, List.length_cons] at hn
    have ih := value_stringify v hvs.1 (n := n) (by omega)
      (Json.stops_cons (c := ',') (by decide) (stringifyItems (w :: vs) ++ ']' :: r))
    have ih' := items_stringify (w :: vs) hvs.2 (List.cons_ne_nil w vs) (n := n) (by omega) r
    rw [stringifyItems, List.append_assoc, List.cons_append, items, Reader.andThen, ih,
      Option.bind_some, Json.after_cons (by decide)]
    change Reader.map _ (items n) _ = _
    rw [Reader.map, ih', zeroedItems]
    rfl

theorem members_stringify (ms : List (JsString × JsValue)) (hms : PlainMembers ms) (hne : ms ≠ [])
    {n : Nat} (hn : (stringifyMembers ms).length < n) (r : List Char) :
    members n (stringifyMembers ms ++ '}' :: r) = some (zeroedMembers ms, r) := by
  obtain ⟨n, rfl⟩ : ∃ k, n = k + 1 := ⟨n - 1, by omega⟩
  match ms, hne with
  | [(k, v)], _ =>
    rw [stringifyMembers, List.length_append, List.length_cons] at hn
    have ih := value_stringify v hms.1 (n := n) (by omega)
      (Json.stops_cons (c := '}') (by decide) r)
    rw [stringifyMembers, List.append_assoc, List.cons_append, members_quoteString, ih,
      Option.bind_some, Json.after_cons (by decide)]
    simp [Reader.done, zeroedMembers]
  | (k, v) :: m :: ms, _ =>
    rw [stringifyMembers, List.length_append, List.length_cons, List.length_append,
      List.length_cons] at hn
    have ih := value_stringify v hms.1 (n := n) (by omega)
      (Json.stops_cons (c := ',') (by decide) (stringifyMembers (m :: ms) ++ '}' :: r))
    have ih' := members_stringify (m :: ms) hms.2 (List.cons_ne_nil m ms) (n := n) (by omega) r
    rw [stringifyMembers, List.append_assoc, List.cons_append, List.append_assoc,
      List.cons_append, members_quoteString, ih, Option.bind_some, Json.after_cons (by decide),
      if_pos rfl, Reader.map, ih']
    simp [zeroedMembers]

end

/-- Reading undoes writing, up to negative zeros. -/
theorem parse_stringify {v : JsValue} (hv : Plain v) : parse (stringify v) = some (zeroed v) := by
  have h := value_stringify v hv (Nat.le_succ _) Json.stops_nil
  rw [List.append_nil] at h
  rw [parse, h]
  rfl

theorem zeroed_eq_of_stringify {v w : JsValue} (hv : Plain v) (hw : Plain w)
    (h : stringify v = stringify w) : zeroed v = zeroed w := by
  have hparse := parse_stringify hv
  rw [h, parse_stringify hw, Option.some.injEq] at hparse
  exact hparse.symm

mutual

theorem stringify_zeroed (v : JsValue) : stringify (zeroed v) = stringify v := by
  cases v with
  | negZero => rfl
  | arr items => rw [zeroed, stringify, stringify, stringifyItems_zeroed items]
  | obj members => rw [zeroed, stringify, stringify, stringifyMembers_zeroed members]
  | null | bool | num | decimal | str => rfl

theorem stringifyItems_zeroed (vs : List JsValue) :
    stringifyItems (zeroedItems vs) = stringifyItems vs := by
  match vs with
  | [] => rfl
  | [v] => exact stringify_zeroed v
  | v :: w :: vs =>
    have ih := stringifyItems_zeroed (w :: vs)
    rw [zeroedItems] at ih
    rw [zeroedItems, zeroedItems, stringifyItems, stringifyItems, stringify_zeroed v, ih]

theorem stringifyMembers_zeroed (ms : List (JsString × JsValue)) :
    stringifyMembers (zeroedMembers ms) = stringifyMembers ms := by
  match ms with
  | [] => rfl
  | [(k, v)] =>
    rw [zeroedMembers, zeroedMembers, stringifyMembers, stringifyMembers, stringify_zeroed v]
  | (k, v) :: (l, w) :: ms =>
    have ih := stringifyMembers_zeroed ((l, w) :: ms)
    rw [zeroedMembers] at ih
    rw [zeroedMembers, zeroedMembers, stringifyMembers, stringifyMembers, stringify_zeroed v, ih]

end

end JsValue
