import ZyronChain.Lib.JsValueRoundTrip

/-!
# Strings of whole characters

The strings of ECMAScript without a lone surrogate are the sequences of characters, and on values
with such strings only `JSON.stringify` is the compact text of `Json`.
-/

namespace JsValue

/-! ### Strings -/

/-- `String.prototype.isWellFormed`. -/
def isWellFormed : JsString → Bool
  | [] => true
  | [u] => !(isHighSurrogate u || isLowSurrogate u)
  | u :: v :: us =>
    if isHighSurrogate u && isLowSurrogate v then isWellFormed us
    else !(isHighSurrogate u || isLowSurrogate u) && isWellFormed (v :: us)

theorem ofChars_cons (c : Char) (s : List Char) : ofChars (c :: s) = charUnits c ++ ofChars s := rfl

private theorem ofChars_of_unit {u : CodeUnit} {us : JsString} {s : List Char}
    (hu : (!(isHighSurrogate u || isLowSurrogate u)) = true) (hs : ofChars s = us) :
    ofChars (Char.ofNat u.val :: s) = u :: us := by
  rw [ofChars_cons, charUnits_ofNat (by rwa [Bool.not_eq_true'] at hu), hs]
  rfl

/-- A string without lone surrogates is a sequence of characters. -/
theorem exists_ofChars (us : JsString) (h : isWellFormed us = true) : ∃ s, ofChars s = us := by
  induction us using isWellFormed.induct with
  | case1 => exact ⟨[], rfl⟩
  | case2 u => exact ⟨_, ofChars_of_unit h (rfl : ofChars [] = [])⟩
  | case3 u v us hpair ih =>
    rw [isWellFormed, if_pos hpair] at h
    obtain ⟨s, hs⟩ := ih h
    refine ⟨pairChar u v :: s, ?_⟩
    rw [ofChars_cons, charUnits_pairChar hpair, hs]
    rfl
  | case4 u v us hpair ih =>
    rw [isWellFormed, if_neg hpair, Bool.and_eq_true] at h
    obtain ⟨s, hs⟩ := ih h.2
    exact ⟨_, ofChars_of_unit h.1 hs⟩

private theorem toNat_range (c : Char) : c.toNat < 0xd800 ∨ 0xdfff < c.toNat ∧ c.toNat < 0x110000 :=
  c.valid

/-- The last code unit of a character starts no surrogate pair. -/
theorem cutsNoPair_charUnits (c : Char) (b : JsString) : CutsNoPair (charUnits c) b := by
  intro u hu v _
  have hrange := toNat_range c
  have hlast : u.val = c.toNat % 65536 ∧ c.toNat < 0x10000 ∨
      u.val = (0xdc00 + (c.toNat - 0x10000) % 0x400) % 65536 := by
    unfold charUnits at hu
    split at hu
    · rename_i hsmall
      rw [List.getLast?_singleton, Option.mem_some_iff] at hu
      exact .inl ⟨by rw [← hu, Fin.val_ofNat], hsmall⟩
    · rw [List.getLast?_cons_cons, List.getLast?_singleton, Option.mem_some_iff] at hu
      exact .inr (by rw [← hu, Fin.val_ofNat])
  have hhigh : isHighSurrogate u = false := by
    rw [isHighSurrogate, decide_eq_false_iff_not]
    omega
  rw [hhigh, Bool.false_and]

theorem quoteUnits_charUnits (c : Char) : quoteUnits (charUnits c) = Json.escape c := by
  have hrange := toNat_range c
  unfold charUnits
  split
  · have hval : (Fin.ofNat 65536 c.toNat).val = c.toNat := Nat.mod_eq_of_lt (by omega)
    have hunit : (isHighSurrogate (Fin.ofNat 65536 c.toNat) ||
        isLowSurrogate (Fin.ofNat 65536 c.toNat)) = false := by
      rw [isHighSurrogate, isLowSurrogate, hval, Bool.or_eq_false_iff, decide_eq_false_iff_not,
        decide_eq_false_iff_not]
      omega
    rw [quoteUnits, quoteUnit, hunit, hval, Char.ofNat_toNat]
    rfl
  · rename_i hlarge
    have hhigh : (Fin.ofNat 65536 (0xd800 + (c.toNat - 0x10000) / 0x400)).val =
        0xd800 + (c.toNat - 0x10000) / 0x400 := Nat.mod_eq_of_lt (by omega)
    have hlow : (Fin.ofNat 65536 (0xdc00 + (c.toNat - 0x10000) % 0x400)).val =
        0xdc00 + (c.toNat - 0x10000) % 0x400 := Nat.mod_eq_of_lt (by omega)
    have hpair : (isHighSurrogate (Fin.ofNat 65536 (0xd800 + (c.toNat - 0x10000) / 0x400)) &&
        isLowSurrogate (Fin.ofNat 65536 (0xdc00 + (c.toNat - 0x10000) % 0x400))) = true := by
      rw [isHighSurrogate, isLowSurrogate, hhigh, hlow, Bool.and_eq_true, decide_eq_true_eq,
        decide_eq_true_eq]
      omega
    have hchar : pairChar (Fin.ofNat 65536 (0xd800 + (c.toNat - 0x10000) / 0x400))
        (Fin.ofNat 65536 (0xdc00 + (c.toNat - 0x10000) % 0x400)) = c := by
      have hcode : 0x10000 + (0xd800 + (c.toNat - 0x10000) / 0x400 - 0xd800) * 0x400 +
          (0xdc00 + (c.toNat - 0x10000) % 0x400 - 0xdc00) = c.toNat := by omega
      rw [pairChar, hhigh, hlow, hcode, Char.ofNat_toNat]
    rw [quoteUnits, if_pos hpair, hchar, Json.escape_eq_self (by omega)]
    rfl

theorem quoteUnits_ofChars (s : List Char) : quoteUnits (ofChars s) = s.flatMap Json.escape := by
  induction s with
  | nil => rfl
  | cons c s ih =>
    rw [ofChars_cons, quoteUnits_append (cutsNoPair_charUnits c _), quoteUnits_charUnits, ih]
    rfl

theorem quoteString_ofChars (s : List Char) : quoteString (ofChars s) = Json.quote s := by
  rw [quoteString, quoteUnits_ofChars, Json.quote]

/-! ### Values -/

mutual

/-- A value whose strings are sequences of characters. -/
def ofJson : Json → JsValue
  | .null => null
  | .bool b => bool b
  | .num n => num n
  | .decimal literal => decimal literal
  | .str s => str (ofChars s.toList)
  | .arr items => arr (ofJsonItems items)
  | .obj members => obj (ofJsonMembers members)

def ofJsonItems : List Json → List JsValue
  | [] => []
  | v :: vs => ofJson v :: ofJsonItems vs

def ofJsonMembers : List (String × Json) → List (JsString × JsValue)
  | [] => []
  | (k, v) :: ms => (ofChars k.toList, ofJson v) :: ofJsonMembers ms

end

theorem ofJsonMembers_eq_map (ms : List (String × Json)) :
    ofJsonMembers ms = ms.map fun m => (ofChars m.1.toList, ofJson m.2) := by
  induction ms with
  | nil => rfl
  | cons m ms ih => rw [ofJsonMembers, ih, List.map_cons]

mutual

/-- The two texts of a value agree. -/
theorem stringify_ofJson (v : Json) : stringify (ofJson v) = Json.render v := by
  cases v with
  | null => rfl
  | bool b => cases b <;> rfl
  | num | decimal => rfl
  | str s => exact quoteString_ofChars s.toList
  | arr items => rw [ofJson, stringify, stringifyItems_ofJson items, Json.render]
  | obj members => rw [ofJson, stringify, stringifyMembers_ofJson members, Json.render]

theorem stringifyItems_ofJson (vs : List Json) :
    stringifyItems (ofJsonItems vs) = Json.renderItems vs := by
  match vs with
  | [] => rfl
  | [v] => exact stringify_ofJson v
  | v :: w :: vs =>
    have htail := stringifyItems_ofJson (w :: vs)
    rw [ofJsonItems] at htail
    rw [ofJsonItems, ofJsonItems, stringifyItems, stringify_ofJson v, htail, Json.renderItems]

theorem stringifyMembers_ofJson (ms : List (String × Json)) :
    stringifyMembers (ofJsonMembers ms) = Json.renderMembers ms := by
  match ms with
  | [] => rfl
  | [(k, v)] =>
    rw [ofJsonMembers, ofJsonMembers, stringifyMembers, quoteString_ofChars, stringify_ofJson v,
      Json.renderMembers]
  | (k, v) :: (l, w) :: ms =>
    have htail := stringifyMembers_ofJson ((l, w) :: ms)
    rw [ofJsonMembers] at htail
    rw [ofJsonMembers, ofJsonMembers, stringifyMembers, quoteString_ofChars, stringify_ofJson v,
      htail, Json.renderMembers]

end

mutual

/-- No string of the value has a lone surrogate. -/
def Unicode : JsValue → Prop
  | str s => isWellFormed s = true
  | arr items => UnicodeItems items
  | obj members => UnicodeMembers members
  | _ => True

def UnicodeItems : List JsValue → Prop
  | [] => True
  | v :: vs => Unicode v ∧ UnicodeItems vs

def UnicodeMembers : List (JsString × JsValue) → Prop
  | [] => True
  | (k, v) :: ms => isWellFormed k = true ∧ Unicode v ∧ UnicodeMembers ms

end

mutual

/-- Up to the sign of zero, a value without lone surrogates has strings of characters. -/
theorem exists_ofJson (v : JsValue) (h : Unicode v) : ∃ j, zeroed v = ofJson j := by
  cases v with
  | null => exact ⟨.null, rfl⟩
  | bool b => exact ⟨.bool b, rfl⟩
  | num n => exact ⟨.num n, rfl⟩
  | negZero => exact ⟨.num 0, rfl⟩
  | decimal literal => exact ⟨.decimal literal, rfl⟩
  | str s =>
    obtain ⟨cs, rfl⟩ := exists_ofChars s h
    exact ⟨.str (String.ofList cs), by rw [ofJson, String.toList_ofList, zeroed]⟩
  | arr items =>
    obtain ⟨js, hjs⟩ := exists_ofJsonItems items h
    exact ⟨.arr js, by rw [zeroed, hjs, ofJson]⟩
  | obj members =>
    obtain ⟨js, hjs⟩ := exists_ofJsonMembers members h
    exact ⟨.obj js, by rw [zeroed, hjs, ofJson]⟩

theorem exists_ofJsonItems (vs : List JsValue) (h : UnicodeItems vs) :
    ∃ js, zeroedItems vs = ofJsonItems js := by
  match vs with
  | [] => exact ⟨[], rfl⟩
  | v :: vs =>
    obtain ⟨j, hj⟩ := exists_ofJson v h.1
    obtain ⟨js, hjs⟩ := exists_ofJsonItems vs h.2
    exact ⟨j :: js, by rw [zeroedItems, hj, hjs, ofJsonItems]⟩

theorem exists_ofJsonMembers (ms : List (JsString × JsValue)) (h : UnicodeMembers ms) :
    ∃ js, zeroedMembers ms = ofJsonMembers js := by
  match ms with
  | [] => exact ⟨[], rfl⟩
  | (k, v) :: ms =>
    obtain ⟨cs, rfl⟩ := exists_ofChars k h.1
    obtain ⟨j, hj⟩ := exists_ofJson v h.2.1
    obtain ⟨js, hjs⟩ := exists_ofJsonMembers ms h.2.2
    exact ⟨(String.ofList cs, j) :: js, by
      rw [zeroedMembers, hj, hjs, ofJsonMembers, String.toList_ofList]⟩

end

end JsValue
