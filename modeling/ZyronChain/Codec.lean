import Mathlib.Data.Nat.Digits.Defs
import ZyronChain.Basic
import ZyronChain.Lib.Checks
import ZyronChain.Lib.JsonRoundTrip
import ZyronChain.Lib.JsonSize

/-!
# Canonical JSON

The encoding that is hashed and signed: members sorted by the UTF-16 code units of their names,
safe integers only, bounded nesting, no white space.

Source: `l1/src/codec.ts`.
-/

namespace ZyronChain

open Checks List Json

/-! ### The order of members -/

def utf16 (s : String) : List Nat :=
  s.toList.flatMap fun c =>
    if c.toNat < 0x10000 then [c.toNat]
    else [0xd800 + (c.toNat - 0x10000) / 0x400, 0xdc00 + (c.toNat - 0x10000) % 0x400]

/-- `compareCanonicalStrings(left, right) <= 0`. -/
def canonicalLe (left right : String) : Bool := decide (List.instLE.le (utf16 left) (utf16 right))

/-- A property name that ECMAScript treats as an array index. -/
def arrayIndex? (key : String) : Option Nat := let digits := key.toList
  let n := digits.foldl (fun n c => 10 * n + (c.toNat - '0'.toNat)) 0
  if digits = Json.natText n ∧ n ≤ 4294967294 then some n else none

variable {α : Type}

/-- Inserts a member before the first one of a later name. -/
def insertEntry (e : String × α) : List (String × α) → List (String × α)
  | [] => [e]
  | f :: fs => if canonicalLe e.1 f.1 then e :: f :: fs else f :: insertEntry e fs

/-- `Object.entries(object).sort(…)`. -/
def sortEntries : List (String × α) → List (String × α)
  | [] => []
  | e :: es => insertEntry e (sortEntries es)

/-- Inserts a member with an array index before the first one of a larger index. -/
def insertIndex (e : Nat × String × α) : List (Nat × String × α) → List (Nat × String × α)
  | [] => [e]
  | f :: fs => if e.1 ≤ f.1 then e :: f :: fs else f :: insertIndex e fs

/-- The members of an object whose names are array indices, with the index. -/
def indexEntries : List (String × α) → List (Nat × String × α)
  | [] => []
  | e :: es =>
    match arrayIndex? e.1 with
    | some n => insertIndex (n, e) (indexEntries es)
    | none => indexEntries es

/-- The order in which `JSON.stringify` writes the members of `Object.fromEntries(entries)`:
array indices first, in ascending order. -/
def fromEntries (es : List (String × α)) : List (String × α) :=
  (indexEntries es).map Prod.snd ++ es.filter fun e => (arrayIndex? e.1).isNone

/-- The members of a normalized object. -/
def orderEntries (es : List (String × α)) : List (String × α) := fromEntries (sortEntries es)

/-- Names in the order of the encoding, none of them an array index. -/
def KeysInOrder (keys : List String) : Prop :=
  keys.Pairwise (fun a b => canonicalLe a b = true) ∧ ∀ k ∈ keys, arrayIndex? k = none

instance (keys : List String) : Decidable (KeysInOrder keys) := inferInstanceAs (Decidable (_ ∧ _))

variable {es : List (String × α)}

theorem sortEntries_eq_self (h : (es.map Prod.fst).Pairwise (fun a b => canonicalLe a b = true)) :
    sortEntries es = es := by
  induction es with
  | nil => rfl
  | cons e es ih =>
    rw [map_cons, pairwise_cons] at h
    rw [sortEntries, ih h.2]
    cases es with
    | nil => rfl
    | cons f fs => rw [insertEntry, if_pos (h.1 f.1 (by simp))]

theorem indexEntries_eq_nil (h : ∀ e ∈ es, arrayIndex? e.1 = none) : indexEntries es = [] := by
  induction es with
  | nil => rfl
  | cons e es ih =>
    rw [indexEntries, h e (by simp)]
    exact ih fun f hf => h f (by simp [hf])

theorem orderEntries_eq_self (h : KeysInOrder (es.map Prod.fst)) : orderEntries es = es := by
  have hindex : ∀ e ∈ es, arrayIndex? e.1 = none := fun e he =>
    h.2 e.1 (mem_map_of_mem he)
  rw [orderEntries, sortEntries_eq_self h.1, fromEntries, indexEntries_eq_nil hindex,
    map_nil, nil_append, filter_eq_self]
  intro e he
  rw [hindex e he]
  rfl

/-! ### Normal forms -/

mutual

/-- The value with the members of every object in the order of the encoding. -/
def normalize : Json → Json
  | .arr items => .arr (normalizeItems items)
  | .obj members => .obj (orderEntries (normalizeMembers members))
  | .null => .null
  | .bool b => .bool b
  | .num n => .num n
  | .decimal literal => .decimal literal
  | .str s => .str s

/-- The normal forms of the items of an array. -/
def normalizeItems : List Json → List Json
  | [] => []
  | v :: vs => normalize v :: normalizeItems vs

/-- The normal forms of the members of an object. -/
def normalizeMembers : List (String × Json) → List (String × Json)
  | [] => []
  | (k, v) :: ms => (k, normalize v) :: normalizeMembers ms

end

mutual

/-- Every object has its members in the order of the encoding. -/
def InOrder : Json → Prop
  | .arr items => InOrderItems items
  | .obj members => KeysInOrder (members.map Prod.fst) ∧ InOrderMembers members
  | .null | .bool _ | .num _ | .decimal _ | .str _ => True

/-- Every item of an array is in order. -/
def InOrderItems : List Json → Prop
  | [] => True
  | v :: vs => InOrder v ∧ InOrderItems vs

/-- The value of every member is in order. -/
def InOrderMembers : List (String × Json) → Prop
  | [] => True
  | (_, v) :: ms => InOrder v ∧ InOrderMembers ms

end

theorem inOrderItems_iff (vs : List Json) : InOrderItems vs ↔ ∀ v ∈ vs, InOrder v := by
  induction vs with
  | nil => simp [InOrderItems]
  | cons v vs ih => simp [InOrderItems, ih]

mutual

/-- A value in order is its own normal form. -/
theorem normalize_eq_self (v : Json) (h : InOrder v) : normalize v = v := by
  cases v with
  | arr items => rw [normalize, normalizeItems_eq_self items h]
  | obj members =>
    rw [normalize, normalizeMembers_eq_self members h.2, orderEntries_eq_self h.1]
  | null | bool | num | decimal | str => rfl

theorem normalizeItems_eq_self (vs : List Json) (h : InOrderItems vs) : normalizeItems vs = vs := by
  cases vs with
  | nil => rfl
  | cons v vs => rw [normalizeItems, normalize_eq_self v h.1, normalizeItems_eq_self vs h.2]

theorem normalizeMembers_eq_self (ms : List (String × Json)) (h : InOrderMembers ms) :
    normalizeMembers ms = ms := by
  cases ms with
  | nil => rfl
  | cons m ms => rw [normalizeMembers, normalize_eq_self m.2 h.1, normalizeMembers_eq_self ms h.2]

end

/-! ### The checks -/

/-- `MAX_CANONICAL_JSON_DEPTH`. -/
def maxCanonicalJsonDepth : Nat := 64

def depthExceeded : String := "Canonical JSON nesting depth exceeded"

def unsafeNumber : String := "Consensus numbers must be safe integers"

/-- The first failure, if there is one. -/
def firstError : List (String × Except String Unit) → Except String Unit
  | [] => .ok ()
  | (_, check) :: checks => check >>= fun _ => firstError checks

mutual

/-- The checks that `normalize` makes on the way, in its order. -/
def assertCanonical (depth : Nat) : Json → Except String Unit
  | .arr items => do
    throwIf (depth > maxCanonicalJsonDepth) depthExceeded
    assertCanonicalItems (depth + 1) items
  | .obj members => do
    throwIf (depth > maxCanonicalJsonDepth) depthExceeded
    firstError (sortEntries (memberChecks (depth + 1) members))
  | .num n => throwIf (¬ IsSafeInteger n) unsafeNumber
  | .decimal _ => .error unsafeNumber
  | .null | .bool _ | .str _ => .ok ()

/-- The checks of the items of an array. -/
def assertCanonicalItems (depth : Nat) : List Json → Except String Unit
  | [] => .ok ()
  | v :: vs => assertCanonical depth v >>= fun _ => assertCanonicalItems depth vs

/-- The check of each member of an object. -/
def memberChecks (depth : Nat) : List (String × Json) → List (String × Except String Unit)
  | [] => []
  | (k, v) :: ms => (k, assertCanonical depth v) :: memberChecks depth ms

end

/-- The canonical text of a value that passes the checks. -/
def canonicalText (v : Json) : List Char := Json.render (normalize v)

def canonicalJson (v : Json) : Except String (List Char) := do
  assertCanonical 0 v
  .ok (canonicalText v)

theorem canonicalJson_eq_ok {v : Json} {text : List Char} :
    canonicalJson v = .ok text ↔ assertCanonical 0 v = .ok () ∧ text = canonicalText v := by
  rw [canonicalJson, bind_eq_ok]
  constructor
  · rintro ⟨u, hu, htext⟩
    rw [Except.ok.injEq] at htext
    exact ⟨hu, htext.symm⟩
  · rintro ⟨hu, rfl⟩
    exact ⟨(), hu, rfl⟩

/-- Values of integers and strings are determined by their canonical text. -/
theorem canonicalText_injective {v w : Json} (hv : InOrder v) (hw : InOrder w)
    (hv' : v.Plain) (hw' : w.Plain) (h : canonicalText v = canonicalText w) : v = w := by
  rw [canonicalText, canonicalText, normalize_eq_self v hv, normalize_eq_self w hw] at h
  have hparse := parse_render hv'
  rw [h, parse_render hw', Option.some.injEq] at hparse
  exact hparse.symm

/-! ### Bytes -/

def utf8 (text : List Char) : List UInt8 := text.flatMap String.utf8EncodeChar

/-- `Buffer.byteLength(text, "utf8")`. -/
def byteLength (text : List Char) : Nat := (text.map Char.utf8Size).sum

theorem length_utf8 (text : List Char) : (utf8 text).length = byteLength text := by
  rw [utf8, byteLength, length_flatMap]
  congr 1
  exact map_congr_left fun c _ => String.length_utf8EncodeChar c

@[simp] theorem byteLength_nil : byteLength [] = 0 := rfl

@[simp] theorem byteLength_append (a b : List Char) :
    byteLength (a ++ b) = byteLength a + byteLength b := by
  rw [byteLength, map_append, sum_append, byteLength, byteLength]

@[simp] theorem byteLength_cons (c : Char) (b : List Char) :
    byteLength (c :: b) = c.utf8Size + byteLength b := by
  rw [byteLength, map_cons, sum_cons, byteLength]

theorem byteLength_eq_textSize (text : List Char) : byteLength text = Json.textSize text := rfl

theorem perm_insertEntry (e : String × α) (es : List (String × α)) :
    (insertEntry e es).Perm (e :: es) := by
  induction es with
  | nil => exact .refl _
  | cons f fs ih =>
    rw [insertEntry]
    split
    · exact .refl _
    · exact (ih.cons f).trans (.swap e f fs)

theorem perm_sortEntries (es : List (String × α)) : (sortEntries es).Perm es := by
  induction es with
  | nil => exact .refl _
  | cons e es ih => exact (perm_insertEntry e _).trans (ih.cons e)

theorem perm_insertIndex (e : Nat × String × α) (es : List (Nat × String × α)) :
    (insertIndex e es).Perm (e :: es) := by
  induction es with
  | nil => exact .refl _
  | cons f fs ih =>
    rw [insertIndex]
    split
    · exact .refl _
    · exact (ih.cons f).trans (.swap e f fs)

theorem perm_fromEntries (es : List (String × α)) : (fromEntries es).Perm es := by
  have hindex : ((indexEntries es).map Prod.snd).Perm
      (es.filter fun e => (arrayIndex? e.1).isSome) := by
    induction es with
    | nil => exact .refl _
    | cons e es ih =>
      rw [indexEntries]
      cases he : arrayIndex? e.1 with
      | none =>
        rw [filter_cons_of_neg (by simp [he])]
        exact ih
      | some n =>
        rw [filter_cons_of_pos (by simp [he])]
        exact ((perm_insertIndex (n, e) _).map Prod.snd).trans (ih.cons e)
  refine (hindex.append_right _).trans ?_
  have hsplit := filter_append_perm (fun e : String × α => (arrayIndex? e.1).isSome) es
  simpa only [Option.not_isSome] using hsplit

theorem perm_orderEntries (es : List (String × α)) : (orderEntries es).Perm es :=
  (perm_fromEntries _).trans (perm_sortEntries es)

mutual

theorem size_normalize (v : Json) : (normalize v).size = v.size := by
  cases v with
  | arr items => rw [normalize, Json.size, Json.size, sizeItems_normalizeItems items]
  | obj members =>
    rw [normalize, Json.size, Json.size, sizeMembers_perm (perm_orderEntries _),
      sizeMembers_normalizeMembers members]
  | null | bool | num | decimal | str => rfl

theorem sizeItems_normalizeItems (vs : List Json) :
    Json.sizeItems (normalizeItems vs) = Json.sizeItems vs := by
  cases vs with
  | nil => rfl
  | cons v vs =>
    rw [normalizeItems, Json.sizeItems, Json.sizeItems, size_normalize v,
      sizeItems_normalizeItems vs]

theorem sizeMembers_normalizeMembers (ms : List (String × Json)) :
    Json.sizeMembers (normalizeMembers ms) = Json.sizeMembers ms := by
  match ms with
  | [] => rfl
  | (k, v) :: ms =>
    rw [normalizeMembers, Json.sizeMembers, Json.sizeMembers, size_normalize v,
      sizeMembers_normalizeMembers ms]

end

/-- The size of the canonical text is the size of the value. -/
theorem byteLength_canonicalText (v : Json) : byteLength (canonicalText v) = v.size := by
  rw [byteLength_eq_textSize, canonicalText, textSize_render, size_normalize]

/-! ### Values that pass the checks -/

mutual

/-- Safe integers only, and no deeper than allowed. -/
def Canonical (depth : Nat) : Json → Prop
  | .arr items => depth ≤ maxCanonicalJsonDepth ∧ CanonicalItems (depth + 1) items
  | .obj members => depth ≤ maxCanonicalJsonDepth ∧ CanonicalMembers (depth + 1) members
  | .num n => IsSafeInteger n
  | .decimal _ => False
  | .null | .bool _ | .str _ => True

def CanonicalItems (depth : Nat) : List Json → Prop
  | [] => True
  | v :: vs => Canonical depth v ∧ CanonicalItems depth vs

def CanonicalMembers (depth : Nat) : List (String × Json) → Prop
  | [] => True
  | (_, v) :: ms => Canonical depth v ∧ CanonicalMembers depth ms

end

theorem canonicalItems_iff (depth : Nat) (vs : List Json) :
    CanonicalItems depth vs ↔ ∀ v ∈ vs, Canonical depth v := by
  induction vs with
  | nil => simp [CanonicalItems]
  | cons v vs ih => simp [CanonicalItems, ih]

theorem firstError_eq_ok {checks : List (String × Except String Unit)} :
    firstError checks = .ok () ↔ ∀ check ∈ checks, check.2 = .ok () := by
  induction checks with
  | nil => simp [firstError]
  | cons check checks ih =>
    rw [firstError, bind_eq_ok, forall_mem_cons, ih]
    exact ⟨fun ⟨_, h, h'⟩ => ⟨h, h'⟩, fun ⟨h, h'⟩ => ⟨(), h, h'⟩⟩

mutual

/-- What passes the checks. -/
theorem assertCanonical_eq_ok (depth : Nat) (v : Json) :
    assertCanonical depth v = .ok () ↔ Canonical depth v := by
  cases v with
  | arr items =>
    rw [assertCanonical, throwIf_bind_eq_ok, assertCanonicalItems_eq_ok (depth + 1) items,
      Canonical, not_lt]
  | obj members =>
    rw [assertCanonical, throwIf_bind_eq_ok, Canonical, not_lt, firstError_eq_ok,
      ← memberChecks_eq_ok (depth + 1) members]
    simp only [(perm_sortEntries _).mem_iff]
  | num n => rw [assertCanonical, throwIf_eq_ok, not_not, Canonical]
  | decimal | null | bool | str => simp [assertCanonical, Canonical]

theorem assertCanonicalItems_eq_ok (depth : Nat) (vs : List Json) :
    assertCanonicalItems depth vs = .ok () ↔ CanonicalItems depth vs := by
  cases vs with
  | nil => simp [assertCanonicalItems, CanonicalItems]
  | cons v vs =>
    rw [assertCanonicalItems, bind_eq_ok, CanonicalItems, ← assertCanonical_eq_ok depth v,
      ← assertCanonicalItems_eq_ok depth vs]
    exact ⟨fun ⟨_, h, h'⟩ => ⟨h, h'⟩, fun ⟨h, h'⟩ => ⟨(), h, h'⟩⟩

theorem memberChecks_eq_ok (depth : Nat) (ms : List (String × Json)) :
    (∀ check ∈ memberChecks depth ms, check.2 = .ok ()) ↔ CanonicalMembers depth ms := by
  match ms with
  | [] => simp [memberChecks, CanonicalMembers]
  | (k, v) :: ms =>
    rw [memberChecks, forall_mem_cons, CanonicalMembers, assertCanonical_eq_ok depth v,
      memberChecks_eq_ok depth ms]

end

theorem canonicalJson_eq_ok_iff {v : Json} {text : List Char} :
    canonicalJson v = .ok text ↔ Canonical 0 v ∧ text = canonicalText v := by
  rw [canonicalJson_eq_ok, assertCanonical_eq_ok]

/-! ### Hexadecimal strings -/

/-- `new RegExp("^[0-9a-f]{2 * bytes}$")`. -/
def IsHex (bytes : Nat) (s : String) : Prop :=
  s.toList.length = 2 * bytes ∧ ∀ c ∈ s.toList, isLowerHex c = true

instance (bytes : Nat) (s : String) : Decidable (IsHex bytes s) :=
  decidable_of_iff _ (hexDigits_iff s (2 * bytes))

theorem isHex_iff_isHash64 {s : String} : IsHex 32 s ↔ IsHash64 s := Iff.rfl

def assertHex (value : String) (bytes : Nat) (name : String) : Except String Unit :=
  throwIf (¬ IsHex bytes value) s!"{name} must be {bytes} bytes of lowercase hex"

@[simp] theorem assertHex_eq_ok {value : String} {bytes : Nat} {name : String} :
    assertHex value bytes name = .ok () ↔ IsHex bytes value := by
  rw [assertHex, throwIf_eq_ok, not_not]

/-- The characters that stand for themselves in a JSON string and take one byte. -/
def IsPlainChar (c : Char) : Prop := Json.escape c = [c] ∧ c.utf8Size = 1

theorem isPlainChar_of_range {c : Char} (h : 35 ≤ c.toNat ∧ c.toNat ≤ 126 ∧ c.toNat ≠ 92) :
    IsPlainChar c := by
  refine ⟨escape_eq_self ⟨h.1, h.2.2⟩, ?_⟩
  rw [Char.utf8Size, if_pos]
  change c.val.toNat ≤ 127
  change 35 ≤ c.val.toNat ∧ c.val.toNat ≤ 126 ∧ c.val.toNat ≠ 92 at h
  omega

theorem isPlainChar_of_isIdChar {c : Char}
    (h : (c.isDigit || ('a' ≤ c && c ≤ 'z') || c = '-') = true) : IsPlainChar c := by
  simp only [Bool.or_eq_true, Bool.and_eq_true, decide_eq_true_eq, Char.isDigit, Char.le_def,
    UInt32.le_iff_toNat_le, ge_iff_le] at h
  rcases h with (h | h) | rfl
  · change 48 ≤ c.val.toNat ∧ c.val.toNat ≤ 57 at h
    refine isPlainChar_of_range ?_
    change 35 ≤ c.val.toNat ∧ c.val.toNat ≤ 126 ∧ c.val.toNat ≠ 92
    omega
  · change 97 ≤ c.val.toNat ∧ c.val.toNat ≤ 122 at h
    refine isPlainChar_of_range ?_
    change 35 ≤ c.val.toNat ∧ c.val.toNat ≤ 126 ∧ c.val.toNat ≠ 92
    omega
  · exact isPlainChar_of_range (by decide)

theorem isPlainChar_of_isLowerHex {c : Char} (h : isLowerHex c = true) : IsPlainChar c := by
  refine isPlainChar_of_isIdChar ?_
  rw [isLowerHex, Bool.or_eq_true, Bool.and_eq_true, decide_eq_true_eq, decide_eq_true_eq] at h
  rcases h with h | ⟨ha, hf⟩
  · rw [h]
    rfl
  · have hz : c ≤ 'z' := Char.le_trans hf (by decide)
    rw [decide_eq_true ha, decide_eq_true hz, Bool.and_self, Bool.or_true, Bool.true_or]

theorem textSize_of_plain {s : List Char} (h : ∀ c ∈ s, IsPlainChar c) :
    Json.textSize s = s.length := by
  induction s with
  | nil => rfl
  | cons c s ih =>
    rw [forall_mem_cons] at h
    rw [textSize_cons, ih h.2, h.1.2, length_cons, Nat.add_comm]

/-- A string of plain characters takes one byte each, and the quotes. -/
theorem size_str {s : String} (h : ∀ c ∈ s.toList, IsPlainChar c) :
    (Json.str s).size = s.toList.length + 2 := by
  rw [Json.size, textSize_quote fun c hc => (h c hc).1, textSize_of_plain h]

private theorem natText_length {n : Nat} (h : n ≤ 9007199254740991) :
    (Json.natText n).length ≤ 16 :=
  Nat.toDigits_length 10 n 16 (by decide) (by omega)

theorem intText_length {n : Int} (h : IsSafeInteger n) : (Json.intText n).length ≤ 17 := by
  unfold IsSafeInteger maxSafeInteger at h
  cases n with
  | ofNat n =>
    have hn : (n : Int) ≤ 9007199254740991 := h.2
    have := natText_length (n := n) (by omega)
    rw [Json.intText]
    omega
  | negSucc n =>
    have := natText_length (n := n + 1) (by omega)
    rw [Json.intText, length_cons]
    omega

theorem size_num_le {n : Int} (h : IsSafeInteger n) : (Json.num n).size ≤ 17 := by
  have hplain : ∀ c ∈ Json.intText n, IsPlainChar c := by
    intro c hc
    refine isPlainChar_of_isIdChar ?_
    cases n with
    | ofNat n =>
      rw [natText_isDigit hc]
      rfl
    | negSucc n =>
      rcases mem_cons.mp hc with rfl | hc
      · decide
      · rw [natText_isDigit hc]
        rfl
  rw [Json.size, textSize_of_plain hplain]
  exact intText_length h

theorem size_str_of_isHex {bytes : Nat} {s : String} (h : IsHex bytes s) :
    (Json.str s).size = 2 * bytes + 2 := by
  rw [size_str fun c hc => isPlainChar_of_isLowerHex (h.2 c hc), h.1]

/-- The bytes of a string of hexadecimal digits, up to the first that is none. -/
def hexBytes : List Char → List UInt8
  | a :: b :: s =>
    match Json.hexValue a, Json.hexValue b with
    | some x, some y => UInt8.ofNat (16 * x + y) :: hexBytes s
    | _, _ => []
  | _ => []

end ZyronChain
