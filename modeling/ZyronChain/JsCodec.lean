import ZyronChain.CanonicalForm
import ZyronChain.Lib.JsNormalForm

/-!
# Canonical JSON of any value

`canonicalJson` on all values of JSON, with the strings of ECMAScript: the members of an object
are sorted by the code units of their names and put into a new object, which lists the names that
are array indices first.

The functions of `Codec` are the same ones on strings without lone surrogates, which is what the
records of the protocol consist of.

Source: `l1/src/codec.ts`.

## Main results

* `JsCodec.canonicalJson_eq_ok_iff` : what is accepted, and its text.
* `JsCodec.canonicalJson_normal_form` : the text is a normal form of the value.
-/

namespace ZyronChain

open Checks PropertyOrder MemberOrder List JsValue

/-! ### Values -/

mutual

/-- No object has two members of one name. -/
def Distinct : JsValue → Prop
  | .arr items => DistinctItems items
  | .obj members => (members.map Prod.fst).Nodup ∧ DistinctMembers members
  | _ => True

def DistinctItems : List JsValue → Prop
  | [] => True
  | v :: vs => Distinct v ∧ DistinctItems vs

def DistinctMembers : List (JsString × JsValue) → Prop
  | [] => True
  | (_, v) :: ms => Distinct v ∧ DistinctMembers ms

end

/-- A JSON value of the program: a property of an object is set once. -/
structure ParsedValue where
  value : JsValue
  distinct : Distinct value

namespace JsCodec

/-! ### The functions of the source -/

/-- The results of the entries one after the other, up to the first failure. -/
def sequence {α : Type} : List (JsString × Except String α) → Except String (List (JsString × α))
  | [] => .ok []
  | (k, x) :: es => do
    let a ← x
    let as ← sequence es
    .ok ((k, a) :: as)

mutual

def normalize (depth : Nat) : JsValue → Except String JsValue
  | .arr items => do
    throwIf (depth > maxCanonicalJsonDepth) depthExceeded
    let items ← normalizeItems (depth + 1) items
    .ok (.arr items)
  | .obj members => do
    throwIf (depth > maxCanonicalJsonDepth) depthExceeded
    let entries ← sequence (sortNames (normalizeMembers (depth + 1) members))
    .ok (.obj (propertyOrder entries))
  | .num n => do
    throwIf (¬ IsSafeInteger n) unsafeNumber
    .ok (.num n)
  | .decimal _ => .error unsafeNumber
  | .negZero => .ok .negZero
  | .null => .ok .null
  | .bool b => .ok (.bool b)
  | .str s => .ok (.str s)

def normalizeItems (depth : Nat) : List JsValue → Except String (List JsValue)
  | [] => .ok []
  | v :: vs => do
    let v ← normalize depth v
    let vs ← normalizeItems depth vs
    .ok (v :: vs)

/-- The result for each member; the members are sorted before the first of them is looked at. -/
def normalizeMembers (depth : Nat) :
    List (JsString × JsValue) → List (JsString × Except String JsValue)
  | [] => []
  | (k, v) :: ms => (k, normalize depth v) :: normalizeMembers depth ms

end

def canonicalJson (v : JsValue) : Except String (List Char) := do
  let normalized ← normalize 0 v
  .ok normalized.stringify

/-! ### What is accepted -/

mutual

/-- Safe integers, and a bounded depth. -/
def Accepted (depth : Nat) : JsValue → Prop
  | .arr items => depth ≤ maxCanonicalJsonDepth ∧ AcceptedItems (depth + 1) items
  | .obj members => depth ≤ maxCanonicalJsonDepth ∧ AcceptedMembers (depth + 1) members
  | .num n => IsSafeInteger n
  | .decimal _ => False
  | _ => True

def AcceptedItems (depth : Nat) : List JsValue → Prop
  | [] => True
  | v :: vs => Accepted depth v ∧ AcceptedItems depth vs

def AcceptedMembers (depth : Nat) : List (JsString × JsValue) → Prop
  | [] => True
  | (_, v) :: ms => Accepted depth v ∧ AcceptedMembers depth ms

end

theorem acceptedItems_iff (depth : Nat) (vs : List JsValue) :
    AcceptedItems depth vs ↔ ∀ v ∈ vs, Accepted depth v := by
  induction vs with
  | nil => simp [AcceptedItems]
  | cons v vs ih => rw [AcceptedItems, ih, forall_mem_cons]

theorem acceptedMembers_iff (depth : Nat) (ms : List (JsString × JsValue)) :
    AcceptedMembers depth ms ↔ ∀ m ∈ ms, Accepted depth m.2 := by
  induction ms with
  | nil => simp [AcceptedMembers]
  | cons m ms ih => rw [AcceptedMembers, ih, forall_mem_cons]

theorem sequence_map_ok {α : Type} (es : List (JsString × α)) :
    sequence (es.map fun e => (e.1, (.ok e.2 : Except String α))) = .ok es := by
  induction es with
  | nil => rfl
  | cons e es ih => rw [map_cons, sequence, ih]; rfl

theorem sequence_eq_ok {α : Type} {es : List (JsString × Except String α)}
    {as : List (JsString × α)} (h : sequence es = .ok as) :
    ∀ e ∈ es, ∃ a, e.2 = .ok a := by
  induction es generalizing as with
  | nil => exact fun e he => nomatch he
  | cons e es ih =>
    rw [sequence, bind_eq_ok] at h
    obtain ⟨a, ha, h⟩ := h
    rw [bind_eq_ok] at h
    obtain ⟨as, has, -⟩ := h
    rw [forall_mem_cons]
    exact ⟨⟨a, ha⟩, ih has⟩

/-- Results that are all there are sorted like their values. -/
theorem sequence_sortNames {α : Type} (es : List (JsString × α)) :
    sequence (sortNames (es.map fun e => (e.1, (.ok e.2 : Except String α)))) =
      .ok (sortNames es) := by
  have hmap := map_sortNames (fun a : α => (.ok a : Except String α)) es
  rw [← hmap]
  exact sequence_map_ok _

mutual

theorem normalize_of_accepted (depth : Nat) (v : JsValue) (h : Accepted depth v) :
    normalize depth v = .ok (byProperty.reorder v) := by
  cases v with
  | arr items =>
    rw [normalize, throwIf_of_not (not_lt.mpr h.1), ok_bind,
      normalizeItems_of_accepted (depth + 1) items h.2]
    rfl
  | obj members =>
    rw [normalize, throwIf_of_not (not_lt.mpr h.1), ok_bind,
      normalizeMembers_of_accepted (depth + 1) members h.2, sequence_sortNames]
    rfl
  | num n =>
    have hsafe : IsSafeInteger n := h
    rw [normalize, throwIf_of_not (not_not.mpr hsafe)]
    rfl
  | decimal literal => exact h.elim
  | negZero | null | bool | str => rfl

theorem normalizeItems_of_accepted (depth : Nat) (vs : List JsValue) (h : AcceptedItems depth vs) :
    normalizeItems depth vs = .ok (byProperty.reorderItems vs) := by
  match vs with
  | [] => rfl
  | v :: vs =>
    rw [normalizeItems, normalize_of_accepted depth v h.1, ok_bind,
      normalizeItems_of_accepted depth vs h.2]
    rfl

theorem normalizeMembers_of_accepted (depth : Nat) (ms : List (JsString × JsValue))
    (h : AcceptedMembers depth ms) :
    normalizeMembers depth ms = (byProperty.reorderMembers ms).map fun m => (m.1, .ok m.2) := by
  match ms with
  | [] => rfl
  | (k, v) :: ms =>
    rw [normalizeMembers, normalize_of_accepted depth v h.1,
      normalizeMembers_of_accepted depth ms h.2]
    rfl

end

mutual

theorem accepted_of_normalize (depth : Nat) (v : JsValue) {u : JsValue}
    (h : normalize depth v = .ok u) : Accepted depth v := by
  cases v with
  | arr items =>
    rw [normalize, throwIf_bind_eq_ok, bind_eq_ok] at h
    obtain ⟨hdepth, us, hitems, -⟩ := h
    exact ⟨not_lt.mp hdepth, acceptedItems_of_normalize (depth + 1) items hitems⟩
  | obj members =>
    rw [normalize, throwIf_bind_eq_ok, bind_eq_ok] at h
    obtain ⟨hdepth, us, hmembers, -⟩ := h
    refine ⟨not_lt.mp hdepth, acceptedMembers_of_normalize (depth + 1) members fun e he => ?_⟩
    exact sequence_eq_ok hmembers e ((perm_sortNames _).mem_iff.mpr he)
  | num n =>
    rw [normalize, throwIf_bind_eq_ok, not_not] at h
    exact h.1
  | decimal literal => cases h
  | negZero | null | bool | str => trivial

theorem acceptedItems_of_normalize (depth : Nat) (vs : List JsValue) {us : List JsValue}
    (h : normalizeItems depth vs = .ok us) : AcceptedItems depth vs := by
  match vs with
  | [] => trivial
  | v :: vs =>
    rw [normalizeItems, bind_eq_ok] at h
    obtain ⟨u, hv, h⟩ := h
    rw [bind_eq_ok] at h
    obtain ⟨us, hvs, -⟩ := h
    exact ⟨accepted_of_normalize depth v hv, acceptedItems_of_normalize depth vs hvs⟩

theorem acceptedMembers_of_normalize (depth : Nat) (ms : List (JsString × JsValue))
    (h : ∀ e ∈ normalizeMembers depth ms, ∃ u, e.2 = .ok u) : AcceptedMembers depth ms := by
  match ms with
  | [] => trivial
  | (k, v) :: ms =>
    rw [normalizeMembers, forall_mem_cons] at h
    obtain ⟨⟨u, hu⟩, hms⟩ := h
    exact ⟨accepted_of_normalize depth v hu, acceptedMembers_of_normalize depth ms hms⟩

end

/-- What is accepted, and its text. -/
theorem canonicalJson_eq_ok_iff {v : JsValue} {text : List Char} :
    canonicalJson v = .ok text ↔ Accepted 0 v ∧ text = (byProperty.reorder v).stringify := by
  rw [canonicalJson, bind_eq_ok]
  constructor
  · rintro ⟨u, hu, htext⟩
    have haccepted := accepted_of_normalize 0 v hu
    rw [normalize_of_accepted 0 v haccepted, Except.ok.injEq] at hu
    rw [Except.ok.injEq] at htext
    exact ⟨haccepted, by rw [hu, htext]⟩
  · rintro ⟨haccepted, rfl⟩
    exact ⟨_, normalize_of_accepted 0 v haccepted, rfl⟩

/-! ### The normal form -/

mutual

theorem plain_of_accepted (depth : Nat) (v : JsValue) (hdistinct : Distinct v)
    (h : Accepted depth v) : v.Plain := by
  cases v with
  | arr items => exact plainItems_of_accepted (depth + 1) items hdistinct h.2
  | obj members =>
    exact ⟨hdistinct.1, plainMembers_of_accepted (depth + 1) members hdistinct.2 h.2⟩
  | decimal literal => exact h.elim
  | num | negZero | null | bool | str => trivial

theorem plainItems_of_accepted (depth : Nat) (vs : List JsValue) (hdistinct : DistinctItems vs)
    (h : AcceptedItems depth vs) : JsValue.PlainItems vs := by
  match vs with
  | [] => trivial
  | v :: vs =>
    exact ⟨plain_of_accepted depth v hdistinct.1 h.1,
      plainItems_of_accepted depth vs hdistinct.2 h.2⟩

theorem plainMembers_of_accepted (depth : Nat) (ms : List (JsString × JsValue))
    (hdistinct : DistinctMembers ms) (h : AcceptedMembers depth ms) :
    JsValue.PlainMembers ms := by
  match ms with
  | [] => trivial
  | (_, v) :: ms =>
    exact ⟨plain_of_accepted depth v hdistinct.1 h.1,
      plainMembers_of_accepted depth ms hdistinct.2 h.2⟩

end

mutual

/-- The normal form of an accepted value is accepted: a zero and an order change no check. -/
theorem accepted_normal (o : MemberOrder) (depth : Nat) (v : JsValue) (h : Accepted depth v) :
    Accepted depth (o.normal v) := by
  cases v with
  | arr items =>
    rw [o.normal_arr]
    exact ⟨h.1, (acceptedItems_iff _ _).mpr
      (forall_mem_map.mpr (acceptedItems_normal o (depth + 1) items h.2))⟩
  | obj members =>
    rw [o.normal_obj]
    refine ⟨h.1, (acceptedMembers_iff _ _).mpr fun m hm => ?_⟩
    obtain ⟨m', hm', rfl⟩ := mem_map.mp ((o.perm _).mem_iff.mp hm)
    exact acceptedMembers_normal o (depth + 1) members h.2 m' hm'
  | num n => exact h
  | decimal literal => exact h.elim
  | negZero => exact (by decide : IsSafeInteger 0)
  | null | bool | str => trivial

theorem acceptedItems_normal (o : MemberOrder) (depth : Nat) (vs : List JsValue)
    (h : AcceptedItems depth vs) : ∀ v ∈ vs, Accepted depth (o.normal v) := by
  match vs with
  | [] => exact fun v hv => nomatch hv
  | v :: vs =>
    exact forall_mem_cons.mpr
      ⟨accepted_normal o depth v h.1, acceptedItems_normal o depth vs h.2⟩

theorem acceptedMembers_normal (o : MemberOrder) (depth : Nat) (ms : List (JsString × JsValue))
    (h : AcceptedMembers depth ms) : ∀ m ∈ ms, Accepted depth (o.normal m.2) := by
  match ms with
  | [] => exact fun m hm => nomatch hm
  | (_, v) :: ms =>
    exact forall_mem_cons.mpr
      ⟨accepted_normal o depth v h.1, acceptedMembers_normal o depth ms h.2⟩

end

mutual

theorem accepted_zeroed (depth : Nat) (v : JsValue) (h : Accepted depth v) :
    Accepted depth v.zeroed := by
  cases v with
  | arr items => exact ⟨h.1, acceptedItems_zeroed (depth + 1) items h.2⟩
  | obj members => exact ⟨h.1, acceptedMembers_zeroed (depth + 1) members h.2⟩
  | num n => exact h
  | decimal literal => exact h.elim
  | negZero => exact (by decide : IsSafeInteger 0)
  | null | bool | str => trivial

theorem acceptedItems_zeroed (depth : Nat) (vs : List JsValue) (h : AcceptedItems depth vs) :
    AcceptedItems depth (JsValue.zeroedItems vs) := by
  match vs with
  | [] => trivial
  | v :: vs => exact ⟨accepted_zeroed depth v h.1, acceptedItems_zeroed depth vs h.2⟩

theorem acceptedMembers_zeroed (depth : Nat) (ms : List (JsString × JsValue))
    (h : AcceptedMembers depth ms) : AcceptedMembers depth (JsValue.zeroedMembers ms) := by
  match ms with
  | [] => trivial
  | (_, v) :: ms => exact ⟨accepted_zeroed depth v h.1, acceptedMembers_zeroed depth ms h.2⟩

end

/-- Two texts are equal when their values are, up to the sign of zero. -/
theorem stringify_eq_iff {v w : JsValue} (hv : v.Plain) (hw : w.Plain) :
    v.stringify = w.stringify ↔ v.zeroed = w.zeroed := by
  constructor
  · exact zeroed_eq_of_stringify hv hw
  · intro h
    rw [← v.stringify_zeroed, h, w.stringify_zeroed]

/-- `canonicalJson` is a normal form: two accepted values have one text when and only when they
are equal up to the order of properties and the sign of zero, and the text of the value that the
text is parsed to is the text itself. -/
theorem canonicalJson_normal_form (v w : ParsedValue) (text text' : List Char)
    (hv : canonicalJson v.value = .ok text) (hw : canonicalJson w.value = .ok text') :
    (text = text' ↔ v.value.Same w.value) ∧
      ∃ u, JsValue.parse text = some u ∧ canonicalJson u = .ok text := by
  obtain ⟨hvok, rfl⟩ := canonicalJson_eq_ok_iff.mp hv
  obtain ⟨hwok, rfl⟩ := canonicalJson_eq_ok_iff.mp hw
  have hvplain := plain_of_accepted 0 _ v.distinct hvok
  have hwplain := plain_of_accepted 0 _ w.distinct hwok
  have hvreorder := byProperty.plain_reorder _ hvplain
  have hwreorder := byProperty.plain_reorder _ hwplain
  constructor
  · rw [stringify_eq_iff hvreorder hwreorder, byProperty.same_iff _ _ hvplain hwplain]
    rfl
  · refine ⟨byProperty.normal v.value, parse_stringify hvreorder, ?_⟩
    refine canonicalJson_eq_ok_iff.mpr ⟨accepted_normal _ 0 _ hvok, ?_⟩
    have hnormal := byProperty.normal_normal _ hvplain
    calc (byProperty.reorder v.value).stringify
        = (byProperty.normal v.value).stringify := (stringify_zeroed _).symm
      _ = (byProperty.normal (byProperty.normal v.value)).stringify := by
          rw [hnormal]
      _ = (byProperty.reorder (byProperty.normal v.value)).stringify := stringify_zeroed _

def ofText (s : String) : JsString := JsValue.ofChars s.toList

def signedZero : ParsedValue where
  value := .obj [(ofText "b", .negZero), (ofText "a", .arr [.str (ofText "x")])]
  distinct := ⟨by decide, trivial, ⟨trivial, trivial⟩, trivial⟩

/-- The same object with a zero and its properties in another order. -/
def plainZero : ParsedValue where
  value := .obj [(ofText "a", .arr [.str (ofText "x")]), (ofText "b", .num 0)]
  distinct := ⟨by decide, ⟨trivial, trivial⟩, trivial, trivial⟩

theorem canonicalJson_normal_form_zero :
    canonicalJson signedZero.value = .ok "\x7b\"a\":[\"x\"],\"b\":0\x7d".toList ∧
      canonicalJson plainZero.value = .ok "\x7b\"a\":[\"x\"],\"b\":0\x7d".toList ∧
      signedZero.value.Same plainZero.value := by
  have hsigned : canonicalJson signedZero.value =
      .ok "\x7b\"a\":[\"x\"],\"b\":0\x7d".toList := by decide +kernel
  have hplain : canonicalJson plainZero.value =
      .ok "\x7b\"a\":[\"x\"],\"b\":0\x7d".toList := by decide +kernel
  exact ⟨hsigned, hplain,
    (canonicalJson_normal_form signedZero plainZero _ _ hsigned hplain).1.mp rfl⟩

end JsCodec

end ZyronChain
