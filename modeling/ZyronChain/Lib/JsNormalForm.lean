import Mathlib.Data.List.Perm.Subperm
import Mathlib.Data.List.Lex
import Mathlib.Data.List.Sort
import Mathlib.Data.Fin.Basic
import Mathlib.Order.Fin.Basic
import ZyronChain.Lib.JsValueRoundTrip

/-!
# Normal forms of JSON values

An encoder of JSON values fixes an order of the members of every object.  Two such orders matter
for ECMAScript: the order of the names as strings, and the order in which an object lists its own
properties, which puts the names that are array indices first, by their number.

An order that depends on the set of the members only makes the reordered value a normal form: two
values have the same one exactly when they differ in the order of members and in the signs of
zeros.
-/

/-! ### Orders of members -/

namespace PropertyOrder

variable {α β : Type}

/-- The members sorted by the code units of their names. -/
def sortNames (es : List (JsString × α)) : List (JsString × α) :=
  es.insertionSort fun a b => a.1 ≤ b.1

/-- The number of a property name that is an array index. -/
def arrayIndex? (key : JsString) : Option Nat :=
  let n := key.foldl (fun n u => 10 * n + (u.val - '0'.toNat)) 0
  if key.map Fin.val = (Json.natText n).map Char.toNat ∧ n ≤ 4294967294 then some n else none

/-- The members whose names are array indices, with the index. -/
def indexed (es : List (JsString × α)) : List (Nat × JsString × α) :=
  es.filterMap fun e => (arrayIndex? e.1).map fun n => (n, e)

/-- The members of an object in the order of its own properties, when they were added in the given
order: array indices first, in ascending order. -/
def propertyOrder (es : List (JsString × α)) : List (JsString × α) :=
  ((indexed es).insertionSort fun a b => a.1 ≤ b.1).map Prod.snd ++
    es.filter fun e => (arrayIndex? e.1).isNone

theorem perm_sortNames (es : List (JsString × α)) : (sortNames es).Perm es :=
  List.perm_insertionSort _ es

private theorem pairwise_sortNames (es : List (JsString × α)) :
    (sortNames es).Pairwise fun a b => a.1 ≤ b.1 := by
  have htotal : Std.Total fun a b : JsString × α => a.1 ≤ b.1 := ⟨fun a b => le_total a.1 b.1⟩
  have htrans : IsTrans (JsString × α) fun a b => a.1 ≤ b.1 := ⟨fun _ _ _ => le_trans⟩
  exact List.pairwise_insertionSort _ es

/-- Sorting by name depends on the set of members only. -/
theorem sortNames_eq_of_perm {es fs : List (JsString × α)} (h : es.Perm fs)
    (hnodup : (es.map Prod.fst).Nodup) : sortNames es = sortNames fs := by
  refine List.Perm.eq_of_pairwise ?_ (pairwise_sortNames es) (pairwise_sortNames fs)
    ((perm_sortNames es).trans (h.trans (perm_sortNames fs).symm))
  intro a b ha hb hab hba
  have ha' : a ∈ es := (perm_sortNames es).mem_iff.mp ha
  have hb' : b ∈ es := h.mem_iff.mpr ((perm_sortNames fs).mem_iff.mp hb)
  exact List.inj_on_of_nodup_map hnodup ha' hb' (le_antisymm hab hba)

theorem map_sortNames (f : α → β) (es : List (JsString × α)) :
    (sortNames es).map (fun e => (e.1, f e.2)) = sortNames (es.map fun e => (e.1, f e.2)) :=
  List.map_insertionSort _ _ _ es fun _ _ _ _ => Iff.rfl

private theorem map_snd_indexed (es : List (JsString × α)) :
    (indexed es).map Prod.snd = es.filter fun e => (arrayIndex? e.1).isSome := by
  induction es with
  | nil => rfl
  | cons e es ih =>
    rw [indexed] at ih ⊢
    cases h : arrayIndex? e.1 with
    | none | some => simp [h, ih]

theorem perm_propertyOrder (es : List (JsString × α)) : (propertyOrder es).Perm es := by
  have hsort := (List.perm_insertionSort (fun a b : Nat × JsString × α => a.1 ≤ b.1)
    (indexed es)).map Prod.snd
  rw [map_snd_indexed] at hsort
  refine (hsort.append_right _).trans ?_
  have hsplit := List.filter_append_perm (fun e : JsString × α => (arrayIndex? e.1).isSome) es
  simpa using hsplit

theorem map_propertyOrder (f : α → β) (es : List (JsString × α)) :
    (propertyOrder es).map (fun e => (e.1, f e.2)) =
      propertyOrder (es.map fun e => (e.1, f e.2)) := by
  have hindexed : (indexed es).map (fun e => (e.1, e.2.1, f e.2.2)) =
      indexed (es.map fun e => (e.1, f e.2)) := by
    rw [indexed, indexed, List.map_filterMap, List.filterMap_map]
    refine List.filterMap_congr fun e _ => ?_
    simp [Option.map_map, Function.comp_def]
  have hsort := List.map_insertionSort (fun a b : Nat × JsString × α => a.1 ≤ b.1)
    (fun a b : Nat × JsString × β => a.1 ≤ b.1) (fun e => (e.1, e.2.1, f e.2.2)) (indexed es)
    fun _ _ _ _ => Iff.rfl
  rw [hindexed] at hsort
  rw [propertyOrder, propertyOrder, ← hsort, List.map_append, List.map_map, List.map_map,
    List.filter_map]
  rfl

end PropertyOrder

/-- An order of members that depends on the set of members only. -/
structure MemberOrder where
  order : List (JsString × JsValue) → List (JsString × JsValue)
  perm : ∀ ms, (order ms).Perm ms
  map : ∀ (f : JsValue → JsValue) (ms : List (JsString × JsValue)),
    (order ms).map (fun m => (m.1, f m.2)) = order (ms.map fun m => (m.1, f m.2))
  canonical : ∀ {ms ns}, ms.Perm ns → (ms.map Prod.fst).Nodup → order ms = order ns

namespace MemberOrder

open PropertyOrder

/-- The members in the order of their names. -/
def byName : MemberOrder where
  order := sortNames
  perm := perm_sortNames
  map := map_sortNames
  canonical := sortNames_eq_of_perm

/-- The members of an object that was filled in the order of the names, in the order of its
properties. -/
def byProperty : MemberOrder where
  order ms := propertyOrder (sortNames ms)
  perm ms := (perm_propertyOrder _).trans (perm_sortNames ms)
  map f ms := by rw [map_propertyOrder, map_sortNames]
  canonical h hnodup := by rw [sortNames_eq_of_perm h hnodup]

end MemberOrder

namespace JsValue

/-! ### Equality up to order and signs of zeros -/

mutual

/-- Equality up to the order of members and the signs of zeros. -/
def Same : JsValue → JsValue → Prop
  | null, null => True
  | bool b, bool c => b = c
  | num n, num m => n = m
  | num n, negZero => n = 0
  | negZero, num m => m = 0
  | negZero, negZero => True
  | decimal l, decimal l' => l = l'
  | str s, str t => s = t
  | arr vs, arr ws => SameItems vs ws
  | obj ms, obj ns => ms.length = ns.length ∧ SameMembers ms ns
  | _, _ => False

def SameItems : List JsValue → List JsValue → Prop
  | [], [] => True
  | v :: vs, w :: ws => Same v w ∧ SameItems vs ws
  | _, _ => False

/-- Every member is the same as the one of its name. -/
def SameMembers : List (JsString × JsValue) → List (JsString × JsValue) → Prop
  | [], _ => True
  | (k, v) :: ms, ns => (∃ w, (k, w) ∈ ns ∧ Same v w) ∧ SameMembers ms ns

end

/-! ### Members one by one -/

theorem zeroedItems_eq_map (vs : List JsValue) : zeroedItems vs = vs.map zeroed := by
  induction vs with
  | nil => rfl
  | cons v vs ih => rw [zeroedItems, ih, List.map_cons]

theorem zeroedMembers_eq_map (ms : List (JsString × JsValue)) :
    zeroedMembers ms = ms.map fun m => (m.1, zeroed m.2) := by
  induction ms with
  | nil => rfl
  | cons m ms ih => rw [zeroedMembers, ih, List.map_cons]

theorem plainItems_iff (vs : List JsValue) : PlainItems vs ↔ ∀ v ∈ vs, Plain v := by
  induction vs with
  | nil => simp [PlainItems]
  | cons v vs ih => rw [PlainItems, ih, List.forall_mem_cons]

theorem plainMembers_iff (ms : List (JsString × JsValue)) :
    PlainMembers ms ↔ ∀ m ∈ ms, Plain m.2 := by
  induction ms with
  | nil => simp [PlainMembers]
  | cons m ms ih => rw [PlainMembers, ih, List.forall_mem_cons]

end JsValue

namespace MemberOrder

open JsValue

variable (o : MemberOrder)

/-! ### Reordering -/

mutual

/-- The value with the members of every object in order. -/
def reorder : JsValue → JsValue
  | .arr items => .arr (reorderItems items)
  | .obj members => .obj (o.order (reorderMembers members))
  | .null => .null
  | .bool b => .bool b
  | .num n => .num n
  | .negZero => .negZero
  | .decimal literal => .decimal literal
  | .str s => .str s

def reorderItems : List JsValue → List JsValue
  | [] => []
  | v :: vs => reorder v :: reorderItems vs

def reorderMembers : List (JsString × JsValue) → List (JsString × JsValue)
  | [] => []
  | (k, v) :: ms => (k, reorder v) :: reorderMembers ms

end

theorem reorderItems_eq_map (vs : List JsValue) : o.reorderItems vs = vs.map o.reorder := by
  induction vs with
  | nil => rfl
  | cons v vs ih => rw [reorderItems, ih, List.map_cons]

theorem reorderMembers_eq_map (ms : List (JsString × JsValue)) :
    o.reorderMembers ms = ms.map fun m => (m.1, o.reorder m.2) := by
  induction ms with
  | nil => rfl
  | cons m ms ih => rw [reorderMembers, ih, List.map_cons]

theorem map_fst_reorderMembers (ms : List (JsString × JsValue)) :
    (o.reorderMembers ms).map Prod.fst = ms.map Prod.fst := by
  rw [reorderMembers_eq_map, List.map_map]
  rfl

/-- The normal form: members in order, and no negative zero. -/
def normal (v : JsValue) : JsValue := zeroed (o.reorder v)

theorem normal_arr (items : List JsValue) : o.normal (.arr items) = .arr (items.map o.normal) := by
  rw [normal, reorder, zeroed, zeroedItems_eq_map, reorderItems_eq_map, List.map_map]
  rfl

theorem normal_obj (members : List (JsString × JsValue)) :
    o.normal (.obj members) = .obj (o.order (members.map fun m => (m.1, o.normal m.2))) := by
  rw [normal, reorder, zeroed, zeroedMembers_eq_map, reorderMembers_eq_map, o.map, List.map_map]
  rfl

mutual

theorem plain_reorder (v : JsValue) (hv : Plain v) : Plain (o.reorder v) := by
  cases v with
  | arr items =>
    rw [reorder, Plain, plainItems_iff]
    exact plain_reorderItems items hv
  | obj members =>
    rw [reorder, Plain, plainMembers_iff]
    refine ⟨((o.perm _).map Prod.fst).nodup_iff.mpr ?_, fun m hm => ?_⟩
    · rw [map_fst_reorderMembers]
      exact hv.1
    · exact plain_reorderMembers members hv.2 m ((o.perm _).mem_iff.mp hm)
  | null | bool | num | negZero => trivial
  | decimal literal => exact hv
  | str s => trivial

theorem plain_reorderItems (vs : List JsValue) (hvs : PlainItems vs) :
    ∀ v ∈ o.reorderItems vs, Plain v := by
  match vs with
  | [] => exact fun v hv => nomatch hv
  | v :: vs =>
    rw [reorderItems, List.forall_mem_cons]
    exact ⟨plain_reorder v hvs.1, plain_reorderItems vs hvs.2⟩

theorem plain_reorderMembers (ms : List (JsString × JsValue)) (hms : PlainMembers ms) :
    ∀ m ∈ o.reorderMembers ms, Plain m.2 := by
  match ms with
  | [] => exact fun m hm => nomatch hm
  | (k, v) :: ms =>
    rw [reorderMembers, List.forall_mem_cons]
    exact ⟨plain_reorder v hms.1, plain_reorderMembers ms hms.2⟩

end

/-! ### Values with one normal form -/

/-- Members with distinct names, each of them with its equal among the others, are the others in
some order. -/
private theorem perm_of_members {ms ns : List (JsString × JsValue)}
    (hnodup : (ms.map Prod.fst).Nodup) (hlength : ms.length = ns.length)
    (hsub : ∀ m ∈ ms, m ∈ ns) : ms.Perm ns :=
  (List.subperm_of_subset (hnodup.of_map _) hsub).perm_of_length_le hlength.ge

private theorem map_fst_normal (ms : List (JsString × JsValue)) :
    (ms.map fun m => (m.1, o.normal m.2)).map Prod.fst = ms.map Prod.fst := by
  rw [List.map_map]
  rfl

private theorem normal_obj_eq_iff {ms ns : List (JsString × JsValue)}
    (hms : (ms.map Prod.fst).Nodup) :
    o.normal (.obj ms) = o.normal (.obj ns) ↔
      ms.length = ns.length ∧ ∀ m ∈ ms, ∃ w, (m.1, w) ∈ ns ∧ o.normal m.2 = o.normal w := by
  rw [normal_obj, normal_obj, JsValue.obj.injEq]
  have hnodup : ((ms.map fun m => (m.1, o.normal m.2)).map Prod.fst).Nodup := by
    rw [map_fst_normal]
    exact hms
  constructor
  · intro heq
    have hms := o.perm (ms.map fun m => (m.1, o.normal m.2))
    rw [heq] at hms
    have hperm := hms.symm.trans (o.perm (ns.map fun m => (m.1, o.normal m.2)))
    refine ⟨by simpa using hperm.length_eq, fun m hm => ?_⟩
    obtain ⟨n, hn, heq⟩ := List.mem_map.mp
      (hperm.mem_iff.mp (List.mem_map.mpr ⟨m, hm, rfl⟩))
    rw [Prod.mk.injEq] at heq
    exact ⟨n.2, heq.1 ▸ hn, heq.2.symm⟩
  · rintro ⟨hlength, hall⟩
    refine o.canonical (perm_of_members hnodup (by simpa using hlength) fun m hm => ?_) hnodup
    obtain ⟨m, hmem, rfl⟩ := List.mem_map.mp hm
    obtain ⟨w, hw, heq⟩ := hall m hmem
    exact List.mem_map.mpr ⟨(m.1, w), hw, by rw [heq]⟩

mutual

/-- Two values have one normal form exactly when they are equal up to the order of members and
the signs of zeros. -/
theorem same_iff (v w : JsValue) (hv : Plain v) (hw : Plain w) :
    Same v w ↔ o.normal v = o.normal w := by
  cases v with
  | arr vs =>
    cases w with
    | arr ws =>
      rw [Same, normal_arr, normal_arr, JsValue.arr.injEq]
      exact sameItems_iff vs ws hv hw
    | _ => simp [Same, normal, reorder, zeroed]
  | obj ms =>
    cases w with
    | obj ns =>
      rw [Same, o.normal_obj_eq_iff hv.1,
        sameMembers_iff ms ns hv.2 ((plainMembers_iff ns).mp hw.2)]
    | _ => simp [Same, normal, reorder, zeroed]
  | num n => cases w <;> simp [Same, normal, reorder, zeroed]
  | negZero => cases w <;> simp [Same, normal, reorder, zeroed, eq_comm]
  | null | bool => cases w <;> simp [Same, normal, reorder, zeroed]
  | decimal literal => exact hv.elim
  | str s => cases w <;> simp [Same, normal, reorder, zeroed]

theorem sameItems_iff (vs ws : List JsValue) (hvs : PlainItems vs) (hws : PlainItems ws) :
    SameItems vs ws ↔ vs.map o.normal = ws.map o.normal := by
  match vs, ws with
  | [], [] => simp [SameItems]
  | [], w :: ws => simp [SameItems]
  | v :: vs, [] => simp [SameItems]
  | v :: vs, w :: ws =>
    rw [SameItems, List.map_cons, List.map_cons, List.cons.injEq, same_iff v w hvs.1 hws.1,
      sameItems_iff vs ws hvs.2 hws.2]

theorem sameMembers_iff (ms ns : List (JsString × JsValue)) (hms : PlainMembers ms)
    (hns : ∀ n ∈ ns, Plain n.2) :
    SameMembers ms ns ↔ ∀ m ∈ ms, ∃ w, (m.1, w) ∈ ns ∧ o.normal m.2 = o.normal w := by
  match ms with
  | [] => simp [SameMembers]
  | (k, v) :: ms =>
    have hmember : (∃ w, (k, w) ∈ ns ∧ Same v w) ↔ ∃ w, (k, w) ∈ ns ∧ o.normal v = o.normal w := by
      refine exists_congr fun w => and_congr_right fun hw => ?_
      exact same_iff v w hms.1 (hns (k, w) hw)
    rw [SameMembers, List.forall_mem_cons, hmember, sameMembers_iff ms ns hms.2 hns]

end

mutual

/-- A normal form is its own normal form. -/
theorem normal_normal (v : JsValue) (hv : Plain v) : o.normal (o.normal v) = o.normal v := by
  cases v with
  | arr items =>
    rw [normal_arr, normal_arr, normal_items items hv]
  | obj members =>
    have hnodup : ((members.map fun m => (m.1, o.normal m.2)).map Prod.fst).Nodup := by
      rw [map_fst_normal]
      exact hv.1
    rw [normal_obj, normal_obj, JsValue.obj.injEq]
    have hperm := (o.perm (members.map fun m => (m.1, o.normal m.2))).map
      fun m : JsString × JsValue => (m.1, o.normal m.2)
    rw [normal_members members hv.2] at hperm
    exact (o.canonical hperm.symm hnodup).symm
  | null | bool | num | negZero | decimal | str => rfl

theorem normal_items (vs : List JsValue) (hvs : PlainItems vs) :
    (vs.map o.normal).map o.normal = vs.map o.normal := by
  match vs with
  | [] => rfl
  | v :: vs =>
    rw [List.map_cons, List.map_cons, normal_normal v hvs.1, normal_items vs hvs.2]

theorem normal_members (ms : List (JsString × JsValue)) (hms : PlainMembers ms) :
    ((ms.map fun m => (m.1, o.normal m.2)).map fun m => (m.1, o.normal m.2)) =
      ms.map fun m => (m.1, o.normal m.2) := by
  match ms with
  | [] => rfl
  | (k, v) :: ms =>
    rw [List.map_cons, List.map_cons, normal_normal v hms.1, normal_members ms hms.2]

end

mutual

/-- The sign of a zero does not matter to the normal form. -/
theorem normal_zeroed (v : JsValue) : o.normal (zeroed v) = o.normal v := by
  cases v with
  | arr items => rw [zeroed, normal_arr, normal_arr, normal_zeroedItems items]
  | obj members => rw [zeroed, normal_obj, normal_obj, normal_zeroedMembers members]
  | null | bool | num | negZero | decimal | str => rfl

theorem normal_zeroedItems (vs : List JsValue) :
    (zeroedItems vs).map o.normal = vs.map o.normal := by
  match vs with
  | [] => rfl
  | v :: vs =>
    rw [zeroedItems, List.map_cons, normal_zeroed v, normal_zeroedItems vs, List.map_cons]

theorem normal_zeroedMembers (ms : List (JsString × JsValue)) :
    ((zeroedMembers ms).map fun m => (m.1, o.normal m.2)) = ms.map fun m => (m.1, o.normal m.2) := by
  match ms with
  | [] => rfl
  | (k, v) :: ms =>
    rw [zeroedMembers, List.map_cons, normal_zeroed v, normal_zeroedMembers ms, List.map_cons]

end

end MemberOrder
