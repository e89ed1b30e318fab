import Mathlib.Algebra.Ring.Int.Defs
import Mathlib.Algebra.Order.BigOperators.Group.List
import Mathlib.Data.List.Perm.Lattice
import ZyronChain.Lib.JsMap

/-!
# Totals over a map, and maps that keep totals

An index kept beside a map of items often holds, for every key, a sum over the items: how many
there are, what they weigh.  Such an index is updated by one addition for an item that is stored
and one subtraction for an item that is deleted, and drops the keys whose sum is zero.

## Main definitions

* `JsMap.total` : the sum of a weight over the values of a map.
* `JsMap.tally` : adds to the number of a key and drops the key at zero.
* `JsMap.Tallies` : a map of numbers holds exactly the nonzero values of a function.

## Main results

* `JsMap.total_set`, `JsMap.total_delete` : totals after storing a new value and deleting one.
* `JsMap.Tallies.tally` : one update of an index.
-/

namespace JsMap

open List

variable {K V : Type} [DecidableEq K]

/-! ### Entries of a map -/

variable {k : K} {v : V}

theorem entries_set {m : JsMap K V} (h : m.get k = none) :
    (m.set k v).entries = m.entries ++ [(k, v)] := by
  rw [set, dif_neg (show k ∉ m.entries.map Prod.fst from get_eq_none_iff.mp h)]

theorem keys_set {m : JsMap K V} {v' : V} (h : m.get k = some v) : (m.set k v').keys = m.keys := by
  have hmem : k ∈ m.entries.map Prod.fst := mem_map.mpr ⟨(k, v), get_eq_some_iff.mp h, rfl⟩
  rw [set, dif_pos hmem]
  exact map_fst_replace _ _ _

theorem perm_delete {m : JsMap K V} (h : m.get k = some v) :
    m.entries.Perm ((k, v) :: (m.delete k).entries) := by
  have hmem := get_eq_some_iff.mp h
  have hnodup : m.entries.Nodup := m.nodup.of_map _
  have hnodup' : (m.delete k).entries.Nodup := (m.delete k).nodup.of_map _
  have hout : (k, v) ∉ (m.delete k).entries := by
    rw [← get_eq_some_iff, get_delete, if_pos rfl]
    exact nofun
  refine (perm_ext_iff_of_nodup hnodup (nodup_cons.mpr ⟨hout, hnodup'⟩)).mpr ?_
  rintro ⟨k', v'⟩
  rw [mem_cons, ← get_eq_some_iff, ← get_eq_some_iff, get_delete]
  by_cases hk : k' = k
  · subst hk
    simp [h, eq_comm]
  · simp [hk]

theorem Same.perm {m n : JsMap K V} (h : m.Same n) : m.entries.Perm n.entries := by
  refine (perm_ext_iff_of_nodup (m.nodup.of_map _) (n.nodup.of_map _)).mpr ?_
  rintro ⟨k, v⟩
  rw [← get_eq_some_iff, ← get_eq_some_iff, h k]

theorem same_set_delete {m : JsMap K V} (h : m.get k = some v) : ((m.delete k).set k v).Same m := by
  intro k'
  rw [get_set, get_delete]
  by_cases hk : k = k'
  · rw [if_pos hk, ← hk, h]
  · rw [if_neg hk, if_neg (Ne.symm hk)]

theorem set_of_get {m : JsMap K V} (h : m.get k = some v) : m.set k v = m := by
  have hmem := get_eq_some_iff.mp h
  have hkey : k ∈ m.entries.map Prod.fst := mem_map.mpr ⟨_, hmem, rfl⟩
  rw [set, dif_pos hkey]
  refine ext ((map_congr_left fun e he => ?_).trans (map_id _))
  by_cases hk : e.1 = k
  · have hv : m.get k = some e.2 := get_eq_some_iff.mpr (hk ▸ he)
    rw [h, Option.some.injEq] at hv
    rw [if_pos hk, hv, ← hk]
    rfl
  · rw [if_neg hk]
    rfl

/-! ### Totals -/

/-- The sum of a weight over the values. -/
def total (w : V → Int) (m : JsMap K V) : Int := (m.entries.map fun e => w e.2).sum

omit [DecidableEq K] in
@[simp] theorem total_empty (w : V → Int) : (empty : JsMap K V).total w = 0 := rfl

theorem total_set {m : JsMap K V} (w : V → Int) (h : m.get k = none) :
    (m.set k v).total w = m.total w + w v := by
  rw [total, entries_set h, map_append, sum_append, total]
  simp

theorem total_delete {m : JsMap K V} (w : V → Int) (h : m.get k = some v) :
    (m.delete k).total w = m.total w - w v := by
  have hsum : m.total w = w v + (m.delete k).total w :=
    ((perm_delete h).map fun e : K × V => w e.2).sum_eq
  omega

theorem Same.total_eq {m n : JsMap K V} (h : m.Same n) (w : V → Int) : m.total w = n.total w :=
  (h.perm.map fun e : K × V => w e.2).sum_eq

omit [DecidableEq K] in
theorem total_nonneg {m : JsMap K V} {w : V → Int} (h : ∀ e ∈ m.entries, 0 ≤ w e.2) :
    0 ≤ m.total w := by
  refine sum_nonneg fun x hx => ?_
  obtain ⟨e, he, rfl⟩ := mem_map.mp hx
  exact h e he

omit [DecidableEq K] in
theorem total_congr {m : JsMap K V} {w w' : V → Int} (h : ∀ e ∈ m.entries, w e.2 = w' e.2) :
    m.total w = m.total w' :=
  congrArg List.sum (map_congr_left h)

omit [DecidableEq K] in
@[simp] theorem total_zero (m : JsMap K V) : m.total (fun _ => 0) = 0 := by
  simp [total]

omit [DecidableEq K] in
@[simp] theorem total_one (m : JsMap K V) : m.total (fun _ => 1) = m.entries.length := by
  simp [total]

/-! ### Indexes of totals -/

/-- Adds `d` to the number of a key; the key is dropped when its number becomes zero. -/
def tally (m : JsMap K Int) (k : K) (d : Int) : JsMap K Int :=
  if (m.get k).getD 0 + d = 0 then m.delete k else m.set k ((m.get k).getD 0 + d)

/-- The map holds the nonzero values of a function. -/
def Tallies (m : JsMap K Int) (f : K → Int) : Prop :=
  ∀ k, m.get k = if f k = 0 then none else some (f k)

variable {m n : JsMap K Int} {f g : K → Int}

theorem Tallies.getD (h : m.Tallies f) (k : K) : (m.get k).getD 0 = f k := by
  rw [h k]
  split
  · next hz => exact hz.symm
  · rfl

theorem Tallies.tally {d : Int} (h : m.Tallies f) (hk : g k = f k + d)
    (hne : ∀ k', k' ≠ k → g k' = f k') : (m.tally k d).Tallies g := by
  intro k'
  rw [JsMap.tally, h.getD, ← hk]
  by_cases hkk : k' = k
  · subst hkk
    by_cases hz : g k' = 0
    · rw [if_pos hz, if_pos hz, get_delete, if_pos rfl]
    · rw [if_neg hz, if_neg hz, get_set_self]
  · rw [hne k' hkk, ← h k']
    by_cases hz : g k = 0
    · rw [if_pos hz, get_delete, if_neg hkk]
    · rw [if_neg hz, get_set_of_ne (Ne.symm hkk)]

theorem Tallies.same (h : m.Tallies f) (h' : n.Tallies f) : m.Same n := fun k =>
  (h k).trans (h' k).symm

end JsMap
