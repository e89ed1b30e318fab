import Mathlib.Data.List.Nodup
import Mathlib.Tactic.Common

/-!
# Insertion-ordered maps

`JsMap K V` is the `Map` of ECMAScript: its entries are listed in the order in which their
keys were first set, setting a key again replaces the value in place, and deleting a key
removes its entry.  That no key occurs twice is a field of the structure.
-/

/-- An insertion-ordered map with at most one entry a key. -/
structure JsMap (K V : Type) where
  entries : List (K × V)
  nodup : (entries.map Prod.fst).Nodup

namespace JsMap

open List

variable {K V : Type}

variable {m n : JsMap K V} {k : K} {es : List (K × V)} {v : V}

@[ext] theorem ext (h : m.entries = n.entries) : m = n := by
  cases m; cases n; cases h; rfl

instance [DecidableEq K] [DecidableEq V] : DecidableEq (JsMap K V) := fun m n =>
  decidable_of_iff (m.entries = n.entries) ⟨ext, fun h => h ▸ rfl⟩

/-- `new Map()`. -/
def empty : JsMap K V := ⟨[], nodup_nil⟩

variable [DecidableEq K]

/-! ### Lookups in the list of entries -/

/-- The value of the first entry with the given key. -/
def find (k : K) : List (K × V) → Option V
  | [] => none
  | e :: es => if e.1 = k then some e.2 else find k es

/-- Replaces the value of the entries with the given key. -/
def replace (k : K) (v : V) (es : List (K × V)) : List (K × V) :=
  es.map fun e => if e.1 = k then (k, v) else e

theorem find_eq_none_iff : find k es = none ↔ k ∉ es.map Prod.fst := by
  induction es with
  | nil => simp [find]
  | cons e es ih =>
    by_cases hk : e.1 = k
    · simp [find, hk]
    · simp [find, hk, ih, Ne.symm hk]

theorem find_eq_some_iff (hn : (es.map Prod.fst).Nodup) : find k es = some v ↔ (k, v) ∈ es := by
  induction es with
  | nil => simp [find]
  | cons e es ih =>
    simp only [map_cons, nodup_cons] at hn
    by_cases hk : e.1 = k
    · subst hk
      constructor
      · intro h
        simp only [find, if_true] at h
        cases h
        exact mem_cons_self
      · intro h
        rcases mem_cons.mp h with h | h
        · have hv : e.2 = v := (congrArg Prod.snd h).symm
          simp [find, hv]
        · exact absurd (mem_map_of_mem h) hn.1
    · have hne : (k, v) ≠ e := fun h => hk (by rw [← h])
      simp [find, hk, ih hn.2, hne]

theorem find_append {fs : List (K × V)} : find k (es ++ fs) = (find k es).or (find k fs) := by
  induction es with
  | nil => simp [find]
  | cons e es ih =>
    by_cases hk : e.1 = k <;> simp [find, hk, ih]

theorem find_replace {k' : K} (hk : k ∈ es.map Prod.fst) :
    find k' (replace k v es) = if k = k' then some v else find k' es := by
  induction es with
  | nil => simp at hk
  | cons e es ih =>
    by_cases he : e.1 = k
    · by_cases hkk : k = k'
      · simp [replace, find, he, hkk]
      · have hrest : find k' (replace k v es) = find k' es := by
          by_cases hmem : k ∈ es.map Prod.fst
          · simpa [hkk] using ih hmem
          · have : replace k v es = es := by
              refine (map_congr_left fun x hx => ?_).trans (map_id es)
              have : x.1 ≠ k := fun h => hmem (h ▸ mem_map_of_mem hx)
              simp [this]
            rw [this]
        simpa [replace, find, he, hkk] using hrest
    · have hmem : k ∈ es.map Prod.fst := by
        simpa [Ne.symm he] using hk
      by_cases hkk : e.1 = k'
      · subst hkk
        simp [replace, find, he, Ne.symm he]
      · simpa [replace, find, he, hkk] using ih hmem

theorem map_fst_replace (k : K) (v : V) (es : List (K × V)) :
    (replace k v es).map Prod.fst = es.map Prod.fst := by
  rw [replace, map_map]
  refine map_congr_left fun e _ => ?_
  by_cases he : e.1 = k <;> simp [he]

/-! ### Operations -/

/-- `map.get(k)`. -/
def get (m : JsMap K V) (k : K) : Option V := find k m.entries

/-- `map.has(k)`. -/
def has (m : JsMap K V) (k : K) : Bool := (m.get k).isSome

def keys (m : JsMap K V) : List K := m.entries.map Prod.fst

/-- `map.set(k, v)`. -/
def set (m : JsMap K V) (k : K) (v : V) : JsMap K V :=
  if h : k ∈ m.entries.map Prod.fst then
    ⟨replace k v m.entries, by rw [map_fst_replace]; exact m.nodup⟩
  else
    ⟨m.entries ++ [(k, v)], by
      rw [map_append, nodup_append]
      refine ⟨m.nodup, by simp, ?_⟩
      rintro a ha b hb rfl
      simp only [map_cons, map_nil, mem_singleton] at hb
      exact h (hb ▸ ha)⟩

/-- Keeps the entries whose key passes the test. -/
def keep (m : JsMap K V) (p : K → Bool) : JsMap K V :=
  ⟨m.entries.filter fun e => p e.1, m.nodup.sublist (filter_sublist.map _)⟩

/-- `map.delete(k)`. -/
def delete (m : JsMap K V) (k : K) : JsMap K V := m.keep fun k' => k' ≠ k

@[simp] theorem get_empty (k : K) : (empty : JsMap K V).get k = none := rfl

theorem get_eq_some_iff : m.get k = some v ↔ (k, v) ∈ m.entries := find_eq_some_iff m.nodup

theorem get_eq_none_iff : m.get k = none ↔ k ∉ m.keys := find_eq_none_iff

theorem get_set (m : JsMap K V) (k k' : K) (v : V) :
    (m.set k v).get k' = if k = k' then some v else m.get k' := by
  unfold set get
  split
  · next h => exact find_replace h
  · next h =>
    rw [find_append]
    by_cases hk : k = k'
    · subst hk
      rw [find_eq_none_iff.mpr h]
      simp [find]
    · simp [find, hk]

@[simp] theorem get_set_self (m : JsMap K V) (k : K) (v : V) : (m.set k v).get k = some v := by
  simp [get_set]

theorem get_set_of_ne {k' : K} (h : k ≠ k') : (m.set k v).get k' = m.get k' := by
  simp [get_set, h]

theorem get_keep (m : JsMap K V) (p : K → Bool) (k : K) :
    (m.keep p).get k = if p k then m.get k else none := by
  change find k (m.entries.filter fun e => p e.1) = if p k then find k m.entries else none
  induction m.entries with
  | nil => simp [find]
  | cons e es ih =>
    by_cases hp : p e.1
    · by_cases he : e.1 = k
      · subst he
        simp [find, hp]
      · simp [find, hp, he, ih]
    · by_cases he : e.1 = k
      · subst he
        simp [hp, ih]
      · simp [find, hp, he, ih]

theorem get_delete (m : JsMap K V) (k k' : K) :
    (m.delete k).get k' = if k' = k then none else m.get k' := by
  rw [delete, get_keep]
  by_cases h : k' = k <;> simp [h]

theorem keep_eq_self {p : K → Bool} (h : ∀ k, m.get k ≠ none → p k = true) : m.keep p = m := by
  refine ext (filter_eq_self.mpr fun e he => h e.1 ?_)
  rw [get_eq_some_iff.mpr he]
  exact Option.some_ne_none _

private theorem filter_replace_of_neg (p : K → Bool) (hk : p k = false) (v : V) (es : List (K × V)) :
    (replace k v es).filter (fun e => p e.1) = es.filter fun e => p e.1 := by
  induction es with
  | nil => rfl
  | cons e es ih =>
    by_cases he : e.1 = k
    · have hcons : replace k v (e :: es) = (k, v) :: replace k v es := by simp [replace, he]
      rw [hcons, filter_cons_of_neg (by simp [hk]), filter_cons_of_neg (by simp [he, hk])]
      exact ih
    · have hcons : replace k v (e :: es) = e :: replace k v es := by simp [replace, he]
      rw [hcons, filter_cons, filter_cons, ih]

private theorem filter_replace_of_pos (p : K → Bool) (hk : p k = true) (v : V) (es : List (K × V)) :
    (replace k v es).filter (fun e => p e.1) = replace k v (es.filter fun e => p e.1) := by
  induction es with
  | nil => rfl
  | cons e es ih =>
    by_cases he : e.1 = k
    · have hcons : ∀ fs, replace k v (e :: fs) = (k, v) :: replace k v fs := by simp [replace, he]
      rw [hcons, filter_cons_of_pos (by simp [hk]), filter_cons_of_pos (by simp [he, hk]),
        hcons, ih]
    · have hcons : ∀ fs, replace k v (e :: fs) = e :: replace k v fs := by simp [replace, he]
      rw [hcons, filter_cons, filter_cons, ih]
      split
      · rw [hcons]
      · rfl

theorem keep_set (m : JsMap K V) (p : K → Bool) (k : K) (v : V) :
    (m.set k v).keep p = if p k then (m.keep p).set k v else m.keep p := by
  have hmem : p k = true → (k ∈ (m.keep p).entries.map Prod.fst ↔ k ∈ m.entries.map Prod.fst) := by
    intro hp
    simp [keep, hp]
  apply ext
  by_cases hp : p k = true
  · rw [if_pos hp]
    by_cases hk : k ∈ m.entries.map Prod.fst
    · rw [set, dif_pos hk, set, dif_pos ((hmem hp).mpr hk)]
      exact filter_replace_of_pos p hp v m.entries
    · rw [set, dif_neg hk, set, dif_neg fun h => hk ((hmem hp).mp h)]
      simp [keep, hp]
  · rw [if_neg hp]
    rw [Bool.not_eq_true] at hp
    by_cases hk : k ∈ m.entries.map Prod.fst
    · rw [set, dif_pos hk]
      exact filter_replace_of_neg p hp v m.entries
    · rw [set, dif_neg hk]
      simp [keep, hp]

/-! ### Maps up to the order of their entries -/

/-- Two maps that answer every lookup alike. -/
def Same (m n : JsMap K V) : Prop := ∀ k, m.get k = n.get k

theorem Same.refl (m : JsMap K V) : m.Same m := fun _ => rfl

theorem Same.symm {m n : JsMap K V} (h : m.Same n) : n.Same m := fun k => (h k).symm

theorem Same.trans {o : JsMap K V} (h : m.Same n) (h' : n.Same o) : m.Same o :=
  fun k => (h k).trans (h' k)

theorem Same.set (h : m.Same n) (k : K) (v : V) : (m.set k v).Same (n.set k v) := by
  intro k'
  rw [get_set, get_set, h k']

end JsMap
