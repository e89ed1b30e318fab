import Mathlib.Algebra.Ring.Int.Defs
import Mathlib.Algebra.Order.BigOperators.Group.List
import Mathlib.Algebra.Order.Group.Int
import Mathlib.Data.List.Nodup
import Mathlib.Order.RelClasses
import Mathlib.Tactic.Common

/-!
# Finite maps listed in the order of their keys

`SortedMap r V` maps keys to values; its entries are listed in the strict total order `r` of their
keys.  Two maps that answer every lookup alike are therefore equal.  A set is a map to `Unit`.
-/

/-- A finite map whose entries are listed in the order of their keys. -/
structure SortedMap {K : Type} (r : K → K → Prop) (V : Type) where
  entries : List (K × V)
  sorted : entries.Pairwise fun a b => r a.1 b.1

/-- A finite set whose elements are listed in order. -/
abbrev SortedSet {K : Type} (r : K → K → Prop) : Type := SortedMap r Unit

namespace SortedMap

open Option

variable {K V : Type} {r : K → K → Prop}

variable {m : SortedMap r V}

theorem ext_entries {n : SortedMap r V} (h : m.entries = n.entries) : m = n := by
  cases m; cases n; cases h; rfl

instance [DecidableEq K] [DecidableEq V] : DecidableEq (SortedMap r V) := fun m n =>
  decidable_of_iff (m.entries = n.entries) ⟨ext_entries, fun h => h ▸ rfl⟩

def empty : SortedMap r V := ⟨[], .nil⟩

def keys (m : SortedMap r V) : List K := m.entries.map Prod.fst

def last? (m : SortedMap r V) : Option (K × V) := m.entries.getLast?

theorem keys_sorted (m : SortedMap r V) : m.keys.Pairwise r := List.pairwise_map.mpr m.sorted

section

variable [DecidableEq K]

/-- The value of the entry with the given key. -/
def get (m : SortedMap r V) (k : K) : Option V := (m.entries.find? fun e => e.1 = k).map Prod.snd

/-- Whether the map has an entry with the given key. -/
def has (m : SortedMap r V) (k : K) : Bool := (m.get k).isSome

variable [DecidableRel r]

/-- Puts an entry into a sorted list, in the place of the one with its key if there is one. -/
def insert (k : K) (v : V) : List (K × V) → List (K × V)
  | [] => [(k, v)]
  | e :: es => if r k e.1 then (k, v) :: e :: es
      else if e.1 = k then (k, v) :: es else e :: insert k v es

end

variable [IsStrictTotalOrder K r]

private theorem ne_of_lt {a b : K} (h : r a b) : a ≠ b := fun heq =>
  irrefl_of r b (heq ▸ h)

theorem nodup_keys (m : SortedMap r V) : m.keys.Nodup := m.keys_sorted.imp ne_of_lt

variable [DecidableEq K]

variable {es : List (K × V)} {k : K} {v : V}

private theorem find_eq_some (h : (es.map Prod.fst).Nodup) :
    ((es.find? fun e => e.1 = k).map Prod.snd) = some v ↔ (k, v) ∈ es := by
  induction es with
  | nil => simp
  | cons e es ih =>
    rw [List.map_cons, List.nodup_cons] at h
    by_cases he : e.1 = k
    · rw [List.find?_cons_of_pos (by simp [he]), map_some, List.mem_cons, Option.some.injEq]
      constructor
      · rintro rfl
        exact .inl (by rw [← he])
      · rintro (heq | hmem)
        · rw [← heq]
        · exact absurd (List.mem_map_of_mem hmem) (he ▸ h.1)
    · rw [List.find?_cons_of_neg (by simp [he]), ih h.2, List.mem_cons]
      have hne : (k, v) ≠ e := fun heq => he (by rw [← heq])
      simp [hne]

theorem get_eq_some_iff : m.get k = some v ↔ (k, v) ∈ m.entries := find_eq_some m.nodup_keys

theorem get_eq_none_iff : m.get k = none ↔ k ∉ m.keys := by
  rw [← not_iff_not, ← ne_eq, ne_none_iff_exists', not_not, keys, List.mem_map]
  constructor
  · rintro ⟨v, hv⟩
    exact ⟨(k, v), get_eq_some_iff.mp hv, rfl⟩
  · rintro ⟨e, he, rfl⟩
    exact ⟨e.2, get_eq_some_iff.mpr he⟩

theorem has_iff_mem : m.has k = true ↔ k ∈ m.keys := by
  rw [has, isSome_iff_ne_none, ne_eq, get_eq_none_iff, not_not]

/-- Maps that answer every lookup alike are equal. -/
theorem ext_get {n : SortedMap r V} (h : ∀ k, m.get k = n.get k) : m = n := by
  have hnodup : ∀ p : SortedMap r V, p.entries.Nodup := fun p => .of_map _ p.nodup_keys
  refine ext_entries (List.Perm.eq_of_pairwise ?_ m.sorted n.sorted
    ((List.perm_ext_iff_of_nodup (hnodup m) (hnodup n)).mpr fun e => ?_))
  · intro a b _ _ hab hba
    exact absurd (trans_of r hab hba) (irrefl_of r a.1)
  · rw [← get_eq_some_iff, ← get_eq_some_iff, h]

/-! ### Setting a key -/

variable [DecidableRel r]

theorem mem_insert {k : K} {v : V} {es : List (K × V)} (hes : es.Pairwise fun a b => r a.1 b.1)
    {e : K × V} : e ∈ insert (r := r) k v es ↔ e = (k, v) ∨ (e.1 ≠ k ∧ e ∈ es) := by
  induction es with
  | nil => simp [insert]
  | cons f fs ih =>
    rw [List.pairwise_cons] at hes
    rw [insert]
    split
    · next hlt =>
      have hne : ∀ g ∈ f :: fs, g.1 ≠ k := by
        intro g hg
        rcases List.mem_cons.mp hg with rfl | hg
        · exact (ne_of_lt hlt).symm
        · exact (ne_of_lt (trans_of r hlt (hes.1 g hg))).symm
      rw [List.mem_cons]
      exact or_congr_right ⟨fun h => ⟨hne e h, h⟩, And.right⟩
    · split
      · next heq =>
        have hne : ∀ g ∈ fs, g.1 ≠ k := fun g hg => (ne_of_lt (heq ▸ hes.1 g hg)).symm
        rw [List.mem_cons, List.mem_cons]
        refine or_congr_right ⟨fun h => ⟨hne e h, .inr h⟩, ?_⟩
        rintro ⟨hek, rfl | h⟩
        · exact absurd heq hek
        · exact h
      · next heq =>
        rw [List.mem_cons, ih hes.2, List.mem_cons]
        constructor
        · rintro (rfl | rfl | ⟨hek, h⟩)
          · exact .inr ⟨heq, .inl rfl⟩
          · exact .inl rfl
          · exact .inr ⟨hek, .inr h⟩
        · rintro (rfl | ⟨hek, rfl | h⟩)
          · exact .inr (.inl rfl)
          · exact .inl rfl
          · exact .inr (.inr ⟨hek, h⟩)

theorem pairwise_insert {k : K} {v : V} {es : List (K × V)}
    (hes : es.Pairwise fun a b => r a.1 b.1) :
    (insert (r := r) k v es).Pairwise fun a b => r a.1 b.1 := by
  induction es with
  | nil => exact List.pairwise_singleton _ _
  | cons f fs ih =>
    have hfs := List.pairwise_cons.mp hes
    rw [insert]
    split
    · next hlt =>
      refine List.pairwise_cons.mpr ⟨fun g hg => ?_, hes⟩
      rcases List.mem_cons.mp hg with rfl | hg
      · exact hlt
      · exact trans_of r hlt (hfs.1 g hg)
    · next hnlt =>
      split
      · next heq =>
        exact List.pairwise_cons.mpr ⟨fun g hg => heq ▸ hfs.1 g hg, hfs.2⟩
      · next heq =>
        refine List.pairwise_cons.mpr ⟨fun g hg => ?_, ih hfs.2⟩
        rcases (mem_insert hfs.2).mp hg with rfl | ⟨-, hg⟩
        · exact ((trichotomous_of r k f.1).resolve_left hnlt).resolve_left (Ne.symm heq)
        · exact hfs.1 g hg

def set (m : SortedMap r V) (k : K) (v : V) : SortedMap r V :=
  ⟨insert (r := r) k v m.entries, pairwise_insert m.sorted⟩

theorem get_set (m : SortedMap r V) (k k' : K) (v : V) :
    (m.set k v).get k' = if k = k' then some v else m.get k' := by
  refine Option.ext fun w => ?_
  rw [get_eq_some_iff, set, mem_insert m.sorted, Prod.mk.injEq]
  split
  · next heq =>
    subst heq
    simp [eq_comm]
  · next hne => simp [Ne.symm hne, get_eq_some_iff]

omit [DecidableEq K] [DecidableRel r] [IsStrictTotalOrder K r] in
@[simp] theorem get_empty [DecidableEq K] (k : K) : (empty : SortedMap r V).get k = none := rfl

theorem mem_keys_set {k' : K} : k' ∈ (m.set k v).keys ↔ k' = k ∨ k' ∈ m.keys := by
  rw [← not_iff_not, ← get_eq_none_iff, get_set, not_or, ← get_eq_none_iff]
  split
  · next heq => simp [heq]
  · next hne => simp [Ne.symm hne]

private theorem insert_of_lt {k : K} {v : V} {es : List (K × V)} (h : ∀ e ∈ es, r e.1 k) :
    insert (r := r) k v es = es ++ [(k, v)] := by
  induction es with
  | nil => rfl
  | cons e es ih =>
    rw [List.forall_mem_cons] at h
    rw [insert, if_neg fun hlt => irrefl_of r k (trans_of r hlt h.1), if_neg (ne_of_lt h.1),
      ih h.2, List.cons_append]

/-- A key after all others is listed last. -/
theorem entries_set_of_lt (h : ∀ j ∈ m.keys, r j k) (v : V) :
    (m.set k v).entries = m.entries ++ [(k, v)] :=
  insert_of_lt fun e he => h e.1 (List.mem_map_of_mem he)

theorem last?_set_of_lt (h : ∀ j ∈ m.keys, r j k) (v : V) : (m.set k v).last? = some (k, v) := by
  rw [last?, entries_set_of_lt h, List.getLast?_concat]

omit [DecidableEq K] [DecidableRel r] in
theorem lt_of_last_lt (h : ∀ e, m.last? = some e → r e.1 k) : ∀ j ∈ m.keys, r j k := by
  intro j hj
  obtain ⟨e, he, rfl⟩ := List.mem_map.mp hj
  obtain ⟨es, f, hes⟩ := List.eq_nil_or_concat m.entries |>.resolve_left (List.ne_nil_of_mem he)
  have hlast := h f (by rw [last?, hes, List.concat_eq_append, List.getLast?_concat])
  have hsorted := m.sorted
  rw [hes, List.concat_eq_append] at he hsorted
  rcases List.mem_append.mp he with hmem | hmem
  · exact trans_of r ((List.pairwise_append.mp hsorted).2.2 e hmem f (List.mem_singleton_self f)) hlast
  · rw [List.mem_singleton.mp hmem]
    exact hlast

/-! ### Lists of entries -/

/-- The map of a list of entries; of several entries with one key the last counts. -/
def ofEntries (es : List (K × V)) : SortedMap r V := es.foldl (fun m e => m.set e.1 e.2) empty

private theorem get_foldl_set (hes : (es.map Prod.fst).Nodup) (m : SortedMap r V) (k : K) :
    (es.foldl (fun m e => m.set e.1 e.2) m).get k =
      ((es.find? fun e => e.1 = k).map Prod.snd).or (m.get k) := by
  induction es generalizing m with
  | nil => rfl
  | cons e es ih =>
    rw [List.map_cons, List.nodup_cons] at hes
    rw [List.foldl_cons, ih hes.2, get_set]
    by_cases he : e.1 = k
    · have hnone : (es.find? fun e => e.1 = k) = none := List.find?_eq_none.mpr fun f hf hk =>
        hes.1 (he ▸ (of_decide_eq_true hk) ▸ List.mem_map_of_mem hf)
      rw [hnone, if_pos he, List.find?_cons_of_pos (by simp [he])]
      rfl
    · rw [if_neg he, List.find?_cons_of_neg (by simp [he])]

theorem ofEntries_entries (m : SortedMap r V) : ofEntries m.entries = m := by
  refine ext_get fun k => ?_
  rw [ofEntries, get_foldl_set m.nodup_keys, get_empty, or_none]
  rfl

omit [DecidableRel r] in
/-- A list of the entries of a map, sorted by their keys. -/
theorem mergeSort_eq_entries (le : K → K → Bool)
    (htrans : ∀ a b c, le a b = true → le b c = true → le a c = true)
    (htotal : ∀ a b, (le a b || le b a) = true) (hlt : ∀ a b, r a b → le a b = true)
    (hanti : ∀ a b, le a b = true → le b a = true → a = b) (hes : es.Nodup)
    (hmem : ∀ e, e ∈ es ↔ e ∈ m.entries) : (es.mergeSort fun a b => le a.1 b.1) = m.entries := by
  have hperm : (es.mergeSort fun a b => le a.1 b.1).Perm m.entries :=
    (List.mergeSort_perm _ _).trans
      ((List.perm_ext_iff_of_nodup hes (.of_map _ m.nodup_keys)).mpr hmem)
  refine List.Perm.eq_of_pairwise (fun a b ha hb hab hba => ?_)
    (List.pairwise_mergeSort (fun a b c => htrans a.1 b.1 c.1) (fun a b => htotal a.1 b.1) es)
    (m.sorted.imp fun h => hlt _ _ h) hperm
  have hget : m.get a.1 = some a.2 := get_eq_some_iff.mpr (hperm.mem_iff.mp ha)
  rw [hanti _ _ hab hba, get_eq_some_iff.mpr hb, Option.some.injEq] at hget
  exact Prod.ext (hanti _ _ hab hba) hget.symm

omit [DecidableEq K] [DecidableRel r] in
/-- A list of the keys of a map, sorted. -/
theorem mergeSort_eq_keys (le : K → K → Bool)
    (htrans : ∀ a b c, le a b = true → le b c = true → le a c = true)
    (htotal : ∀ a b, (le a b || le b a) = true) (hlt : ∀ a b, r a b → le a b = true)
    (hanti : ∀ a b, le a b = true → le b a = true → a = b) {ks : List K} (hks : ks.Nodup)
    (hmem : ∀ k, k ∈ ks ↔ k ∈ m.keys) : ks.mergeSort le = m.keys := by
  have hperm : (ks.mergeSort le).Perm m.keys :=
    (List.mergeSort_perm _ _).trans ((List.perm_ext_iff_of_nodup hks m.nodup_keys).mpr hmem)
  exact List.Perm.eq_of_pairwise (fun a b _ _ => hanti a b) (List.pairwise_mergeSort htrans htotal ks)
    (m.keys_sorted.imp fun h => hlt _ _ h) hperm

/-! ### Sums -/

/-- The sum of a number over all values. -/
def sum (m : SortedMap r V) (f : V → Int) : Int := (m.entries.map fun e => f e.2).sum

omit [DecidableEq K] [DecidableRel r] [IsStrictTotalOrder K r] in
theorem sum_nonneg {f : V → Int} (h : ∀ e ∈ m.entries, 0 ≤ f e.2) : 0 ≤ m.sum f := by
  refine List.sum_nonneg fun x hx => ?_
  obtain ⟨e, he, rfl⟩ := List.mem_map.mp hx
  exact h e he

private theorem sum_insert {k : K} {v : V} {es : List (K × V)}
    (hes : es.Pairwise fun a b => r a.1 b.1) (f : V → Int) :
    ((insert (r := r) k v es).map fun e => f e.2).sum + ((es.find? fun e => e.1 = k).map
      fun e => f e.2).getD 0 = (es.map fun e => f e.2).sum + f v := by
  induction es with
  | nil => simp [insert]
  | cons e es ih =>
    have hes' := List.pairwise_cons.mp hes
    rw [insert]
    split
    · next hlt =>
      have hnone : ((e :: es).find? fun e => e.1 = k) = none := by
        refine List.find?_eq_none.mpr fun g hg hk => ?_
        have hgk : g.1 = k := of_decide_eq_true hk
        rcases List.mem_cons.mp hg with rfl | hg
        · exact ne_of_lt hlt hgk.symm
        · exact ne_of_lt (trans_of r hlt (hes'.1 g hg)) hgk.symm
      rw [hnone]
      simp
      omega
    · split
      · next heq =>
        rw [List.find?_cons_of_pos (by simp [heq])]
        simp
        omega
      · next heq =>
        have hrest := ih hes'.2
        rw [List.find?_cons_of_neg (by simp [heq]), List.map_cons, List.sum_cons, List.map_cons,
          List.sum_cons]
        omega

/-- Setting a key changes a sum by the difference of the values. -/
theorem sum_set (m : SortedMap r V) (k : K) (v : V) (f : V → Int) :
    (m.set k v).sum f = m.sum f + f v - ((m.get k).map f).getD 0 := by
  have h := sum_insert (k := k) (v := v) m.sorted f
  have hget : (m.get k).map f = (m.entries.find? fun e => e.1 = k).map fun e => f e.2 := by
    rw [get, map_map]
    rfl
  rw [hget]
  change ((insert (r := r) k v m.entries).map fun e => f e.2).sum = _
  rw [sum]
  omega

omit [DecidableEq K] [DecidableRel r] [IsStrictTotalOrder K r] in
theorem le_sum {f : V → Int} (h : ∀ e ∈ m.entries, 0 ≤ f e.2) {e : K × V} (he : e ∈ m.entries) :
    f e.2 ≤ m.sum f := by
  refine List.single_le_sum (fun x hx => ?_) _ (List.mem_map_of_mem (f := fun e => f e.2) he)
  obtain ⟨g, hg, rfl⟩ := List.mem_map.mp hx
  exact h g hg

end SortedMap
