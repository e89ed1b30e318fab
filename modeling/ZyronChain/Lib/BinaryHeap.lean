import Mathlib.Order.Lattice
import Mathlib.Order.Basic
import Mathlib.Order.Nat
import Mathlib.Tactic.Common

/-!
# Binary heaps in an array

The children of position `i` are at `2 * i + 1` and `2 * i + 2`; no element comes before its parent.
The two loops that restore the order after a change at one position are given as they are usually
written: `up` moves an element towards the root, `down` towards the leaves.

The order is a test `before` on elements; the results are about tests that compare a key in a
linear order.
-/

namespace BinaryHeap

open List

variable {α : Type}

def parent (i : Nat) : Nat := (i - 1) / 2

/-- The element at one position comes before that at another. -/
def beforeAt (before : α → α → Bool) (h : Array α) (i j : Nat) : Bool := match h[i]?, h[j]? with
  | some a, some b => before a b
  | _, _ => false

/-- Moves the element at a position up until it does not come before its parent. -/
def up (before : α → α → Bool) (h : Array α) (i : Nat) : Array α := if i = 0 then h
  else if beforeAt before h i (parent i) = true then
    up before (h.swapIfInBounds i (parent i)) (parent i)
  else h
termination_by i
decreasing_by
  rw [parent]
  omega

/-- The second of two positions when it holds an element that comes before that at the first. -/
def pick (before : α → α → Bool) (h : Array α) (i j : Nat) : Nat :=
  if j < h.size ∧ beforeAt before h j i = true then j else i

/-- The position of the first among an element and its children. -/
def best (before : α → α → Bool) (h : Array α) (i : Nat) : Nat :=
  pick before h (pick before h i (2 * i + 1)) (2 * i + 2)

theorem pick_cases (before : α → α → Bool) (h : Array α) (i j : Nat) :
    pick before h i j = i ∨ pick before h i j = j ∧ j < h.size ∧ beforeAt before h j i = true := by
  rw [pick]
  split
  · next hj => exact .inr ⟨rfl, hj⟩
  · exact .inl rfl

theorem best_cases (before : α → α → Bool) (h : Array α) (i : Nat) :
    best before h i = i ∨
      (best before h i = 2 * i + 1 ∨ best before h i = 2 * i + 2) ∧ best before h i < h.size := by
  rw [best]
  rcases pick_cases before h (pick before h i (2 * i + 1)) (2 * i + 2) with hr | ⟨hr, hlt, -⟩
  · rw [hr]
    rcases pick_cases before h i (2 * i + 1) with hl | ⟨hl, hlt, -⟩
    · exact .inl hl
    · rw [hl]
      exact .inr ⟨.inl rfl, hlt⟩
  · rw [hr]
    exact .inr ⟨.inr rfl, hlt⟩

/-- Moves the element at a position down until none of its children comes before it. -/
def down (before : α → α → Bool) (h : Array α) (i : Nat) : Array α := if best before h i = i then h
  else down before (h.swapIfInBounds i (best before h i)) (best before h i)
termination_by h.size - i
decreasing_by
  rw [Array.size_swapIfInBounds]
  have := best_cases before h i
  omega

/-- Puts another element in the place of the root. -/
def replaceRoot (before : α → α → Bool) (h : Array α) (x : α) : Array α :=
  down before (h.setIfInBounds 0 x) 0

/-- Takes the root away: the last element replaces it. -/
def removeRoot (before : α → α → Bool) (h : Array α) : Array α := match h.back? with
  | none => h
  | some last =>
    let rest := h.pop
    if 0 < rest.size then replaceRoot before rest last else rest

/-! ### The loops only rearrange -/

theorem perm_swapIfInBounds (h : Array α) (i j : Nat) : (h.swapIfInBounds i j).Perm h := by
  rw [Array.swapIfInBounds]
  split
  · split
    · exact Array.swap_perm ..
    · exact .refl h
  · exact .refl h

theorem perm_up (before : α → α → Bool) (h : Array α) (i : Nat) : (up before h i).Perm h := by
  induction h, i using up.induct before with
  | case1 h => rw [up, if_pos rfl]
  | case2 h i hi hbefore ih =>
    rw [up, if_neg hi, if_pos hbefore]
    exact ih.trans (perm_swapIfInBounds ..)
  | case3 h i hi hbefore => rw [up, if_neg hi, if_neg hbefore]

theorem perm_down (before : α → α → Bool) (h : Array α) (i : Nat) : (down before h i).Perm h := by
  induction h, i using down.induct before with
  | case1 h i hbest => rw [down, if_pos hbest]
  | case2 h i hbest ih =>
    rw [down, if_neg hbest]
    exact ih.trans (perm_swapIfInBounds ..)

variable {h : Array α} {i : Nat}

theorem perm_replaceRoot (before : α → α → Bool) {a : α} {t : List α} (ht : h.toList = a :: t)
    (x : α) : (replaceRoot before h x).toList.Perm (x :: t) := by
  have hperm := (perm_down before (h.setIfInBounds 0 x) 0).toList
  rwa [Array.toList_setIfInBounds, ht, set_cons_zero] at hperm

theorem perm_removeRoot (before : α → α → Bool) {a : α} {t : List α} (ht : h.toList = a :: t) :
    (removeRoot before h).toList.Perm t := by
  have hback : h.back? = (a :: t).getLast? := by
    rw [← ht]
    exact (Array.getLast?_toList h).symm
  have hpop : h.pop.toList = (a :: t).dropLast := by rw [Array.toList_pop, ht]
  rw [removeRoot, hback]
  rcases eq_nil_or_concat t with rfl | ⟨mid, last, rfl⟩
  · have hsize : ¬ 0 < h.pop.size := by
      rw [← Array.length_toList, hpop]
      simp
    simp only [List.getLast?_singleton, if_neg hsize, hpop, dropLast_singleton]
    exact .refl []
  · rw [concat_eq_append] at hpop ⊢
    have hmid : h.pop.toList = a :: mid := by
      rw [hpop, ← cons_append, dropLast_concat]
    have hsize : 0 < h.pop.size := by
      rw [← Array.length_toList, hmid]
      simp
    simp only [← cons_append, List.getLast?_concat, if_pos hsize]
    exact (perm_replaceRoot before hmid last).trans (perm_append_singleton last mid).symm

/-! ### Order -/

variable {L : Type} [LinearOrder L] (key : α → L)

/-- The element in one place does not come after that in another, if both places hold one. -/
def Le (x y : Option α) : Prop := ∀ a b, x = some a → y = some b → key a ≤ key b

/-- No element comes before its parent. -/
def Ordered (h : Array α) : Prop := ∀ k, 0 < k → Le key h[parent k]? h[k]?

/-- The order of a heap with an element at `i` that may have to move up. -/
structure UpOrder (h : Array α) (i : Nat) : Prop where
  off : ∀ k, 0 < k → k ≠ i → Le key h[parent k]? h[k]?
  grand : ∀ k, 0 < k → parent k = i → 0 < i → Le key h[parent i]? h[k]?

/-- The order of a heap with an element at `i` that may have to move down. -/
structure DownOrder (h : Array α) (i : Nat) : Prop where
  off : ∀ k, 0 < k → parent k ≠ i → Le key h[parent k]? h[k]?
  grand : ∀ k, 0 < k → parent k = i → 0 < i → Le key h[parent i]? h[k]?

variable {key}

theorem Le.trans {x y z : Option α} {b : α} (hxy : Le key x y) (hyz : Le key y z)
    (hy : y = some b) : Le key x z :=
  fun a c ha hc => (hxy a b ha hy).trans (hyz b c hy hc)

variable {before : α → α → Bool} (hbefore : ∀ a b, before a b = true ↔ key a < key b)

include hbefore

theorem beforeAt_eq_true {j : Nat} (hij : beforeAt before h i j = true) :
    ∃ a b, h[i]? = some a ∧ h[j]? = some b ∧ key a < key b := by
  rw [beforeAt] at hij
  split at hij
  · next a b ha hb => exact ⟨a, b, ha, hb, (hbefore a b).mp hij⟩
  · cases hij

theorem le_of_not_beforeAt {j : Nat} (hij : ¬ beforeAt before h i j = true) :
    Le key h[j]? h[i]? := by
  intro b a hb ha
  rw [beforeAt, ha, hb] at hij
  exact not_lt.mp fun hlt => hij ((hbefore a b).mpr hlt)

omit hbefore in
theorem getElem?_swapIfInBounds {j : Nat} (hi : i < h.size) (hj : j < h.size) (k : Nat) :
    (h.swapIfInBounds i j)[k]? = if k = i then h[j]? else if k = j then h[i]? else h[k]? := by
  rw [Array.swapIfInBounds, dif_pos hi, dif_pos hj, Array.getElem?_swap]
  by_cases hkj : j = k
  · subst hkj
    by_cases hji : j = i
    · subst hji
      simp
    · simp [hji, hi]
  · rw [if_neg hkj]
    by_cases hki : i = k
    · subst hki
      simp [hj]
    · simp [hki, Ne.symm hki, Ne.symm hkj]

omit hbefore in
theorem lt_size_of_getElem? {a : α} (ha : h[i]? = some a) : i < h.size :=
  (Array.getElem?_eq_some_iff.mp ha).1

/-! ### Moving up -/

omit hbefore in
theorem parent_lt (hi : i ≠ 0) : parent i < i := by
  rw [parent]
  omega

theorem UpOrder.swap (ho : UpOrder key h i) (hi : i ≠ 0)
    (hup : beforeAt before h i (parent i) = true) :
    UpOrder key (h.swapIfInBounds i (parent i)) (parent i) := by
  obtain ⟨a, b, ha, hb, hlt⟩ := beforeAt_eq_true hbefore hup
  have hget := getElem?_swapIfInBounds (lt_size_of_getElem? ha) (lt_size_of_getElem? hb)
  have hpi := parent_lt hi
  have hai : Le key (some a) h[parent i]? := by
    rintro _ _ ⟨⟩ hb'
    rw [hb, Option.some.injEq] at hb'
    exact hb' ▸ hlt.le
  -- The element that comes down, and what was below it, stay below the parent's parent.
  have habove : 0 < parent i → Le key h[parent (parent i)]? h[parent i]? := fun hpos =>
    ho.off (parent i) hpos hpi.ne
  refine ⟨fun k hk hne => ?_, fun k hk hpk hpos => ?_⟩
  · have hpk := parent_lt hk.ne'
    rw [hget, hget]
    by_cases hki : k = i
    · subst hki
      rw [if_neg hpi.ne, if_pos rfl, if_pos rfl, ha]
      exact hai
    · rw [if_neg hki, if_neg hne]
      by_cases hpki : parent k = i
      · rw [if_pos hpki]
        exact ho.grand k hk hpki (Nat.pos_of_ne_zero hi)
      · rw [if_neg hpki]
        by_cases hsib : parent k = parent i
        · rw [if_pos hsib, ha]
          refine hai.trans ?_ hb
          rw [← hsib]
          exact ho.off k hk hki
        · rw [if_neg hsib]
          exact ho.off k hk hki
  · have hpp := parent_lt hpos.ne'
    rw [hget, hget, if_neg (hpp.trans hpi).ne, if_neg hpp.ne]
    by_cases hki : k = i
    · subst hki
      rw [if_pos rfl]
      exact habove hpos
    · rw [if_neg hki, if_neg (hpk ▸ (parent_lt hk.ne').ne')]
      refine (habove hpos).trans ?_ hb
      rw [← hpk]
      exact ho.off k hk hki

/-- The loop restores the order. -/
theorem ordered_up (ho : UpOrder key h i) : Ordered key (up before h i) := by
  induction h, i using up.induct before with
  | case1 h =>
    rw [up, if_pos rfl]
    exact fun k hk => ho.off k hk hk.ne'
  | case2 h i hi hup ih =>
    rw [up, if_neg hi, if_pos hup]
    exact ih (ho.swap hbefore hi hup)
  | case3 h i hi hup =>
    rw [up, if_neg hi, if_neg hup]
    intro k hk
    by_cases hki : k = i
    · subst hki
      exact le_of_not_beforeAt hbefore hup
    · exact ho.off k hk hki

/-- Appending an element and moving it up. -/
theorem ordered_up_push (ho : Ordered key h) (x : α) :
    Ordered key (up before (h.push x) h.size) := by
  refine ordered_up hbefore ⟨fun k hk hne => ?_, fun k hk hpk _ => ?_⟩
  · intro a b ha hb
    have hlt := lt_size_of_getElem? hb
    rw [Array.size_push] at hlt
    have hpk := parent_lt hk.ne'
    rw [Array.getElem?_push, if_neg (by omega)] at ha hb
    exact ho k hk a b ha hb
  · -- The new element is the last one: it has no children.
    intro a b _ hb
    have hlt := lt_size_of_getElem? hb
    rw [Array.size_push] at hlt
    have := parent_lt hk.ne'
    omega

/-! ### Moving down -/

theorem le_best {a : α} (ha : h[i]? = some a) :
    ∃ b, h[best before h i]? = some b ∧ key b ≤ key a ∧
      ∀ k, 0 < k → parent k = i → Le key (some b) h[k]? := by
  have hpick : ∀ {i j : Nat} {a : α}, h[i]? = some a → ∃ b, h[pick before h i j]? = some b ∧
      key b ≤ key a ∧ Le key (some b) h[j]? := by
    intro i j a ha
    rw [pick]
    split
    · next hj =>
      obtain ⟨b, a', hb, ha', hlt⟩ := beforeAt_eq_true hbefore hj.2
      rw [ha, Option.some.injEq] at ha'
      subst ha'
      refine ⟨b, hb, hlt.le, ?_⟩
      rintro _ c ⟨⟩ hc
      rw [hb, Option.some.injEq] at hc
      exact hc ▸ le_rfl
    · next hj =>
      refine ⟨a, ha, le_rfl, ?_⟩
      rintro _ c ⟨⟩ hc
      exact le_of_not_beforeAt hbefore (fun hbef => hj ⟨lt_size_of_getElem? hc, hbef⟩) a c ha hc
  obtain ⟨b, hb, hba, hbl⟩ := hpick (j := 2 * i + 1) ha
  obtain ⟨c, hc, hcb, hcr⟩ := hpick (j := 2 * i + 2) hb
  refine ⟨c, hc, hcb.trans hba, fun k hk hpk => ?_⟩
  have hchild : k = 2 * i + 1 ∨ k = 2 * i + 2 := by
    rw [parent] at hpk
    omega
  rcases hchild with rfl | rfl
  · rintro _ d ⟨⟩ hd
    exact hcb.trans (hbl b d rfl hd)
  · exact hcr

theorem DownOrder.swap (ho : DownOrder key h i) (hne : best before h i ≠ i) (hi : i < h.size) :
    DownOrder key (h.swapIfInBounds i (best before h i)) (best before h i) := by
  obtain ⟨hchild, hlt⟩ := (best_cases before h i).resolve_left hne
  obtain ⟨a, ha⟩ : ∃ a, h[i]? = some a := ⟨h[i], Array.getElem?_eq_getElem hi⟩
  obtain ⟨b, hb, hba, hbest⟩ := le_best hbefore ha
  generalize best before h i = j at hchild hlt hb hne ⊢
  have hget := getElem?_swapIfInBounds hi hlt
  have hpj : parent j = i := by
    rw [parent]
    omega
  refine ⟨fun k hk hpk => ?_, fun k hk hpk hj => ?_⟩
  · have hpk' := parent_lt hk.ne'
    rw [hget, hget]
    by_cases hpki : parent k = i
    · rw [if_pos hpki]
      have hki : k ≠ i := by omega
      rw [if_neg hki, hb]
      by_cases hkj : k = j
      · rw [if_pos hkj, ha]
        rintro _ _ ⟨⟩ ⟨⟩
        exact hba
      · rw [if_neg hkj]
        exact hbest k hk hpki
    · rw [if_neg hpki, if_neg hpk]
      have hkj : k ≠ j := fun h => hpki (h ▸ hpj)
      by_cases hki : k = i
      · subst hki
        rw [if_pos rfl]
        exact ho.grand j (by omega) hpj hk
      · rw [if_neg hki, if_neg hkj]
        exact ho.off k hk hpki
  · -- The children of `j` stay below the element that came up.
    have hpk' := parent_lt hk.ne'
    rw [hpj, hget, hget, if_pos rfl, if_neg (by omega), if_neg (by omega), ← hpk]
    exact ho.off k hk (by omega)

theorem ordered_down (ho : DownOrder key h i) : Ordered key (down before h i) := by
  induction h, i using down.induct before with
  | case1 h i hbest =>
    rw [down, if_pos hbest]
    intro k hk
    by_cases hpk : parent k = i
    · intro a c ha hc
      rw [hpk] at ha
      obtain ⟨b, hb, -, hle⟩ := le_best hbefore ha
      rw [hbest, ha, Option.some.injEq] at hb
      exact hle k hk hpk a c (hb ▸ rfl) hc
    · exact ho.off k hk hpk
  | case2 h i hbest ih =>
    rw [down, if_neg hbest]
    have hi : i < h.size := by
      have := best_cases before h i
      omega
    exact ih (ho.swap hbefore hbest hi)

theorem ordered_down_zero (ho : ∀ k, 0 < parent k → Le key h[parent k]? h[k]?) :
    Ordered key (down before h 0) :=
  ordered_down hbefore ⟨fun k _ hpk => ho k (Nat.pos_of_ne_zero hpk),
    fun _ _ _ h0 => absurd h0 (lt_irrefl 0)⟩

theorem ordered_replaceRoot (ho : Ordered key h) (x : α) :
    Ordered key (replaceRoot before h x) := by
  refine ordered_down_zero hbefore fun k hk => ?_
  have hpos : 0 < k := by
    rw [parent] at hk
    omega
  rw [Array.getElem?_setIfInBounds_ne hk.ne, Array.getElem?_setIfInBounds_ne hpos.ne]
  exact ho k hpos

theorem ordered_removeRoot (ho : Ordered key h) : Ordered key (removeRoot before h) := by
  have hpop : Ordered key h.pop := by
    intro k hk a b ha hb
    rw [Array.getElem?_pop] at ha hb
    split at ha
    · split at hb
      · exact ho k hk a b ha hb
      · cases hb
    · cases ha
  rw [removeRoot]
  split
  · exact ho
  · dsimp only
    split
    · exact ordered_replaceRoot hbefore hpop _
    · exact hpop

omit hbefore in
/-- The root of a heap comes first. -/
theorem Ordered.root_le (ho : Ordered key h) {a : α} (ha : h[0]? = some a) :
    ∀ b ∈ h, key a ≤ key b := by
  have hroot : ∀ (k : Nat) (b : α), h[k]? = some b → key a ≤ key b := by
    intro k
    induction k using Nat.strongRecOn with
    | ind k ih =>
      intro b hb
      by_cases hk : k = 0
      · subst hk
        rw [ha, Option.some.injEq] at hb
        exact hb ▸ le_rfl
      · have hpk := parent_lt hk
        have hlt := lt_size_of_getElem? hb
        have hparent := Array.getElem?_eq_getElem (hpk.trans hlt)
        exact (ih _ hpk _ hparent).trans
          (ho k (Nat.pos_of_ne_zero hk) _ b hparent hb)
  intro b hb
  obtain ⟨k, hk, rfl⟩ := Array.getElem_of_mem hb
  exact hroot k _ (Array.getElem?_eq_getElem hk)

end BinaryHeap
