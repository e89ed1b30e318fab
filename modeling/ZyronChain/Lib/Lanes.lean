import Mathlib.Order.Lattice
import Mathlib.Data.List.Count
import Mathlib.Order.Defs.LinearOrder
import Mathlib.Tactic.Common

/-!
# Merging lanes by priority

Every element of a list belongs to an owner; the elements of one owner, in their order, are its
lane.  A merge of lanes is best first when each element that it takes has, with what is left of its
lane, the least priority value among the heads of all lanes.  Such a merge is determined by the
lanes if two heads of one priority have one owner.
-/

namespace Lanes

open List

variable {τ κ : Type} [DecidableEq κ] (owner : τ → κ)

/-- The elements of one owner, in order. -/
def lane (k : κ) (xs : List τ) : List τ := xs.filter fun x => owner x = k

variable {owner}

theorem lane_cons_self (x : τ) (xs : List τ) :
    lane owner (owner x) (x :: xs) = x :: lane owner (owner x) xs := by
  simp [lane]

theorem lane_cons_of_ne {x : τ} {k : κ} (h : owner x ≠ k) (xs : List τ) :
    lane owner k (x :: xs) = lane owner k xs := by
  simp [lane, h]

theorem mem_lane {k : κ} {x : τ} {xs : List τ} : x ∈ lane owner k xs ↔ x ∈ xs ∧ owner x = k := by
  simp [lane]

/-- Lists whose lanes are rearrangements of each other are rearrangements of each other. -/
theorem perm_of_lane_perm {xs ys : List τ} (h : ∀ k, (lane owner k xs).Perm (lane owner k ys)) :
    xs.Perm ys := by
  classical
  refine perm_iff_count.mpr fun x => ?_
  have hcount : ∀ zs : List τ, zs.count x = (lane owner (owner x) zs).count x := by
    intro zs
    rw [lane, count_filter (by simp)]
  rw [hcount xs, hcount ys, (h (owner x)).count_eq]

theorem lane_perm {xs ys : List τ} (h : xs.Perm ys) (k : κ) :
    (lane owner k xs).Perm (lane owner k ys) := h.filter _

/-! ### Merges -/

section

variable {L : Type} [LinearOrder L] (owner) (prio : τ → List τ → L)

/-- At every position, the element with what is left of its lane comes no later than the head of
any lane with what is left of that. -/
def BestFirst (xs : List τ) : Prop :=
  ∀ done x rest, xs = done ++ x :: rest → ∀ k y ys, lane owner k (x :: rest) = y :: ys →
    prio x (lane owner (owner x) rest) ≤ prio y ys

variable {owner prio}

theorem bestFirst_nil : BestFirst owner prio [] := fun done x rest h => absurd h (by simp)

theorem bestFirst_cons {x : τ} {xs : List τ} (hxs : BestFirst owner prio xs)
    (hbest : ∀ k y ys, lane owner k (x :: xs) = y :: ys →
      prio x (lane owner (owner x) xs) ≤ prio y ys) : BestFirst owner prio (x :: xs) := by
  intro done y rest h k z zs hlane
  cases done with
  | nil =>
    rw [nil_append, List.cons.injEq] at h
    obtain ⟨rfl, rfl⟩ := h
    exact hbest k z zs hlane
  | cons d done =>
    rw [cons_append, List.cons.injEq] at h
    exact hxs done y rest h.2 k z zs hlane

theorem BestFirst.tail {x : τ} {xs : List τ} (h : BestFirst owner prio (x :: xs)) :
    BestFirst owner prio xs :=
  fun done y rest heq => h (x :: done) y rest (by rw [heq, cons_append])

/-- The lanes determine a best-first merge. -/
theorem eq_of_bestFirst (howner : ∀ x q y q', prio x q = prio y q' → owner x = owner y)
    {xs ys : List τ} (hxs : BestFirst owner prio xs) (hys : BestFirst owner prio ys)
    (h : ∀ k, lane owner k xs = lane owner k ys) : xs = ys := by
  induction xs generalizing ys with
  | nil =>
    cases ys with
    | nil => rfl
    | cons y ys => exact nomatch (h (owner y)).trans (lane_cons_self y ys)
  | cons x xs ih =>
    cases ys with
    | nil => exact nomatch (h (owner x)).symm.trans (lane_cons_self x xs)
    | cons y ys =>
      -- Each head is one of the heads that the other was chosen among.
      have hxy := hxs [] x xs rfl (owner y) y _ ((h (owner y)).trans (lane_cons_self y ys))
      have hyx := hys [] y ys rfl (owner x) x _
        ((h (owner x)).symm.trans (lane_cons_self x xs))
      have hown := howner _ _ _ _ (le_antisymm hxy hyx)
      have hhead : x = y := by
        have hlane := h (owner x)
        rw [lane_cons_self, hown, lane_cons_self, List.cons.injEq] at hlane
        exact hlane.1
      subst hhead
      refine congrArg (x :: ·) (ih hxs.tail hys.tail fun k => ?_)
      have hlane := h k
      by_cases hk : owner x = k
      · subst hk
        rw [lane_cons_self, lane_cons_self, List.cons.injEq] at hlane
        exact hlane.2
      · rwa [lane_cons_of_ne hk, lane_cons_of_ne hk] at hlane

end

end Lanes
