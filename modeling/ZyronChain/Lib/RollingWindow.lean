import Mathlib.Algebra.Ring.Int.Defs
import Mathlib.Algebra.BigOperators.Group.List.Basic
import Mathlib.Algebra.Order.Group.Int
import Mathlib.Algebra.Order.BigOperators.Group.List

/-!
# A cap over every window of one length

Events lie in consecutive buckets as long as the window, at most one in each, in order.  A window then
meets at most two of them, so a cap on every two events closer than the window caps every window.
-/

namespace RollingWindow

open List

variable {α : Type} {time bucket amount : α → Int} {length origin cap : Int}

def InBucket (time bucket : α → Int) (length origin : Int) (e : α) : Prop :=
  origin + length * bucket e ≤ time e ∧ time e < origin + length * (bucket e + 1)

/-- Two buckets on, an event is further away than the window. -/
theorem lt_time_of_bucket_lt {a b : α} (hlength : 0 < length)
    (ha : InBucket time bucket length origin a) (hb : InBucket time bucket length origin b)
    (h : bucket a + 1 < bucket b) : time a + length < time b := by
  have hmul : length * (bucket a + 2) ≤ length * bucket b :=
    Int.mul_le_mul_of_nonneg_left (by omega) (le_of_lt hlength)
  have hsplit : length * (bucket a + 2) = length * (bucket a + 1) + length := by
    rw [show bucket a + 2 = bucket a + 1 + 1 by omega, Int.mul_add, Int.mul_one]
  have hupper := ha.2
  have hlower := hb.1
  omega

/-- Events in increasing buckets are in increasing order. -/
theorem time_lt_of_bucket_lt {a b : α} (hlength : 0 < length)
    (ha : InBucket time bucket length origin a) (hb : InBucket time bucket length origin b)
    (h : bucket a < bucket b) : time a < time b := by
  have hmul : length * (bucket a + 1) ≤ length * bucket b :=
    Int.mul_le_mul_of_nonneg_left (by omega) (le_of_lt hlength)
  have hupper := ha.2
  have hlower := hb.1
  omega

theorem bucket_le_of_time_le {a b : α} (hlength : 0 < length)
    (ha : InBucket time bucket length origin a) (hb : InBucket time bucket length origin b)
    (h : time a ≤ time b) : bucket a ≤ bucket b := by
  by_contra hlt
  have hback := time_lt_of_bucket_lt hlength hb ha (not_le.mp hlt)
  omega

/-- The events of a window add up to at most the cap. -/
theorem sum_filter_le (hlength : 0 < length) {es : List α}
    (hbucket : ∀ e ∈ es, InBucket time bucket length origin e)
    (hincreasing : es.Pairwise fun a b => bucket a < bucket b)
    (hamount : ∀ e ∈ es, amount e ≤ cap) (hcap : 0 ≤ cap)
    (hpairs : es.Pairwise fun a b => time b - time a < length → amount a + amount b ≤ cap) (t : Int) :
    ((es.filter fun e => t < time e ∧ time e < t + length).map amount).sum ≤ cap := by
  induction es with
  | nil => simpa using hcap
  | cons e es ih =>
    rw [forall_mem_cons] at hbucket hamount
    rw [pairwise_cons] at hincreasing hpairs
    by_cases he : t < time e ∧ time e < t + length
    swap
    · rw [filter_cons_of_neg (by simpa using he)]
      exact ih hbucket.2 hincreasing.2 hamount.2 hpairs.2
    rw [filter_cons_of_pos (by simpa using he), map_cons, sum_cons]
    -- the event after this one may be in the window, and no later one
    cases es with
    | nil => simpa using hamount.1
    | cons e' es =>
      rw [forall_mem_cons] at hbucket hamount
      rw [pairwise_cons] at hincreasing hpairs
      have hnext := hincreasing.1 e' mem_cons_self
      have hrest : es.filter (fun x => t < time x ∧ time x < t + length) = [] := by
        refine filter_eq_nil_iff.mpr fun x hx hin => ?_
        have hlater := hincreasing.2.1 x hx
        have hfar := lt_time_of_bucket_lt hlength hbucket.1 (hbucket.2.2 x hx) (by omega)
        rw [decide_eq_true_eq] at hin
        omega
      by_cases he' : t < time e' ∧ time e' < t + length
      · rw [filter_cons_of_pos (by simpa using he'), hrest]
        have hpair := hpairs.1 e' mem_cons_self (by omega)
        simpa using hpair
      · rw [filter_cons_of_neg (by simpa using he'), hrest]
        simpa using hamount.1

end RollingWindow
