import Mathlib

/-!
# Replay guards

A replay guard remembers what it accepted and forgets an item only once the item has expired.  It
refuses an item that conflicts with one it remembers.  On a clock that does not go back, two accepted
items that conflict are then accepted only if the first has expired when the second is accepted.

## Main definitions

* `ReplayGuard` : a step relation with the three rules of a guard.
* `ReplayGuard.Run` : the runs on a non-decreasing clock, with what was accepted and when.

## Main results

* `ReplayGuard.Run.pairwise` : what was accepted before conflicts only if it has expired.
* `ReplayGuard.Run.nodup` : nothing is accepted twice.
-/

/-- A deadline that may be infinite has passed. -/
instance decidableDeadlinePassed : ∀ (deadline : WithTop Int) (t : Int), Decidable (deadline ≤ t)
  | none, t => isFalse (WithTop.not_top_le_coe t)
  | some d, t => decidable_of_iff (d ≤ t) WithTop.coe_le_coe.symm

instance decidableBeforeDeadline (deadline : WithTop Int) (t : Int) :
    Decidable ((t : WithTop Int) < deadline) := decidable_of_iff (¬ deadline ≤ t) not_le

/-- A system that accepts items at points of time and remembers them. -/
structure ReplayGuard (σ Item : Type) where
  /-- What holds of every state of a run. -/
  inv : σ → Prop
  /-- A step at a time, with the item it accepts, if any. -/
  step : σ → Int → Option Item → σ → Prop
  remembers : σ → Item → Prop
  expired : Item → Int → Prop
  conflict : Item → Item → Prop
  expired_mono : ∀ {i : Item} {t t' : Int}, t ≤ t' → expired i t → expired i t'
  inv_step : ∀ {s s' : σ} {t : Int} {r : Option Item}, inv s → step s t r s' → inv s'
  /-- Only an expired item is forgotten. -/
  keeps : ∀ {s s' : σ} {t : Int} {r : Option Item} {i : Item}, inv s → step s t r s' →
    remembers s i → remembers s' i ∨ expired i t
  /-- An accepted item is remembered. -/
  stores : ∀ {s s' : σ} {t : Int} {i : Item}, inv s → step s t (some i) s' → remembers s' i
  /-- An expired item is not accepted. -/
  fresh : ∀ {s s' : σ} {t : Int} {i : Item}, inv s → step s t (some i) s' → ¬ expired i t
  /-- An item is not accepted against one that is remembered and has not expired. -/
  refuses : ∀ {s s' : σ} {t : Int} {i j : Item}, inv s → step s t (some j) s' → conflict i j →
    remembers s i → expired i t

namespace ReplayGuard

open Option List

variable {σ Item : Type} (g : ReplayGuard σ Item)

/-- The runs from a state: the state reached, the time of the last step, and the accepted items with
the times of their acceptance. -/
inductive Run (start : σ) : σ → Int → List (Item × Int) → Prop
  | start (t : Int) : Run start start t []
  | step {s s' : σ} {t t' : Int} {r : Option Item} {accepted : List (Item × Int)}
      (h : Run start s t accepted) (hclock : t ≤ t') (hstep : g.step s t' r s') :
      Run start s' t' (accepted ++ (r.map fun i => (i, t')).toList)

variable {g} {start s : σ} {t : Int} {accepted : List (Item × Int)}

theorem Run.inv (h : g.Run start s t accepted) (hstart : g.inv start) : g.inv s := by
  induction h with
  | start t => exact hstart
  | step h hclock hstep ih => exact g.inv_step ih hstep

/-- Whatever was accepted is remembered or has expired. -/
theorem Run.remembers (h : g.Run start s t accepted) (hstart : g.inv start) :
    ∀ a ∈ accepted, g.remembers s a.1 ∨ g.expired a.1 t := by
  induction h with
  | start t => simp
  | @step s s' t t' r accepted h hclock hstep ih =>
    have hinv := h.inv hstart
    intro a ha
    rcases mem_append.mp ha with ha | ha
    · rcases ih a ha with hremembered | hexpired
      · exact g.keeps hinv hstep hremembered
      · exact .inr (g.expired_mono hclock hexpired)
    · cases r with
      | none => simp at ha
      | some i =>
        rw [map_some, toList_some, mem_singleton] at ha
        subst ha
        exact .inl (g.stores hinv hstep)

/-- An accepted item conflicts with an earlier one only if that one had expired. -/
theorem Run.pairwise (h : g.Run start s t accepted) (hstart : g.inv start) :
    accepted.Pairwise fun a b => g.conflict a.1 b.1 → g.expired a.1 b.2 := by
  induction h with
  | start t => exact .nil
  | @step s s' t t' r accepted h hclock hstep ih =>
    cases r with
    | none => simpa using ih
    | some j =>
      rw [map_some, toList_some, pairwise_append]
      refine ⟨ih, pairwise_singleton _ _, ?_⟩
      intro a ha b hb hconflict
      rw [mem_singleton] at hb
      subst hb
      rcases h.remembers hstart a ha with hremembered | hexpired
      · exact g.refuses (h.inv hstart) hstep hconflict hremembered
      · exact g.expired_mono hclock hexpired

theorem Run.fresh (h : g.Run start s t accepted) (hstart : g.inv start) :
    ∀ a ∈ accepted, ¬ g.expired a.1 a.2 := by
  induction h with
  | start t => simp
  | @step s s' t t' r accepted h hclock hstep ih =>
    intro a ha
    rcases mem_append.mp ha with ha | ha
    · exact ih a ha
    · cases r with
      | none => simp at ha
      | some i =>
        rw [map_some, toList_some, mem_singleton] at ha
        subst ha
        exact g.fresh (h.inv hstart) hstep

/-- Where an item conflicts with itself, none is accepted twice. -/
theorem Run.nodup (h : g.Run start s t accepted) (hstart : g.inv start)
    (hself : ∀ i, g.conflict i i) : (accepted.map Prod.fst).Nodup := by
  rw [List.Nodup, pairwise_map]
  refine (h.pairwise hstart).imp_of_mem fun {a b} _ hb hpair heq => ?_
  rw [heq] at hpair
  exact h.fresh hstart b hb (hpair (hself _))

end ReplayGuard
