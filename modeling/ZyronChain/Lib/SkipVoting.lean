import Mathlib.Order.Basic
import Mathlib.Tactic.Common
import ZyronChain.Lib.Quorum

/-!
# Voting in rounds that are skipped by a quorum

A voter casts one ballot in a round: it attests a value or skips the round.  It votes in a round
after the first only when a quorum has skipped the round before.  Then all values that a quorum
attests are equal, and of one round.

The voters that are not correct do not appear: a quorum is only asked about its correct members.

## Main definitions

* `Skipped`, `Attested` : a quorum has skipped a round, or attested a ballot in it.
* `Step`, `Reachable` : the rule for one ballot, and what it can reach.

## Main results

* `Reachable.skipped_of_lt` : all rounds before one with a ballot are skipped.
* `Reachable.agreement` : all attested ballots are equal.
-/

namespace SkipVoting

variable {α β : Type}

/-- The ballots cast: at most one for a voter and a round. -/
abbrev Ballots (α β : Type) : Type := α → Int → Option β

def Skipped (E : QuorumSystem α) (skip : β → Prop) (S : Ballots α β) (r : Int) : Prop :=
  ∃ Q, E.quorum Q ∧ ∀ w ∈ Q, E.correct w → ∃ b, S w r = some b ∧ skip b

/-- A quorum has cast the ballot in the round. -/
def Attested (E : QuorumSystem α) (S : Ballots α β) (r : Int) (b : β) : Prop :=
  ∃ Q, E.quorum Q ∧ ∀ w ∈ Q, E.correct w → S w r = some b

/-- Ballots may be cast in the round: it is the first, or the one before is skipped. -/
def Justified (E : QuorumSystem α) (skip : β → Prop) (S : Ballots α β) (r : Int) : Prop :=
  r = 0 ∨ 0 < r ∧ Skipped E skip S (r - 1)

def cast [DecidableEq α] (S : Ballots α β) (w : α) (r : Int) (b : β) : Ballots α β :=
  fun w' r' => if w' = w ∧ r' = r then some b else S w' r'

/-- A voter casts its ballot in a round. -/
inductive Step [DecidableEq α] (E : QuorumSystem α) (skip : β → Prop) (S : Ballots α β) :
    Ballots α β → Prop
  | cast {w : α} {r : Int} {b : β} (free : S w r = none) (justified : Justified E skip S r) :
      Step E skip S (cast S w r b)

/-- What the rule can reach. -/
inductive Reachable [DecidableEq α] (E : QuorumSystem α) (skip : β → Prop) : Ballots α β → Prop
  | none : Reachable E skip fun _ _ => none
  | step {S S' : Ballots α β} (prior : Reachable E skip S) (next : Step E skip S S') :
      Reachable E skip S'

section

variable {E : QuorumSystem α} {skip : β → Prop} {S S' : Ballots α β}

theorem Skipped.mono (hgrows : ∀ w r b, S w r = some b → S' w r = some b) {r : Int}
    (h : Skipped E skip S r) : Skipped E skip S' r := by
  obtain ⟨Q, hQ, hall⟩ := h
  refine ⟨Q, hQ, fun w hw hcorrect => ?_⟩
  obtain ⟨b, hb, hskip⟩ := hall w hw hcorrect
  exact ⟨b, hgrows w r b hb, hskip⟩

theorem Justified.mono (hgrows : ∀ w r b, S w r = some b → S' w r = some b) {r : Int}
    (h : Justified E skip S r) : Justified E skip S' r :=
  h.imp_right fun hskipped => ⟨hskipped.1, hskipped.2.mono hgrows⟩

theorem Step.grows [DecidableEq α] (h : Step E skip S S') (w : α) (r : Int) (b : β)
    (hb : S w r = some b) : S' w r = some b := by
  cases h with
  | @cast w' r' b' hfree =>
    refine (if_neg fun heq => ?_).trans hb
    rw [heq.1, heq.2, hfree] at hb
    cases hb

theorem Reachable.justified [DecidableEq α] (h : Reachable E skip S) {w : α} {r : Int} {b : β}
    (hb : S w r = some b) : Justified E skip S r := by
  induction h generalizing w r b with
  | none => cases hb
  | @step S S' _ hstep ih =>
    have hgrows := hstep.grows
    cases hstep with
    | @cast w' r' b' hfree hjustified =>
      simp only [cast] at hb
      split at hb
      · next heq => exact heq.2 ▸ hjustified.mono hgrows
      · exact (ih hb).mono hgrows

/-- Every round before one that is justified is skipped. -/
theorem Reachable.skipped_of_lt [DecidableEq α] (h : Reachable E skip S) {r r' : Int}
    (hr : 0 ≤ r) (hlt : r < r') (hjustified : Justified E skip S r') : Skipped E skip S r := by
  -- induction on the distance: a skipped round has a correct voter, whose ballot is justified
  have hdescend : ∀ (k : Nat) (s : Int), r + k = s → Skipped E skip S s → Skipped E skip S r := by
    intro k
    induction k with
    | zero =>
      intro s hs hskipped
      rw [show s = r by omega] at hskipped
      exact hskipped
    | succ k ih =>
      rintro s hs ⟨Q, hQ, hall⟩
      obtain ⟨w, hw, -, hcorrect⟩ := E.common hQ hQ
      obtain ⟨b, hb, -⟩ := hall w hw hcorrect
      rcases h.justified hb with hzero | ⟨-, hprevious⟩
      · omega
      · exact ih (s - 1) (by omega) hprevious
  rcases hjustified with hzero | ⟨-, hskipped⟩
  · omega
  · exact hdescend (r' - 1 - r).toNat (r' - 1) (by omega) hskipped

private theorem Reachable.attested_le [DecidableEq α] (h : Reachable E skip S) {r r' : Int} {b b' : β}
    (hb : Attested E S r b) (hb' : Attested E S r' b') (hattest : ¬ skip b) : r' ≤ r := by
  by_contra hnot
  have hlt : r < r' := not_le.mp hnot
  obtain ⟨Q, hQ, hall⟩ := hb
  obtain ⟨Q', hQ', hall'⟩ := hb'
  obtain ⟨w, hw, -, hcorrect⟩ := E.common hQ hQ
  obtain ⟨w', hw', -, hcorrect'⟩ := E.common hQ' hQ'
  have hr : 0 ≤ r := by
    rcases h.justified (hall w hw hcorrect) with rfl | ⟨hpos, -⟩
    · exact le_rfl
    · exact hpos.le
  obtain ⟨P, hP, hskips⟩ := h.skipped_of_lt hr hlt (h.justified (hall' w' hw' hcorrect'))
  obtain ⟨x, hx, hxP, hxcorrect⟩ := E.common hQ hP
  obtain ⟨c, hc, hskip⟩ := hskips x hxP hxcorrect
  rw [hall x hx hxcorrect, Option.some.injEq] at hc
  exact hattest (hc ▸ hskip)

/-- All ballots that quorums have attested are equal. -/
theorem Reachable.agreement [DecidableEq α] (h : Reachable E skip S) {r r' : Int} {b b' : β}
    (hb : Attested E S r b) (hb' : Attested E S r' b') (hattest : ¬ skip b)
    (hattest' : ¬ skip b') : b = b' := by
  have hround : r = r' := le_antisymm (h.attested_le hb' hb hattest') (h.attested_le hb hb' hattest)
  subst hround
  obtain ⟨Q, hQ, hall⟩ := hb
  obtain ⟨Q', hQ', hall'⟩ := hb'
  obtain ⟨w, hw, hw', hcorrect⟩ := E.common hQ hQ'
  exact Option.some.inj ((hall w hw hcorrect).symm.trans (hall' w hw' hcorrect))

end

end SkipVoting
