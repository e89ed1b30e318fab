import Mathlib.Order.Basic
import Mathlib.Tactic.Common
import ZyronChain.Lib.Quorum

/-!
# Voting in rounds with locks

Voters vote in rounds, in two phases.  A voter prepares a value that is safe for it: one that it
committed last, or one with a certificate of a later round.  It commits a value that a quorum has
prepared in the same round.  A voter that has voted in a round votes in no earlier one.  Then a
quorum never commits two values, in one round or in different ones.

The voters that are not correct do not appear: a quorum is only asked about its correct members.

## Main definitions

* `Votes` : the votes cast.
* `Votes.Certified`, `Votes.Committed` : a quorum has prepared, or committed, a value in a round.
* `Step`, `Reachable` : the rules for one vote, and what they can reach.

## Main results

* `Reachable.agreement` : all committed values are equal.
-/

namespace LockedVoting

variable {α ρ β : Type} [LinearOrder ρ]

/-- The votes cast: at most one value for a voter, a round and a phase. -/
@[ext]
structure Votes (α ρ β : Type) where
  prepare : α → ρ → Option β
  commit : α → ρ → Option β

namespace Votes

def none : Votes α ρ β := ⟨fun _ _ => .none, fun _ _ => .none⟩

/-- The voter has not voted after the round. -/
def Open (S : Votes α ρ β) (w : α) (r : ρ) : Prop :=
  ∀ r', r < r' → S.prepare w r' = .none ∧ S.commit w r' = .none

/-- A quorum has prepared the value in the round. -/
def Certified (E : QuorumSystem α) (S : Votes α ρ β) (r : ρ) (b : β) : Prop :=
  ∃ Q, E.quorum Q ∧ ∀ w ∈ Q, E.correct w → S.prepare w r = some b

/-- A quorum has committed the value in the round. -/
def Committed (E : QuorumSystem α) (S : Votes α ρ β) (r : ρ) (b : β) : Prop :=
  ∃ Q, E.quorum Q ∧ ∀ w ∈ Q, E.correct w → S.commit w r = some b

/-- A quorum has committed the value in the round, or still could. -/
def Committable (E : QuorumSystem α) (S : Votes α ρ β) (r : ρ) (b : β) : Prop :=
  ∃ Q, E.quorum Q ∧ ∀ w ∈ Q, E.correct w → S.commit w r = some b ∨ S.Open w r

/-- The value is safe for the voter: for whatever it committed, the value is that of a commit at
least as late, or it has a certificate of a round after that commit. -/
def Safe (E : QuorumSystem α) (S : Votes α ρ β) (w : α) (b : β) : Prop :=
  ∀ r c, S.commit w r = some c → ∃ r' c', r ≤ r' ∧ S.commit w r' = some c' ∧
    (b = c' ∨ ∃ j, r' < j ∧ S.Certified E j b)

section

variable [DecidableEq α]

def withPrepare (S : Votes α ρ β) (w : α) (r : ρ) (b : β) : Votes α ρ β :=
  { S with prepare := fun w' r' => if w' = w ∧ r' = r then some b else S.prepare w' r' }

def withCommit (S : Votes α ρ β) (w : α) (r : ρ) (b : β) : Votes α ρ β :=
  { S with commit := fun w' r' => if w' = w ∧ r' = r then some b else S.commit w' r' }

end

/-- Every vote is kept. -/
structure Grows (S S' : Votes α ρ β) : Prop where
  prepare : ∀ {w r b}, S.prepare w r = some b → S'.prepare w r = some b
  commit : ∀ {w r b}, S.commit w r = some b → S'.commit w r = some b

omit [LinearOrder ρ] in
theorem Grows.certified {E : QuorumSystem α} {S S' : Votes α ρ β} (h : S.Grows S') {r : ρ} {b : β}
    (hc : S.Certified E r b) : S'.Certified E r b := by
  obtain ⟨Q, hQ, hall⟩ := hc
  exact ⟨Q, hQ, fun w hw hcorrect => h.prepare (hall w hw hcorrect)⟩

theorem Grows.open {S S' : Votes α ρ β} (h : S.Grows S') {w : α} {r : ρ} (ho : S'.Open w r) :
    S.Open w r := by
  have hnone : ∀ {o o' : Option β}, (∀ {b}, o = some b → o' = some b) → o' = .none → o = .none := by
    intro o o' hle ho'
    cases o with
    | none => rfl
    | some b =>
      rw [hle rfl] at ho'
      cases ho'
  intro r' hr'
  obtain ⟨hp, hc⟩ := ho r' hr'
  exact ⟨hnone h.prepare hp, hnone h.commit hc⟩

theorem Committed.committable {E : QuorumSystem α} {S : Votes α ρ β} {r : ρ} {b : β}
    (h : S.Committed E r b) : S.Committable E r b := by
  obtain ⟨Q, hQ, hall⟩ := h
  exact ⟨Q, hQ, fun w hw hcorrect => .inl (hall w hw hcorrect)⟩

end Votes

variable {E : QuorumSystem α} {S S' : Votes α ρ β}

/-- What every reachable state satisfies: commits are certified, and a voter that committed a value
that a quorum may commit prepares no other value later. -/
structure Invariant (E : QuorumSystem α) (S : Votes α ρ β) : Prop where
  certified : ∀ {w r b}, S.commit w r = some b → S.Certified E r b
  locked : ∀ {w r b r' b'}, S.commit w r = some b → S.Committable E r b → r < r' →
    S.prepare w r' = some b' → b' = b

/-- A value with a certificate of a later round is the one that a quorum may commit. -/
theorem Invariant.eq_of_certified (hI : Invariant E S) {r r' : ρ} {b b' : β}
    (hc : S.Committable E r b) (hlt : r < r') (hcert : S.Certified E r' b') : b' = b := by
  obtain ⟨Q, hQ, hall⟩ := hc
  obtain ⟨Q', hQ', hall'⟩ := hcert
  obtain ⟨x, hx, hx', hcorrect⟩ := E.common hQ hQ'
  have hprepare := hall' x hx' hcorrect
  rcases hall x hx hcorrect with hcommit | hopen
  · exact hI.locked hcommit ⟨Q, hQ, hall⟩ hlt hprepare
  · rw [(hopen r' hlt).1] at hprepare
    cases hprepare

/-- A safe value for a voter that committed a value that a quorum may commit. -/
theorem Invariant.eq_of_safe (hI : Invariant E S) {w : α} {r : ρ} {b b' : β}
    (hcommit : S.commit w r = some b) (hc : S.Committable E r b) (hsafe : S.Safe E w b') :
    b' = b := by
  obtain ⟨r₁, c, hle, hcommit₁, hcase⟩ := hsafe r b hcommit
  rcases hcase with rfl | ⟨j, hj, hcert⟩
  · rcases hle.eq_or_lt with rfl | hlt
    · rw [hcommit₁, Option.some.injEq] at hcommit
      exact hcommit
    · exact hI.eq_of_certified hc hlt (hI.certified hcommit₁)
  · exact hI.eq_of_certified hc (hle.trans_lt hj) hcert

section

variable [DecidableEq α]

/-! ### The rules -/

/-- The rules for one vote of a correct voter. -/
inductive Step (E : QuorumSystem α) (S : Votes α ρ β) : Votes α ρ β → Prop
  | prepare {w : α} {r : ρ} {b : β} (free : S.prepare w r = none) (roundOpen : S.Open w r)
      (safe : S.Safe E w b) : Step E S (S.withPrepare w r b)
  | commit {w : α} {r : ρ} {b : β} (free : S.commit w r = none) (roundOpen : S.Open w r)
      (certified : S.Certified E r b) : Step E S (S.withCommit w r b)

/-- The votes that the rules lead to. -/
inductive Reachable (E : QuorumSystem α) : Votes α ρ β → Prop
  | none : Reachable E .none
  | step {S S' : Votes α ρ β} (prior : Reachable E S) (next : Step E S S') : Reachable E S'

private theorem some_of_ite {p : Prop} [Decidable p] {o : Option β} {b c : β}
    (hfree : p → o = none) (h : o = some c) : (if p then some b else o) = some c := by
  split
  · next hp => rw [hfree hp] at h; cases h
  · exact h

theorem Step.grows (h : Step E S S') : S.Grows S' := by
  cases h with
  | @prepare w r b hfree _ _ =>
    refine ⟨fun {w' r' c} hc => ?_, fun hc => hc⟩
    exact some_of_ite (fun heq => by rw [heq.1, heq.2, hfree]) hc
  | @commit w r b hfree _ _ =>
    refine ⟨fun hc => hc, fun {w' r' c} hc => ?_⟩
    exact some_of_ite (fun heq => by rw [heq.1, heq.2, hfree]) hc

/-- What could be committed after a vote could be committed before it. -/
theorem Step.committable (h : Step E S S') {r : ρ} {b : β} (hc : S'.Committable E r b) :
    S.Committable E r b := by
  obtain ⟨Q, hQ, hall⟩ := hc
  refine ⟨Q, hQ, fun w hw hcorrect => ?_⟩
  rcases hall w hw hcorrect with hcommit | hopen
  · cases h with
    | prepare => exact .inl hcommit
    | @commit w' r' b' _ hopen _ =>
      change (if w = w' ∧ r = r' then some b' else S.commit w r) = some b at hcommit
      split at hcommit
      · next heq => exact .inr (heq.1 ▸ heq.2 ▸ hopen)
      · exact .inl hcommit
  · exact .inr (h.grows.open hopen)

theorem Invariant.step (hI : Invariant E S) (h : Step E S S') : Invariant E S' := by
  have hgrows := h.grows
  refine ⟨?_, ?_⟩
  · intro w r b hcommit
    cases h with
    | prepare => exact hgrows.certified (hI.certified hcommit)
    | @commit w' r' b' _ _ hcert =>
      change (if w = w' ∧ r = r' then some b' else S.commit w r) = some b at hcommit
      split at hcommit
      · next heq =>
        rw [Option.some.injEq] at hcommit
        rw [heq.2, ← hcommit]
        exact hgrows.certified hcert
      · exact hgrows.certified (hI.certified hcommit)
  · intro w r b r' b' hcommit hc hlt hprepare
    replace hc := h.committable hc
    cases h with
    | @prepare w₁ r₁ b₁ _ _ hsafe =>
      change (if w = w₁ ∧ r' = r₁ then some b₁ else S.prepare w r') = some b' at hprepare
      split at hprepare
      · next heq =>
        rw [Option.some.injEq] at hprepare
        exact hI.eq_of_safe hcommit hc (heq.1 ▸ hprepare ▸ hsafe)
      · exact hI.locked hcommit hc hlt hprepare
    | @commit w₁ r₁ b₁ _ hopen _ =>
      change (if w = w₁ ∧ r = r₁ then some b₁ else S.commit w r) = some b at hcommit
      split at hcommit
      · -- a voter that has prepared in a later round does not commit any more
        next heq =>
          have hnone := (hopen r' (heq.2 ▸ hlt)).1
          rw [← heq.1] at hnone
          rw [show S.prepare w r' = some b' from hprepare] at hnone
          cases hnone
      · exact hI.locked hcommit hc hlt hprepare

theorem Reachable.invariant (h : Reachable E S) : Invariant E S := by
  induction h with
  | none => exact ⟨nofun, nofun⟩
  | step _ hstep ih => exact ih.step hstep

/-- All values that quorums have committed are equal. -/
theorem Reachable.agreement (h : Reachable E S) {r r' : ρ} {b b' : β} (hc : S.Committed E r b)
    (hc' : S.Committed E r' b') : b = b' := by
  -- the later of two commits is certified, and a certificate is for what may be committed before
  have hlt : ∀ {r r' : ρ} {b b' : β}, S.Committed E r b → S.Committed E r' b' → r < r' →
      b = b' := by
    intro r r' b b' hc hc' hlt
    obtain ⟨Q', hQ', hall'⟩ := hc'
    obtain ⟨x, hx, -, hcorrect⟩ := E.common hQ' hQ'
    have hcert := h.invariant.certified (hall' x hx hcorrect)
    exact (h.invariant.eq_of_certified hc.committable hlt hcert).symm
  rcases lt_trichotomy r r' with hr | rfl | hr
  · exact hlt hc hc' hr
  · obtain ⟨Q, hQ, hall⟩ := hc
    obtain ⟨Q', hQ', hall'⟩ := hc'
    obtain ⟨x, hx, hx', hcorrect⟩ := E.common hQ hQ'
    have heq := hall x hx hcorrect
    rw [hall' x hx' hcorrect, Option.some.injEq] at heq
    exact heq.symm
  · exact (hlt hc' hc hr).symm

end

end LockedVoting
