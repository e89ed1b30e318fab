import Mathlib.Data.List.Induction
import ZyronChain.Block
import ZyronChain.StateV2.Ledger

/-!
# The schedules of the chain

Which validator set, protocol version and oracle control is in force at a height.

Source: `l1/src/chain.ts` (`validatorsAt`, `protocolVersionAt`, `activityOracleControlAt`,
`oracleSetAt` and the accessors of the latest entry of each schedule).
-/

namespace ZyronChain

open Checks List

/-! ### Protocol versions -/

def protocolUsesStateV2 (protocolVersion : Int) : Bool :=
  protocolVersion == 2 || protocolVersion == 3 || protocolVersion == 5 || protocolVersion == 6

/-- A supported version keeps a ledger or an authenticated state. -/
theorem protocolUsesStateV2_iff {version : Int} (h : assertSupportedProtocolVersion version = .ok ()) :
    protocolUsesStateV2 version = true ↔ version ≠ 1 := by
  rw [assertSupportedProtocolVersion, throwIf_eq_ok, not_not] at h
  simp only [supportedProtocolVersions, mem_cons, not_mem_nil, or_false] at h
  rcases h with rfl | rfl | rfl | rfl | rfl <;> decide

/-! ### Active entries -/

/-- The value of the latest active entry of a schedule: the loop of `validatorsAt` and
`protocolVersionAt`. -/
def activeAt {V : Type} (height : Int) (schedule : List (Int × V)) (start : V) : V :=
  (schedule.foldl (fun selected entry =>
    if entry.1 ≤ height ∧ selected.1 ≤ entry.1 then entry else selected) (0, start)).2

theorem activeAt_append {V : Type} {height : Int} {new : List (Int × V)}
    (h : ∀ entry ∈ new, height < entry.1) (old : List (Int × V)) (start : V) :
    activeAt height (old ++ new) start = activeAt height old start := by
  rw [activeAt, foldl_append, activeAt]
  generalize old.foldl _ (0, start) = selected
  induction new with
  | nil => rfl
  | cons entry new ih =>
    rw [forall_mem_cons] at h
    rw [foldl_cons, if_neg fun hle => absurd hle.1 (not_le.mpr h.1)]
    exact ih h.2

theorem activeAt_mem {V : Type} (height : Int) (schedule : List (Int × V)) (start : V) :
    activeAt height schedule start = start ∨
      ∃ entry ∈ schedule, activeAt height schedule start = entry.2 := by
  rw [activeAt]
  induction schedule using List.reverseRecOn with
  | nil => exact .inl rfl
  | append_singleton schedule entry ih =>
    rw [foldl_append, foldl_cons, foldl_nil]
    split
    · exact .inr ⟨entry, mem_append_right _ (mem_singleton_self entry), rfl⟩
    · rcases ih with ih | ⟨e, he, ih⟩
      · exact .inl ih
      · exact .inr ⟨e, mem_append_left _ he, ih⟩

namespace Governance

def validatorsAt (G : Governance) (genesisValidators : List Validator) (height : Int) :
    Except String (List Validator) := do
  throwIf (¬ IsSafeInteger height ∨ height < 0) "Invalid validator height"
  .ok (activeAt height G.validatorSchedule.entries genesisValidators)

def protocolVersionAt (G : Governance) (height : Int) : Except String Int := do
  throwIf (¬ IsSafeInteger height ∨ height < 0) "Invalid protocol height"
  .ok (activeAt height G.protocolSchedule.entries 1)

/-! ### The latest entries -/

def lastValidatorActivationHeight (G : Governance) : Int :=
  (G.validatorSchedule.last?.map Prod.fst).getD 0

def lastScheduledValidators (G : Governance) : List Validator :=
  (G.validatorSchedule.last?.map Prod.snd).getD []

def lastProtocolActivationHeight (G : Governance) : Int :=
  (G.protocolSchedule.last?.map Prod.fst).getD 0

def lastScheduledProtocolVersion (G : Governance) : Int :=
  (G.protocolSchedule.last?.map Prod.snd).getD 1

def lastActivityOracleGovernanceHeight (G : Governance) : Int :=
  (G.activityOracleGovernance.last?.map Prod.fst).getD 0

end Governance

/-! ### The activity oracles -/

/-- Whether settlements are paused, and the revoked keys. -/
structure ActivityOracleControl where
  paused : Bool
  revoked : List String
deriving DecidableEq, Repr

def ActivityOracleControl.initial : ActivityOracleControl := ⟨false, []⟩

def ActivityOracleControl.advance (control : ActivityOracleControl) (entry : OracleControl) :
    ActivityOracleControl :=
  match entry.action with
  | .pause => { control with paused := true }
  | .resume => { control with paused := false }
  | .revoke =>
    ⟨control.paused, entry.publicKeys.foldl (fun revoked key => revoked.insert key) control.revoked⟩

/-- The effect of the entries of a schedule, one after the other. -/
def ActivityOracleControl.after (entries : List (Int × OracleControl)) : ActivityOracleControl :=
  entries.foldl (fun control entry => control.advance entry.2) .initial

namespace Governance

def activityOracleControlAt (G : Governance) (height : Int) : ActivityOracleControl :=
  .after (G.activityOracleGovernance.entries.takeWhile fun entry => entry.1 ≤ height)

/-- The control after every scheduled entry, active or not. -/
def scheduledOracleControl (G : Governance) : ActivityOracleControl :=
  .after G.activityOracleGovernance.entries

def scheduledOracleRevocations (G : Governance) : List String := G.scheduledOracleControl.revoked

def oraclePauseScheduled (G : Governance) : Bool := G.scheduledOracleControl.paused

def oracleSetAt (G : Governance) (g : GenesisConfig) (height : Int) : ActivityOracleSet where
  activityOracles := g.activityOracles
  activityOracleThreshold := g.activityOracleThreshold
  activityOraclePolicy := g.activityOraclePolicy
  settlementCapAtoms := g.activitySettlementCapAtoms
  launchProfile := g.launchProfile
  timestampMs := some g.timestampMs
  paused := (G.activityOracleControlAt height).paused
  revokedPublicKeys := (G.activityOracleControlAt height).revoked

end Governance

theorem takeWhile_append {V : Type} {height : Int} {new : List (Int × V)}
    (h : ∀ entry ∈ new, height < entry.1) (old : List (Int × V)) :
    (old ++ new).takeWhile (fun entry => entry.1 ≤ height) =
      old.takeWhile fun entry => entry.1 ≤ height := by
  induction old with
  | nil =>
    cases new with
    | nil => rfl
    | cons entry new =>
      have hlt := h entry mem_cons_self
      rw [nil_append, takeWhile_cons_of_neg (by simpa using hlt), takeWhile_nil]
  | cons entry old ih =>
    rw [cons_append, takeWhile_cons, ih, takeWhile_cons]

end ZyronChain
