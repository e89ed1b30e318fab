import ZyronChain.Block
import ZyronChain.ConsensusV6.Pacemaker

/-!
# Protocol v6: the wake-up plan of a leader

A validator acts in the rounds that it leads, from two seconds before their start on, and sleeps
until the next of them otherwise, at most for the fallback poll.

Source: `l1/src/v6-scheduler.ts` (`planV6Wake`), `l1/src/node.ts` (`produceFinalizedBlockV6`).
`estimate` is that of `clockRound`.

## Main definitions

* `planV6Wake` : the round to act in, or the delay until the next plan.
* `leaderRoundV6` : the round in which `produceFinalizedBlockV6` goes on.

## Main results

* `planV6Wake_spec` : no slot is missed.
-/

namespace ZyronChain

open Checks

/-- `V6_LEADER_JITTER_MAX_MS`. -/
def v6LeaderJitterMaxMs : Int := 250

/-- `V6_FALLBACK_POLL_MS`. -/
def v6FallbackPollMs : Int := v6RoundBaseMs / 10

structure V6WakePlanInput where
  tipTimestampMs : Int
  height : Int
  validators : List Validator
  publicKey : String
  nowMs : Int
  jitterMs : Rat

/-- The round to act in, of the height of the input, and the delay. -/
structure V6WakePlan where
  act : Option (Int × Int)
  delayMs : Int
  deriving DecidableEq

def v6LeaderStart (tipTimestampMs round : Int) : Int :=
  if round = 0 then roundStart tipTimestampMs 0
  else roundStart tipTimestampMs round - v6TimeoutGuardMs

namespace V6WakePlanInput

variable (input : V6WakePlanInput)

/-- The jitter of the input, within its range. -/
def jitter : Int := max 0 (min v6LeaderJitterMaxMs input.jitterMs.floor)

/-- The time from which the validator acts in a round. -/
def start (round : Int) : Int := v6LeaderStart input.tipTimestampMs round + input.jitter

/-- The plan for a round that the validator leads. -/
def planRound (current : Option Int) (round : Int) : V6WakePlan :=
  if some round = current ∧ input.nowMs ≥ input.start round then ⟨some (input.height, round), 0⟩
  else ⟨none, max 1 (min (input.start round - input.nowMs) v6FallbackPollMs)⟩

/-- The loop of `planV6Wake`: the rounds from one on, at most as many as the first number says. -/
def planRounds (current : Option Int) : Nat → Int → Except String V6WakePlan
  | 0, _ => .ok ⟨none, v6FallbackPollMs⟩
  | rounds + 1, round =>
    if round > v6MaxRound then .ok ⟨none, v6FallbackPollMs⟩
    else do
      let leader ← expectedValidator input.validators input.height round
      if leader.publicKey ≠ input.publicKey then planRounds current rounds (round + 1)
      else .ok (input.planRound current round)

def planV6Wake (estimate : Int → Int) : Except String V6WakePlan :=
  if ¬ IsSafeInteger input.nowMs ∨ ¬ ∃ v ∈ input.validators, v.publicKey = input.publicKey then
    .ok ⟨none, v6FallbackPollMs⟩
  else
    let current := clockRound estimate input.tipTimestampMs (input.nowMs + v6TimeoutGuardMs)
    if current = none ∧ input.nowMs + v6TimeoutGuardMs ≥ roundStart input.tipTimestampMs 0 then
      .ok ⟨none, v6FallbackPollMs⟩
    else input.planRounds current (input.validators.length + 1) (current.getD 0)

/-- The round in which `produceFinalizedBlockV6` goes on at a time, if it does. -/
def leaderRoundV6 (estimate : Int → Int) (consensusNowMs : Int) : Except String (Option Int) :=
  match clockRound estimate input.tipTimestampMs (consensusNowMs + v6TimeoutGuardMs) with
  | none => .ok none
  | some round => do
    let leader ← expectedValidator input.validators input.height round
    .ok (if leader.publicKey ≠ input.publicKey then none else some round)

def Leads (round : Int) : Prop :=
  ∃ v, expectedValidator input.validators input.height round = .ok v ∧ v.publicKey = input.publicKey

variable {input} {current : Option Int} {plan : V6WakePlan}

/-- The loop plans the first round of its range that the validator leads. -/
theorem planRounds_eq_ok {rounds : Nat} {round : Int}
    (h : input.planRounds current rounds round = .ok plan) :
    (∃ r, round ≤ r ∧ input.Leads r ∧ (∀ s, round ≤ s → s < r → ¬ input.Leads s) ∧
        plan = input.planRound current r) ∨
      plan = ⟨none, v6FallbackPollMs⟩ ∧
        ∀ s, round ≤ s → s < round + rounds → s ≤ v6MaxRound → ¬ input.Leads s := by
  induction rounds generalizing round with
  | zero =>
    cases h
    exact .inr ⟨rfl, fun s hle hlt => by omega⟩
  | succ rounds ih =>
    rw [planRounds] at h
    split at h
    · cases h
      exact .inr ⟨rfl, fun s hle _ hmax => by omega⟩
    · obtain ⟨leader, hleader, h⟩ := bind_eq_ok.mp h
      split at h
      · next hne =>
        have hfirst : ¬ input.Leads round := by
          rintro ⟨v, hv, hkey⟩
          cases hleader.symm.trans hv
          exact hne hkey
        have hrest {s : Int} (hs : round ≤ s) (hlater : round + 1 ≤ s → ¬ input.Leads s) :
            ¬ input.Leads s := by
          rcases hs.eq_or_lt with rfl | hlt
          · exact hfirst
          · exact hlater hlt
        rcases ih h with ⟨r, hle, hleads, hbefore, hplan⟩ | ⟨hplan, hnone⟩
        · exact .inl ⟨r, by omega, hleads, fun s hs hlt => hrest hs fun hle => hbefore s hle hlt,
            hplan⟩
        · exact .inr ⟨hplan, fun s hs hlt hmax => hrest hs fun hle => hnone s hle
            (by push_cast at hlt; omega) hmax⟩
      · next heq =>
        cases h
        exact .inl ⟨round, le_rfl, ⟨leader, hleader, not_not.mp heq⟩, fun s hs hlt => by omega, rfl⟩

private theorem expectedValidator_eq_ok {validators : List Validator} {height round : Int} {i : Nat}
    (hheight : IsSafeInteger height ∧ 1 ≤ height) (h0 : 0 ≤ round) (hmax : round ≤ v6MaxRound)
    (hindex : ((height - 1) % validators.length + round % validators.length) % validators.length =
      (i : Int)) (hi : i < validators.length) :
    expectedValidator validators height round = .ok validators[i] := by
  refine throwIf_bind_eq_ok.mpr ⟨by omega, throwIf_bind_eq_ok.mpr ⟨?_, ?_⟩⟩
  · simp only [IsSafeInteger, maxSafeInteger, v6MaxRound] at *
    omega
  · dsimp only
    rw [hindex, Int.toNat_natCast, List.getElem?_eq_getElem hi]

theorem planRounds_isOk (hpos : 0 < input.validators.length)
    (hheight : IsSafeInteger input.height ∧ 1 ≤ input.height) {rounds : Nat} {round : Int}
    (h0 : 0 ≤ round) : ∃ plan, input.planRounds current rounds round = .ok plan := by
  induction rounds generalizing round with
  | zero => exact ⟨_, rfl⟩
  | succ rounds ih =>
    rw [planRounds]
    split_ifs with hmax
    · exact ⟨_, rfl⟩
    · have hn : (0 : Int) < input.validators.length := by omega
      obtain ⟨i, hi⟩ := Int.eq_ofNat_of_zero_le (Int.emod_nonneg ((input.height - 1) %
        input.validators.length + round % input.validators.length) hn.ne')
      have hlt := hi ▸ Int.emod_lt_of_pos _ hn
      rw [expectedValidator_eq_ok hheight h0 (not_lt.mp hmax) hi (by omega), ok_bind]
      split
      · exact ih (by omega)
      · exact ⟨_, rfl⟩

/-- Among as many rounds as there are validators the validator leads one. -/
theorem exists_leads (hmember : ∃ v ∈ input.validators, v.publicKey = input.publicKey)
    (hheight : IsSafeInteger input.height ∧ 1 ≤ input.height) {first : Int} (hfirst : 0 ≤ first) :
    ∃ s, first ≤ s ∧ s < first + input.validators.length ∧ (s ≤ v6MaxRound → input.Leads s) := by
  obtain ⟨v, hv, hkey⟩ := hmember
  obtain ⟨i, hi, rfl⟩ := List.mem_iff_getElem.mp hv
  have hpos : (0 : Int) < input.validators.length := by omega
  have hmod := Int.emod_nonneg (i - (input.height - 1) - first) hpos.ne'
  have hlt := Int.emod_lt_of_pos (i - (input.height - 1) - first) hpos
  refine ⟨first + (i - (input.height - 1) - first) % input.validators.length, by omega, by omega,
    fun hmax => ⟨_, expectedValidator_eq_ok hheight (by omega) hmax ?_ hi, hkey⟩⟩
  have hsum : input.height - 1 + first + (i - (input.height - 1) - first) = i := by omega
  rw [← Int.add_emod, ← add_assoc, Int.add_emod_emod, hsum]
  exact Int.emod_eq_of_lt (by omega) (by omega)

private theorem roundEnd_le {t r s : Int} (hr : 0 ≤ r) (h : r < s) :
    roundEnd t r ≤ roundStart t s := by
  have := roundOffset_mono (by omega) (Int.add_one_le_of_lt h)
  rw [roundOffset_succ hr] at this
  simp only [roundEnd, roundStart]
  omega

variable (input) in
/-- A leader starts before its round, by no more than the guard, or with it. -/
theorem start_bounds (round : Int) : 0 ≤ input.jitter ∧
    roundStart input.tipTimestampMs round - v6TimeoutGuardMs + input.jitter ≤ input.start round ∧
      input.start round ≤ roundStart input.tipTimestampMs round + input.jitter := by
  simp only [start, v6LeaderStart, jitter, v6TimeoutGuardMs]
  split_ifs with hzero
  · subst hzero
    omega
  · omega

section

variable {estimate : Int → Int} (hestimate : ∀ elapsed, 0 ≤ elapsed →
  elapsed < roundOffset capRound → 0 ≤ estimate elapsed ∧ estimate elapsed ≤ capRound)

include hestimate

/-- The rounds from the clock's on are those whose slot has not ended, and only the clock's own has
begun. -/
private theorem rounds_ahead {tip now : Int} (hcurrent : clockRound estimate tip now = current)
    (hstarted : ¬ (current = none ∧ now ≥ roundStart tip 0)) :
    0 ≤ current.getD 0 ∧ (∀ r, current.getD 0 ≤ r → some r = current ∨ now < roundStart tip r) ∧
      ∀ r, 0 ≤ r → now < roundEnd tip r → current.getD 0 ≤ r := by
  cases current with
  | none =>
    have hlt : now < roundStart tip 0 := not_le.mp fun hge => hstarted ⟨rfl, hge⟩
    refine ⟨le_rfl, fun r hr => .inr (hlt.trans_le ?_), fun r hr _ => hr⟩
    exact Int.add_le_add_left (roundOffset_mono le_rfl hr) _
  | some c =>
    obtain ⟨hc, -, hstart, hend⟩ := (clockRound_eq_some_iff hestimate).mp hcurrent
    refine ⟨hc, fun r hr => ?_, fun r hr hopen => not_lt.mp fun hlt => ?_⟩
    · rcases hr.eq_or_lt with rfl | hlt
      · exact .inl rfl
      · exact .inr (hend.trans_le (roundEnd_le hc hlt))
    · exact absurd hopen (not_lt.mpr ((roundEnd_le hr hlt).trans hstart))

/-- No slot is missed: the round of a plan to act is the one that the producer goes on with, and a
plan to sleep ends no later than the start of any round ahead that the validator leads. -/
theorem planV6Wake_spec (input : V6WakePlanInput) (hnow : IsSafeInteger input.nowMs)
    (hmember : ∃ v ∈ input.validators, v.publicKey = input.publicKey) :
    (IsSafeInteger input.height → 1 ≤ input.height → ∃ plan, input.planV6Wake estimate = .ok plan) ∧
    ∀ plan, input.planV6Wake estimate = .ok plan →
      (∀ height round, plan.act = some (height, round) →
        height = input.height ∧ input.leaderRoundV6 estimate input.nowMs = .ok (some round)) ∧
      (plan.act = none → 1 ≤ plan.delayMs ∧ ∀ round, 0 ≤ round → round ≤ v6MaxRound →
        input.Leads round → input.nowMs < timeoutAllowedAt input.tipTimestampMs round →
          input.nowMs + plan.delayMs ≤ input.start round) := by
  refine ⟨fun hsafe hheight => ?_, fun plan h => ?_⟩
  · obtain ⟨v, hv, -⟩ := id hmember
    rw [planV6Wake, if_neg (not_or.mpr ⟨not_not.mpr hnow, not_not.mpr hmember⟩)]
    dsimp only
    generalize hcurrent : clockRound estimate _ _ = current
    split
    · exact ⟨_, rfl⟩
    · next hstarted =>
      exact planRounds_isOk (List.length_pos_of_mem hv) ⟨hsafe, hheight⟩
        (rounds_ahead hestimate hcurrent hstarted).1
  · have hpoll : 1 ≤ v6FallbackPollMs := by decide
    rw [planV6Wake, if_neg (not_or.mpr ⟨not_not.mpr hnow, not_not.mpr hmember⟩)] at h
    dsimp only at h
    generalize hcurrent : clockRound estimate _ _ = current at h
    split at h
    · next hbeyond =>
      cases h
      refine ⟨nofun, fun _ => ⟨hpoll, fun round h0 hmax _ hopen => ?_⟩⟩
      obtain ⟨r, hr0, hr⟩ := exists_round hbeyond.2
      have hrmax : v6MaxRound < r := not_le.mp fun hle => by
        cases hbeyond.1.symm.trans
          (hcurrent.symm.trans ((clockRound_eq_some_iff hestimate).mpr ⟨hr0, hle, hr⟩))
      have := roundEnd_le (t := input.tipTimestampMs) h0 (hmax.trans_lt hrmax)
      rw [timeoutAllowedAt] at hopen
      omega
    · next hstarted =>
      obtain ⟨hfirst, hahead, hopen⟩ := rounds_ahead hestimate hcurrent hstarted
      have hle {round : Int} (h0 : 0 ≤ round)
          (hlater : input.nowMs < timeoutAllowedAt input.tipTimestampMs round) :
          current.getD 0 ≤ round := by
        refine hopen round h0 ?_
        rw [timeoutAllowedAt] at hlater
        omega
      rcases planRounds_eq_ok h with ⟨r, hr, hleads, hbefore, rfl⟩ | ⟨rfl, hnone⟩
      · rw [planRound]
        split
        · next hact =>
          refine ⟨fun height round heq => ?_, nofun⟩
          cases heq
          obtain ⟨v, hv, hkey⟩ := hleads
          rw [leaderRoundV6, hcurrent, ← hact.1]
          exact ⟨rfl, bind_eq_ok.mpr ⟨v, hv, by rw [if_neg (not_not.mpr hkey)]⟩⟩
        · next hact =>
          refine ⟨nofun, fun _ => ⟨le_max_left _ _, fun round h0 hmax hround hlater => ?_⟩⟩
          obtain ⟨hjitter, hlow, hhigh⟩ := input.start_bounds r
          have hstart : input.nowMs < input.start r := by
            rcases hahead r hr with hc | hlt
            · exact not_le.mp fun hge => hact ⟨hc, hge⟩
            · omega
          have hnext : input.start r ≤ input.start round := by
            have hge := not_lt.mp fun hlt => hbefore round (hle h0 hlater) hlt hround
            rcases hge.eq_or_lt with rfl | hlt
            · exact le_rfl
            · have hend := roundEnd_le (t := input.tipTimestampMs) (hfirst.trans hr) hlt
              have := (input.start_bounds round).2.1
              simp only [roundEnd, roundDuration, v6RoundBaseMs, v6RoundStepMs,
                v6RoundMaxMs] at hend
              simp only [v6TimeoutGuardMs] at this
              omega
          dsimp only
          omega
      · refine ⟨nofun, fun _ => ⟨hpoll, fun round h0 hmax hround hlater => ?_⟩⟩
        have hheight : IsSafeInteger input.height ∧ 1 ≤ input.height := by
          obtain ⟨v, hv, -⟩ := hround
          rw [expectedValidator, throwIf_bind_eq_ok, throwIf_bind_eq_ok] at hv
          simpa [not_or] using And.intro (not_or.mp hv.2.1).1 (not_or.mp (not_or.mp hv.2.1).2).1
        obtain ⟨s, hs, hlt, hleads⟩ := exists_leads hmember hheight hfirst
        have hfar := hnone round (hle h0 hlater)
        have hsmax : s ≤ v6MaxRound := by
          by_contra hmax'
          exact hfar (by push_cast; omega) hmax hround
        exact absurd (hleads hsmax) (hnone s hs (by push_cast; omega) hsmax)

end

/-- The second of two validators, ten seconds before its round. -/
def secondLeader : V6WakePlanInput := ⟨0, 1, [⟨"a", "k"⟩, ⟨"b", "l"⟩], "l", 48000, 100⟩

/-- The second validator wakes up in time for its round. -/
theorem planV6Wake_spec_secondLeader : 48000 + 3000 ≤ secondLeader.start 1 :=
  ((@planV6Wake_spec (fun _ => 0) (fun _ _ _ => by decide) secondLeader (by decide)
    (by decide)).2 ⟨none, 3000⟩ (by decide +kernel)).2 rfl |>.2 1 (by decide) (by decide)
      ⟨⟨"b", "l"⟩, by decide +kernel, rfl⟩ (by decide)

end V6WakePlanInput

end ZyronChain
