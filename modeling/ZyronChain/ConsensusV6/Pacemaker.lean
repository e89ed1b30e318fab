import Mathlib.Algebra.BigOperators.Intervals
import Mathlib.Tactic.IntervalCases
import ZyronChain.Basic

/-!
# Protocol v6: the round clock

Rounds last 30 seconds at first, each five seconds longer than the one before, up to two minutes.
The round of a time is found from an estimate that two loops correct.

Source: `l1/src/consensus-v6.ts` (pacemaker).  Times are integers here.  The source rounds a sum that
passes `2 ^ 53`, but not to a number below it, so that a safe time compares with it in the same way.

## Main results

* `roundOffset_succ` : the closed form adds up the durations.
* `clockRound_eq_some_iff` : the clock finds the round that contains a time, from any estimate.
-/

namespace ZyronChain

/-- `V6_BLOCK_INTERVAL_MS`. -/
def v6BlockIntervalMs : Int := 30000

/-- `V6_ROUND_BASE_MS`. -/
def v6RoundBaseMs : Int := 30000

/-- `V6_ROUND_STEP_MS`. -/
def v6RoundStepMs : Int := 5000

/-- `V6_ROUND_MAX_MS`. -/
def v6RoundMaxMs : Int := 120000

/-- `V6_TIMEOUT_GUARD_MS`. -/
def v6TimeoutGuardMs : Int := 2000

/-- `CAP_ROUND`: the first round of the longest duration. -/
def capRound : Int := 18

def roundDuration (round : Int) : Int := min (v6RoundBaseMs + round * v6RoundStepMs) v6RoundMaxMs

def roundOffset (round : Int) : Int := let linear := min round capRound
  linear * v6RoundBaseMs + v6RoundStepMs * linear * (linear - 1) / 2 +
    max 0 (round - capRound) * v6RoundMaxMs

def roundStart (tipTimestampMs round : Int) : Int :=
  tipTimestampMs + v6BlockIntervalMs + roundOffset round

def roundEnd (tipTimestampMs round : Int) : Int :=
  roundStart tipTimestampMs round + roundDuration round

def timeoutAllowedAt (tipTimestampMs round : Int) : Int :=
  roundEnd tipTimestampMs round - v6TimeoutGuardMs

def lowerRound (elapsed round : Int) : Int :=
  if 0 < round ∧ roundOffset round > elapsed then lowerRound elapsed (round - 1) else round
termination_by round.toNat
decreasing_by omega

def raiseRound (elapsed round : Int) : Int :=
  if round + 1 ≤ capRound ∧ roundOffset (round + 1) ≤ elapsed then raiseRound elapsed (round + 1)
  else round
termination_by (capRound - round).toNat
decreasing_by omega

/-- `clockRound`.  `estimate` is the root of the quadratic equation, in floating point. -/
def clockRound (estimate : Int → Int) (tipTimestampMs nowMs : Int) : Option Int :=
  let elapsed := nowMs - (tipTimestampMs + v6BlockIntervalMs)
  if elapsed < 0 then none
  else
    let capOffset := roundOffset capRound
    let round := if elapsed ≥ capOffset then capRound + (elapsed - capOffset) / v6RoundMaxMs
      else raiseRound elapsed (lowerRound elapsed (estimate elapsed))
    if ¬ IsSafeInteger round ∨ round > v6MaxRound then none else some round

/-! ### The schedule -/

theorem roundDuration_pos {round : Int} (h : 0 ≤ round) : 0 < roundDuration round := by
  simp only [roundDuration, v6RoundBaseMs, v6RoundStepMs, v6RoundMaxMs]
  omega

/-- The closed form adds up the durations. -/
theorem roundOffset_succ {round : Int} (h : 0 ≤ round) :
    roundOffset (round + 1) = roundOffset round + roundDuration round := by
  by_cases hcap : round < 18
  · interval_cases round <;> rfl
  · have hmin : min round 18 = 18 := by omega
    have hmin' : min (round + 1) 18 = 18 := by omega
    simp only [roundOffset, roundDuration, capRound, v6RoundBaseMs, v6RoundStepMs, v6RoundMaxMs,
      hmin, hmin']
    omega

theorem roundOffset_eq_sum (n : Nat) : roundOffset n = ∑ i ∈ Finset.range n, roundDuration i := by
  induction n with
  | zero => rfl
  | succ n ih =>
    rw [Finset.sum_range_succ, ← ih, Nat.cast_succ, roundOffset_succ (Int.natCast_nonneg n)]

theorem roundOffset_mono {r s : Int} (hr : 0 ≤ r) (h : r ≤ s) : roundOffset r ≤ roundOffset s := by
  induction s, h using Int.leInduction with
  | base => exact le_rfl
  | succ s hs ih =>
    have := roundDuration_pos (hr.trans hs)
    rw [roundOffset_succ (hr.trans hs)]
    omega

theorem roundOffset_of_capRound_le {round : Int} (h : capRound ≤ round) :
    roundOffset round = roundOffset capRound + (round - capRound) * v6RoundMaxMs := by
  induction round, h using Int.leInduction with
  | base => simp
  | succ s hs ih =>
    simp only [capRound] at hs
    rw [roundOffset_succ (by omega), ih]
    simp only [roundDuration, capRound, v6RoundBaseMs, v6RoundStepMs, v6RoundMaxMs]
    omega

theorem round_unique {r s elapsed : Int} (hr : 0 ≤ r) (hs : 0 ≤ s)
    (h : roundOffset r ≤ elapsed ∧ elapsed < roundOffset r + roundDuration r)
    (h' : roundOffset s ≤ elapsed ∧ elapsed < roundOffset s + roundDuration s) : r = s := by
  rw [← roundOffset_succ hr] at h
  rw [← roundOffset_succ hs] at h'
  by_contra hne
  rcases lt_or_gt_of_ne hne with hlt | hlt
  · have := roundOffset_mono (by omega) (Int.add_one_le_of_lt hlt)
    omega
  · have := roundOffset_mono (by omega) (Int.add_one_le_of_lt hlt)
    omega

/-! ### The clock -/

theorem lowerRound_spec {elapsed round : Int} (helapsed : 0 ≤ elapsed) (hround : 0 ≤ round) :
    0 ≤ lowerRound elapsed round ∧ lowerRound elapsed round ≤ round ∧
      roundOffset (lowerRound elapsed round) ≤ elapsed := by
  fun_induction lowerRound elapsed round with
  | case1 round hloop ih =>
    have := ih (by omega)
    omega
  | case2 round hstop =>
    refine ⟨hround, le_rfl, ?_⟩
    by_contra hlt
    have hzero : round = 0 := by omega
    subst hzero
    exact hlt helapsed

theorem raiseRound_spec {elapsed round : Int} (hround : 0 ≤ round) (hcap : round ≤ capRound)
    (hle : roundOffset round ≤ elapsed) (hlt : elapsed < roundOffset capRound) :
    0 ≤ raiseRound elapsed round ∧ roundOffset (raiseRound elapsed round) ≤ elapsed ∧
      elapsed < roundOffset (raiseRound elapsed round + 1) := by
  fun_induction raiseRound elapsed round with
  | case1 round hloop ih => exact ih (by omega) hloop.1 hloop.2
  | case2 round hstop =>
    refine ⟨hround, hle, ?_⟩
    by_contra hnot
    -- the loop stops below the cap, whose offset is above the time
    have hround_eq : round = capRound := by omega
    subst hround_eq
    omega

private theorem round_spec {estimate : Int → Int} {elapsed : Int} (helapsed : 0 ≤ elapsed)
    (hestimate : elapsed < roundOffset capRound →
      0 ≤ estimate elapsed ∧ estimate elapsed ≤ capRound) :
    let round := if elapsed ≥ roundOffset capRound
      then capRound + (elapsed - roundOffset capRound) / v6RoundMaxMs
      else raiseRound elapsed (lowerRound elapsed (estimate elapsed))
    0 ≤ round ∧ roundOffset round ≤ elapsed ∧ elapsed < roundOffset round + roundDuration round := by
  dsimp only
  split
  · rename_i hcap
    obtain ⟨q, hq⟩ : ∃ q, q = (elapsed - roundOffset capRound) / v6RoundMaxMs := ⟨_, rfl⟩
    have hq0 : 0 ≤ q := hq ▸ Int.ediv_nonneg (sub_nonneg.mpr hcap) (by decide)
    have hstart : roundOffset (capRound + q) =
        roundOffset capRound + (capRound + q - capRound) * v6RoundMaxMs :=
      roundOffset_of_capRound_le (by omega)
    have hlast : roundDuration (capRound + q) = v6RoundMaxMs := by
      simp only [roundDuration, capRound, v6RoundBaseMs, v6RoundStepMs, v6RoundMaxMs]
      omega
    rw [← hq, hstart, hlast]
    simp only [capRound, v6RoundMaxMs] at hq ⊢
    omega
  · rename_i hcap
    obtain ⟨hlow, hhigh⟩ := hestimate (by omega)
    obtain ⟨h0, hle, hoffset⟩ := lowerRound_spec helapsed hlow
    obtain ⟨hround, hstart, hend⟩ := raiseRound_spec h0 (hle.trans hhigh) hoffset (by omega)
    exact ⟨hround, hstart, roundOffset_succ hround ▸ hend⟩

/-- Every time from the start of round 0 on lies in a round. -/
theorem exists_round {tipTimestampMs nowMs : Int} (h : roundStart tipTimestampMs 0 ≤ nowMs) :
    ∃ round, 0 ≤ round ∧ roundStart tipTimestampMs round ≤ nowMs ∧
      nowMs < roundStart tipTimestampMs round + roundDuration round := by
  have hzero : roundOffset 0 = 0 := rfl
  simp only [roundStart] at h ⊢
  have helapsed : 0 ≤ nowMs - (tipTimestampMs + v6BlockIntervalMs) := by omega
  have hspec := @round_spec (fun _ => 0) _ helapsed fun _ => by decide
  exact ⟨_, hspec.1, by omega, by omega⟩

section

variable {estimate : Int → Int} {tipTimestampMs nowMs : Int}
  (hestimate : ∀ elapsed, 0 ≤ elapsed → elapsed < roundOffset capRound →
    0 ≤ estimate elapsed ∧ estimate elapsed ≤ capRound)

include hestimate

/-- The clock finds the round that contains the time, from any estimate. -/
theorem clockRound_eq_some_iff {round : Int} :
    clockRound estimate tipTimestampMs nowMs = some round ↔
      0 ≤ round ∧ round ≤ v6MaxRound ∧ roundStart tipTimestampMs round ≤ nowMs ∧
        nowMs < roundStart tipTimestampMs round + roundDuration round := by
  simp only [clockRound, roundStart]
  generalize helapsed : nowMs - (tipTimestampMs + v6BlockIntervalMs) = elapsed
  split
  · rename_i hneg
    refine ⟨nofun, fun h => ?_⟩
    have := roundOffset_mono le_rfl h.1
    have hzero : roundOffset 0 = 0 := rfl
    omega
  · rename_i hnonneg
    obtain ⟨h0, hstart, hend⟩ := round_spec (by omega) (hestimate elapsed (by omega))
    generalize (if elapsed ≥ _ then _ else _ : Int) = found at h0 hstart hend ⊢
    have hsafe : ¬ IsSafeInteger found ∨ found > v6MaxRound ↔ found > v6MaxRound := by
      simp only [IsSafeInteger, maxSafeInteger, v6MaxRound]
      omega
    rw [if_congr hsafe rfl rfl]
    split
    · refine ⟨nofun, fun h => ?_⟩
      have := round_unique h0 h.1 ⟨hstart, hend⟩ (by omega)
      omega
    · rw [Option.some.injEq]
      constructor
      · rintro rfl
        omega
      · exact fun h => round_unique h0 h.1 ⟨hstart, hend⟩ (by omega)

/-- The round clock is exact, and the closed form of the offsets is the sum of the durations. -/
theorem clockRound_exact :
    (∀ round, clockRound estimate tipTimestampMs nowMs = some round ↔
      0 ≤ round ∧ round ≤ v6MaxRound ∧ roundStart tipTimestampMs round ≤ nowMs ∧
        nowMs < roundStart tipTimestampMs round + roundDuration round) ∧
    (clockRound estimate tipTimestampMs nowMs = none ↔
      nowMs < roundStart tipTimestampMs 0 ∨ ∃ round, v6MaxRound < round ∧
        roundStart tipTimestampMs round ≤ nowMs ∧
          nowMs < roundStart tipTimestampMs round + roundDuration round) ∧
    ∀ n : Nat, roundOffset n = ∑ i ∈ Finset.range n, roundDuration i := by
  refine ⟨fun round => clockRound_eq_some_iff hestimate, ?_, roundOffset_eq_sum⟩
  constructor
  · intro hnone
    rcases lt_or_ge nowMs (roundStart tipTimestampMs 0) with hlt | hle
    · exact .inl hlt
    · obtain ⟨round, h0, hround⟩ := exists_round hle
      refine .inr ⟨round, not_le.mp fun hmax => ?_, hround⟩
      cases hnone.symm.trans ((clockRound_eq_some_iff hestimate).mpr ⟨h0, hmax, hround⟩)
  · intro h
    rw [Option.eq_none_iff_forall_ne_some]
    intro found hsome
    obtain ⟨h0, hmax, hfound⟩ := (clockRound_eq_some_iff hestimate).mp hsome
    simp only [roundStart] at h hfound
    rcases h with hlt | ⟨round, hround, hin⟩
    · have := roundOffset_mono le_rfl h0
      omega
    · have h0' : 0 ≤ round := h0.trans (hmax.trans hround.le)
      have := @round_unique _ _ (nowMs - (tipTimestampMs + v6BlockIntervalMs)) h0 h0' (by omega)
        (by omega)
      omega

end

/-- At the last millisecond of round 1 every estimate gives round 1. -/
theorem clockRound_exact_one : clockRound (fun _ => 7) 1000 95999 = some 1 :=
  ((clockRound_exact fun _ _ _ => by decide).1 1).mpr (by decide)

end ZyronChain
