import ZyronChain.Types
import ZyronChain.Lib.Checks

/-!
# Activity settlements: caps, epochs and the rolling window

Source: `l1/src/activity.ts`, and the reserved addresses of `l1/src/mining.ts`.
-/

namespace ZyronChain

open Checks List

/-- `MINING_TRACKER_ADDRESS`. -/
def miningTrackerAddress : Address := "ZYN0000000000000000000000000000000000000000"

/-- `ACTIVITY_WINDOW_TIME_ADDRESS`. -/
def activityWindowTimeAddress : Address := "ZYN0000000000000000000000000000000000000001"

/-- `ACTIVITY_WINDOW_AMOUNT_ADDRESS`. -/
def activityWindowAmountAddress : Address := "ZYN0000000000000000000000000000000000000002"

def trackerReserved : String := "Mining tracker address is protocol-reserved"

def windowReserved : String := "Activity window record address is protocol-reserved"

/-- `ACTIVITY_EPOCH_MS`, which is also `ACTIVITY_ROLLING_WINDOW_MS`. -/
def activityEpochMs : Int := 86400000

/-- `MAX_ACTIVITY_SETTLEMENT_ATOMS`: 10,000 ZYN. -/
def maxActivitySettlementAtoms : Int := 1000000000000

/-- `PUBLIC_LAUNCH_ACTIVITY_CAP_ATOMS`: 1,000 ZYN. -/
def publicLaunchActivityCapAtoms : Int := 100000000000

/-- `activityOraclePolicy` of a genesis. -/
inductive ActivityOraclePolicy where
  | testSingleV1
  | thresholdV1
deriving DecidableEq, Repr

/-- `launchProfile` of a genesis. -/
inductive LaunchProfile where
  | fixedSupplyV1
deriving DecidableEq, Repr

/-- The activity-oracle fields of a genesis, and the control state of the chain at a height. -/
structure ActivityOracleSet where
  activityOracles : List String
  activityOracleThreshold : Option Int
  activityOraclePolicy : Option ActivityOraclePolicy
  settlementCapAtoms : Option Int
  launchProfile : Option LaunchProfile
  timestampMs : Option Int
  paused : Bool
  revokedPublicKeys : List String
deriving DecidableEq, Repr

def ActivityOracleSet.activitySettlementCapAtoms (oracles : ActivityOracleSet) : Int :=
  match oracles.activityOraclePolicy with
  | some .thresholdV1 => oracles.settlementCapAtoms.getD publicLaunchActivityCapAtoms
  | some .testSingleV1 => oracles.settlementCapAtoms.getD maxActivitySettlementAtoms
  | none => maxActivitySettlementAtoms

def ActivityOracleSet.activityRollingWindowEnforced (oracles : ActivityOracleSet) : Bool :=
  oracles.launchProfile == some .fixedSupplyV1

def activityCapExceeded : String := "Activity settlement exceeds the per-epoch activity cap"

/-- The loop of `assertActivitySettlementWithinCap`. -/
def sumWithinCap (capAtoms : Int) : List ActivityEntry → Int → Except String Int
  | [], total => .ok total
  | entry :: entries, total => do
    throwIf (¬ IsSafeInteger entry.amountAtoms ∨ entry.amountAtoms < 0) "Invalid activity amount"
    throwIf (total + entry.amountAtoms > capAtoms) activityCapExceeded
    sumWithinCap capAtoms entries (total + entry.amountAtoms)

def assertActivitySettlementWithinCap (entries : List ActivityEntry) (capAtoms : Int) :
    Except String Int := do
  throwIf (¬ IsSafeInteger capAtoms ∨ capAtoms < 1) "Invalid activity cap"
  sumWithinCap capAtoms entries 0

def activityEpochAt (genesisTimestampMs timestampMs : Int) : Except String Int := do
  throwIf (¬ IsSafeInteger genesisTimestampMs ∨ ¬ IsSafeInteger timestampMs)
    "Invalid activity epoch timestamp"
  if timestampMs < genesisTimestampMs then .ok (-1)
  else .ok ((timestampMs - genesisTimestampMs) / activityEpochMs)

def assertActivityEpochWindow (epoch genesisTimestampMs blockTimestampMs : Int) :
    Except String Unit := do
  throwIf (¬ IsSafeInteger epoch ∨ epoch < 0) "Invalid activity epoch"
  let current ← activityEpochAt genesisTimestampMs blockTimestampMs
  throwIf (epoch ≥ current) "Activity epoch is not closed yet"
  throwIf (epoch < current - 1) "Activity epoch settlement window has closed"

def assertNoActivityPoolDirectDebit (sender activityPool : Address) (rollingWindow : Bool) :
    Except String Unit :=
  throwIf (rollingWindow = true ∧ sender = activityPool)
    "Activity pool can only be debited by activity settlements"

def assertNoActivityPoolInflow (receiver activityPool : Address) : Except String Unit :=
  throwIf (receiver = activityPool) "Activity pool cannot receive funds"

def isActivityWindowAddress (address : Address) : Bool :=
  address == activityWindowTimeAddress || address == activityWindowAmountAddress

def assertActivityRollingWindow (previousTimestampMs previousAmountAtoms : Int)
    (blockTimestampMs : Option Int) (totalAtoms capAtoms : Int) : Except String Unit := do
  throwIf (¬ IsSafeInteger capAtoms ∨ capAtoms < 1 ∨ capAtoms > maxActivitySettlementAtoms)
    "Invalid activity cap"
  match blockTimestampMs with
  | none => .error "Activity rolling window requires the block timestamp"
  | some now => do
    throwIf (¬ IsSafeInteger now ∨ now < 0)
      "Activity rolling window requires the block timestamp"
    throwIf (¬ IsSafeInteger previousTimestampMs ∨ previousTimestampMs < 0 ∨
      ¬ IsSafeInteger previousAmountAtoms ∨ previousAmountAtoms < 0 ∨
      previousAmountAtoms > capAtoms ∨ previousTimestampMs > now) "Corrupt activity window state"
    throwIf (¬ IsSafeInteger totalAtoms ∨ totalAtoms < 0) "Invalid activity amount"
    throwIf (now - previousTimestampMs < activityEpochMs ∧
      previousAmountAtoms + totalAtoms > capAtoms)
      "Activity settlements exceed the activity cap in a rolling 24-hour window"

/-! ### The payout of a settlement -/

/-- The sum of the amounts of a settlement. -/
def payout (entries : List ActivityEntry) : Int := (entries.map ActivityEntry.amountAtoms).sum

theorem payout_cons (entry : ActivityEntry) (entries : List ActivityEntry) :
    payout (entry :: entries) = entry.amountAtoms + payout entries := by
  rw [payout, map_cons, sum_cons, payout]

private theorem sumWithinCap_eq_ok {capAtoms : Int} {entries : List ActivityEntry} {total r : Int}
    (hcap : total ≤ capAtoms) (h : sumWithinCap capAtoms entries total = .ok r) :
    r = total + payout entries ∧ r ≤ capAtoms ∧ ∀ e ∈ entries, 0 ≤ e.amountAtoms := by
  induction entries generalizing total with
  | nil =>
    rw [sumWithinCap] at h
    cases h
    refine ⟨?_, hcap, by simp⟩
    rw [payout, map_nil, sum_nil, Int.add_zero]
  | cons entry entries ih =>
    rw [sumWithinCap, throwIf_bind_eq_ok] at h
    obtain ⟨hvalid, h⟩ := h
    rw [throwIf_bind_eq_ok] at h
    obtain ⟨hle, h⟩ := h
    rw [not_or, not_not, not_lt] at hvalid
    obtain ⟨hr, hrcap, hall⟩ := ih (not_lt.mp hle) h
    refine ⟨?_, hrcap, ?_⟩
    · rw [hr, payout_cons]
      omega
    · intro e he
      rcases mem_cons.mp he with rfl | he
      · exact hvalid.2
      · exact hall e he

/-- An accepted settlement pays the sum of its entries, which is within the cap. -/
theorem assertActivitySettlementWithinCap_eq_ok {entries : List ActivityEntry} {capAtoms r : Int}
    (h : assertActivitySettlementWithinCap entries capAtoms = .ok r) :
    r = payout entries ∧ r ≤ capAtoms ∧ ∀ e ∈ entries, 0 ≤ e.amountAtoms := by
  rw [assertActivitySettlementWithinCap, throwIf_bind_eq_ok] at h
  obtain ⟨hcap, h⟩ := h
  rw [not_or, not_not, not_lt] at hcap
  have hr := sumWithinCap_eq_ok (by omega) h
  rw [Int.zero_add] at hr
  exact hr

end ZyronChain
