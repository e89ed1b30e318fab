import ZyronChain.Genesis

/-!
# Allocation locks

The founder allocation vests after a cliff, the public distribution is released over time and the
permanent-liquidity reserve is never debited.

Source: `l1/src/allocation-locks.ts`, `l1/src/founder-vesting.ts` (`linearCliffVestedAtoms`).

## Main definitions

* `linearCliffVestedAtoms`, `lockedAtoms`, `allocationLockContext`.
* `assertAllocationLockOutflow` : the check of every debit.
* `GenesisConfig.lockedFloor` : what stays locked of an account at a time.

## Main results

* `vestedAtoms_mono`, `vestedAtoms_le` : more is vested later, and never more than all.
* `lockedAtoms_eq` : the locked atoms of an account are its floor.
* `assertAllocationLockOutflow_eq_ok` : an accepted debit leaves the floor of its account.
-/

namespace ZyronChain

open Checks

/-- What is vested after `elapsed`: nothing up to the cliff, then a growing share. -/
def vestedAtoms (elapsed cliff linear total : Int) : Int :=
  if elapsed ≤ cliff then 0 else total * min (elapsed - cliff) linear / linear

def linearCliffVestedAtoms (elapsed cliff linear total : Int) : Except String Int := do
  throwIf (cliff < 0 ∨ linear ≤ 0 ∨ total < 0) "Invalid vesting schedule"
  .ok (vestedAtoms elapsed cliff linear total)

/-- `FOUNDER_VESTING_CLIFF_MS`: 365 days. -/
def founderVestingCliffMs : Int := 31536000000

/-- `FOUNDER_VESTING_LINEAR_MS`: 1,095 days. -/
def founderVestingLinearMs : Int := 94608000000

structure PublicDistributionLockState where
  address : Address
  allocationAtoms : Int
  cliffMs : Int
  linearMs : Int
deriving DecidableEq, Repr

structure AllocationLockContext where
  /-- The addresses of `allocationLocks`, if the genesis declares it. -/
  locks : Option AllocationLocks
  founderAllocationAtoms : Int
  genesisTimestampMs : Int
  blockTimestampMs : Int
  publicDistribution : Option PublicDistributionLockState
deriving DecidableEq, Repr

def assertTimestamp (value : Int) (name : String) : Except String Unit :=
  throwIf (¬ IsSafeInteger value ∨ value < 0) s!"Invalid {name}"

def assertAtoms (value : Int) : Except String Unit :=
  throwIf (¬ IsSafeInteger value ∨ value < 0 ∨ value > maxSupplyAtoms) "Invalid atom amount"

/-- The genesis allocation of an account that a lock or a release names. -/
def requireAllocation (g : GenesisConfig) (address : Address) (message : String) :
    Except String Int :=
  match g.allocationOf address with
  | none => .error message
  | some allocation => do
    assertAtoms allocation.amountAtoms
    .ok allocation.amountAtoms

/-- The founder allocation of a lock context. -/
def founderAllocationOf (g : GenesisConfig) : Except String Int := match g.allocationLocks with
  | none => .ok 0
  | some locks => requireAllocation g locks.founderVesting
      "Invalid allocation lock: the locked account needs a genesis allocation"

def publicDistributionOf (g : GenesisConfig) : Except String (Option PublicDistributionLockState) :=
  match g.publicDistributionRelease with
  | none => .ok none
  | some release => do
    let allocationAtoms ← requireAllocation g release.address
      "Invalid public distribution release: the account needs a genesis allocation"
    .ok (some
      { address := release.address
        allocationAtoms := allocationAtoms
        cliffMs := release.cliffMs
        linearMs := release.linearMs })

def allocationLockContext (g : GenesisConfig) (blockTimestampMs : Int) :
    Except String (Option AllocationLockContext) :=
  if g.allocationLocks = none ∧ g.publicDistributionRelease = none then .ok none
  else do
    assertTimestamp blockTimestampMs "block timestamp"
    assertTimestamp g.timestampMs "genesis timestamp"
    let founderAllocationAtoms ← founderAllocationOf g
    let publicDistribution ← publicDistributionOf g
    .ok (some
      { locks := g.allocationLocks
        founderAllocationAtoms := founderAllocationAtoms
        genesisTimestampMs := g.timestampMs
        blockTimestampMs := blockTimestampMs
        publicDistribution := publicDistribution })

def founderVestedAtomsAtTimestamp (genesisTimestampMs blockTimestampMs totalAtoms : Int) :
    Except String Int := do
  assertTimestamp genesisTimestampMs "genesis timestamp"
  assertTimestamp blockTimestampMs "block timestamp"
  assertAtoms totalAtoms
  let vested ← linearCliffVestedAtoms (blockTimestampMs - genesisTimestampMs) founderVestingCliffMs
    founderVestingLinearMs totalAtoms
  throwIf (¬ IsSafeInteger vested ∨ vested < 0 ∨ vested > totalAtoms)
    "Founder vested amount overflow"
  .ok vested

def founderLockedAtomsAtTimestamp (genesisTimestampMs blockTimestampMs totalAtoms : Int) :
    Except String Int := do
  let vested ← founderVestedAtomsAtTimestamp genesisTimestampMs blockTimestampMs totalAtoms
  .ok (totalAtoms - vested)

/-- The part of the public distribution that is not released yet. -/
def publicLockedAtoms (context : AllocationLockContext) (release : PublicDistributionLockState) :
    Except String Int := do
  let vested ← linearCliffVestedAtoms (context.blockTimestampMs - context.genesisTimestampMs)
    release.cliffMs release.linearMs release.allocationAtoms
  let locked := release.allocationAtoms - vested
  throwIf (¬ IsSafeInteger locked ∨ locked < 0 ∨ locked > release.allocationAtoms)
    "Public distribution locked amount overflow"
  .ok locked

def AllocationLockContext.isFounder (context : AllocationLockContext) (address : Address) : Bool :=
  context.locks.any fun locks => locks.founderVesting == address

/-- The permanent-liquidity account of a context. -/
def AllocationLockContext.isLiquidity (context : AllocationLockContext) (address : Address) : Bool :=
  context.locks.any fun locks => locks.permanentLiquidity == address

/-- The part of an account that a release still locks. -/
def releaseLockedAtoms (context : AllocationLockContext) (address : Address) : Except String Int :=
  match context.publicDistribution with
  | none => .ok 0
  | some release => if address = release.address then publicLockedAtoms context release else .ok 0

def lockedAtoms (context : Option AllocationLockContext) (address : Address) (balanceAtoms : Int) :
    Except String Int := do
  assertAtoms balanceAtoms
  match context with
  | none => .ok 0
  | some context =>
    if context.isLiquidity address then .ok balanceAtoms
    else if context.isFounder address then
      founderLockedAtomsAtTimestamp context.genesisTimestampMs context.blockTimestampMs
        context.founderAllocationAtoms
    else releaseLockedAtoms context address

/-- A debit leaves the locked part of an account in place. -/
def assertLockedRemains (context : AllocationLockContext) (sender : Address)
    (balanceAtoms outflowAtoms : Int) (message : String) : Except String Unit := do
  let locked ← lockedAtoms (some context) sender balanceAtoms
  throwIf (balanceAtoms - outflowAtoms < locked) message

def permanentLiquidityLocked : String := "Permanent-liquidity reserve is locked"

def founderVestingLocked : String := "Founder allocation is still vesting"

def publicDistributionLocked : String := "Public distribution allocation is still vesting"

/-- Whether an account is the one of the public distribution. -/
def AllocationLockContext.isRelease (context : AllocationLockContext) (address : Address) : Bool :=
  context.publicDistribution.any fun release => release.address == address

def assertAllocationLockOutflow (context : Option AllocationLockContext) (sender : Address)
    (balanceAtoms outflowAtoms : Int) : Except String Unit :=
  match context with
  | none => .ok ()
  | some context => do
    assertAtoms balanceAtoms
    assertAtoms outflowAtoms
    throwIf (context.isLiquidity sender = true) permanentLiquidityLocked
    (if context.isFounder sender then
      assertLockedRemains context sender balanceAtoms outflowAtoms founderVestingLocked
    else .ok ())
    if context.isRelease sender then
      assertLockedRemains context sender balanceAtoms outflowAtoms publicDistributionLocked
    else .ok ()

/-! ### Vesting -/

theorem vestedAtoms_nonneg {elapsed cliff linear total : Int} (hlinear : 0 < linear)
    (htotal : 0 ≤ total) : 0 ≤ vestedAtoms elapsed cliff linear total := by
  rw [vestedAtoms]
  split
  · exact le_refl 0
  · exact Int.ediv_nonneg (Int.mul_nonneg htotal (by omega)) (by omega)

/-- Never more than everything is vested. -/
theorem vestedAtoms_le {elapsed cliff linear total : Int} (hlinear : 0 < linear)
    (htotal : 0 ≤ total) : vestedAtoms elapsed cliff linear total ≤ total := by
  rw [vestedAtoms]
  split
  · exact htotal
  · refine Int.ediv_le_of_le_mul hlinear ?_
    exact Int.mul_le_mul_of_nonneg_left (min_le_right _ _) htotal

/-- More is vested later. -/
theorem vestedAtoms_mono {elapsed elapsed' cliff linear total : Int} (hlinear : 0 < linear)
    (htotal : 0 ≤ total) (h : elapsed ≤ elapsed') :
    vestedAtoms elapsed cliff linear total ≤ vestedAtoms elapsed' cliff linear total := by
  by_cases hcliff : elapsed ≤ cliff
  · rw [vestedAtoms, if_pos hcliff]
    exact vestedAtoms_nonneg hlinear htotal
  · have hcliff' : ¬ elapsed' ≤ cliff := fun hle => hcliff (le_trans h hle)
    rw [vestedAtoms, if_neg hcliff, vestedAtoms, if_neg hcliff']
    refine Int.ediv_le_ediv hlinear (Int.mul_le_mul_of_nonneg_left ?_ htotal)
    exact min_le_min_right linear (by omega)

/-! ### What stays locked -/

/-- What stays locked of an account at a time, other than the permanent-liquidity one. -/
def GenesisConfig.lockedFloor (g : GenesisConfig) (timestampMs : Int) (address : Address) : Int :=
  let total := ((g.allocationOf address).map Allocation.amountAtoms).getD 0
  let elapsed := timestampMs - g.timestampMs
  if g.allocationLocks.any fun locks => locks.founderVesting == address then
    total - vestedAtoms elapsed founderVestingCliffMs founderVestingLinearMs total
  else
    match g.publicDistributionRelease with
    | none => 0
    | some release =>
      if address = release.address then
        total - vestedAtoms elapsed release.cliffMs release.linearMs total
      else 0

/-- A release vests over a positive time, and its account is neither locked one. -/
theorem releaseBounds {g : GenesisConfig} (hg : validatePublicDistributionRelease g = .ok ())
    {release : PublicDistributionRelease} (hrelease : g.publicDistributionRelease = some release) :
    0 ≤ release.cliffMs ∧ 0 < release.linearMs ∧
      ∀ locks, g.allocationLocks = some locks →
        release.address ≠ locks.founderVesting ∧ release.address ≠ locks.permanentLiquidity := by
  rw [validatePublicDistributionRelease, hrelease] at hg
  simp only [unit_bind_eq_ok, throwIf_eq_ok, not_exists, not_and, not_or] at hg
  obtain ⟨-, -, -, hlocks, hg⟩ := hg
  split at hg
  · cases hg
  · simp only [assertScheduleBound, unit_bind_eq_ok, throwIf_eq_ok, not_or, not_lt] at hg
    have hlinear := hg.2.1.2.1
    rw [minLinearMs] at hlinear
    exact ⟨hg.1.2.1, by omega, hlocks⟩

theorem requireAllocation_eq_ok {g : GenesisConfig} {address : Address} {message : String}
    {amountAtoms : Int} (h : requireAllocation g address message = .ok amountAtoms) :
    ((g.allocationOf address).map Allocation.amountAtoms).getD 0 = amountAtoms ∧
      0 ≤ amountAtoms ∧ amountAtoms ≤ maxSupplyAtoms := by
  rw [requireAllocation] at h
  split at h
  · cases h
  · next allocation hallocation =>
    rw [assertAtoms, throwIf_bind_eq_ok, Except.ok.injEq, not_or, not_or, not_lt, not_lt] at h
    rw [hallocation, ← h.2]
    exact ⟨rfl, h.1.2⟩

/-- The terms that a context holds. -/
structure AllocationLockContext.Terms (g : GenesisConfig) (timestampMs : Int)
    (context : AllocationLockContext) : Prop where
  locks : context.locks = g.allocationLocks
  genesis : context.genesisTimestampMs = g.timestampMs
  block : context.blockTimestampMs = timestampMs
  times : (IsSafeInteger g.timestampMs ∧ 0 ≤ g.timestampMs) ∧ IsSafeInteger timestampMs ∧
    0 ≤ timestampMs
  founder : ∀ locks, g.allocationLocks = some locks →
    ((g.allocationOf locks.founderVesting).map Allocation.amountAtoms).getD 0 =
        context.founderAllocationAtoms ∧
      0 ≤ context.founderAllocationAtoms ∧ context.founderAllocationAtoms ≤ maxSupplyAtoms
  release : publicDistributionOf g = .ok context.publicDistribution

theorem allocationLockContext_eq_ok {g : GenesisConfig} {timestampMs : Int}
    {context : AllocationLockContext}
    (h : allocationLockContext g timestampMs = .ok (some context)) : context.Terms g timestampMs := by
  rw [allocationLockContext] at h
  split at h
  · cases h
  · simp only [assertTimestamp, throwIf_eq_ok, not_or, not_not, not_lt, bind_eq_ok,
      Except.ok.injEq, Option.some.injEq] at h
    obtain ⟨_, hblock, _, hgenesis, total, htotal, release, hrelease, rfl⟩ := h
    refine ⟨rfl, rfl, rfl, ⟨hgenesis, hblock⟩, fun locks hlocks => ?_, hrelease⟩
    rw [founderAllocationOf, hlocks] at htotal
    exact requireAllocation_eq_ok htotal

theorem allocationLockContext_eq_none {g : GenesisConfig} {timestampMs : Int}
    (h : allocationLockContext g timestampMs = .ok none) :
    g.allocationLocks = none ∧ g.publicDistributionRelease = none := by
  rw [allocationLockContext] at h
  split at h
  · assumption
  · simp only [bind_eq_ok, Except.ok.injEq, reduceCtorEq, and_false, exists_false] at h

/-- The founder and the permanent-liquidity accounts differ. -/
theorem founderVesting_ne_permanentLiquidity {g : GenesisConfig}
    (hg : validateAllocationLocks g = .ok ()) {locks : AllocationLocks}
    (hlocks : g.allocationLocks = some locks) :
    locks.founderVesting ≠ locks.permanentLiquidity := by
  rw [validateAllocationLocks, hlocks] at hg
  simp only [unit_bind_eq_ok, throwIf_eq_ok] at hg
  exact hg.2.2.1

theorem AllocationLockContext.Terms.release_eq {g : GenesisConfig} {timestampMs : Int}
    {context : AllocationLockContext} (h : context.Terms g timestampMs)
    {state : PublicDistributionLockState} (hstate : context.publicDistribution = some state) :
    ∃ release, g.publicDistributionRelease = some release ∧ state.address = release.address ∧
      state.cliffMs = release.cliffMs ∧ state.linearMs = release.linearMs ∧
      ((g.allocationOf release.address).map Allocation.amountAtoms).getD 0 = state.allocationAtoms ∧
      0 ≤ state.allocationAtoms ∧ state.allocationAtoms ≤ maxSupplyAtoms := by
  have hof := h.release
  rw [hstate, publicDistributionOf] at hof
  split at hof
  · cases hof
  · next release hrelease =>
    obtain ⟨total, htotal, hof⟩ := bind_eq_ok.mp hof
    obtain rfl := Option.some.inj (Except.ok.inj hof)
    exact ⟨release, hrelease, rfl, rfl, rfl, requireAllocation_eq_ok htotal⟩

theorem isSafeInteger_of_le {x : Int} (h : 0 ≤ x) (hle : x ≤ maxSupplyAtoms) : IsSafeInteger x := by
  rw [maxSupplyAtoms] at hle
  rw [IsSafeInteger, maxSafeInteger]
  omega

theorem assertAtoms_eq_ok {value : Int} :
    assertAtoms value = .ok () ↔ 0 ≤ value ∧ value ≤ maxSupplyAtoms := by
  rw [assertAtoms, throwIf_eq_ok, not_or, not_or, not_not, not_lt, not_lt]
  exact ⟨fun h => h.2, fun h => ⟨isSafeInteger_of_le h.1 h.2, h⟩⟩

section

variable {g : GenesisConfig} {timestampMs : Int} {context : AllocationLockContext} {a : Address}

private theorem linearCliffVestedAtoms_eq {elapsed cliff linear total : Int} (hcliff : 0 ≤ cliff)
    (hlinear : 0 < linear) (htotal : 0 ≤ total) :
    linearCliffVestedAtoms elapsed cliff linear total =
      .ok (vestedAtoms elapsed cliff linear total) := by
  rw [linearCliffVestedAtoms, throwIf_of_not (by omega)]
  rfl

private theorem founderLocked_eq {genesisTimestampMs blockTimestampMs total : Int}
    (hgenesis : IsSafeInteger genesisTimestampMs ∧ 0 ≤ genesisTimestampMs)
    (hblock : IsSafeInteger blockTimestampMs ∧ 0 ≤ blockTimestampMs)
    (htotal : 0 ≤ total ∧ total ≤ maxSupplyAtoms) :
    founderLockedAtomsAtTimestamp genesisTimestampMs blockTimestampMs total =
      .ok (total - vestedAtoms (blockTimestampMs - genesisTimestampMs) founderVestingCliffMs
        founderVestingLinearMs total) := by
  have hlinear : 0 < founderVestingLinearMs := by decide
  have hnonneg : 0 ≤ vestedAtoms (blockTimestampMs - genesisTimestampMs) founderVestingCliffMs
    founderVestingLinearMs total := vestedAtoms_nonneg hlinear htotal.1
  have hle : vestedAtoms (blockTimestampMs - genesisTimestampMs) founderVestingCliffMs
    founderVestingLinearMs total ≤ total := vestedAtoms_le hlinear htotal.1
  have htimes : assertTimestamp genesisTimestampMs "genesis timestamp" = .ok () ∧
      assertTimestamp blockTimestampMs "block timestamp" = .ok () :=
    ⟨throwIf_of_not (by rw [not_or, not_not, not_lt]; exact hgenesis),
      throwIf_of_not (by rw [not_or, not_not, not_lt]; exact hblock)⟩
  rw [founderLockedAtomsAtTimestamp, founderVestedAtomsAtTimestamp, htimes.1, ok_bind, htimes.2,
    ok_bind, assertAtoms_eq_ok.mpr htotal, ok_bind,
    linearCliffVestedAtoms_eq (by decide) hlinear htotal.1, ok_bind, throwIf_of_not]
  · rfl
  · rw [not_or, not_or, not_not, not_lt, not_lt]
    exact ⟨isSafeInteger_of_le hnonneg (by omega), hnonneg, hle⟩

private theorem publicLocked_eq {state : PublicDistributionLockState} (hcliff : 0 ≤ state.cliffMs)
    (hlinear : 0 < state.linearMs)
    (htotal : 0 ≤ state.allocationAtoms ∧ state.allocationAtoms ≤ maxSupplyAtoms) :
    publicLockedAtoms context state =
      .ok (state.allocationAtoms - vestedAtoms (context.blockTimestampMs - context.genesisTimestampMs)
        state.cliffMs state.linearMs state.allocationAtoms) := by
  have hnonneg : 0 ≤ vestedAtoms (context.blockTimestampMs - context.genesisTimestampMs)
    state.cliffMs state.linearMs state.allocationAtoms := vestedAtoms_nonneg hlinear htotal.1
  have hle : vestedAtoms (context.blockTimestampMs - context.genesisTimestampMs) state.cliffMs
    state.linearMs state.allocationAtoms ≤ state.allocationAtoms := vestedAtoms_le hlinear htotal.1
  rw [publicLockedAtoms, linearCliffVestedAtoms_eq hcliff hlinear htotal.1, ok_bind]
  dsimp only
  rw [throwIf_of_not]
  · rfl
  · rw [not_or, not_or, not_not, not_lt, not_lt]
    exact ⟨isSafeInteger_of_le (by omega) (by omega), by omega, by omega⟩

/-- The locked atoms of an account are its floor. -/
theorem lockedAtoms_eq (hg : validatePublicDistributionRelease g = .ok ())
    (h : context.Terms g timestampMs) (hliquidity : context.isLiquidity a = false)
    {balanceAtoms : Int} (hbalance : 0 ≤ balanceAtoms ∧ balanceAtoms ≤ maxSupplyAtoms) :
    lockedAtoms (some context) a balanceAtoms = .ok (g.lockedFloor timestampMs a) := by
  rw [lockedAtoms, assertAtoms_eq_ok.mpr hbalance, ok_bind]
  rw [hliquidity, if_neg Bool.false_ne_true, GenesisConfig.lockedFloor]
  have hfounder : context.isFounder a =
      g.allocationLocks.any fun locks => locks.founderVesting == a := by
    rw [AllocationLockContext.isFounder, h.locks]
  rw [hfounder]
  split
  · next hany =>
    obtain ⟨locks, hlocks, haddress⟩ := (Option.any_eq_true _ _).mp hany
    obtain ⟨htotal, hbounds⟩ := h.founder locks hlocks
    rw [← eq_of_beq haddress, htotal, h.genesis, h.block]
    exact founderLocked_eq h.times.1 h.times.2 hbounds
  · rw [releaseLockedAtoms]
    cases hstate : context.publicDistribution with
    | none =>
      have hnone : g.publicDistributionRelease = none := by
        have hof := h.release
        rw [hstate, publicDistributionOf] at hof
        split at hof
        · assumption
        · obtain ⟨total, -, hof⟩ := bind_eq_ok.mp hof
          cases hof
      rw [hnone]
    | some state =>
      obtain ⟨release, hrelease, haddress, hcliff, hlinear, htotal, hbounds⟩ := h.release_eq hstate
      obtain ⟨hcliff', hlinear', -⟩ := releaseBounds hg hrelease
      rw [hrelease]
      dsimp only
      rw [haddress]
      split
      · next heq =>
        rw [publicLocked_eq (hcliff ▸ hcliff') (hlinear ▸ hlinear') hbounds, h.genesis, h.block,
          hcliff, hlinear, heq, htotal]
      · rfl

/-- An accepted debit leaves the floor of its account, and none leaves the permanent-liquidity one. -/
theorem assertAllocationLockOutflow_eq_ok (hg : validatePublicDistributionRelease g = .ok ())
    (h : context.Terms g timestampMs) {balanceAtoms outflowAtoms : Int}
    (hcovered : outflowAtoms ≤ balanceAtoms)
    (hcheck : assertAllocationLockOutflow (some context) a balanceAtoms outflowAtoms = .ok ()) :
    context.isLiquidity a = false ∧ g.lockedFloor timestampMs a ≤ balanceAtoms - outflowAtoms := by
  rw [assertAllocationLockOutflow] at hcheck
  simp only [unit_bind_eq_ok, throwIf_eq_ok, Bool.not_eq_true, assertAtoms_eq_ok] at hcheck
  obtain ⟨hbalance, -, hliquidity, hfounder, hrelease⟩ := hcheck
  refine ⟨hliquidity, ?_⟩
  have hremains : ∀ message, assertLockedRemains context a balanceAtoms outflowAtoms message = .ok () →
      g.lockedFloor timestampMs a ≤ balanceAtoms - outflowAtoms := by
    intro message hremains
    rw [assertLockedRemains, lockedAtoms_eq hg h hliquidity hbalance, ok_bind, throwIf_eq_ok,
      not_lt] at hremains
    exact hremains
  split at hfounder
  · exact hremains _ hfounder
  · next hnot =>
    split at hrelease
    · exact hremains _ hrelease
    · next hnot' =>
      -- neither account: nothing is locked
      have hfloor := lockedAtoms_eq hg h hliquidity hbalance
      rw [lockedAtoms, assertAtoms_eq_ok.mpr hbalance, ok_bind, hliquidity,
        if_neg Bool.false_ne_true, if_neg hnot, releaseLockedAtoms] at hfloor
      have hzero : g.lockedFloor timestampMs a = 0 := by
        rw [AllocationLockContext.isRelease] at hnot'
        cases hstate : context.publicDistribution with
        | none =>
          rw [hstate] at hfloor
          exact (Except.ok.inj hfloor).symm
        | some state =>
          rw [hstate] at hfloor hnot'
          rw [Option.any_some, beq_iff_eq] at hnot'
          dsimp only at hfloor
          rw [if_neg (Ne.symm hnot')] at hfloor
          exact (Except.ok.inj hfloor).symm
      omega

theorem lockedFloor_anti (hg : validatePublicDistributionRelease g = .ok ())
    (hallocations : ∀ allocation ∈ g.allocations, 0 ≤ allocation.amountAtoms) {timestampMs' : Int}
    (hle : timestampMs ≤ timestampMs') (a : Address) :
    g.lockedFloor timestampMs' a ≤ g.lockedFloor timestampMs a := by
  have htotal : 0 ≤ ((g.allocationOf a).map Allocation.amountAtoms).getD 0 := by
    cases hof : g.allocationOf a with
    | none => exact le_refl 0
    | some allocation => exact hallocations allocation (List.mem_of_find?_eq_some hof)
  have helapsed : timestampMs - g.timestampMs ≤ timestampMs' - g.timestampMs := by omega
  rw [GenesisConfig.lockedFloor, GenesisConfig.lockedFloor]
  split
  · have hmono := @vestedAtoms_mono _ _ founderVestingCliffMs _ _ (by decide : 0 < founderVestingLinearMs)
      htotal helapsed
    omega
  · split
    · exact le_refl 0
    · next release hrelease =>
      obtain ⟨-, hlinear, -⟩ := releaseBounds hg hrelease
      split
      · have hmono := @vestedAtoms_mono _ _ release.cliffMs _ _ hlinear htotal helapsed
        omega
      · exact le_refl 0

end

end ZyronChain
