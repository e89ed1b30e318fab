import ZyronChain.Chain.Ledger

/-!
# Allocation locks along a run

A lock is checked when its account is debited, at the time of the block that debits it.  Less is
locked later, so the check holds the balance above the lock in every later block as well.

## Main results

* `TxStep.le_balance_or_debit` : an account that loses atoms was debited, and its lock was checked.
* `Chain.allocation_locks` : the locks hold after every block.
-/

namespace ZyronChain

open Checks LedgerState List

section

variable [Crypto]

variable {g : GenesisConfig} {G G' : Governance} {L L' : LedgerState} {slot : BlockSlot}
  {tx : Transaction}

/-! ### One transaction -/

/-- An account that loses atoms was debited, and its lock was checked. -/
theorem TxStep.le_balance_or_debit (h : TxStep g slot tx G L L') (a : Address) :
    L.balance a ≤ L'.balance a ∨
      ∃ locks outflowAtoms, allocationLockContext g slot.timestampMs = .ok locks ∧
        assertAllocationLockOutflow locks a (L.balance a) outflowAtoms = .ok () ∧
        outflowAtoms ≤ L.balance a ∧ L.balance a - outflowAtoms ≤ L'.balance a := by
  have htx := h.wellFormed
  obtain ⟨context, seen, hfits, -, happly⟩ := h
  rcases apply_eq_ok happly with ⟨receiver, amountAtoms, hbody, -, heffect⟩ | ⟨s, -, heffect⟩ |
    ⟨-, heffect⟩
  · have hfields := htx.body
    rw [Transaction.BodyWellFormed, hbody] at hfields
    have hreceived : 0 ≤ amountAt receiver amountAtoms a := amountAt_nonneg (le_of_lt hfields.2.1.1)
    have hshare : 0 ≤ amountAt (producerOf context.fee) (producerAtoms tx.feeAtoms context.fee) a :=
      amountAt_nonneg heffect.share
    have hbalance := heffect.balance a
    rw [transferDelta] at hbalance
    by_cases hsender : tx.sender = a
    · subst hsender
      rw [show amountAt tx.sender (-(amountAtoms + tx.feeAtoms)) tx.sender =
        -(amountAtoms + tx.feeAtoms) from if_pos rfl] at hbalance
      exact .inr ⟨_, _, hfits.locks, heffect.unlocked, heffect.covered, by omega⟩
    · rw [show amountAt tx.sender (-(amountAtoms + tx.feeAtoms)) a = 0 from if_neg hsender] at hbalance
      exact .inl (by omega)
  · have hpaid := paidTo_nonneg (fun entry he => (heffect.receivers entry he).2) a
    have hbalance := heffect.balance a
    rw [settlementDelta] at hbalance
    by_cases hpool : g.activityPool = a
    · subst hpool
      rw [show amountAt g.activityPool (-payout s.entries) g.activityPool = -payout s.entries from
        if_pos rfl] at hbalance
      exact .inr ⟨_, _, hfits.locks, heffect.unlocked, heffect.covered, by omega⟩
    · rw [show amountAt g.activityPool (-payout s.entries) a = 0 from if_neg hpool] at hbalance
      exact .inl (by omega)
  · exact .inl (le_of_eq (heffect.balance a).symm)

/-- A transaction leaves every account above its lock at the time of the block. -/
theorem TxStep.floor_le (h : TxStep g slot tx G L L') (hg : g.Valid) (hL : L.Valid) {a : Address}
    (hfloor : g.lockedFloor slot.timestampMs a ≤ L.balance a) :
    g.lockedFloor slot.timestampMs a ≤ L'.balance a := by
  rcases h.le_balance_or_debit a with hle | ⟨locks, outflowAtoms, hlocks, hcheck, hcovered, hle⟩
  · omega
  · cases locks with
    | some context =>
      have hremains := (assertAllocationLockOutflow_eq_ok hg.release
        (allocationLockContext_eq_ok hlocks) hcovered hcheck).2
      omega
    | none =>
      -- without a context nothing is locked
      obtain ⟨hnone, hnone'⟩ := allocationLockContext_eq_none hlocks
      have hzero : g.lockedFloor slot.timestampMs a = 0 := by
        rw [GenesisConfig.lockedFloor, hnone, hnone']
        rfl
      have hbalance := hL.balance a
      omega

/-- A transaction takes nothing from the permanent-liquidity account. -/
theorem TxStep.liquidity_le (h : TxStep g slot tx G L L') (hg : g.Valid) {locks : AllocationLocks}
    (hlocks : g.allocationLocks = some locks) :
    L.balance locks.permanentLiquidity ≤ L'.balance locks.permanentLiquidity := by
  rcases h.le_balance_or_debit locks.permanentLiquidity with hle |
    ⟨context, outflowAtoms, hcontext, hcheck, hcovered, -⟩
  · exact hle
  · cases context with
    | some context =>
      have hterms := allocationLockContext_eq_ok hcontext
      have hliquidity := (assertAllocationLockOutflow_eq_ok hg.release hterms hcovered hcheck).1
      rw [AllocationLockContext.isLiquidity, hterms.locks, hlocks] at hliquidity
      simp at hliquidity
    | none =>
      rw [(allocationLockContext_eq_none hcontext).1] at hlocks
      cases hlocks

/-! ### Blocks and runs -/

variable {steps : List (BlockSlot × Transaction)}

theorem Applied.floor_le (hg : g.Valid) {timestampMs : Int} (h : Applied g G L steps G' L')
    (hL : L.Valid) (htime : ∀ step ∈ steps, step.1.timestampMs = timestampMs)
    (hfloor : ∀ a, g.lockedFloor timestampMs a ≤ L.balance a) :
    ∀ a, g.lockedFloor timestampMs a ≤ L'.balance a := by
  induction h with
  | nil => exact hfloor
  | concat hinit hstep ih =>
    rw [forall_mem_append, forall_mem_singleton] at htime
    intro a
    obtain ⟨htime, rfl⟩ := htime
    exact hstep.floor_le hg (hinit.valid hg hL) (ih htime a)

theorem Applied.liquidity_le (hg : g.Valid) (h : Applied g G L steps G' L')
    {locks : AllocationLocks} (hlocks : g.allocationLocks = some locks) :
    L.balance locks.permanentLiquidity ≤ L'.balance locks.permanentLiquidity := by
  induction h with
  | nil => exact le_refl _
  | concat _ hstep ih => exact le_trans ih (hstep.liquidity_le hg hlocks)

omit [Crypto] in
theorem lockedFloor_le_allocatedTo (hg : validatePublicDistributionRelease g = .ok ())
    (hallocations : ∀ allocation ∈ g.allocations, 0 ≤ allocation.amountAtoms) (timestampMs : Int)
    (a : Address) : g.lockedFloor timestampMs a ≤ allocatedTo g.allocations a := by
  have htotal : 0 ≤ ((g.allocationOf a).map Allocation.amountAtoms).getD 0 ∧
      ((g.allocationOf a).map Allocation.amountAtoms).getD 0 ≤ allocatedTo g.allocations a := by
    cases hof : g.allocationOf a with
    | none => exact ⟨le_refl 0, allocatedTo_nonneg hallocations a⟩
    | some allocation =>
      have hmem := mem_of_find?_eq_some hof
      rw [GenesisConfig.allocationOf] at hof
      have haddress := List.find?_some hof
      refine ⟨hallocations allocation hmem, single_le_sum (fun x hx => ?_) _
        (mem_map_of_mem (mem_filter.mpr ⟨hmem, haddress⟩))⟩
      obtain ⟨b, hb, rfl⟩ := mem_map.mp hx
      exact hallocations b (mem_filter.mp hb).1
  refine le_trans ?_ htotal.2
  rw [GenesisConfig.lockedFloor]
  split
  · have hvested := @vestedAtoms_nonneg (timestampMs - g.timestampMs) founderVestingCliffMs _ _
      (by decide : 0 < founderVestingLinearMs) htotal.1
    omega
  · split
    · exact htotal.1
    · next release hrelease =>
      obtain ⟨-, hlinear, -⟩ := releaseBounds hg hrelease
      split
      · have hvested := @vestedAtoms_nonneg (timestampMs - g.timestampMs) release.cliffMs _ _
          hlinear htotal.1
        omega
      · exact htotal.1

namespace Chain

variable {K : List SemanticKey} {blocks : List (Block × Int)} {c₀ c c' : Chain} {block : Block}
  {nowMs : Int}

theorem allocations_nonneg (hg : g.Valid) :
    ∀ allocation ∈ g.allocations, 0 ≤ allocation.amountAtoms := fun allocation hmem =>
  ((validateAllocations_eq_ok (by decide) hg.allocations).2.2 allocation hmem).2.2.2.2

/-- The accounts are above their locks at the time of the tip. -/
def AboveLocks (g : GenesisConfig) (c : Chain) (L : LedgerState) : Prop :=
  ∀ a, g.lockedFloor c.tip.header.timestampMs a ≤ L.balance a

theorem aboveLocks_create (hcreate : create g = .ok c₀) (hL : fromGenesis g = .ok L) :
    AboveLocks g c₀ L := by
  have hg := (governed_create hcreate).valid
  intro a
  rw [(fromGenesis_eq_ok hL).balance]
  exact lockedFloor_le_allocatedTo hg.release (allocations_nonneg hg) _ a

theorem AboveLocks.acceptBlock (h : AboveLocks g c L) (hg : g.Valid) (hL : L.Valid)
    (haccept : c.acceptBlock block nowMs = .ok c')
    (happlied : Applied g c.governance L (blockSteps block) c'.governance L') :
    AboveLocks g c' L' := by
  obtain ⟨⟨context, start, next, hreplays⟩, -, -, htip, -⟩ := replays_of_acceptBlock haccept
  have hlater := le_of_lt hreplays.proposal.timestamp_lt
  intro a
  rw [htip]
  refine happlied.floor_le hg hL (fun step hstep => ?_) (fun b => ?_) a
  · obtain ⟨tx, -, rfl⟩ := mem_map.mp hstep
    rfl
  · exact le_trans (lockedFloor_anti hg.release (allocations_nonneg hg) hlater b) (h b)

/-- After every block the founder and the public-distribution accounts hold what is still locked of
them at the time of the block, and the permanent-liquidity account holds no less than before. -/
theorem allocation_locks (hcreate : create g = .ok c₀) (hrun : c₀.acceptBlocks blocks = .ok c)
    (haccept : c.acceptBlock block nowMs = .ok c') :
    (∃ L L' context, c.Holds L ∧ c'.Holds L' ∧
        allocationLockContext g block.header.timestampMs = .ok context ∧
        (∀ locks, g.allocationLocks = some locks →
          L.balance locks.permanentLiquidity ≤ L'.balance locks.permanentLiquidity ∧
          ∃ locked, lockedAtoms context locks.founderVesting (L'.balance locks.founderVesting) =
            .ok locked ∧ locked ≤ L'.balance locks.founderVesting) ∧
        ∀ release, g.publicDistributionRelease = some release →
          ∃ locked, lockedAtoms context release.address (L'.balance release.address) = .ok locked ∧
            locked ≤ L'.balance release.address) ∨
      ByteCollision (SparseMerkleState.keyEncodings
        ((runKeys g (blocks ++ [(block, nowMs)])).map SemanticKey.text)) := by
  refine (keysDistinct_or_collision (runKeys g (blocks ++ [(block, nowMs)]))).imp_left fun hK => ?_
  have hkeys : ∀ k ∈ runKeys g blocks ++ blockKeys g block,
      k ∈ runKeys g (blocks ++ [(block, nowMs)]) := by
    rw [runKeys, runKeys, flatMap_append, append_assoc, flatMap_singleton]
    exact fun k hk => hk
  obtain ⟨L, hfollows, habove⟩ := follows_induction hK (P := AboveLocks g)
    (fun _ _ => aboveLocks_create)
    (fun _ _ _ _ _ _ _ hfollows habove haccept _ happlied => habove.acceptBlock hfollows.governed.valid
      hfollows.tracks.valid haccept happlied)
    (fun k hk => hkeys k (mem_append_left _ hk)) hcreate hrun
  obtain ⟨L', hfollows', happlied⟩ := hfollows.acceptBlock hK
    (fun k hk => hkeys k (mem_append_right _ hk)) haccept
  have hg := hfollows.governed.valid
  have habove' := habove.acceptBlock hg hfollows.tracks.valid haccept happlied
  obtain ⟨⟨replay, start, next, hreplays⟩, -, -, htip, -⟩ := replays_of_acceptBlock haccept
  have hcontext := (hreplays.fits hfollows.governed.genesis hfollows.governed.wellFormed).locks
  have hlocked : ∀ a, (∀ context, replay.locks = some context → context.isLiquidity a = false) →
      replay.locks ≠ none → ∃ locked, lockedAtoms replay.locks a (L'.balance a) = .ok locked ∧
        locked ≤ L'.balance a := by
    intro a hliquidity hsome
    cases hlocks : replay.locks with
    | none => exact absurd hlocks hsome
    | some context =>
      rw [hlocks] at hcontext
      have hfloor := habove' a
      rw [htip] at hfloor
      exact ⟨_, lockedAtoms_eq hg.release (allocationLockContext_eq_ok hcontext)
        (hliquidity context hlocks) ⟨hfollows'.tracks.valid.balance a,
          hfollows'.tracks.valid.balance_le a⟩, hfloor⟩
  refine ⟨L, L', replay.locks, hfollows.tracks.holds hK hfollows.governed.wellFormed,
    hfollows'.tracks.holds hK hfollows'.governed.wellFormed, hcontext, fun locks hlocks =>
      ⟨happlied.liquidity_le hg hlocks, hlocked _ (fun context hsome => ?_) fun hnone => ?_⟩,
    fun release hrelease => hlocked _ (fun context hsome => ?_) fun hnone => ?_⟩
  · rw [hsome] at hcontext
    rw [AllocationLockContext.isLiquidity, (allocationLockContext_eq_ok hcontext).locks, hlocks]
    exact beq_false_of_ne (founderVesting_ne_permanentLiquidity hg.locks hlocks).symm
  · rw [hnone] at hcontext
    rw [(allocationLockContext_eq_none hcontext).1] at hlocks
    cases hlocks
  · rw [hsome] at hcontext
    rw [AllocationLockContext.isLiquidity, (allocationLockContext_eq_ok hcontext).locks]
    cases hlocks : g.allocationLocks with
    | none => rfl
    | some locks =>
      exact beq_false_of_ne ((releaseBounds hg.release hrelease).2.2 locks hlocks).2.symm
  · rw [hnone] at hcontext
    rw [(allocationLockContext_eq_none hcontext).2] at hrelease
    cases hrelease

end Chain

end

attribute [local instance] OneValidator.oneCrypto

/-- The locked accounts of `OneValidator` after its block. -/
theorem allocation_locks_oneValidator :
    OneValidator.start.acceptBlock OneValidator.block 1 = .ok OneValidator.next ∧
      ((∃ L' context locked locked', OneValidator.next.Holds L' ∧
          allocationLockContext OneValidator.genesis 1 = .ok context ∧
          (lockedAtoms context OneValidator.founder (L'.balance OneValidator.founder) = .ok locked ∧
            locked ≤ L'.balance OneValidator.founder) ∧
          lockedAtoms context OneValidator.distribution (L'.balance OneValidator.distribution) =
            .ok locked' ∧ locked' ≤ L'.balance OneValidator.distribution) ∨
        ByteCollision (SparseMerkleState.keyEncodings
          ((runKeys OneValidator.genesis [(OneValidator.block, 1)]).map SemanticKey.text))) := by
  refine ⟨OneValidator.acceptBlock_block, (Chain.allocation_locks OneValidator.create_genesis
    (show OneValidator.start.acceptBlocks [] = .ok OneValidator.start from rfl)
    OneValidator.acceptBlock_block).imp_left ?_⟩
  rintro ⟨L, L', context, -, hholds, hcontext, hfounder, hrelease⟩
  obtain ⟨-, locked, hlocked⟩ := hfounder _ rfl
  obtain ⟨locked', hlocked'⟩ := hrelease _ rfl
  exact ⟨L', context, locked, locked', hholds, hcontext, hlocked, hlocked'⟩

end ZyronChain
