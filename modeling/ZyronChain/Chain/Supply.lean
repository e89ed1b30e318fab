import ZyronChain.Chain.Ledger

/-!
# Conservation of the supply

Along every run the balances add up to the genesis allocations less the fees that were burned.

## Main results

* `Chain.supply_conserved`.
* `Chain.queries_exact` : what the chain answers about accounts and the supply.
-/

namespace ZyronChain

open Checks LedgerState List

section

variable [Crypto]

def burnedBy (g : GenesisConfig) (steps : List (BlockSlot × Transaction)) : Int :=
  (steps.map fun step => burnedAtoms step.2 (slotFee g step.1)).sum

variable {g : GenesisConfig} {K : List SemanticKey} {G : Governance} {L : LedgerState}

/-! ### One transaction, and every run -/

/-- A transaction burns what of its fee is not credited to the producer. -/
theorem TxStep.total {slot : BlockSlot} {tx : Transaction} {L' : LedgerState}
    (h : TxStep g slot tx G L L') : L'.total = L.total - burnedAtoms tx (slotFee g slot) := by
  obtain ⟨context, seen, hfits, -, happly⟩ := h
  rw [← hfits.fee]
  exact total_apply happly

theorem TxStep.transfer_balance {slot : BlockSlot} {tx : Transaction} {L' : LedgerState}
    (h : TxStep g slot tx G L L') {receiver : Address} {amountAtoms : Int}
    (hbody : tx.body = .transfer receiver amountAtoms) (a : Address) :
    L'.balance a = L.balance a + transferDelta tx receiver amountAtoms (slotFee g slot) a := by
  obtain ⟨context, seen, hfits, -, happly⟩ := h
  rw [← hfits.fee]
  rcases apply_eq_ok happly with ⟨receiver', amountAtoms', hbody', -, heffect⟩ | ⟨s, hs, -⟩ |
    ⟨hgovernance, -⟩
  · rw [hbody, TransactionBody.transfer.injEq] at hbody'
    obtain ⟨rfl, rfl⟩ := hbody'
    exact heffect.balance a
  · rw [settlementOf, hbody] at hs
    cases hs
  · rw [IsGovernance, hbody] at hgovernance
    exact hgovernance.elim

theorem Applied.total {G₀ : Governance} {L₀ : LedgerState} {steps : List (BlockSlot × Transaction)}
    (h : Applied g G₀ L₀ steps G L) : L.total = L₀.total - burnedBy g steps := by
  induction h with
  | nil => simp [burnedBy]
  | concat _ hstep ih =>
    rw [hstep.total, ih, burnedBy, burnedBy, map_append, sum_append, map_singleton, sum_singleton]
    dsimp only
    omega

theorem LedgerAfter.total {steps : List (BlockSlot × Transaction)} (h : LedgerAfter g steps G L) :
    L.total = allocatedAtoms g.allocations - burnedBy g steps := by
  obtain ⟨L₀, hL₀, happlied⟩ := h
  rw [happlied.total, (fromGenesis_eq_ok hL₀).total]

namespace Chain

variable {blocks : List (Block × Int)} {c₀ c : Chain}

theorem Follows.avoids_overflow (hK : KeysDistinct K) (h : c.Follows K g blocks L)
    {height timestampMs : Int} {producer : Option Address}
    (hproducer : ∀ p, producer = some p → IsAddress p) {context : BlockContext}
    {working working' : Working}
    (hstart : c.startBlock height timestampMs producer = .ok (context, working))
    {before : List Transaction} (hbefore : applyTransactions context before working = .ok working')
    {tx : Transaction} (hcheck : checkTransaction context working'.seen working'.cursors tx = .ok ())
    (hkeys : ∀ k ∈ context.keys (before ++ [tx]), k ∈ K) :
    applyTransaction context working'.transition tx ≠ .error balanceOverflow := by
  obtain ⟨slot, hfits, -, -, ⟨L', -, htracks⟩ | ⟨hnone, -⟩⟩ := h.underWay hK hproducer hstart
    hbefore fun k hk => hkeys k (BlockContext.keys_subset hk)
  · refine htracks.applyTransaction_avoids hK hfits (wellFormed_of_check hcheck) fun k hk => ?_
    rw [← hfits.fee, ← hfits.genesis] at hk
    exact hkeys k (BlockContext.mem_keys (mem_append_right _ (mem_singleton_self tx)) hk)
  · rw [hnone, applyTransaction]
    exact fun heq => absurd (Except.error.inj heq) (by decide)

/-- Along every run the balances add up to the genesis allocations less the fees that were burned:
of a transfer the whole fee, or what is left of it after the share that its producer is credited.
Every balance stays in range, and no transaction that a block under way applies overflows one. -/
theorem supply_conserved (hcreate : create g = .ok c₀) (hrun : c₀.acceptBlocks blocks = .ok c) :
    (((∃ L, c.Holds L ∧ LedgerAfter g (runSteps blocks) c.governance L ∧
          L.total = allocatedAtoms g.allocations - burnedBy g (runSteps blocks) ∧
          ∀ a, 0 ≤ L.balance a ∧ L.balance a ≤ maxSupplyAtoms) ∧
        ∀ before slot tx after, runSteps blocks = before ++ (slot, tx) :: after →
          ∃ G₁ L₁ L₂, LedgerAfter g before G₁ L₁ ∧
            LedgerAfter g (before ++ [(slot, tx)]) (G₁.record tx) L₂ ∧
            L₂.total = L₁.total - burnedAtoms tx (slotFee g slot) ∧
            ∀ receiver amountAtoms, tx.body = .transfer receiver amountAtoms → ∀ a,
              L₂.balance a =
                L₁.balance a + transferDelta tx receiver amountAtoms (slotFee g slot) a) ∨
      ByteCollision (SparseMerkleState.keyEncodings ((runKeys g blocks).map SemanticKey.text))) ∧
    ∀ height timestampMs producer context working before working' tx,
      (∀ p, producer = some p → IsAddress p) →
      c.startBlock height timestampMs producer = .ok (context, working) →
      applyTransactions context before working = .ok working' →
      checkTransaction context working'.seen working'.cursors tx = .ok () →
      applyTransaction context working'.transition tx ≠ .error balanceOverflow ∨
        ByteCollision (SparseMerkleState.keyEncodings
          ((runKeys g blocks ++ context.keys (before ++ [tx])).map SemanticKey.text)) := by
  constructor
  · refine (keysDistinct_or_collision (runKeys g blocks)).imp_left fun hK => ?_
    obtain ⟨L, hfollows⟩ := follows hK (fun _ hk => hk) hcreate hrun
    refine ⟨⟨L, hfollows.tracks.holds hK hfollows.governed.wellFormed, hfollows.after,
      hfollows.after.total, fun a => ⟨hfollows.tracks.valid.balance a,
        hfollows.tracks.valid.balance_le a⟩⟩, fun before slot tx after hsteps => ?_⟩
    obtain ⟨L₀, hL₀, happlied⟩ := hfollows.after
    rw [hsteps, ← singleton_append, ← append_assoc] at happlied
    obtain ⟨_, L₂, hfirst, -⟩ := happlied.of_append
    obtain ⟨G₁, L₁, hbefore, hstep, rfl⟩ := hfirst.of_concat
    exact ⟨G₁, L₁, L₂, ⟨L₀, hL₀, hbefore⟩, ⟨L₀, hL₀, hfirst⟩, hstep.total,
      fun receiver amountAtoms hbody a => hstep.transfer_balance hbody a⟩
  · intro height timestampMs producer context working before working' tx hproducer hstart hbefore
      hcheck
    refine (keysDistinct_or_collision _).imp_left fun hK => ?_
    obtain ⟨L, hfollows⟩ := follows hK (fun k hk => mem_append_left _ hk) hcreate hrun
    exact hfollows.avoids_overflow hK hproducer hstart hbefore hcheck
      fun k hk => mem_append_right _ hk

/-- Whether it keeps a ledger or an authenticated state, a chain answers with the balances, the nonces
and the supply of the ledger after its blocks. -/
theorem queries_exact (hcreate : create g = .ok c₀) (hrun : c₀.acceptBlocks blocks = .ok c)
    (a : Address) :
    (∃ L, LedgerAfter g (runSteps blocks) c.governance L ∧ c.balance a = .ok (L.balance a) ∧
        c.nonce a = .ok (L.nonce a) ∧ (c.stateV2 = none → c.getState = .ok L) ∧
        ∀ L', c.getState = .ok L' → L' = L ∧ c.totalSupplyAtoms =
          .ok (allocatedAtoms g.allocations - burnedBy g (runSteps blocks))) ∨
      ByteCollision (SparseMerkleState.keyEncodings
        ((.account a :: runKeys g blocks).map SemanticKey.text)) := by
  refine (keysDistinct_or_collision (.account a :: runKeys g blocks)).imp_left fun hK => ?_
  obtain ⟨L, h⟩ := follows hK (fun _ hk => mem_cons_of_mem _ hk) hcreate hrun
  refine ⟨L, h.after, h.tracks.balance mem_cons_self, h.tracks.nonce mem_cons_self, fun hs => ?_,
    fun L' hL' => ?_⟩
  · rcases h.tracks.form with hform | ⟨s, keys, hform⟩
    · rw [getState, hform.state]
    · rw [hform.stateV2] at hs
      cases hs
  · have hread : c.legacyStateForTransition = .ok L' := by
      rw [legacyStateForTransition, ← hL', getState]
      rcases h.tracks.form with hform | ⟨s, keys, hform⟩
      · rw [hform.state]
      · rw [hform.state, hform.stateV2]
    obtain rfl := h.tracks.legacyStateForTransition_eq_ok h.governed.wellFormed hread
    rw [Chain.totalSupplyAtoms, hL', ok_bind, totalSupplyAtoms_eq h.tracks.valid, h.after.total]
    exact ⟨rfl, rfl⟩

end Chain

end

attribute [local instance] OneValidator.oneCrypto

/-- The run of `OneValidator` burns nothing. -/
theorem supply_conserved_oneValidator :
    OneValidator.start.acceptBlocks [(OneValidator.block, 1)] = .ok OneValidator.next ∧
      ((∃ L, OneValidator.next.Holds L ∧ L.total = allocatedAtoms OneValidator.genesis.allocations) ∨
        ByteCollision (SparseMerkleState.keyEncodings
          ((runKeys OneValidator.genesis [(OneValidator.block, 1)]).map SemanticKey.text))) := by
  refine ⟨OneValidator.acceptBlocks_block,
    (Chain.supply_conserved OneValidator.create_genesis OneValidator.acceptBlocks_block).1.imp_left ?_⟩
  rintro ⟨⟨L, hholds, -, htotal, -⟩, -⟩
  exact ⟨L, hholds, htotal.trans (sub_zero _)⟩

/-- The supply of `OneValidator` after its block. -/
theorem queries_exact_oneValidator :
    OneValidator.next.totalSupplyAtoms = .ok (allocatedAtoms OneValidator.genesis.allocations) ∨
      ByteCollision (SparseMerkleState.keyEncodings ((.account OneValidator.address ::
        runKeys OneValidator.genesis [(OneValidator.block, 1)]).map SemanticKey.text)) := by
  refine (Chain.queries_exact OneValidator.create_genesis OneValidator.acceptBlocks_block
    OneValidator.address).imp_left ?_
  rintro ⟨L, -, -, -, hstate, hsupply⟩
  exact (hsupply L (hstate rfl)).2.trans (congrArg Except.ok (sub_zero _))

end ZyronChain
