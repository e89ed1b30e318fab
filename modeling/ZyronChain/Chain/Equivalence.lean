import ZyronChain.Chain.Ledger

/-!
# The ledger and the authenticated state of a chain

At every point of every run the ledger and the authenticated state built from it take a transaction
alike, and the index of the keys is the one of the authenticated state.

## Main results

* `Chain.ledgers_agree` : a transaction succeeds on both or on neither, with the same outcome.
* `Chain.semantic_keys_exact` : the index holds the keys of the tree, so the view can be read back.
-/

namespace ZyronChain

open Checks List

section

variable [Crypto]

namespace Chain

variable {g : GenesisConfig} {blocks : List (Block × Int)} {c₀ c : Chain}

/-- Whatever a block under way applies a transaction to: on the ledger and on the authenticated state
built from it the transaction succeeds or fails alike, and it leaves the authenticated state built
from the new ledger and the new schedules. -/
theorem ledgers_agree (hcreate : create g = .ok c₀) (hrun : c₀.acceptBlocks blocks = .ok c)
    {height timestampMs : Int} {producer : Option Address}
    (hproducer : ∀ p, producer = some p → IsAddress p) {context : BlockContext}
    {working working' : Working}
    (hstart : c.startBlock height timestampMs producer = .ok (context, working))
    {before : List Transaction} (hbefore : applyTransactions context before working = .ok working')
    (hstate : working'.transition ≠ ⟨none, none⟩) {tx : Transaction}
    (hcheck : checkTransaction context working'.seen working'.cursors tx = .ok ()) :
    (∃ L s, working'.transition.Holds (c.governance.recordAll before) L ∧
        stateV2FromLedgerSnapshot L.snapshot (c.governance.recordAll before).snapshot = .ok s ∧
        ((∃ L', L.apply tx g.activityPool context.locks context.oracles context.fee = .ok L') ↔
          ∃ s', applyStateV2Transaction s tx g.activityPool context.locks context.oracles
            context.fee = .ok s') ∧
        ∀ L' s', L.apply tx g.activityPool context.locks context.oracles context.fee = .ok L' →
          applyStateV2Transaction s tx g.activityPool context.locks context.oracles context.fee =
            .ok s' →
          ∃ s'', stateV2FromLedgerSnapshot L'.snapshot
              ((c.governance.recordAll before).record tx).snapshot = .ok s'' ∧
            s'.root = s''.root) ∨
      ByteCollision (SparseMerkleState.keyEncodings
        ((runKeys g blocks ++ context.keys (before ++ [tx])).map SemanticKey.text)) := by
  refine (keysDistinct_or_collision (runKeys g blocks ++ context.keys (before ++ [tx]))).imp_left
    fun hK => ?_
  obtain ⟨L₁, hfollows⟩ := follows hK (fun k hk => mem_append_left _ hk) hcreate hrun
  obtain ⟨slot, hfits, hcursors, hG, hunderWay⟩ := hfollows.underWay hK hproducer hstart hbefore
    fun k hk => mem_append_right _ (BlockContext.keys_subset hk)
  obtain ⟨L, -, htracks⟩ := hunderWay.resolve_right fun h => hstate h.1
  obtain ⟨s, hs, hcommits⟩ := exists_stateV2FromLedgerSnapshot hK
    (fun k v hv => htracks.mem k (by rw [hv]; exact Option.some_ne_none v)) htracks.valid
    fun e he => (hG.protocol e he).2.1
  have hsim := apply_corresponds hK ⟨hcommits, htracks.valid.bounded⟩ (wellFormed_of_check hcheck)
    (fun k hk => mem_append_right _ (BlockContext.mem_keys
      (mem_append_right _ (mem_singleton_self tx)) (hfits.genesis ▸ hk))) context.locks
    context.oracles
  refine ⟨L, s, htracks.holds hK hG, hs, hsim.exists_ok_iff, fun L' s' hL' hs' => ?_⟩
  -- the step on the ledger is one of a block, so its ledger and schedules can be converted again
  rw [hcursors] at hcheck
  have hstep : TxStep g slot tx (c.governance.recordAll before) L L' :=
    ⟨context, _, hfits, hcheck, hL'⟩
  have hG' : ((c.governance.recordAll before).record tx).WellFormed g := by
    have hscheduled := scheduled_of_check hcheck
    rw [hfits.genesis] at hscheduled
    exact hG.record hscheduled
  obtain ⟨s₁, hs₁, hrepresents⟩ := hsim.of_ok hL'
  obtain rfl : s' = s₁ := Except.ok.inj (hs'.symm.trans hs₁)
  refine ⟨s', stateV2FromLedgerSnapshot_of_commits hK (hstep.valid hfollows.governed.valid htracks.valid)
    (fun k hk => ?_) hG' hrepresents.commits, rfl⟩
  rcases hstep.stateView.mp hk with hk | hk
  · refine mem_append_right _ (BlockContext.mem_keys
      (mem_append_right _ (mem_singleton_self tx)) ?_)
    rw [hfits.genesis, hfits.fee]
    exact mem_accessedKeys_of_indexed (hfits.fee ▸ hL') hk
  · exact htracks.mem k hk

end Chain

end

attribute [local instance] OneValidator.oneCrypto

/-- The update of `OneValidator`, in a block that starts after the genesis. -/
theorem ledgers_agree_oneValidator :
    OneValidator.start.acceptBlocks [] = .ok OneValidator.start ∧
      ((∃ L s, OneValidator.start.Holds L ∧
          stateV2FromLedgerSnapshot L.snapshot OneValidator.start.governance.snapshot = .ok s ∧
          ((∃ L', L.apply OneValidator.update OneValidator.genesis.activityPool
              OneValidator.context.locks OneValidator.context.oracles OneValidator.context.fee =
              .ok L') ↔
            ∃ s', applyStateV2Transaction s OneValidator.update OneValidator.genesis.activityPool
              OneValidator.context.locks OneValidator.context.oracles OneValidator.context.fee =
              .ok s')) ∨
        ByteCollision (SparseMerkleState.keyEncodings
          ((runKeys OneValidator.genesis [] ++ OneValidator.context.keys [OneValidator.update]).map
            SemanticKey.text))) := by
  have hstart : OneValidator.start.startBlock 1 1 (some OneValidator.address) =
      .ok (OneValidator.context, ⟨[], OneValidator.start.governance.scheduleCursors,
        ⟨some OneValidator.ledger, none⟩⟩) :=
    Chain.startBlock_eq_ok.mpr ⟨OneValidator.starts, rfl⟩
  have hproducer : ∀ p, some OneValidator.address = some p → IsAddress p := fun p hp =>
    Option.some.inj hp ▸ OneValidator.isAddress_address
  refine ⟨rfl, (Chain.ledgers_agree OneValidator.create_genesis rfl hproducer hstart
    (show applyTransactions OneValidator.context [] _ = .ok _ from rfl) (by simp)
    OneValidator.check).imp_left ?_⟩
  rintro ⟨L, s, hholds, hs, hagree, -⟩
  exact ⟨L, s, hholds, hs, hagree⟩

end ZyronChain
