import ZyronChain.Chain.Governance

/-!
# The replay of transactions, on either state

A block of protocol version 1 changes a ledger in memory, a block of a later version an authenticated
state.  Both stand for a ledger and its schedules, and a transaction of a block does the same to it.
-/

namespace ZyronChain

open Checks List LedgerState SortedMap

/-! ### The keys of a transaction -/

/-- The keys of `stateV2KeysForTransaction`. -/
def indexedKeys (tx : Transaction) (g : GenesisConfig) (producer : String) : List SemanticKey :=
  .account tx.sender :: match tx.body with
    | .transfer receiver _ =>
      .account receiver ::
        if producer = "GENESIS" ∨ g.feePolicy = none ∨ producerShare tx.feeAtoms ≤ 0 then []
        else [.account producer]
    | .activitySettlement epoch entries _ _ _ =>
      .activityEpoch epoch :: (entries.map (fun entry => .account entry.receiver) ++
        if g.launchProfile = some .fixedSupplyV1 then
          [.account activityWindowTimeAddress, .account activityWindowAmountAddress]
        else [])
    | .miningClaim .. => [.account miningTrackerAddress]
    | .validatorUpdate activationHeight _ _ _ => [.validatorSchedule activationHeight]
    | .activityOracleGovernance activationHeight _ _ _ =>
      [.activityOracleGovernance activationHeight]
    | .protocolUpgrade activationHeight _ _ => [.protocolSchedule activationHeight]

theorem stateV2KeysForTransaction_eq (tx : Transaction) (g : GenesisConfig) (producer : String) :
    stateV2KeysForTransaction tx g producer = (indexedKeys tx g producer).map SemanticKey.text := by
  rw [stateV2KeysForTransaction, indexedKeys, stateV2KeysForTransactionBody,
    stateV2TransactionKeyPreimages]
  cases tx.body with
  | transfer receiver amountAtoms => dsimp only; split <;> rfl
  | activitySettlement epoch entries receiptRoot oracleApprovals attestationExpiresAtMs =>
    dsimp only
    split
    · simp [SemanticKey.text]
    · simp [SemanticKey.text]
  | _ => rfl

def IsStored (L : LedgerState) (G : Governance) : SemanticKey → Prop
  | .account address => address ∈ L.accounts.keys
  | .activityEpoch epoch => epoch ∈ L.settledActivityEpochs.keys
  | .validatorSchedule height => height ∈ G.validatorSchedule.keys
  | .protocolSchedule height => height ∈ G.protocolSchedule.keys
  | .activityOracleGovernance height => height ∈ G.activityOracleGovernance.keys

theorem stateView_ne_none_iff {L : LedgerState} {G : Governance} {k : SemanticKey} :
    stateView L G k ≠ none ↔ IsStored L G k := by
  cases k <;>
    rw [stateView, IsStored, ne_eq, Option.map_eq_none_iff, get_eq_none_iff, not_not]

section

variable [Crypto]

variable {g : GenesisConfig} {L L' : LedgerState} {tx : Transaction} {pool : Address}
  {locks : Option AllocationLockContext} {oracles : ActivityOracleSet}
  {fee : Option FixedFeeApplication} {producer : Address}

variable {a : Address} {k : SemanticKey} {G₀ G' : Governance} {L₀ : LedgerState}
  {steps steps' : List (BlockSlot × Transaction)}

omit [Crypto] in
/-- The producer has an entry in the index exactly when a share of the fee is credited to it. -/
private theorem mem_feeAccounts (hproducer : producer ≠ "GENESIS")
    (hfee : fee = g.feePolicy.map fun policy => ⟨producer, policy.fixedTransferFeeAtoms⟩)
    {feeAtoms : Int} :
    a ∈ LedgerState.feeAccounts feeAtoms fee ↔ SemanticKey.account a ∈
      if producer = "GENESIS" ∨ g.feePolicy = none ∨ producerShare feeAtoms ≤ 0 then []
      else [SemanticKey.account producer] := by
  rw [hfee, LedgerState.feeAccounts]
  cases g.feePolicy with
  | none => simp [LedgerState.producerAtoms]
  | some policy =>
    change (a ∈ if 0 < producerShare feeAtoms then [producer] else []) ↔ _
    by_cases hshare : 0 < producerShare feeAtoms
    · rw [if_pos hshare, if_neg (by simp [hproducer, hshare])]
      simp
    · rw [if_neg hshare, if_pos (.inr (.inr (not_lt.mp hshare)))]
      simp

theorem mem_accounts_apply (hproducer : producer ≠ "GENESIS")
    (hfee : fee = g.feePolicy.map fun policy => ⟨producer, policy.fixedTransferFeeAtoms⟩)
    (horacles : oracles.launchProfile = g.launchProfile)
    (happly : L.apply tx pool locks oracles fee = .ok L') :
    a ∈ L'.accounts.keys ↔ .account a ∈ indexedKeys tx g producer ∨ a ∈ L.accounts.keys := by
  rw [indexedKeys]
  rcases apply_eq_ok happly with ⟨receiver, amountAtoms, hbody, -, heffect⟩ |
    ⟨s, hs, heffect⟩ | ⟨hgovernance, heffect⟩
  · rw [heffect.keys, hbody]
    simp only [mem_cons, SemanticKey.account.injEq, mem_feeAccounts hproducer hfee]
  · rw [heffect.keys, ← heffect.sender]
    rw [LedgerState.settlementOf] at hs
    cases hbody : tx.body with
    | activitySettlement epoch entries receiptRoot oracleApprovals attestationExpiresAtMs =>
      rw [hbody] at hs
      cases hs
      simp only [cons_append, mem_cons, mem_append, SemanticKey.account.injEq,
        reduceCtorEq, false_or, LedgerState.windowAccounts,
        ActivityOracleSet.activityRollingWindowEnforced, horacles]
      by_cases hprofile : g.launchProfile = some .fixedSupplyV1
      · simp [hprofile]
      · simp [hprofile]
    | _ =>
      rw [hbody] at hs
      cases hs
  · rw [heffect.keys]
    rw [LedgerState.IsGovernance] at hgovernance
    cases hbody : tx.body with
    | validatorUpdate | activityOracleGovernance | protocolUpgrade => simp
    | _ =>
      rw [hbody] at hgovernance
      exact hgovernance.elim

theorem mem_epochs_apply (happly : L.apply tx pool locks oracles fee = .ok L') {epoch : Int} :
    epoch ∈ L'.settledActivityEpochs.keys ↔
      .activityEpoch epoch ∈ indexedKeys tx g producer ∨ epoch ∈ L.settledActivityEpochs.keys := by
  rw [indexedKeys]
  rcases apply_eq_ok happly with ⟨receiver, amountAtoms, hbody, -, heffect⟩ |
    ⟨s, hs, heffect⟩ | ⟨hgovernance, heffect⟩
  · rw [heffect.epochs, hbody]
    dsimp only
    split <;> simp
  · rw [heffect.epochs, mem_keys_set]
    rw [LedgerState.settlementOf] at hs
    cases hbody : tx.body with
    | activitySettlement e entries receiptRoot oracleApprovals attestationExpiresAtMs =>
      rw [hbody] at hs
      cases hs
      dsimp only
      split <;> simp
    | _ =>
      rw [hbody] at hs
      cases hs
  · rw [heffect.epochs]
    rw [LedgerState.IsGovernance] at hgovernance
    cases hbody : tx.body with
    | validatorUpdate | activityOracleGovernance | protocolUpgrade => simp
    | _ =>
      rw [hbody] at hgovernance
      exact hgovernance.elim

omit [Crypto] in
private theorem isStored_record {G : Governance} (haccount : ∀ a, k ≠ .account a)
    (hepoch : ∀ e, k ≠ .activityEpoch e) :
    IsStored L' (G.record tx) k ↔ k ∈ indexedKeys tx g producer ∨ IsStored L G k := by
  rw [indexedKeys, Governance.record]
  cases k with
  | account a => exact absurd rfl (haccount a)
  | activityEpoch e => exact absurd rfl (hepoch e)
  | validatorSchedule height | protocolSchedule height | activityOracleGovernance height =>
    cases tx.body with
    | transfer | activitySettlement => dsimp only; split <;> simp [IsStored]
    | _ => simp [IsStored, mem_keys_set]

/-- A transaction adds to the state exactly the keys that the index adds. -/
theorem stateView_apply (hproducer : producer ≠ "GENESIS")
    (hfee : fee = g.feePolicy.map fun policy => ⟨producer, policy.fixedTransferFeeAtoms⟩)
    (horacles : oracles.launchProfile = g.launchProfile)
    (happly : L.apply tx pool locks oracles fee = .ok L') {G : Governance} :
    stateView L' (G.record tx) k ≠ none ↔
      k ∈ indexedKeys tx g producer ∨ stateView L G k ≠ none := by
  rw [stateView_ne_none_iff, stateView_ne_none_iff]
  cases k with
  | account a => exact mem_accounts_apply hproducer hfee horacles happly
  | activityEpoch e => exact mem_epochs_apply happly
  | validatorSchedule | protocolSchedule | activityOracleGovernance =>
    exact isStored_record nofun nofun

/-! ### Transactions on a ledger -/

/-- Where, when and by whom a block is produced. -/
structure BlockSlot where
  height : Int
  timestampMs : Int
  producer : Address
deriving DecidableEq, Repr

def Block.slot (block : Block) : BlockSlot :=
  ⟨block.header.height, block.header.timestampMs, block.header.proposer⟩

/-- The share of the producer of a block. -/
def slotFee (g : GenesisConfig) (slot : BlockSlot) : Option FixedFeeApplication :=
  g.feePolicy.map fun policy => ⟨slot.producer, policy.fixedTransferFeeAtoms⟩

/-- What a block reads of the genesis and the schedules. -/
structure BlockContext.Fits (g : GenesisConfig) (G : Governance) (slot : BlockSlot)
    (context : BlockContext) : Prop where
  genesis : context.genesis = g
  height : context.blockHeight = slot.height
  timestamp : context.blockTimestampMs = slot.timestampMs
  producer : IsAddress slot.producer
  oracles : context.oracles = G.oracleSetAt g slot.height
  locks : allocationLockContext g slot.timestampMs = .ok context.locks
  fee : context.fee = slotFee g slot

omit [Crypto] in
/-- The rolling window is enforced under the fixed-supply profile. -/
theorem BlockContext.Fits.rolling {slot : BlockSlot} {G : Governance} {context : BlockContext}
    (h : context.Fits g G slot) : context.oracles.activityRollingWindowEnforced =
      (g.launchProfile == some .fixedSupplyV1) := by
  rw [h.oracles]
  rfl

/-- A transaction of a block passes its checks and is applied to the ledger. -/
def TxStep (g : GenesisConfig) (slot : BlockSlot) (tx : Transaction) (G : Governance)
    (L L' : LedgerState) : Prop :=
  ∃ context seen, context.Fits g G slot ∧
    checkTransaction context seen G.scheduleCursors tx = .ok () ∧
    L.apply tx g.activityPool context.locks context.oracles context.fee = .ok L'

/-- Transactions, each with the slot of its block, one after the other. -/
inductive Applied (g : GenesisConfig) (G₀ : Governance) (L₀ : LedgerState) :
    List (BlockSlot × Transaction) → Governance → LedgerState → Prop
  | nil : Applied g G₀ L₀ [] G₀ L₀
  | concat {steps : List (BlockSlot × Transaction)} {G : Governance} {L L' : LedgerState}
      {slot : BlockSlot} {tx : Transaction} (h : Applied g G₀ L₀ steps G L)
      (hstep : TxStep g slot tx G L L') :
      Applied g G₀ L₀ (steps ++ [(slot, tx)]) (G.record tx) L'

theorem Applied.append {G₁ G₂ : Governance} {L₁ L₂ : LedgerState} (h : Applied g G₀ L₀ steps G₁ L₁)
    (h' : Applied g G₁ L₁ steps' G₂ L₂) : Applied g G₀ L₀ (steps ++ steps') G₂ L₂ := by
  induction h' with
  | nil =>
    rw [append_nil]
    exact h
  | concat _ hstep ih =>
    rw [← append_assoc]
    exact ih.concat hstep

/-- The schedules and the ledger that transactions make of the genesis. -/
def LedgerAfter (g : GenesisConfig) (steps : List (BlockSlot × Transaction)) (G : Governance)
    (L : LedgerState) : Prop :=
  ∃ L₀, LedgerState.fromGenesis g = .ok L₀ ∧ Applied g (genesisGovernance g) L₀ steps G L

theorem LedgerAfter.append {G : Governance} (h : LedgerAfter g steps G L)
    (h' : Applied g G L steps' G' L') : LedgerAfter g (steps ++ steps') G' L' := by
  obtain ⟨L₀, hL₀, happlied⟩ := h
  exact ⟨L₀, hL₀, happlied.append h'⟩

theorem Applied.of_concat {slot : BlockSlot} (h : Applied g G₀ L₀ (steps ++ [(slot, tx)]) G' L') :
    ∃ G L, Applied g G₀ L₀ steps G L ∧ TxStep g slot tx G L L' ∧ G' = G.record tx := by
  generalize hsteps : steps ++ [(slot, tx)] = all at h
  cases h with
  | nil => exact absurd hsteps (by simp)
  | concat h hstep =>
    obtain ⟨rfl, hlast⟩ := append_inj' hsteps rfl
    rw [List.cons.injEq, Prod.mk.injEq] at hlast
    obtain ⟨⟨rfl, rfl⟩, -⟩ := hlast
    exact ⟨_, _, h, hstep, rfl⟩

theorem Applied.of_append (h : Applied g G₀ L₀ (steps ++ steps') G' L') :
    ∃ G L, Applied g G₀ L₀ steps G L ∧ Applied g G L steps' G' L' := by
  induction steps' using List.reverseRecOn generalizing G' L' with
  | nil =>
    rw [append_nil] at h
    exact ⟨G', L', h, .nil⟩
  | append_singleton steps' e ih =>
    rw [← append_assoc] at h
    obtain ⟨G, L, hinit, hstep, rfl⟩ := h.of_concat
    obtain ⟨G₁, L₁, hfirst, hrest⟩ := ih hinit
    exact ⟨G₁, L₁, hfirst, hrest.concat hstep⟩

omit [Crypto] in
theorem isAddress_ne_genesis (h : IsAddress a) : a ≠ "GENESIS" := by
  rintro rfl
  exact absurd h (by decide)

theorem TxStep.wellFormed {slot : BlockSlot} {G : Governance} (h : TxStep g slot tx G L L') :
    tx.WellFormed := by
  obtain ⟨context, seen, -, hcheck, -⟩ := h
  exact wellFormed_of_check hcheck

/-- The sender of a transaction that is no settlement has the address of its key. -/
theorem TxStep.sender_eq {slot : BlockSlot} {G : Governance} (h : TxStep g slot tx G L L')
    (hs : LedgerState.settlementOf tx = none) : addressFromPublicKey tx.publicKey = tx.sender := by
  have hfields := h.wellFormed.body
  rw [Transaction.BodyWellFormed] at hfields
  rw [LedgerState.settlementOf] at hs
  cases hbody : tx.body with
  | transfer =>
    rw [hbody] at hfields
    exact hfields.2.2.2
  | activitySettlement =>
    rw [hbody] at hs
    cases hs
  | miningClaim =>
    rw [hbody] at hfields
    exact hfields.elim
  | validatorUpdate | activityOracleGovernance | protocolUpgrade =>
    rw [hbody] at hfields
    exact hfields.2.1

theorem TxStep.valid {slot : BlockSlot} {G : Governance} (h : TxStep g slot tx G L L')
    (hg : g.Valid) (hL : L.Valid) : L'.Valid := by
  have htx := h.wellFormed
  obtain ⟨context, seen, hfits, -, happly⟩ := h
  refine hL.apply htx hg.pool.1 (fun f hf => ?_) happly
  rw [hfits.fee, slotFee, Option.map_eq_some_iff] at hf
  obtain ⟨policy, -, rfl⟩ := hf
  exact hfits.producer

/-- A transaction adds to the state exactly the keys that the index of its block adds. -/
theorem TxStep.stateView {slot : BlockSlot} {G : Governance} (h : TxStep g slot tx G L L') :
    stateView L' (G.record tx) k ≠ none ↔
      k ∈ indexedKeys tx g slot.producer ∨ ZyronChain.stateView L G k ≠ none := by
  obtain ⟨context, seen, hfits, -, happly⟩ := h
  exact stateView_apply (isAddress_ne_genesis hfits.producer) hfits.fee
    (by rw [hfits.oracles]; rfl) happly

/-! ### The state of a block -/

/-- The keys that the transactions of a block read or write. -/
def blockKeys (g : GenesisConfig) (block : Block) : List SemanticKey :=
  block.transactions.flatMap fun tx => accessedKeys tx g.activityPool (slotFee g block.slot)

/-- The state of a block stands for a ledger and its schedules. -/
structure AppliedTransition.Tracks (K : List SemanticKey) (G : Governance) (L : LedgerState)
    (t : AppliedTransition) : Prop where
  valid : L.Valid
  mem : ∀ k, stateView L G k ≠ none → k ∈ K
  state : match t.sparse with
    | some s => Commits K (stateView L G) s
    | none => t.ledger = some L

/-- What a transaction writes is among the keys that it accesses. -/
theorem mem_accessedKeys_of_indexed {slot : BlockSlot}
    (happly : L.apply tx g.activityPool locks oracles (slotFee g slot) = .ok L')
    (hk : k ∈ indexedKeys tx g slot.producer) :
    k ∈ accessedKeys tx g.activityPool (slotFee g slot) := by
  rw [indexedKeys] at hk
  rw [accessedKeys]
  rcases apply_eq_ok happly with ⟨receiver, amountAtoms, hbody, -, -⟩ |
    ⟨s, hs, heffect⟩ | ⟨hgovernance, -⟩
  · simp only [hbody, mem_cons] at hk ⊢
    rcases hk with rfl | rfl | hk
    · exact .inl rfl
    · exact .inr (.inl rfl)
    · split at hk
      · cases hk
      · next hcredited =>
        rw [mem_singleton.mp hk, slotFee]
        cases hpolicy : g.feePolicy with
        | none => exact absurd (.inr (.inl hpolicy)) hcredited
        | some policy => exact .inr (.inr (.inl rfl))
  · rw [LedgerState.settlementOf] at hs
    rw [heffect.sender] at hk
    cases hbody : tx.body with
    | activitySettlement epoch entries receiptRoot oracleApprovals attestationExpiresAtMs =>
      simp only [hbody, mem_cons, mem_append] at hk ⊢
      rcases hk with rfl | rfl | hk | hk
      · simp
      · simp
      · exact .inr hk
      · split at hk
        · simp only [mem_cons, not_mem_nil, or_false] at hk
          rcases hk with rfl | rfl
          · simp
          · simp
        · cases hk
    | _ =>
      rw [hbody] at hs
      cases hs
  · rw [LedgerState.IsGovernance] at hgovernance
    cases hbody : tx.body with
    | validatorUpdate | activityOracleGovernance | protocolUpgrade => simpa only [hbody] using hk
    | _ =>
      rw [hbody] at hgovernance
      exact hgovernance.elim

namespace AppliedTransition.Tracks

variable {K : List SemanticKey} {G : Governance} {t t' : AppliedTransition} {context : BlockContext}
  {slot : BlockSlot}

/-- On either state a transaction does what it does on the ledger. -/
theorem corresponds (hK : KeysDistinct K) (h : t.Tracks K G L) (hfits : context.Fits g G slot)
    (htx : tx.WellFormed)
    (hkeys : ∀ k ∈ accessedKeys tx g.activityPool (slotFee g slot), k ∈ K) :
    Corresponds balanceOverflow
      (fun L' t' => t'.sparse.isSome = t.sparse.isSome ∧ match t'.sparse with
        | some s => Commits K (stateView L' (G.record tx)) s
        | none => t'.ledger = some L')
      (L.apply tx g.activityPool context.locks context.oracles context.fee)
      (applyTransaction context t tx) := by
  have hstate := h.state
  obtain ⟨ledger, sparse⟩ := t
  rw [applyTransaction, hfits.genesis]
  cases sparse with
  | none =>
    dsimp only at hstate ⊢
    rw [hstate]
    dsimp only
    cases L.apply tx g.activityPool context.locks context.oracles context.fee with
    | error e => exact id
    | ok L' => exact ⟨rfl, rfl⟩
  | some s =>
    dsimp only at hstate ⊢
    have hsim := apply_corresponds hK ⟨hstate, h.valid.bounded⟩ htx (hfits.fee ▸ hkeys) context.locks
      context.oracles
    cases hL : L.apply tx g.activityPool context.locks context.oracles context.fee <;>
      cases hs : applyStateV2Transaction s tx g.activityPool context.locks context.oracles
        context.fee <;> rw [hL, hs] at hsim
    · exact hsim
    · exact hsim
    · exact hsim
    · exact ⟨rfl, hsim.commits⟩

/-- A transaction applied to the state of a block is applied to the ledger. -/
theorem applyTransaction_eq_ok (hK : KeysDistinct K) (h : t.Tracks K G L) (hg : g.Valid)
    (hfits : context.Fits g G slot) {seen : List String}
    (hcheck : checkTransaction context seen G.scheduleCursors tx = .ok ())
    (hkeys : ∀ k ∈ accessedKeys tx g.activityPool (slotFee g slot), k ∈ K)
    (happly : applyTransaction context t tx = .ok t') :
    ∃ L', TxStep g slot tx G L L' ∧ t'.Tracks K (G.record tx) L' ∧
      t'.sparse.isSome = t.sparse.isSome := by
  obtain ⟨L', hL', hsparse, hstate⟩ :=
    (h.corresponds hK hfits (wellFormed_of_check hcheck) hkeys).of_ok_right happly
  have hstep : TxStep g slot tx G L L' := ⟨context, seen, hfits, hcheck, hL'⟩
  refine ⟨L', hstep, ⟨hstep.valid hg h.valid, fun k hk => ?_, hstate⟩, hsparse⟩
  rcases hstep.stateView.mp hk with hk | hk
  · exact hkeys k (mem_accessedKeys_of_indexed (hfits.fee ▸ hL') hk)
  · exact h.mem k hk

theorem applyTransaction_avoids (hK : KeysDistinct K) (h : t.Tracks K G L)
    (hfits : context.Fits g G slot) (htx : tx.WellFormed)
    (hkeys : ∀ k ∈ accessedKeys tx g.activityPool (slotFee g slot), k ∈ K) :
    Avoids balanceOverflow (applyTransaction context t tx) :=
  (h.corresponds hK hfits htx hkeys).avoids
    (apply_avoids_overflow h.valid htx _ _ _ _)

end AppliedTransition.Tracks

theorem BlockContext.Fits.record {context : BlockContext} {slot : BlockSlot} {G : Governance}
    {seen : List String} (h : context.Fits g G slot)
    (hcheck : checkTransaction context seen G.scheduleCursors tx = .ok ()) :
    context.Fits g (G.record tx) slot := by
  have happends : G.Appends context.blockHeight [tx] (G.record tx) := appends_of_checked
    ⟨hcheck, (trivial : Checked context (tx.txid :: seen) (G.record tx) [])⟩
  have hstable := (happends.stable (show context.blockHeight < _ by
    rw [minUpdateDelay]; omega) []).2.2
  refine { h with oracles := ?_ }
  rw [h.oracles, Governance.oracleSetAt, Governance.oracleSetAt, ← h.height, hstable]

/-- A block does to its state what its transactions do to the ledger. -/
theorem AppliedTransition.Tracks.applyAll {K : List SemanticKey} (hK : KeysDistinct K)
    (hg : g.Valid) {context : BlockContext} {slot : BlockSlot} {transactions : List Transaction}
    {G : Governance} {t t' : AppliedTransition} {seen : List String} (h : t.Tracks K G L)
    (hfits : context.Fits g G slot) (hchecked : Checked context seen G transactions)
    (hkeys : ∀ tx ∈ transactions, ∀ k ∈ accessedKeys tx g.activityPool (slotFee g slot), k ∈ K)
    (happly : applyAll context transactions t = .ok t') :
    ∃ L', Applied g G L (transactions.map fun tx => (slot, tx)) (G.recordAll transactions) L' ∧
      t'.Tracks K (G.recordAll transactions) L' ∧ t'.sparse.isSome = t.sparse.isSome ∧
      context.Fits g (G.recordAll transactions) slot := by
  induction transactions generalizing L G t seen with
  | nil =>
    rw [ZyronChain.applyAll] at happly
    cases happly
    exact ⟨L, .nil, h, rfl, hfits⟩
  | cons tx transactions ih =>
    rw [ZyronChain.applyAll] at happly
    obtain ⟨t₁, hfirst, hrest⟩ := bind_eq_ok.mp happly
    obtain ⟨L₁, hstep, h₁, hsparse⟩ := h.applyTransaction_eq_ok hK hg hfits hchecked.1
      (hkeys tx mem_cons_self) hfirst
    obtain ⟨L', hsteps, h', hsparse', hfits'⟩ := ih h₁ (hfits.record hchecked.1) hchecked.2
      (fun x hx => hkeys x (mem_cons_of_mem tx hx)) hrest
    exact ⟨L', (Applied.nil.concat hstep).append hsteps, h', hsparse'.trans hsparse, hfits'⟩

end

end ZyronChain
