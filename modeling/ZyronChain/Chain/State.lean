import ZyronChain.Chain.Authorization
import ZyronChain.Envelope
import ZyronChain.StateV2.Portable

/-!
# The chain

The state of a chain and the acceptance of a block: the envelope, the replay of the transactions on
the ledger or the authenticated state, the state root, and the schedule entries of the block.

Mining is retired: the shape check refuses every mining claim, so the parts of the source after it
that handle one are left out.

Source: `l1/src/chain.ts`.

## Main definitions

* `Chain`, `Chain.create`.
* `checkTransaction`, `applyTransaction`, `Chain.validateAndApply`.
* `Chain.acceptBlock`, `Chain.acceptBlocks`.

## Main results

* `Chain.startBlock_eq_ok`, `Chain.acceptBlock_eq_ok` : what acceptance means.
* `Chain.acceptBlocks_induction` : the invariant rule of runs.
-/

namespace ZyronChain

open Checks

/-! ### States -/

structure Chain where
  genesis : GenesisConfig
  genesisBlock : Block
  tip : Block
  height : Int
  governance : Governance
  state : Option LedgerState
  stateV2 : Option SparseMerkleState
  stateV2SemanticKeys : Option (SortedSet canonicalLt)

structure AppliedTransition where
  ledger : Option LedgerState
  sparse : Option SparseMerkleState

/-- What the transactions of a block are checked against. -/
structure BlockContext where
  genesis : GenesisConfig
  genesisHash : String
  protocolVersion : Int
  blockHeight : Int
  blockTimestampMs : Int
  currentValidators : List Validator
  oracles : ActivityOracleSet
  locks : Option AllocationLockContext
  fee : Option FixedFeeApplication

/-- What a block has done so far. -/
structure Working where
  seen : List String
  cursors : ScheduleCursors
  transition : AppliedTransition

/-- `readFeePolicy(genesis)?.fixedTransferFeeAtoms`. -/
def GenesisConfig.fixedTransferFeeAtoms (g : GenesisConfig) : Option Int :=
  g.feePolicy.map FeePolicy.fixedTransferFeeAtoms

/-- The schedules of a chain that starts. -/
def genesisGovernance (g : GenesisConfig) : Governance where
  validatorSchedule := SortedMap.empty.set 0 g.validators
  protocolSchedule := SortedMap.empty.set 0 1
  activityOracleGovernance := .empty

def feeProducerOf (block : Block) : Option Address :=
  if block.header.proposer = "GENESIS" then none else some block.header.proposer

def stateV2TransactionKeyPreimages (tx : Transaction) : List String :=
  accountKey tx.sender :: match tx.body with
    | .transfer receiver _ => [accountKey receiver]
    | .activitySettlement epoch entries _ _ _ =>
      activityEpochKey epoch :: entries.map fun entry => accountKey entry.receiver
    | .miningClaim .. => [accountKey miningTrackerAddress]
    | .validatorUpdate activationHeight _ _ _ => [validatorScheduleKey activationHeight]
    | .activityOracleGovernance activationHeight _ _ _ =>
      [activityOracleGovernanceKey activationHeight]
    | .protocolUpgrade activationHeight _ _ => [protocolScheduleKey activationHeight]

def stateV2KeysForTransactionBody (tx : Transaction) (g : GenesisConfig) : List String :=
  match tx.body with
  | .activitySettlement .. =>
    if g.launchProfile = some .fixedSupplyV1 then
      stateV2TransactionKeyPreimages tx ++
        [accountKey activityWindowTimeAddress, accountKey activityWindowAmountAddress]
    else stateV2TransactionKeyPreimages tx
  | _ => stateV2TransactionKeyPreimages tx

/-- `stateV2KeysForTransaction`, for the set that its result is added to. -/
def stateV2KeysForTransaction (tx : Transaction) (g : GenesisConfig) (producer : String) :
    List String :=
  match tx.body with
  | .transfer .. =>
    if producer = "GENESIS" ∨ g.feePolicy = none ∨ producerShare tx.feeAtoms ≤ 0 then
      stateV2KeysForTransactionBody tx g
    else stateV2KeysForTransactionBody tx g ++ [accountKey producer]
  | _ => stateV2KeysForTransactionBody tx g

def addKeys (keys : SortedSet canonicalLt) (added : List String) : SortedSet canonicalLt :=
  added.foldl (fun keys key => keys.set key ()) keys

/-- `recordGovernanceUpdates`. -/
def Governance.recordAll (G : Governance) (transactions : List Transaction) : Governance :=
  transactions.foldl Governance.record G

section

variable [Crypto]

def stateRootForProtocol (protocolVersion : Int) (t : AppliedTransition) : Except String String :=
  match (if protocolVersion = 1 then t.ledger else none),
    (if protocolUsesStateV2 protocolVersion then t.sparse else none) with
  | some ledger, _ => .ok ledger.root
  | none, some sparse => .ok sparse.root.val
  | none, none => .error s!"Missing state implementation for protocol version {protocolVersion}"

/-! ### Transactions of a block -/

def assertTransactionVersionForProtocol (tx : Transaction) (protocolVersion : Int) :
    Except String Unit := do
  let expected := if protocolVersion ≥ 3 then 2 else 1
  throwIf (tx.version ≠ expected)
    s!"Transaction version {tx.version} is not valid under protocol version {protocolVersion}"
  rejectMiningClaim tx

/-- The oracle approvals and the epoch of a settlement in a block. -/
def authorizeSettlement (context : BlockContext) (tx : Transaction) : Except String Unit :=
  match tx.body with
  | .activitySettlement epoch entries receiptRoot oracleApprovals attestationExpiresAtMs => do
    assertActivitySettlementAuthorized tx
      ⟨epoch, entries, receiptRoot, oracleApprovals, attestationExpiresAtMs⟩ context.oracles
      { chainId := some context.genesis.chainId
        blockTimestampMs := some context.blockTimestampMs
        genesisTimestampMs := some context.genesis.timestampMs }
    assertActivityEpochWindow epoch context.genesis.timestampMs context.blockTimestampMs
  | _ => .ok ()

/-- The checks of a transaction in a block, before it is applied. -/
def checkTransaction (context : BlockContext) (seen : List String) (cursors : ScheduleCursors)
    (tx : Transaction) : Except String Unit := do
  throwIf (tx.chainId ≠ context.genesis.chainId) "Wrong transaction chain ID"
  throwIf (tx.txid ∈ seen) "Duplicate transaction in block"
  validateTransactionShape tx context.genesis.fixedTransferFeeAtoms
  assertTransactionVersionForProtocol tx context.protocolVersion
  authorizeSettlement context tx
  authorizeGovernance context.genesis context.genesisHash context.currentValidators
    context.blockHeight cursors tx

/-- A transaction applied to the authenticated state, or else to the ledger. -/
def applyTransaction (context : BlockContext) (t : AppliedTransition) (tx : Transaction) :
    Except String AppliedTransition :=
  match t.sparse, t.ledger with
  | some sparse, _ => do
    let sparse ← applyStateV2Transaction sparse tx context.genesis.activityPool context.locks
      context.oracles context.fee
    .ok { t with sparse := some sparse }
  | none, some ledger => do
    let ledger ← ledger.apply tx context.genesis.activityPool context.locks context.oracles
      context.fee
    .ok { t with ledger := some ledger }
  | none, none => .error "Cannot read properties of undefined"

/-- The loop of `validateAndApply`. -/
def applyTransactions (context : BlockContext) : List Transaction → Working → Except String Working
  | [], working => .ok working
  | tx :: transactions, working => do
    checkTransaction context working.seen working.cursors tx
    let transition ← applyTransaction context working.transition tx
    applyTransactions context transactions
      ⟨tx.txid :: working.seen, working.cursors.advance tx, transition⟩

namespace Chain

def create (g : GenesisConfig) : Except String Chain := do
  validateGenesis g
  let state ← LedgerState.fromGenesis g
  let _ ← state.totalSupplyAtoms
  let genesisBlock := createGenesisBlock g state.root
  .ok
    { genesis := g
      genesisBlock := genesisBlock
      tip := genesisBlock
      height := 0
      governance := genesisGovernance g
      state := some state
      stateV2 := none
      stateV2SemanticKeys := none }

def genesisHash (c : Chain) : String := c.genesisBlock.hash

def validatorsAt (c : Chain) (height : Int) : Except String (List Validator) :=
  c.governance.validatorsAt c.genesis.validators height

def protocolVersionAt (c : Chain) (height : Int) : Except String Int :=
  c.governance.protocolVersionAt height

def requireLegacyState (c : Chain) : Except String LedgerState := match c.state with
  | some state => .ok state
  | none => .error "Legacy ledger is unavailable after State v2 activation"

def stateV2PortableView (c : Chain) : Except String StateV2PortableView :=
  match c.stateV2, c.stateV2SemanticKeys with
  | some stateV2, some keys => reconstructStateV2PortableView stateV2 keys.keys
  | _, _ => .error "State v2 semantic view is unavailable"

/-- `legacyStateForTransition(this.state)`. -/
def legacyStateForTransition (c : Chain) : Except String LedgerState :=
  match c.state, c.stateV2 with
  | some state, _ => .ok state
  | none, none => .error "No authenticated state is available for legacy transition"
  | none, some _ => do
    let view ← c.stateV2PortableView
    LedgerState.fromSnapshot view.ledger

def getState (c : Chain) : Except String LedgerState := match c.state with
  | some state => .ok state
  | none => do
    let view ← c.stateV2PortableView
    LedgerState.fromSnapshot view.ledger

/-- The authenticated state, if the protocol version of the tip uses it. -/
def activeStateV2 (c : Chain) : Except String (Option SparseMerkleState) := match c.stateV2 with
  | none => .ok none
  | some stateV2 => do
    let version ← c.protocolVersionAt c.height
    .ok (if protocolUsesStateV2 version then some stateV2 else none)

def balance (c : Chain) (address : Address) : Except String Int := do
  match ← c.activeStateV2 with
  | some stateV2 => stateV2Balance stateV2 address
  | none => do
    let state ← c.requireLegacyState
    .ok (state.balance address)

def nonce (c : Chain) (address : Address) : Except String Int := do
  match ← c.activeStateV2 with
  | some stateV2 => stateV2Nonce stateV2 address
  | none => do
    let state ← c.requireLegacyState
    .ok (state.nonce address)

def miningClaimCount (c : Chain) : Except String Int := c.nonce miningTrackerAddress

def totalSupplyAtoms (c : Chain) : Except String Int := do
  let state ← c.getState
  state.totalSupplyAtoms

def fixedFeeApplication (c : Chain) (blockHeight : Int) (producer : Option Address) :
    Except String (Option FixedFeeApplication) :=
  match c.genesis.feePolicy, producer with
  | none, _ => .ok none
  | some policy, some producer => .ok (some ⟨producer, policy.fixedTransferFeeAtoms⟩)
  | some policy, none => do
    let validators ← c.validatorsAt blockHeight
    let expected ← expectedValidator validators blockHeight 0
    .ok (some ⟨expected.address, policy.fixedTransferFeeAtoms⟩)

/-- The authenticated state at the start of a block. -/
def startSparse (c : Chain) : Except String SparseMerkleState := match c.stateV2 with
  | some stateV2 => .ok stateV2
  | none => do
    let state ← c.requireLegacyState
    stateV2FromLedgerSnapshot state.snapshot c.governance.snapshot

/-- The states at the start of a block of a protocol version. -/
def startTransition (c : Chain) (protocolVersion : Int) : Except String AppliedTransition := do
  let ledger ← if protocolVersion = 1 then c.legacyStateForTransition.map some else .ok c.state
  let sparse ← if protocolUsesStateV2 protocolVersion then c.startSparse.map some else .ok none
  .ok ⟨ledger, sparse⟩

/-- What `validateAndApply` reads before its loop. -/
def startBlock (c : Chain) (blockHeight blockTimestampMs : Int) (producer : Option Address) :
    Except String (BlockContext × Working) := do
  let protocolVersion ← c.protocolVersionAt blockHeight
  let fee ← c.fixedFeeApplication blockHeight producer
  let transition ← c.startTransition protocolVersion
  let currentValidators ← c.validatorsAt blockHeight
  let _ ← c.miningClaimCount
  let locks ← allocationLockContext c.genesis blockTimestampMs
  .ok (
    { genesis := c.genesis
      genesisHash := c.genesisHash
      protocolVersion := protocolVersion
      blockHeight := blockHeight
      blockTimestampMs := blockTimestampMs
      currentValidators := currentValidators
      oracles := c.governance.oracleSetAt c.genesis blockHeight
      locks := locks
      fee := fee },
    ⟨[], c.governance.scheduleCursors, transition⟩)

/-- `validateAndApply`, from the state of the chain. -/
def validateAndApply (c : Chain) (transactions : List Transaction)
    (blockHeight blockTimestampMs : Int) (producer : Option Address) :
    Except String AppliedTransition := do
  let (context, working) ← c.startBlock blockHeight blockTimestampMs producer
  let working ← applyTransactions context transactions working
  .ok working.transition

/-! ### Blocks -/

/-- The replay of a block, and its state root. -/
def replayBlock (c : Chain) (block : Block) (protocolVersion : Int) :
    Except String AppliedTransition := do
  let next ← c.validateAndApply block.transactions block.header.height block.header.timestampMs
    (feeProducerOf block)
  let stateRoot ← stateRootForProtocol protocolVersion next
  throwIf (block.header.stateRoot ≠ stateRoot) "State root mismatch"
  .ok next

def validateFinalizedTransition (c : Chain) (block : Block) (nowMs : Int) :
    Except String AppliedTransition := do
  let protocolVersion ← c.protocolVersionAt block.header.height
  assertSupportedProtocolVersion protocolVersion
  let validators ← c.validatorsAt block.header.height
  validateBlockEnvelope block c.tip validators nowMs true protocolVersion true
  assertBlockBytes block
  c.replayBlock block protocolVersion

/-- The keys of the authenticated state before a block. -/
def semanticKeys (c : Chain) : Except String (SortedSet canonicalLt) :=
  match c.stateV2SemanticKeys with
  | some keys => .ok keys
  | none => do
    let state ← c.requireLegacyState
    .ok (addKeys .empty (stateV2KeyPreimages state.snapshot c.governance.snapshot))

/-- The keys of the authenticated state after a block. -/
def semanticKeysForBlock (c : Chain) (block : Block) : Except String (SortedSet canonicalLt) := do
  let keys ← c.semanticKeys
  .ok (addKeys keys (block.transactions.flatMap fun tx =>
    stateV2KeysForTransaction tx c.genesis block.header.proposer))

def acceptBlock (c : Chain) (block : Block) (nowMs : Int) : Except String Chain := do
  let next ← c.validateFinalizedTransition block nowMs
  let governance := c.governance.recordAll block.transactions
  if block.header.version = 1 then
    .ok { c with
      tip := block
      height := block.header.height
      governance := governance
      state := next.ledger
      stateV2 := none
      stateV2SemanticKeys := none }
  else do
    let keys ← c.semanticKeysForBlock block
    .ok { c with
      tip := block
      height := block.header.height
      governance := governance
      state := none
      stateV2 := next.sparse
      stateV2SemanticKeys := some keys }

/-- Blocks with the readings of the clock at which they are accepted, one after the other. -/
def acceptBlocks (c : Chain) : List (Block × Int) → Except String Chain
  | [] => .ok c
  | (block, nowMs) :: blocks => do
    let c ← c.acceptBlock block nowMs
    c.acceptBlocks blocks

/-! ### What acceptance means -/

/-- What `validateAndApply` has read before its loop. -/
structure StartsBlock (c : Chain) (blockHeight blockTimestampMs : Int) (producer : Option Address)
    (context : BlockContext) (t : AppliedTransition) : Prop where
  genesis : context.genesis = c.genesis
  genesisHash : context.genesisHash = c.genesisHash
  version : c.protocolVersionAt blockHeight = .ok context.protocolVersion
  height : context.blockHeight = blockHeight
  timestamp : context.blockTimestampMs = blockTimestampMs
  validators : c.validatorsAt blockHeight = .ok context.currentValidators
  oracles : context.oracles = c.governance.oracleSetAt c.genesis blockHeight
  locks : allocationLockContext c.genesis blockTimestampMs = .ok context.locks
  fee : c.fixedFeeApplication blockHeight producer = .ok context.fee
  claims : ∃ n, c.miningClaimCount = .ok n
  start : c.startTransition context.protocolVersion = .ok t

theorem startBlock_eq_ok {c : Chain} {blockHeight blockTimestampMs : Int}
    {producer : Option Address} {context : BlockContext} {working : Working} :
    c.startBlock blockHeight blockTimestampMs producer = .ok (context, working) ↔
      c.StartsBlock blockHeight blockTimestampMs producer context working.transition ∧
        working = ⟨[], c.governance.scheduleCursors, working.transition⟩ := by
  simp only [startBlock, bind_eq_ok, Except.ok.injEq, Prod.mk.injEq]
  constructor
  · rintro ⟨version, hversion, fee, hfee, t, ht, validators, hvalidators, n, hn, locks, hlocks, rfl,
      rfl⟩
    exact ⟨⟨rfl, rfl, hversion, rfl, rfl, hvalidators, rfl, hlocks, hfee, ⟨n, hn⟩, ht⟩, rfl⟩
  · rintro ⟨h, hworking⟩
    obtain ⟨n, hn⟩ := h.claims
    refine ⟨_, h.version, _, h.fee, _, h.start, _, h.validators, n, hn, _, h.locks, ?_, hworking.symm⟩
    obtain ⟨hgenesis, hhash, -, hheight, htime, -, horacles, -, -, -, -⟩ := h
    cases context
    simp only at hgenesis hhash hheight htime horacles
    subst hgenesis hhash hheight htime horacles
    rfl

/-- What an accepted block leaves. -/
theorem acceptBlock_eq_ok {c c' : Chain} {block : Block} {nowMs : Int}
    (h : c.acceptBlock block nowMs = .ok c') :
    ∃ next, c.validateFinalizedTransition block nowMs = .ok next ∧
      ((block.header.version = 1 ∧ c' = { c with
          tip := block
          height := block.header.height
          governance := c.governance.recordAll block.transactions
          state := next.ledger
          stateV2 := none
          stateV2SemanticKeys := none }) ∨
        (block.header.version ≠ 1 ∧ ∃ keys, c.semanticKeysForBlock block = .ok keys ∧ c' = { c with
          tip := block
          height := block.header.height
          governance := c.governance.recordAll block.transactions
          state := none
          stateV2 := next.sparse
          stateV2SemanticKeys := some keys })) := by
  rw [acceptBlock] at h
  obtain ⟨next, hnext, h⟩ := bind_eq_ok.mp h
  refine ⟨next, hnext, ?_⟩
  split at h
  · next hversion => exact .inl ⟨hversion, (Except.ok.inj h).symm⟩
  · next hversion =>
    obtain ⟨keys, hkeys, h⟩ := bind_eq_ok.mp h
    exact .inr ⟨hversion, keys, hkeys, (Except.ok.inj h).symm⟩

/-- An invariant of the steps, which may depend on the blocks so far, holds after every run. -/
theorem acceptBlocks_induction {P : List (Block × Int) → Chain → Prop}
    (hstep : ∀ done c block nowMs c', P done c → c.acceptBlock block nowMs = .ok c' →
      P (done ++ [(block, nowMs)]) c')
    {done blocks : List (Block × Int)} {c c' : Chain} (hc : P done c)
    (h : c.acceptBlocks blocks = .ok c') : P (done ++ blocks) c' := by
  induction blocks generalizing done c with
  | nil =>
    rw [acceptBlocks, Except.ok.injEq] at h
    rw [List.append_nil, ← h]
    exact hc
  | cons entry blocks ih =>
    obtain ⟨block, nowMs⟩ := entry
    rw [acceptBlocks] at h
    obtain ⟨c₁, haccept, h⟩ := bind_eq_ok.mp h
    have hrest := ih (hstep done c block nowMs c₁ hc haccept) h
    rw [List.append_assoc, List.singleton_append] at hrest
    exact hrest

end Chain

end

end ZyronChain
