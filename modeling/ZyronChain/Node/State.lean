import ZyronChain.ConsensusV6.Pacemaker
import ZyronChain.Envelope
import ZyronChain.Journal.Crash
import ZyronChain.Messages

/-!
# The state of a validator node

What a validator node keeps: its view of the chain, its signing journal, its consensus-state
files and the last reading of its clock.  The journal and the files are durable.

The replay of a block on the ledger is a parameter of the view; everything else that the chain
checks of a proposal is modelled.

Source: `l1/src/node-base.ts`, `l1/src/consensus-state-store.ts`, and `validateProposal` of
`l1/src/chain.ts`.

## Main definitions

* `ChainView`, `ChainView.validateProposal`.
* `ConsensusFiles` : the consensus-state files.
* `Node` : the state.
* `Plan` : what a request handler does after its checks.
-/

namespace ZyronChain

open Checks

/-! ### The chain -/

/-- What a node reads of its chain. -/
structure ChainView where
  tip : Block
  chainId : String
  protocolVersionAt : Int → Int
  validatorsAt : Int → List Validator
  /-- The replay of the transactions of a block on the state of the tip, and the state root. -/
  replay : Block → Except String Unit

/-- `chain.height`. -/
def ChainView.height (chain : ChainView) : Int := chain.tip.header.height

/-! ### Consensus-state files -/

/-- The consensus-state files: the highest prepare certificate of a height, blocks by height and
hash, and the timeout and the proposal of each round. -/
structure ConsensusFiles where
  highQC : Int → Option PrepareQC
  block : Int → String → Option Block
  timeout : Int → Int → Option (V6TimeoutPayload × Option PrepareQC)
  proposal : Int → Int → Option (V6ProposalPayload × Option TimeoutCertificate)

def ConsensusFiles.empty : ConsensusFiles :=
  ⟨fun _ => none, fun _ _ => none, fun _ _ => none, fun _ _ => none⟩

/-- A write of a consensus-state file, which is atomic and durable. -/
inductive FileWrite where
  | highQC (height : Int) (qc : PrepareQC)
  | block (height : Int) (block : Block)
  | timeout (height round : Int) (payload : V6TimeoutPayload) (highQC : Option PrepareQC)
  | proposal (height round : Int) (payload : V6ProposalPayload) (tc : Option TimeoutCertificate)
deriving DecidableEq

def ConsensusFiles.write (files : ConsensusFiles) : FileWrite → ConsensusFiles
  | .highQC height qc =>
    { files with highQC := fun h => if h = height then some qc else files.highQC h }
  | .block height block =>
    { files with
      block := fun h hash =>
        if h = height ∧ hash = block.hash then some block else files.block h hash }
  | .timeout height round payload highQC =>
    { files with
      timeout := fun h r =>
        if h = height ∧ r = round then some (payload, highQC) else files.timeout h r }
  | .proposal height round payload tc =>
    { files with
      proposal := fun h r =>
        if h = height ∧ r = round then some (payload, tc) else files.proposal h r }

/-- The files of heights above one are the same. -/
structure ConsensusFiles.SameAbove (height : Int) (files files' : ConsensusFiles) : Prop where
  highQC : ∀ h, height < h → files.highQC h = files'.highQC h
  block : ∀ h hash, height < h → files.block h hash = files'.block h hash
  timeout : ∀ h r, height < h → files.timeout h r = files'.timeout h r
  proposal : ∀ h r, height < h → files.proposal h r = files'.proposal h r

/-- `pruneThrough`: the files of heights up to the finalized one are deleted. -/
def ConsensusFiles.pruneThrough (files : ConsensusFiles) (finalizedHeight : Int) :
    ConsensusFiles where
  highQC := fun h => if h ≤ finalizedHeight then none else files.highQC h
  block := fun h hash => if h ≤ finalizedHeight then none else files.block h hash
  timeout := fun h r => if h ≤ finalizedHeight then none else files.timeout h r
  proposal := fun h r => if h ≤ finalizedHeight then none else files.proposal h r

theorem ConsensusFiles.sameAbove_pruneThrough (files : ConsensusFiles) (finalizedHeight : Int) :
    files.SameAbove finalizedHeight (files.pruneThrough finalizedHeight) where
  highQC _ hlt := (if_neg (not_le.mpr hlt)).symm
  block _ _ hlt := (if_neg (not_le.mpr hlt)).symm
  timeout _ _ hlt := (if_neg (not_le.mpr hlt)).symm
  proposal _ _ hlt := (if_neg (not_le.mpr hlt)).symm

/-! ### The clock -/

/-- The readings of the clock that a node remembers. -/
structure ValidatorClock where
  last : Option Int
  faulted : Bool
deriving DecidableEq, Repr

/-- `MAX_VALIDATOR_CLOCK_ROLLBACK_MS`. -/
def maxValidatorClockRollbackMs : Int := 1000

/-- The clock moved back by more than the tolerance. -/
def ValidatorClock.RolledBack (clock : ValidatorClock) (nowMs : Int) : Prop :=
  ∃ last, clock.last = some last ∧ nowMs + maxValidatorClockRollbackMs < last

instance (clock : ValidatorClock) (nowMs : Int) : Decidable (clock.RolledBack nowMs) :=
  inferInstanceAs (Decidable (∃ last, clock.last = some last ∧ _))

/-- `assertValidatorClock`: the check. -/
def ValidatorClock.assertValidatorClock (clock : ValidatorClock) (nowMs : Int) :
    Except String Unit := do
  throwIf (¬ IsSafeInteger nowMs ∨ nowMs < 0) "Invalid validator clock"
  throwIf clock.faulted "Validator clock fault requires process restart"
  throwIf (clock.RolledBack nowMs) "Validator clock moved backwards beyond the safety tolerance"

/-- `assertValidatorClock`: what it remembers. -/
def ValidatorClock.read (clock : ValidatorClock) (nowMs : Int) : ValidatorClock :=
  if ¬ IsSafeInteger nowMs ∨ nowMs < 0 ∨ clock.faulted = true then clock
  else if clock.RolledBack nowMs then { clock with faulted := true }
  else { clock with last := some (max (clock.last.getD nowMs) nowMs) }

/-! ### Nodes -/

/-- A validator node that signs with a key. -/
structure Node where
  publicKey : String
  chain : ChainView
  journal : LiveJournal
  files : ConsensusFiles
  clock : ValidatorClock

/-- What a request handler does once its checks have passed: it writes files, reserves the action
in the journal, writes more files, and signs a message. -/
structure Plan where
  before : List FileWrite
  /-- None when the journal holds the action already and the handler asks it nothing. -/
  request : Option JournalRequest
  after : List FileWrite
  message : ValidatorMessage
deriving DecidableEq

namespace Node

/-- The records that a plan appends to the journal. -/
def reserve (n : Node) : Option JournalRequest → Except String (List Entry)
  | none => .ok []
  | some request => n.journal.journal.reserve request

/-- The node after a reading of its clock. -/
def readClock (n : Node) (nowMs : Int) : Node := { n with clock := n.clock.read nowMs }

def write (n : Node) (ws : List FileWrite) : Node :=
  { n with files := ws.foldl ConsensusFiles.write n.files }

/-- The node after records were appended to its journal. -/
def journaled (n : Node) (es : List Entry) : Node :=
  { n with journal := ⟨n.journal.journal.append es, n.journal.file ++ journalText es⟩ }

/-- The node after a restart that opened the journal. -/
def restarted (n : Node) (bytes : List Char) (o : Opened) : Node :=
  { n with journal := ⟨o.journal, o.file bytes⟩, clock := ⟨none, false⟩ }

end Node

section

variable [Crypto]

/-- The checks of a proposal after its gates: its transactions, its size and its replay.  A block
hash that was validated before is not replayed again. -/
def ChainView.validateBody (chain : ChainView) (block : Block) (alreadyValidated : Bool) :
    Except String Unit :=
  if alreadyValidated then assertBlockBytes block
  else do
    validateBlockTransactions block
    assertBlockBytes block
    chain.replay block

def ChainView.validateProposal (chain : ChainView) (block : Block) (nowMs : Int)
    (alreadyValidated : Bool) : Except String Unit := do
  let protocolVersion := chain.protocolVersionAt block.header.height
  assertSupportedProtocolVersion protocolVersion
  validateBlockEnvelopeGates block chain.tip (chain.validatorsAt block.header.height) nowMs false
    protocolVersion true
  chain.validateBody block alreadyValidated

def ChainView.validatePreparedUnsignedBlock (chain : ChainView) (block : Block) (nowMs : Int) :
    Except String Unit := do
  let protocolVersion := chain.protocolVersionAt block.header.height
  assertSupportedProtocolVersion protocolVersion
  validateBlockEnvelope block chain.tip (chain.validatorsAt block.header.height) nowMs false
    protocolVersion false
  assertBlockBytes block
  chain.replay block

end

end ZyronChain
