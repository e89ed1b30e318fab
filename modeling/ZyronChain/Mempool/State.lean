import ZyronChain.Lib.Method
import ZyronChain.Lib.Tally
import ZyronChain.Transaction

/-!
# The mempool

The pool of pending transactions: a map of the stored transactions by id and nine indexes beside
it, all of them updated one entry at a time.

A method that throws keeps the changes it made before the throw, so the methods are `Method`s over
the fields and not functions that return a new pool.  A transaction is measured once, when it is
submitted; a stored one carries its size, which is what measuring it again returns.  The text
`sender:nonce` of an index key determines the sender and the nonce, so the keys are pairs.

Mining is retired: `add` refuses a mining claim before anything else, so the parts of the source
that order and evict mining claims are not reached and are left out.  The counters of mining
claims stay, since every check of the occupancy reads them.

Source: `l1/src/mempool.ts`.

## Main definitions

* `MempoolConfig`, `MempoolConfig.create` : the limits, and the checks of the constructor.
* `Measured` : a transaction with its size in bytes.
* `Mempool` : the fields.
* `computeLowestPriorityEvictableTransfer` : the transfer that makes room.
* `Mempool.store`, `Mempool.deleteTransaction`, `Mempool.insertAfterCapacity` : the updates.
* `Mempool.add`, `Mempool.remove`, `Mempool.prune` : the methods that change the pool.
-/

namespace ZyronChain

open Checks Method

/-! ### Configuration -/

def maxMiningMempoolClaims : Int := 256
def defaultMempoolNonMiningCapacity : Int := 10000
def defaultMempoolNonMiningMaxBytes : Int := 64 * 1024 * 1024
def defaultMiningMempoolMaxBytes : Int := 4 * 1024 * 1024
def defaultMempoolProtocolReserve : Int := 256
def defaultMempoolProtocolReserveBytes : Int := 1024 * 1024

structure MempoolOptions where
  disableFeeReplacement : Bool := false
  fixedTransferFeeAtoms : Option Int := none
  minTransferFeeAtoms : Option Int := none
  maxPendingPerSender : Option Int := none
  protocolReserve : Option Int := none
  protocolReserveBytes : Option Int := none

/-- The fields that the constructor sets and nothing changes. -/
structure MempoolConfig where
  maxNonMiningSize : Int
  miningReserve : Int
  maxNonMiningBytes : Int
  maxMiningBytes : Int
  disableFeeReplacement : Bool
  fixedTransferFeeAtoms : Option Int
  maxPendingPerSender : Option Int
  protocolReserve : Int
  protocolReserveBytes : Int
  minTransferFeeAtoms : Int
deriving DecidableEq

namespace MempoolConfig

/-- The fields before they are checked. -/
def ofArguments (maxNonMiningSize miningReserve maxNonMiningBytes maxMiningBytes : Option Int)
    (options : MempoolOptions) : MempoolConfig :=
  let size := maxNonMiningSize.getD defaultMempoolNonMiningCapacity
  let bytes := maxNonMiningBytes.getD defaultMempoolNonMiningMaxBytes
  { maxNonMiningSize := size
    miningReserve :=
      miningReserve.getD (if maxNonMiningSize = none then maxMiningMempoolClaims else 0)
    maxNonMiningBytes := bytes
    maxMiningBytes := maxMiningBytes.getD defaultMiningMempoolMaxBytes
    disableFeeReplacement := options.disableFeeReplacement
    fixedTransferFeeAtoms := options.fixedTransferFeeAtoms
    maxPendingPerSender := options.maxPendingPerSender
    protocolReserve := options.protocolReserve.getD (min defaultMempoolProtocolReserve (size / 8))
    protocolReserveBytes := options.protocolReserveBytes.getD
      (if bytes = defaultMempoolNonMiningMaxBytes then defaultMempoolProtocolReserveBytes else 0)
    -- under a fixed fee the exact fee is the only rule
    minTransferFeeAtoms :=
      if options.fixedTransferFeeAtoms = none then options.minTransferFeeAtoms.getD 0 else 0 }

def create (maxNonMiningSize miningReserve maxNonMiningBytes maxMiningBytes : Option Int)
    (options : MempoolOptions) : Except String MempoolConfig := do
  let c := ofArguments maxNonMiningSize miningReserve maxNonMiningBytes maxMiningBytes options
  throwIf (¬ IsSafeInteger c.maxNonMiningSize ∨ c.maxNonMiningSize < 1) "Invalid mempool capacity"
  throwIf (¬ IsSafeInteger c.miningReserve ∨ c.miningReserve < 0 ∨
    c.miningReserve > maxMiningMempoolClaims) "Invalid mining mempool reserve"
  throwIf (¬ IsSafeInteger c.maxNonMiningBytes ∨ c.maxNonMiningBytes < 1)
    "Invalid non-mining mempool byte capacity"
  throwIf (¬ IsSafeInteger c.maxMiningBytes ∨ c.maxMiningBytes < 1)
    "Invalid mining mempool byte capacity"
  throwIf (¬ IsSafeInteger c.protocolReserve ∨ c.protocolReserve < 0 ∨
    c.protocolReserve ≥ c.maxNonMiningSize) "Invalid protocol mempool reserve"
  throwIf (¬ IsSafeInteger c.protocolReserveBytes ∨ c.protocolReserveBytes < 0 ∨
    c.protocolReserveBytes ≥ c.maxNonMiningBytes) "Invalid protocol mempool byte reserve"
  throwIf (∃ fee ∈ options.fixedTransferFeeAtoms, ¬ IsSafeInteger fee ∨ fee < 1)
    "Invalid fixed transfer fee"
  throwIf (∃ fee ∈ options.minTransferFeeAtoms, ¬ IsSafeInteger fee ∨ fee < 0)
    "Invalid minimum transfer fee"
  throwIf (∃ cap ∈ options.maxPendingPerSender, ¬ IsSafeInteger cap ∨ cap < 1)
    "Invalid per-sender mempool cap"
  .ok c

/-- What the proofs use of the constructor's checks. -/
structure Valid (c : MempoolConfig) : Prop where
  maxNonMiningBytes_pos : 0 < c.maxNonMiningBytes
  maxMiningBytes_pos : 0 < c.maxMiningBytes
  protocolReserve_lt : c.protocolReserve < c.maxNonMiningSize
  protocolReserveBytes_nonneg : 0 ≤ c.protocolReserveBytes
  protocolReserveBytes_lt : c.protocolReserveBytes < c.maxNonMiningBytes

theorem valid_of_create {size reserve bytes miningBytes : Option Int} {options : MempoolOptions}
    {c : MempoolConfig} (h : create size reserve bytes miningBytes options = .ok c) : c.Valid := by
  simp only [create, throwIf_bind_eq_ok, Except.ok.injEq] at h
  obtain ⟨-, -, hbytes, hmining, hreserve, hreserveBytes, -, -, -, rfl⟩ := h
  constructor <;> omega

end MempoolConfig

/-! ### Transactions in the pool -/

def transactionBytes (tx : Transaction) : Except String Int := do
  let text ← canonicalJson tx.toJson
  throwIf (¬ IsSafeInteger (byteLength text) ∨ (byteLength text : Int) < 1)
    "Invalid mempool transaction byte size"
  .ok (byteLength text)

/-- A transaction with its size. -/
structure Measured extends Transaction where
  bytes : Int
  measured : transactionBytes toTransaction = .ok bytes
deriving DecidableEq

/-- The key `sender:nonce` of an index. -/
abbrev Slot : Type := Address × Int

namespace Measured

/-- The `nonceKey` of a transaction. -/
def slot (tx : Measured) : Slot := (tx.sender, tx.nonce)

/-- What a transfer takes from its sender; nothing for other kinds. -/
def transferSpend (tx : Measured) : Int := match tx.body with
  | .transfer _ amountAtoms => amountAtoms + tx.feeAtoms
  | _ => 0

theorem bytes_pos (tx : Measured) : 0 < tx.bytes := by
  have h := tx.measured
  rw [transactionBytes, bind_eq_ok] at h
  obtain ⟨text, -, h⟩ := h
  rw [throwIf_bind_eq_ok, Except.ok.injEq] at h
  omega

end Measured

def hasRequiredFeeRateBump (existing incoming : Measured) : Bool :=
  existing.isTransfer && incoming.isTransfer &&
    decide (existing.feeAtoms < incoming.feeAtoms ∧
      existing.feeAtoms * incoming.bytes * 11 ≤ incoming.feeAtoms * existing.bytes * 10)

def compareFeeRate (left right : Measured) : Int :=
  if left.isTransfer && right.isTransfer then
    (left.feeAtoms * right.bytes - right.feeAtoms * left.bytes).sign
  else 0

/-- `isValidReplacement` for an incoming transaction that is no mining claim. -/
def isValidReplacement (existing incoming : Measured) (disableFeeReplacement : Bool) : Bool :=
  if existing.isTransfer && incoming.isTransfer then
    !disableFeeReplacement && hasRequiredFeeRateBump existing incoming
  else false

/-! ### The transfer that makes room -/

structure EvictionCandidate where
  txid : String
  tx : Measured
deriving DecidableEq

/-- The `highestNonce` map of the source. -/
def highestNonce (entries : List (String × Measured)) : JsMap Address Int :=
  entries.foldl
    (fun highest e => highest.set e.2.sender (max ((highest.get e.2.sender).getD 0) e.2.nonce))
    .empty

/-- Whether a transaction takes the place of the one selected so far. -/
def replacesSelected (tx : Measured) : Option EvictionCandidate → Bool
  | none => true
  | some selected => decide (compareFeeRate tx selected.tx < 0 ∨
      compareFeeRate tx selected.tx = 0 ∧ tx.timestampMs < selected.tx.timestampMs)

def selectStep (highest : JsMap Address Int) (selected : Option EvictionCandidate)
    (e : String × Measured) : Option EvictionCandidate :=
  if e.2.isTransfer = false ∨ some e.2.nonce ≠ highest.get e.2.sender then selected
  else if replacesSelected e.2 selected then some ⟨e.1, e.2⟩ else selected

def computeLowestPriorityEvictableTransfer (byId : JsMap String Measured) :
    Option EvictionCandidate :=
  byId.entries.foldl (selectStep (highestNonce byId.entries)) none

/-! ### Fields and updates -/

structure Mempool where
  config : MempoolConfig
  byId : JsMap String Measured := .empty
  nonceIds : JsMap Slot String := .empty
  transferSpendBySender : JsMap Address Int := .empty
  miningSize : Int := 0
  nonMiningSize : Int := 0
  miningBytes : Int := 0
  nonMiningBytes : Int := 0
  transferSize : Int := 0
  transferBytes : Int := 0
  nonMiningEvictionCacheValid : Bool := false
  nonMiningEvictionCache : Option EvictionCandidate := none
  pendingBySender : JsMap Address Int := .empty
  validatorUpdatesBySender : JsMap Address Int := .empty
  /-- A set: only its keys matter. -/
  validatorUpdateIds : JsMap String Unit := .empty
  admittedAtMs : JsMap Slot Int := .empty

def occupancyViolated : String := "Mempool occupancy invariant violated"

def mempoolFull : String := "Mempool full"

namespace Mempool

/-- The counters after one transaction more (`direction = 1`) or less (`direction = -1`). -/
def count (m : Mempool) (tx : Measured) (direction : Int) : Mempool :=
  if tx.isMiningClaim then
    { m with
      miningSize := m.miningSize + direction
      miningBytes := m.miningBytes + direction * tx.bytes }
  else if tx.isTransfer then
    { m with
      nonMiningSize := m.nonMiningSize + direction
      nonMiningBytes := m.nonMiningBytes + direction * tx.bytes
      transferSize := m.transferSize + direction
      transferBytes := m.transferBytes + direction * tx.bytes }
  else
    { m with
      nonMiningSize := m.nonMiningSize + direction
      nonMiningBytes := m.nonMiningBytes + direction * tx.bytes }

/-- What `adjustOccupancy` refuses. -/
def BadOccupancy (m : Mempool) : Prop :=
  m.miningSize < 0 ∨ m.nonMiningSize < 0 ∨ m.miningBytes < 0 ∨ m.nonMiningBytes < 0 ∨
    m.config.maxMiningBytes < m.miningBytes ∨ m.config.maxNonMiningBytes < m.nonMiningBytes ∨
    m.miningSize + m.nonMiningSize ≠ m.byId.entries.length

instance (m : Mempool) : Decidable m.BadOccupancy := inferInstanceAs (Decidable (_ ∨ _))

def adjustOccupancy (tx : Measured) (direction : Int) : Method Mempool Unit := do
  modify fun m => m.count tx direction
  let m ← get
  throwWhen m.BadOccupancy occupancyViolated

def adjustTransferSpend (tx : Measured) (direction : Int) : Method Mempool Unit :=
  modify fun m =>
    if tx.isTransfer then
      { m with transferSpendBySender :=
          m.transferSpendBySender.tally tx.sender (direction * tx.transferSpend) }
    else m

def adjustSenderCount (sender : Address) (direction : Int) : Method Mempool Unit := do
  let m ← get
  throwWhen ((m.pendingBySender.get sender).getD 0 + direction < 0) occupancyViolated
  modify fun m => { m with pendingBySender := m.pendingBySender.tally sender direction }

def adjustValidatorUpdateSender (sender : Address) (direction : Int) : Method Mempool Unit := do
  let m ← get
  throwWhen ((m.validatorUpdatesBySender.get sender).getD 0 + direction < 0) occupancyViolated
  modify fun m =>
    { m with validatorUpdatesBySender := m.validatorUpdatesBySender.tally sender direction }

def invalidateNonMiningEvictionCache : Method Mempool Unit :=
  modify fun m => { m with nonMiningEvictionCacheValid := false, nonMiningEvictionCache := none }

def store (tx : Measured) (txid : String) (nonceKey : Slot) (admittedAtMs : Int) :
    Method Mempool Unit := do
  modify fun m =>
    { m with
      byId := m.byId.set txid tx
      nonceIds := m.nonceIds.set nonceKey txid
      admittedAtMs :=
        m.admittedAtMs.set nonceKey ((m.admittedAtMs.get nonceKey).getD admittedAtMs) }
  adjustOccupancy tx 1
  adjustTransferSpend tx 1
  adjustSenderCount tx.sender 1
  if tx.isValidatorUpdate then
    adjustValidatorUpdateSender tx.sender 1
    modify fun m => { m with validatorUpdateIds := m.validatorUpdateIds.set tx.txid () }
  invalidateNonMiningEvictionCache

def deleteTransaction (txid : String) (tx : Measured) (keepAdmission : Bool) :
    Method Mempool Unit := do
  modify fun m =>
    { m with
      byId := m.byId.delete txid
      nonceIds := m.nonceIds.delete tx.slot
      admittedAtMs := if keepAdmission then m.admittedAtMs else m.admittedAtMs.delete tx.slot }
  adjustOccupancy tx (-1)
  adjustTransferSpend tx (-1)
  adjustSenderCount tx.sender (-1)
  if tx.isValidatorUpdate then
    adjustValidatorUpdateSender tx.sender (-1)
    modify fun m => { m with validatorUpdateIds := m.validatorUpdateIds.delete tx.txid }
  invalidateNonMiningEvictionCache

/-- `lowestPriorityEvictableTransfer`: the cached candidate, or a computed one that is cached. -/
def lowestPriorityEvictableTransfer : Method Mempool (Option EvictionCandidate) := do
  let m ← get
  if m.nonMiningEvictionCacheValid then
    pure m.nonMiningEvictionCache
  else
    let selected := computeLowestPriorityEvictableTransfer m.byId
    modify fun m =>
      { m with nonMiningEvictionCacheValid := true, nonMiningEvictionCache := selected }
    pure selected

/-- Whether one of the limits for the kind of the transaction is reached. -/
def AtCapacity (m : Mempool) (tx : Measured) : Prop :=
  m.config.maxNonMiningSize ≤ m.nonMiningSize ∨
    m.config.maxNonMiningBytes < m.nonMiningBytes + tx.bytes ∨
    tx.isTransfer = true ∧
      (m.config.maxNonMiningSize - m.config.protocolReserve ≤ m.transferSize ∨
        m.config.maxNonMiningBytes - m.config.protocolReserveBytes < m.transferBytes + tx.bytes)

instance (m : Mempool) (tx : Measured) : Decidable (m.AtCapacity tx) :=
  inferInstanceAs (Decidable (_ ∨ _))

/-- The eviction of `insertAfterCapacity`. -/
def makeRoom (tx : Measured) : Method Mempool Unit := do
  let m ← get
  throwWhen (m.config.disableFeeReplacement = true ∧ tx.isTransfer = true) mempoolFull
  let eviction ← lowestPriorityEvictableTransfer
  match eviction with
  | none => throw mempoolFull
  | some eviction =>
    throwWhen (tx.isTransfer = true ∧ hasRequiredFeeRateBump eviction.tx tx = false ∨
      m.config.maxNonMiningBytes < m.nonMiningBytes - eviction.tx.bytes + tx.bytes) mempoolFull
    deleteTransaction eviction.txid eviction.tx false

def insertAfterCapacity (tx : Measured) (admittedAtMs : Int) : Method Mempool Unit := do
  let m ← get
  if m.AtCapacity tx then
    makeRoom tx
  store tx tx.txid tx.slot admittedAtMs

/-! ### Methods -/

/-- The branch of `add` for a nonce that another transaction of the sender holds. -/
def replaceConflicting (conflictingId : String) (conflicting tx : Measured) (admittedAtMs : Int) :
    Method Mempool Unit := do
  let m ← get
  throwWhen (isValidReplacement conflicting tx m.config.disableFeeReplacement = false)
    "Conflicting sender nonce"
  throwWhen (m.config.maxNonMiningBytes < m.nonMiningBytes - conflicting.bytes + tx.bytes)
    mempoolFull
  deleteTransaction conflictingId conflicting true
  tryCatch (insertAfterCapacity tx admittedAtMs) fun error => do
    store conflicting conflictingId tx.slot admittedAtMs
    throw error

/-- `add` after the transaction has been measured. -/
def addMeasured (tx : Measured) (admittedAtMs : Int) : Method Mempool Unit := do
  let m ← get
  throwWhen (m.config.maxNonMiningBytes < tx.bytes) mempoolFull
  -- an empty id is falsy and counts as no conflict
  match (m.nonceIds.get tx.slot).filter (· ≠ "") with
  | some conflictingId =>
    match m.byId.get conflictingId with
    | none => throw "Cannot read properties of undefined (reading 'kind')"
    | some conflicting => replaceConflicting conflictingId conflicting tx admittedAtMs
  | none =>
    throwWhen (∃ cap ∈ m.config.maxPendingPerSender,
      cap ≤ (m.pendingBySender.get tx.sender).getD 0) "Per-sender mempool cap exceeded"
    insertAfterCapacity tx admittedAtMs

def belowMinTransferFeeMessage (feeAtoms minTransferFeeAtoms : Int) : String :=
  s!"Transfer fee {feeAtoms} atoms is below this node's minimum transfer fee of " ++
  s!"{minTransferFeeAtoms} atoms; resend with a fee of at least {minTransferFeeAtoms} atoms " ++
  s!"(CLI: --fee-atoms {minTransferFeeAtoms})"

/-- The checks of `add` before the transaction is measured. -/
def assertAdmissible (m : Mempool) (tx : Transaction) : Except String Unit := do
  throwIf (tx.isMiningClaim = true) miningRetired
  throwIf (tx.isTransfer = true ∧ ∃ fee ∈ m.config.fixedTransferFeeAtoms, tx.feeAtoms ≠ fee)
    fixedFeeMismatch
  throwIf (tx.isTransfer = true ∧ tx.feeAtoms < m.config.minTransferFeeAtoms)
    (belowMinTransferFeeMessage tx.feeAtoms m.config.minTransferFeeAtoms)
  throwIf (m.byId.has tx.txid = true) "Transaction already in mempool"

/-- What `add` hands on: the measured transaction, if the first checks pass. -/
def measure (m : Mempool) (tx : Transaction) : Except String Measured := do
  m.assertAdmissible tx
  match h : transactionBytes tx with
  | .error e => .error e
  | .ok bytes => .ok ⟨tx, bytes, h⟩

def add (tx : Transaction) (admittedAtMs : Int) : Method Mempool Unit := do
  let m ← get
  match m.measure tx with
  | .error e => throw e
  | .ok tx => addMeasured tx admittedAtMs

def remove : List String → Method Mempool Unit
  | [] => pure ()
  | txid :: txids => do
    let m ← get
    match m.byId.get txid with
    | none => remove txids
    | some tx => do
      deleteTransaction txid tx false
      remove txids

/-- The loop of `prune`; it deletes no entry but the one it is at, so it meets every entry that
the map had at the start once. -/
def pruneEntries (predicate : Transaction → Bool) : List (String × Measured) → Method Mempool Int
  | [] => pure 0
  | (txid, tx) :: entries => do
    if predicate tx.toTransaction then
      deleteTransaction txid tx false
      let removed ← pruneEntries predicate entries
      pure (removed + 1)
    else
      pruneEntries predicate entries

def prune (predicate : Transaction → Bool) : Method Mempool Int := do
  let m ← get
  pruneEntries predicate m.byId.entries

end Mempool

end ZyronChain
