import ZyronChain.ActivityOracle
import ZyronChain.AllocationLocks
import ZyronChain.CanonicalForm
import ZyronChain.Lib.SortedMap

/-!
# The ledger

The accounts of protocol version 1 and what each transaction does to them.  Every observation of the
account map sorts its entries or does not depend on their order, so the map is kept in order.  The
chain always passes its activity-oracle set to `apply`.

Source: `l1/src/state.ts`, `l1/src/fee-policy.ts` (`splitFixedFee`).
-/

namespace ZyronChain

open Checks

/-! ### The order of strings -/

/-- `compareCanonicalStrings(left, right) < 0`. -/
def canonicalLt (left right : String) : Prop := List.instLT.lt (utf16 left) (utf16 right)

instance decidableCanonicalLt : DecidableRel canonicalLt := fun left right =>
  inferInstanceAs (Decidable (List.instLT.lt (utf16 left) (utf16 right)))

instance canonicalLt_isStrictTotalOrder : IsStrictTotalOrder String canonicalLt where
  trichotomous _ _ hab hba :=
    utf16_injective (List.le_antisymm (List.not_lt.mp hba) (List.not_lt.mp hab))
  irrefl a := List.lt_irrefl (utf16 a)
  trans _ _ _ := List.lt_trans

/-! ### Accounts -/

structure AccountState where
  balanceAtoms : Int
  nonce : Int
deriving DecidableEq, Repr

structure LedgerState where
  accounts : SortedMap canonicalLt AccountState
  settledActivityEpochs : SortedSet (fun a b : Int => a < b)
deriving DecidableEq

structure FixedFeeApplication where
  producer : Address
  fixedTransferFeeAtoms : Int
deriving DecidableEq, Repr

/-- The producer's share of a fee; the rest, with the odd atom, is burned. -/
def producerShare (feeAtoms : Int) : Int := feeAtoms / 2

/-- `splitFixedFee(feeAtoms).producerAtoms`. -/
def splitFixedFee (feeAtoms : Int) : Except String Int := do
  throwIf (¬ IsSafeInteger feeAtoms ∨ feeAtoms < 0) "Invalid fixed transfer fee"
  .ok (producerShare feeAtoms)

def invalidNonce : String := "Invalid nonce"

def insufficientBalance : String := "Insufficient balance"

def balanceOverflow : String := "Balance overflow"

namespace LedgerState

def empty : LedgerState := ⟨.empty, .empty⟩

/-- The account of an address, with nothing in it if there is none. -/
def account (L : LedgerState) (address : Address) : AccountState :=
  (L.accounts.get address).getD ⟨0, 0⟩

def balance (L : LedgerState) (address : Address) : Int := (L.account address).balanceAtoms

def nonce (L : LedgerState) (address : Address) : Int := (L.account address).nonce

def isActivityEpochSettled (L : LedgerState) (epoch : Int) : Bool := L.settledActivityEpochs.has epoch

/-- The accounts with one of them replaced. -/
def setAccount (L : LedgerState) (address : Address) (account : AccountState) : LedgerState :=
  { L with accounts := L.accounts.set address account }

def requireNonce (L : LedgerState) (address : Address) (nonce : Int) : Except String Unit :=
  throwIf (nonce ≠ L.nonce address + 1) invalidNonce

def credit (L : LedgerState) (address : Address) (amount : Int) : Except String LedgerState := do
  let next := L.balance address + amount
  throwIf (¬ IsSafeInteger next ∨ next > maxSupplyAtoms) balanceOverflow
  .ok (L.setAccount address { L.account address with balanceAtoms := next })

def debit (L : LedgerState) (address : Address) (amount : Int) : Except String LedgerState := do
  throwIf (L.balance address < amount) insufficientBalance
  .ok (L.setAccount address
    { L.account address with balanceAtoms := L.balance address - amount })

def setNonce (L : LedgerState) (address : Address) (nonce : Int) : LedgerState :=
  L.setAccount address { L.account address with nonce := nonce }

def addEpoch (L : LedgerState) (epoch : Int) : LedgerState :=
  { L with settledActivityEpochs := L.settledActivityEpochs.set epoch () }

/-! ### Genesis -/

/-- The loop of `fromGenesis`. -/
def creditAllocations : List Allocation → Int → LedgerState → Except String LedgerState
  | [], _, L => .ok L
  | a :: allocations, supply, L => do
    throwIf (¬ IsSafeInteger a.amountAtoms ∨ a.amountAtoms < 0) "Invalid genesis allocation"
    throwIf (¬ IsSafeInteger (supply + a.amountAtoms) ∨ supply + a.amountAtoms > maxSupplyAtoms)
      genesisSupplyExceeded
    let L ← L.credit a.address a.amountAtoms
    creditAllocations allocations (supply + a.amountAtoms) L

/-- `LedgerState.fromGenesis`. -/
def fromGenesis (g : GenesisConfig) : Except String LedgerState :=
  creditAllocations g.allocations 0 .empty

/-! ### Transactions -/

def creditProducerFee (L : LedgerState) (feeAtoms : Int) (fee : FixedFeeApplication)
    (activityPool : Address) : Except String LedgerState := do
  throwIf (feeAtoms ≠ fee.fixedTransferFeeAtoms) fixedFeeMismatch
  let producerAtoms ← splitFixedFee feeAtoms
  if producerAtoms ≤ 0 then .ok L
  else do
    throwIf (fee.producer = miningTrackerAddress) trackerReserved
    assertNoActivityPoolInflow fee.producer activityPool
    L.credit fee.producer producerAtoms

/-- The producer's share, where the genesis has a fee policy. -/
def creditFee (L : LedgerState) (feeAtoms : Int) (fee : Option FixedFeeApplication)
    (activityPool : Address) : Except String LedgerState :=
  match fee with
  | none => .ok L
  | some fee => L.creditProducerFee feeAtoms fee activityPool

def applyTransfer (L : LedgerState) (tx : Transaction) (receiver : Address) (amountAtoms : Int)
    (locks : Option AllocationLockContext) (activityPool : Address)
    (fee : Option FixedFeeApplication) : Except String LedgerState := do
  throwIf (tx.sender = miningTrackerAddress ∨ receiver = miningTrackerAddress) trackerReserved
  L.requireNonce tx.sender tx.nonce
  let total := amountAtoms + tx.feeAtoms
  throwIf (¬ IsSafeInteger total ∨ L.balance tx.sender < total) insufficientBalance
  assertAllocationLockOutflow locks tx.sender (L.balance tx.sender) total
  let L ← L.debit tx.sender total
  let L ← L.credit receiver amountAtoms
  let L ← L.creditFee tx.feeAtoms fee activityPool
  .ok (L.setNonce tx.sender tx.nonce)

def creditEntries : List ActivityEntry → LedgerState → Except String LedgerState
  | [], L => .ok L
  | entry :: entries, L => do
    let L ← L.credit entry.receiver entry.amountAtoms
    creditEntries entries L

/-- The rolling cap, where it is enforced. -/
def assertRollingWindow (L : LedgerState) (entries : List ActivityEntry)
    (locks : Option AllocationLockContext) (rollingWindow : Bool) (total capAtoms : Int) :
    Except String Unit :=
  if rollingWindow then do
    throwIf (entries.any fun entry => isActivityWindowAddress entry.receiver) windowReserved
    assertActivityRollingWindow (L.nonce activityWindowTimeAddress)
      (L.nonce activityWindowAmountAddress) (locks.map AllocationLockContext.blockTimestampMs) total
      capAtoms
  else .ok ()

/-- The record of the rolling window: the time and the amount of the last settlement. -/
def recordWindow (L : LedgerState) (locks : Option AllocationLockContext) (rollingWindow : Bool)
    (total : Int) : LedgerState :=
  match rollingWindow, locks with
  | true, some locks => (L.setNonce activityWindowTimeAddress locks.blockTimestampMs).setNonce
      activityWindowAmountAddress total
  | _, _ => L

def epochSettled : String := "Activity epoch already settled"

def epochOrder : String := "Activity epochs must settle in increasing order"

def applyActivity (L : LedgerState) (tx : Transaction) (s : ActivitySettlement)
    (activityPool : Address) (locks : Option AllocationLockContext) (rollingWindow : Bool)
    (capAtoms : Int) : Except String LedgerState := do
  throwIf (tx.sender ≠ activityPool) "Invalid activity pool sender"
  forEach (fun entry => assertNoActivityPoolInflow entry.receiver activityPool) s.entries
  throwIf (s.entries.any fun entry => entry.receiver == miningTrackerAddress) trackerReserved
  throwIf (L.isActivityEpochSettled s.epoch) epochSettled
  throwIf (L.isActivityEpochSettled (s.epoch + 1)) epochOrder
  L.requireNonce activityPool tx.nonce
  let total ← assertActivitySettlementWithinCap s.entries capAtoms
  L.assertRollingWindow s.entries locks rollingWindow total capAtoms
  throwIf (L.balance activityPool < total) "Activity pool exhausted"
  assertAllocationLockOutflow locks activityPool (L.balance activityPool) total
  let L ← L.debit activityPool total
  let L ← creditEntries s.entries L
  .ok (((L.setNonce activityPool tx.nonce).addEpoch s.epoch).recordWindow locks rollingWindow total)

/-- `applyValidatorUpdate`, `applyActivityOracleGovernance` and `applyProtocolUpgrade`. -/
def applyGovernance (L : LedgerState) (tx : Transaction) : Except String LedgerState := do
  throwIf (tx.sender = miningTrackerAddress) trackerReserved
  L.requireNonce tx.sender tx.nonce
  .ok (L.setNonce tx.sender tx.nonce)

/-- The reserved receivers of a transfer. -/
def assertTransferAllowed (tx : Transaction) (receiver activityPool : Address)
    (rollingWindow : Bool) : Except String Unit := do
  assertNoActivityPoolInflow receiver activityPool
  assertNoActivityPoolDirectDebit tx.sender activityPool rollingWindow
  throwIf (rollingWindow = true ∧ isActivityWindowAddress receiver = true) windowReserved

/-- The context in which an applier authorizes a settlement. -/
def applierContext (tx : Transaction) (locks : Option AllocationLockContext)
    (oracles : ActivityOracleSet) : ActivityOracleAuthContext :=
  { chainId := some tx.chainId
    blockTimestampMs := locks.map AllocationLockContext.blockTimestampMs
    genesisTimestampMs := oracles.timestampMs }

def apply [Crypto] (L : LedgerState) (tx : Transaction) (activityPool : Address)
    (locks : Option AllocationLockContext) (oracles : ActivityOracleSet)
    (fee : Option FixedFeeApplication) : Except String LedgerState :=
  match tx.body with
  | .transfer receiver amountAtoms => do
    assertTransferAllowed tx receiver activityPool oracles.activityRollingWindowEnforced
    L.applyTransfer tx receiver amountAtoms locks activityPool fee
  | .activitySettlement epoch entries receiptRoot oracleApprovals attestationExpiresAtMs => do
    let s := ⟨epoch, entries, receiptRoot, oracleApprovals, attestationExpiresAtMs⟩
    assertActivitySettlementAuthorized tx s oracles (applierContext tx locks oracles)
    L.applyActivity tx s activityPool locks oracles.activityRollingWindowEnforced
      oracles.activitySettlementCapAtoms
  | .miningClaim .. => .error miningRetired
  | .validatorUpdate .. | .activityOracleGovernance .. | .protocolUpgrade .. => L.applyGovernance tx

end LedgerState

/-! ### Snapshots -/

structure LedgerSnapshot where
  accounts : List (Address × AccountState)
  settledActivityEpochs : List Int
deriving DecidableEq, Repr

def snapshotAccountJson (entry : Address × AccountState) : Json :=
  .obj [("address", .str entry.1), ("balanceAtoms", .num entry.2.balanceAtoms),
    ("nonce", .num entry.2.nonce)]

def LedgerSnapshot.toJson (s : LedgerSnapshot) : Json :=
  .obj [("accounts", .arr (s.accounts.map snapshotAccountJson)),
    ("settledActivityEpochs", .arr (s.settledActivityEpochs.map .num))]

namespace LedgerState

def snapshot (L : LedgerState) : LedgerSnapshot :=
  ⟨L.accounts.entries, L.settledActivityEpochs.keys⟩

def root [Crypto] (L : LedgerState) : String := sha256Hex (canonicalText L.snapshot.toJson)

/-- The loop over the accounts in `fromSnapshot`, with the supply and the address before. -/
def readAccounts : List (Address × AccountState) → Int → String → SortedMap canonicalLt AccountState →
    Except String (SortedMap canonicalLt AccountState)
  | [], _, _, accounts => .ok accounts
  | (address, account) :: rest, supply, previousAddress, accounts => do
    assertAddress address
    throwIf (¬ canonicalLt previousAddress address) "Ledger snapshot accounts are not canonical"
    throwIf (¬ IsSafeInteger account.balanceAtoms ∨ account.balanceAtoms < 0 ∨
      ¬ IsSafeInteger account.nonce ∨ account.nonce < 0) "Invalid ledger snapshot account state"
    throwIf (¬ IsSafeInteger (supply + account.balanceAtoms) ∨
      supply + account.balanceAtoms > maxSupplyAtoms) "Ledger snapshot supply exceeds maximum"
    readAccounts rest (supply + account.balanceAtoms) address (accounts.set address account)

/-- The loop over the epochs in `fromSnapshot`, with the epoch before. -/
def readEpochs : List Int → Int → SortedSet (fun a b : Int => a < b) →
    Except String (SortedSet (fun a b : Int => a < b))
  | [], _, epochs => .ok epochs
  | epoch :: rest, previousEpoch, epochs => do
    throwIf (¬ IsSafeInteger epoch ∨ epoch < 0 ∨ epoch ≤ previousEpoch)
      "Invalid ledger snapshot activity epochs"
    readEpochs rest epoch (epochs.set epoch ())

/-- `LedgerState.fromSnapshot`. -/
def fromSnapshot (s : LedgerSnapshot) : Except String LedgerState := do
  let accounts ← readAccounts s.accounts 0 "" .empty
  let epochs ← readEpochs s.settledActivityEpochs (-1) .empty
  .ok ⟨accounts, epochs⟩

def total (L : LedgerState) : Int := L.accounts.sum AccountState.balanceAtoms

/-- The loop of `totalSupplyAtoms`. -/
def sumSupply : List (Address × AccountState) → Int → Except String Int
  | [], supply => .ok supply
  | entry :: rest, supply => do
    throwIf (¬ IsSafeInteger (supply + entry.2.balanceAtoms) ∨
      supply + entry.2.balanceAtoms > maxSupplyAtoms) "Ledger supply exceeds maximum"
    sumSupply rest (supply + entry.2.balanceAtoms)

def totalSupplyAtoms (L : LedgerState) : Except String Int := sumSupply L.accounts.entries 0

end LedgerState

end ZyronChain
