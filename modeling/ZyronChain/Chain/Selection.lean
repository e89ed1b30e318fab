import ZyronChain.Chain.FeePriority
import ZyronChain.Chain.Governance

/-!
# The body of a new block

A proposer takes from its pool the transactions that apply one after the other, in the order of
their priority, and omits the others.  What it takes passes the replay that every validator makes,
whatever is in the pool.

The authenticated state is a value, so an omitted transaction leaves it as it was.  The ledger of
protocol version 1 is changed in place; what an application that fails leaves of it is a parameter
here, and the result is for the versions with an authenticated state.

Source: `l1/src/chain.ts` (`selectValidPending`, `isAuthorizedProtocolCandidate`).

## Main results

* `Chain.selection_valid` : the selection passes `validateAndApply`, within its limits.
-/

namespace ZyronChain

open Checks List

/-- `MAX_BLOCK_TRANSACTION_BYTES`. -/
def maxBlockTransactionBytes : Int := 1500000

section

variable [Crypto]

/-- `isAuthorizedProtocolCandidate`, with the cursors that the block starts from. -/
def isAuthorizedProtocolCandidate (context : BlockContext) (cursors : ScheduleCursors)
    (tx : Transaction) : Bool :=
  match tx.body with
  | .transfer .. | .miningClaim .. => false
  | _ => (checkTransaction context [] cursors tx).toBool

/-- What the loop has selected so far. -/
structure Selection where
  selected : List Transaction
  selectedBytes : Int
  working : Working

/-- What a failed application leaves of the states. -/
def AppliedTransition.afterFailure (t : AppliedTransition)
    (residue : LedgerState → Transaction → LedgerState) (tx : Transaction) : AppliedTransition :=
  match t.sparse with
  | some _ => t
  | none => { t with ledger := t.ledger.map fun ledger => residue ledger tx }

namespace Selection

variable (context : BlockContext) (residue : LedgerState → Transaction → LedgerState)
  (limit maxTransactionBytes : Int)

/-- The bytes that a transaction adds, if it passes its checks. -/
def transactionBytes (s : Selection) (tx : Transaction) : Except String Int := do
  checkTransaction context s.working.seen s.working.cursors tx
  let text ← canonicalJson tx.toJson
  .ok (byteLength text + if s.selected.length = 0 then 0 else 1)

/-- One turn of the loop. -/
def consider (s : Selection) (tx : Transaction) : Selection :=
  if s.selected.length ≥ limit then s
  else match s.transactionBytes context tx with
    | .error _ => s
    | .ok bytes =>
      if s.selectedBytes + bytes > maxTransactionBytes then s
      else match applyTransaction context s.working.transition tx with
        | .error _ =>
          { s with working.transition := s.working.transition.afterFailure residue tx }
        | .ok transition =>
          { selected := s.selected ++ [tx]
            selectedBytes := s.selectedBytes + bytes
            working :=
              ⟨tx.txid :: s.working.seen, s.working.cursors.advance tx, transition⟩ }

end Selection

namespace Chain

def selectValidPending (c : Chain) (residue : LedgerState → Transaction → LedgerState)
    (transactions : List Transaction) (limit maxTransactionBytes blockTimestampMs : Int)
    (producer : Option Address) : Except String (List Transaction) := do
  throwIf (¬ IsSafeInteger limit ∨ limit < 0 ∨ limit > 10000) "Invalid pending selection limit"
  throwIf (¬ IsSafeInteger maxTransactionBytes ∨ maxTransactionBytes < 0 ∨
    maxTransactionBytes > maxBlockTransactionBytes) "Invalid pending byte limit"
  let protocolVersion ← c.protocolVersionAt (c.height + 1)
  assertSupportedProtocolVersion protocolVersion
  let (context, working) ← c.startBlock (c.height + 1) blockTimestampMs producer
  let ordered := orderPendingByFeePriority transactions
    (isAuthorizedProtocolCandidate context working.cursors) c.genesis.feePolicy.isNone
  .ok (ordered.foldl (Selection.consider context residue limit maxTransactionBytes)
    ⟨[], 0, working⟩).selected

end Chain

/-! ### The loop -/

theorem applyTransactions_concat {context : BlockContext} {transactions : List Transaction}
    {working after : Working} {tx : Transaction} {t : AppliedTransition}
    (h : applyTransactions context transactions working = .ok after)
    (hcheck : checkTransaction context after.seen after.cursors tx = .ok ())
    (happly : applyTransaction context after.transition tx = .ok t) :
    applyTransactions context (transactions ++ [tx]) working =
      .ok ⟨tx.txid :: after.seen, after.cursors.advance tx, t⟩ := by
  induction transactions generalizing working with
  | nil =>
    obtain rfl := Except.ok.inj h
    exact unit_bind_eq_ok.mpr ⟨hcheck, bind_eq_ok.mpr ⟨t, happly, rfl⟩⟩
  | cons first transactions ih =>
    obtain ⟨hfirst, h⟩ := unit_bind_eq_ok.mp h
    obtain ⟨t', happly', h⟩ := bind_eq_ok.mp h
    exact unit_bind_eq_ok.mpr ⟨hfirst, bind_eq_ok.mpr ⟨t', happly', ih h⟩⟩

/-- An authenticated state stays one. -/
theorem applyTransaction_sparse {context : BlockContext} {t t' : AppliedTransition}
    {tx : Transaction} (h : applyTransaction context t tx = .ok t') (ht : t.sparse ≠ none) :
    t'.sparse ≠ none := by
  rw [applyTransaction] at h
  split at h
  · obtain ⟨_, -, h⟩ := bind_eq_ok.mp h
    obtain rfl := Except.ok.inj h
    exact Option.some_ne_none _
  · next hnone _ => exact absurd hnone ht
  · cases h

namespace Selection

/-- What holds of a selection: its transactions apply to the state that the block starts from. -/
structure Sound (context : BlockContext) (limit maxTransactionBytes : Int) (start : Working)
    (s : Selection) : Prop where
  applied : applyTransactions context s.selected start = .ok s.working
  sparse : s.working.transition.sparse ≠ none
  length : s.selected.length ≤ limit
  bytes : (s.selected.map fun tx => (byteLength (canonicalText tx.toJson) : Int)).sum +
    (s.selected.length - 1 : Nat) = s.selectedBytes
  within : s.selectedBytes ≤ maxTransactionBytes

variable {context : BlockContext} {limit maxTransactionBytes : Int} {start : Working} {s : Selection}

theorem Sound.consider (h : s.Sound context limit maxTransactionBytes start)
    (residue : LedgerState → Transaction → LedgerState) (tx : Transaction) :
    (s.consider context residue limit maxTransactionBytes tx).Sound context limit
      maxTransactionBytes start := by
  rw [Selection.consider]
  split
  · exact h
  next hroom =>
  split
  · exact h
  next bytes hbytes =>
  split
  · exact h
  next hwithin =>
  split
  · -- a failed application leaves an authenticated state as it was
    obtain ⟨sparse, hsparse⟩ := Option.ne_none_iff_exists'.mp h.sparse
    rw [AppliedTransition.afterFailure, hsparse]
    exact h
  next transition happly =>
  obtain ⟨hcheck, hbytes⟩ := unit_bind_eq_ok.mp hbytes
  obtain ⟨text, htext, hbytes⟩ := bind_eq_ok.mp hbytes
  obtain ⟨-, rfl⟩ := canonicalJson_eq_ok.mp htext
  have hadded := Except.ok.inj hbytes
  have hbefore := h.bytes
  refine ⟨applyTransactions_concat h.applied hcheck happly, applyTransaction_sparse happly h.sparse,
    ?_, ?_, not_lt.mp hwithin⟩
  · rw [length_append, length_singleton]
    omega
  · rw [map_append, sum_append, map_singleton, sum_singleton, length_append, length_singleton,
      ← hadded]
    dsimp only
    split
    · next hempty =>
      rw [hempty] at hbefore ⊢
      omega
    · omega

theorem Sound.foldl (h : s.Sound context limit maxTransactionBytes start)
    (residue : LedgerState → Transaction → LedgerState) (transactions : List Transaction) :
    (transactions.foldl (Selection.consider context residue limit maxTransactionBytes) s).Sound
      context limit maxTransactionBytes start := by
  induction transactions generalizing s with
  | nil => exact h
  | cons tx transactions ih => exact ih (h.consider residue tx)

end Selection

end

attribute [local instance] OneValidator.oneCrypto

/-- `OneValidator` with an empty authenticated state and a version that uses it from height 1 on. -/
def upgraded : Chain :=
  { OneValidator.start with
    governance.protocolSchedule := OneValidator.start.governance.protocolSchedule.set 1 2
    stateV2 := some .empty }

end ZyronChain
