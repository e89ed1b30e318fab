import ZyronChain.Mempool.State

/-!
# The indexes of the mempool

Every index and every counter is a total over the stored transactions, or says which of them has
a key.  Storing and deleting a transaction shift all totals by its weight, in the one direction or
the other, so both are cases of one lemma about `reindex`, the part the two methods share.

Between the deletion of a replaced transaction and the insertion that follows, the slot keeps its
admission time though nothing is stored in it; `Admitted` names such a slot.
-/

namespace ZyronChain

open Checks Method JsMap

namespace Mempool

/-! ### Weights -/

/-- Counts the transactions of a kind by `w`, each other one as nothing. -/
def weigh (kind : Measured → Bool) (w : Measured → Int) (tx : Measured) : Int :=
  if kind tx then w tx else 0

def isMining (tx : Measured) : Bool := tx.isMiningClaim

def isNonMining (tx : Measured) : Bool := !tx.isMiningClaim

def isTransferTx (tx : Measured) : Bool := tx.isTransfer

def sentBy (sender : Address) (tx : Measured) : Bool := tx.sender = sender

def isUpdateBy (sender : Address) (tx : Measured) : Bool :=
  decide (tx.sender = sender) && tx.isValidatorUpdate

theorem weigh_nonneg {kind : Measured → Bool} {w : Measured → Int} {tx : Measured}
    (h : 0 ≤ w tx) : 0 ≤ weigh kind w tx := by
  unfold weigh
  split
  · exact h
  · exact le_rfl

private theorem not_transfer_of_mining {tx : Transaction} (h : tx.isMiningClaim = true) :
    tx.isTransfer = false := by
  rw [Transaction.isMiningClaim] at h
  split at h
  · next heq => rw [Transaction.isTransfer, heq]
  · cases h

/-- The counters move by the weights of the transaction. -/
theorem count_eq (m : Mempool) (tx : Measured) (d : Int) :
    m.count tx d =
      { m with
        miningSize := m.miningSize + d * weigh isMining (fun _ => 1) tx
        miningBytes := m.miningBytes + d * weigh isMining Measured.bytes tx
        nonMiningSize := m.nonMiningSize + d * weigh isNonMining (fun _ => 1) tx
        nonMiningBytes := m.nonMiningBytes + d * weigh isNonMining Measured.bytes tx
        transferSize := m.transferSize + d * weigh isTransferTx (fun _ => 1) tx
        transferBytes := m.transferBytes + d * weigh isTransferTx Measured.bytes tx } := by
  by_cases hmining : tx.isMiningClaim = true
  · simp [count, weigh, isMining, isNonMining, isTransferTx, hmining,
      not_transfer_of_mining hmining]
  · by_cases htransfer : tx.isTransfer = true
    · simp [count, weigh, isMining, isNonMining, isTransferTx, hmining, htransfer]
    · simp [count, weigh, isMining, isNonMining, isTransferTx, hmining, htransfer]

/-! ### Invariants -/

/-- The counters are the totals over the stored transactions. -/
structure Counted (m : Mempool) : Prop where
  valid : m.config.Valid
  named : ∀ id tx, m.byId.get id = some tx → tx.txid = id ∧ id ≠ "" ∧ tx.isMiningClaim = false
  miningSize : m.miningSize = m.byId.total (weigh isMining fun _ => 1)
  miningBytes : m.miningBytes = m.byId.total (weigh isMining Measured.bytes)
  nonMiningSize : m.nonMiningSize = m.byId.total (weigh isNonMining fun _ => 1)
  nonMiningBytes : m.nonMiningBytes = m.byId.total (weigh isNonMining Measured.bytes)
  transferSize : m.transferSize = m.byId.total (weigh isTransferTx fun _ => 1)
  transferBytes : m.transferBytes = m.byId.total (weigh isTransferTx Measured.bytes)
  bytes_le : m.nonMiningBytes ≤ m.config.maxNonMiningBytes

/-- The counters and the indexes are those of the stored transactions. -/
structure Indexed (m : Mempool) : Prop extends Counted m where
  slots : ∀ slot id, m.nonceIds.get slot = some id ↔ ∃ tx, m.byId.get id = some tx ∧ tx.slot = slot
  spends : m.transferSpendBySender.Tallies fun s =>
    m.byId.total (weigh (sentBy s) Measured.transferSpend)
  pending : m.pendingBySender.Tallies fun s => m.byId.total (weigh (sentBy s) fun _ => 1)
  updates : m.validatorUpdatesBySender.Tallies fun s =>
    m.byId.total (weigh (isUpdateBy s) fun _ => 1)
  updateIds : ∀ id, m.validatorUpdateIds.get id = some () ↔
    ∃ tx, m.byId.get id = some tx ∧ tx.isValidatorUpdate = true

/-- Whether a transaction is stored for the slot. -/
def occupied (pool : JsMap String Measured) (slot : Slot) : Bool :=
  pool.entries.any fun e => e.2.slot = slot

/-- The slots with an admission time are those of the stored transactions and the held one. -/
def Admitted (held : Option Slot) (m : Mempool) : Prop :=
  ∀ slot, m.admittedAtMs.get slot ≠ none ↔ occupied m.byId slot = true ∨ held = some slot

/-- A valid cache holds the candidate that would be computed, an invalid one nothing. -/
def Cached (m : Mempool) : Prop :=
  m.nonMiningEvictionCache =
    if m.nonMiningEvictionCacheValid then computeLowestPriorityEvictableTransfer m.byId else none

theorem occupied_iff {pool : JsMap String Measured} {slot : Slot} :
    occupied pool slot = true ↔ ∃ id tx, pool.get id = some tx ∧ tx.slot = slot := by
  simp [occupied, get_eq_some_iff]

section

variable {m : Mempool}

private theorem total_weigh_nonneg {w : Measured → Int} (pool : JsMap String Measured)
    (kind : Measured → Bool) (h : ∀ tx, 0 ≤ w tx) : 0 ≤ pool.total (weigh kind w) :=
  total_nonneg fun e _ => weigh_nonneg (h e.2)

theorem Counted.mem (h : Counted m) {e : String × Measured} (he : e ∈ m.byId.entries) :
    e.2.isMiningClaim = false :=
  (h.named e.1 e.2 (get_eq_some_iff.mpr he)).2.2

/-- No mining claim is stored, so totals over the claims vanish. -/
theorem Counted.total_mining (h : Counted m) (w : Measured → Int) :
    m.byId.total (weigh isMining w) = 0 := by
  have hzero : m.byId.total (weigh isMining w) = m.byId.total fun _ => 0 :=
    total_congr fun e he => by rw [weigh, isMining, h.mem he]; rfl
  rw [hzero, total_zero]

theorem Counted.total_nonMining (h : Counted m) (w : Measured → Int) :
    m.byId.total (weigh isNonMining w) = m.byId.total w :=
  total_congr fun e he => by rw [weigh, isNonMining, h.mem he]; rfl

theorem Counted.not_badOccupancy (h : Counted m) : ¬ m.BadOccupancy := by
  have hsize := h.nonMiningSize
  have hbytes : 0 ≤ m.nonMiningBytes := by
    rw [h.nonMiningBytes]
    exact total_weigh_nonneg _ _ fun tx => tx.bytes_pos.le
  have hminingSize := h.miningSize
  have hminingBytes := h.miningBytes
  rw [h.total_mining] at hminingSize hminingBytes
  rw [h.total_nonMining, total_one] at hsize
  have hle := h.bytes_le
  have hpos := h.valid.maxMiningBytes_pos
  unfold BadOccupancy
  omega

end

/-! ### The part that storing and deleting share -/

/-- The updates of `store` and `deleteTransaction` after the maps of transactions. -/
private def reindex (tx : Measured) (d : Int) (ids : JsMap String Unit → JsMap String Unit) :
    Method Mempool Unit := do
  adjustOccupancy tx d
  adjustTransferSpend tx d
  adjustSenderCount tx.sender d
  if tx.isValidatorUpdate then
    adjustValidatorUpdateSender tx.sender d
    modify fun m => { m with validatorUpdateIds := ids m.validatorUpdateIds }
  invalidateNonMiningEvictionCache

/-- The fields after `reindex`. -/
private def reindexed (m : Mempool) (tx : Measured) (d : Int)
    (ids : JsMap String Unit → JsMap String Unit) : Mempool :=
  { m.count tx d with
    transferSpendBySender :=
      if tx.isTransfer then m.transferSpendBySender.tally tx.sender (d * tx.transferSpend)
      else m.transferSpendBySender
    pendingBySender := m.pendingBySender.tally tx.sender d
    validatorUpdatesBySender :=
      if tx.isValidatorUpdate then m.validatorUpdatesBySender.tally tx.sender d
      else m.validatorUpdatesBySender
    validatorUpdateIds :=
      if tx.isValidatorUpdate then ids m.validatorUpdateIds else m.validatorUpdateIds
    nonMiningEvictionCacheValid := false
    nonMiningEvictionCache := none }

private theorem adjustOccupancy_run {m : Mempool} {tx : Measured} {d : Int}
    (h : ¬ (m.count tx d).BadOccupancy) : adjustOccupancy tx d m = .ok () (m.count tx d) := by
  rw [adjustOccupancy, bind_of_ok (modify_run _ _), bind_of_ok (get_run _), throwWhen_of_not h]

private theorem adjustTransferSpend_run (m : Mempool) (tx : Measured) (d : Int) :
    adjustTransferSpend tx d m = .ok ()
      { m with transferSpendBySender :=
          if tx.isTransfer then m.transferSpendBySender.tally tx.sender (d * tx.transferSpend)
          else m.transferSpendBySender } := by
  rw [adjustTransferSpend, modify_run]
  split <;> rfl

private theorem adjustSenderCount_run {m : Mempool} {sender : Address} {d : Int}
    (h : ¬ (m.pendingBySender.get sender).getD 0 + d < 0) :
    adjustSenderCount sender d m = .ok ()
      { m with pendingBySender := m.pendingBySender.tally sender d } := by
  rw [adjustSenderCount, bind_of_ok (get_run _), bind_of_ok (throwWhen_of_not h _), modify_run]

private theorem adjustValidatorUpdateSender_run {m : Mempool} {sender : Address} {d : Int}
    (h : ¬ (m.validatorUpdatesBySender.get sender).getD 0 + d < 0) :
    adjustValidatorUpdateSender sender d m = .ok ()
      { m with validatorUpdatesBySender := m.validatorUpdatesBySender.tally sender d } := by
  rw [adjustValidatorUpdateSender, bind_of_ok (get_run _), bind_of_ok (throwWhen_of_not h _),
    modify_run]

private theorem reindex_run {m : Mempool} {tx : Measured} {d : Int}
    {ids : JsMap String Unit → JsMap String Unit} (hoccupancy : ¬ (m.count tx d).BadOccupancy)
    (hpending : ¬ (m.pendingBySender.get tx.sender).getD 0 + d < 0)
    (hupdates : tx.isValidatorUpdate = true →
      ¬ (m.validatorUpdatesBySender.get tx.sender).getD 0 + d < 0) :
    reindex tx d ids m = .ok () (m.reindexed tx d ids) := by
  have hcount := adjustOccupancy_run hoccupancy
  rw [count_eq] at hcount
  rw [reindexed, count_eq]
  refine (bind_of_ok hcount).trans ((bind_of_ok (adjustTransferSpend_run _ _ _)).trans ?_)
  refine (bind_of_ok (adjustSenderCount_run ?_)).trans ?_
  · exact hpending
  by_cases hupdate : tx.isValidatorUpdate = true
  · rw [if_pos hupdate, if_pos hupdate, if_pos hupdate]
    refine (bind_of_ok (adjustValidatorUpdateSender_run ?_)).trans rfl
    exact hupdates hupdate
  · rw [if_neg hupdate, if_neg hupdate, if_neg hupdate]
    rfl

section Totals

variable {pool pool' : JsMap String Measured} {tx : Measured} {d : Int} {index : JsMap Address Int}
  {w : Address → Measured → Int}

private theorem tallies_shift (h : index.Tallies fun s => pool.total (w s))
    (htotal : ∀ w, pool'.total w = pool.total w + d * w tx)
    (hother : ∀ s, s ≠ tx.sender → w s tx = 0) :
    (index.tally tx.sender (d * w tx.sender tx)).Tallies fun s => pool'.total (w s) := by
  refine h.tally (htotal _) fun s hs => ?_
  rw [htotal, hother s hs, mul_zero, add_zero]

private theorem tallies_keep (h : index.Tallies fun s => pool.total (w s))
    (htotal : ∀ w, pool'.total w = pool.total w + d * w tx) (hzero : ∀ s, w s tx = 0) :
    index.Tallies fun s => pool'.total (w s) := by
  simpa only [htotal, hzero, mul_zero, add_zero] using h

end Totals

private theorem weigh_sentBy_of_ne {w : Measured → Int} {tx : Measured} {s : Address}
    (h : s ≠ tx.sender) : weigh (sentBy s) w tx = 0 := by
  rw [weigh, if_neg]
  simpa [sentBy] using Ne.symm h

private theorem weigh_sentBy_self (w : Measured → Int) (tx : Measured) :
    weigh (sentBy tx.sender) w tx = w tx := by
  simp [weigh, sentBy]

private theorem transferSpend_of_not {tx : Measured} (h : tx.isTransfer ≠ true) :
    tx.transferSpend = 0 := by
  rw [Measured.transferSpend]
  split
  · next heq => exact absurd (by rw [Transaction.isTransfer, heq]) h
  · rfl

/-- The maps of transactions after they have moved by one transaction, and the set of ids of
updates with them. -/
private structure Moves (m : Mempool) (tx : Measured) (d : Int)
    (ids : JsMap String Unit → JsMap String Unit) (byId : JsMap String Measured)
    (nonceIds : JsMap Slot String) : Prop where
  total : ∀ w, byId.total w = m.byId.total w + d * w tx
  named : ∀ id t, byId.get id = some t → t.txid = id ∧ id ≠ "" ∧ t.isMiningClaim = false
  slots : ∀ slot id, nonceIds.get slot = some id ↔ ∃ t, byId.get id = some t ∧ t.slot = slot
  updateIds : ∀ id, (if tx.isValidatorUpdate then ids m.validatorUpdateIds
    else m.validatorUpdateIds).get id = some () ↔
      ∃ t, byId.get id = some t ∧ t.isValidatorUpdate = true
  bytes_le : m.nonMiningBytes + d * weigh isNonMining Measured.bytes tx ≤ m.config.maxNonMiningBytes

private theorem Indexed.reindexed {m : Mempool} {tx : Measured} {d : Int}
    {ids : JsMap String Unit → JsMap String Unit} (h : Indexed m)
    {byId : JsMap String Measured} {nonceIds : JsMap Slot String}
    (hmoves : Moves m tx d ids byId nonceIds) (admittedAtMs : JsMap Slot Int) :
    Indexed (({ m with byId := byId, nonceIds := nonceIds, admittedAtMs := admittedAtMs } :
      Mempool).reindexed tx d ids) := by
  rw [Mempool.reindexed, count_eq]
  refine
    { valid := h.valid
      named := hmoves.named
      miningSize := by rw [hmoves.total, ← h.miningSize]
      miningBytes := by rw [hmoves.total, ← h.miningBytes]
      nonMiningSize := by rw [hmoves.total, ← h.nonMiningSize]
      nonMiningBytes := by rw [hmoves.total, ← h.nonMiningBytes]
      transferSize := by rw [hmoves.total, ← h.transferSize]
      transferBytes := by rw [hmoves.total, ← h.transferBytes]
      bytes_le := hmoves.bytes_le
      slots := hmoves.slots
      spends := ?_
      pending := ?_
      updates := ?_
      updateIds := hmoves.updateIds }
  · by_cases htransfer : tx.isTransfer = true
    · rw [if_pos htransfer, ← weigh_sentBy_self Measured.transferSpend tx]
      exact tallies_shift h.spends hmoves.total fun s hs => weigh_sentBy_of_ne hs
    · rw [if_neg htransfer]
      refine tallies_keep h.spends hmoves.total fun s => ?_
      rw [weigh, transferSpend_of_not htransfer, ite_self]
  · have hone := weigh_sentBy_self (fun _ => 1) tx
    have hshift := tallies_shift h.pending hmoves.total fun s hs => weigh_sentBy_of_ne hs
    rw [hone, mul_one] at hshift
    exact hshift
  · by_cases hupdate : tx.isValidatorUpdate = true
    · have hone : weigh (isUpdateBy tx.sender) (fun _ => 1) tx = 1 := by
        simp [weigh, isUpdateBy, hupdate]
      have hshift := tallies_shift h.updates hmoves.total fun s hs => by
        simp [weigh, isUpdateBy, Ne.symm hs]
      rw [hone, mul_one] at hshift
      rw [if_pos hupdate]
      exact hshift
    · rw [if_neg hupdate]
      refine tallies_keep h.updates hmoves.total fun s => ?_
      simp [weigh, isUpdateBy, hupdate]

private theorem Indexed.reindex_spec {m : Mempool} {tx : Measured} {d : Int}
    {ids : JsMap String Unit → JsMap String Unit} (h : Indexed m)
    {byId : JsMap String Measured} {nonceIds : JsMap Slot String}
    (hmoves : Moves m tx d ids byId nonceIds) (admittedAtMs : JsMap Slot Int) :
    ∃ m', reindex tx d ids { m with
        byId := byId, nonceIds := nonceIds, admittedAtMs := admittedAtMs } = .ok () m' ∧
      Indexed m' ∧ Cached m' ∧ m'.config = m.config ∧ m'.byId = byId ∧
      m'.admittedAtMs = admittedAtMs := by
  have hindexed := h.reindexed hmoves admittedAtMs
  have hcounts : ∀ s, 0 ≤ byId.total (weigh (sentBy s) fun _ => 1) := fun s =>
    total_weigh_nonneg _ _ fun _ => by decide
  have hupdates : ∀ s, 0 ≤ byId.total (weigh (isUpdateBy s) fun _ => 1) := fun s =>
    total_weigh_nonneg _ _ fun _ => by decide
  refine ⟨_, reindex_run hindexed.not_badOccupancy ?_ fun hupdate => ?_, hindexed, ?_⟩
  · have hcount := hcounts tx.sender
    rw [hmoves.total, weigh_sentBy_self, mul_one] at hcount
    change ¬ (m.pendingBySender.get tx.sender).getD 0 + d < 0
    rw [h.pending.getD]
    omega
  · have hcount := hupdates tx.sender
    have hone : weigh (isUpdateBy tx.sender) (fun _ => 1) tx = 1 := by
      simp [weigh, isUpdateBy, hupdate]
    rw [hmoves.total, hone, mul_one] at hcount
    change ¬ (m.validatorUpdatesBySender.get tx.sender).getD 0 + d < 0
    rw [h.updates.getD]
    omega
  · rw [Mempool.reindexed, count_eq]
    exact ⟨rfl, rfl, rfl, rfl⟩

/-! ### Storing -/

/-- What `store` leaves. -/
structure Stored (m : Mempool) (tx : Measured) (admittedAtMs : Int) (m' : Mempool) : Prop where
  indexed : Indexed m'
  cached : Cached m'
  config : m'.config = m.config
  byId : m'.byId = m.byId.set tx.txid tx
  admittedAtMs :
    m'.admittedAtMs = m.admittedAtMs.set tx.slot ((m.admittedAtMs.get tx.slot).getD admittedAtMs)

private theorem weigh_nonMining {tx : Measured} (h : tx.isMiningClaim = false)
    (w : Measured → Int) : weigh isNonMining w tx = w tx := by
  simp [weigh, isNonMining, h]

private theorem Indexed.slots_set {m : Mempool} {tx : Measured} (h : Indexed m)
    (hfresh : m.byId.get tx.txid = none) (hslot : m.nonceIds.get tx.slot = none)
    (slot : Slot) (id : String) :
    (m.nonceIds.set tx.slot tx.txid).get slot = some id ↔
      ∃ t, (m.byId.set tx.txid tx).get id = some t ∧ t.slot = slot := by
  rw [get_set, get_set]
  by_cases hs : tx.slot = slot
  · subst hs
    rw [if_pos rfl, Option.some.injEq]
    by_cases hid : tx.txid = id
    · simp [hid]
    · rw [if_neg hid]
      refine iff_of_false hid ?_
      rintro hstored
      rw [← h.slots, hslot] at hstored
      cases hstored
  · rw [if_neg hs]
    by_cases hid : tx.txid = id
    · subst hid
      rw [if_pos rfl, h.slots, hfresh]
      simp [hs]
    · rw [if_neg hid]
      exact h.slots slot id

private theorem Indexed.updateIds_set {m : Mempool} {tx : Measured} (h : Indexed m)
    (hfresh : m.byId.get tx.txid = none) (id : String) :
    (if tx.isValidatorUpdate then m.validatorUpdateIds.set tx.txid ()
      else m.validatorUpdateIds).get id = some () ↔
        ∃ t, (m.byId.set tx.txid tx).get id = some t ∧ t.isValidatorUpdate = true := by
  have hnone : m.validatorUpdateIds.get tx.txid ≠ some () := by
    intro hid
    obtain ⟨t, ht, -⟩ := (h.updateIds _).mp hid
    rw [hfresh] at ht
    cases ht
  rw [get_set]
  by_cases hid : tx.txid = id
  · subst hid
    by_cases hupdate : tx.isValidatorUpdate = true
    · simp [hupdate]
    · simp [hupdate, hnone]
  · have hget : (if tx.isValidatorUpdate then m.validatorUpdateIds.set tx.txid ()
        else m.validatorUpdateIds).get id = m.validatorUpdateIds.get id := by
      split
      · exact get_set_of_ne hid
      · rfl
    rw [if_neg hid, hget]
    exact h.updateIds id

theorem store_spec {m : Mempool} {tx : Measured} {admittedAtMs : Int} (h : Indexed m)
    (htxid : tx.txid ≠ "") (hmining : tx.isMiningClaim = false)
    (hfresh : m.byId.get tx.txid = none) (hslot : m.nonceIds.get tx.slot = none)
    (hbytes : m.nonMiningBytes + tx.bytes ≤ m.config.maxNonMiningBytes) :
    ∃ m', store tx tx.txid tx.slot admittedAtMs m = .ok () m' ∧ Stored m tx admittedAtMs m' := by
  have hmoves : Moves m tx 1 (fun ids => ids.set tx.txid ()) (m.byId.set tx.txid tx)
      (m.nonceIds.set tx.slot tx.txid) :=
    { total := fun w => by rw [total_set w hfresh, one_mul]
      named := by
        intro id t hid
        rw [get_set] at hid
        split at hid
        · next heq =>
          cases hid
          exact ⟨heq, heq ▸ htxid, hmining⟩
        · exact h.named id t hid
      slots := h.slots_set hfresh hslot
      updateIds := h.updateIds_set hfresh
      bytes_le := by
        rw [weigh_nonMining hmining, one_mul]
        exact hbytes }
  obtain ⟨m', hrun, hindexed, hcached, hconfig, hbyId, hadmitted⟩ := h.reindex_spec hmoves
    (m.admittedAtMs.set tx.slot ((m.admittedAtMs.get tx.slot).getD admittedAtMs))
  exact ⟨m', hrun, hindexed, hcached, hconfig, hbyId, hadmitted⟩

/-! ### Deleting -/

/-- What `deleteTransaction` leaves. -/
structure Deleted (m : Mempool) (tx : Measured) (keepAdmission : Bool) (m' : Mempool) : Prop where
  indexed : Indexed m'
  cached : Cached m'
  config : m'.config = m.config
  byId : m'.byId = m.byId.delete tx.txid
  admittedAtMs : m'.admittedAtMs =
    if keepAdmission then m.admittedAtMs else m.admittedAtMs.delete tx.slot

theorem Indexed.eq_of_slot {m : Mempool} (h : Indexed m) {id id' : String} {tx tx' : Measured}
    (hid : m.byId.get id = some tx) (hid' : m.byId.get id' = some tx') (hslot : tx.slot = tx'.slot) :
    id = id' := by
  have hget := (h.slots tx.slot id).mpr ⟨tx, hid, rfl⟩
  have hget' := (h.slots tx.slot id').mpr ⟨tx', hid', hslot.symm⟩
  rw [hget, Option.some.injEq] at hget'
  exact hget'

private theorem Indexed.slots_delete {m : Mempool} {tx : Measured} (h : Indexed m)
    (hstored : m.byId.get tx.txid = some tx) (slot : Slot) (id : String) :
    (m.nonceIds.delete tx.slot).get slot = some id ↔
      ∃ t, (m.byId.delete tx.txid).get id = some t ∧ t.slot = slot := by
  rw [get_delete, get_delete]
  by_cases hid : id = tx.txid
  · subst hid
    rw [if_pos rfl]
    refine iff_of_false (fun hget => ?_) (by simp)
    split at hget
    · cases hget
    · next hne =>
      obtain ⟨t, ht, hslot⟩ := (h.slots slot tx.txid).mp hget
      rw [hstored, Option.some.injEq] at ht
      exact hne (by rw [ht, hslot])
  · rw [if_neg hid]
    split
    · next heq =>
      refine iff_of_false (by simp) ?_
      rintro ⟨t, ht, hslot⟩
      exact hid (h.eq_of_slot ht hstored (hslot.trans heq))
    · exact h.slots slot id

private theorem Indexed.updateIds_delete {m : Mempool} {tx : Measured} (h : Indexed m)
    (hstored : m.byId.get tx.txid = some tx) (id : String) :
    (if tx.isValidatorUpdate then m.validatorUpdateIds.delete tx.txid
      else m.validatorUpdateIds).get id = some () ↔
        ∃ t, (m.byId.delete tx.txid).get id = some t ∧ t.isValidatorUpdate = true := by
  rw [get_delete]
  by_cases hid : id = tx.txid
  · subst hid
    by_cases hupdate : tx.isValidatorUpdate = true
    · simp [hupdate, get_delete]
    · simp [hupdate, h.updateIds, hstored]
  · have hget : (if tx.isValidatorUpdate then m.validatorUpdateIds.delete tx.txid
        else m.validatorUpdateIds).get id = m.validatorUpdateIds.get id := by
      split
      · rw [get_delete, if_neg hid]
      · rfl
    rw [if_neg hid, hget]
    exact h.updateIds id

theorem deleteTransaction_spec {m : Mempool} {id : String} {tx : Measured} (h : Indexed m)
    (hstored : m.byId.get id = some tx) (keepAdmission : Bool) :
    ∃ m', deleteTransaction id tx keepAdmission m = .ok () m' ∧ Deleted m tx keepAdmission m' := by
  obtain ⟨rfl, -, hmining⟩ := h.named id tx hstored
  have hmoves : Moves m tx (-1) (fun ids => ids.delete tx.txid) (m.byId.delete tx.txid)
      (m.nonceIds.delete tx.slot) :=
    { total := fun w => by rw [total_delete w hstored]; ring
      named := by
        intro id t hid
        rw [get_delete] at hid
        split at hid
        · cases hid
        · exact h.named id t hid
      slots := h.slots_delete hstored
      updateIds := h.updateIds_delete hstored
      bytes_le := by
        have hle := h.bytes_le
        have hpos := tx.bytes_pos
        rw [weigh_nonMining hmining]
        omega }
  obtain ⟨m', hrun, hindexed, hcached, hconfig, hbyId, hadmitted⟩ := h.reindex_spec hmoves
    (if keepAdmission then m.admittedAtMs else m.admittedAtMs.delete tx.slot)
  exact ⟨m', hrun, hindexed, hcached, hconfig, hbyId, hadmitted⟩

end Mempool

end ZyronChain
