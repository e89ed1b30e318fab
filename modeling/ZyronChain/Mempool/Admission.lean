import ZyronChain.CanonicalForm
import ZyronChain.Mempool.Indexes

/-!
# Adding to the mempool

What `add` leaves, branch by branch: a refused transaction leaves every lookup as it was, also
when a replacement has already deleted the transaction it replaces, and an admitted one replaces
the transaction of its slot, evicts at most one other and is stored.

The admission times are compared with a history of the run: a slot that a call fills has the time
of that call until nothing is stored in it.

Source: `l1/src/mempool.ts`.
-/

namespace ZyronChain

open Checks Method JsMap Option List

namespace Mempool

/-- Every index is the one recomputed from the stored transactions. -/
structure Consistent (m : Mempool) : Prop extends Indexed m where
  cached : Cached m
  admitted : Admitted none m

/-! ### Pools with the same transactions -/

/-- The same transactions, indexes, counters and admission times.  The entries of a map may stand
in another order. -/
structure Unchanged (m m' : Mempool) : Prop where
  config : m'.config = m.config
  byId : m'.byId.Same m.byId
  nonceIds : m'.nonceIds.Same m.nonceIds
  transferSpendBySender : m'.transferSpendBySender.Same m.transferSpendBySender
  pendingBySender : m'.pendingBySender.Same m.pendingBySender
  validatorUpdatesBySender : m'.validatorUpdatesBySender.Same m.validatorUpdatesBySender
  validatorUpdateIds : m'.validatorUpdateIds.Same m.validatorUpdateIds
  admittedAtMs : m'.admittedAtMs = m.admittedAtMs
  miningSize : m'.miningSize = m.miningSize
  miningBytes : m'.miningBytes = m.miningBytes
  nonMiningSize : m'.nonMiningSize = m.nonMiningSize
  nonMiningBytes : m'.nonMiningBytes = m.nonMiningBytes
  transferSize : m'.transferSize = m.transferSize
  transferBytes : m'.transferBytes = m.transferBytes

private theorem option_unit_ext {a b : Option Unit} (h : a = some () ↔ b = some ()) : a = b := by
  cases a <;> cases b <;> simp_all

theorem Indexed.unchanged {m m' : Mempool} (h : Indexed m) (h' : Indexed m')
    (hconfig : m'.config = m.config) (hbyId : m'.byId.Same m.byId)
    (hadmitted : m'.admittedAtMs = m.admittedAtMs) : Unchanged m m' where
  config := hconfig
  byId := hbyId
  nonceIds := fun slot => Option.ext fun id => by
    rw [h'.slots, h.slots, hbyId id]
  transferSpendBySender := h'.spends.same (by simpa only [hbyId.total_eq] using h.spends)
  pendingBySender := h'.pending.same (by simpa only [hbyId.total_eq] using h.pending)
  validatorUpdatesBySender := h'.updates.same (by simpa only [hbyId.total_eq] using h.updates)
  validatorUpdateIds := fun id => option_unit_ext (by rw [h'.updateIds, h.updateIds, hbyId id])
  admittedAtMs := hadmitted
  miningSize := by rw [h'.miningSize, h.miningSize, hbyId.total_eq]
  miningBytes := by rw [h'.miningBytes, h.miningBytes, hbyId.total_eq]
  nonMiningSize := by rw [h'.nonMiningSize, h.nonMiningSize, hbyId.total_eq]
  nonMiningBytes := by rw [h'.nonMiningBytes, h.nonMiningBytes, hbyId.total_eq]
  transferSize := by rw [h'.transferSize, h.transferSize, hbyId.total_eq]
  transferBytes := by rw [h'.transferBytes, h.transferBytes, hbyId.total_eq]

/-! ### The candidate for eviction -/

variable {highest : JsMap Address Int} {v : EvictionCandidate} {pool : JsMap String Measured}
  {m m' m₁ : Mempool} {id : String} {tx : Measured} {admittedAtMs : Int}

private theorem highest_step {s : Address} {n : Int} (h : highest.get s = some n) (tx : Measured) :
    ∃ n', (highest.set tx.sender (max ((highest.get tx.sender).getD 0) tx.nonce)).get s = some n' ∧
      n ≤ n' := by
  rw [get_set]
  by_cases hs : tx.sender = s
  · subst hs
    rw [if_pos rfl, h]
    exact ⟨_, rfl, le_max_left _ _⟩
  · rw [if_neg hs]
    exact ⟨n, h, le_rfl⟩

private theorem highest_fold {entries : List (String × Measured)} {s : Address} {n : Int}
    (h : highest.get s = some n) :
    ∃ n', (entries.foldl (fun highest e =>
      highest.set e.2.sender (max ((highest.get e.2.sender).getD 0) e.2.nonce)) highest).get s =
        some n' ∧ n ≤ n' := by
  induction entries generalizing highest n with
  | nil => exact ⟨n, h, le_rfl⟩
  | cons e entries ih =>
    obtain ⟨n₁, h₁, hle₁⟩ := highest_step h e.2
    obtain ⟨n₂, h₂, hle₂⟩ := ih h₁
    exact ⟨n₂, h₂, hle₁.trans hle₂⟩

/-- The map holds a bound of the nonces of every sender. -/
theorem le_highestNonce {entries : List (String × Measured)} {e : String × Measured}
    (he : e ∈ entries) : ∃ n, (highestNonce entries).get e.2.sender = some n ∧ e.2.nonce ≤ n := by
  obtain ⟨before, after, rfl⟩ := append_of_mem he
  rw [highestNonce, foldl_append, foldl_cons]
  generalize before.foldl _ _ = highest
  obtain ⟨n, hn, hle⟩ := @highest_fold _ after _ _
    (get_set_self highest e.2.sender (max ((highest.get e.2.sender).getD 0) e.2.nonce))
  exact ⟨n, hn, (le_max_right _ _).trans hle⟩

/-- What the selection may hold. -/
private def Selectable (highest : JsMap Address Int) (entries : List (String × Measured))
    (v : EvictionCandidate) : Prop :=
  (v.txid, v.tx) ∈ entries ∧ v.tx.isTransfer = true ∧ highest.get v.tx.sender = some v.tx.nonce

private theorem selectable_fold {all rest : List (String × Measured)}
    {selected : Option EvictionCandidate} (hrest : rest ⊆ all)
    (hselected : ∀ u, selected = some u → Selectable highest all u)
    (h : rest.foldl (selectStep highest) selected = some v) : Selectable highest all v := by
  induction rest generalizing selected with
  | nil => exact hselected v h
  | cons e rest ih =>
    rw [cons_subset] at hrest
    refine ih hrest.2 (fun u hu => ?_) h
    unfold selectStep at hu
    split at hu
    · exact hselected u hu
    · next hskip =>
      split at hu
      · rw [not_or, Bool.not_eq_false, not_not] at hskip
        cases hu
        exact ⟨hrest.1, hskip.1, hskip.2.symm⟩
      · exact hselected u hu

/-- The candidate is a stored transfer, and the last pending transaction of its sender. -/
theorem computeLowest_spec (h : computeLowestPriorityEvictableTransfer pool = some v) :
    pool.get v.txid = some v.tx ∧ v.tx.isTransfer = true ∧
      ∀ id tx, pool.get id = some tx → tx.sender = v.tx.sender → tx.nonce ≤ v.tx.nonce := by
  rw [computeLowestPriorityEvictableTransfer] at h
  obtain ⟨hmem, htransfer, hhighest⟩ :=
    selectable_fold (List.Subset.refl _) (fun u hu => absurd hu (some_ne_none u).symm) h
  refine ⟨get_eq_some_iff.mpr hmem, htransfer, fun id tx hid hsender => ?_⟩
  obtain ⟨n, hn, hle⟩ := le_highestNonce (get_eq_some_iff.mp hid)
  rw [hsender, hhighest, Option.some.injEq] at hn
  exact hn ▸ hle

/-! ### Inserting -/

/-- The capacity check on the stored transactions. -/
def NoRoom (c : MempoolConfig) (pool : JsMap String Measured) (tx : Measured) : Prop :=
  c.maxNonMiningSize ≤ pool.total (weigh isNonMining fun _ => 1) ∨
    c.maxNonMiningBytes < pool.total (weigh isNonMining Measured.bytes) + tx.bytes ∨
    tx.isTransfer = true ∧
      (c.maxNonMiningSize - c.protocolReserve ≤ pool.total (weigh isTransferTx fun _ => 1) ∨
        c.maxNonMiningBytes - c.protocolReserveBytes <
          pool.total (weigh isTransferTx Measured.bytes) + tx.bytes)

instance (c : MempoolConfig) (pool : JsMap String Measured) (tx : Measured) :
    Decidable (NoRoom c pool tx) :=
  inferInstanceAs (Decidable (_ ∨ _))

/-- The transaction that is evicted for another one, if one has to be. -/
def evictee (c : MempoolConfig) (pool : JsMap String Measured) (tx : Measured) :
    Option EvictionCandidate :=
  if NoRoom c pool tx then computeLowestPriorityEvictableTransfer pool else none

/-- The stored transactions after the eviction. -/
def afterEviction (c : MempoolConfig) (pool : JsMap String Measured) (tx : Measured) :
    JsMap String Measured :=
  match evictee c pool tx with
  | none => pool
  | some v => pool.delete v.txid

theorem Counted.atCapacity_iff (h : Counted m) (tx : Measured) :
    m.AtCapacity tx ↔ NoRoom m.config m.byId tx := by
  rw [AtCapacity, NoRoom, h.nonMiningSize, h.nonMiningBytes, h.transferSize, h.transferBytes]

/-- What `insertAfterCapacity` leaves when it returns. -/
structure Inserted (m : Mempool) (tx : Measured) (admittedAtMs : Int) (m' : Mempool) : Prop where
  indexed : Indexed m'
  cached : Cached m'
  config : m'.config = m.config
  room : NoRoom m.config m.byId tx → evictee m.config m.byId tx ≠ none
  byId : m'.byId = (afterEviction m.config m.byId tx).set tx.txid tx
  admittedAtMs : ∀ slot, m'.admittedAtMs.get slot =
    if slot = tx.slot then some ((m.admittedAtMs.get tx.slot).getD admittedAtMs)
    else if ∃ v ∈ evictee m.config m.byId tx, v.tx.slot = slot then none
    else m.admittedAtMs.get slot

/-- The pool after a lookup of the candidate. -/
def refreshed (m : Mempool) : Mempool :=
  { m with
    nonMiningEvictionCacheValid := true
    nonMiningEvictionCache := computeLowestPriorityEvictableTransfer m.byId }

theorem Indexed.refreshed (h : Indexed m) : Indexed m.refreshed :=
  { toCounted := { h.toCounted with }
    slots := h.slots
    spends := h.spends
    pending := h.pending
    updates := h.updates
    updateIds := h.updateIds }

private theorem lowestPriorityEvictableTransfer_run (h : Cached m) :
    lowestPriorityEvictableTransfer m =
      .ok (computeLowestPriorityEvictableTransfer m.byId) m.refreshed := by
  rw [lowestPriorityEvictableTransfer, bind_of_ok (get_run m)]
  rw [Cached] at h
  by_cases hvalid : m.nonMiningEvictionCacheValid = true
  · rw [if_pos hvalid] at h ⊢
    rw [pure_run, h, Mempool.refreshed, ← h, ← hvalid]
  · rw [if_neg hvalid]
    rfl

private theorem makeRoom_spec (h : Indexed m) (hcached : Cached m) (tx : Measured) :
    (∃ m', makeRoom tx m = .error mempoolFull m' ∧ (m' = m ∨ m' = m.refreshed)) ∨
    ∃ v m', computeLowestPriorityEvictableTransfer m.byId = some v ∧
      m.nonMiningBytes - v.tx.bytes + tx.bytes ≤ m.config.maxNonMiningBytes ∧
      makeRoom tx m = .ok () m' ∧ Deleted m v.tx false m' := by
  rw [makeRoom, bind_of_ok (get_run m)]
  by_cases hfixed : m.config.disableFeeReplacement = true ∧ tx.isTransfer = true
  · exact .inl ⟨m, bind_of_error (throwWhen_of hfixed m), .inl rfl⟩
  rw [bind_of_ok (throwWhen_of_not hfixed m), bind_of_ok (lowestPriorityEvictableTransfer_run hcached)]
  cases hv : computeLowestPriorityEvictableTransfer m.byId with
  | none => exact .inl ⟨m.refreshed, throw_run _ _, .inr rfl⟩
  | some v =>
    by_cases hrefused : tx.isTransfer = true ∧ hasRequiredFeeRateBump v.tx tx = false ∨
        m.config.maxNonMiningBytes < m.nonMiningBytes - v.tx.bytes + tx.bytes
    · exact .inl ⟨m.refreshed, bind_of_error (throwWhen_of hrefused _), .inr rfl⟩
    · obtain ⟨m', hrun, hdeleted⟩ :=
        deleteTransaction_spec h.refreshed (computeLowest_spec hv).1 false
      refine .inr ⟨v, m', rfl, not_lt.mp (not_or.mp hrefused).2,
        (bind_of_ok (throwWhen_of_not hrefused _)).trans hrun, ?_⟩
      exact ⟨hdeleted.indexed, hdeleted.cached, hdeleted.config, hdeleted.byId,
        hdeleted.admittedAtMs⟩

private theorem Indexed.bytes_of_get (h : Indexed m) (hid : m.byId.get id = some tx) :
    weigh isNonMining Measured.bytes tx = tx.bytes := by
  rw [weigh, isNonMining, (h.named id tx hid).2.2]
  rfl

private theorem inserted_direct (hroom : ¬ NoRoom m.config m.byId tx)
    (h : Stored m tx admittedAtMs m') : Inserted m tx admittedAtMs m' := by
  have hnone : evictee m.config m.byId tx = none := if_neg hroom
  refine ⟨h.indexed, h.cached, h.config, fun hno => absurd hno hroom, ?_, fun slot => ?_⟩
  · rw [h.byId, afterEviction, hnone]
  · rw [h.admittedAtMs, get_set, hnone]
    by_cases hs : slot = tx.slot
    · rw [if_pos hs.symm, if_pos hs]
    · rw [if_neg (Ne.symm hs), if_neg hs]
      simp

private theorem inserted_evicting (hroom : NoRoom m.config m.byId tx)
    (hv : computeLowestPriorityEvictableTransfer m.byId = some v) (htxid : v.tx.txid = v.txid)
    (hne : tx.slot ≠ v.tx.slot) (hdeleted : Deleted m v.tx false m₁)
    (h : Stored m₁ tx admittedAtMs m') : Inserted m tx admittedAtMs m' := by
  have hsome : evictee m.config m.byId tx = some v := (if_pos hroom).trans hv
  have hadmitted : m₁.admittedAtMs = m.admittedAtMs.delete v.tx.slot := hdeleted.admittedAtMs
  refine ⟨h.indexed, h.cached, h.config.trans hdeleted.config, fun _ => ?_, ?_, fun slot => ?_⟩
  · rw [hsome]
    exact some_ne_none v
  · rw [h.byId, hdeleted.byId, afterEviction, hsome, htxid]
  · rw [h.admittedAtMs, hadmitted, get_set, get_delete, get_delete, hsome, if_neg hne]
    by_cases hs : slot = tx.slot
    · rw [if_pos hs.symm, if_pos hs]
    · rw [if_neg (Ne.symm hs), if_neg hs]
      by_cases hslot : slot = v.tx.slot
      · rw [if_pos hslot, if_pos ⟨v, rfl, hslot.symm⟩]
      · rw [if_neg hslot, if_neg]
        rintro ⟨u, hu, hus⟩
        cases hu
        exact hslot hus.symm

theorem insertAfterCapacity_spec (h : Indexed m) (hcached : Cached m) (htxid : tx.txid ≠ "")
    (hmining : tx.isMiningClaim = false) (hfresh : m.byId.get tx.txid = none)
    (hslot : m.nonceIds.get tx.slot = none) (admittedAtMs : Int) :
    (∃ m', insertAfterCapacity tx admittedAtMs m = .error mempoolFull m' ∧
      (m' = m ∨ m' = m.refreshed)) ∨
    ∃ m', insertAfterCapacity tx admittedAtMs m = .ok () m' ∧ Inserted m tx admittedAtMs m' := by
  rw [insertAfterCapacity, bind_of_ok (get_run m)]
  by_cases hfull : m.AtCapacity tx
  · rw [if_pos hfull]
    rcases makeRoom_spec h hcached tx with ⟨m', hrun, hm'⟩ | ⟨v, m₁, hv, hbytes, hrun, hdeleted⟩
    · exact .inl ⟨m', bind_of_error hrun, hm'⟩
    · obtain ⟨hget, -, -⟩ := computeLowest_spec hv
      obtain ⟨hvid, -, -⟩ := h.named _ _ hget
      have hne : tx.slot ≠ v.tx.slot := by
        intro heq
        have hocc := (h.slots tx.slot v.txid).mpr ⟨v.tx, hget, heq.symm⟩
        rw [hslot] at hocc
        cases hocc
      have hfresh₁ : m₁.byId.get tx.txid = none := by
        rw [hdeleted.byId, get_delete, hfresh, ite_self]
      have hslot₁ : m₁.nonceIds.get tx.slot = none := by
        rw [eq_none_iff_forall_ne_some]
        intro id hid
        obtain ⟨t, ht, hts⟩ := (hdeleted.indexed.slots tx.slot id).mp hid
        rw [hdeleted.byId, get_delete] at ht
        split at ht
        · cases ht
        · rw [(h.slots tx.slot id).mpr ⟨t, ht, hts⟩] at hslot
          cases hslot
      have hbytes₁ : m₁.nonMiningBytes + tx.bytes ≤ m₁.config.maxNonMiningBytes := by
        rw [hdeleted.indexed.nonMiningBytes, hdeleted.byId, hvid, total_delete _ hget,
          h.bytes_of_get hget, ← h.nonMiningBytes, hdeleted.config]
        exact hbytes
      obtain ⟨m', hrun', hstored⟩ := @store_spec _ _ admittedAtMs hdeleted.indexed htxid hmining
        hfresh₁ hslot₁ hbytes₁
      exact .inr ⟨m', (bind_of_ok hrun).trans hrun',
        inserted_evicting ((h.atCapacity_iff tx).mp hfull) hv hvid hne hdeleted hstored⟩
  · rw [if_neg hfull]
    have hbytes : m.nonMiningBytes + tx.bytes ≤ m.config.maxNonMiningBytes :=
      not_lt.mp (not_or.mp (not_or.mp hfull).2).1
    obtain ⟨m', hrun, hstored⟩ := @store_spec _ _ admittedAtMs h htxid hmining hfresh hslot hbytes
    exact .inr ⟨m', hrun, inserted_direct (fun hno => hfull ((h.atCapacity_iff tx).mpr hno)) hstored⟩

/-! ### Slots that are filled -/

theorem occupied_set (hfresh : pool.get tx.txid = none) (slot : Slot) :
    occupied (pool.set tx.txid tx) slot = true ↔ occupied pool slot = true ∨ tx.slot = slot := by
  rw [occupied, entries_set hfresh]
  simp [occupied]

theorem Indexed.occupied_delete (h : Indexed m) (hid : m.byId.get id = some tx) (slot : Slot) :
    occupied (m.byId.delete id) slot = true ↔ occupied m.byId slot = true ∧ tx.slot ≠ slot := by
  rw [occupied_iff, occupied_iff]
  constructor
  · rintro ⟨id', t, ht, rfl⟩
    rw [get_delete] at ht
    split at ht
    · cases ht
    · next hne => exact ⟨⟨id', t, ht, rfl⟩, fun heq => hne (h.eq_of_slot ht hid heq.symm)⟩
  · rintro ⟨⟨id', t, ht, rfl⟩, hne⟩
    refine ⟨id', t, ?_, rfl⟩
    rw [get_delete, if_neg, ht]
    rintro rfl
    rw [hid, Option.some.injEq] at ht
    exact hne (by rw [ht])

theorem Indexed.nonceIds_eq_none_iff (h : Indexed m) (slot : Slot) :
    m.nonceIds.get slot = none ↔ ¬ occupied m.byId slot = true := by
  rw [occupied_iff, eq_none_iff_forall_ne_some]
  constructor
  · rintro hnone ⟨id, tx, hid, hslot⟩
    exact hnone id ((h.slots slot id).mpr ⟨tx, hid, hslot⟩)
  · intro hnot id hid
    obtain ⟨tx, hget, hslot⟩ := (h.slots slot id).mp hid
    exact hnot ⟨id, tx, hget, hslot⟩

/-- A deletion that keeps the admission time holds the slot. -/
theorem Deleted.admitted_held (h : Indexed m) (hid : m.byId.get tx.txid = some tx)
    (hadmitted : Admitted none m) (hdeleted : Deleted m tx true m₁) :
    Admitted (some tx.slot) m₁ := by
  intro slot
  have hkept : m₁.admittedAtMs = m.admittedAtMs := hdeleted.admittedAtMs
  have hocc : occupied m.byId tx.slot = true := occupied_iff.mpr ⟨_, tx, hid, rfl⟩
  rw [hkept, hadmitted slot, hdeleted.byId, h.occupied_delete hid]
  by_cases hs : tx.slot = slot
  · subst hs
    simp [hocc]
  · simp [hs]

theorem Deleted.admitted (h : Indexed m) (hid : m.byId.get tx.txid = some tx)
    (hadmitted : Admitted none m) (hdeleted : Deleted m tx false m') : Admitted none m' := by
  intro slot
  have hkept : m'.admittedAtMs = m.admittedAtMs.delete tx.slot := hdeleted.admittedAtMs
  rw [hkept, get_delete, hdeleted.byId, h.occupied_delete hid]
  by_cases hs : slot = tx.slot
  · simp [hs]
  · rw [if_neg hs, hadmitted slot]
    simp [Ne.symm hs]

theorem occupied_afterEviction (h : Indexed m) (tx : Measured) (slot : Slot) :
    occupied (afterEviction m.config m.byId tx) slot = true ↔
      occupied m.byId slot = true ∧ ¬ ∃ v ∈ evictee m.config m.byId tx, v.tx.slot = slot := by
  rw [afterEviction]
  cases hv : evictee m.config m.byId tx with
  | none => simp
  | some v =>
    rw [evictee] at hv
    split at hv
    · rw [h.occupied_delete (computeLowest_spec hv).1]
      simp
    · cases hv

theorem get_afterEviction_of_none {c : MempoolConfig} (h : pool.get id = none) (tx : Measured) :
    (afterEviction c pool tx).get id = none := by
  rw [afterEviction]
  split
  · exact h
  · rw [get_delete, h, ite_self]

theorem Inserted.admitted {held : Option Slot} (h : Indexed m) (hfresh : m.byId.get tx.txid = none)
    (hheld : ∀ slot, held = some slot → slot = tx.slot) (hadmitted : Admitted held m)
    (hinserted : Inserted m tx admittedAtMs m') : Admitted none m' := by
  intro slot
  rw [hinserted.admittedAtMs, hinserted.byId, occupied_set (get_afterEviction_of_none hfresh tx),
    occupied_afterEviction h]
  by_cases hs : slot = tx.slot
  · simp [hs]
  · rw [if_neg hs]
    have hnot : held ≠ some slot := fun heq => hs (hheld slot heq)
    have hiff := hadmitted slot
    by_cases hv : ∃ v ∈ evictee m.config m.byId tx, v.tx.slot = slot
    · rw [if_pos hv]
      refine iff_of_false (fun hne => hne rfl) ?_
      rintro ((⟨-, hno⟩ | heq) | hnone)
      · exact hno hv
      · exact hs heq.symm
      · cases hnone
    · rw [if_neg hv, hiff]
      simp only [hv, hnot, Ne.symm hs, not_false_eq_true, and_true, or_false]
      simp

/-! ### Adding -/

/-- The stored transactions without the one that holds the slot of an incoming one. -/
def without (m : Mempool) (tx : Measured) : JsMap String Measured :=
  match m.nonceIds.get tx.slot with
  | none => m.byId
  | some id => m.byId.delete id

/-- What `add` leaves when it returns. -/
structure Added (m : Mempool) (tx : Measured) (admittedAtMs : Int) (m' : Mempool) : Prop where
  fresh : m.byId.get tx.txid = none
  room : NoRoom m.config (m.without tx) tx → evictee m.config (m.without tx) tx ≠ none
  config : m'.config = m.config
  byId : m'.byId = (afterEviction m.config (m.without tx) tx).set tx.txid tx
  admittedAtMs : ∀ slot, m'.admittedAtMs.get slot =
    if slot = tx.slot then some ((m.admittedAtMs.get tx.slot).getD admittedAtMs)
    else if ∃ v ∈ evictee m.config (m.without tx) tx, v.tx.slot = slot then none
    else m.admittedAtMs.get slot

private theorem Inserted.added {m m₁ m' : Mempool} {tx : Measured} {admittedAtMs : Int}
    (hfresh : m.byId.get tx.txid = none) (hconfig : m₁.config = m.config)
    (hbyId : m₁.byId = m.without tx) (hadmitted : m₁.admittedAtMs = m.admittedAtMs)
    (h : Inserted m₁ tx admittedAtMs m') : Added m tx admittedAtMs m' where
  fresh := hfresh
  room := by rw [← hconfig, ← hbyId]; exact h.room
  config := h.config.trans hconfig
  byId := by rw [h.byId, hconfig, hbyId]
  admittedAtMs := by rw [← hconfig, ← hbyId, ← hadmitted]; exact h.admittedAtMs

private theorem Consistent.refused (h : Consistent m) (hm' : m' = m ∨ m' = m.refreshed) :
    Consistent m' ∧ Unchanged m m' := by
  rcases hm' with rfl | rfl
  · exact ⟨h, h.toIndexed.unchanged h.toIndexed rfl (JsMap.Same.refl _) rfl⟩
  · exact ⟨⟨h.toIndexed.refreshed, rfl, h.admitted⟩,
      h.toIndexed.unchanged h.toIndexed.refreshed rfl (JsMap.Same.refl _) rfl⟩

private theorem restore_spec {m₂ : Mempool} {conflicting : Measured} (h : Consistent m)
    (hid : m.byId.get conflicting.txid = some conflicting)
    (hdeleted : Deleted m conflicting true m₁) (hm₂ : m₂ = m₁ ∨ m₂ = m₁.refreshed)
    (admittedAtMs : Int) :
    ∃ m', store conflicting conflicting.txid conflicting.slot admittedAtMs m₂ = .ok () m' ∧
      Consistent m' ∧ Unchanged m m' := by
  obtain ⟨hindexed, hbyId, hconfig, hadmitted⟩ : Indexed m₂ ∧ m₂.byId = m₁.byId ∧
      m₂.config = m₁.config ∧ m₂.admittedAtMs = m₁.admittedAtMs := by
    rcases hm₂ with rfl | rfl
    · exact ⟨hdeleted.indexed, rfl, rfl, rfl⟩
    · exact ⟨hdeleted.indexed.refreshed, rfl, rfl, rfl⟩
  rw [hdeleted.byId] at hbyId
  rw [hdeleted.config] at hconfig
  have hkept : m₂.admittedAtMs = m.admittedAtMs := hadmitted.trans hdeleted.admittedAtMs
  obtain ⟨-, htxid, hmining⟩ := h.named _ _ hid
  have hfresh : m₂.byId.get conflicting.txid = none := by
    rw [hbyId, get_delete, if_pos rfl]
  have hslot : m₂.nonceIds.get conflicting.slot = none := by
    rw [hindexed.nonceIds_eq_none_iff, hbyId, h.toIndexed.occupied_delete hid]
    exact fun hocc => hocc.2 rfl
  have hbytes : m₂.nonMiningBytes + conflicting.bytes ≤ m₂.config.maxNonMiningBytes := by
    rw [hindexed.nonMiningBytes, hbyId, total_delete _ hid, h.toIndexed.bytes_of_get hid,
      ← h.nonMiningBytes, hconfig]
    have hle := h.bytes_le
    omega
  obtain ⟨m', hrun, hstored⟩ :=
    @store_spec _ _ admittedAtMs hindexed htxid hmining hfresh hslot hbytes
  have hsame : m'.byId.Same m.byId := by
    rw [hstored.byId, hbyId]
    exact same_set_delete hid
  have htimes : m'.admittedAtMs = m.admittedAtMs := by
    have hsome := (h.admitted conflicting.slot).mpr (.inl (occupied_iff.mpr ⟨_, _, hid, rfl⟩))
    obtain ⟨time, htime⟩ := ne_none_iff_exists'.mp hsome
    rw [hstored.admittedAtMs, hkept, htime]
    exact set_of_get htime
  refine ⟨m', hrun, ⟨hstored.indexed, hstored.cached, fun slot => ?_⟩,
    h.toIndexed.unchanged hstored.indexed (hstored.config.trans hconfig) hsame htimes⟩
  rw [htimes, h.admitted slot, occupied_iff, occupied_iff]
  simp only [hsame _]

private theorem replaceConflicting_spec {conflicting : Measured} (h : Consistent m)
    (htxid : tx.txid ≠ "") (hmining : tx.isMiningClaim = false) (hfresh : m.byId.get tx.txid = none)
    (hid : m.byId.get conflicting.txid = some conflicting) (hslot : conflicting.slot = tx.slot)
    (admittedAtMs : Int) :
    (∃ e m', replaceConflicting conflicting.txid conflicting tx admittedAtMs m = .error e m' ∧
      e ≠ occupancyViolated ∧ Consistent m' ∧ Unchanged m m') ∨
    ∃ m', replaceConflicting conflicting.txid conflicting tx admittedAtMs m = .ok () m' ∧
      Added m tx admittedAtMs m' ∧ Consistent m' := by
  have hself := h.refused (.inl rfl)
  rw [replaceConflicting, bind_of_ok (get_run m)]
  by_cases hinvalid : isValidReplacement conflicting tx m.config.disableFeeReplacement = false
  · exact .inl ⟨_, m, bind_of_error (throwWhen_of hinvalid m), by decide, hself⟩
  rw [bind_of_ok (throwWhen_of_not hinvalid m)]
  by_cases hbytes : m.config.maxNonMiningBytes < m.nonMiningBytes - conflicting.bytes + tx.bytes
  · exact .inl ⟨_, m, bind_of_error (throwWhen_of hbytes m), by decide, hself⟩
  rw [bind_of_ok (throwWhen_of_not hbytes m)]
  obtain ⟨m₁, hdelete, hdeleted⟩ := deleteTransaction_spec h.toIndexed hid true
  rw [bind_of_ok hdelete]
  have hwithout : m₁.byId = m.without tx := by
    rw [without, (h.slots tx.slot conflicting.txid).mpr ⟨conflicting, hid, hslot⟩, hdeleted.byId]
  have hfresh₁ : m₁.byId.get tx.txid = none := by
    rw [hdeleted.byId, get_delete, hfresh, ite_self]
  have hslot₁ : m₁.nonceIds.get tx.slot = none := by
    rw [hdeleted.indexed.nonceIds_eq_none_iff, hdeleted.byId, h.toIndexed.occupied_delete hid]
    exact fun hocc => hocc.2 hslot
  rcases insertAfterCapacity_spec hdeleted.indexed hdeleted.cached htxid hmining hfresh₁ hslot₁
    admittedAtMs with ⟨m₂, hrun, hm₂⟩ | ⟨m', hrun, hinserted⟩
  · obtain ⟨m', hrestore, hrestored⟩ := restore_spec h hid hdeleted hm₂ admittedAtMs
    rw [hslot] at hrestore
    refine .inl ⟨mempoolFull, m', ?_, by decide, hrestored⟩
    exact (tryCatch_of_error hrun).trans (bind_of_ok hrestore)
  · have hheld := hdeleted.admitted_held h.toIndexed hid h.admitted
    refine .inr ⟨m', tryCatch_of_ok hrun,
      hinserted.added hfresh hdeleted.config hwithout hdeleted.admittedAtMs,
      hinserted.indexed, hinserted.cached, ?_⟩
    refine hinserted.admitted hdeleted.indexed hfresh₁ (fun slot heq => ?_) hheld
    exact (Option.some.inj heq).symm.trans hslot

private theorem addMeasured_spec (h : Consistent m) (htxid : tx.txid ≠ "")
    (hmining : tx.isMiningClaim = false) (hfresh : m.byId.get tx.txid = none) (admittedAtMs : Int) :
    (∃ e m', addMeasured tx admittedAtMs m = .error e m' ∧
      e ≠ occupancyViolated ∧ Consistent m' ∧ Unchanged m m') ∨
    ∃ m', addMeasured tx admittedAtMs m = .ok () m' ∧ Added m tx admittedAtMs m' ∧
      Consistent m' := by
  have hself := h.refused (.inl rfl)
  rw [addMeasured, bind_of_ok (get_run m)]
  by_cases hbytes : m.config.maxNonMiningBytes < tx.bytes
  · exact .inl ⟨_, m, bind_of_error (throwWhen_of hbytes m), by decide, hself⟩
  rw [bind_of_ok (throwWhen_of_not hbytes m)]
  cases hconflict : m.nonceIds.get tx.slot with
  | none =>
    by_cases hcap : ∃ cap ∈ m.config.maxPendingPerSender,
        cap ≤ (m.pendingBySender.get tx.sender).getD 0
    · exact .inl ⟨_, m, bind_of_error (throwWhen_of hcap m), by decide, hself⟩
    have hwithout : m.byId = m.without tx := by rw [without, hconflict]
    rcases insertAfterCapacity_spec h.toIndexed h.cached htxid hmining hfresh hconflict
      admittedAtMs with ⟨m', hrun, hm'⟩ | ⟨m', hrun, hinserted⟩
    · exact .inl ⟨mempoolFull, m', (bind_of_ok (throwWhen_of_not hcap m)).trans hrun, by decide,
        h.refused hm'⟩
    · exact .inr ⟨m', (bind_of_ok (throwWhen_of_not hcap m)).trans hrun,
        hinserted.added hfresh rfl hwithout rfl, hinserted.indexed, hinserted.cached,
        hinserted.admitted h.toIndexed hfresh
          (fun _ heq => absurd heq (some_ne_none _).symm) h.admitted⟩
  | some id =>
    obtain ⟨conflicting, hid, hslot⟩ := (h.slots tx.slot id).mp hconflict
    obtain ⟨rfl, hne, -⟩ := h.named id conflicting hid
    have hfilter : (some conflicting.txid).filter (· ≠ "") = some conflicting.txid := by
      simp [hne]
    simp only [hfilter, hid]
    exact replaceConflicting_spec h htxid hmining hfresh hid hslot admittedAtMs

/-! ### Refusals before the transaction is measured -/

private theorem belowMinTransferFeeMessage_ne (feeAtoms minTransferFeeAtoms : Int) :
    belowMinTransferFeeMessage feeAtoms minTransferFeeAtoms ≠ occupancyViolated := by
  intro heq
  have hhead := congrArg (fun s : String => s.toList.head?) heq
  have hfirst : (toString "Transfer fee ").toList = 'T' :: "ransfer fee ".toList := by
    decide
  simp [belowMinTransferFeeMessage, occupancyViolated, String.toList_append, hfirst] at hhead

private theorem avoids_measure (m : Mempool) (tx : Transaction) :
    Avoids occupancyViolated (m.measure tx) := by
  have hadmissible : Avoids occupancyViolated (m.assertAdmissible tx) := by
    simp +decide [assertAdmissible, belowMinTransferFeeMessage_ne]
  have hbytes : Avoids occupancyViolated (transactionBytes tx) := by
    simp +decide [transactionBytes, avoids_canonicalJson]
  refine avoids_bind.mpr ⟨hadmissible, fun _ _ => ?_⟩
  split
  · next e he => exact avoids_error.mpr fun heq => hbytes (he.trans (congrArg _ heq))
  · exact avoids_ok _

private theorem measure_eq_ok {tx : Transaction} {measured : Measured}
    (h : m.measure tx = .ok measured) :
    measured.toTransaction = tx ∧ tx.isMiningClaim = false ∧ m.byId.get tx.txid = none := by
  rw [measure, bind_eq_ok] at h
  obtain ⟨_, hadmissible, h⟩ := h
  simp only [assertAdmissible, throwIf_bind_eq_ok, throwIf_eq_ok] at hadmissible
  obtain ⟨hmining, -, -, hfresh⟩ := hadmissible
  refine ⟨?_, by simpa using hmining, by simpa [JsMap.has] using hfresh⟩
  split at h
  · cases h
  · cases h
    rfl

/-- `add` of a transaction that passes the first checks. -/
theorem add_of_admissible (h : m.assertAdmissible tx.toTransaction = .ok ()) (admittedAtMs : Int) :
    add tx.toTransaction admittedAtMs m = addMeasured tx admittedAtMs m := by
  have hmeasure : m.measure tx.toTransaction = .ok tx := by
    rw [measure, h, ok_bind]
    split
    · next e he =>
      rw [tx.measured] at he
      cases he
    · next bytes hbytes =>
      have heq := tx.measured.symm.trans hbytes
      cases heq
      rfl
  rw [add, bind_of_ok (get_run m), hmeasure]

/-- What `add` leaves: everything as it was when it throws, or the transaction added. -/
theorem add_spec {tx : Transaction} (h : Consistent m) (htxid : tx.txid ≠ "") (admittedAtMs : Int) :
    (∃ e m', add tx admittedAtMs m = .error e m' ∧
      e ≠ occupancyViolated ∧ Consistent m' ∧ Unchanged m m') ∨
    ∃ (measured : Measured) (m' : Mempool), measured.toTransaction = tx ∧
      add tx admittedAtMs m = .ok () m' ∧ Added m measured admittedAtMs m' ∧ Consistent m' := by
  rw [add, bind_of_ok (get_run m)]
  cases hmeasure : m.measure tx with
  | error e =>
    refine .inl ⟨e, m, rfl, ?_, h.refused (.inl rfl)⟩
    rintro rfl
    exact avoids_measure m tx hmeasure
  | ok measured =>
    obtain ⟨rfl, hmining, hfresh⟩ := measure_eq_ok hmeasure
    rcases addMeasured_spec h htxid hmining hfresh admittedAtMs with
      ⟨e, m', hrun, hrest⟩ | ⟨m', hrun, hrest⟩
    · exact .inl ⟨e, m', hrun, hrest⟩
    · exact .inr ⟨measured, m', rfl, hrun, hrest⟩

end Mempool

end ZyronChain
