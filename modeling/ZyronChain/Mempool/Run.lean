import ZyronChain.Mempool.Admission

/-!
# Runs of the mempool

A pool is reached from a new one by calls of `add`, `remove` and `prune`, whatever they return.
The id of a submitted transaction is a digest that the node has recomputed, so it is not empty.

The admission times are compared with a history of the run: a slot that a call fills has the time
of that call for as long as a transaction is stored in it.

Source: `l1/src/mempool.ts`; the calls in `l1/src/node-base.ts`.

## Main results

* `Mempool.remove_spec`, `Mempool.prune_spec` : the two methods return.
* `Mempool.Run.consistent` : every reached pool is consistent, and its admission times are those
  of the history.
* `Mempool.indexes_consistent` : the same with the outcome of the next call.
-/

namespace ZyronChain

open Checks Method List JsMap

namespace Mempool

/-! ### Deletions -/

/-- What deletions leave. -/
structure Shrunk (m m' : Mempool) : Prop where
  config : m'.config = m.config
  total_le : ∀ w : Measured → Int, (∀ tx, 0 ≤ w tx) → m'.byId.total w ≤ m.byId.total w
  kept : ∀ slot, occupied m'.byId slot = true →
    occupied m.byId slot = true ∧ m'.admittedAtMs.get slot = m.admittedAtMs.get slot

theorem Shrunk.refl (m : Mempool) : Shrunk m m := ⟨rfl, fun _ _ => le_rfl, fun _ h => ⟨h, rfl⟩⟩

theorem Shrunk.trans {m m' m'' : Mempool} (h : Shrunk m m') (h' : Shrunk m' m'') :
    Shrunk m m'' where
  config := h'.config.trans h.config
  total_le := fun w hw => (h'.total_le w hw).trans (h.total_le w hw)
  kept := fun slot hslot => by
    obtain ⟨hslot', htime'⟩ := h'.kept slot hslot
    obtain ⟨hslot'', htime⟩ := h.kept slot hslot'
    exact ⟨hslot'', htime'.trans htime⟩

variable {m m' : Mempool} {slot : Slot}

theorem Consistent.delete (h : Consistent m) {id : String} {tx : Measured}
    (hid : m.byId.get id = some tx) :
    ∃ m', deleteTransaction id tx false m = .ok () m' ∧ Consistent m' ∧ Shrunk m m' ∧
      m'.byId = m.byId.delete id := by
  obtain ⟨m', hrun, hdeleted⟩ := deleteTransaction_spec h.toIndexed hid false
  obtain ⟨rfl, -, -⟩ := h.named id tx hid
  have hkept : m'.admittedAtMs = m.admittedAtMs.delete tx.slot := hdeleted.admittedAtMs
  refine ⟨m', hrun, ⟨hdeleted.indexed, hdeleted.cached, ?_⟩,
    ⟨hdeleted.config, fun w hw => ?_, fun slot hslot => ?_⟩, hdeleted.byId⟩
  · exact hdeleted.admitted h.toIndexed hid h.admitted
  · rw [hdeleted.byId, total_delete w hid]
    have hpos := hw tx
    omega
  · rw [hdeleted.byId, h.toIndexed.occupied_delete hid] at hslot
    rw [hkept, get_delete, if_neg (Ne.symm hslot.2)]
    exact ⟨hslot.1, rfl⟩

theorem remove_spec (h : Consistent m) (txids : List String) :
    ∃ m', remove txids m = .ok () m' ∧ Consistent m' ∧ Shrunk m m' := by
  induction txids generalizing m with
  | nil => exact ⟨m, rfl, h, Shrunk.refl m⟩
  | cons txid txids ih =>
    rw [remove, bind_of_ok (get_run m)]
    cases hid : m.byId.get txid with
    | none => exact ih h
    | some tx =>
      obtain ⟨m₁, hrun, hconsistent, hshrunk, -⟩ := h.delete hid
      obtain ⟨m', hrun', hconsistent', hshrunk'⟩ := ih hconsistent
      exact ⟨m', (bind_of_ok hrun).trans hrun', hconsistent', hshrunk.trans hshrunk'⟩

private theorem pruneEntries_spec (h : Consistent m) (predicate : Transaction → Bool)
    {entries : List (String × Measured)} (hstored : ∀ e ∈ entries, m.byId.get e.1 = some e.2)
    (hnodup : (entries.map Prod.fst).Nodup) :
    ∃ removed m', pruneEntries predicate entries m = .ok removed m' ∧ Consistent m' ∧
      Shrunk m m' := by
  induction entries generalizing m with
  | nil => exact ⟨0, m, rfl, h, Shrunk.refl m⟩
  | cons e entries ih =>
    obtain ⟨txid, tx⟩ := e
    rw [forall_mem_cons] at hstored
    rw [map_cons, nodup_cons] at hnodup
    rw [pruneEntries]
    by_cases hdrop : predicate tx.toTransaction = true
    · obtain ⟨m₁, hrun, hconsistent, hshrunk, hbyId⟩ := h.delete hstored.1
      have hrest : ∀ e ∈ entries, m₁.byId.get e.1 = some e.2 := by
        intro e he
        rw [hbyId, get_delete, if_neg, hstored.2 e he]
        exact fun heq => hnodup.1 (heq ▸ mem_map_of_mem he)
      obtain ⟨removed, m', hrun', hconsistent', hshrunk'⟩ := ih hconsistent hrest hnodup.2
      rw [if_pos hdrop]
      exact ⟨removed + 1, m', (bind_of_ok hrun).trans ((bind_of_ok hrun').trans rfl),
        hconsistent', hshrunk.trans hshrunk'⟩
    · rw [if_neg hdrop]
      exact ih h hstored.2 hnodup.2

theorem prune_spec (h : Consistent m) (predicate : Transaction → Bool) :
    ∃ removed m', prune predicate m = .ok removed m' ∧ Consistent m' ∧ Shrunk m m' := by
  rw [prune, bind_of_ok (get_run m)]
  exact pruneEntries_spec h predicate (fun e he => get_eq_some_iff.mpr he) m.byId.nodup

/-! ### Runs -/

/-- A call of a method that changes the pool. -/
inductive Call where
  | add (tx : Transaction) (admittedAtMs : Int)
  | remove (txids : List String)
  | prune (predicate : Transaction → Bool)

/-- The fields after the call, whether it returns or throws. -/
def Call.after (m : Mempool) : Call → Mempool
  | .add tx admittedAtMs => state (Mempool.add tx admittedAtMs m)
  | .remove txids => state (Mempool.remove txids m)
  | .prune predicate => state (Mempool.prune predicate m)

/-- The id of a submitted transaction is a digest. -/
def Call.Submitted : Call → Prop
  | .add tx _ => tx.txid ≠ ""
  | _ => True

/-- The time that a slot filled by the call has. -/
def Call.time : Call → Option Int
  | .add _ admittedAtMs => some admittedAtMs
  | _ => none

/-- The history of the slots after a call: a slot that stays filled keeps its time, one that the
call fills has the call's, and any other has none. -/
def admissionTimes (times : Slot → Option Int) (m : Mempool) (call : Call) (slot : Slot) :
    Option Int :=
  if occupied (call.after m).byId slot then
    if occupied m.byId slot then times slot else call.time
  else none

/-- The pools reached from a new one by calls that are allowed, each with the history of its
slots. -/
inductive Run (allowed : Mempool → Call → Prop) : Mempool → (Slot → Option Int) → Prop
  | create {size reserve bytes miningBytes : Option Int} {options : MempoolOptions}
      {c : MempoolConfig}
      (h : MempoolConfig.create size reserve bytes miningBytes options = .ok c) :
      Run allowed { config := c } fun _ => none
  | call {m : Mempool} {times : Slot → Option Int} (h : Run allowed m times) (call : Call)
      (hsubmitted : call.Submitted) (hallowed : allowed m call) :
      Run allowed (call.after m) (admissionTimes times m call)

private theorem consistent_create {c : MempoolConfig} (h : c.Valid) :
    Consistent { config := c } where
  valid := h
  named := fun id tx hid => by simp at hid
  miningSize := rfl
  miningBytes := rfl
  nonMiningSize := rfl
  nonMiningBytes := rfl
  transferSize := rfl
  transferBytes := rfl
  bytes_le := h.maxNonMiningBytes_pos.le
  slots := fun slot id => by simp
  spends := fun s => by simp
  pending := fun s => by simp
  updates := fun s => by simp
  updateIds := fun id => by simp
  cached := rfl
  admitted := fun slot => by simp [occupied, show (JsMap.empty : JsMap String Measured).entries = [] from rfl]

private theorem times_call {times : Slot → Option Int} {call : Call}
    (h' : Admitted none (call.after m)) (htimes : ∀ slot, m.admittedAtMs.get slot = times slot)
    (hstep : ∀ slot, occupied (call.after m).byId slot = true → (call.after m).admittedAtMs.get slot
      = if occupied m.byId slot then m.admittedAtMs.get slot else call.time) (slot : Slot) :
    (call.after m).admittedAtMs.get slot = admissionTimes times m call slot := by
  rw [admissionTimes]
  by_cases hslot : occupied (call.after m).byId slot = true
  · rw [if_pos hslot, hstep slot hslot, htimes slot]
  · rw [if_neg hslot]
    by_contra hne
    rcases (h' slot).mp hne with hocc | hheld
    · exact hslot hocc
    · cases hheld

private theorem Admitted.get_eq_none (h : Admitted none m) (hslot : ¬ occupied m.byId slot = true) :
    m.admittedAtMs.get slot = none := by
  by_contra hne
  rcases (h slot).mp hne with hocc | hheld
  · exact hslot hocc
  · cases hheld

private theorem Shrunk.times (h : Shrunk m m') {now : Option Int}
    (hslot : occupied m'.byId slot = true) :
    m'.admittedAtMs.get slot = if occupied m.byId slot then m.admittedAtMs.get slot else now := by
  obtain ⟨hbefore, htime⟩ := h.kept slot hslot
  rw [if_pos hbefore, htime]

private theorem Unchanged.occupied_iff (h : Unchanged m m') (slot : Slot) :
    occupied m'.byId slot = true ↔ occupied m.byId slot = true := by
  rw [Mempool.occupied_iff, Mempool.occupied_iff]
  simp only [h.byId _]

private theorem Added.times {tx : Measured} {now : Int} (h : Consistent m) (h' : Consistent m')
    (hadded : Added m tx now m') (hslot : occupied m'.byId slot = true) :
    m'.admittedAtMs.get slot =
      if occupied m.byId slot then m.admittedAtMs.get slot else some now := by
  have hsome := (h'.admitted slot).mpr (.inl hslot)
  rw [hadded.admittedAtMs] at hsome ⊢
  by_cases hs : slot = tx.slot
  · rw [if_pos hs, ← hs]
    by_cases hbefore : occupied m.byId slot = true
    · obtain ⟨time, htime⟩ := Option.ne_none_iff_exists'.mp ((h.admitted slot).mpr (.inl hbefore))
      rw [if_pos hbefore, htime]
      rfl
    · rw [if_neg hbefore, h.admitted.get_eq_none hbefore]
      rfl
  · rw [if_neg hs] at hsome ⊢
    split at hsome
    · exact absurd rfl hsome
    · next hkept =>
      rw [if_neg hkept]
      rcases (h.admitted slot).mp hsome with hbefore | hheld
      · rw [if_pos hbefore]
      · cases hheld

private theorem Consistent.call {times : Slot → Option Int} (h : Consistent m)
    (htimes : ∀ slot, m.admittedAtMs.get slot = times slot) {call : Call}
    (hsubmitted : call.Submitted) :
    Consistent (call.after m) ∧
      ∀ slot, (call.after m).admittedAtMs.get slot = admissionTimes times m call slot := by
  cases call with
  | add tx admittedAtMs =>
    rcases add_spec h hsubmitted admittedAtMs with
      ⟨e, m', hrun, -, hconsistent, hunchanged⟩ | ⟨measured, m', -, hrun, hadded, hconsistent⟩
    · have hafter : (Call.add tx admittedAtMs).after m = m' := by rw [Call.after, hrun, state_error]
      rw [← hafter] at hconsistent hunchanged
      refine ⟨hconsistent, times_call hconsistent.admitted htimes fun slot hslot => ?_⟩
      rw [if_pos ((hunchanged.occupied_iff slot).mp hslot), hunchanged.admittedAtMs]
    · have hafter : (Call.add tx admittedAtMs).after m = m' := by rw [Call.after, hrun, state_ok]
      rw [← hafter] at hconsistent hadded
      exact ⟨hconsistent, times_call hconsistent.admitted htimes fun slot hslot =>
        hadded.times h hconsistent hslot⟩
  | remove txids =>
    obtain ⟨m', hrun, hconsistent, hshrunk⟩ := remove_spec h txids
    have hafter : (Call.remove txids).after m = m' := by rw [Call.after, hrun, state_ok]
    rw [← hafter] at hconsistent hshrunk
    exact ⟨hconsistent, times_call hconsistent.admitted htimes fun slot hslot =>
      hshrunk.times hslot⟩
  | prune predicate =>
    obtain ⟨removed, m', hrun, hconsistent, hshrunk⟩ := prune_spec h predicate
    have hafter : (Call.prune predicate).after m = m' := by rw [Call.after, hrun, state_ok]
    rw [← hafter] at hconsistent hshrunk
    exact ⟨hconsistent, times_call hconsistent.admitted htimes fun slot hslot =>
      hshrunk.times hslot⟩

/-- Every reached pool is consistent, and its admission times are those of the history. -/
theorem Run.consistent {allowed : Mempool → Call → Prop} {times : Slot → Option Int}
    (h : Run allowed m times) : Consistent m ∧ ∀ slot, m.admittedAtMs.get slot = times slot := by
  induction h with
  | create h => exact ⟨consistent_create (MempoolConfig.valid_of_create h), fun slot => rfl⟩
  | call h call hsubmitted hallowed ih => exact ih.1.call ih.2 hsubmitted

/-- In every reached pool the indexes, the counters, the cached candidate and the admission times
are those recomputed from the stored transactions and the history; a call of `add` that throws
leaves them as they were; and no call reports a violated occupancy. -/
theorem indexes_consistent {m : Mempool} {times : Slot → Option Int}
    (h : Run (fun _ _ => True) m times) :
    Consistent m ∧ (∀ slot, m.admittedAtMs.get slot = times slot) ∧
    (∀ tx admittedAtMs e m', tx.txid ≠ "" → add tx admittedAtMs m = .error e m' →
      Unchanged m m' ∧ e ≠ occupancyViolated) ∧
    (∀ txids, ∃ m', remove txids m = .ok () m') ∧
    ∀ predicate, ∃ removed m', prune predicate m = .ok removed m' := by
  obtain ⟨hconsistent, htimes⟩ := h.consistent
  refine ⟨hconsistent, htimes, fun tx admittedAtMs e m' htxid hadd => ?_, fun txids => ?_,
    fun predicate => ?_⟩
  · rcases add_spec hconsistent htxid admittedAtMs with
      ⟨e', m₁, hrun, hne, -, hunchanged⟩ | ⟨-, m₁, -, hrun, -, -⟩
    · rw [hrun] at hadd
      cases hadd
      exact ⟨hunchanged, hne⟩
    · rw [hrun] at hadd
      cases hadd
  · obtain ⟨m', hrun, -⟩ := remove_spec hconsistent txids
    exact ⟨m', hrun⟩
  · obtain ⟨removed, m', hrun, -⟩ := prune_spec hconsistent predicate
    exact ⟨removed, m', hrun⟩

/-! ### Sample transfers -/

namespace Sample

def hexText (n : Nat) (c : Char) : String := String.ofList (List.replicate n c)

def address (c : Char) : Address := "ZYN" ++ hexText 40 c

def transfer (sender : Char) (nonce feeAtoms : Int) (id : Char) : Transaction where
  body := .transfer (address 'f') 1
  version := 2
  chainId := "zyron-testnet-1"
  nonce := nonce
  sender := address sender
  feeAtoms := feeAtoms
  timestampMs := 1700000000000
  publicKey := hexText 128 sender
  signature := hexText 128 id
  txid := hexText 64 id

/-- The first transfer of a sender, with its size. -/
def first : Measured := ⟨transfer 'a' 1 1000 'c', 601, by decide +kernel⟩

/-- The pool after one transaction more. -/
def after (m : Mempool) (tx : Measured) : Mempool := (Call.add tx.toTransaction 0).after m

theorem after_eq {m : Mempool} {tx : Measured} (h : m.assertAdmissible tx.toTransaction = .ok ()) :
    after m tx = state (addMeasured tx 0 m) := by
  rw [after, Call.after, add_of_admissible h]

def single : MempoolConfig where
  maxNonMiningSize := 1
  miningReserve := 0
  maxNonMiningBytes := 67108864
  maxMiningBytes := 4194304
  disableFeeReplacement := false
  fixedTransferFeeAtoms := none
  maxPendingPerSender := none
  protocolReserve := 0
  protocolReserveBytes := 1048576
  minTransferFeeAtoms := 0

theorem run_single : ∃ times, Run (fun _ _ => True) (after { config := single } first) times := by
  have hcreate : MempoolConfig.create (some 1) none none none {} = .ok single := by
    decide +kernel
  exact ⟨_, .call (.create hcreate) (.add first.toTransaction 0)
    (show first.txid ≠ "" by decide) trivial⟩

end Sample

theorem indexes_consistent_first : ∃ times,
    (Run (fun _ _ => True) (Sample.after { config := Sample.single } Sample.first) times) ∧
    Consistent (Sample.after { config := Sample.single } Sample.first) := by
  obtain ⟨times, hrun⟩ := Sample.run_single
  exact ⟨times, hrun, (indexes_consistent hrun).1⟩

end Mempool

end ZyronChain
