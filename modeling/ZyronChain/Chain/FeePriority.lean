import Mathlib.Data.List.Induction
import Mathlib.Data.List.Lex
import Mathlib.Data.Prod.Lex
import ZyronChain.CanonicalForm
import ZyronChain.Lib.BinaryHeap
import ZyronChain.Lib.JsMap
import ZyronChain.Lib.Lanes
import ZyronChain.Types

/-!
# The order in which a proposer packs pending transactions

The pending transactions of a sender form a lane in the order of their nonces.  A binary heap of
lanes gives the next transaction: protocol transactions before transfers, transfers that lead to an
authorized protocol transaction like that one, and otherwise the highest fee first, or under a fixed
fee the first to arrive.

Source: `l1/src/chain.ts` (`orderPendingByFeePriority`).  The heap of the source holds positions in
the array of lanes; here it holds the lanes.

## Main definitions

* `OrderingMode` : what an ordering depends on besides the transactions.
* `Lane`, `laneKey` : a lane and the key of its head.
* `orderPendingByFeePriority`.
* `priority` : the priority of a transaction in front of the rest of its lane.

## Main results

* `OrderingMode.merged_drain` : the heap merges the lanes best first.
* `orderPendingByFeePriority_spec` : a permutation in nonce order, best first, and with fee priority
  the same for every order of the input.
-/

namespace ZyronChain

open Lanes List

/-! ### Keys -/

/-- What an ordering depends on besides the transactions. -/
structure OrderingMode where
  isAuthorizedProtocolTx : Transaction → Bool
  feePriority : Bool
  /-- The position at which the id of a transaction first arrived. -/
  arrivalOf : Transaction → Int

/-- The `arrival` map of the source; it is read without fee priority only. -/
def arrivalIndex (transactions : List Transaction) (tx : Transaction) : Int :=
  ((transactions.findIdx? fun t => t.txid = tx.txid).getD 0 : Nat)

def protocolRank (tx : Transaction) : Int := match tx.body with
  | .activitySettlement .. => 0
  | .validatorUpdate .. => 1
  | .protocolUpgrade .. => 2
  | .activityOracleGovernance .. => 3
  | .transfer .. | .miningClaim .. => 4

def activationOf (tx : Transaction) : Int := match tx.body with
  | .validatorUpdate activationHeight .. | .protocolUpgrade activationHeight ..
  | .activityOracleGovernance activationHeight .. => activationHeight
  | .transfer .. | .activitySettlement .. | .miningClaim .. => 0

namespace OrderingMode

variable (mode : OrderingMode)

/-- What transactions of one rank compete by: the fee, highest first, or the arrival. -/
def bid (tx : Transaction) : Int := if mode.feePriority then -tx.feeAtoms else mode.arrivalOf tx

/-- The keys by which a sender's transactions are sorted, most significant first. -/
def queueKey (tx : Transaction) : ℤ ×ₗ ℤ ×ₗ ℤ ×ₗ List ℕ :=
  toLex (tx.nonce, toLex (mode.bid tx, toLex (tx.timestampMs, utf16 tx.txid)))

/-- The keys by which the heads of lanes are compared, most significant first. -/
abbrev HeadKey : Type := ℤ ×ₗ ℤ ×ₗ ℤ ×ₗ ℤ ×ₗ ℤ ×ₗ List ℕ ×ₗ List ℕ

/-- The keys of a head whose class, rank and activation are given. -/
def keyOf (rank : ℤ × ℤ × ℤ) (head : Transaction) : HeadKey :=
  toLex (rank.1, toLex (rank.2.1, toLex (rank.2.2, toLex (mode.bid head,
    toLex (head.timestampMs, toLex (utf16 head.txid, utf16 head.sender))))))

/-- A protocol transaction that lifts those in front of it. -/
def lifts (tx : Transaction) : Bool := !tx.isTransfer && mode.isAuthorizedProtocolTx tx

/-- The class, rank and activation of a protocol transaction. -/
def protocolKey (tx : Transaction) : ℤ × ℤ × ℤ := (0, protocolRank tx, activationOf tx)

/-- The class of a transfer that leads to no authorized protocol transaction. -/
def transferKey : ℤ × ℤ × ℤ := (1, 0, 0)

/-- `liftTarget`: for each position of a queue that starts at position `i`, the position of the
first authorized protocol transaction at or after it. -/
def liftTargets : Nat → List Transaction → List (Option Nat)
  | _, [] => []
  | i, tx :: rest =>
    let after := liftTargets (i + 1) rest
    (if mode.lifts tx then some i else after.head?.join) :: after

end OrderingMode

/-! ### Lanes -/

/-- The transactions of one sender, and the position of the next one. -/
structure Lane where
  queue : List Transaction
  liftTarget : List (Option Nat)
  index : Nat
  index_lt : index < queue.length

namespace Lane

def head (lane : Lane) : Transaction := lane.queue.get ⟨lane.index, lane.index_lt⟩

def advance (lane : Lane) : Option Lane :=
  if h : lane.index + 1 < lane.queue.length then some { lane with index := lane.index + 1, index_lt := h }
  else none

def rest (lane : Lane) : List Transaction := lane.queue.drop (lane.index + 1)

def headKey (lane : Lane) : ℤ × ℤ × ℤ :=
  if lane.head.isTransfer then
    match (lane.liftTarget[lane.index]?).join.bind fun target => lane.queue[target]? with
    | some lifter => OrderingMode.protocolKey lifter
    | none => OrderingMode.transferKey
  else OrderingMode.protocolKey lane.head

end Lane

namespace OrderingMode

variable (mode : OrderingMode)

def laneKey (lane : Lane) : HeadKey := mode.keyOf lane.headKey lane.head

def headBefore (left right : Lane) : Bool := decide (mode.laneKey left < mode.laneKey right)

def laneOf (queue : List Transaction) : Option Lane :=
  if h : 0 < queue.length then some ⟨queue, mode.liftTargets 0 queue, 0, h⟩ else none

/-- `queue.sort(…)`. -/
def sortQueue (queue : List Transaction) : List Transaction :=
  queue.mergeSort fun left right => decide (mode.queueKey left ≤ mode.queueKey right)

end OrderingMode

/-- Puts a transaction at the end of the queue of its sender. -/
def enqueue (queues : JsMap Address (List Transaction)) (tx : Transaction) :
    JsMap Address (List Transaction) :=
  queues.set tx.sender ((queues.get tx.sender).getD [] ++ [tx])

def queuesOf (transactions : List Transaction) : JsMap Address (List Transaction) :=
  transactions.foldl enqueue .empty

namespace OrderingMode

variable (mode : OrderingMode)

def lanesOf (transactions : List Transaction) : List Lane :=
  (queuesOf transactions).entries.filterMap fun e => mode.laneOf (mode.sortQueue e.2)

def buildHeap (lanes : List Lane) : Array Lane :=
  lanes.foldl (fun heap lane => BinaryHeap.up mode.headBefore (heap.push lane) heap.size) #[]

/-- The heap after the head of its first lane was taken. -/
def nextHeap (heap : Array Lane) (first : Lane) : Array Lane := match first.advance with
  | some lane => BinaryHeap.replaceRoot mode.headBefore heap lane
  | none => BinaryHeap.removeRoot mode.headBefore heap

/-- The loop that empties the heap; as many rounds as there are transactions suffice. -/
def drain : Nat → Array Lane → List Transaction
  | 0, _ => []
  | rounds + 1, heap =>
    match heap[0]? with
    | none => []
    | some first => first.head :: drain rounds (mode.nextHeap heap first)

end OrderingMode

def orderPendingByFeePriority (transactions : List Transaction)
    (isAuthorizedProtocolTx : Transaction → Bool) (feePriority : Bool) : List Transaction :=
  let mode : OrderingMode := ⟨isAuthorizedProtocolTx, feePriority, arrivalIndex transactions⟩
  mode.drain transactions.length (mode.buildHeap (mode.lanesOf transactions))

/-! ### Priorities -/

namespace OrderingMode

variable (mode : OrderingMode)

/-- The class, rank and activation of a transaction in front of the rest of its lane. -/
def rankOf (head : Transaction) (rest : List Transaction) : ℤ × ℤ × ℤ :=
  if head.isTransfer then
    match rest.find? mode.lifts with
    | some lifter => protocolKey lifter
    | none => transferKey
  else protocolKey head

/-- The priority of a transaction in front of the rest of its lane; the least is the best. -/
def priority (head : Transaction) (rest : List Transaction) : HeadKey :=
  mode.keyOf (mode.rankOf head rest) head

theorem sender_eq_of_priority {x y : Transaction} {xs ys : List Transaction}
    (h : mode.priority x xs = mode.priority y ys) : x.sender = y.sender := by
  simp only [priority, keyOf, EmbeddingLike.apply_eq_iff_eq, Prod.mk.injEq] at h
  exact utf16_injective h.2.2.2.2.2.2

private theorem liftTargets_find (queue front : List Transaction) (j : Nat) :
    (((mode.liftTargets front.length queue)[j]?).join.bind fun target => (front ++ queue)[target]?) =
      (queue.drop j).find? mode.lifts := by
  induction queue generalizing front j with
  | nil => simp [liftTargets]
  | cons tx rest ih =>
    have hlen : (front ++ [tx]).length = front.length + 1 := by simp
    have hrest : ∀ j, (((mode.liftTargets (front.length + 1) rest)[j]?).join.bind
        fun target => (front ++ tx :: rest)[target]?) = (rest.drop j).find? mode.lifts := by
      intro j
      rw [← hlen, ← ih (front ++ [tx]) j, append_assoc, singleton_append]
    cases j with
    | zero =>
      rw [liftTargets]
      by_cases hlift : mode.lifts tx = true
      · simp [hlift]
      · have hzero := hrest 0
        rw [drop_zero, ← List.head?_eq_getElem?] at hzero
        simp [hlift, hzero]
    | succ j => exact hrest j

end OrderingMode

namespace Lane

variable {mode : OrderingMode} {lane : Lane}

theorem drop_eq (lane : Lane) : lane.queue.drop lane.index = lane.head :: lane.rest :=
  drop_eq_getElem_cons lane.index_lt

theorem headKey_eq (h : lane.liftTarget = mode.liftTargets 0 lane.queue) :
    lane.headKey = mode.rankOf lane.head lane.rest := by
  have hfind := mode.liftTargets_find lane.queue [] lane.index
  rw [length_nil, nil_append, lane.drop_eq] at hfind
  rw [headKey, OrderingMode.rankOf, h, hfind]
  by_cases htransfer : lane.head.isTransfer = true
  · have hlift : mode.lifts lane.head = false := by simp [OrderingMode.lifts, htransfer]
    rw [List.find?_cons, hlift]
  · rw [if_neg htransfer, if_neg htransfer]

theorem laneKey_eq (h : lane.liftTarget = mode.liftTargets 0 lane.queue) :
    mode.laneKey lane = mode.priority lane.head lane.rest := by
  rw [OrderingMode.laneKey, headKey_eq h, OrderingMode.priority]

end Lane

/-! ### The merge -/

namespace OrderingMode

variable {mode : OrderingMode}

/-- A heap of the lanes of distinct senders. -/
structure Merging (mode : OrderingMode) (heap : Array Lane) : Prop where
  ordered : BinaryHeap.Ordered mode.laneKey heap
  built : ∀ lane ∈ heap.toList, lane.liftTarget = mode.liftTargets 0 lane.queue
  sender : ∀ lane ∈ heap.toList, ∀ tx ∈ lane.rest, tx.sender = lane.head.sender
  distinct : (heap.toList.map fun lane => lane.head.sender).Nodup

/-- The transactions that are left in a list of lanes. -/
def left (lanes : List Lane) : Nat := (lanes.map fun lane => lane.rest.length + 1).sum

theorem headBefore_iff (a b : Lane) :
    mode.headBefore a b = true ↔ mode.laneKey a < mode.laneKey b := decide_eq_true_iff

private theorem advance_cases (lane : Lane) :
    (lane.advance = none ∧ lane.rest = []) ∨ ∃ lane', lane.advance = some lane' ∧
      lane'.queue = lane.queue ∧ lane'.liftTarget = lane.liftTarget ∧
      lane.rest = lane'.head :: lane'.rest := by
  rw [Lane.advance]
  split
  · next h => exact .inr ⟨_, rfl, rfl, rfl, drop_eq_getElem_cons h⟩
  · next h => exact .inl ⟨rfl, drop_eq_nil_of_le (by omega)⟩

variable {heap : Array Lane} {first : Lane} {others : List Lane}

private theorem perm_nextHeap (hheap : heap.toList = first :: others) :
    (mode.nextHeap heap first).toList.Perm (first.advance.toList ++ others) := by
  rw [nextHeap]
  cases first.advance with
  | none => exact BinaryHeap.perm_removeRoot _ hheap
  | some lane => exact BinaryHeap.perm_replaceRoot _ hheap lane

private theorem Merging.next (h : Merging mode heap) (hheap : heap.toList = first :: others) :
    Merging mode (mode.nextHeap heap first) := by
  have hperm := mode.perm_nextHeap hheap
  have hfirst : first ∈ heap.toList := hheap ▸ mem_cons_self
  have hothers : ∀ lane ∈ others, lane ∈ heap.toList :=
    fun lane hlane => hheap ▸ mem_cons_of_mem first hlane
  have hmem : ∀ lane ∈ (mode.nextHeap heap first).toList,
      first.advance = some lane ∨ lane ∈ others := by
    intro lane hlane
    simpa using hperm.mem_iff.mp hlane
  -- The lane of the head that was taken keeps its queue and its sender.
  have hnext : ∀ lane, first.advance = some lane → lane.queue = first.queue ∧
      lane.liftTarget = first.liftTarget ∧ first.rest = lane.head :: lane.rest := by
    intro lane hlane
    rcases advance_cases first with ⟨hnone, -⟩ | ⟨lane', hsome, hcases⟩
    · exact nomatch hlane.symm.trans hnone
    · rw [hlane, Option.some.injEq] at hsome
      exact hsome ▸ hcases
  have hsender : ∀ lane, first.advance = some lane → lane.head.sender = first.head.sender := by
    intro lane hlane
    refine h.sender first hfirst lane.head ?_
    rw [(hnext lane hlane).2.2]
    exact mem_cons_self
  refine ⟨?_, fun lane hlane => ?_, fun lane hlane tx htx => ?_, ?_⟩
  · rw [nextHeap]
    split
    · exact BinaryHeap.ordered_replaceRoot mode.headBefore_iff h.ordered _
    · exact BinaryHeap.ordered_removeRoot mode.headBefore_iff h.ordered
  · rcases hmem lane hlane with hadvance | hlane
    · obtain ⟨hqueue, htarget, -⟩ := hnext lane hadvance
      rw [htarget, hqueue]
      exact h.built first hfirst
    · exact h.built lane (hothers lane hlane)
  · rcases hmem lane hlane with hadvance | hlane
    · rw [hsender lane hadvance]
      refine h.sender first hfirst tx ?_
      rw [(hnext lane hadvance).2.2]
      exact mem_cons_of_mem _ htx
    · exact h.sender lane (hothers lane hlane) tx htx
  · have hdistinct := h.distinct
    rw [hheap, map_cons] at hdistinct
    rw [(hperm.map _).nodup_iff, map_append]
    cases hadvance : first.advance with
    | none => exact hdistinct.of_cons
    | some lane =>
      change (lane.head.sender :: others.map fun lane => lane.head.sender).Nodup
      rwa [hsender lane hadvance]

/-- What the loop gives: what is left of every lane, merged best first. -/
structure Merged (mode : OrderingMode) (lanes : List Lane) (out : List Transaction) : Prop where
  bestFirst : BestFirst Transaction.sender mode.priority out
  lane_eq : ∀ l ∈ lanes, lane Transaction.sender l.head.sender out = l.head :: l.rest
  lane_nil : ∀ k, (∀ l ∈ lanes, l.head.sender ≠ k) → lane Transaction.sender k out = []

private theorem Merging.merged_cons (h : Merging mode heap) (hheap : heap.toList = first :: others)
    {out : List Transaction} (hout : Merged mode (mode.nextHeap heap first).toList out) :
    Merged mode heap.toList (first.head :: out) := by
  have hperm := mode.perm_nextHeap hheap
  have hfirst : first ∈ heap.toList := hheap ▸ mem_cons_self
  have hdistinct := h.distinct
  rw [hheap, map_cons, nodup_cons] at hdistinct
  have hne : ∀ l ∈ others, first.head.sender ≠ l.head.sender :=
    fun l hl heq => hdistinct.1 (mem_map.mpr ⟨l, hl, heq.symm⟩)
  -- What is left of the first lane.
  have hrest : lane Transaction.sender first.head.sender out = first.rest := by
    rcases advance_cases first with ⟨hnone, hnil⟩ | ⟨l, hsome, -, -, hcons⟩
    · rw [hnil]
      refine hout.lane_nil _ fun l hl heq => ?_
      have hl : l ∈ others := by simpa [hnone] using hperm.mem_iff.mp hl
      exact hne l hl heq.symm
    · have hl : l ∈ (mode.nextHeap heap first).toList := hperm.mem_iff.mpr (by simp [hsome])
      have hsender := h.sender first hfirst l.head (hcons ▸ mem_cons_self)
      rw [hcons, ← hsender]
      exact hout.lane_eq l hl
  have hlane : ∀ l ∈ heap.toList,
      lane Transaction.sender l.head.sender (first.head :: out) = l.head :: l.rest := by
    intro l hl
    rw [hheap] at hl
    rcases mem_cons.mp hl with rfl | hl
    · rw [lane_cons_self, hrest]
    · rw [lane_cons_of_ne (hne l hl)]
      exact hout.lane_eq l (hperm.mem_iff.mpr (mem_append_right _ hl))
  have hnil : ∀ k, (∀ l ∈ heap.toList, l.head.sender ≠ k) →
      lane Transaction.sender k (first.head :: out) = [] := by
    intro k hk
    rw [lane_cons_of_ne (hk first hfirst)]
    refine hout.lane_nil k fun l hl heq => ?_
    rcases mem_append.mp (hperm.mem_iff.mp hl) with hl | hl
    · rcases advance_cases first with ⟨hnone, -⟩ | ⟨l', hsome, -, -, hcons⟩
      · rw [hnone] at hl
        cases hl
      · rw [hsome, Option.mem_toList, Option.some.injEq] at hl
        subst hl
        exact hk first hfirst
          ((h.sender first hfirst l'.head (hcons ▸ mem_cons_self)).symm.trans heq)
    · exact hk l (hheap ▸ mem_cons_of_mem first hl) heq
  refine ⟨bestFirst_cons hout.bestFirst fun k y ys hk => ?_, hlane, hnil⟩
  -- The head of any other lane is the head of a lane of the heap, which comes after the root.
  obtain ⟨l, hl, rfl⟩ : ∃ l ∈ heap.toList, l.head.sender = k := by
    by_contra hnone
    push Not at hnone
    exact nomatch hk.symm.trans (hnil k hnone)
  rw [hlane l hl, List.cons.injEq] at hk
  obtain ⟨rfl, rfl⟩ := hk
  rw [hrest, ← Lane.laneKey_eq (h.built first hfirst), ← Lane.laneKey_eq (h.built l hl)]
  refine h.ordered.root_le (a := first) ?_ l (Array.mem_def.mpr hl)
  rw [← Array.getElem?_toList, hheap]
  rfl

private theorem left_nextHeap (hheap : heap.toList = first :: others) :
    left heap.toList = left (mode.nextHeap heap first).toList + 1 := by
  have hsum : left (mode.nextHeap heap first).toList = left (first.advance.toList ++ others) :=
    ((mode.perm_nextHeap hheap).map _).sum_nat
  rw [hsum, hheap]
  rcases advance_cases first with ⟨hnone, hnil⟩ | ⟨l, hsome, -, -, hcons⟩
  · simp [left, hnone, hnil]
    omega
  · simp [left, hsome, hcons]
    omega

/-- The heap merges the lanes best first. -/
theorem merged_drain {rounds : Nat} (h : Merging mode heap) (hrounds : left heap.toList ≤ rounds) :
    Merged mode heap.toList (mode.drain rounds heap) := by
  induction rounds generalizing heap with
  | zero =>
    have hnil : heap.toList = [] := by
      cases hheap : heap.toList with
      | nil => rfl
      | cons first others =>
        rw [hheap, left, map_cons, sum_cons] at hrounds
        omega
    rw [hnil]
    exact ⟨bestFirst_nil, nofun, fun _ _ => rfl⟩
  | succ rounds ih =>
    rw [drain, ← Array.getElem?_toList]
    cases hheap : heap.toList with
    | nil => exact ⟨bestFirst_nil, nofun, fun _ _ => rfl⟩
    | cons first others =>
      rw [← hheap]
      have hleft := mode.left_nextHeap hheap
      have hmerged := h.merged_cons hheap (ih (h.next hheap) (by omega))
      simpa [hheap] using hmerged

theorem length_drain {rounds : Nat} (hrounds : left heap.toList ≤ rounds) :
    (mode.drain rounds heap).length = left heap.toList := by
  induction rounds generalizing heap with
  | zero => exact (Nat.le_zero.mp hrounds).symm
  | succ rounds ih =>
    rw [drain, ← Array.getElem?_toList]
    cases hheap : heap.toList with
    | nil => rfl
    | cons first others =>
      have hleft := mode.left_nextHeap hheap
      rw [← hheap, hleft, ← ih (by omega), hheap]
      rfl

/-! ### The lanes of a list -/

theorem get_queuesOf (transactions : List Transaction) (k : Address) :
    ((queuesOf transactions).get k).getD [] = lane Transaction.sender k transactions ∧
      ((queuesOf transactions).get k = none ↔ lane Transaction.sender k transactions = []) := by
  induction transactions using List.reverseRecOn with
  | nil => exact ⟨rfl, Iff.intro (fun _ => rfl) fun _ => rfl⟩
  | append_singleton transactions tx ih =>
    have hlane : lane Transaction.sender k (transactions ++ [tx]) =
        lane Transaction.sender k transactions ++ lane Transaction.sender k [tx] :=
      filter_append ..
    rw [queuesOf, foldl_append]
    change ((enqueue (queuesOf transactions) tx).get k).getD [] = _ ∧
      ((enqueue (queuesOf transactions) tx).get k = none ↔ _)
    rw [enqueue, JsMap.get_set, hlane]
    by_cases hk : tx.sender = k
    · subst hk
      rw [if_pos rfl, ih.1, Option.getD_some, lane_cons_self]
      exact ⟨rfl, by simp⟩
    · rw [if_neg hk, lane_cons_of_ne hk]
      exact ⟨ih.1.trans (append_nil _).symm, by rw [ih.2]; simp [lane]⟩

theorem perm_sortQueue (mode : OrderingMode) (queue : List Transaction) :
    (mode.sortQueue queue).Perm queue := mergeSort_perm ..

theorem pairwise_sortQueue (mode : OrderingMode) (queue : List Transaction) :
    (mode.sortQueue queue).Pairwise fun a b => mode.queueKey a ≤ mode.queueKey b := by
  have hsorted : (mode.sortQueue queue).Pairwise fun a b =>
      decide (mode.queueKey a ≤ mode.queueKey b) = true :=
    pairwise_mergeSort
      (fun a b c hab hbc => decide_eq_true ((of_decide_eq_true hab).trans (of_decide_eq_true hbc)))
      (fun a b => by simpa using le_total (mode.queueKey a) (mode.queueKey b)) queue
  exact hsorted.imp of_decide_eq_true

/-- The sorted queue depends on the set of transactions only. -/
theorem sortQueue_eq_of_perm {queue queue' : List Transaction} (h : queue.Perm queue')
    (hdistinct : (queue.map Transaction.txid).Nodup) :
    mode.sortQueue queue = mode.sortQueue queue' := by
  refine List.Perm.eq_of_pairwise (fun a b ha hb hab hba => ?_) (mode.pairwise_sortQueue queue)
    (mode.pairwise_sortQueue queue')
    ((mode.perm_sortQueue queue).trans (h.trans (mode.perm_sortQueue queue').symm))
  have ha' : a ∈ queue := (mode.perm_sortQueue queue).mem_iff.mp ha
  have hb' : b ∈ queue := h.mem_iff.mpr ((mode.perm_sortQueue queue').mem_iff.mp hb)
  have hkey := le_antisymm hab hba
  simp only [queueKey, EmbeddingLike.apply_eq_iff_eq, Prod.mk.injEq] at hkey
  exact inj_on_of_nodup_map hdistinct ha' hb' (utf16_injective hkey.2.2.2)

private theorem laneOf_entry (mode : OrderingMode) {transactions : List Transaction}
    {e : Address × List Transaction} (he : e ∈ (queuesOf transactions).entries) :
    ∃ l, mode.laneOf (mode.sortQueue e.2) = some l ∧ l.head.sender = e.1 ∧
      l.liftTarget = mode.liftTargets 0 l.queue ∧
      l.head :: l.rest = mode.sortQueue (lane Transaction.sender e.1 transactions) := by
  have hget : (queuesOf transactions).get e.1 = some e.2 := JsMap.get_eq_some_iff.mpr he
  obtain ⟨hlane, hnone⟩ := get_queuesOf transactions e.1
  rw [hget, Option.getD_some] at hlane
  have hpos : 0 < (mode.sortQueue e.2).length := by
    rw [(mode.perm_sortQueue e.2).length_eq, length_pos_iff, hlane]
    exact fun hnil => nomatch hget.symm.trans (hnone.mpr hnil)
  have hl : mode.laneOf (mode.sortQueue e.2) =
      some ⟨mode.sortQueue e.2, mode.liftTargets 0 (mode.sortQueue e.2), 0, hpos⟩ := dif_pos hpos
  refine ⟨_, hl, ?_, rfl, ?_⟩
  · have hmem : (mode.sortQueue e.2).get ⟨0, hpos⟩ ∈ lane Transaction.sender e.1 transactions :=
      ((mode.perm_sortQueue e.2).trans (.of_eq hlane)).mem_iff.mp (get_mem ..)
    exact (mem_lane.mp hmem).2
  · rw [← Lane.drop_eq, ← hlane]
    rfl

private theorem lanesOf_spec (mode : OrderingMode) (transactions : List Transaction) :
    ((mode.lanesOf transactions).map fun l => l.head.sender) = (queuesOf transactions).keys ∧
      ∀ l ∈ mode.lanesOf transactions, l.liftTarget = mode.liftTargets 0 l.queue ∧
        l.head :: l.rest = mode.sortQueue (lane Transaction.sender l.head.sender transactions) := by
  have hentry : ∀ e ∈ (queuesOf transactions).entries, _ := fun e he => mode.laneOf_entry he
  rw [lanesOf, JsMap.keys]
  generalize (queuesOf transactions).entries = entries at hentry ⊢
  induction entries with
  | nil => exact ⟨rfl, nofun⟩
  | cons e es ih =>
    obtain ⟨l, hl, hsender, htarget, hqueue⟩ := hentry e mem_cons_self
    obtain ⟨hkeys, hlanes⟩ := ih fun f hf => hentry f (mem_cons_of_mem e hf)
    have hcons : (e :: es).filterMap (fun e => mode.laneOf (mode.sortQueue e.2)) =
        l :: es.filterMap fun e => mode.laneOf (mode.sortQueue e.2) := by
      rw [filterMap_cons, hl]
    rw [hcons, map_cons, map_cons, hkeys, hsender]
    refine ⟨rfl, fun m hm => ?_⟩
    rcases mem_cons.mp hm with rfl | hm
    · rw [hsender]
      exact ⟨htarget, hqueue⟩
    · exact hlanes m hm

private theorem buildHeap_spec (mode : OrderingMode) (lanes : List Lane) :
    BinaryHeap.Ordered mode.laneKey (mode.buildHeap lanes) ∧
      (mode.buildHeap lanes).toList.Perm lanes := by
  induction lanes using List.reverseRecOn with
  | nil => exact ⟨fun k _ a b ha => (nomatch ha), .refl []⟩
  | append_singleton lanes l ih =>
    rw [buildHeap, foldl_append]
    change BinaryHeap.Ordered mode.laneKey (BinaryHeap.up mode.headBefore
        ((mode.buildHeap lanes).push l) (mode.buildHeap lanes).size) ∧
      (BinaryHeap.up mode.headBefore ((mode.buildHeap lanes).push l)
        (mode.buildHeap lanes).size).toList.Perm (lanes ++ [l])
    refine ⟨BinaryHeap.ordered_up_push mode.headBefore_iff ih.1 l, ?_⟩
    refine (BinaryHeap.perm_up ..).toList.trans ?_
    rw [Array.toList_push]
    exact ih.2.append_right [l]

private theorem merging_buildHeap (mode : OrderingMode) (transactions : List Transaction) :
    Merging mode (mode.buildHeap (mode.lanesOf transactions)) := by
  obtain ⟨hordered, hperm⟩ := mode.buildHeap_spec (mode.lanesOf transactions)
  obtain ⟨hkeys, hlanes⟩ := mode.lanesOf_spec transactions
  refine ⟨hordered, fun l hl => (hlanes l (hperm.mem_iff.mp hl)).1, fun l hl tx htx => ?_, ?_⟩
  · have htx : tx ∈ l.head :: l.rest := mem_cons_of_mem _ htx
    rw [(hlanes l (hperm.mem_iff.mp hl)).2, (mode.perm_sortQueue _).mem_iff, mem_lane] at htx
    exact htx.2
  · rw [(hperm.map _).nodup_iff, hkeys]
    exact (queuesOf transactions).nodup

private theorem lane_of_merged {transactions out : List Transaction}
    (h : Merged mode (mode.buildHeap (mode.lanesOf transactions)).toList out) (k : Address) :
    lane Transaction.sender k out = mode.sortQueue (lane Transaction.sender k transactions) := by
  have hperm := (mode.buildHeap_spec (mode.lanesOf transactions)).2
  obtain ⟨hkeys, hlanes⟩ := mode.lanesOf_spec transactions
  by_cases hk : k ∈ (queuesOf transactions).keys
  · rw [← hkeys, mem_map] at hk
    obtain ⟨l, hl, rfl⟩ := hk
    rw [h.lane_eq l (hperm.mem_iff.mpr hl), (hlanes l hl).2]
  · have hnil : lane Transaction.sender k transactions = [] :=
      (get_queuesOf transactions k).2.mp (JsMap.get_eq_none_iff.mpr hk)
    rw [hnil, h.lane_nil k fun l hl heq => hk ?_]
    · exact (mergeSort_nil ..).symm
    · rw [← hkeys, mem_map]
      exact ⟨l, hperm.mem_iff.mp hl, heq⟩

/-- The loop empties the heap in as many rounds as there are transactions. -/
theorem merged_lanesOf (mode : OrderingMode) (transactions : List Transaction) :
    Merged mode (mode.buildHeap (mode.lanesOf transactions)).toList
      (mode.drain transactions.length (mode.buildHeap (mode.lanesOf transactions))) := by
  have hmerging := mode.merging_buildHeap transactions
  refine merged_drain hmerging (le_of_eq ?_)
  rw [← length_drain le_rfl]
  exact (perm_of_lane_perm fun k => (List.Perm.of_eq
    (lane_of_merged (merged_drain hmerging le_rfl) k)).trans (mode.perm_sortQueue _)).length_eq

end OrderingMode

/-- The ordering is a permutation in which the transactions of a sender stand in the order of their
nonces and each is, where it stands, of the best priority among the first ones that are left of all
senders.  With fee priority it is the same for every order of the input. -/
theorem orderPendingByFeePriority_spec {transactions : List Transaction}
    (hdistinct : (transactions.map Transaction.txid).Nodup)
    (isAuthorizedProtocolTx : Transaction → Bool) (feePriority : Bool) :
    (orderPendingByFeePriority transactions isAuthorizedProtocolTx feePriority).Perm
        transactions ∧
      (∀ sender, (lane Transaction.sender sender
        (orderPendingByFeePriority transactions isAuthorizedProtocolTx feePriority)).Pairwise
          fun a b => a.nonce ≤ b.nonce) ∧
      BestFirst Transaction.sender
        (OrderingMode.priority ⟨isAuthorizedProtocolTx, feePriority, arrivalIndex transactions⟩)
        (orderPendingByFeePriority transactions isAuthorizedProtocolTx feePriority) ∧
      (feePriority = true → ∀ transactions', transactions'.Perm transactions →
        orderPendingByFeePriority transactions' isAuthorizedProtocolTx feePriority =
          orderPendingByFeePriority transactions isAuthorizedProtocolTx feePriority) := by
  have hmerged := fun transactions : List Transaction => OrderingMode.merged_lanesOf
    ⟨isAuthorizedProtocolTx, feePriority, arrivalIndex transactions⟩ transactions
  have hlane : ∀ transactions k, lane Transaction.sender k
      (orderPendingByFeePriority transactions isAuthorizedProtocolTx feePriority) =
        OrderingMode.sortQueue ⟨isAuthorizedProtocolTx, feePriority, arrivalIndex transactions⟩
          (lane Transaction.sender k transactions) :=
    fun transactions => OrderingMode.lane_of_merged (hmerged transactions)
  refine ⟨perm_of_lane_perm fun k => (List.Perm.of_eq (hlane transactions k)).trans
    (OrderingMode.perm_sortQueue ..), fun sender => ?_, (hmerged transactions).bestFirst, ?_⟩
  · rw [hlane transactions sender]
    exact (OrderingMode.pairwise_sortQueue ..).imp fun hab => Prod.Lex.monotone_fst _ _ hab
  · rintro rfl transactions' hperm
    -- With fee priority the keys do not read the arrival.
    have hbest : BestFirst Transaction.sender
        (OrderingMode.priority ⟨isAuthorizedProtocolTx, true, arrivalIndex transactions⟩)
        (orderPendingByFeePriority transactions' isAuthorizedProtocolTx true) :=
      (hmerged transactions').bestFirst
    refine eq_of_bestFirst ?_ hbest (hmerged transactions).bestFirst fun k => ?_
    · exact fun _ _ _ _ => OrderingMode.sender_eq_of_priority _
    refine (hlane transactions' k).trans (Eq.trans ?_ (hlane transactions k).symm)
    refine (OrderingMode.sortQueue_eq_of_perm (lane_perm hperm.symm k) ?_).symm
    exact hdistinct.sublist (filter_sublist.map _)

/-! ### Two transfers under a fixed fee -/

namespace FixedFee

def transfer (sender txid : String) (feeAtoms : Int) : Transaction :=
  ⟨.transfer "ZYN0000000000000000000000000000000000000000" 1, 1, "zyron", 1, sender, feeAtoms, 0, "",
    "", txid⟩

def first : Transaction := transfer "ZYN1111111111111111111111111111111111111111" "a" 1

def second : Transaction := transfer "ZYN2222222222222222222222222222222222222222" "b" 1

/-- The order of two transfers with one fee is the order in which they arrived. -/
theorem order_of_arrival :
    ([first, second].map Transaction.txid).Nodup ∧ [second, first].Perm [first, second] ∧
      orderPendingByFeePriority [first, second] (fun _ => false) false = [first, second] ∧
      orderPendingByFeePriority [second, first] (fun _ => false) false = [second, first] ∧
      [second, first] ≠ [first, second] := by
  refine ⟨by decide, by decide, by decide +kernel, by decide +kernel, by decide +kernel⟩

def generous : Transaction := transfer "ZYN3333333333333333333333333333333333333333" "c" 2

/-- With fee priority the higher fee is first, in whichever order the two arrive. -/
theorem orderPendingByFeePriority_spec_pair :
    orderPendingByFeePriority [first, generous] (fun _ => false) true = [generous, first] ∧
      orderPendingByFeePriority [generous, first] (fun _ => false) true = [generous, first] := by
  have hids : ([first, generous].map Transaction.txid).Nodup := by decide
  have hfirst : orderPendingByFeePriority [first, generous] (fun _ => false) true =
      [generous, first] := by decide +kernel
  refine ⟨hfirst, ?_⟩
  rw [(orderPendingByFeePriority_spec hids (fun _ => false) true).2.2.2 rfl [generous, first]
    (by decide), hfirst]

end FixedFee

end ZyronChain
