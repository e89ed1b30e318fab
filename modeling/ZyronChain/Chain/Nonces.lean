import ZyronChain.Chain.Snapshot
import ZyronChain.TransactionText

/-!
# No transaction is applied twice

The chain keeps no set of transaction identifiers across blocks.  A transaction must carry the nonce
that follows the one its sender has in the ledger, so along a run the nonces of a sender are 1, 2, 3,
and so on, and a node that restarts from a snapshot goes on from the same ledger.

Under the fixed-supply profile two reserved accounts hold the record of the last settlement in their
nonces.  They send nothing unless a key is found whose address is reserved.

## Main results

* `TxStep.nonce_eq`, `TxStep.nonce` : one transaction.
* `Chain.no_replay` : every run.
-/

namespace ZyronChain

open Checks LedgerState List

/-! ### Runs with restarts -/

/-- A block arrives, or the node starts again from a snapshot of its own. -/
inductive ChainEvent where
  | accept (block : Block) (nowMs : Int)
  | restore
deriving DecidableEq, Repr

/-- The blocks of a run, with the readings of the clock. -/
def acceptedBlocks (events : List ChainEvent) : List (Block × Int) :=
  events.filterMap fun event =>
    match event with
    | .accept block nowMs => some (block, nowMs)
    | .restore => none

section

variable [Crypto]

namespace Chain

/-- The chain that a node starts again with. -/
def restore (c : Chain) : Except String Chain := do
  let s ← c.snapshot
  fromTrustedSnapshot c.genesis s s.anchor

def runEvents (c : Chain) : List ChainEvent → Except String Chain
  | [] => .ok c
  | .accept block nowMs :: events => do
    let c ← c.acceptBlock block nowMs
    c.runEvents events
  | .restore :: events => do
    let c ← c.restore
    c.runEvents events

variable {g : GenesisConfig} {K : List SemanticKey} {c₀ c c' : Chain} {L : LedgerState}
  {blocks : List (Block × Int)}

theorem Tracks.snapshot_eq (h : c.Tracks K L) (hG : c.governance.WellFormed g) {s : ChainSnapshot}
    (hs : c.snapshot = .ok s) : s = c.snapshotWith L.snapshot := by
  rw [snapshot] at hs
  rcases h.form with hform | ⟨_, keys, hform⟩
  · rw [hform.state] at hs
    exact (Except.ok.inj hs).symm
  · rw [hform.state] at hs
    cases hview : c.stateV2PortableView with
    | error e =>
      rw [hview] at hs
      cases hs
    | ok view =>
      rw [hview, h.portableView_eq_ok hG hform hview] at hs
      exact (Except.ok.inj hs).symm

theorem Follows.restore_eq (hK : KeysDistinct K) (hcreate : create g = .ok c₀)
    (hrun : c₀.acceptBlocks blocks = .ok c) (h : c.Follows K g blocks L)
    (hrestore : c.restore = .ok c') : c' = c := by
  rw [restore] at hrestore
  obtain ⟨s, hs, hrestore⟩ := bind_eq_ok.mp hrestore
  have hG := h.governed.wellFormed
  rw [h.tracks.snapshot_eq hG hs, h.governed.genesis,
    restores hK hcreate h.governed.genesis (anchored hcreate hrun) hG h.tracks] at hrestore
  exact (Except.ok.inj hrestore).symm

theorem acceptBlocks_append {more : List (Block × Int)} (h : c₀.acceptBlocks blocks = .ok c)
    (h' : c.acceptBlocks more = .ok c') : c₀.acceptBlocks (blocks ++ more) = .ok c' := by
  induction blocks generalizing c₀ with
  | nil =>
    obtain rfl : c₀ = c := Except.ok.inj h
    exact h'
  | cons entry blocks ih =>
    obtain ⟨block, nowMs⟩ := entry
    rw [acceptBlocks] at h
    obtain ⟨c₁, haccept, h⟩ := bind_eq_ok.mp h
    rw [cons_append, acceptBlocks, haccept, ok_bind]
    exact ih h

theorem acceptBlocks_of_runEvents (hK : KeysDistinct K) (hcreate : create g = .ok c₀)
    {events : List ChainEvent} (hrun : c₀.acceptBlocks blocks = .ok c)
    (hkeys : ∀ k ∈ runKeys g (blocks ++ acceptedBlocks events), k ∈ K)
    (h : c.runEvents events = .ok c') :
    c₀.acceptBlocks (blocks ++ acceptedBlocks events) = .ok c' := by
  induction events generalizing blocks c with
  | nil =>
    obtain rfl : c = c' := Except.ok.inj h
    exact acceptBlocks_append hrun rfl
  | cons event events ih =>
    cases event with
    | accept block nowMs =>
      rw [runEvents] at h
      obtain ⟨c₁, haccept, h⟩ := bind_eq_ok.mp h
      have hstep : c.acceptBlocks [(block, nowMs)] = .ok c₁ := by
        rw [acceptBlocks, haccept, ok_bind]
        rfl
      have happend : blocks ++ acceptedBlocks (.accept block nowMs :: events) =
          (blocks ++ [(block, nowMs)]) ++ acceptedBlocks events := by
        rw [append_assoc]
        rfl
      rw [happend] at hkeys ⊢
      exact ih (acceptBlocks_append hrun hstep) hkeys h
    | restore =>
      rw [runEvents] at h
      obtain ⟨c₁, hrestore, h⟩ := bind_eq_ok.mp h
      have hprefix : ∀ k ∈ runKeys g blocks, k ∈ K := fun k hk => hkeys k (by
        rw [runKeys, flatMap_append, ← append_assoc]
        exact mem_append_left _ hk)
      obtain ⟨L, hfollows⟩ := follows hK hprefix hcreate hrun
      rw [hfollows.restore_eq hK hcreate hrun hrestore] at h
      exact ih hrun hkeys h

end Chain

/-! ### One transaction -/

variable {g : GenesisConfig} {G : Governance} {L L' : LedgerState} {slot : BlockSlot}
  {tx : Transaction} {steps : List (BlockSlot × Transaction)}

/-- The accounts whose nonce counts transactions. -/
def Counts (g : GenesisConfig) (a : Address) : Prop :=
  g.launchProfile = some .fixedSupplyV1 → isActivityWindowAddress a = false

omit [Crypto] in
private theorem recordedNonce_of_counts {a : Address} (ha : Counts g a) {nonce : Address → Int}
    {locks : Option AllocationLockContext} {total : Int} :
    recordedNonce nonce (windowRecord locks (g.launchProfile == some .fixedSupplyV1) total) a =
      nonce a := by
  by_cases hprofile : g.launchProfile = some .fixedSupplyV1
  · have hwindow := ha hprofile
    rw [isActivityWindowAddress, Bool.or_eq_false_iff, beq_eq_false_iff_ne,
      beq_eq_false_iff_ne] at hwindow
    rw [hprofile]
    cases locks with
    | none => rfl
    | some locks =>
      change (if activityWindowAmountAddress = a then total else
        if activityWindowTimeAddress = a then locks.blockTimestampMs else nonce a) = nonce a
      rw [if_neg hwindow.2.symm, if_neg hwindow.1.symm]
  · rw [beq_eq_false_iff_ne.mpr hprofile]
    rfl

/-- A transaction carries the nonce after that of its sender, and leaves it there; every other nonce
stays. -/
theorem TxStep.nonce (h : TxStep g slot tx G L L') :
    tx.nonce = L.nonce tx.sender + 1 ∧
      ∀ a, Counts g a → L'.nonce a = if tx.sender = a then tx.nonce else L.nonce a := by
  obtain ⟨context, seen, hfits, -, happly⟩ := h
  rcases apply_eq_ok happly with ⟨receiver, amountAtoms, -, -, heffect⟩ | ⟨s, -, heffect⟩ |
    ⟨-, heffect⟩
  · exact ⟨heffect.nonce_eq, fun a _ => heffect.nonce a⟩
  · refine ⟨heffect.sender ▸ heffect.nonce_eq, fun a ha => ?_⟩
    rw [heffect.nonce, hfits.rolling, recordedNonce_of_counts ha, heffect.sender]
  · exact ⟨heffect.nonce_eq, fun a _ => heffect.nonce a⟩

omit [Crypto] in
/-- The pool of a fixed-supply genesis is one of its four allocations: one allocation has no role, and
the other three have the addresses of the three roles. -/
private theorem pool_mem_allocations (hnodup : (g.allocations.map Allocation.address).Nodup)
    (h : assertFixedSupplyLaunchProfile g = .ok ()) :
    ∃ a ∈ g.allocations, a.address = g.activityPool := by
  rw [assertFixedSupplyLaunchProfile] at h
  split at h
  · cases h
  · next locks hlocks =>
    dsimp only at h
    split at h
    · next remaining hremaining =>
      rw [throwIf_bind_eq_ok, not_or, not_not, not_not] at h
      obtain ⟨⟨hroles, hlength⟩, -⟩ := h
      let roles := [locks.founderVesting, locks.permanentLiquidity, g.activityPool]
      let held := (g.allocations.filter fun a => a.address ∈ roles).map Allocation.address
      have hheld : held.Nodup := hnodup.sublist (filter_sublist.map _)
      have hsubset : held ⊆ roles := by
        intro address haddress
        obtain ⟨a, ha, rfl⟩ := mem_map.mp haddress
        exact of_decide_eq_true (mem_filter.mp ha).2
      have hcount : held.length = 3 := by
        have hsplit := length_eq_length_filter_add (l := g.allocations)
          fun a => decide (a.address ∈ roles)
        have hrest : (g.allocations.filter fun a => !decide (a.address ∈ roles)).length = 1 := by
          have heq : (g.allocations.filter fun a => !decide (a.address ∈ roles)) = [remaining] := by
            rw [← hremaining]
            simp only [roles, decide_not]
          rw [heq]
          rfl
        rw [length_map]
        omega
      have hperm := (subperm_of_subset hheld hsubset).perm_of_length_le
        (by rw [hcount]; exact le_refl 3)
      have hmem : g.activityPool ∈ held := hperm.mem_iff.mpr (by simp [roles])
      obtain ⟨a, ha, heq⟩ := mem_map.mp hmem
      exact ⟨a, (mem_filter.mp ha).1, heq⟩
    · cases h

/-- The pool of a fixed-supply genesis is no reserved account. -/
theorem GenesisConfig.Valid.counts_pool (hg : g.Valid) : Counts g g.activityPool := by
  intro hprofile
  have hsome : g.launchProfile.isSome = true := by rw [hprofile]; rfl
  obtain ⟨hnodup, -, hall⟩ := validateAllocations_eq_ok (by decide) hg.allocations
  obtain ⟨a, ha, heq⟩ := pool_mem_allocations hnodup (hg.profile hsome)
  rw [← heq]
  exact (hall a ha).2.2.2.1 hsome

/-- A sender counts its transactions, unless a key was found whose address is reserved. -/
theorem TxStep.counts_sender (h : TxStep g slot tx G L L') (hg : g.Valid)
    (hkey : isActivityWindowAddress (addressFromPublicKey tx.publicKey) = false) :
    Counts g tx.sender := by
  cases hs : settlementOf tx with
  | none => exact fun _ => h.sender_eq hs ▸ hkey
  | some s =>
    obtain ⟨context, seen, hfits, -, happly⟩ := h
    rcases apply_eq_ok happly with ⟨receiver, amountAtoms, hbody, -⟩ | ⟨s', -, heffect⟩ |
      ⟨hgovernance, -⟩
    · rw [settlementOf, hbody] at hs
      cases hs
    · exact heffect.sender ▸ hg.counts_pool
    · rw [settlementOf] at hs
      rw [IsGovernance] at hgovernance
      split at hs
      · next hbody =>
        rw [hbody] at hgovernance
        exact hgovernance.elim
      · cases hs

/-! ### Every run -/

def sentBy (steps : List (BlockSlot × Transaction)) (a : Address) : Nat :=
  (steps.filter fun step => step.2.sender = a).length

omit [Crypto] in
theorem sentBy_concat (steps : List (BlockSlot × Transaction)) (slot : BlockSlot) (tx : Transaction)
    (a : Address) :
    sentBy (steps ++ [(slot, tx)]) a = sentBy steps a + if tx.sender = a then 1 else 0 := by
  rw [sentBy, filter_append, length_append, sentBy]
  congr 1
  by_cases h : tx.sender = a
  · rw [if_pos h, filter_cons_of_pos (by simpa using h)]
    rfl
  · rw [if_neg h, filter_cons_of_neg (by simpa using h)]
    rfl

/-- What the transactions of a run leave in the nonces. -/
structure NonceRun (g : GenesisConfig) (steps : List (BlockSlot × Transaction)) (L : LedgerState) :
    Prop where
  stored : ∀ a, Counts g a → L.nonce a = sentBy steps a
  bounded : ∀ step ∈ steps, step.2.nonce ≤ sentBy steps step.2.sender
  distinct : (steps.map fun step => (step.2.sender, step.2.nonce)).Nodup

theorem Applied.nonceRun (hg : g.Valid) {G₀ : Governance} {L₀ : LedgerState}
    (hL₀ : FromGenesis g L₀) (h : Applied g G₀ L₀ steps G L)
    (hkeys : ∀ step ∈ steps,
      isActivityWindowAddress (addressFromPublicKey step.2.publicKey) = false) :
    NonceRun g steps L := by
  induction h with
  | nil => exact ⟨fun a _ => hL₀.nonce a, fun _ h => absurd h not_mem_nil, nodup_nil⟩
  | @concat steps G L L' slot tx _ hstep ih =>
    have ih := ih fun step hs => hkeys step (mem_append_left _ hs)
    have hcounts := hstep.counts_sender hg
      (hkeys (slot, tx) (mem_append_right _ (mem_singleton_self _)))
    obtain ⟨hnonce, hstored⟩ := hstep.nonce
    have hsender := ih.stored tx.sender hcounts
    have hmono : ∀ a, sentBy steps a ≤ sentBy (steps ++ [(slot, tx)]) a := fun a => by
      rw [sentBy_concat]
      exact Nat.le_add_right _ _
    refine ⟨fun a ha => ?_, fun step hs => ?_, ?_⟩
    · rw [hstored a ha, sentBy_concat]
      by_cases heq : tx.sender = a
      · rw [if_pos heq, if_pos heq, hnonce, hsender, heq]
        push_cast
        rfl
      · rw [if_neg heq, if_neg heq, ih.stored a ha]
        rfl
    · rcases mem_append.mp hs with hs | hs
      · have hle := ih.bounded step hs
        have := hmono step.2.sender
        omega
      · rw [mem_singleton.mp hs, sentBy_concat, if_pos rfl]
        dsimp only
        omega
    · rw [map_append, nodup_append]
      refine ⟨ih.distinct, nodup_singleton _, fun pair hpair other hother heq => ?_⟩
      obtain ⟨step, hs, rfl⟩ := mem_map.mp hpair
      rw [map_singleton, mem_singleton] at hother
      rw [hother, Prod.mk.injEq] at heq
      obtain ⟨hsame, hnonces⟩ := heq
      dsimp only at hsame hnonces
      have hle := ih.bounded step hs
      rw [hsame] at hle
      omega

/-- The bytes that the identifiers of transactions are digests of. -/
def payloadBytes (transactions : List Transaction) : Set (List UInt8) :=
  {bytes | ∃ tx ∈ transactions, bytes = utf8 (canonicalText tx.signedPayload)}

/-- Transactions with one identifier have one sender and one nonce, or there is a collision. -/
theorem sender_nonce_of_txid {transactions : List Transaction}
    (hfree : ¬ ByteCollision (payloadBytes transactions)) {tx tx' : Transaction}
    (hmem : tx ∈ transactions) (hmem' : tx' ∈ transactions) (htx : tx.WellFormed)
    (htx' : tx'.WellFormed) (h : tx.txid = tx'.txid) :
    tx.sender = tx'.sender ∧ tx.nonce = tx'.nonce := by
  rw [htx.txid, htx'.txid] at h
  have hbytes : utf8 (canonicalText tx.signedPayload) = utf8 (canonicalText tx'.signedPayload) := by
    by_contra hne
    exact hfree ⟨_, ⟨tx, hmem, rfl⟩, _, ⟨tx', hmem', rfl⟩, hne, h⟩
  exact Transaction.sender_nonce_of_signedPayload
    (tx.determined_signedPayload.eq tx'.determined_signedPayload (utf8_injective hbytes))

theorem Applied.wellFormed {G₀ : Governance} {L₀ : LedgerState} (h : Applied g G₀ L₀ steps G L) :
    ∀ step ∈ steps, step.2.WellFormed := by
  induction h with
  | nil => exact fun _ h => absurd h not_mem_nil
  | concat _ hstep ih =>
    intro step hs
    rcases mem_append.mp hs with hs | hs
    · exact ih step hs
    · rw [mem_singleton.mp hs]
      exact hstep.wellFormed

namespace Chain

variable {events : List ChainEvent} {c₀ c : Chain}

/-- Along every run, restarts from snapshots included, no identifier and no pair of a sender and a
nonce is applied twice; the ledger counts the transactions of every sender in its nonce; and each
transaction raises the nonce of its sender by one and changes no other, the reserved accounts of the
activity window apart. -/
theorem no_replay (hcreate : create g = .ok c₀) (hrun : c₀.runEvents events = .ok c) :
    (((runTransactions (acceptedBlocks events)).map Transaction.txid).Nodup ∧
        ((runTransactions (acceptedBlocks events)).map fun tx => (tx.sender, tx.nonce)).Nodup ∧
        (∃ L, c.Holds L ∧ ∀ a, isActivityWindowAddress a = false → L.nonce a =
          ((runTransactions (acceptedBlocks events)).filter fun tx => tx.sender = a).length) ∧
        ∀ before slot tx after, runSteps (acceptedBlocks events) = before ++ (slot, tx) :: after →
          ∃ G₁ L₁ L₂, LedgerAfter g before G₁ L₁ ∧
            LedgerAfter g (before ++ [(slot, tx)]) (G₁.record tx) L₂ ∧
            L₂.nonce tx.sender = L₁.nonce tx.sender + 1 ∧
            ∀ a, a ≠ tx.sender → isActivityWindowAddress a = false → L₂.nonce a = L₁.nonce a) ∨
      (∃ tx ∈ runTransactions (acceptedBlocks events),
        isActivityWindowAddress (addressFromPublicKey tx.publicKey) = true) ∨
      ByteCollision (payloadBytes (runTransactions (acceptedBlocks events))) ∨
      ByteCollision (SparseMerkleState.keyEncodings
        ((runKeys g (acceptedBlocks events)).map SemanticKey.text)) := by
  by_cases hreserved : ∃ tx ∈ runTransactions (acceptedBlocks events),
      isActivityWindowAddress (addressFromPublicKey tx.publicKey) = true
  · exact .inr (.inl hreserved)
  by_cases hfree : ByteCollision (payloadBytes (runTransactions (acceptedBlocks events)))
  · exact .inr (.inr (.inl hfree))
  rcases keysDistinct_or_collision (runKeys g (acceptedBlocks events)) with hK | hcollision
  swap
  · exact .inr (.inr (.inr hcollision))
  have hblocks : c₀.acceptBlocks (acceptedBlocks events) = .ok c :=
    acceptBlocks_of_runEvents hK hcreate (show c₀.acceptBlocks [] = .ok c₀ from rfl)
      (fun _ hk => hk) hrun
  obtain ⟨L, hfollows⟩ := follows hK (fun _ hk => hk) hcreate hblocks
  obtain ⟨L₀, hL₀, happlied⟩ := hfollows.after
  have hg := hfollows.governed.valid
  have hsteps := map_snd_runSteps (acceptedBlocks events)
  have hkeys : ∀ step ∈ runSteps (acceptedBlocks events),
      isActivityWindowAddress (addressFromPublicKey step.2.publicKey) = false := by
    intro step hs
    rw [← Bool.not_eq_true]
    exact fun htrue => hreserved ⟨step.2, hsteps ▸ mem_map_of_mem hs, htrue⟩
  have hnonces := happlied.nonceRun hg (fromGenesis_eq_ok hL₀) hkeys
  have hpairs : ((runTransactions (acceptedBlocks events)).map
      fun tx => (tx.sender, tx.nonce)).Nodup := by
    rw [← hsteps, map_map]
    exact hnonces.distinct
  refine .inl ⟨?_, hpairs, ⟨L, hfollows.tracks.holds hK hfollows.governed.wellFormed,
    fun a ha => ?_⟩, fun before slot tx after heq => ?_⟩
  · have hwellFormed : ∀ tx ∈ runTransactions (acceptedBlocks events), tx.WellFormed := by
      rw [← hsteps]
      exact forall_mem_map.mpr happlied.wellFormed
    rw [List.Nodup, pairwise_map] at hpairs ⊢
    refine hpairs.imp_of_mem fun {tx tx'} hmem hmem' hne htxid => hne ?_
    obtain ⟨hsender, hnonce⟩ := sender_nonce_of_txid hfree hmem hmem' (hwellFormed tx hmem)
      (hwellFormed tx' hmem') htxid
    rw [hsender, hnonce]
  · rw [hnonces.stored a fun _ => ha, sentBy, ← hsteps, filter_map, length_map]
    rfl
  · rw [heq, ← singleton_append, ← append_assoc] at happlied
    obtain ⟨_, L₂, hfirst, -⟩ := happlied.of_append
    obtain ⟨G₁, L₁, hbefore, hstep, rfl⟩ := hfirst.of_concat
    have hmem : (slot, tx) ∈ runSteps (acceptedBlocks events) := by
      rw [heq]
      exact mem_append_right _ mem_cons_self
    have hcounts := hstep.counts_sender hg (hkeys (slot, tx) hmem)
    obtain ⟨hnonce, hstored⟩ := hstep.nonce
    refine ⟨G₁, L₁, L₂, ⟨L₀, hL₀, hbefore⟩, ⟨L₀, hL₀, hfirst⟩, ?_, fun a hne ha => ?_⟩
    · have hsender := hstored tx.sender hcounts
      rw [if_pos rfl] at hsender
      exact hsender.trans hnonce
    · have hother := hstored a fun _ => ha
      rw [if_neg hne.symm] at hother
      exact hother

end Chain

end

attribute [local instance] OneValidator.oneCrypto

/-- The block of `OneValidator` carries the first transaction of its sender. -/
theorem no_replay_oneValidator :
    OneValidator.start.runEvents [.accept OneValidator.block 1] = .ok OneValidator.next ∧
      ((∃ L, OneValidator.next.Holds L ∧ L.nonce OneValidator.address = 1) ∨
        ByteCollision (payloadBytes [OneValidator.update]) ∨
        ByteCollision (SparseMerkleState.keyEncodings
          ((runKeys OneValidator.genesis [(OneValidator.block, 1)]).map SemanticKey.text))) := by
  have hrun : OneValidator.start.runEvents [.accept OneValidator.block 1] = .ok OneValidator.next :=
    OneValidator.acceptBlocks_block
  have hwindow : isActivityWindowAddress OneValidator.address = false := by decide +kernel
  refine ⟨hrun, ?_⟩
  rcases Chain.no_replay OneValidator.create_genesis hrun with
    ⟨-, -, ⟨L, hholds, hnonce⟩, -⟩ | ⟨tx, -, htx⟩ | hcollision | hcollision
  · refine .inl ⟨L, hholds, (hnonce _ hwindow).trans ?_⟩
    decide +kernel
  · rw [OneValidator.addressFromPublicKey_eq, hwindow] at htx
    cases htx
  · exact .inr (.inl hcollision)
  · exact .inr (.inr hcollision)

end ZyronChain
