import ZyronChain.Chain.Replay

/-!
# The ledger of a run

Along every run the state of a chain, in whichever form its protocol version keeps it, stands for one
ledger: the one that the transactions of the run make of the genesis.

The authenticated state locates an entry by the hash of its key, so this is stated for a set of keys
whose hashes differ.

## Main definitions

* `runKeys` : the keys that a run touches.
* `Chain.Tracks` : the state of a chain stands for a ledger.
* `Chain.Follows` : and the ledger is the one of the transactions.
* `AppliedTransition.Holds`, `Chain.Holds` : a state is a ledger, or built from it.

## Main results

* `Chain.Follows.acceptBlock`, `Chain.follows` : one block, and every run.
-/

namespace ZyronChain

open Checks List LedgerState

/-! ### Keys of a run -/

/-- The keys of the genesis, and the counter that every block reads. -/
def genesisKeys (g : GenesisConfig) : List SemanticKey :=
  g.allocations.map (fun allocation => .account allocation.address) ++
    [.validatorSchedule 0, .protocolSchedule 0, .account miningTrackerAddress]

def runKeys (g : GenesisConfig) (blocks : List (Block × Int)) : List SemanticKey :=
  genesisKeys g ++ blocks.flatMap fun entry => blockKeys g entry.1

/-- The keys that the transactions of a block under way read or write. -/
def BlockContext.keys (context : BlockContext) (transactions : List Transaction) :
    List SemanticKey :=
  transactions.flatMap fun tx => accessedKeys tx context.genesis.activityPool context.fee

theorem BlockContext.mem_keys {context : BlockContext} {transactions : List Transaction}
    {tx : Transaction} (htx : tx ∈ transactions) {k : SemanticKey}
    (hk : k ∈ accessedKeys tx context.genesis.activityPool context.fee) :
    k ∈ context.keys transactions := mem_flatMap.mpr ⟨tx, htx, hk⟩

theorem BlockContext.keys_subset {context : BlockContext} {transactions more : List Transaction} :
    context.keys transactions ⊆ context.keys (transactions ++ more) := by
  rw [BlockContext.keys, BlockContext.keys, flatMap_append]
  exact subset_append_left _ _

/-- The transactions of a block, with its slot. -/
def blockSteps (block : Block) : List (BlockSlot × Transaction) :=
  block.transactions.map fun tx => (block.slot, tx)

/-- The transactions of a run, each with the slot of its block. -/
def runSteps (blocks : List (Block × Int)) : List (BlockSlot × Transaction) :=
  blocks.flatMap fun entry => blockSteps entry.1

theorem runSteps_concat (blocks : List (Block × Int)) (block : Block) (nowMs : Int) :
    runSteps (blocks ++ [(block, nowMs)]) = runSteps blocks ++ blockSteps block := by
  rw [runSteps, flatMap_append, flatMap_singleton]
  rfl

theorem map_snd_runSteps (blocks : List (Block × Int)) :
    (runSteps blocks).map Prod.snd = runTransactions blocks := by
  rw [runSteps, runTransactions, map_flatMap]
  congr
  funext entry
  rw [blockSteps, map_map]
  exact map_id _

/-! ### The index of the keys -/

/-- A set of strings holds the keys that have a value. -/
def IndexedBy (keys : SortedSet canonicalLt) (L : LedgerState) (G : Governance) : Prop :=
  ∀ text, text ∈ keys.keys ↔ ∃ k : SemanticKey, k.text = text ∧ stateView L G k ≠ none

theorem mem_addKeys {keys : SortedSet canonicalLt} {added : List String} {text : String} :
    text ∈ (addKeys keys added).keys ↔ text ∈ added ∨ text ∈ keys.keys := by
  rw [addKeys]
  induction added generalizing keys with
  | nil => simp
  | cons key added ih => rw [foldl_cons, ih, SortedMap.mem_keys_set, mem_cons, or_left_comm, or_assoc]

theorem IndexedBy.exists_lists {keys : SortedSet canonicalLt} {L : LedgerState} {G : Governance}
    (h : IndexedBy keys L G) :
    ∃ ks : List SemanticKey, keys.keys = ks.map SemanticKey.text ∧ Lists ks L G := by
  have hpreimages : ∀ texts : List String,
      (∀ text ∈ texts, ∃ k : SemanticKey, k.text = text ∧ stateView L G k ≠ none) →
      ∃ ks : List SemanticKey, texts = ks.map SemanticKey.text := by
    intro texts htexts
    induction texts with
    | nil => exact ⟨[], rfl⟩
    | cons text texts ih =>
      rw [forall_mem_cons] at htexts
      obtain ⟨⟨k, rfl, -⟩, hrest⟩ := htexts
      obtain ⟨ks, rfl⟩ := ih hrest
      exact ⟨k :: ks, rfl⟩
  obtain ⟨ks, hks⟩ := hpreimages keys.keys fun text htext => (h text).mp htext
  refine ⟨ks, hks, ?_, fun k => ?_⟩
  · exact List.Nodup.of_map SemanticKey.text (hks ▸ keys.nodup_keys)
  · have hmem : k ∈ ks ↔ k.text ∈ keys.keys := by
      rw [hks, mem_map_of_injective SemanticKey.text_injective]
    rw [hmem, h k.text]
    constructor
    · rintro ⟨k', htext, hview⟩
      rwa [← SemanticKey.text_injective htext]
    · exact fun hview => ⟨k, rfl, hview⟩

theorem indexedBy_preimages (L : LedgerState) (G : Governance) :
    IndexedBy (addKeys .empty (stateV2KeyPreimages L.snapshot G.snapshot)) L G := by
  intro text
  rw [mem_addKeys, stateV2KeyPreimages, mem_mergeSort]
  simp only [mem_append, mem_map]
  constructor
  · rintro (((((⟨e, he, rfl⟩ | ⟨e, he, rfl⟩) | ⟨e, he, rfl⟩) | ⟨e, he, rfl⟩) | ⟨e, he, rfl⟩) | h)
    · exact ⟨.account e.1, rfl, stateView_ne_none_iff.mpr (mem_map_of_mem he)⟩
    · exact ⟨.activityEpoch e, rfl, stateView_ne_none_iff.mpr he⟩
    · exact ⟨.validatorSchedule e.1, rfl, stateView_ne_none_iff.mpr (mem_map_of_mem he)⟩
    · exact ⟨.protocolSchedule e.1, rfl, stateView_ne_none_iff.mpr (mem_map_of_mem he)⟩
    · exact ⟨.activityOracleGovernance e.1, rfl, stateView_ne_none_iff.mpr (mem_map_of_mem he)⟩
    · cases h
  · rintro ⟨k, rfl, hk⟩
    rw [stateView_ne_none_iff] at hk
    refine .inl ?_
    cases k with
    | account a =>
      obtain ⟨e, he, rfl⟩ := mem_map.mp hk
      exact .inl (.inl (.inl (.inl ⟨e, he, rfl⟩)))
    | activityEpoch epoch => exact .inl (.inl (.inl (.inr ⟨epoch, hk, rfl⟩)))
    | validatorSchedule height =>
      obtain ⟨e, he, rfl⟩ := mem_map.mp hk
      exact .inl (.inl (.inr ⟨e, he, rfl⟩))
    | protocolSchedule height =>
      obtain ⟨e, he, rfl⟩ := mem_map.mp hk
      exact .inl (.inr ⟨e, he, rfl⟩)
    | activityOracleGovernance height =>
      obtain ⟨e, he, rfl⟩ := mem_map.mp hk
      exact .inr ⟨e, he, rfl⟩

section

variable [Crypto]

/-! ### The state of a chain -/

omit [Crypto] in
private theorem assertOracleKeys_of_fits {registered : List String}
    {control : ActivityOracleControl} {entry : OracleControl}
    (h : OracleEntryFits registered control entry) (hhex : ∀ key ∈ entry.publicKeys, IsHex 64 key) :
    assertOracleKeys entry.action entry.publicKeys = .ok () := by
  obtain ⟨action, publicKeys⟩ := entry
  have hkeys : publicKeys.length ≤ 100 ∧ publicKeys.Nodup ∧
      ¬ (action ≠ .revoke ∧ publicKeys.length ≠ 0) ∧ ¬ (action = .revoke ∧ publicKeys.length = 0) := by
    rw [OracleEntryFits] at h
    cases action with
    | pause | resume =>
      obtain ⟨-, hempty⟩ := h
      simp only at hempty
      subst hempty
      decide
    | revoke =>
      obtain ⟨hne, hlength, hnodup, -⟩ := h
      exact ⟨hlength, hnodup, by simp, by simpa using hne⟩
  obtain ⟨hlength, hnodup, hother, hrevoke⟩ := hkeys
  rw [assertOracleKeys]
  simp only [unit_bind_eq_ok, throwIf_eq_ok, forDistinct_eq_ok, map_id, not_not, gt_iff_lt, not_lt]
  exact ⟨hlength, ⟨hnodup, fun _ _ => not_mem_nil, fun key hkey => ⟨hhex key hkey, trivial⟩⟩, hother,
    hrevoke⟩

/-- The schedules of a chain can be read back from the authenticated state. -/
theorem Governance.WellFormed.portable {g : GenesisConfig} {G : Governance} (h : G.WellFormed g) :
    G.Portable where
  validators_start := by
    obtain ⟨rest, hrest⟩ := h.validators_start
    rw [hrest]
    rfl
  protocol_start := by
    obtain ⟨rest, hrest⟩ := h.protocol_start
    rw [hrest]
    rfl
  validators_heights height hheight := by
    obtain ⟨e, he, rfl⟩ := mem_map.mp hheight
    exact (h.validators e he).1
  protocol_heights height hheight := by
    obtain ⟨e, he, rfl⟩ := mem_map.mp hheight
    exact (h.protocol e he).1
  oracle_heights height hheight := by
    obtain ⟨e, he, rfl⟩ := mem_map.mp hheight
    obtain ⟨⟨hsafe, hpos⟩, -⟩ := h.oracle_entries e he
    exact ⟨hsafe, by omega⟩
  versions e he := ⟨(h.protocol e he).2.1, (h.protocol e he).2.2.1⟩
  oracles e he := by
    obtain ⟨before, after, heq⟩ := append_of_mem he
    exact assertOracleKeys_of_fits (h.oracles before e after heq) fun key hkey =>
      isHex_of_isValidPublicKey ((h.oracle_entries e he).2 key hkey)

namespace Chain

/-- A chain of protocol version 1 keeps the ledger. -/
structure KeepsLedger (c : Chain) (L : LedgerState) : Prop where
  version : c.protocolVersionAt c.height = .ok 1
  state : c.state = some L
  stateV2 : c.stateV2 = none
  semanticKeys : c.stateV2SemanticKeys = none

/-- A chain of a later version keeps the authenticated state, and the keys in it. -/
structure KeepsStateV2 (K : List SemanticKey) (c : Chain) (L : LedgerState) (s : SparseMerkleState)
    (keys : SortedSet canonicalLt) : Prop where
  version : ∃ version, c.protocolVersionAt c.height = .ok version ∧
    protocolUsesStateV2 version = true
  state : c.state = none
  stateV2 : c.stateV2 = some s
  semanticKeys : c.stateV2SemanticKeys = some keys
  commits : Commits K (stateView L c.governance) s
  indexed : IndexedBy keys L c.governance

/-- The state of a chain stands for a ledger. -/
structure Tracks (K : List SemanticKey) (c : Chain) (L : LedgerState) : Prop where
  valid : L.Valid
  mem : ∀ k, stateView L c.governance k ≠ none → k ∈ K
  form : c.KeepsLedger L ∨ ∃ s keys, c.KeepsStateV2 K L s keys

variable {K : List SemanticKey} {c : Chain} {L : LedgerState} {g : GenesisConfig}

theorem KeepsStateV2.active {s : SparseMerkleState} {keys : SortedSet canonicalLt}
    (h : c.KeepsStateV2 K L s keys) : c.activeStateV2 = .ok (some s) := by
  obtain ⟨version, hversion, huses⟩ := h.version
  rw [activeStateV2, h.stateV2]
  dsimp only
  rw [hversion, ok_bind, if_pos huses]

theorem KeepsStateV2.portableView {s : SparseMerkleState} {keys : SortedSet canonicalLt}
    (h : c.KeepsStateV2 K L s keys) :
    c.stateV2PortableView = reconstructStateV2PortableView s keys.keys := by
  rw [stateV2PortableView, h.stateV2, h.semanticKeys]

omit [Crypto] in
theorem KeepsLedger.active (h : c.KeepsLedger L) : c.activeStateV2 = .ok none := by
  rw [activeStateV2, h.stateV2]

namespace Tracks

theorem balance (h : c.Tracks K L) {a : Address} (ha : .account a ∈ K) :
    c.balance a = .ok (L.balance a) := by
  rw [Chain.balance]
  rcases h.form with hform | ⟨s, keys, hform⟩
  · rw [hform.active, ok_bind, requireLegacyState, hform.state]
    rfl
  · rw [hform.active, ok_bind]
    exact Represents.balance ⟨hform.commits, h.valid.bounded⟩ ha

theorem nonce (h : c.Tracks K L) {a : Address} (ha : .account a ∈ K) :
    c.nonce a = .ok (L.nonce a) := by
  rw [Chain.nonce]
  rcases h.form with hform | ⟨s, keys, hform⟩
  · rw [hform.active, ok_bind, requireLegacyState, hform.state]
    rfl
  · rw [hform.active, ok_bind]
    exact Represents.nonce ⟨hform.commits, h.valid.bounded⟩ ha

theorem portableView_eq_ok (h : c.Tracks K L) (hG : c.governance.WellFormed g)
    {s : SparseMerkleState} {keys : SortedSet canonicalLt} (hform : c.KeepsStateV2 K L s keys)
    {view : StateV2PortableView} (hview : c.stateV2PortableView = .ok view) :
    view = ⟨L.snapshot, c.governance.snapshot⟩ := by
  obtain ⟨ks, hkeys, hlists⟩ := hform.indexed.exists_lists
  rw [hform.portableView, hkeys] at hview
  exact reconstruct_eq_ok hform.commits h.valid hG.portable hlists
    (fun k hk => h.mem k ((hlists.mem k).mp hk)) hview

/-- A ledger that is read back is the one that the state stands for. -/
theorem legacyStateForTransition_eq_ok (h : c.Tracks K L) (hG : c.governance.WellFormed g)
    {L' : LedgerState} (hL' : c.legacyStateForTransition = .ok L') : L' = L := by
  rw [legacyStateForTransition] at hL'
  rcases h.form with hform | ⟨s, keys, hform⟩
  · rw [hform.state] at hL'
    exact (Except.ok.inj hL').symm
  · rw [hform.state, hform.stateV2] at hL'
    obtain ⟨view, hview, hL'⟩ := bind_eq_ok.mp hL'
    rw [h.portableView_eq_ok hG hform hview, fromSnapshot_snapshot h.valid] at hL'
    exact (Except.ok.inj hL').symm

theorem startSparse_eq_ok (hK : KeysDistinct K) (h : c.Tracks K L)
    (hG : c.governance.WellFormed g) :
    ∃ s, c.startSparse = .ok s ∧ Commits K (stateView L c.governance) s := by
  rw [startSparse]
  rcases h.form with hform | ⟨s, keys, hform⟩
  · rw [hform.stateV2, requireLegacyState, hform.state]
    exact exists_stateV2FromLedgerSnapshot hK
      (fun k v hv => h.mem k (by rw [hv]; exact Option.some_ne_none v)) h.valid
      fun e he => (hG.protocol e he).2.1
  · rw [hform.stateV2]
    exact ⟨s, rfl, hform.commits⟩

/-- The state that a block starts from stands for the ledger.  Under a version that is not supported
an authenticated state is not carried over. -/
theorem startTransition_eq_ok (hK : KeysDistinct K) (h : c.Tracks K L)
    (hG : c.governance.WellFormed g) {version : Int} {t : AppliedTransition}
    (ht : c.startTransition version = .ok t) :
    t.sparse.isSome = protocolUsesStateV2 version ∧
      (t.Tracks K c.governance L ∨ version ≠ 1 ∧ t = ⟨none, none⟩) := by
  rw [startTransition] at ht
  by_cases hversion : version = 1
  · subst hversion
    rw [if_pos rfl] at ht
    obtain ⟨ledger, hledger, ht⟩ := bind_eq_ok.mp ht
    dsimp only at ht
    rw [if_neg (by decide), ok_bind] at ht
    cases ht
    cases hlegacy : c.legacyStateForTransition with
    | error e =>
      rw [hlegacy] at hledger
      cases hledger
    | ok L' =>
      rw [hlegacy] at hledger
      rw [← Except.ok.inj hledger, h.legacyStateForTransition_eq_ok hG hlegacy]
      exact ⟨rfl, .inl ⟨h.valid, h.mem, rfl⟩⟩
  · rw [if_neg hversion, ok_bind] at ht
    dsimp only at ht
    cases huses : protocolUsesStateV2 version with
    | true =>
      obtain ⟨s, hs, hcommits⟩ := h.startSparse_eq_ok hK hG
      rw [huses, if_pos rfl, hs] at ht
      obtain rfl := Except.ok.inj ht
      exact ⟨rfl, .inl ⟨h.valid, h.mem, hcommits⟩⟩
    | false =>
      rw [huses, if_neg Bool.false_ne_true] at ht
      obtain rfl := Except.ok.inj ht
      refine ⟨rfl, ?_⟩
      rcases h.form with hform | ⟨s, keys, hform⟩
      · exact .inl ⟨h.valid, h.mem, hform.state⟩
      · exact .inr ⟨hversion, by rw [hform.state]⟩

theorem semanticKeys_eq (h : c.Tracks K L) :
    ∃ keys, c.semanticKeys = .ok keys ∧ IndexedBy keys L c.governance := by
  rw [semanticKeys]
  rcases h.form with hform | ⟨s, keys, hform⟩
  · rw [hform.semanticKeys, requireLegacyState, hform.state]
    exact ⟨_, rfl, indexedBy_preimages L c.governance⟩
  · rw [hform.semanticKeys]
    exact ⟨keys, rfl, hform.indexed⟩

end Tracks

end Chain

/-! ### Blocks -/

/-- The validator set in force is one of those scheduled. -/
theorem Governance.WellFormed.validatorsAt {g : GenesisConfig} {G : Governance} (h : G.WellFormed g)
    {height : Int} {validators : List Validator}
    (hvalidators : G.validatorsAt g.validators height = .ok validators) :
    ∃ e ∈ G.validatorSchedule.entries, validators = e.2 := by
  rw [Governance.validatorsAt, throwIf_bind_eq_ok, Except.ok.injEq] at hvalidators
  rcases activeAt_mem height G.validatorSchedule.entries g.validators with heq | ⟨e, he, heq⟩
  · obtain ⟨rest, hrest⟩ := h.validators_start
    exact ⟨(0, g.validators), hrest ▸ mem_cons_self, hvalidators.2.symm.trans heq⟩
  · exact ⟨e, he, hvalidators.2.symm.trans heq⟩

/-- The transactions of a block add to the state exactly the keys that its index adds. -/
theorem Applied.stateView {g : GenesisConfig} {G G' : Governance} {L L' : LedgerState}
    {steps : List (BlockSlot × Transaction)} (h : Applied g G L steps G' L') {k : SemanticKey} :
    stateView L' G' k ≠ none ↔
      (∃ e ∈ steps, k ∈ indexedKeys e.2 g e.1.producer) ∨ ZyronChain.stateView L G k ≠ none := by
  induction h with
  | nil => simp
  | concat _ hstep ih =>
    rw [hstep.stateView, ih]
    simp only [mem_append, mem_singleton, or_and_right, exists_or, exists_eq_left]
    rw [← or_assoc, or_comm (a := k ∈ _)]

theorem Applied.valid {g : GenesisConfig} (hg : g.Valid) {G G' : Governance} {L L' : LedgerState}
    {steps : List (BlockSlot × Transaction)} (h : Applied g G L steps G' L') (hL : L.Valid) :
    L'.Valid := by
  induction h with
  | nil => exact hL
  | concat _ hstep ih => exact hstep.valid hg ih

namespace Chain

variable {K : List SemanticKey} {c c' : Chain} {L : LedgerState} {g : GenesisConfig} {block : Block}
  {nowMs : Int} {context : BlockContext} {start next : AppliedTransition}

theorem Replays.proposal (h : c.Replays block nowMs context start next) :
    EnvelopeProposal block c.tip context.currentValidators := by
  have henvelope := h.envelope
  rw [validateBlockEnvelope, unit_bind_eq_ok] at henvelope
  exact envelopeProposal_of_validate henvelope.1

theorem Replays.gates (h : c.Replays block nowMs context start next) :
    EnvelopeGates block c.tip context.currentValidators context.protocolVersion := by
  have henvelope := h.envelope
  rw [validateBlockEnvelope, unit_bind_eq_ok] at henvelope
  exact envelopeGates_of_validate henvelope.1

theorem isAddress_of_validatorsAt (hgenesis : c.genesis = g) (hG : c.governance.WellFormed g)
    {height round : Int} {validators : List Validator}
    (hvalidators : c.validatorsAt height = .ok validators) {v : Validator}
    (hv : expectedValidator validators height round = .ok v) : IsAddress v.address := by
  rw [Chain.validatorsAt, hgenesis] at hvalidators
  obtain ⟨e, he, heq⟩ := hG.validatorsAt hvalidators
  exact (hG.validators e he).2.2.2.address v (heq ▸ mem_of_expectedValidator hv)

/-- What the transactions of a block are applied with, by a producer that is named. -/
theorem StartsBlock.fits {height timestampMs : Int} {producer : Address}
    (h : c.StartsBlock height timestampMs (some producer) context start)
    (hgenesis : c.genesis = g) (hproducer : IsAddress producer) :
    context.Fits g c.governance ⟨height, timestampMs, producer⟩ where
  genesis := h.genesis.trans hgenesis
  height := h.height
  timestamp := h.timestamp
  producer := hproducer
  oracles := hgenesis ▸ h.oracles
  locks := hgenesis ▸ h.locks
  fee := by
    have hfee := h.fee
    unfold fixedFeeApplication at hfee
    rw [hgenesis] at hfee
    rw [slotFee]
    cases hpolicy : g.feePolicy with
    | none | some policy =>
      rw [hpolicy] at hfee
      exact (Except.ok.inj hfee).symm

theorem StartsBlock.exists_fits {height timestampMs : Int} {producer : Option Address}
    (h : c.StartsBlock height timestampMs producer context start) (hgenesis : c.genesis = g)
    (hg : g.Valid) (hG : c.governance.WellFormed g)
    (hproducer : ∀ p, producer = some p → IsAddress p) :
    ∃ p, context.Fits g c.governance ⟨height, timestampMs, p⟩ := by
  cases producer with
  | some p => exact ⟨p, h.fits hgenesis (hproducer p rfl)⟩
  | none =>
    -- without a producer it is the one that round 0 expects
    have hfee := h.fee
    unfold fixedFeeApplication at hfee
    rw [hgenesis] at hfee
    cases hpolicy : g.feePolicy with
    | none =>
      rw [hpolicy] at hfee
      exact ⟨g.activityPool, h.genesis.trans hgenesis, h.height, h.timestamp, hg.pool.1,
        hgenesis ▸ h.oracles, hgenesis ▸ h.locks, by
          rw [slotFee, hpolicy]; exact (Except.ok.inj hfee).symm⟩
    | some policy =>
      rw [hpolicy] at hfee
      dsimp only at hfee
      obtain ⟨validators, hvalidators, hfee⟩ := bind_eq_ok.mp hfee
      obtain ⟨v, hv, hfee⟩ := bind_eq_ok.mp hfee
      exact ⟨v.address, h.genesis.trans hgenesis, h.height, h.timestamp,
        isAddress_of_validatorsAt hgenesis hG hvalidators hv, hgenesis ▸ h.oracles,
        hgenesis ▸ h.locks, by rw [slotFee, hpolicy]; exact (Except.ok.inj hfee).symm⟩

/-- What the transactions of an accepted block are applied with. -/
theorem Replays.fits (h : c.Replays block nowMs context start next) (hgenesis : c.genesis = g)
    (hG : c.governance.WellFormed g) : context.Fits g c.governance block.slot := by
  have hproducer : IsAddress block.header.proposer := by
    obtain ⟨v, hv, hproposer, -⟩ := h.proposal.proposer
    rw [hproposer]
    exact isAddress_of_validatorsAt hgenesis hG h.starts.validators hv
  have hstarts := h.starts
  rw [feeProducerOf, if_neg (isAddress_ne_genesis hproducer)] at hstarts
  exact hstarts.fits hgenesis hproducer

/-- The state of a chain stands for the ledger of its transactions. -/
structure Follows (K : List SemanticKey) (g : GenesisConfig) (blocks : List (Block × Int))
    (c : Chain) (L : LedgerState) : Prop where
  governed : c.Governed g blocks
  tracks : c.Tracks K L
  after : LedgerAfter g (runSteps blocks) c.governance L

theorem tracks_create (hg : g.Valid) (hL : LedgerState.fromGenesis g = .ok L)
    (hkeys : ∀ k ∈ genesisKeys g, k ∈ K) {genesisBlock : Block} :
    Tracks K
      { genesis := g
        genesisBlock := genesisBlock
        tip := genesisBlock
        height := 0
        governance := genesisGovernance g
        state := some L
        stateV2 := none
        stateV2SemanticKeys := none } L := by
  obtain ⟨L', hL', hvalid⟩ := exists_fromGenesis hg
  obtain rfl : L = L' := Except.ok.inj (hL.symm.trans hL')
  refine ⟨hvalid, fun k hk => hkeys k ?_, .inl ⟨rfl, rfl, rfl, rfl⟩⟩
  have hfrom := fromGenesis_eq_ok hL
  rw [stateView_ne_none_iff] at hk
  rw [genesisKeys]
  cases k with
  | account a =>
    obtain ⟨allocation, hallocation, rfl⟩ := mem_map.mp ((hfrom.keys a).mp hk)
    exact mem_append_left _ (mem_map_of_mem hallocation)
  | activityEpoch e =>
    rw [IsStored, hfrom.epochs] at hk
    cases hk
  | validatorSchedule height =>
    obtain rfl : height = 0 := mem_singleton.mp hk
    simp
  | protocolSchedule height =>
    obtain rfl : height = 0 := mem_singleton.mp hk
    simp
  | activityOracleGovernance height => cases hk

theorem Tracks.semanticKeysForBlock_eq_ok (h : c.Tracks K L) (hgenesis : c.genesis = g)
    {G' : Governance} {L' : LedgerState}
    (happlied : Applied g c.governance L (blockSteps block) G' L')
    {keys : SortedSet canonicalLt} (hkeys : c.semanticKeysForBlock block = .ok keys) :
    IndexedBy keys L' G' := by
  obtain ⟨before, hbefore, hindexed⟩ := h.semanticKeys_eq
  rw [semanticKeysForBlock, hbefore, ok_bind] at hkeys
  cases hkeys
  intro text
  rw [mem_addKeys, hindexed text]
  simp only [happlied.stateView, blockSteps, stateV2KeysForTransaction_eq, hgenesis,
    mem_flatMap, mem_map]
  constructor
  · rintro (⟨tx, htx, k, hk, rfl⟩ | ⟨k, rfl, hk⟩)
    · exact ⟨k, rfl, .inl ⟨(block.slot, tx), ⟨tx, htx, rfl⟩, hk⟩⟩
    · exact ⟨k, rfl, .inr hk⟩
  · rintro ⟨k, rfl, ⟨_, ⟨tx, htx, rfl⟩, hk⟩ | hk⟩
    · exact .inl ⟨tx, htx, k, hk, rfl⟩
    · exact .inr ⟨k, rfl, hk⟩

/-- An accepted block leaves the state of the ledger that its transactions leave. -/
theorem Tracks.acceptBlock (hK : KeysDistinct K) (h : c.Tracks K L) (hgenesis : c.genesis = g)
    (hg : g.Valid) (hG : c.governance.WellFormed g) (hkeys : ∀ k ∈ blockKeys g block, k ∈ K)
    (haccept : c.acceptBlock block nowMs = .ok c') :
    ∃ L', c'.Tracks K L' ∧ Applied g c.governance L (blockSteps block) c'.governance L' := by
  have hstable := ((appends_of_acceptBlock haccept).stable
    (show block.header.height < _ by rw [minUpdateDelay]; omega) []).2.1
  obtain ⟨next, hnext, hcases⟩ := acceptBlock_eq_ok haccept
  obtain ⟨context, start, hreplays⟩ := validateFinalizedTransition_eq_ok.mp hnext
  obtain ⟨hsparse, hstart⟩ := h.startTransition_eq_ok hK hG hreplays.starts.start
  have huses := protocolUsesStateV2_iff hreplays.supported
  replace hstart : start.Tracks K c.governance L := by
    refine hstart.resolve_right ?_
    rintro ⟨hother, rfl⟩
    rw [← huses, ← hsparse] at hother
    cases hother
  obtain ⟨L', happlied, hnext', hsparse', -⟩ := hstart.applyAll hK hg (hreplays.fits hgenesis hG)
    hreplays.checked (fun tx htx k hk => hkeys k (mem_flatMap.mpr ⟨tx, htx, hk⟩)) hreplays.applied
  have hversion : block.header.version = context.protocolVersion := hreplays.gates.version_eq
  have hheld : c'.governance.protocolVersionAt block.header.height = .ok context.protocolVersion := by
    rw [hstable]
    exact hreplays.starts.version
  rw [← hsparse, ← hsparse', ← hversion] at huses
  have hstate := hnext'.state
  rcases hcases with ⟨hone, rfl⟩ | ⟨hother, keys, hindex, rfl⟩
  · refine ⟨L', ⟨hnext'.valid, hnext'.mem, .inl ⟨?_, ?_, rfl, rfl⟩⟩, happlied⟩
    · rw [← hone, hversion]
      exact hheld
    · have hnone : next.sparse = none := by
        rw [← Option.isSome_eq_false_iff.trans Option.isNone_iff_eq_none]
        exact Bool.eq_false_iff.mpr fun hsome => huses.mp hsome hone
      rw [hnone] at hstate
      exact hstate
  · obtain ⟨s, hs⟩ := Option.isSome_iff_exists.mp (huses.mpr hother)
    rw [hs] at hstate
    refine ⟨L', ⟨hnext'.valid, hnext'.mem, .inr ⟨s, keys, ⟨_, hheld, ?_⟩, rfl, hs, rfl, hstate, ?_⟩⟩,
      happlied⟩
    · rw [protocolUsesStateV2_iff hreplays.supported, ← hversion]
      exact hother
    · exact h.semanticKeysForBlock_eq_ok hgenesis happlied hindex

/-! ### Runs -/

theorem Follows.acceptBlock (hK : KeysDistinct K) {blocks : List (Block × Int)}
    (h : c.Follows K g blocks L) (hkeys : ∀ k ∈ blockKeys g block, k ∈ K)
    (haccept : c.acceptBlock block nowMs = .ok c') :
    ∃ L', c'.Follows K g (blocks ++ [(block, nowMs)]) L' ∧
      Applied g c.governance L (blockSteps block) c'.governance L' := by
  obtain ⟨L', htracks, happlied⟩ := h.tracks.acceptBlock hK h.governed.genesis h.governed.valid
    h.governed.wellFormed hkeys haccept
  refine ⟨L', ⟨h.governed.acceptBlock haccept, htracks, ?_⟩, happlied⟩
  rw [runSteps_concat]
  exact h.after.append happlied

/-- An invariant of a chain and its ledger that every block keeps holds after every run. -/
theorem follows_induction (hK : KeysDistinct K) {P : Chain → LedgerState → Prop}
    (hstart : ∀ c₀ L, create g = .ok c₀ → LedgerState.fromGenesis g = .ok L → P c₀ L)
    (hstep : ∀ done c L block nowMs c' L', c.Follows K g done L → P c L →
      c.acceptBlock block nowMs = .ok c' → c'.Follows K g (done ++ [(block, nowMs)]) L' →
      Applied g c.governance L (blockSteps block) c'.governance L' → P c' L')
    {blocks : List (Block × Int)} (hkeys : ∀ k ∈ runKeys g blocks, k ∈ K) {c₀ : Chain}
    (hcreate : create g = .ok c₀) (hrun : c₀.acceptBlocks blocks = .ok c) :
    ∃ L, c.Follows K g blocks L ∧ P c L := by
  have hgenesis : ∃ L, c₀.Follows K g [] L ∧ P c₀ L := by
    have hgoverned := governed_create hcreate
    obtain ⟨-, L, hL, heq⟩ := create_eq_ok hcreate
    refine ⟨L, ⟨hgoverned, heq ▸ tracks_create hgoverned.valid hL
      (fun k hk => hkeys k (mem_append_left _ hk)), L, hL, heq ▸ .nil⟩, hstart c₀ L hcreate hL⟩
  refine acceptBlocks_induction (P := fun done c =>
    (∀ k ∈ runKeys g done, k ∈ K) → ∃ L, c.Follows K g done L ∧ P c L) ?_ (fun _ => hgenesis) hrun
    hkeys
  intro done c block nowMs c' ih haccept hkeys
  rw [runKeys, flatMap_append, ← append_assoc] at hkeys
  obtain ⟨L, hfollows, hP⟩ := ih fun k hk => hkeys k (mem_append_left _ hk)
  obtain ⟨L', hfollows', happlied⟩ := hfollows.acceptBlock hK (fun k hk => hkeys k
    (mem_append_right _ (mem_flatMap.mpr ⟨_, mem_singleton_self _, hk⟩))) haccept
  exact ⟨L', hfollows', hstep done c L block nowMs c' L' hfollows hP haccept hfollows' happlied⟩

/-- The state of a chain stands for the ledger that the transactions of the run make. -/
theorem follows (hK : KeysDistinct K) {blocks : List (Block × Int)}
    (hkeys : ∀ k ∈ runKeys g blocks, k ∈ K) {c₀ : Chain} (hcreate : create g = .ok c₀)
    (hrun : c₀.acceptBlocks blocks = .ok c) : ∃ L, c.Follows K g blocks L := by
  obtain ⟨L, hfollows, -⟩ := follows_induction hK (P := fun _ _ => True) (fun _ _ _ _ => trivial)
    (fun _ _ _ _ _ _ _ _ _ _ _ _ => trivial) hkeys hcreate hrun
  exact ⟨L, hfollows⟩

/-- A block under way: its state stands for the ledger that its transactions so far leave, unless the
version is not supported. -/
theorem Follows.underWay (hK : KeysDistinct K) {blocks : List (Block × Int)}
    (h : c.Follows K g blocks L) {height timestampMs : Int} {producer : Option Address}
    (hproducer : ∀ p, producer = some p → IsAddress p) {working working' : Working}
    (hstart : c.startBlock height timestampMs producer = .ok (context, working))
    {before : List Transaction} (hbefore : applyTransactions context before working = .ok working')
    (hkeys : ∀ k ∈ context.keys before, k ∈ K) :
    ∃ slot, context.Fits g (c.governance.recordAll before) slot ∧
      working'.cursors = (c.governance.recordAll before).scheduleCursors ∧
      (c.governance.recordAll before).WellFormed g ∧
      ((∃ L', Applied g c.governance L (before.map fun tx => (slot, tx))
          (c.governance.recordAll before) L' ∧
          working'.transition.Tracks K (c.governance.recordAll before) L') ∨
        working'.transition = ⟨none, none⟩ ∧ before = []) := by
  obtain ⟨hstarts, hworking⟩ := startBlock_eq_ok.mp hstart
  rw [hworking] at hbefore
  obtain ⟨hchecked, happly, -, hcursors⟩ := applyTransactions_eq_ok.mp hbefore
  obtain ⟨p, hfits⟩ := hstarts.exists_fits h.governed.genesis h.governed.valid h.governed.wellFormed
    hproducer
  have hG : (c.governance.recordAll before).WellFormed g := by
    have hG := h.governed.wellFormed
    rw [← hfits.genesis] at hG ⊢
    exact hG.recordAll hchecked
  rcases (h.tracks.startTransition_eq_ok hK h.governed.wellFormed hstarts.start).2 with htracks |
    ⟨-, hnone⟩
  · obtain ⟨L', happlied, htracks', -, hfits'⟩ := htracks.applyAll hK h.governed.valid hfits hchecked
      (fun tx htx => hfits.fee ▸ hfits.genesis ▸ fun k hk => hkeys k (BlockContext.mem_keys htx hk)) happly
    exact ⟨_, hfits', hcursors, hG, .inl ⟨L', happlied, htracks'⟩⟩
  · rw [hnone] at happly
    cases before with
    | nil =>
      exact ⟨_, hfits, hcursors, hG, .inr ⟨(Except.ok.inj happly).symm, rfl⟩⟩
    | cons tx before =>
      rw [applyAll] at happly
      cases happly

end Chain

/-! ### States built from a ledger -/

/-- The state of a block is a ledger, or the authenticated state built from it. -/
def AppliedTransition.Holds (G : Governance) (L : LedgerState) (t : AppliedTransition) : Prop :=
  match t.sparse with
  | some s => stateV2FromLedgerSnapshot L.snapshot G.snapshot = .ok s
  | none => t.ledger = some L

/-- The state of a chain is a ledger, or the authenticated state built from it. -/
def Chain.Holds (c : Chain) (L : LedgerState) : Prop :=
  AppliedTransition.Holds c.governance L ⟨c.state, c.stateV2⟩

section

variable {g : GenesisConfig} {K : List SemanticKey} {G : Governance} {L : LedgerState}

/-- The authenticated state of a ledger is the one that is built from it. -/
theorem stateV2FromLedgerSnapshot_of_commits (hK : KeysDistinct K) (hL : L.Valid)
    (hmem : ∀ k, stateView L G k ≠ none → k ∈ K) (hG : G.WellFormed g) {s : SparseMerkleState}
    (h : Commits K (stateView L G) s) : stateV2FromLedgerSnapshot L.snapshot G.snapshot = .ok s := by
  obtain ⟨s', hs', hcommits⟩ := exists_stateV2FromLedgerSnapshot hK
    (fun k v hv => hmem k (by rw [hv]; exact Option.some_ne_none v)) hL
    fun e he => (hG.protocol e he).2.1
  rw [hs', h.ext hcommits]

theorem AppliedTransition.Tracks.holds (hK : KeysDistinct K) {t : AppliedTransition}
    (h : t.Tracks K G L) (hG : G.WellFormed g) : t.Holds G L := by
  have hstate := h.state
  rw [AppliedTransition.Holds]
  cases hsparse : t.sparse with
  | none =>
    rw [hsparse] at hstate
    exact hstate
  | some s =>
    rw [hsparse] at hstate
    exact stateV2FromLedgerSnapshot_of_commits hK h.valid h.mem hG hstate

theorem Chain.Tracks.holds (hK : KeysDistinct K) {c : Chain} (h : c.Tracks K L)
    (hG : c.governance.WellFormed g) : c.Holds L := by
  refine AppliedTransition.Tracks.holds hK ⟨h.valid, h.mem, ?_⟩ hG
  rcases h.form with hform | ⟨s, keys, hform⟩
  · rw [hform.stateV2]
    exact hform.state
  · rw [hform.stateV2]
    exact hform.commits

end

end

end ZyronChain
