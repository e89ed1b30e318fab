import ZyronChain.Chain.State

/-!
# The schedules along a run

A block only appends entries to the schedules, each far enough ahead of it, so what is in force at
the heights close to the tip cannot change any more.

## Main definitions

* `Transaction.validatorEntry?`, `Transaction.protocolEntry?`, `Transaction.oracleEntry?` : the entry
  that a transaction schedules.
* `Scheduled` : what the authorization of a transaction guarantees.
* `Checked` : the transactions of a block pass their checks one after the other.
* `Governance.WellFormed` : the schedules of a chain.

## Main results

* `scheduleCursors_record` : the cursors of a block are those of the schedules with its entries so far.
* `applyTransactions_eq_ok` : a block is checked transaction by transaction, and applied.
* `Governance.WellFormed.recordAll` : a block keeps the schedules well formed.
-/

namespace ZyronChain

open Checks List SortedMap

/-! ### Entries of a transaction -/

namespace Transaction

def validatorEntry? (tx : Transaction) : Option (Int × List Validator) := match tx.body with
  | .validatorUpdate activationHeight validators _ _ => some (activationHeight, validators)
  | _ => none

def protocolEntry? (tx : Transaction) : Option (Int × Int) := match tx.body with
  | .protocolUpgrade activationHeight protocolVersion _ => some (activationHeight, protocolVersion)
  | _ => none

def oracleEntry? (tx : Transaction) : Option (Int × OracleControl) := match tx.body with
  | .activityOracleGovernance activationHeight action publicKeys _ =>
    some (activationHeight, ⟨action, publicKeys⟩)
  | _ => none

end Transaction

/-- An oracle entry fits the control before it: a pause needs settlements that run, a resume paused
ones, and a revocation registered keys that are not revoked. -/
def OracleEntryFits (registered : List String) (control : ActivityOracleControl)
    (entry : OracleControl) : Prop :=
  match entry.action with
  | .pause => control.paused = false ∧ entry.publicKeys = []
  | .resume => control.paused = true ∧ entry.publicKeys = []
  | .revoke => entry.publicKeys ≠ [] ∧ entry.publicKeys.length ≤ maxActivityOracleApprovals ∧
      entry.publicKeys.Nodup ∧ ∀ key ∈ entry.publicKeys, key ∈ registered ∧ key ∉ control.revoked

section

variable [Crypto]

theorem activityOracleGovernancePublicKeysValid_eq_ok {action : ActivityOracleGovernanceAction}
    {publicKeys registered alreadyRevoked : List String} :
    activityOracleGovernancePublicKeysValid action publicKeys registered alreadyRevoked = .ok () ↔
      (action = .revoke → publicKeys ≠ [] ∧ publicKeys.length ≤ maxActivityOracleApprovals ∧
        publicKeys.Nodup ∧ ∀ key ∈ publicKeys, key ∈ registered ∧ key ∉ alreadyRevoked ∧
          isValidPublicKey key = true) ∧
      (action ≠ .revoke → publicKeys = []) := by
  rw [activityOracleGovernancePublicKeysValid]
  by_cases haction : action = .revoke
  · rw [if_pos haction, throwIf_bind_eq_ok, forDistinct_eq_ok, map_id]
    simp only [not_or, gt_iff_lt, not_lt, unit_bind_eq_ok, throwIf_eq_ok, not_not,
      assertValidPublicKey_eq_ok, true_and, not_mem_nil, not_false_eq_true, implies_true,
      haction, forall_const, ne_eq, not_true_eq_false, IsEmpty.forall_iff, and_true,
      length_eq_zero_iff, and_assoc]
  · rw [if_neg haction, throwIf_eq_ok, ne_eq, not_not, length_eq_zero_iff]
    exact ⟨fun h => ⟨fun hrevoke => absurd hrevoke haction, fun _ => h⟩, fun h => h.2 haction⟩

/-- What the authorization of a transaction guarantees about the entry it schedules. -/
structure Scheduled (g : GenesisConfig) (blockHeight : Int) (G : Governance) (tx : Transaction) :
    Prop where
  validators : ∀ e, tx.validatorEntry? = some e →
    (∀ k ∈ G.validatorSchedule.keys, k < e.1) ∧ blockHeight + minUpdateDelay ≤ e.1 ∧
      (IsSafeInteger e.1 ∧ 1 ≤ e.1) ∧ g.minimumValidatorCount ≤ e.2.length ∧
      e.2.length ≤ maxValidatorCount ∧ ValidatorsWellFormed e.2
  protocol : ∀ e, tx.protocolEntry? = some e →
    (∀ k ∈ G.protocolSchedule.keys, k < e.1) ∧ blockHeight + minUpdateDelay ≤ e.1 ∧
      (IsSafeInteger e.1 ∧ 1 ≤ e.1) ∧ (IsSafeInteger e.2 ∧ 1 ≤ e.2 ∧ e.2 ≤ 65535) ∧
      (consensusV6ProtocolVersion ≤ G.lastScheduledProtocolVersion →
        G.lastScheduledProtocolVersion ≤ e.2)
  oracles : ∀ e, tx.oracleEntry? = some e →
    (∀ k ∈ G.activityOracleGovernance.keys, k < e.1) ∧ blockHeight + minUpdateDelay ≤ e.1 ∧
      (IsSafeInteger e.1 ∧ 1 ≤ e.1) ∧ (∀ key ∈ e.2.publicKeys, isValidPublicKey key = true) ∧
      OracleEntryFits g.activityOracles G.scheduledOracleControl e.2

omit [Crypto] in
/-- Later than the latest entry is later than all entries. -/
theorem forall_keys_lt {V : Type} {m : SortedMap (fun a b : Int => a < b) V} {d height : Int}
    (h : ¬ height ≤ (m.last?.map Prod.fst).getD d) : ∀ k ∈ m.keys, k < height := by
  refine lt_of_last_lt fun e he => ?_
  rw [he, Option.map_some, Option.getD_some, not_le] at h
  exact h

theorem scheduled_of_authorized {g : GenesisConfig} {genesisHash : String}
    {currentValidators : List Validator} {blockHeight : Int} {G : Governance} {tx : Transaction}
    (htx : tx.WellFormed)
    (h : authorizeGovernance g genesisHash currentValidators blockHeight G.scheduleCursors tx =
      .ok ()) : Scheduled g blockHeight G tx := by
  have hbody := htx.body
  rw [Transaction.BodyWellFormed] at hbody
  rw [authorizeGovernance] at h
  constructor
  · intro e he
    rw [Transaction.validatorEntry?] at he
    split at he
    · next activationHeight validators approvals proofs heq =>
      cases he
      simp only [heq] at h hbody
      rw [validateValidatorUpdateAuthorization, unit_bind_eq_ok, validateValidatorUpdateQuorum] at h
      simp only [throwIf_bind_eq_ok, not_or, not_lt, gt_iff_lt] at h
      exact ⟨forall_keys_lt h.1.2.2.1, h.1.2.1, hbody.1, h.1.1.1, h.1.1.2,
        validateValidators_eq_ok.mp hbody.2.2⟩
    · cases he
  · intro e he
    rw [Transaction.protocolEntry?] at he
    split at he
    · next activationHeight protocolVersion approvals heq =>
      cases he
      simp only [heq] at h hbody
      rw [validateProtocolUpgradeAuthorization, assertNoProtocolDowngradeFromV6] at h
      simp only [throwIf_bind_eq_ok, not_lt, ge_iff_le, not_and] at h
      exact ⟨forall_keys_lt h.2.1, h.1, hbody.1, hbody.2.2, h.2.2.1⟩
    · cases he
  · intro e he
    rw [Transaction.oracleEntry?] at he
    split at he
    · next activationHeight action publicKeys approvals heq =>
      cases he
      simp only [heq] at h hbody
      rw [validateActivityOracleGovernanceAuthorization] at h
      simp only [unit_bind_eq_ok, throwIf_eq_ok, not_lt,
        activityOracleGovernancePublicKeysValid_eq_ok] at h
      obtain ⟨hdelay, hlast, halternates, ⟨hrevoke, hempty⟩, -⟩ := h
      refine ⟨forall_keys_lt hlast, hdelay, hbody.1, fun key hkey => ?_, ?_⟩
      · by_cases haction : action = .revoke
        · exact ((hrevoke haction).2.2.2 key hkey).2.2
        · exact absurd (hempty haction ▸ hkey) not_mem_nil
      rw [OracleEntryFits]
      cases action with
      | pause =>
        rw [assertPauseAlternates, throwIf_eq_ok, Bool.not_eq_true] at halternates
        exact ⟨halternates, hempty (by decide)⟩
      | resume =>
        rw [assertPauseAlternates, throwIf_eq_ok, not_not] at halternates
        exact ⟨halternates, hempty (by decide)⟩
      | revoke =>
        obtain ⟨hne, hlength, hnodup, hkeys⟩ := hrevoke rfl
        exact ⟨hne, hlength, hnodup, fun key hkey => ⟨(hkeys key hkey).1, (hkeys key hkey).2.1⟩⟩
    · cases he

/-! ### Recording an entry -/

/-- A schedule with one more entry, if there is one. -/
def withEntry {V : Type} (m : SortedMap (fun a b : Int => a < b) V) :
    Option (Int × V) → SortedMap (fun a b : Int => a < b) V
  | none => m
  | some e => m.set e.1 e.2

omit [Crypto] in
theorem record_eq (G : Governance) (tx : Transaction) :
    G.record tx = ⟨withEntry G.validatorSchedule tx.validatorEntry?,
      withEntry G.protocolSchedule tx.protocolEntry?,
      withEntry G.activityOracleGovernance tx.oracleEntry?⟩ := by
  rw [Governance.record, Transaction.validatorEntry?, Transaction.protocolEntry?,
    Transaction.oracleEntry?]
  cases tx.body <;> rfl

omit [Crypto] in
private theorem entries_withEntry {V : Type} {m : SortedMap (fun a b : Int => a < b) V}
    {entry : Option (Int × V)} (h : ∀ e, entry = some e → ∀ k ∈ m.keys, k < e.1) :
    (withEntry m entry).entries = m.entries ++ entry.toList := by
  cases entry with
  | none => rw [withEntry, Option.toList_none, append_nil]
  | some e => rw [withEntry, entries_set_of_lt (h e rfl), Option.toList_some]

namespace Scheduled

variable {g : GenesisConfig} {blockHeight : Int} {G : Governance} {tx : Transaction}

theorem validator_entries (h : Scheduled g blockHeight G tx) :
    (G.record tx).validatorSchedule.entries =
      G.validatorSchedule.entries ++ tx.validatorEntry?.toList :=
  (record_eq G tx) ▸ entries_withEntry fun e he => (h.validators e he).1

theorem protocol_entries (h : Scheduled g blockHeight G tx) :
    (G.record tx).protocolSchedule.entries =
      G.protocolSchedule.entries ++ tx.protocolEntry?.toList :=
  (record_eq G tx) ▸ entries_withEntry fun e he => (h.protocol e he).1

theorem oracle_entries (h : Scheduled g blockHeight G tx) :
    (G.record tx).activityOracleGovernance.entries =
      G.activityOracleGovernance.entries ++ tx.oracleEntry?.toList :=
  (record_eq G tx) ▸ entries_withEntry fun e he => (h.oracles e he).1

end Scheduled

omit [Crypto] in
private theorem after_append (entries : List (Int × OracleControl)) (e : Int × OracleControl) :
    ActivityOracleControl.after (entries ++ [e]) = (ActivityOracleControl.after entries).advance e.2 := by
  rw [ActivityOracleControl.after, foldl_append]
  rfl

/-- The cursors of a block are those of the schedules with its entries so far. -/
theorem scheduleCursors_record {g : GenesisConfig} {blockHeight : Int} {G : Governance}
    {tx : Transaction} (h : Scheduled g blockHeight G tx) :
    (G.record tx).scheduleCursors = G.scheduleCursors.advance tx := by
  rw [ScheduleCursors.advance]
  cases heq : tx.body with
  | validatorUpdate activationHeight validators approvals proofs =>
    have he : tx.validatorEntry? = some (activationHeight, validators) := by
      rw [Transaction.validatorEntry?, heq]
    have hlast := SortedMap.last?_set_of_lt (h.validators _ he).1 validators
    rw [Governance.record, heq]
    simp only [Governance.scheduleCursors, Governance.lastValidatorActivationHeight,
      Governance.lastScheduledValidators, hlast]
    rfl
  | activityOracleGovernance activationHeight action publicKeys approvals =>
    have he : tx.oracleEntry? = some (activationHeight, ⟨action, publicKeys⟩) := by
      rw [Transaction.oracleEntry?, heq]
    have hlast := SortedMap.last?_set_of_lt (h.oracles _ he).1 ⟨action, publicKeys⟩
    have hentries := entries_set_of_lt (h.oracles _ he).1 ⟨action, publicKeys⟩
    rw [Governance.record, heq]
    simp only [Governance.scheduleCursors, Governance.lastActivityOracleGovernanceHeight,
      Governance.scheduledOracleControl, hlast, hentries, after_append]
    rfl
  | protocolUpgrade activationHeight protocolVersion approvals =>
    have he : tx.protocolEntry? = some (activationHeight, protocolVersion) := by
      rw [Transaction.protocolEntry?, heq]
    have hlast := SortedMap.last?_set_of_lt (h.protocol _ he).1 protocolVersion
    rw [Governance.record, heq]
    simp only [Governance.scheduleCursors, Governance.lastProtocolActivationHeight,
      Governance.lastScheduledProtocolVersion, hlast]
    rfl
  | _ => rw [Governance.record, heq]

/-! ### The transactions of a block -/

/-- The transactions pass their checks, each against the schedules with the entries before it. -/
def Checked (context : BlockContext) : List String → Governance → List Transaction → Prop
  | _, _, [] => True
  | seen, G, tx :: transactions =>
    checkTransaction context seen G.scheduleCursors tx = .ok () ∧
      Checked context (tx.txid :: seen) (G.record tx) transactions

/-- The transactions are applied one after the other. -/
def applyAll (context : BlockContext) :
    List Transaction → AppliedTransition → Except String AppliedTransition
  | [], t => .ok t
  | tx :: transactions, t => do
    let t ← applyTransaction context t tx
    applyAll context transactions t

variable {context : BlockContext} {seen : List String} {transactions : List Transaction} {α : Type}
  {c : Chain}

theorem checkTransaction_txid {cursors : ScheduleCursors} {tx : Transaction}
    (h : checkTransaction context seen cursors tx = .ok ()) : tx.txid ∉ seen := by
  rw [checkTransaction, throwIf_bind_eq_ok, throwIf_bind_eq_ok] at h
  exact h.2.1

/-- The transactions of a replayed block have different IDs. -/
theorem Checked.nodup_txids {G : Governance} (h : Checked context seen G transactions) :
    (transactions.map Transaction.txid).Nodup ∧ ∀ tx ∈ transactions, tx.txid ∉ seen := by
  induction transactions generalizing seen G with
  | nil => exact ⟨nodup_nil, fun tx htx => absurd htx (not_mem_nil)⟩
  | cons tx transactions ih =>
    obtain ⟨hcheck, hrest⟩ := h
    obtain ⟨hnodup, hseen⟩ := ih hrest
    refine ⟨nodup_cons.mpr ⟨fun hmem => ?_, hnodup⟩,
      forall_mem_cons.mpr ⟨checkTransaction_txid hcheck, fun tx' htx' hmem =>
        hseen tx' htx' (mem_cons_of_mem _ hmem)⟩⟩
    obtain ⟨tx', htx', heq⟩ := mem_map.mp hmem
    exact hseen tx' htx' (heq ▸ mem_cons_self)

theorem wellFormed_of_check {cursors : ScheduleCursors} {tx : Transaction}
    (h : checkTransaction context seen cursors tx = .ok ()) : tx.WellFormed := by
  rw [checkTransaction, throwIf_bind_eq_ok, throwIf_bind_eq_ok, unit_bind_eq_ok] at h
  exact validateTransactionShape_eq_ok h.2.2.1

theorem scheduled_of_check {G : Governance} {tx : Transaction}
    (h : checkTransaction context seen G.scheduleCursors tx = .ok ()) :
    Scheduled context.genesis context.blockHeight G tx := by
  have htx := wellFormed_of_check h
  rw [checkTransaction] at h
  simp only [unit_bind_eq_ok] at h
  exact scheduled_of_authorized htx h.2.2.2.2.2

/-- A block is checked transaction by transaction, and applied. -/
theorem applyTransactions_eq_ok {G : Governance} {t : AppliedTransition} {working : Working} :
    applyTransactions context transactions ⟨seen, G.scheduleCursors, t⟩ = .ok working ↔
      Checked context seen G transactions ∧
        applyAll context transactions t = .ok working.transition ∧
        working.seen = (transactions.map Transaction.txid).reverse ++ seen ∧
        working.cursors = (G.recordAll transactions).scheduleCursors := by
  induction transactions generalizing seen G t with
  | nil =>
    rw [applyTransactions, applyAll, Except.ok.injEq, Except.ok.injEq]
    cases working
    simp [Checked, Governance.recordAll, eq_comm, and_comm, and_left_comm]
  | cons tx transactions ih =>
    rw [applyTransactions, unit_bind_eq_ok, Checked, and_assoc]
    refine and_congr_right fun hcheck => ?_
    rw [← scheduleCursors_record (scheduled_of_check hcheck), bind_eq_ok, applyAll, bind_eq_ok,
      map_cons, reverse_cons, append_assoc, Governance.recordAll, foldl_cons,
      ← Governance.recordAll]
    constructor
    · rintro ⟨t', happly, hrest⟩
      obtain ⟨hchecked, happlied, hseen, hcursors⟩ := ih.mp hrest
      exact ⟨hchecked, ⟨t', happly, happlied⟩, hseen, hcursors⟩
    · rintro ⟨hchecked, ⟨t', happly, happlied⟩, hseen, hcursors⟩
      exact ⟨t', happly, ih.mpr ⟨hchecked, happlied, hseen, hcursors⟩⟩

/-! ### Well-formed schedules -/

/-- What a block appends to the schedules. -/
structure Governance.Appends (blockHeight : Int) (transactions : List Transaction)
    (G G' : Governance) : Prop where
  validators : G'.validatorSchedule.entries =
    G.validatorSchedule.entries ++ transactions.filterMap Transaction.validatorEntry?
  protocol : G'.protocolSchedule.entries =
    G.protocolSchedule.entries ++ transactions.filterMap Transaction.protocolEntry?
  oracles : G'.activityOracleGovernance.entries =
    G.activityOracleGovernance.entries ++ transactions.filterMap Transaction.oracleEntry?
  validators_late : ∀ e ∈ transactions.filterMap Transaction.validatorEntry?,
    blockHeight + minUpdateDelay ≤ e.1
  protocol_late : ∀ e ∈ transactions.filterMap Transaction.protocolEntry?,
    blockHeight + minUpdateDelay ≤ e.1
  oracles_late : ∀ e ∈ transactions.filterMap Transaction.oracleEntry?,
    blockHeight + minUpdateDelay ≤ e.1

omit [Crypto] in
private theorem append_filterMap {β : Type} {xs ys zs : List β} {f : α → Option β} {a : α}
    {as : List α} (hy : ys = xs ++ (f a).toList) (hz : zs = ys ++ as.filterMap f) :
    zs = xs ++ (a :: as).filterMap f := by
  rw [hz, hy, append_assoc]
  cases ha : f a with
  | none => rw [filterMap_cons_none ha, Option.toList_none, nil_append]
  | some b => rw [filterMap_cons_some ha, Option.toList_some, singleton_append]

omit [Crypto] in
private theorem forall_mem_filterMap_cons {β : Type} {f : α → Option β} {a : α} {as : List α}
    {p : β → Prop} (ha : ∀ b, f a = some b → p b) (has : ∀ b ∈ as.filterMap f, p b) :
    ∀ b ∈ (a :: as).filterMap f, p b := by
  intro b hb
  obtain ⟨x, hx, hfx⟩ := mem_filterMap.mp hb
  rcases mem_cons.mp hx with rfl | hx
  · exact ha b hfx
  · exact has b (mem_filterMap.mpr ⟨x, hx, hfx⟩)

theorem appends_of_checked {G : Governance} (h : Checked context seen G transactions) :
    G.Appends context.blockHeight transactions (G.recordAll transactions) := by
  induction transactions generalizing seen G with
  | nil =>
    exact ⟨(append_nil _).symm, (append_nil _).symm, (append_nil _).symm, nofun, nofun, nofun⟩
  | cons tx transactions ih =>
    have hs := scheduled_of_check h.1
    have hrest := ih h.2
    exact
      { validators := append_filterMap hs.validator_entries hrest.validators
        protocol := append_filterMap hs.protocol_entries hrest.protocol
        oracles := append_filterMap hs.oracle_entries hrest.oracles
        validators_late := forall_mem_filterMap_cons (fun e he => (hs.validators e he).2.1)
          hrest.validators_late
        protocol_late := forall_mem_filterMap_cons (fun e he => (hs.protocol e he).2.1)
          hrest.protocol_late
        oracles_late := forall_mem_filterMap_cons (fun e he => (hs.oracles e he).2.1)
          hrest.oracles_late }

/-- Every entry of an oracle schedule fits the control after the entries before it. -/
def OracleScheduleFits (registered : List String) (entries : List (Int × OracleControl)) : Prop :=
  ∀ before e after, entries = before ++ e :: after → OracleEntryFits registered (.after before) e.2

/-- The schedules of a chain. -/
structure Governance.WellFormed (g : GenesisConfig) (G : Governance) : Prop where
  validators_start : ∃ rest, G.validatorSchedule.entries = (0, g.validators) :: rest
  protocol_start : ∃ rest, G.protocolSchedule.entries = (0, 1) :: rest
  validators : ∀ e ∈ G.validatorSchedule.entries, (IsSafeInteger e.1 ∧ 0 ≤ e.1) ∧
    g.minimumValidatorCount ≤ e.2.length ∧ e.2.length ≤ maxValidatorCount ∧ ValidatorsWellFormed e.2
  protocol : ∀ e ∈ G.protocolSchedule.entries, (IsSafeInteger e.1 ∧ 0 ≤ e.1) ∧
    IsSafeInteger e.2 ∧ 1 ≤ e.2 ∧ e.2 ≤ 65535
  no_downgrade : G.protocolSchedule.entries.Pairwise fun a b =>
    consensusV6ProtocolVersion ≤ a.2 → a.2 ≤ b.2
  oracle_entries : ∀ e ∈ G.activityOracleGovernance.entries, (IsSafeInteger e.1 ∧ 1 ≤ e.1) ∧
    ∀ key ∈ e.2.publicKeys, isValidPublicKey key = true
  oracles : OracleScheduleFits g.activityOracles G.activityOracleGovernance.entries

theorem genesisGovernance_wellFormed {g : GenesisConfig} (hg : g.Valid) :
    (genesisGovernance g).WellFormed g where
  validators_start := ⟨[], rfl⟩
  protocol_start := ⟨[], rfl⟩
  validators e he := by
    rw [mem_singleton.mp he]
    exact ⟨⟨(by decide : IsSafeInteger 0), le_refl 0⟩, hg.count.1, hg.count.2, hg.validators⟩
  protocol e he := by
    rw [mem_singleton.mp he]
    decide
  no_downgrade := pairwise_singleton _ _
  oracle_entries _ he := absurd he not_mem_nil
  oracles before e after h := absurd h (by simp [genesisGovernance, SortedMap.empty])

omit [Crypto] in
private theorem forall_mem_append_toList {p : α → Prop} {xs : List α} {x : Option α}
    (hxs : ∀ a ∈ xs, p a) (hx : ∀ a, x = some a → p a) : ∀ a ∈ xs ++ x.toList, p a := by
  intro a ha
  rcases mem_append.mp ha with ha | ha
  · exact hxs a ha
  · exact hx a (Option.mem_toList.mp ha)

omit [Crypto] in
private theorem OracleScheduleFits.append {registered : List String}
    {entries : List (Int × OracleControl)} {x : Option (Int × OracleControl)}
    (h : OracleScheduleFits registered entries)
    (hx : ∀ e, x = some e → OracleEntryFits registered (.after entries) e.2) :
    OracleScheduleFits registered (entries ++ x.toList) := by
  cases x with
  | none => rwa [Option.toList_none, append_nil]
  | some new =>
    intro before e after heq
    rw [Option.toList_some] at heq
    rcases eq_nil_or_concat after with rfl | ⟨init, last, rfl⟩
    · obtain ⟨rfl, hlast⟩ := append_inj' heq rfl
      rw [List.cons.injEq] at hlast
      exact hlast.1 ▸ hx new rfl
    · rw [concat_eq_append, ← cons_append, ← append_assoc] at heq
      exact h before e init (append_inj' heq rfl).1

omit [Crypto] in
private theorem noDowngrade_append {entries : List (Int × Int)} {x : Option (Int × Int)}
    (h : entries.Pairwise fun a b => consensusV6ProtocolVersion ≤ a.2 → a.2 ≤ b.2)
    (hx : ∀ e, x = some e → consensusV6ProtocolVersion ≤ (entries.getLast?.map Prod.snd).getD 1 →
      (entries.getLast?.map Prod.snd).getD 1 ≤ e.2) :
    (entries ++ x.toList).Pairwise fun a b => consensusV6ProtocolVersion ≤ a.2 → a.2 ≤ b.2 := by
  cases x with
  | none => rwa [Option.toList_none, append_nil]
  | some new =>
    refine pairwise_append.mpr ⟨h, pairwise_singleton _ _, fun a ha b hb hv6 => ?_⟩
    rw [mem_singleton.mp hb]
    -- the versions from v6 on do not decrease, so the last entry is at least this one
    rcases eq_nil_or_concat entries with rfl | ⟨init, last, rfl⟩
    · cases ha
    · rw [concat_eq_append] at h ha hx
      have hlast := hx new rfl
      rw [List.getLast?_concat, Option.map_some, Option.getD_some] at hlast
      rcases mem_append.mp ha with ha | ha
      · have hle := (pairwise_append.mp h).2.2 a ha last (mem_singleton_self last) hv6
        exact le_trans hle (hlast (le_trans hv6 hle))
      · rw [mem_singleton.mp ha] at hv6 ⊢
        exact hlast hv6

theorem Governance.WellFormed.record {g : GenesisConfig} {blockHeight : Int} {G : Governance}
    {tx : Transaction} (h : G.WellFormed g) (hs : Scheduled g blockHeight G tx) :
    (G.record tx).WellFormed g where
  validators_start := by
    obtain ⟨rest, hrest⟩ := h.validators_start
    rw [hs.validator_entries, hrest]
    exact ⟨_, rfl⟩
  protocol_start := by
    obtain ⟨rest, hrest⟩ := h.protocol_start
    rw [hs.protocol_entries, hrest]
    exact ⟨_, rfl⟩
  validators := by
    rw [hs.validator_entries]
    refine forall_mem_append_toList h.validators fun e he => ?_
    obtain ⟨-, -, ⟨hsafe, hpos⟩, hset⟩ := hs.validators e he
    exact ⟨⟨hsafe, by omega⟩, hset⟩
  protocol := by
    rw [hs.protocol_entries]
    refine forall_mem_append_toList h.protocol fun e he => ?_
    obtain ⟨-, -, ⟨hsafe, hpos⟩, hversion, -⟩ := hs.protocol e he
    exact ⟨⟨hsafe, by omega⟩, hversion⟩
  no_downgrade := by
    rw [hs.protocol_entries]
    exact noDowngrade_append h.no_downgrade fun e he => (hs.protocol e he).2.2.2.2
  oracle_entries := by
    rw [hs.oracle_entries]
    refine forall_mem_append_toList h.oracle_entries fun e he => ?_
    obtain ⟨-, -, hheight, hkeys, -⟩ := hs.oracles e he
    exact ⟨hheight, hkeys⟩
  oracles := by
    rw [hs.oracle_entries]
    exact h.oracles.append fun e he => (hs.oracles e he).2.2.2.2

theorem Governance.WellFormed.recordAll {G : Governance} (h : G.WellFormed context.genesis)
    (hc : Checked context seen G transactions) :
    (G.recordAll transactions).WellFormed context.genesis := by
  induction transactions generalizing seen G with
  | nil => exact h
  | cons tx transactions ih => exact ih (h.record (scheduled_of_check hc.1)) hc.2

/-! ### Blocks -/

/-- An accepted block: its envelope, the checks of its transactions and their replay. -/
structure Chain.Replays (c : Chain) (block : Block) (nowMs : Int) (context : BlockContext)
    (start next : AppliedTransition) : Prop where
  starts : c.StartsBlock block.header.height block.header.timestampMs (feeProducerOf block) context
    start
  supported : assertSupportedProtocolVersion context.protocolVersion = .ok ()
  envelope : validateBlockEnvelope block c.tip context.currentValidators nowMs true
    context.protocolVersion true = .ok ()
  bytes : assertBlockBytes block = .ok ()
  checked : Checked context [] c.governance block.transactions
  applied : applyAll context block.transactions start = .ok next
  root : stateRootForProtocol context.protocolVersion next = .ok block.header.stateRoot

theorem Chain.validateAndApply_eq_ok {blockHeight blockTimestampMs : Int}
    {producer : Option Address} {next : AppliedTransition} :
    c.validateAndApply transactions blockHeight blockTimestampMs producer = .ok next ↔
      ∃ context start, c.StartsBlock blockHeight blockTimestampMs producer context start ∧
        Checked context [] c.governance transactions ∧
        applyAll context transactions start = .ok next := by
  rw [Chain.validateAndApply, bind_eq_ok]
  constructor
  · rintro ⟨⟨context, working⟩, hstart, h⟩
    obtain ⟨hstarts, hworking⟩ := Chain.startBlock_eq_ok.mp hstart
    obtain ⟨working', h, hnext⟩ := bind_eq_ok.mp h
    rw [hworking] at h
    obtain ⟨hchecked, happlied, -, -⟩ := applyTransactions_eq_ok.mp h
    rw [Except.ok.injEq] at hnext
    exact ⟨context, working.transition, hstarts, hchecked, hnext ▸ happlied⟩
  · rintro ⟨context, start, hstarts, hchecked, happlied⟩
    have hloop : applyTransactions context transactions ⟨[], c.governance.scheduleCursors, start⟩ =
        .ok ⟨(transactions.map Transaction.txid).reverse ++ [],
          (c.governance.recordAll transactions).scheduleCursors, next⟩ :=
      applyTransactions_eq_ok.mpr ⟨hchecked, happlied, rfl, rfl⟩
    exact ⟨(context, ⟨[], c.governance.scheduleCursors, start⟩),
      Chain.startBlock_eq_ok.mpr ⟨hstarts, rfl⟩, bind_eq_ok.mpr ⟨_, hloop, rfl⟩⟩

theorem Chain.validateFinalizedTransition_eq_ok {block : Block} {nowMs : Int}
    {next : AppliedTransition} :
    c.validateFinalizedTransition block nowMs = .ok next ↔
      ∃ context start, c.Replays block nowMs context start next := by
  simp only [Chain.validateFinalizedTransition, Chain.replayBlock, bind_eq_ok, Except.ok.injEq,
    Chain.validateAndApply_eq_ok]
  constructor
  · rintro ⟨version, hversion, _, hsupported, validators, hvalidators, _, henvelope, _, hbytes, t,
      ⟨context, start, hstarts, hchecked, happlied⟩, root, hroot, _, hthrow, rfl⟩
    have heq := not_not.mp (throwIf_eq_ok.mp hthrow)
    have hv : version = context.protocolVersion := Except.ok.inj (hversion.symm.trans hstarts.version)
    have hvs : validators = context.currentValidators :=
      Except.ok.inj (hvalidators.symm.trans hstarts.validators)
    subst hv hvs heq
    exact ⟨context, start, hstarts, hsupported, henvelope, hbytes, hchecked, happlied, hroot⟩
  · rintro ⟨context, start, h⟩
    exact ⟨_, h.starts.version, (), h.supported, _, h.starts.validators, (), h.envelope, (), h.bytes,
      next, ⟨context, start, h.starts, h.checked, h.applied⟩, _, h.root, (),
      throwIf_of_not (not_not.mpr rfl), rfl⟩

/-- What every accepted block has, whatever its protocol version. -/
theorem Chain.replays_of_acceptBlock {c' : Chain} {block : Block} {nowMs : Int}
    (h : c.acceptBlock block nowMs = .ok c') :
    (∃ context start next, c.Replays block nowMs context start next) ∧ c'.genesis = c.genesis ∧
      c'.genesisBlock = c.genesisBlock ∧ c'.tip = block ∧ c'.height = block.header.height ∧
      c'.governance = c.governance.recordAll block.transactions := by
  obtain ⟨next, hnext, hcases⟩ := Chain.acceptBlock_eq_ok h
  obtain ⟨context, start, hreplays⟩ := Chain.validateFinalizedTransition_eq_ok.mp hnext
  refine ⟨⟨context, start, next, hreplays⟩, ?_⟩
  rcases hcases with ⟨-, rfl⟩ | ⟨-, keys, -, rfl⟩
  · exact ⟨rfl, rfl, rfl, rfl, rfl⟩
  · exact ⟨rfl, rfl, rfl, rfl, rfl⟩

/-! ### Runs -/

omit [Crypto] in
theorem Governance.Appends.stable {blockHeight k : Int} {G G' : Governance}
    (h : G.Appends blockHeight transactions G') (hk : k < blockHeight + minUpdateDelay)
    (validators : List Validator) :
    G'.validatorsAt validators k = G.validatorsAt validators k ∧
      G'.protocolVersionAt k = G.protocolVersionAt k ∧
      G'.activityOracleControlAt k = G.activityOracleControlAt k := by
  refine ⟨?_, ?_, ?_⟩
  · rw [Governance.validatorsAt, Governance.validatorsAt, h.validators,
      activeAt_append fun e he => lt_of_lt_of_le hk (h.validators_late e he)]
  · rw [Governance.protocolVersionAt, Governance.protocolVersionAt, h.protocol,
      activeAt_append fun e he => lt_of_lt_of_le hk (h.protocol_late e he)]
  · rw [Governance.activityOracleControlAt, Governance.activityOracleControlAt, h.oracles,
      takeWhile_append fun e he => lt_of_lt_of_le hk (h.oracles_late e he)]

/-- The transactions of a run, in order. -/
def runTransactions (blocks : List (Block × Int)) : List Transaction :=
  blocks.flatMap fun entry => entry.1.transactions

omit [Crypto] in
theorem runTransactions_concat (blocks : List (Block × Int)) (block : Block) (nowMs : Int) :
    runTransactions (blocks ++ [(block, nowMs)]) = runTransactions blocks ++ block.transactions := by
  rw [runTransactions, flatMap_append, flatMap_singleton]
  rfl

/-- The schedules hold the entries of the genesis and then those of the transactions. -/
structure Governance.ListsRun (g : GenesisConfig) (transactions : List Transaction)
    (G : Governance) : Prop where
  validators : G.validatorSchedule.entries =
    (0, g.validators) :: transactions.filterMap Transaction.validatorEntry?
  protocol : G.protocolSchedule.entries =
    (0, 1) :: transactions.filterMap Transaction.protocolEntry?
  oracles : G.activityOracleGovernance.entries = transactions.filterMap Transaction.oracleEntry?

omit [Crypto] in
theorem Governance.ListsRun.append {g : GenesisConfig} {done transactions : List Transaction}
    {blockHeight : Int} {G G' : Governance} (h : G.ListsRun g done)
    (happends : G.Appends blockHeight transactions G') : G'.ListsRun g (done ++ transactions) where
  validators := by rw [happends.validators, h.validators, filterMap_append, cons_append]
  protocol := by rw [happends.protocol, h.protocol, filterMap_append, cons_append]
  oracles := by rw [happends.oracles, h.oracles, filterMap_append]

/-- What a run keeps of the schedules. -/
structure Chain.Governed (g : GenesisConfig) (blocks : List (Block × Int)) (c : Chain) : Prop where
  genesis : c.genesis = g
  valid : g.Valid
  wellFormed : c.governance.WellFormed g
  lists : c.governance.ListsRun g (runTransactions blocks)

namespace Chain

theorem create_eq_ok {g : GenesisConfig} {c : Chain} (h : create g = .ok c) :
    validateGenesis g = .ok () ∧ ∃ L, LedgerState.fromGenesis g = .ok L ∧
      c =
        { genesis := g
          genesisBlock := createGenesisBlock g L.root
          tip := createGenesisBlock g L.root
          height := 0
          governance := genesisGovernance g
          state := some L
          stateV2 := none
          stateV2SemanticKeys := none } := by
  rw [create, unit_bind_eq_ok] at h
  obtain ⟨hg, h⟩ := h
  obtain ⟨L, hL, h⟩ := bind_eq_ok.mp h
  obtain ⟨_, -, h⟩ := bind_eq_ok.mp h
  exact ⟨hg, L, hL, (Except.ok.inj h).symm⟩

theorem governed_create {g : GenesisConfig} {c : Chain} (h : create g = .ok c) :
    c.Governed g [] := by
  obtain ⟨hg, L, -, rfl⟩ := create_eq_ok h
  have hvalid := validateGenesis_eq_ok hg
  exact ⟨rfl, hvalid, genesisGovernance_wellFormed hvalid, rfl, rfl, rfl⟩

theorem appends_of_acceptBlock {c c' : Chain} {block : Block} {nowMs : Int}
    (h : c.acceptBlock block nowMs = .ok c') :
    c.governance.Appends block.header.height block.transactions c'.governance := by
  obtain ⟨⟨context, start, next, hreplays⟩, -, -, -, -, hgovernance⟩ := replays_of_acceptBlock h
  rw [hgovernance, ← hreplays.starts.height]
  exact appends_of_checked hreplays.checked

theorem Governed.acceptBlock {g : GenesisConfig} {blocks : List (Block × Int)} {c c' : Chain}
    {block : Block} {nowMs : Int} (hc : c.Governed g blocks)
    (h : c.acceptBlock block nowMs = .ok c') : c'.Governed g (blocks ++ [(block, nowMs)]) := by
  obtain ⟨⟨context, start, next, hreplays⟩, hgenesis, -, -, -, hgovernance⟩ :=
    replays_of_acceptBlock h
  have hcontext : context.genesis = g := hreplays.starts.genesis.trans hc.genesis
  refine ⟨hgenesis.trans hc.genesis, hc.valid, ?_, ?_⟩
  · rw [hgovernance, ← hcontext]
    exact Governance.WellFormed.recordAll (hcontext ▸ hc.wellFormed) hreplays.checked
  · rw [runTransactions_concat]
    exact hc.lists.append (appends_of_acceptBlock h)

theorem governed {g : GenesisConfig} {blocks : List (Block × Int)} {c₀ c : Chain}
    (hcreate : create g = .ok c₀) (h : c₀.acceptBlocks blocks = .ok c) : c.Governed g blocks :=
  acceptBlocks_induction (P := fun done c => c.Governed g done)
    (fun _ _ _ _ _ hc haccept => hc.acceptBlock haccept) (governed_create hcreate) h

/-- The schedules of every chain that a run reaches are those of the genesis with the entries of the
accepted transactions in their order, at increasing heights and well formed; and a block accepted at a
height leaves everything in force below that height plus the delay. -/
theorem schedules_stable {g : GenesisConfig} {blocks : List (Block × Int)} {c₀ c : Chain}
    (hcreate : create g = .ok c₀) (hrun : c₀.acceptBlocks blocks = .ok c) :
    c.governance.ListsRun g (runTransactions blocks) ∧
      (c.governance.validatorSchedule.entries.Pairwise (fun a b => a.1 < b.1) ∧
        c.governance.protocolSchedule.entries.Pairwise (fun a b => a.1 < b.1) ∧
        c.governance.activityOracleGovernance.entries.Pairwise fun a b => a.1 < b.1) ∧
      (∀ e ∈ c.governance.validatorSchedule.entries,
        g.minimumValidatorCount ≤ e.2.length ∧ e.2.length ≤ 100 ∧
          (e.2.map Validator.address).Nodup ∧ (e.2.map Validator.publicKey).Nodup ∧
          ∀ v ∈ e.2, addressFromPublicKey v.publicKey = v.address) ∧
      (c.governance.protocolSchedule.entries.Pairwise fun a b => 6 ≤ a.2 → a.2 ≤ b.2) ∧
      OracleScheduleFits g.activityOracles c.governance.activityOracleGovernance.entries ∧
      ∀ block nowMs c', c.acceptBlock block nowMs = .ok c' → ∀ k < block.header.height + 100,
        c'.validatorsAt k = c.validatorsAt k ∧ c'.protocolVersionAt k = c.protocolVersionAt k ∧
          c'.governance.activityOracleControlAt k = c.governance.activityOracleControlAt k := by
  have h := governed hcreate hrun
  refine ⟨h.lists, ⟨c.governance.validatorSchedule.sorted, c.governance.protocolSchedule.sorted,
    c.governance.activityOracleGovernance.sorted⟩, fun e he => ?_, h.wellFormed.no_downgrade,
    h.wellFormed.oracles, fun block nowMs c' haccept k hk => ?_⟩
  · obtain ⟨-, hmin, hmax, hset⟩ := h.wellFormed.validators e he
    exact ⟨hmin, hmax, hset.addresses_nodup, hset.keys_nodup, hset.address_eq⟩
  · obtain ⟨-, hgenesis, -⟩ := replays_of_acceptBlock haccept
    rw [validatorsAt, validatorsAt, hgenesis]
    exact (appends_of_acceptBlock haccept).stable hk c.genesis.validators

end Chain

end

/-! ### A chain with one validator -/

namespace OneValidator

/-- Every signature is accepted. -/
local instance oneCrypto : Crypto := .ofTable fun _ _ _ => true

def key : String := digits 128 'a'

def address : Address := String.ofList ("ZYN".toList ++ List.replicate 40 '7')

def validator : Validator := ⟨address, key⟩

def newValidator : Validator := ⟨address, digits 128 'd'⟩

def signature : String := digits 128 'e'

def founder : Address := String.ofList ("ZYN".toList ++ List.replicate 40 '1')

def liquidity : Address := String.ofList ("ZYN".toList ++ List.replicate 40 '2')

def distribution : Address := String.ofList ("ZYN".toList ++ List.replicate 40 '3')

def genesis : GenesisConfig :=
  { chainId := "one-validator"
    timestampMs := 0
    validators := [validator]
    activityOracles := [digits 128 'b']
    activityPool := String.ofList ("ZYN".toList ++ List.replicate 40 'e')
    allocations := [⟨founder, 500⟩, ⟨liquidity, 300⟩, ⟨distribution, 200⟩, ⟨address, 1000⟩]
    allocationLocks := some ⟨founder, liquidity⟩
    activityOracleThreshold := none
    activityOraclePolicy := none
    activitySettlementCapAtoms := none
    launchProfile := none
    networkClass := none
    publicDistributionRelease := some ⟨distribution, 0, minLinearMs⟩
    feePolicy := none
    validatorAdmission := some [⟨address, signature⟩] }

/-- The validator gives way to the new one at height 101. -/
def update : Transaction :=
  { body := .validatorUpdate 101 [newValidator] [⟨address, key, signature⟩] (some [⟨address, signature⟩])
    version := 1
    chainId := "one-validator"
    nonce := 1
    sender := address
    feeAtoms := 0
    timestampMs := 0
    publicKey := key
    signature := signature
    txid := digits 64 '7' }

def block : Block :=
  { header :=
      { version := 1
        chainId := "one-validator"
        height := 1
        round := 0
        previousHash := digits 64 '7'
        timestampMs := 1
        transactionRoot := digits 64 '7'
        stateRoot := digits 64 '7'
        proposer := address }
    transactions := [update]
    hash := digits 64 '7'
    proposerPublicKey := some key
    signature := some signature
    roundCertificate := []
    attestations := [⟨address, key, signature⟩]
    commitRound := none }

theorem isAddress_ofList {c : Char} (hc : isLowerHex c = true) : IsAddress (String.ofList ("ZYN".toList ++ List.replicate 40 c)) := by
  rw [IsAddress, String.toList_ofList]
  refine ⟨rfl, rfl, fun d hd => ?_⟩
  exact eq_of_mem_replicate (n := 40) hd ▸ hc

theorem isAddress_address : IsAddress address := isAddress_ofList rfl

theorem addressFromPublicKey_eq (k : String) : addressFromPublicKey k = address := by
  have hdigest : (Crypto.sha256 (hexBytes k.toList)).toList = List.replicate 64 '7' :=
    toList_digits 64 '7'
  have htake : List.take 40 (List.replicate 64 '7') = List.replicate 40 '7' := by decide
  exact congrArg (fun cs => String.ofList ("ZYN".toList ++ cs))
    ((congrArg (List.take 40) hdigest).trans htake)

private theorem sorted_accounts (nonce : Int) :
    [(founder, (⟨500, 0⟩ : AccountState)), (liquidity, ⟨300, 0⟩), (distribution, ⟨200, 0⟩),
      (address, ⟨1000, nonce⟩)].Pairwise fun a b => canonicalLt a.1 b.1 := by
  have hsorted : [founder, liquidity, distribution, address].Pairwise canonicalLt := by
    decide
  exact pairwise_map.mp hsorted

/-- The ledger with a nonce of the validator. -/
def ledgerAt (nonce : Int) : LedgerState where
  accounts := ⟨[(founder, ⟨500, 0⟩), (liquidity, ⟨300, 0⟩), (distribution, ⟨200, 0⟩),
    (address, ⟨1000, nonce⟩)], sorted_accounts nonce⟩
  settledActivityEpochs := .empty

def ledger : LedgerState := ledgerAt 0

def start : Chain where
  genesis := genesis
  genesisBlock := createGenesisBlock genesis ledger.root
  tip := createGenesisBlock genesis ledger.root
  height := 0
  governance := genesisGovernance genesis
  state := some ledger
  stateV2 := none
  stateV2SemanticKeys := none

theorem fromGenesis_genesis : LedgerState.fromGenesis genesis = .ok ledger := by rfl

theorem create_genesis : Chain.create genesis = .ok start := by
  have hvalid : validateGenesis genesis = .ok () := by decide +kernel
  rw [Chain.create, hvalid, ok_bind, fromGenesis_genesis, ok_bind]
  rfl

def context : BlockContext where
  genesis := genesis
  genesisHash := start.genesisHash
  protocolVersion := 1
  blockHeight := 1
  blockTimestampMs := 1
  currentValidators := [validator]
  oracles := start.governance.oracleSetAt genesis 1
  locks := some
    { locks := some ⟨founder, liquidity⟩
      founderAllocationAtoms := 500
      genesisTimestampMs := 0
      blockTimestampMs := 1
      publicDistribution := some ⟨distribution, 200, 0, minLinearMs⟩ }
  fee := none

def ledger' : LedgerState := ledgerAt 1

theorem check : checkTransaction context [] start.governance.scheduleCursors update = .ok () := by
  decide +kernel

theorem starts : start.StartsBlock 1 1 (some address) context ⟨some ledger, none⟩ where
  genesis := rfl
  genesisHash := rfl
  version := rfl
  height := rfl
  timestamp := rfl
  validators := rfl
  oracles := rfl
  locks := rfl
  fee := rfl
  claims := ⟨0, rfl⟩
  start := rfl

theorem replays : start.Replays block 1 context ⟨some ledger, none⟩ ⟨some ledger', none⟩ := by
  have hbytes : assertBlockBytes block = .ok () :=
    assertBlockBytes_of_sizeBound (by decide +kernel) (by decide +kernel)
  refine ⟨?_, rfl, ?_, hbytes, ⟨check, trivial⟩, by rfl, rfl⟩
  · rw [feeProducerOf, if_neg (by decide +kernel)]
    exact starts
  · rw [validateBlockEnvelope, validateBlockEnvelopeGates, validateBlockStructure, hbytes]
    decide +kernel

def next : Chain := { start with
  tip := block
  height := 1
  governance := start.governance.record update
  state := some ledger' }

theorem acceptBlock_block : start.acceptBlock block 1 = .ok next := by
  rw [Chain.acceptBlock, Chain.validateFinalizedTransition_eq_ok.mpr ⟨_, _, replays⟩]
  rfl

theorem acceptBlocks_block : start.acceptBlocks [(block, 1)] = .ok next := by
  rw [Chain.acceptBlocks, acceptBlock_block]
  rfl

/-- The block schedules the new validator for height 101, and leaves the validators below. -/
theorem schedules_stable_oneValidator :
    Chain.create genesis = .ok start ∧ start.acceptBlock block 1 = .ok next ∧
      next.validatorsAt 100 = start.validatorsAt 100 ∧
      next.governance.validatorSchedule.entries = [(0, [validator]), (101, [newValidator])] :=
  ⟨create_genesis, acceptBlock_block,
    ((Chain.schedules_stable create_genesis (show start.acceptBlocks [] = .ok start from rfl)).2.2.2.2.2 block 1 next
      acceptBlock_block 100 (by decide)).1,
    (Chain.schedules_stable create_genesis acceptBlocks_block).1.validators⟩

end OneValidator

end ZyronChain
