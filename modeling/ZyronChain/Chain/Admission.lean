import ZyronChain.Chain.Governance

/-!
# Validator admission

Under `validatorAdmission` every key of a scheduled validator set has proven its possession, either in
the genesis or in an update accepted no later than the one that scheduled the set.

## Main results

* `admitted_append` : a block keeps it.
* `Chain.validator_admission` : it holds along every run.
-/

namespace ZyronChain

open Checks List

/-! ### The keys that compare validators -/

theorem eq_of_admissionKey {v w : Validator} (hv : IsAddress v.address) (hw : IsAddress w.address)
    (h : v.admissionKey = w.admissionKey) : v = w := by
  have hlist := congrArg String.toList h
  rw [Validator.admissionKey, Validator.admissionKey, String.toList_append, String.toList_append,
    String.toList_append, String.toList_append, append_assoc, append_assoc] at hlist
  have hlength : v.address.toList.length = w.address.toList.length := by
    rw [length_toList_of_isAddress hv, length_toList_of_isAddress hw]
  obtain ⟨haddress, hrest⟩ := append_inj hlist hlength
  have hkey := (append_inj hrest rfl).2
  cases v
  cases w
  rw [Validator.mk.injEq]
  exact ⟨String.toList_inj.mp haddress, String.toList_inj.mp hkey⟩

section

variable [Crypto]

/-! ### Proofs -/

/-- The genesis carries a possession proof of the validator. -/
def ProvenByGenesis (g : GenesisConfig) (v : Validator) : Prop :=
  ∃ proofs, g.validatorAdmission = some proofs ∧ ∃ proof ∈ proofs, proof.address = v.address ∧
    verifyPossessionProof g.chainId (genesisConfigCommitment g) 0 v proof.signature = true

/-- The transaction is an update that carries a possession proof of the validator. -/
def ProvenByUpdate (g : GenesisConfig) (genesisHash : String) (tx : Transaction) (v : Validator) :
    Prop :=
  ∃ activationHeight validators approvals proofs,
    tx.body = .validatorUpdate activationHeight validators approvals (some proofs) ∧
      v ∈ validators ∧ ∃ proof ∈ proofs, proof.address = v.address ∧
        verifyPossessionProof g.chainId genesisHash activationHeight v proof.signature = true

/-- The genesis or one of the transactions proves the validator. -/
def Proven (g : GenesisConfig) (genesisHash : String) (transactions : List Transaction)
    (v : Validator) : Prop :=
  ProvenByGenesis g v ∨ ∃ tx ∈ transactions, ProvenByUpdate g genesisHash tx v

variable {g : GenesisConfig} {genesisHash : String} {v : Validator}
  {transactions : List Transaction}

theorem Proven.mono {txs txs' : List Transaction} (h : Proven g genesisHash txs v)
    (hsub : txs ⊆ txs') : Proven g genesisHash txs' v :=
  h.imp id fun ⟨tx, htx, hproof⟩ => ⟨tx, hsub htx, hproof⟩

variable {proofs : List ValidatorPossessionProof} {validators : List Validator}

/-- Each validator of a list that passed the loop has its proof. -/
theorem exists_proof_of_validate {chainId chainBinding order label : String}
    {activationHeight : Int} (hlength : proofs.length = validators.length)
    (h : validatePossessionProofs chainId chainBinding activationHeight order label (proofs.zip
      validators) = .ok ()) (hv : v ∈ validators) :
    ∃ proof ∈ proofs, proof.address = v.address ∧
      verifyPossessionProof chainId chainBinding activationHeight v proof.signature = true := by
  obtain ⟨i, hi, rfl⟩ := mem_iff_getElem.mp hv
  have hi' : i < proofs.length := hlength ▸ hi
  have hmem : (proofs[i], validators[i]) ∈ proofs.zip validators := by
    rw [mem_iff_getElem]
    exact ⟨i, by rw [length_zip]; omega, getElem_zip⟩
  have hcheck := forEach_eq_ok.mp h _ hmem
  rw [throwIf_bind_eq_ok, throwIf_eq_ok, not_not, not_not] at hcheck
  exact ⟨proofs[i], getElem_mem hi', hcheck⟩

theorem provenByGenesis_of_validate (hadmission : g.validatorAdmission = some proofs)
    (h : validateGenesis g = .ok ()) (hv : v ∈ g.validators) : ProvenByGenesis g v := by
  rw [validateGenesis] at h
  simp only [unit_bind_eq_ok] at h
  obtain ⟨-, -, -, -, -, -, -, -, -, -, -, -, -, -, -, -, -, -, -, -, h⟩ := h
  rw [assertGenesisPossessionProofs, hadmission] at h
  rw [throwIf_bind_eq_ok, not_not] at h
  exact ⟨proofs, hadmission, exists_proof_of_validate h.1 h.2 hv⟩

/-! ### Updates -/

/-- Under admission an accepted update carries one proof per incoming validator. -/
theorem assertValidatorUpdatePossessionProofs_eq_ok {activationHeight : Int}
    {possessionProofs : Option (List ValidatorPossessionProof)}
    {context : ValidatorUpdateAdmissionContext} (hoptedIn : context.optedIn = true)
    (h : assertValidatorUpdatePossessionProofs activationHeight validators possessionProofs context
      = .ok ()) : ∃ proofs, possessionProofs = some proofs ∧
        ∀ v ∈ incomingValidators validators context.replacedValidators, ∃ proof ∈ proofs,
          proof.address = v.address ∧ verifyPossessionProof context.chainId context.genesisHash
            activationHeight v proof.signature = true := by
  unfold assertValidatorUpdatePossessionProofs at h
  rw [hoptedIn, if_neg (by decide)] at h
  cases possessionProofs with
  | none => cases h
  | some proofs =>
    rw [throwIf_bind_eq_ok, not_not] at h
    exact ⟨proofs, rfl, fun v hv => exists_proof_of_validate h.1 h.2 hv⟩

/-- Every validator of an accepted update is proven by it, or was in the set that it replaces. -/
theorem provenByUpdate_or_mem {currentValidators : List Validator} {blockHeight : Int}
    {cursors : ScheduleCursors} {tx : Transaction} (hoptedIn : g.validatorAdmission.isSome = true)
    (htx : tx.WellFormed) (hreplaced : ∀ w ∈ cursors.lastScheduledValidators, IsAddress w.address)
    (h : authorizeGovernance g genesisHash currentValidators blockHeight cursors tx = .ok ())
    {e : Int × List Validator} (he : tx.validatorEntry? = some e) (hv : v ∈ e.2) :
    ProvenByUpdate g genesisHash tx v ∨ v ∈ cursors.lastScheduledValidators := by
  have hbody := htx.body
  rw [Transaction.BodyWellFormed] at hbody
  rw [authorizeGovernance] at h
  rw [Transaction.validatorEntry?] at he
  split at he
  · next activationHeight validators approvals possessionProofs heq =>
    cases he
    simp only [heq] at h hbody
    rw [validateValidatorUpdateAuthorization, unit_bind_eq_ok] at h
    have hset := validateValidators_eq_ok.mp hbody.2.2
    obtain ⟨proofs, hproofs, hincoming⟩ := assertValidatorUpdatePossessionProofs_eq_ok hoptedIn h.2
    by_cases hcontinuing :
        v.admissionKey ∈ cursors.lastScheduledValidators.map Validator.admissionKey
    · obtain ⟨w, hw, hkey⟩ := mem_map.mp hcontinuing
      exact .inr (eq_of_admissionKey (hreplaced w hw) (hset.address v hv) hkey ▸ hw)
    · refine .inl ⟨activationHeight, validators, approvals, proofs, hproofs ▸ heq, hv, ?_⟩
      exact hincoming v (mem_filter.mpr ⟨hv, decide_eq_true hcontinuing⟩)
  · cases he

/-- Every key of every set that the transactions schedule is proven no later than the set. -/
def Admitted (g : GenesisConfig) (genesisHash : String) (transactions : List Transaction) : Prop :=
  ∀ before tx after, transactions = before ++ tx :: after → ∀ e, tx.validatorEntry? = some e →
    ∀ v ∈ e.2, Proven g genesisHash (before ++ [tx]) v

theorem Admitted.proven {G : Governance} (h : Admitted g genesisHash transactions)
    (hG : G.ListsRun g transactions) (hgenesis : ∀ v ∈ g.validators, ProvenByGenesis g v)
    {e : Int × List Validator} (he : e ∈ G.validatorSchedule.entries) (hv : v ∈ e.2) :
    Proven g genesisHash transactions v := by
  rw [hG.validators] at he
  rcases mem_cons.mp he with rfl | he
  · exact .inl (hgenesis v hv)
  · obtain ⟨tx, htx, hentry⟩ := mem_filterMap.mp he
    obtain ⟨before, after, rfl⟩ := append_of_mem htx
    refine (h before tx after rfl e hentry v hv).mono fun x hx => ?_
    rcases mem_append.mp hx with hx | hx
    · exact mem_append_left _ hx
    · rw [mem_singleton.mp hx]
      exact mem_append_right _ mem_cons_self

theorem Admitted.concat (h : Admitted g genesisHash transactions) {tx : Transaction}
    (htx : ∀ e, tx.validatorEntry? = some e → ∀ v ∈ e.2, Proven g genesisHash (transactions ++ [tx])
      v) : Admitted g genesisHash (transactions ++ [tx]) := by
  intro before x after heq e he v hv
  rcases eq_nil_or_concat after with rfl | ⟨init, last, rfl⟩
  · obtain ⟨rfl, hlast⟩ := append_inj' heq rfl
    rw [List.cons.injEq] at hlast
    rw [← hlast.1] at he ⊢
    exact htx e he v hv
  · rw [concat_eq_append, ← cons_append, ← append_assoc] at heq
    exact h before x init (append_inj' heq rfl).1 e he v hv

/-- The transactions of a block keep the admission rule. -/
theorem admitted_append {context : BlockContext} {seen : List String} {G : Governance}
    {done : List Transaction} (hG : G.WellFormed context.genesis)
    (hlists : G.ListsRun context.genesis done)
    (hgenesis : ∀ v ∈ context.genesis.validators, ProvenByGenesis context.genesis v)
    (hoptedIn : context.genesis.validatorAdmission.isSome = true)
    (h : Admitted context.genesis context.genesisHash done)
    (hc : Checked context seen G transactions) :
    Admitted context.genesis context.genesisHash (done ++ transactions) := by
  induction transactions generalizing seen G done with
  | nil => rwa [append_nil]
  | cons tx transactions ih =>
    have hs := scheduled_of_check hc.1
    have happends : G.Appends context.blockHeight [tx] (G.record tx) :=
      appends_of_checked ⟨hc.1, (trivial : Checked context (tx.txid :: seen) (G.record tx) [])⟩
    have hauthorized := hc.1
    rw [checkTransaction] at hauthorized
    simp only [unit_bind_eq_ok] at hauthorized
    rw [← singleton_append, ← append_assoc]
    refine ih (hG.record hs) (hlists.append happends) (h.concat fun e he v hv => ?_) hc.2
    -- the replaced set is the latest scheduled one
    have hlast : ∀ w ∈ G.lastScheduledValidators, ∃ entry ∈ G.validatorSchedule.entries,
        w ∈ entry.2 := by
      intro w hw
      rw [Governance.lastScheduledValidators] at hw
      cases hentry : G.validatorSchedule.last? with
      | none =>
        rw [hentry] at hw
        cases hw
      | some entry =>
        rw [hentry] at hw
        exact ⟨entry, mem_of_getLast? hentry, hw⟩
    have haddress : ∀ w ∈ G.lastScheduledValidators, IsAddress w.address := by
      intro w hw
      obtain ⟨entry, hentry, hmem⟩ := hlast w hw
      exact (hG.validators entry hentry).2.2.2.address w hmem
    rcases provenByUpdate_or_mem hoptedIn (wellFormed_of_check hc.1) haddress
      hauthorized.2.2.2.2.2 he hv with hproof | hmem
    · exact .inr ⟨tx, mem_append_right _ (mem_singleton_self tx), hproof⟩
    · obtain ⟨entry, hentry, hmem⟩ := hlast v hmem
      exact (h.proven hlists hgenesis hentry hmem).mono (subset_append_left _ _)

namespace Chain

/-- Along every run of a chain with `validatorAdmission`, every key of the validator sets in the
schedule has a possession proof that verifies, in the genesis or in an update accepted no later than
the one that scheduled the set. -/
theorem validator_admission {g : GenesisConfig} {proofs : List ValidatorPossessionProof}
    {blocks : List (Block × Int)} {c₀ c : Chain} (hadmission : g.validatorAdmission = some proofs)
    (hcreate : create g = .ok c₀) (hrun : c₀.acceptBlocks blocks = .ok c) :
    c.governance.validatorSchedule.entries =
        (0, g.validators) :: (runTransactions blocks).filterMap Transaction.validatorEntry? ∧
      (∀ v ∈ g.validators, ProvenByGenesis g v) ∧
      ∀ before tx after, runTransactions blocks = before ++ tx :: after →
        ∀ e, tx.validatorEntry? = some e → ∀ v ∈ e.2,
          ProvenByGenesis g v ∨ ∃ tx' ∈ before ++ [tx], ProvenByUpdate g c.genesisHash tx' v := by
  have hgenesis : ∀ v ∈ g.validators, ProvenByGenesis g v := fun v hv =>
    provenByGenesis_of_validate hadmission (create_eq_ok hcreate).1 hv
  have hinvariant : c.Governed g blocks ∧ Admitted g c.genesisHash (runTransactions blocks) := by
    refine acceptBlocks_induction
      (P := fun done c => c.Governed g done ∧ Admitted g c.genesisHash (runTransactions done))
      (fun done c block nowMs c' hc haccept => ?_)
      ⟨governed_create hcreate, fun before tx after heq => absurd heq (by simp [runTransactions])⟩ hrun
    obtain ⟨⟨context, start, next, hreplays⟩, -, hblock, -⟩ := replays_of_acceptBlock haccept
    have hcontext : context.genesis = g := hreplays.starts.genesis.trans hc.1.genesis
    have hhash : c'.genesisHash = context.genesisHash := by
      rw [hreplays.starts.genesisHash, genesisHash, genesisHash, hblock]
    refine ⟨hc.1.acceptBlock haccept, ?_⟩
    have hadmitted := hc.2
    rw [← hreplays.starts.genesisHash] at hadmitted
    rw [runTransactions_concat, hhash]
    subst hcontext
    exact admitted_append hc.1.wellFormed hc.1.lists hgenesis (by rw [hadmission]; rfl) hadmitted
      hreplays.checked
  exact ⟨hinvariant.1.lists.validators, hgenesis, hinvariant.2⟩

end Chain

end

attribute [local instance] OneValidator.oneCrypto

/-- The key that the block of `OneValidator` schedules has its proof. -/
theorem validator_admission_oneValidator :
    OneValidator.start.acceptBlocks [(OneValidator.block, 1)] = .ok OneValidator.next ∧
      (ProvenByGenesis OneValidator.genesis OneValidator.newValidator ∨
        ∃ tx ∈ [OneValidator.update], ProvenByUpdate OneValidator.genesis
          OneValidator.next.genesisHash tx OneValidator.newValidator) :=
  ⟨OneValidator.acceptBlocks_block,
    (Chain.validator_admission rfl OneValidator.create_genesis OneValidator.acceptBlocks_block).2.2 []
      OneValidator.update [] rfl _ rfl _ (mem_singleton_self _)⟩

end ZyronChain
