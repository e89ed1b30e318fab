import ZyronChain.CanonicalForm
import ZyronChain.Transaction

/-!
# Transactions are determined by their text

The canonical text of a transaction determines the transaction, and the text of its signed payload its
sender and its nonce.

Source: `l1/src/transaction.ts`, `l1/src/codec.ts`.
-/

namespace ZyronChain

open List

/-! ### Values that their text determines -/

structure Determined (v : Json) : Prop where
  inOrder : InOrder v
  plain : v.Plain

theorem Determined.eq {v w : Json} (hv : Determined v) (hw : Determined w)
    (h : canonicalText v = canonicalText w) : v = w :=
  canonicalText_injective hv.inOrder hw.inOrder hv.plain hw.plain h

theorem determined_num (n : Int) : Determined (.num n) := ⟨trivial, trivial⟩

theorem determined_str (s : String) : Determined (.str s) := ⟨trivial, trivial⟩

theorem determined_obj {ms : List (String × Json)} (hkeys : KeysInOrder (ms.map Prod.fst))
    (hnodup : (ms.map Prod.fst).Nodup) (h : ∀ m ∈ ms, Determined m.2) : Determined (.obj ms) := by
  have hinOrder : InOrderMembers ms := by
    clear hkeys hnodup
    induction ms with
    | nil => trivial
    | cons m ms ih =>
      rw [forall_mem_cons] at h
      exact ⟨h.1.inOrder, ih h.2⟩
  exact ⟨⟨hkeys, hinOrder⟩, hnodup, (plainMembers_iff ms).mpr fun m hm => (h m hm).plain⟩

theorem determined_arr_map {α : Type} {f : α → Json} (h : ∀ x, Determined (f x)) (xs : List α) :
    Determined (.arr (xs.map f)) := by
  constructor
  · refine (inOrderItems_iff _).mpr fun v hv => ?_
    obtain ⟨x, -, rfl⟩ := mem_map.mp hv
    exact (h x).inOrder
  · change Json.PlainItems (xs.map f)
    induction xs with
    | nil => trivial
    | cons x xs ih => exact ⟨(h x).plain, ih⟩

theorem determined_record {ms : List (String × Json)}
    (hkeys : KeysInOrder (ms.map Prod.fst) ∧ (ms.map Prod.fst).Nodup)
    (h : ∀ m ∈ ms, (∃ n, m.2 = .num n) ∨ ∃ s, m.2 = .str s) : Determined (.obj ms) := by
  refine determined_obj hkeys.1 hkeys.2 fun m hm => ?_
  rcases h m hm with ⟨n, hn⟩ | ⟨s, hs⟩
  · rw [hn]
    exact determined_num n
  · rw [hs]
    exact determined_str s

theorem Vote.determined (v : Vote) : Determined v.toJson :=
  determined_record (by
    change KeysInOrder ["publicKey", "signature", "validator"] ∧
      ["publicKey", "signature", "validator"].Nodup
    decide) (by simp)

theorem Validator.determined (v : Validator) : Determined v.toJson :=
  determined_record (by
    change KeysInOrder ["address", "publicKey"] ∧ ["address", "publicKey"].Nodup
    decide) (by simp)

theorem ValidatorPossessionProof.determined (p : ValidatorPossessionProof) : Determined p.toJson :=
  determined_record (by
    change KeysInOrder ["address", "signature"] ∧ ["address", "signature"].Nodup
    decide) (by simp)

theorem ActivityEntry.determined (e : ActivityEntry) : Determined e.toJson :=
  determined_record (by
    change KeysInOrder ["amountAtoms", "receiver"] ∧ ["amountAtoms", "receiver"].Nodup
    decide) (by simp)

theorem ActivityOracleApproval.determined (a : ActivityOracleApproval) : Determined a.toJson :=
  determined_record (by
    change KeysInOrder ["publicKey", "signature"] ∧ ["publicKey", "signature"].Nodup
    decide) (by simp)

/-! ### Transactions -/

/-- The names of the members of a transaction, those that may be absent included. -/
def TransactionBody.names : TransactionBody → List String
  | .transfer .. =>
    ["amountAtoms", "chainId", "feeAtoms", "kind", "nonce", "publicKey", "receiver", "sender",
      "signature", "timestampMs", "txid", "version"]
  | .activitySettlement .. =>
    ["attestationExpiresAtMs", "chainId", "entries", "epoch", "feeAtoms", "kind", "nonce",
      "oracleApprovals", "publicKey", "receiptRoot", "sender", "signature", "timestampMs", "txid",
      "version"]
  | .miningClaim .. =>
    ["chainId", "feeAtoms", "height", "kind", "nonce", "previousHash", "publicKey", "rewardAtoms",
      "sender", "signature", "timestampMs", "txid", "version", "workNonce"]
  | .validatorUpdate .. =>
    ["activationHeight", "approvals", "chainId", "feeAtoms", "kind", "nonce", "possessionProofs",
      "publicKey", "sender", "signature", "timestampMs", "txid", "validators", "version"]
  | .activityOracleGovernance .. =>
    ["action", "activationHeight", "approvals", "chainId", "feeAtoms", "kind", "nonce",
      "publicKey", "publicKeys", "sender", "signature", "timestampMs", "txid", "version"]
  | .protocolUpgrade .. =>
    ["activationHeight", "approvals", "chainId", "feeAtoms", "kind", "nonce", "protocolVersion",
      "publicKey", "sender", "signature", "timestampMs", "txid", "version"]

namespace Transaction

private theorem names_ordered (body : TransactionBody) :
    KeysInOrder body.names ∧ body.names.Nodup := by
  have hall : ∀ names ∈ [(TransactionBody.transfer "" 0).names,
      (TransactionBody.activitySettlement 0 [] "" none none).names,
      (TransactionBody.miningClaim 0 "" 0 "").names,
      (TransactionBody.validatorUpdate 0 [] [] none).names,
      (TransactionBody.activityOracleGovernance 0 .pause [] []).names,
      (TransactionBody.protocolUpgrade 0 0 []).names], KeysInOrder names ∧ names.Nodup := by
    decide
  cases body <;> exact hall _ (by simp [TransactionBody.names])

private theorem members_sublist (tx : Transaction) :
    (tx.members.map Prod.fst).Sublist tx.body.names := by
  rw [members]
  cases tx.body with
  | transfer | miningClaim | activityOracleGovernance | protocolUpgrade => exact .refl _
  | activitySettlement _ _ _ approvals expires =>
    cases approvals <;> cases expires <;> simp [optionalMember, TransactionBody.names]
  | validatorUpdate _ _ _ proofs => cases proofs <;> simp [optionalMember, TransactionBody.names]

theorem nodup_members (tx : Transaction) : (tx.members.map Prod.fst).Nodup :=
  (names_ordered tx.body).2.sublist tx.members_sublist

variable {tx tx' : Transaction}

private theorem keysInOrder_of_sublist {names : List String}
    (h : names.Sublist (tx.members.map Prod.fst)) : KeysInOrder names := by
  obtain ⟨⟨hsorted, hindex⟩, -⟩ := names_ordered tx.body
  have hsub := h.trans tx.members_sublist
  exact ⟨hsorted.sublist hsub, fun k hk => hindex k (hsub.subset hk)⟩

private theorem determined_member (tx : Transaction) : ∀ m ∈ tx.members, Determined m.2 := by
  have hstrs : ∀ keys : List String, Determined (.arr (keys.map .str)) :=
    determined_arr_map determined_str
  rw [members]
  cases tx.body with
  | transfer | miningClaim => simp [determined_num, determined_str]
  | activitySettlement _ _ _ approvals expires =>
    cases approvals <;> cases expires <;>
      simp [optionalMember, determined_num, determined_str,
        determined_arr_map ActivityEntry.determined,
        determined_arr_map ActivityOracleApproval.determined]
  | validatorUpdate _ _ _ proofs =>
    cases proofs <;>
      simp [optionalMember, determined_num, determined_str, determined_arr_map Vote.determined,
        determined_arr_map Validator.determined,
        determined_arr_map ValidatorPossessionProof.determined]
  | activityOracleGovernance =>
    simp [determined_num, determined_str, determined_arr_map Vote.determined, hstrs]
  | protocolUpgrade => simp [determined_num, determined_str, determined_arr_map Vote.determined]

theorem determined_toJson (tx : Transaction) : Determined tx.toJson :=
  determined_obj (keysInOrder_of_sublist (.refl _)) tx.nodup_members tx.determined_member

theorem determined_signedPayload (tx : Transaction) : Determined tx.signedPayload := by
  have hsub : (tx.members.filter fun m => m.1 ≠ "txid").Sublist tx.members := filter_sublist
  exact determined_obj (keysInOrder_of_sublist (hsub.map _)) (tx.nodup_members.sublist (hsub.map _))
    fun m hm => tx.determined_member m (hsub.subset hm)

private theorem value_eq {name : String} {v w : Json} (hv : (name, v) ∈ tx.members)
    (hw : (name, w) ∈ tx.members) : v = w := by
  have heq := inj_on_of_nodup_map tx.nodup_members hv hw rfl
  exact (Prod.mk.inj heq).2

private theorem common_members (tx : Transaction) :
    ("kind", .str tx.body.kind) ∈ tx.members ∧ ("chainId", .str tx.chainId) ∈ tx.members ∧
      ("feeAtoms", .num tx.feeAtoms) ∈ tx.members ∧ ("nonce", .num tx.nonce) ∈ tx.members ∧
      ("publicKey", .str tx.publicKey) ∈ tx.members ∧ ("sender", .str tx.sender) ∈ tx.members ∧
      ("signature", .str tx.signature) ∈ tx.members ∧
      ("timestampMs", .num tx.timestampMs) ∈ tx.members ∧ ("txid", .str tx.txid) ∈ tx.members ∧
      ("version", .num tx.version) ∈ tx.members := by
  rw [members]
  cases tx.body <;> simp

/-- The signed payload determines the sender and the nonce. -/
theorem sender_nonce_of_signedPayload (h : tx.signedPayload = tx'.signedPayload) :
    tx.sender = tx'.sender ∧ tx.nonce = tx'.nonce := by
  have hmembers := Json.obj.inj h
  have hmem : ∀ {name v}, name ≠ "txid" → (name, v) ∈ tx.members → (name, v) ∈ tx'.members := by
    intro name v hname hv
    have hv' : (name, v) ∈ tx.members.filter fun m => m.1 ≠ "txid" :=
      mem_filter.mpr ⟨hv, by simpa using hname⟩
    rw [hmembers] at hv'
    exact (mem_filter.mp hv').1
  obtain ⟨-, -, -, hnonce, -, hsender, -⟩ := tx.common_members
  obtain ⟨-, -, -, hnonce', -, hsender', -⟩ := tx'.common_members
  exact ⟨Json.str.inj (value_eq (hmem (by decide) hsender) hsender'),
    Json.num.inj (value_eq (hmem (by decide) hnonce) hnonce')⟩

private theorem vote_injective : Function.Injective Vote.toJson := by
  rintro ⟨v, k, s⟩ ⟨v', k', s'⟩ h
  simp only [Vote.toJson, Json.obj.injEq, List.cons.injEq, Prod.mk.injEq, Json.str.injEq, true_and,
    and_true] at h
  obtain ⟨rfl, rfl, rfl⟩ := h
  rfl

private theorem validator_injective : Function.Injective Validator.toJson := by
  rintro ⟨a, k⟩ ⟨a', k'⟩ h
  simp only [Validator.toJson, Json.obj.injEq, List.cons.injEq, Prod.mk.injEq, Json.str.injEq,
    true_and, and_true] at h
  obtain ⟨rfl, rfl⟩ := h
  rfl

private theorem proof_injective : Function.Injective ValidatorPossessionProof.toJson := by
  rintro ⟨a, s⟩ ⟨a', s'⟩ h
  simp only [ValidatorPossessionProof.toJson, Json.obj.injEq, List.cons.injEq, Prod.mk.injEq,
    Json.str.injEq, true_and, and_true] at h
  obtain ⟨rfl, rfl⟩ := h
  rfl

private theorem entry_injective : Function.Injective ActivityEntry.toJson := by
  rintro ⟨r, a⟩ ⟨r', a'⟩ h
  simp only [ActivityEntry.toJson, Json.obj.injEq, List.cons.injEq, Prod.mk.injEq, Json.num.injEq,
    Json.str.injEq, true_and, and_true] at h
  obtain ⟨rfl, rfl⟩ := h
  rfl

private theorem approval_injective : Function.Injective ActivityOracleApproval.toJson := by
  rintro ⟨k, s⟩ ⟨k', s'⟩ h
  simp only [ActivityOracleApproval.toJson, Json.obj.injEq, List.cons.injEq, Prod.mk.injEq,
    Json.str.injEq, true_and, and_true] at h
  obtain ⟨rfl, rfl⟩ := h
  rfl

private theorem action_injective : Function.Injective ActivityOracleGovernanceAction.name := by
  intro a b h
  cases a <;> cases b <;> first | rfl | exact absurd h (by decide)

private theorem body_eq (h : tx.members = tx'.members) : tx.body = tx'.body := by
  have hkind : tx.body.kind = tx'.body.kind :=
    Json.str.inj (value_eq (h ▸ tx.common_members.1) tx'.common_members.1)
  rw [members, members] at h
  generalize tx.body = body at *
  generalize tx'.body = body' at *
  cases body <;> cases body'
  case transfer.transfer => simp_all
  case activitySettlement.activitySettlement _ _ _ approvals expires _ _ _ approvals' expires' =>
    cases approvals <;> cases approvals' <;> cases expires <;> cases expires' <;>
      simp_all [optionalMember, entry_injective.list_map.eq_iff, approval_injective.list_map.eq_iff]
  case miningClaim.miningClaim => simp_all
  case validatorUpdate.validatorUpdate _ _ _ proofs _ _ _ proofs' =>
    cases proofs <;> cases proofs' <;>
      simp_all [optionalMember, vote_injective.list_map.eq_iff, validator_injective.list_map.eq_iff,
        proof_injective.list_map.eq_iff]
  case activityOracleGovernance.activityOracleGovernance =>
    have hstr : Function.Injective Json.str := fun _ _ => Json.str.inj
    simp_all [vote_injective.list_map.eq_iff, hstr.list_map.eq_iff, action_injective.eq_iff]
  case protocolUpgrade.protocolUpgrade => simp_all [vote_injective.list_map.eq_iff]
  all_goals exact absurd hkind (by simp [TransactionBody.kind])

theorem toJson_injective (h : tx.toJson = tx'.toJson) : tx = tx' := by
  have hmembers : tx.members = tx'.members := Json.obj.inj h
  have hbody := body_eq hmembers
  obtain ⟨-, hchain, hfee, hnonce, hkey, hsender, hsignature, htime, htxid, hversion⟩ :=
    hmembers ▸ tx.common_members
  obtain ⟨-, hchain', hfee', hnonce', hkey', hsender', hsignature', htime', htxid', hversion'⟩ :=
    tx'.common_members
  have hchain := Json.str.inj (value_eq hchain hchain')
  have hfee := Json.num.inj (value_eq hfee hfee')
  have hnonce := Json.num.inj (value_eq hnonce hnonce')
  have hkey := Json.str.inj (value_eq hkey hkey')
  have hsender := Json.str.inj (value_eq hsender hsender')
  have hsignature := Json.str.inj (value_eq hsignature hsignature')
  have htime := Json.num.inj (value_eq htime htime')
  have htxid := Json.str.inj (value_eq htxid htxid')
  have hversion := Json.num.inj (value_eq hversion hversion')
  cases tx
  cases tx'
  exact Transaction.mk.injEq .. ▸ ⟨hbody, hversion, hchain, hnonce, hsender, hfee, htime, hkey,
    hsignature, htxid⟩

/-- A transaction is determined by its text. -/
theorem eq_of_canonicalText (h : canonicalText tx.toJson = canonicalText tx'.toJson) : tx = tx' :=
  toJson_injective (tx.determined_toJson.eq tx'.determined_toJson h)

end Transaction

end ZyronChain
