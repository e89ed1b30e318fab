import ZyronChain.BlockSize
import ZyronChain.Chain.Governance
import ZyronChain.Lib.MerkleList
import ZyronChain.StateV2.Hash
import ZyronChain.TransactionText

/-!
# The bodies of blocks

The hash of a block covers its header, and the header the Merkle root of the transactions.  The root
repeats the last hash of an odd level, so it determines the transactions only among lists without
repetition; the replay of a block excludes repetitions by the transaction IDs.

Source: `l1/src/merkle.ts`, `l1/src/block.ts`, `l1/src/chain.ts` (`validateAndApply`).

## Main results

* `transactions_eq_of_merkleRoot` : lists without repetition are determined by their root.
* `Chain.body_determined` : a fully validated block is determined by its hash.
-/

namespace ZyronChain

open Checks Merkle List

/-! ### Sizes -/

private theorem sizeMembers_append (ms ns : List (String × Json)) :
    Json.sizeMembers (ms ++ ns) = Json.sizeMembers ms + Json.sizeMembers ns := by
  induction ms with
  | nil => rw [nil_append, Json.sizeMembers, Nat.zero_add]
  | cons m ms ih => rw [cons_append, Json.sizeMembers, Json.sizeMembers, ih]; omega

/-- The text of a transaction is longer than two hashes. -/
theorem lt_size_toJson (tx : Transaction) : 64 < tx.toJson.size := by
  have hnames : Json.namesSize ["chainId", "feeAtoms", "nonce", "publicKey", "sender", "signature",
    "timestampMs", "txid", "version"] = 84 := by decide
  simp only [Json.namesSize] at hnames
  rw [Transaction.toJson, Json.size_obj]
  rw [Transaction.members]
  cases tx.body <;> simp only [sizeMembers_append, Json.sizeMembers] <;> omega

theorem BlockHeader.determined (header : BlockHeader) : Determined header.toJson :=
  determined_record (by
    change KeysInOrder ["chainId", "height", "previousHash", "proposer", "round", "stateRoot",
        "timestampMs", "transactionRoot", "version"] ∧
      ["chainId", "height", "previousHash", "proposer", "round", "stateRoot", "timestampMs",
        "transactionRoot", "version"].Nodup
    decide) (by simp)

theorem BlockHeader.eq_of_canonicalText {header header' : BlockHeader}
    (h : canonicalText header.toJson = canonicalText header'.toJson) : header = header' := by
  have heq := header.determined.eq header'.determined h
  simp only [BlockHeader.toJson, Json.obj.injEq, List.cons.injEq, Prod.mk.injEq, Json.str.injEq,
    Json.num.injEq, true_and, and_true] at heq
  obtain ⟨h1, h2, h3, h4, h5, h6, h7, h8, h9⟩ := heq
  cases header
  cases header'
  simp_all

/-! ### Repetitions -/

section

variable [Crypto]

variable {context : BlockContext} {transactions : List Transaction} {block : Block}

theorem Chain.nodup_of_validateAndApply {c : Chain} {blockHeight blockTimestampMs : Int}
    {producer : Option Address} {next : AppliedTransition}
    (h : c.validateAndApply transactions blockHeight blockTimestampMs producer = .ok next) :
    transactions.Nodup := by
  obtain ⟨context, start, -, hchecked, -⟩ := Chain.validateAndApply_eq_ok.mp h
  exact List.Nodup.of_map _ hchecked.nodup_txids.1

/-! ### The tree over the transactions -/

/-- The bytes hashed for a transaction, or for two neighbours of a level. -/
def bodyEncoding : Preimage Transaction Digest → List UInt8
  | .leaf tx => utf8 (canonicalText tx.toJson)
  | .branch left right => hexBytes (left.val.toList ++ right.val.toList)

omit [Crypto] in
private theorem pair_isHash (left right : Digest) :
    (left.val.toList ++ right.val.toList).length = 2 * 64 ∧
      ∀ c ∈ left.val.toList ++ right.val.toList, isLowerHex c = true := by
  refine ⟨?_, fun c hc => ?_⟩
  · rw [length_append, left.property.1, right.property.1]
  · rcases mem_append.mp hc with hc | hc
    · exact left.property.2 c hc
    · exact right.property.2 c hc

omit [Crypto] in
theorem length_bodyEncoding_branch (left right : Digest) :
    (bodyEncoding (.branch left right)).length = 64 :=
  length_hexBytes (pair_isHash left right).1 (pair_isHash left right).2

omit [Crypto] in
theorem lt_length_bodyEncoding_leaf (tx : Transaction) : 64 < (bodyEncoding (.leaf tx)).length := by
  rw [bodyEncoding, length_utf8, byteLength_canonicalText]
  exact lt_size_toJson tx

omit [Crypto] in
theorem bodyEncoding_injective : Function.Injective bodyEncoding := by
  intro x y h
  match x, y with
  | .leaf tx, .leaf tx' => rw [Transaction.eq_of_canonicalText (utf8_injective h)]
  | .leaf tx, .branch left right =>
    have hlen := lt_length_bodyEncoding_leaf tx
    rw [h, length_bodyEncoding_branch] at hlen
    exact absurd hlen (lt_irrefl 64)
  | .branch left right, .leaf tx =>
    have hlen := lt_length_bodyEncoding_leaf tx
    rw [← h, length_bodyEncoding_branch] at hlen
    exact absurd hlen (lt_irrefl 64)
  | .branch left right, .branch left' right' =>
    have hpair := pair_isHash left right
    have hpair' := pair_isHash left' right'
    obtain ⟨hleft, hright⟩ := append_inj
      (hexBytes_injective (n := 64) hpair.1 hpair'.1 hpair.2 hpair'.2 h)
      (left.property.1.trans left'.property.1.symm)
    rw [Subtype.ext (String.toList_inj.mp hleft), Subtype.ext (String.toList_inj.mp hright)]

/-- The hash of a transaction, or of two neighbours of a level. -/
def bodyDigest (x : Preimage Transaction Digest) : Digest :=
  ⟨Crypto.sha256 (bodyEncoding x), Crypto.sha256_hex _⟩

/-- The byte strings that `merkleRoot` hashes for a list of transactions. -/
def bodyBytes (transactions : List Transaction) : Set (List UInt8) :=
  insert [] (Set.image bodyEncoding (listInputs bodyDigest transactions))

theorem merkleLevel_map_val (X : List Digest) :
    merkleLevel (X.map Subtype.val) = (level bodyDigest X).map Subtype.val := by
  induction X using pairs.induct with
  | case1 | case2 => rfl
  | case3 a b rest ih =>
    rw [map_cons, map_cons, merkleLevel, ih]
    rfl

theorem merkleFold_map_val (n : Nat) (X : List Digest) :
    merkleFold n (X.map Subtype.val) = ((fold bodyDigest n X).map Subtype.val).headD "" := by
  induction n generalizing X with
  | zero => rw [merkleFold, fold] <;> simp
  | succ n ih =>
    match X with
    | [] => rfl
    | [a] => rfl
    | a :: b :: rest =>
      rw [fold, ← ih, ← merkleLevel_map_val]
      rfl

/-- The root of a body is the root of the tree over the transactions. -/
theorem merkleRoot_eq (h : transactions ≠ []) :
    merkleRoot (transactions.map Transaction.toJson) =
      ((fold bodyDigest transactions.length
        (transactions.map fun tx => bodyDigest (.leaf tx))).map Subtype.val).headD "" := by
  match transactions with
  | tx :: rest =>
    rw [← merkleFold_map_val, map_map]
    change merkleFold ((tx :: rest).map Transaction.toJson).length
      (((tx :: rest).map Transaction.toJson).map fun v => sha256Hex (canonicalText v)) = _
    rw [length_map, map_map]
    rfl

/-- The root of a body is the hash of a transaction or of two neighbours. -/
theorem merkleRoot_eq_sha256 (h : transactions ≠ []) :
    ∃ x ∈ listInputs bodyDigest transactions,
      merkleRoot (transactions.map Transaction.toJson) = Crypto.sha256 (bodyEncoding x) := by
  obtain ⟨x, hx, hfold⟩ := @fold_leaves_eq _ _ bodyDigest _ h
  exact ⟨x, hx, by rw [merkleRoot_eq h, hfold]; rfl⟩

theorem isHex_merkleRoot (transactions : List Transaction) :
    IsHex 32 (merkleRoot (transactions.map Transaction.toJson)) := by
  by_cases h : transactions = []
  · subst h
    exact Crypto.sha256_hex _
  · obtain ⟨x, -, hroot⟩ := merkleRoot_eq_sha256 h
    rw [hroot]
    exact Crypto.sha256_hex _

omit [Crypto] in
private theorem bodyEncoding_ne_nil (x : Preimage Transaction Digest) : bodyEncoding x ≠ [] := by
  refine length_pos_iff.mp ?_
  cases x with
  | leaf tx => exact lt_trans (by decide) (lt_length_bodyEncoding_leaf tx)
  | branch left right => rw [length_bodyEncoding_branch]; decide

/-- Lists without repetition are determined by their root. -/
theorem transactions_eq_of_merkleRoot {xs ys : List Transaction} (hx : xs.Nodup) (hy : ys.Nodup)
    (h : merkleRoot (xs.map Transaction.toJson) = merkleRoot (ys.map Transaction.toJson)) :
    xs = ys ∨ ByteCollision (bodyBytes xs ∪ bodyBytes ys) := by
  by_cases hfree : ByteCollision (bodyBytes xs ∪ bodyBytes ys)
  · exact .inr hfree
  refine .inl ?_
  have hs : Set.InjOn bodyDigest (listInputs bodyDigest xs ∪ listInputs bodyDigest ys) := by
    intro x hx y hy hxy
    have hbytes : ∀ z ∈ listInputs bodyDigest xs ∪ listInputs bodyDigest ys,
        bodyEncoding z ∈ bodyBytes xs ∪ bodyBytes ys := by
      rintro z (hz | hz)
      · exact .inl (.inr ⟨z, hz, rfl⟩)
      · exact .inr (.inr ⟨z, hz, rfl⟩)
    by_contra hne
    exact hfree ⟨_, hbytes x hx, _, hbytes y hy, bodyEncoding_injective.ne hne,
      congrArg Subtype.val hxy⟩
  -- an empty body has the hash of the empty text
  have hempty : ∀ {zs : List Transaction}, zs ≠ [] → bodyBytes zs ⊆ bodyBytes xs ∪ bodyBytes ys →
      merkleRoot (zs.map Transaction.toJson) ≠ merkleRoot ([].map Transaction.toJson) := by
    intro zs hzs hsub heq
    obtain ⟨z, hz, hroot⟩ := merkleRoot_eq_sha256 hzs
    exact hfree ⟨_, hsub (.inr ⟨z, hz, rfl⟩), [], hsub (.inl rfl), bodyEncoding_ne_nil z,
      hroot.symm.trans heq⟩
  by_cases hx₀ : xs = []
  · subst hx₀
    by_contra hne
    exact hempty (Ne.symm hne) Set.subset_union_right h.symm
  by_cases hy₀ : ys = []
  · subst hy₀
    exact absurd h (hempty hx₀ Set.subset_union_left)
  rw [merkleRoot_eq hx₀, merkleRoot_eq hy₀] at h
  refine eq_of_fold_leaves_eq hs hx hy hx₀ hy₀ Set.subset_union_left Set.subset_union_right ?_
  obtain ⟨x, -, hxfold⟩ := @fold_leaves_eq _ _ bodyDigest _ hx₀
  obtain ⟨y, -, hyfold⟩ := @fold_leaves_eq _ _ bodyDigest _ hy₀
  rw [hxfold, hyfold] at h ⊢
  exact congrArg (fun d => [d]) (Subtype.ext h)

/-! ### Blocks -/

/-- The bytes of which a block has its hash. -/
def headerBytes (block : Block) : List UInt8 := utf8 (canonicalText block.header.toJson)

/-- The byte strings that are hashed for the hash of a block and the root of its body. -/
def Block.hashedBytes (block : Block) : Set (List UInt8) :=
  insert (headerBytes block) (bodyBytes block.transactions)

theorem header_eq_of_blockHash {block' : Block}
    (h : blockHash block.header = blockHash block'.header) :
    block.header = block'.header ∨ ByteCollision (block.hashedBytes ∪ block'.hashedBytes) := by
  by_cases heq : headerBytes block = headerBytes block'
  · exact .inl (BlockHeader.eq_of_canonicalText (utf8_injective heq))
  · exact .inr ⟨_, .inl (.inl rfl), _, .inr (.inl rfl), heq, h⟩

/-- Blocks that match their headers and repeat no transaction are determined by their hash. -/
theorem transactions_eq_of_hash {block' : Block}
    (hhash : blockHash block.header = blockHash block'.header)
    (hroot : block.header.transactionRoot = merkleRoot (block.transactions.map Transaction.toJson))
    (hroot' : block'.header.transactionRoot = merkleRoot (block'.transactions.map
      Transaction.toJson)) (hnodup : block.transactions.Nodup) (hnodup' : block'.transactions.Nodup) :
    block.transactions = block'.transactions ∨
      ByteCollision (block.hashedBytes ∪ block'.hashedBytes) := by
  rcases header_eq_of_blockHash hhash with hheader | hcollision
  · rw [hheader, hroot'] at hroot
    refine (transactions_eq_of_merkleRoot hnodup hnodup' hroot.symm).imp_right fun h => h.mono ?_
    exact Set.union_subset_union (Set.subset_insert _ _) (Set.subset_insert _ _)
  · exact .inr hcollision

/-- What the gates establish about the hashes of a block. -/
theorem hashes_of_validate {previous : Block} {validators : List Validator} {nowMs : Int}
    {requireFinality : Bool} {protocolVersion : Int} {requireSignature : Bool}
    (h : validateBlockEnvelopeGates block previous validators nowMs requireFinality protocolVersion
      requireSignature = .ok ()) :
    block.header.transactionRoot = merkleRoot (block.transactions.map Transaction.toJson) ∧
      block.hash = blockHash block.header := by
  rw [validateBlockEnvelopeGates] at h
  simp only [unit_bind_eq_ok] at h
  obtain ⟨-, -, -, hheader, -, -⟩ := h
  rw [validateHeaderChain] at hheader
  simp only [throwIf_bind_eq_ok, ne_eq, not_not] at hheader
  obtain ⟨-, -, -, -, -, -, -, -, -, hroot, hhash, -⟩ := hheader
  exact ⟨hroot, hhash⟩

theorem Chain.Replays.hashes {c : Chain} {nowMs : Int} {start next : AppliedTransition}
    (h : c.Replays block nowMs context start next) :
    block.header.transactionRoot = merkleRoot (block.transactions.map Transaction.toJson) ∧
      block.hash = blockHash block.header ∧ block.transactions.Nodup := by
  have henvelope := h.envelope
  rw [validateBlockEnvelope, unit_bind_eq_ok] at henvelope
  obtain ⟨hroot, hhash⟩ := hashes_of_validate henvelope.1
  exact ⟨hroot, hhash, List.Nodup.of_map _ h.checked.nodup_txids.1⟩

/-- A block that passes the full validation on a chain is determined by its hash, and a body by its
Merkle root. -/
theorem Chain.body_determined (c : Chain) :
    (∀ (block block' : Block) (nowMs nowMs' : Int) (c₁ c₂ : Chain),
      c.acceptBlock block nowMs = .ok c₁ → c.acceptBlock block' nowMs' = .ok c₂ →
      block.hash = block'.hash → block.transactions = block'.transactions ∨
        ByteCollision (block.hashedBytes ∪ block'.hashedBytes)) ∧
    (∀ (xs ys : List Transaction) (height height' time time' : Int)
      (producer producer' : Option Address) (next next' : AppliedTransition),
      c.validateAndApply xs height time producer = .ok next →
      c.validateAndApply ys height' time' producer' = .ok next' →
      merkleRoot (xs.map Transaction.toJson) = merkleRoot (ys.map Transaction.toJson) →
      xs = ys ∨ ByteCollision (bodyBytes xs ∪ bodyBytes ys)) := by
  refine ⟨fun block block' nowMs nowMs' c₁ c₂ h h' hhash => ?_,
    fun xs ys _ _ _ _ _ _ _ _ h h' hroot => transactions_eq_of_merkleRoot
      (Chain.nodup_of_validateAndApply h) (Chain.nodup_of_validateAndApply h') hroot⟩
  obtain ⟨⟨_, _, _, hreplays⟩, -⟩ := Chain.replays_of_acceptBlock h
  obtain ⟨⟨_, _, _, hreplays'⟩, -⟩ := Chain.replays_of_acceptBlock h'
  obtain ⟨hroot, hblock, hnodup⟩ := hreplays.hashes
  obtain ⟨hroot', hblock', hnodup'⟩ := hreplays'.hashes
  rw [hblock, hblock'] at hhash
  exact transactions_eq_of_hash hhash hroot hroot' hnodup hnodup'

end

attribute [local instance] OneValidator.oneCrypto

/-- The block of `OneValidator` and whatever else is accepted in its place under the same hash. -/
theorem body_determined_oneValidator :
    OneValidator.start.acceptBlock OneValidator.block 1 = .ok OneValidator.next ∧
      ∀ (block : Block) (nowMs : Int) (c : Chain),
        OneValidator.start.acceptBlock block nowMs = .ok c →
        OneValidator.block.hash = block.hash →
        OneValidator.block.transactions = block.transactions ∨
          ByteCollision (OneValidator.block.hashedBytes ∪ block.hashedBytes) :=
  ⟨OneValidator.acceptBlock_block, fun block nowMs c h hhash =>
    (Chain.body_determined OneValidator.start).1 OneValidator.block block 1 nowMs
      OneValidator.next c OneValidator.acceptBlock_block h hhash⟩

end ZyronChain
