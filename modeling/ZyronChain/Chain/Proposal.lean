import ZyronChain.Chain.Bodies

/-!
# Proposals and their copies

A proposal is validated against the tip: gates that do not depend on the transactions, then the
transactions and their replay.  A copy of an accepted proposal that is stored, fetched or committed
is checked on its own, and these checks see the body only through its Merkle root.

Source: `l1/src/chain.ts` (`validateProposal`), `l1/src/block.ts` (`validateBlockSelfAuthentication`),
`l1/src/consensus-v6.ts` (`assertV6ProposalBlockIntegrity`), `l1/src/merkle.ts`.

## Main results

* `merkleRoot_repeatLast` : the repetition of the last of an odd number of transactions keeps the
  root.
* `Block.copyAccepted_repeatLast` : so does the block that repeats it pass as a copy.
* `Chain.copy_transactions_iff` : a copy has the body of the accepted proposal just if it repeats nothing.
-/

namespace ZyronChain

open Checks Merkle List LedgerState Json

section

variable [Crypto]

/-! ### Validation -/

/-- The gates of `validateProposal`, up to the call of `onAuthenticated`. -/
def Chain.proposalGates (c : Chain) (block : Block) (nowMs : Int) : Except String Unit := do
  let protocolVersion ← c.protocolVersionAt block.header.height
  assertSupportedProtocolVersion protocolVersion
  let validators ← c.validatorsAt block.header.height
  validateBlockEnvelopeGates block c.tip validators nowMs false protocolVersion true

/-- `validateProposal` after the gates: the transactions and their replay. -/
def Chain.proposalBody (c : Chain) (block : Block) : Except String Unit := do
  validateBlockTransactions block
  assertBlockBytes block
  let protocolVersion ← c.protocolVersionAt block.header.height
  let _ ← c.replayBlock block protocolVersion
  .ok ()

/-- `validateProposal`.  After the gates a block whose hash was validated before only has its size
checked. -/
def Chain.validateProposal (c : Chain) (block : Block) (nowMs : Int) (alreadyValidated : Bool) :
    Except String Unit := do
  c.proposalGates block nowMs
  if alreadyValidated then assertBlockBytes block else c.proposalBody block

def validateBlockSelfAuthentication (block : Block) : Except String Unit := do
  throwIf (block.hash ≠ blockHash block.header) "Block hash mismatch"
  throwIf (block.header.transactionRoot ≠ merkleRoot (block.transactions.map Transaction.toJson))
    "Transaction Merkle root mismatch"
  if block.header.height = 0 then .ok ()
  else
    match block.proposerPublicKey, block.signature with
    | some publicKey, some signature => do
      throwIf (publicKey = "" ∨ signature = "") "Missing proposer signature"
      assertHex publicKey 64 "proposerPublicKey"
      assertHex signature 64 "block signature"
      throwIf (addressFromPublicKey publicKey ≠ block.header.proposer)
        "Unexpected proposer public key"
      throwIf (¬ verifyForProtocol block.header.version blockProposalDomain block.header.toJson
        signature publicKey = true) "Invalid proposer signature"
    | _, _ => .error "Missing proposer signature"

/-- The block matches its hash, and its body the header. -/
structure Block.Consistent (block : Block) : Prop where
  hash : block.hash = blockHash block.header
  root : block.header.transactionRoot = merkleRoot (block.transactions.map Transaction.toJson)

variable {block : Block} {transactions : List Transaction}

theorem consistent_of_integrity {height : Int} {hash : String} {validators : List Validator}
    (h : assertV6ProposalBlockIntegrity block height hash validators = .ok ()) :
    block.Consistent := by
  rw [assertV6ProposalBlockIntegrity, throwIf_bind_eq_ok, throwIf_bind_eq_ok] at h
  obtain ⟨hhash, hroot, -⟩ := h
  simp only [not_or, not_not] at hhash hroot
  exact ⟨hhash.1.trans hhash.2.1.symm, hroot⟩

theorem consistent_of_selfAuthentication (h : validateBlockSelfAuthentication block = .ok ()) :
    block.Consistent := by
  rw [validateBlockSelfAuthentication, throwIf_bind_eq_ok, throwIf_bind_eq_ok, not_not,
    not_not] at h
  exact ⟨h.1, h.2.1⟩

theorem Chain.consistent_of_proposalGates {c : Chain} {nowMs : Int}
    (h : c.proposalGates block nowMs = .ok ()) : block.Consistent := by
  rw [Chain.proposalGates] at h
  simp only [bind_eq_ok] at h
  obtain ⟨_, -, _, -, _, -, hgates⟩ := h
  obtain ⟨hroot, hhash⟩ := hashes_of_validate hgates
  exact ⟨hhash, hroot⟩

/-- An accepted proposal matches its hash, and repeats no transaction. -/
theorem Chain.accepted_proposal {c : Chain} {nowMs : Int}
    (h : c.validateProposal block nowMs false = .ok ()) :
    block.Consistent ∧ block.transactions.Nodup := by
  rw [Chain.validateProposal, unit_bind_eq_ok, if_neg Bool.false_ne_true, Chain.proposalBody,
    unit_bind_eq_ok, unit_bind_eq_ok] at h
  obtain ⟨hgates, -, -, hreplay⟩ := h
  simp only [Chain.replayBlock, bind_eq_ok] at hreplay
  obtain ⟨_, -, _, ⟨_, happly, -⟩, -⟩ := hreplay
  exact ⟨Chain.consistent_of_proposalGates hgates, Chain.nodup_of_validateAndApply happly⟩

/-! ### Repeating the last transaction -/

/-- The repetition of the last of an odd number of transactions keeps the root. -/
theorem merkleRoot_repeatLast (tx : Transaction) (h : transactions.length % 2 = 0)
    (hne : transactions ≠ []) :
    merkleRoot ((transactions ++ [tx, tx]).map Transaction.toJson) =
      merkleRoot ((transactions ++ [tx]).map Transaction.toJson) := by
  rw [merkleRoot_eq (by simp), merkleRoot_eq (by simp)]
  have hmap := @fold_append_pair _ _ (transactions.map fun tx => bodyDigest (.leaf tx)) bodyDigest
    (bodyDigest (.leaf tx)) (by rwa [length_map]) (map_eq_nil_iff.not.mpr hne)
  rw [length_map] at hmap
  simp only [map_append, map_cons, map_nil, length_append, length_cons,
    length_nil, Nat.zero_add, Nat.reduceAdd]
  rw [hmap]

def Block.withTransactions (block : Block) (transactions : List Transaction) : Block :=
  { block with transactions := transactions }

/-- The checks of a copy see the body only through its root. -/
theorem validateBlockSelfAuthentication_withTransactions
    (h : merkleRoot (transactions.map Transaction.toJson) = merkleRoot (block.transactions.map
      Transaction.toJson)) :
    validateBlockSelfAuthentication (block.withTransactions transactions) = .ok () ↔
      validateBlockSelfAuthentication block = .ok () := by
  simp only [validateBlockSelfAuthentication, throwIf_bind_eq_ok]
  rw [show (block.withTransactions transactions).transactions = transactions from rfl, h]
  exact Iff.rfl

theorem assertV6ProposalBlockIntegrity_withTransactions {height : Int} {hash : String}
    {validators : List Validator}
    (h : merkleRoot (transactions.map Transaction.toJson) = merkleRoot (block.transactions.map
      Transaction.toJson)) :
    assertV6ProposalBlockIntegrity (block.withTransactions transactions) height hash validators =
        .ok () ↔
      assertV6ProposalBlockIntegrity block height hash validators = .ok () := by
  simp only [assertV6ProposalBlockIntegrity, throwIf_bind_eq_ok]
  rw [show (block.withTransactions transactions).transactions = transactions from rfl, h]
  exact Iff.rfl

/-! ### Copies -/

/-- The checks of a copy that is committed, stored, fetched or served as an anchored tip. -/
def Block.CopyAccepted (block : Block) : Prop :=
  (∃ height hash validators, assertV6ProposalBlockIntegrity block height hash validators = .ok ()) ∨
  validateBlockSelfAuthentication block = .ok ()

theorem Block.CopyAccepted.consistent (h : block.CopyAccepted) : block.Consistent := by
  rcases h with ⟨_, _, _, h⟩ | h
  · exact consistent_of_integrity h
  · exact consistent_of_selfAuthentication h

/-- Bodies with one root pass the checks of a copy alike. -/
theorem Block.copyAccepted_withTransactions
    (h : merkleRoot (transactions.map Transaction.toJson) = merkleRoot (block.transactions.map
      Transaction.toJson)) :
    (block.withTransactions transactions).CopyAccepted ↔ block.CopyAccepted :=
  or_congr
    (exists_congr fun _ => exists_congr fun _ => exists_congr fun _ =>
      assertV6ProposalBlockIntegrity_withTransactions h)
    (validateBlockSelfAuthentication_withTransactions h)

/-- The last of an odd number of transactions can be repeated in a copy. -/
theorem Block.copyAccepted_repeatLast {tx : Transaction}
    (hbody : block.transactions = transactions ++ [tx]) (h : transactions.length % 2 = 0)
    (hne : transactions ≠ []) (hcopy : block.CopyAccepted) :
    (block.withTransactions (transactions ++ [tx, tx])).CopyAccepted := by
  refine (Block.copyAccepted_withTransactions ?_).mpr hcopy
  rw [hbody, merkleRoot_repeatLast tx h hne]

/-- A copy of an accepted proposal has its transactions just if it repeats none. -/
theorem Chain.copy_transactions_iff {c : Chain} {block copy : Block} {nowMs : Int}
    (h : c.validateProposal block nowMs false = .ok ()) (hhash : copy.hash = block.hash)
    (hcopy : copy.CopyAccepted) :
    (copy.transactions = block.transactions ↔ copy.transactions.Nodup) ∨
      ByteCollision (copy.hashedBytes ∪ block.hashedBytes) := by
  obtain ⟨hblock, hnodup⟩ := Chain.accepted_proposal h
  have hconsistent := hcopy.consistent
  by_cases hfree : ByteCollision (copy.hashedBytes ∪ block.hashedBytes)
  · exact .inr hfree
  refine .inl ⟨fun heq => heq ▸ hnodup, fun hcopied => ?_⟩
  rw [hconsistent.hash, hblock.hash] at hhash
  exact (transactions_eq_of_hash hhash hconsistent.root hblock.root hcopied hnodup).resolve_right
    hfree

end

/-! ### A chain of transfers -/

namespace Transfers

/-- The hash of the entry of a table at an index. -/
def code (k : Nat) : String :=
  String.ofList ([k % 16, k / 16 % 16, k / 256 % 16, k / 4096 % 16].map Nat.digitChar ++
    List.replicate 60 '0')

private theorem isLowerHex_digitChar : ∀ n < 16, isLowerHex (Nat.digitChar n) = true := by decide

private theorem isHash64_code (k : Nat) : IsHash64 (code k) := by
  rw [IsHash64, code, String.toList_ofList]
  refine ⟨rfl, fun c hc => ?_⟩
  rcases mem_append.mp hc with hc | hc
  · obtain ⟨n, hn, rfl⟩ := mem_map.mp hc
    refine isLowerHex_digitChar n ?_
    simp only [mem_cons, not_mem_nil, or_false] at hn
    omega
  · rw [eq_of_mem_replicate hc]
    rfl

variable {k n : Nat} {ks : List Nat}

private theorem code_injective {l : Nat} (hk : k < 65536) (hl : l < 65536) (h : code k = code l) :
    k = l := by
  have hdigit : ∀ m < 16, ∀ n < 16, Nat.digitChar m = Nat.digitChar n → m = n := by decide
  have heq := append_cancel_right (String.ofList_inj.mp h)
  simp only [map_cons, map_nil, List.cons.injEq, and_true] at heq
  obtain ⟨h0, h1, h2, h3⟩ := heq
  have := hdigit _ (by omega) _ (by omega) h0
  have := hdigit _ (by omega) _ (by omega) h1
  have := hdigit _ (by omega) _ (by omega) h2
  have := hdigit _ (by omega) _ (by omega) h3
  omega

/-- Every signature is accepted, and the entries of a table have hashes of their own. -/
@[reducible] def crypto (table : List (List UInt8)) : Crypto where
  sha256 := fun bytes => if bytes ∈ table then code (table.idxOf bytes) else digits 64 '7'
  sha256_hex := fun bytes => by
    split
    · exact isHash64_code _
    · exact isHash64_digits rfl
  verify := fun _ _ _ => true
  isPoint := fun _ => true

def key : String := digits 128 'a'

def signature : String := digits 128 'e'

def address : Address := String.ofList ("ZYN".toList ++ List.replicate 40 '7')

def receiver : Address := String.ofList ("ZYN".toList ++ List.replicate 40 '1')

def pool : Address := String.ofList ("ZYN".toList ++ List.replicate 40 'e')

def validator : Validator := ⟨address, key⟩

def genesis : GenesisConfig :=
  { chainId := "transfers"
    timestampMs := 0
    validators := [validator]
    activityOracles := [digits 128 'b']
    activityPool := pool
    allocations := [⟨address, 1000000⟩]
    allocationLocks := none
    activityOracleThreshold := none
    activityOraclePolicy := none
    activitySettlementCapAtoms := none
    launchProfile := none
    networkClass := none
    publicDistributionRelease := none
    feePolicy := none
    validatorAdmission := none }

/-- The transfer of an atom, under a nonce. -/
def transfer (k : Nat) (txid : String) : Transaction :=
  { body := .transfer receiver 1
    version := 1
    chainId := "transfers"
    nonce := k + 1
    sender := address
    feeAtoms := 0
    timestampMs := 0
    publicKey := key
    signature := signature
    txid := txid }

/-- The bytes of which a transfer has its ID. -/
def payload (k : Nat) : List UInt8 := utf8 (canonicalText (transfer k "").signedPayload)

/-- The transfers that have IDs of their own. -/
def capacity : Nat := 5000

/-- The bytes that have hashes of their own. -/
def table : List (List UInt8) := (List.range capacity).map payload

@[reducible] def tableCrypto : Crypto := crypto table

attribute [local instance] tableCrypto

theorem sha256_eq (bytes : List UInt8) : Crypto.sha256 bytes =
    if bytes ∈ table then code (table.idxOf bytes) else digits 64 '7' := rfl

def tx (k : Nat) : Transaction := transfer k (Crypto.sha256 (payload k))

theorem isHex_key : IsHex 64 key := isHex_digits rfl rfl

theorem isHex_signature : IsHex 64 signature := isHex_digits rfl rfl

theorem isHex_sha256 (bytes : List UInt8) : IsHex 32 (Crypto.sha256 bytes) :=
  isHex_iff_isHash64.mpr (Crypto.sha256_hex bytes)

theorem isAddress_address : IsAddress address := by decide

theorem isAddress_receiver : IsAddress receiver := by decide

theorem payload_injective : Function.Injective payload := by
  intro k l h
  have heq := (transfer k "").determined_signedPayload.eq (transfer l "").determined_signedPayload
    (utf8_injective h)
  have hnonce : (k : Int) + 1 = l + 1 := (Transaction.sender_nonce_of_signedPayload heq).2
  omega

theorem txid_injective {l : Nat} (hk : k < capacity) (hl : l < capacity)
    (h : (tx k).txid = (tx l).txid) : k = l := by
  have hmem : ∀ {m : Nat}, m < capacity → payload m ∈ table :=
    fun hm => mem_map_of_mem (mem_range.mpr hm)
  have hcode : ∀ {m : Nat}, m < capacity → (tx m).txid = code (table.idxOf (payload m)) :=
    fun {m} hm => (sha256_eq (payload m)).trans (if_pos (hmem hm))
  have hlt : ∀ {m : Nat}, m < capacity → table.idxOf (payload m) < 65536 := by
    intro m hm
    have := idxOf_lt_length_of_mem (hmem hm)
    rw [table, length_map, length_range] at this
    exact lt_trans this (by decide)
  rw [hcode hk, hcode hl] at h
  exact payload_injective ((idxOf_inj (hmem hk)).mp (code_injective (hlt hk) (hlt hl) h))

theorem signedPayload_transfer (k : Nat) (txid : String) :
    (transfer k txid).signedPayload = .obj [("amountAtoms", .num 1),
      ("chainId", .str "transfers"), ("feeAtoms", .num 0), ("kind", .str "transfer"),
      ("nonce", .num (k + 1)), ("publicKey", .str key), ("receiver", .str receiver),
      ("sender", .str address), ("signature", .str signature), ("timestampMs", .num 0),
      ("version", .num 1)] := by rfl

theorem txSigningPayload_transfer (k : Nat) (txid : String) :
    (transfer k txid).txSigningPayload = .obj [("amountAtoms", .num 1),
      ("chainId", .str "transfers"), ("feeAtoms", .num 0), ("kind", .str "transfer"),
      ("nonce", .num (k + 1)), ("publicKey", .str key), ("receiver", .str receiver),
      ("sender", .str address), ("timestampMs", .num 0), ("version", .num 1)] := by rfl

theorem size_signedPayload (k : Nat) : 64 < (transfer k "").signedPayload.size := by
  have hkey := size_str_of_isHex isHex_key
  rw [signedPayload_transfer, size_obj]
  simp only [Json.sizeMembers, hkey]
  omega

theorem addressFromPublicKey_eq {publicKey : String} (h : IsHex 64 publicKey) :
    addressFromPublicKey publicKey = address := by
  have hlen : (hexBytes publicKey.toList).length = 64 := length_hexBytes h.1 h.2
  have hmem : hexBytes publicKey.toList ∉ table := by
    intro hmem
    obtain ⟨k, -, hk⟩ := mem_map.mp hmem
    have hsize := size_signedPayload k
    rw [← byteLength_canonicalText, ← length_utf8] at hsize
    rw [← hk] at hlen
    exact absurd hlen hsize.ne'
  have hdigest : Crypto.sha256 (hexBytes publicKey.toList) = digits 64 '7' := by
    rw [sha256_eq, if_neg hmem]
  have htake : List.take 40 (List.replicate 64 '7') = List.replicate 40 '7' := by decide
  rw [addressFromPublicKey, hdigest, toList_digits, htake]
  rfl

def ledger : LedgerState where
  accounts := SortedMap.empty.set address ⟨1000000, 0⟩
  settledActivityEpochs := .empty

def start : Chain where
  genesis := genesis
  genesisBlock := createGenesisBlock genesis ledger.root
  tip := createGenesisBlock genesis ledger.root
  height := 0
  governance := genesisGovernance genesis
  state := some ledger
  stateV2 := none
  stateV2SemanticKeys := none

def context : BlockContext where
  genesis := genesis
  genesisHash := start.genesisHash
  protocolVersion := 1
  blockHeight := 1
  blockTimestampMs := 1
  currentValidators := [validator]
  oracles := start.governance.oracleSetAt genesis 1
  locks := none
  fee := none

theorem starts : start.StartsBlock 1 1 (some address) context ⟨some ledger, none⟩ where
  genesis := rfl
  genesisHash := rfl
  version := rfl
  height := rfl
  timestamp := rfl
  validators := rfl
  oracles := rfl
  locks := rfl
  fee := rfl
  claims := ⟨0, rfl⟩
  start := rfl

theorem isSafeInteger_nonce (hk : k < capacity) : IsSafeInteger ((k : Int) + 1) := by
  have : k < 5000 := hk
  rw [IsSafeInteger]
  simp only [maxSafeInteger]
  omega

theorem txid_tx (k : Nat) : (tx k).txid = sha256Hex (canonicalText (tx k).signedPayload) := by
  have hpayload : (tx k).signedPayload = (transfer k "").signedPayload := by
    rw [tx, signedPayload_transfer, signedPayload_transfer]
  rw [hpayload]
  rfl

theorem verify_tx (hk : k < capacity) : verifyTransactionSignature (tx k) = true := by
  have hcanonical : Canonical 0 (tx k).txSigningPayload := by
    rw [tx, txSigningPayload_transfer]
    exact ⟨by decide, (by decide : IsSafeInteger 1), trivial, (by decide : IsSafeInteger 0), trivial,
      isSafeInteger_nonce hk, trivial, trivial, trivial, (by decide : IsSafeInteger 0),
      (by decide : IsSafeInteger 1), trivial⟩
  have hversion : ¬ (tx k).version = 2 := (by decide : ¬ (1 : Int) = 2)
  rw [verifyTransactionSignature, verifyForTransactionVersion, if_neg hversion, verifyCanonical,
    canonicalJson_eq_ok_iff.mpr ⟨hcanonical, rfl⟩]
  rfl

theorem validateTransactionShape_tx (hk : k < capacity) :
    validateTransactionShape (tx k) none = .ok () := by
  have hnonce : ¬ (¬ IsSafeInteger ((k : Int) + 1) ∨ (k : Int) + 1 < 1) := by
    rw [not_or, not_not, not_lt]
    exact ⟨isSafeInteger_nonce hk, by omega⟩
  have hversion : ¬ ((1 : Int) ≠ 1 ∧ (1 : Int) ≠ 2) := by decide
  have htime : ¬ (¬ IsSafeInteger 0 ∨ (0 : Int) < 0) := by decide
  have htracker : ¬ (address = miningTrackerAddress ∨ receiver = miningTrackerAddress) := by
    decide
  rw [validateTransactionShape]
  simp only [unit_bind_eq_ok, throwIf_eq_ok, assertAddress_eq_ok, assertHex_eq_ok]
  refine ⟨rfl, hversion, isAddress_address, hnonce, htime, isHex_key, isHex_signature,
    isHex_sha256 _, ?_, not_not.mpr (txid_tx k), not_not.mpr (verify_tx hk)⟩
  have hbody : (tx k).body = .transfer receiver 1 := rfl
  rw [validateTransactionBody]
  simp only [hbody, unit_bind_eq_ok, throwIf_eq_ok, assertAddress_eq_ok]
  exact ⟨isAddress_receiver, htracker, rfl, rfl, by simp,
    not_not.mpr (addressFromPublicKey_eq isHex_key)⟩

theorem check_tx (hk : k < capacity) {seen : List String} (hseen : (tx k).txid ∉ seen)
    (cursors : ScheduleCursors) : checkTransaction context seen cursors (tx k) = .ok () := by
  rw [checkTransaction]
  simp only [unit_bind_eq_ok, throwIf_eq_ok]
  exact ⟨not_not.mpr rfl, hseen, validateTransactionShape_tx hk, rfl, rfl, rfl⟩

theorem checked (G : Governance) : Checked context [] G ((List.range 3).map tx) := by
  have hne : ∀ k < 3, ∀ l < 3, k ≠ l → (tx k).txid ≠ (tx l).txid := fun k hk l hl hne h =>
    hne (txid_injective (hk.trans (by decide)) (hl.trans (by decide)) h)
  refine ⟨check_tx (by decide) not_mem_nil _, check_tx (by decide) ?_ _, check_tx (by decide) ?_ _,
    trivial⟩
  · simpa using hne 1 (by decide) 0 (by decide) (by decide)
  · simpa using ⟨hne 2 (by decide) 1 (by decide) (by decide), hne 2 (by decide) 0 (by decide)
      (by decide)⟩

theorem exists_applyAll : ∃ L, applyAll context ((List.range 3).map tx) ⟨some ledger, none⟩ =
    .ok ⟨some L, none⟩ := by
  exact ⟨⟨⟨[(receiver, ⟨3, 0⟩), (address, ⟨999997, 3⟩)], by decide⟩, .empty⟩, rfl⟩

def block (ks : List Nat) (stateRoot : String) : Block :=
  let header : BlockHeader :=
    { version := 1
      chainId := "transfers"
      height := 1
      round := 0
      previousHash := start.tip.hash
      timestampMs := 1
      transactionRoot := merkleRoot ((ks.map tx).map Transaction.toJson)
      stateRoot := stateRoot
      proposer := address }
  { header := header
    transactions := ks.map tx
    hash := blockHash header
    proposerPublicKey := some key
    signature := some signature
    roundCertificate := []
    attestations := []
    commitRound := none }

theorem canonical_block (hks : ∀ k ∈ ks, k < capacity) (stateRoot : String) :
    Canonical 0 (block ks stateRoot).toJson := by
  refine ⟨by decide, ⟨by decide, trivial⟩, trivial, ⟨by decide, trivial, ?_⟩, trivial,
    ⟨by decide, trivial⟩, trivial, ⟨by decide, ?_⟩, trivial⟩
  · exact ⟨(by decide : IsSafeInteger 1), trivial, trivial, (by decide : IsSafeInteger 0), trivial,
      (by decide : IsSafeInteger 1), trivial, (by decide : IsSafeInteger 1), trivial⟩
  · refine (canonicalItems_iff _ _).mpr (forall_mem_map.mpr (forall_mem_map.mpr ?_))
    intro k hk
    exact ⟨by decide, (by decide : IsSafeInteger 1), trivial, (by decide : IsSafeInteger 0), trivial,
      isSafeInteger_nonce (hks k hk), trivial, trivial, trivial, trivial,
      (by decide : IsSafeInteger 0), trivial, (by decide : IsSafeInteger 1), trivial⟩

theorem size_tx_le (hk : k < capacity) : (tx k).toJson.size ≤ 599 := by
  have hkey := size_str_of_isHex isHex_key
  have hsignature := size_str_of_isHex isHex_signature
  have haddress := size_str_of_isAddress isAddress_address
  have hreceiver := size_str_of_isAddress isAddress_receiver
  have htxid := size_str_of_isHex (isHex_sha256 (payload k))
  have hnonce := size_num_le (isSafeInteger_nonce hk)
  have hnames : Json.namesSize ["amountAtoms", "chainId", "feeAtoms", "kind", "nonce", "publicKey",
    "receiver", "sender", "signature", "timestampMs", "txid", "version"] = 113 := by decide
  simp only [Json.namesSize] at hnames
  have hone : (Json.num 1).size = 1 := by decide
  have hzero : (Json.num 0).size = 1 := by decide
  have hchain : (Json.str "transfers").size = 11 := by decide
  have hkind : (Json.str "transfer").size = 10 := by decide
  have hjson : (tx k).toJson = .obj [("amountAtoms", .num 1), ("chainId", .str "transfers"),
      ("feeAtoms", .num 0), ("kind", .str "transfer"), ("nonce", .num (k + 1)),
      ("publicKey", .str key), ("receiver", .str receiver), ("sender", .str address),
      ("signature", .str signature), ("timestampMs", .num 0),
      ("txid", .str (Crypto.sha256 (payload k))), ("version", .num 1)] := rfl
  rw [hjson, size_obj]
  simp only [Json.sizeMembers, hkey, hsignature, haddress, hreceiver, htxid, hone, hzero, hchain,
    hkind]
  omega

theorem sizeItems_le (hks : ∀ k ∈ ks, k < capacity) :
    Json.sizeItems ((ks.map tx).map Transaction.toJson) ≤ 600 * ks.length := by
  induction ks with
  | nil => exact Nat.le_refl 0
  | cons k ks ih =>
    rw [forall_mem_cons] at hks
    have := size_tx_le hks.1
    have := ih hks.2
    simp only [map_cons, Json.sizeItems, length_cons]
    omega

/-- A list of transfers that fits into a block. -/
structure Fits (ks : List Nat) : Prop where
  length : ks.length ≤ 1000
  capacity : ∀ k ∈ ks, k < capacity

theorem Fits.bytes (h : Fits ks) {stateRoot : String} (hroot : IsHex 32 stateRoot) :
    assertBlockBytes (block ks stateRoot) = .ok () := by
  have hkey := size_str_of_isHex isHex_key
  have hsignature := size_str_of_isHex isHex_signature
  have hblock : (Json.str (block ks stateRoot).hash).size = 66 := size_str_of_isHex (isHex_sha256 _)
  have hprevious : IsHex 32 start.tip.hash := isHex_sha256 _
  have hheader : (block ks stateRoot).header.toJson.size ≤ 512 :=
    size_header_le (by decide : IsChainId "transfers") (by decide : IsSafeInteger 1)
      (by decide : IsSafeInteger 1) (by decide : IsSafeInteger 0) (by decide : IsSafeInteger 1)
      hprevious (isHex_merkleRoot _) hroot (size_str_of_isAddress isAddress_address).le
  have hnames : Json.namesSize ["attestations", "hash", "header", "proposerPublicKey",
    "roundCertificate", "signature", "transactions"] = 90 := by decide
  simp only [Json.namesSize] at hnames
  have hempty : (Json.arr []).size = 2 := rfl
  have hbody := sizeItems_le h.capacity
  have hlength := h.length
  have hjson : (block ks stateRoot).toJson = .obj [("attestations", .arr []),
      ("hash", .str (block ks stateRoot).hash), ("header", (block ks stateRoot).header.toJson),
      ("proposerPublicKey", .str key), ("roundCertificate", .arr []),
      ("signature", .str signature),
      ("transactions", .arr ((ks.map tx).map Transaction.toJson))] := rfl
  refine assertBlockBytes_eq_ok.mpr ⟨canonical_block h.capacity stateRoot, ?_⟩
  rw [hjson, Json.size_obj, maxBlockBytes]
  simp only [Json.sizeMembers, hempty, Json.size_arr, hkey, hsignature, hblock]
  generalize (block ks stateRoot).header.toJson.size = header at hheader ⊢
  generalize Json.sizeItems _ = body at hbody ⊢
  omega

theorem verify_block (ks : List Nat) (stateRoot : String) : verifyForProtocol 1 blockProposalDomain
    (block ks stateRoot).header.toJson signature key = true := by
  have hcanonical : Canonical 0 (block ks stateRoot).header.toJson :=
    ⟨by decide, trivial, (by decide : IsSafeInteger 1), trivial, trivial,
      (by decide : IsSafeInteger 0), trivial, (by decide : IsSafeInteger 1), trivial,
      (by decide : IsSafeInteger 1), trivial⟩
  rw [verifyForProtocol, if_neg (by decide), verifyCanonical,
    canonicalJson_eq_ok_iff.mpr ⟨hcanonical, rfl⟩]
  rfl

theorem Fits.gates (h : Fits ks) {stateRoot : String} (hroot : IsHex 32 stateRoot) :
    start.proposalGates (block ks stateRoot) 1 = .ok () := by
  have hlength : ¬ (block ks stateRoot).transactions.length > maxBlockTransactions := by
    change ¬ (ks.map tx).length > maxBlockTransactions
    rw [length_map, not_lt]
    exact h.length.trans (by decide)
  have hversion : ¬ (¬ IsSafeInteger 1 ∨ (1 : Int) < 1 ∨ (1 : Int) > 65535) := by decide
  have hheight : ¬ (¬ IsSafeInteger 1 ∨ (1 : Int) < 0) := by decide
  have hround : ¬ (¬ IsSafeInteger 0 ∨ (0 : Int) < 0) := by decide
  have htime : ¬ ¬ IsSafeInteger 1 := by decide
  have hexpected : expectedValidator [validator] 1 0 = .ok validator := rfl
  have hgates : validateBlockEnvelopeGates (block ks stateRoot) start.tip [validator] 1 false 1
      true = .ok () := by
    rw [validateBlockEnvelopeGates, validateBlockStructure, validateHeaderStructure,
      validateHeaderChain]
    simp only [unit_bind_eq_ok, throwIf_eq_ok, assertHex_eq_ok]
    refine ⟨by decide, ⟨rfl, ⟨hversion, hheight, hround, htime, isHex_sha256 _,
      isHex_merkleRoot _, hroot, isHex_sha256 _, fun h => h.2 isAddress_address⟩, hlength,
      Nat.not_lt_zero _, Nat.not_lt_zero _, h.bytes hroot, rfl, rfl⟩, h.bytes hroot,
      ⟨not_not.mpr rfl, not_not.mpr rfl, not_not.mpr rfl, not_not.mpr rfl, hround, htime,
        (by decide : ¬ (1 : Int) ≤ 0), (by decide : ¬ (1 : Int) > 1 + maxFutureMs), hlength,
        not_not.mpr rfl, not_not.mpr rfl, isHex_sha256 _⟩, validateProposer_of_signed rfl rfl isHex_key isHex_signature
        hexpected rfl rfl (verify_block ks stateRoot), rfl⟩
  have hprotocol : start.protocolVersionAt (block ks stateRoot).header.height = .ok 1 := rfl
  have hsupported : assertSupportedProtocolVersion 1 = .ok () := rfl
  have hvalidators : start.validatorsAt (block ks stateRoot).header.height = .ok [validator] := rfl
  rw [Chain.proposalGates, hprotocol, ok_bind, hsupported, ok_bind, hvalidators, ok_bind, hgates]

theorem replay_block : ∃ L : LedgerState,
    start.replayBlock (block (List.range 3) L.root) 1 = .ok ⟨some L, none⟩ := by
  obtain ⟨L, hL⟩ := exists_applyAll
  refine ⟨L, ?_⟩
  have hproducer : feeProducerOf (block (List.range 3) L.root) = some address :=
    if_neg (by decide : ¬ address = "GENESIS")
  have happly : start.validateAndApply (block (List.range 3) L.root).transactions 1 1
      (some address) = .ok ⟨some L, none⟩ :=
    Chain.validateAndApply_eq_ok.mpr ⟨context, _, starts, checked _, hL⟩
  have hheader : (block (List.range 3) L.root).header.height = 1 ∧
      (block (List.range 3) L.root).header.timestampMs = 1 := ⟨rfl, rfl⟩
  have hstate : stateRootForProtocol 1 ⟨some L, none⟩ = .ok L.root := rfl
  rw [Chain.replayBlock, hheader.1, hheader.2, hproducer, happly, ok_bind, hstate, ok_bind]
  exact throwIf_bind_eq_ok.mpr ⟨not_not.mpr rfl, rfl⟩

theorem fits_three : Fits (List.range 3) := ⟨by decide, by decide⟩

theorem exists_validateProposal : ∃ stateRoot, IsHex 32 stateRoot ∧
    start.validateProposal (block (List.range 3) stateRoot) 1 false = .ok () := by
  obtain ⟨L, hreplay⟩ := replay_block
  have hroot : IsHex 32 L.root := isHex_sha256 _
  refine ⟨L.root, hroot, ?_⟩
  have htransactions : validateBlockTransactions (block (List.range 3) L.root) = .ok () :=
    forEach_eq_ok.mpr (forall_mem_map.mpr fun k hk =>
      validateTransactionShape_tx (fits_three.capacity k hk))
  have hbytes : assertBlockBytes (block (List.range 3) L.root) = .ok () :=
    fits_three.bytes hroot
  have hversion : start.protocolVersionAt (block (List.range 3) L.root).header.height = .ok 1 := rfl
  rw [Chain.validateProposal, fits_three.gates hroot, ok_bind, if_neg Bool.false_ne_true,
    Chain.proposalBody, htransactions, ok_bind, hbytes, ok_bind, hversion, ok_bind, hreplay]
  rfl

theorem selfAuthentication_block (ks : List Nat) (stateRoot : String) :
    validateBlockSelfAuthentication (block ks stateRoot) = .ok () := by
  have hheight : ¬ (block ks stateRoot).header.height = 0 := (by decide : ¬ (1 : Int) = 0)
  have hproposer : (block ks stateRoot).proposerPublicKey = some key := rfl
  have hsignature : (block ks stateRoot).signature = some signature := rfl
  rw [validateBlockSelfAuthentication, throwIf_bind_eq_ok, throwIf_bind_eq_ok, if_neg hheight,
    hproposer, hsignature]
  simp only [unit_bind_eq_ok, throwIf_eq_ok, assertHex_eq_ok]
  exact ⟨not_not.mpr rfl, not_not.mpr rfl, by decide +kernel, isHex_key, isHex_signature,
    not_not.mpr (addressFromPublicKey_eq isHex_key), not_not.mpr (verify_block ks stateRoot)⟩

/-- The first three transfers, the last one twice. -/
def repeated : List Nat := [0, 1, 2, 2]

theorem block_repeated (stateRoot : String) : block repeated stateRoot =
    (block (List.range 3) stateRoot).withTransactions (repeated.map tx) := by
  have hroot : merkleRoot ((repeated.map tx).map Transaction.toJson) =
      merkleRoot (((List.range 3).map tx).map Transaction.toJson) :=
    @merkleRoot_repeatLast _ [tx 0, tx 1] (tx 2) rfl (by simp)
  rw [block, hroot]
  rfl

theorem not_nodup_repeated : ¬ (repeated.map tx).Nodup := by
  simp [repeated]

/-- A copy of an accepted proposal passes the check of copies with a transaction repeated, and cannot
be proposed again. -/
theorem repeated_copy_accepted : ∃ block copy : Block,
    start.validateProposal block 1 false = .ok () ∧ copy.hash = block.hash ∧
      validateBlockSelfAuthentication copy = .ok () ∧ copy.transactions ≠ block.transactions ∧
      start.validateProposal copy 1 false ≠ .ok () := by
  obtain ⟨stateRoot, -, hproposal⟩ := exists_validateProposal
  refine ⟨_, block repeated stateRoot, hproposal, by rw [block_repeated]; rfl,
    selfAuthentication_block _ _, fun h => ?_, fun h => ?_⟩
  · exact absurd (congrArg List.length h) (by decide : (4 : Nat) ≠ 3)
  · exact not_nodup_repeated (Chain.accepted_proposal h).2

/-- The proposal of three transfers and the copy that repeats the last one. -/
theorem copy_transactions_iff_transfers : ∃ stateRoot,
    start.validateProposal (block (List.range 3) stateRoot) 1 false = .ok () ∧
      (block repeated stateRoot).CopyAccepted ∧
      (((block repeated stateRoot).transactions = (block (List.range 3) stateRoot).transactions ↔
        (block repeated stateRoot).transactions.Nodup) ∨
      ByteCollision ((block repeated stateRoot).hashedBytes ∪
        (block (List.range 3) stateRoot).hashedBytes)) := by
  obtain ⟨stateRoot, -, hproposal⟩ := exists_validateProposal
  have hcopy : (block repeated stateRoot).CopyAccepted := by
    rw [block_repeated]
    exact @Block.copyAccepted_repeatLast _ _ [tx 0, tx 1] (tx 2) rfl rfl (by simp)
      (.inr (selfAuthentication_block _ _))
  exact ⟨stateRoot, hproposal, hcopy, Chain.copy_transactions_iff hproposal
    (by rw [block_repeated]; rfl) hcopy⟩

end Transfers

end ZyronChain
