import ZyronChain.BlockSize
import ZyronChain.Chain.Ledger
import ZyronChain.Lib.JsonDepth

/-!
# Snapshots of a chain

A chain is written as its tip, its ledger and its schedules, and read back under an anchor: the hash
of the tip and the digest of the snapshot.  The constructor checks again everything that it can
without the blocks before the tip.

The reader of a value of unknown type is left out: a value with other fields or types than those of a
snapshot is refused before anything else happens.

Source: `l1/src/chain.ts` (`snapshot`, `trustedSnapshotSteps` and the three schedule validators).

## Main definitions

* `ChainSnapshot`, `Chain.snapshot`.
* `Chain.fromTrustedSnapshot`.
* `Chain.Anchored` : what the tip of a chain satisfies.

## Main results

* `Chain.snapshot_round_trip` : the chain read back is the chain.
-/

namespace ZyronChain

open Checks List SortedMap Json

/-! ### The format -/

/-- `ChainSnapshotV1`, and `ChainSnapshotV2` if there is an oracle schedule. -/
structure ChainSnapshot where
  chainId : String
  genesisHash : String
  height : Int
  tip : Block
  state : LedgerSnapshot
  validatorSchedule : List (Int × List Validator)
  protocolSchedule : List (Int × Int)
  activityOracleGovernance : Option (List (Int × OracleControl))
deriving DecidableEq, Repr

/-- What a snapshot is trusted for. -/
structure TrustedAnchor where
  tipHash : String
  snapshotSha256 : String
deriving DecidableEq, Repr

def validatorEntryJson (entry : Int × List Validator) : Json :=
  .obj [("activationHeight", .num entry.1), ("validators", .arr (entry.2.map Validator.toJson))]

def protocolEntryJson (entry : Int × Int) : Json :=
  .obj [("activationHeight", .num entry.1), ("protocolVersion", .num entry.2)]

def oracleEntryJson (entry : Int × OracleControl) : Json :=
  .obj [("action", .str entry.2.action.name), ("activationHeight", .num entry.1),
    ("publicKeys", .arr (entry.2.publicKeys.map .str))]

namespace ChainSnapshot

def version (s : ChainSnapshot) : Int := if s.activityOracleGovernance.isSome then 2 else 1

def toJson (s : ChainSnapshot) : Json :=
  .obj (optionalMember "activityOracleGovernance"
      (s.activityOracleGovernance.map fun entries => .arr (entries.map oracleEntryJson)) ++
    [("chainId", .str s.chainId), ("genesisHash", .str s.genesisHash), ("height", .num s.height),
      ("protocolSchedule", .arr (s.protocolSchedule.map protocolEntryJson)),
      ("state", s.state.toJson), ("tip", s.tip.toJson),
      ("validatorSchedule", .arr (s.validatorSchedule.map validatorEntryJson)),
      ("version", .num s.version)])

end ChainSnapshot

section

variable [Crypto]

/-- The anchor that a node keeps of a snapshot of its own. -/
def ChainSnapshot.anchor (s : ChainSnapshot) : TrustedAnchor :=
  ⟨s.tip.hash, sha256Hex (canonicalText s.toJson)⟩

/-- The snapshot of a chain with a ledger. -/
def Chain.snapshotWith (c : Chain) (ledger : LedgerSnapshot) : ChainSnapshot where
  chainId := c.genesis.chainId
  genesisHash := c.genesisHash
  height := c.height
  tip := c.tip
  state := ledger
  validatorSchedule := c.governance.validatorSchedule.entries
  protocolSchedule := c.governance.protocolSchedule.entries
  activityOracleGovernance := if c.governance.activityOracleGovernance.entries = [] then none
    else some c.governance.activityOracleGovernance.entries

def Chain.snapshot (c : Chain) : Except String ChainSnapshot := do
  let ledger ← match c.state with
    | some state => .ok state.snapshot
    | none => c.stateV2PortableView.map StateV2PortableView.ledger
  .ok (c.snapshotWith ledger)

/-! ### The schedules of a snapshot -/

def invalidValidatorSchedule : String := "Invalid checkpoint validator schedule"

/-- The checks of a validator before the lookups in the sets of keys and addresses. -/
def validateCheckpointValidator (v : Validator) : Except String Unit := do
  assertAddress v.address
  assertHex v.publicKey 64 "checkpoint validator public key"
  throwIf (addressFromPublicKey v.publicKey ≠ v.address) "Invalid checkpoint validator"

/-- The loop of `validateValidatorSchedule`. -/
def checkValidatorSchedule (minimumValidators : Nat) :
    Int → List (Int × List Validator) → Except String Unit
  | _, [] => .ok ()
  | previousHeight, (height, validators) :: rest => do
    throwIf (¬ IsSafeInteger height ∨ height ≤ previousHeight) invalidValidatorSchedule
    throwIf (validators.length < minimumValidators ∨ validators.length > maxValidatorCount)
      (setSizeMessage minimumValidators invalidValidatorSchedule)
    forValidators validateCheckpointValidator
      (fun v => assertValidPublicKey v.publicKey "Checkpoint validator public key") validators [] []
    checkValidatorSchedule minimumValidators height rest

def validateValidatorSchedule (entries : List (Int × List Validator))
    (genesisValidators : List Validator) (minimumValidators : Nat) :
    Except String (SortedMap (fun a b : Int => a < b) (List Validator)) := do
  throwIf (entries.length < 1) invalidValidatorSchedule
  checkValidatorSchedule minimumValidators (-1) entries
  let schedule := SortedMap.ofEntries entries
  throwIf (schedule.get 0 ≠ some genesisValidators)
    "Checkpoint validator schedule does not start at genesis"
  .ok schedule

omit [Crypto] in
/-- The loop of `validateProtocolSchedule`. -/
def checkProtocolSchedule : Int → Int → List (Int × Int) → Except String Unit
  | _, _, [] => .ok ()
  | previousHeight, previousVersion, (height, version) :: rest => do
    throwIf (¬ IsSafeInteger height ∨ height ≤ previousHeight ∨ ¬ IsSafeInteger version ∨
      version < 1 ∨ version > 65535) "Invalid checkpoint protocol schedule"
    assertNoProtocolDowngradeFromV6 previousVersion version
      "Invalid checkpoint protocol schedule: downgrade from protocol v6"
    checkProtocolSchedule height version rest

omit [Crypto] in
def validateProtocolSchedule (entries : List (Int × Int)) :
    Except String (SortedMap (fun a b : Int => a < b) Int) := do
  throwIf (entries.length < 1) "Invalid checkpoint protocol schedule"
  checkProtocolSchedule (-1) 0 entries
  let schedule := SortedMap.ofEntries entries
  throwIf (schedule.get 0 ≠ some 1) "Checkpoint protocol schedule does not start at genesis"
  .ok schedule

def invalidOracleSchedule : String := "Invalid activity oracle governance schedule"

/-- The keys and the action of an oracle entry, after the entries before. -/
def checkOracleEntry (registered : List String) (control : ActivityOracleControl)
    (entry : OracleControl) : Except String Unit := do
  forEach (fun key => assertHex key 64 "activity oracle governance publicKey") entry.publicKeys
  match entry.action with
  | .pause => throwIf (control.paused = true ∨ entry.publicKeys.length ≠ 0) invalidOracleSchedule
  | .resume => throwIf (¬ control.paused = true ∨ entry.publicKeys.length ≠ 0) invalidOracleSchedule
  | .revoke =>
    activityOracleGovernancePublicKeysValid .revoke entry.publicKeys registered control.revoked

/-- The loop of `validateActivityOracleGovernanceSchedule`. -/
def checkOracleSchedule (registered : List String) :
    Int → ActivityOracleControl → List (Int × OracleControl) → Except String Unit
  | _, _, [] => .ok ()
  | previousHeight, control, (height, entry) :: rest => do
    throwIf (¬ IsSafeInteger height ∨ height ≤ previousHeight ∨ height < 1) invalidOracleSchedule
    checkOracleEntry registered control entry
    checkOracleSchedule registered height (control.advance entry) rest

def validateActivityOracleGovernanceSchedule (entries : List (Int × OracleControl))
    (g : GenesisConfig) : Except String (SortedMap (fun a b : Int => a < b) OracleControl) := do
  throwIf (entries.length = 0) invalidOracleSchedule
  checkOracleSchedule g.activityOracles 0 .initial entries
  .ok (SortedMap.ofEntries entries)

/-! ### The constructor -/

def validateBlockShape (block : Block) : Except String Unit := do
  validateBlockStructure block
  validateBlockTransactions block

/-- The tip against the anchor and its own body. -/
def checkCheckpointTip (s : ChainSnapshot) (anchor : TrustedAnchor) : Except String Unit := do
  validateBlockShape s.tip
  throwIf (s.tip.header.chainId ≠ s.chainId ∨ s.tip.header.height ≠ s.height ∨
    s.tip.hash ≠ anchor.tipHash ∨ blockHash s.tip.header ≠ s.tip.hash)
    "Trusted checkpoint tip mismatch"
  throwIf (s.tip.header.transactionRoot ≠ merkleRoot (s.tip.transactions.map Transaction.toJson))
    "Trusted checkpoint tip transaction root mismatch"
  forDistinct Transaction.txid "Trusted checkpoint tip contains a duplicate transaction"
    (fun _ => .ok ()) (fun _ => .ok ()) [] s.tip.transactions

def checkpointGovernance (g : GenesisConfig) (s : ChainSnapshot) : Except String Governance := do
  let validatorSchedule ←
    validateValidatorSchedule s.validatorSchedule g.validators g.minimumValidatorCount
  let protocolSchedule ← validateProtocolSchedule s.protocolSchedule
  let activityOracleGovernance ← match s.activityOracleGovernance with
    | none => .ok .empty
    | some entries => validateActivityOracleGovernanceSchedule entries g
  .ok ⟨validatorSchedule, protocolSchedule, activityOracleGovernance⟩

/-- The authenticated state of a snapshot, if its protocol version keeps one. -/
def checkpointSparse (protocolVersion : Int) (state : LedgerState) (governance : Governance) :
    Except String (Option SparseMerkleState) :=
  if protocolUsesStateV2 protocolVersion then
    (stateV2FromLedgerSnapshot state.snapshot governance.snapshot).map some
  else .ok none

/-- The root of the state of a snapshot. -/
def checkpointRoot (protocolVersion : Int) (state : LedgerState) :
    Option SparseMerkleState → Except String String
  | some sparse => .ok (if protocolVersion = 1 then state.root else sparse.root.val)
  | none =>
    if protocolVersion = 1 then .ok state.root
    else .error "Cannot read properties of undefined (reading 'root')"

def checkpointSignature : String := "Invalid checkpoint proposer signature"

/-- The proposer and the finality of a tip above the genesis. -/
def checkCheckpointFinality (tip : Block) (validators : List Validator) (protocolVersion : Int) :
    Except String Unit := do
  let expected ← expectedValidator validators tip.header.height tip.header.round
  match tip.signature with
  | none => .error checkpointSignature
  | some signature => do
    throwIf (tip.header.proposer ≠ expected.address ∨
      tip.proposerPublicKey ≠ some expected.publicKey ∨ signature = "" ∨
      ¬ verifyForProtocol protocolVersion blockProposalDomain tip.header.toJson signature
        expected.publicKey = true) checkpointSignature
    if protocolVersion = consensusV6ProtocolVersion then do
      throwIf (tip.roundCertificate.length ≠ 0)
        "Protocol v6 blocks must not carry a round skip certificate"
      validateCommitCertificate tip validators
    else do
      validateRoundCertificate tip validators
      validateAttestationQuorum tip validators

/-- The genesis block, or a block that is final under the schedules. -/
def checkCheckpointAuthority (g : GenesisConfig) (genesisBlock : Block) (governance : Governance)
    (s : ChainSnapshot) (protocolVersion : Int) : Except String Unit :=
  if s.height = 0 then do
    let tip ← canonicalJson s.tip.toJson
    let expected ← canonicalJson genesisBlock.toJson
    throwIf (tip ≠ expected) "Invalid genesis checkpoint tip"
  else do
    let validators ← governance.validatorsAt g.validators s.height
    checkCheckpointFinality s.tip validators protocolVersion

def Chain.fromTrustedSnapshot (g : GenesisConfig) (s : ChainSnapshot) (anchor : TrustedAnchor) :
    Except String Chain := do
  assertHex anchor.tipHash 32 "trusted checkpoint tip hash"
  assertHex anchor.snapshotSha256 32 "trusted checkpoint snapshot digest"
  let text ← canonicalJson s.toJson
  throwIf (sha256Hex text ≠ anchor.snapshotSha256) "Trusted checkpoint snapshot digest mismatch"
  let c ← create g
  throwIf (s.chainId ≠ g.chainId ∨ s.genesisHash ≠ c.genesisHash)
    "Trusted checkpoint chain identity mismatch"
  throwIf (¬ IsSafeInteger s.height ∨ s.height < 0) "Invalid checkpoint height"
  checkCheckpointTip s anchor
  let governance ← checkpointGovernance g s
  let state ← LedgerState.fromSnapshot s.state
  let protocolVersion ← governance.protocolVersionAt s.height
  assertSupportedProtocolVersion protocolVersion
  throwIf (¬ (s.tip.header.version = consensusV6ProtocolVersion ↔
    protocolVersion = consensusV6ProtocolVersion))
    "Trusted checkpoint tip protocol version mismatch"
  let sparse ← checkpointSparse protocolVersion state governance
  let stateRoot ← checkpointRoot protocolVersion state sparse
  throwIf (s.tip.header.stateRoot ≠ stateRoot) "Trusted checkpoint state root mismatch"
  checkCheckpointAuthority g c.genesisBlock governance s protocolVersion
  .ok
    { c with
      tip := s.tip
      height := s.height
      governance := governance
      state := if protocolUsesStateV2 protocolVersion then none else some state
      stateV2 := sparse
      stateV2SemanticKeys := sparse.map fun _ =>
        addKeys .empty (stateV2KeyPreimages state.snapshot governance.snapshot) }

/-- What acceptance of a snapshot means: the ledger, the protocol version and the authenticated state
that are read, and the chain. -/
structure Chain.Restores (g : GenesisConfig) (s : ChainSnapshot) (anchor : TrustedAnchor)
    (c₀ : Chain) (state : LedgerState) (protocolVersion : Int) (stateV2 : Option SparseMerkleState)
    (c : Chain) : Prop where
  tipHash : IsHex 32 anchor.tipHash
  digest : IsHex 32 anchor.snapshotSha256
  canonical : Canonical 0 s.toJson
  digest_eq : sha256Hex (canonicalText s.toJson) = anchor.snapshotSha256
  start : create g = .ok c₀
  identity : s.chainId = g.chainId ∧ s.genesisHash = c₀.genesisHash
  height : IsSafeInteger s.height ∧ 0 ≤ s.height
  tip : checkCheckpointTip s anchor = .ok ()
  governance : checkpointGovernance g s = .ok c.governance
  ledger : LedgerState.fromSnapshot s.state = .ok state
  version : c.governance.protocolVersionAt s.height = .ok protocolVersion
  supported : assertSupportedProtocolVersion protocolVersion = .ok ()
  tipVersion : s.tip.header.version = consensusV6ProtocolVersion ↔
    protocolVersion = consensusV6ProtocolVersion
  sparse : checkpointSparse protocolVersion state c.governance = .ok stateV2
  root : checkpointRoot protocolVersion state stateV2 = .ok s.tip.header.stateRoot
  authority : checkCheckpointAuthority g c₀.genesisBlock c.governance s protocolVersion = .ok ()
  restored : c = { c₀ with
    tip := s.tip
    height := s.height
    governance := c.governance
    state := if protocolUsesStateV2 protocolVersion then none else some state
    stateV2 := stateV2
    stateV2SemanticKeys := stateV2.map fun _ =>
      addKeys .empty (stateV2KeyPreimages state.snapshot c.governance.snapshot) }

theorem Chain.fromTrustedSnapshot_eq_ok {g : GenesisConfig} {s : ChainSnapshot}
    {anchor : TrustedAnchor} {c : Chain} :
    fromTrustedSnapshot g s anchor = .ok c ↔
      ∃ c₀ state protocolVersion stateV2,
        Restores g s anchor c₀ state protocolVersion stateV2 c := by
  simp only [fromTrustedSnapshot, bind_eq_ok, Except.ok.injEq]
  constructor
  · rintro ⟨_, htipHash, _, hdigest, text, htext, _, hdigest_eq, c₀, hstart, _, hidentity, _,
      hheight, _, htip, governance, hgovernance, state, hstate, version, hversion, _, hsupported, _,
      htipVersion, sparse, hsparse, root, hroot, _, hroot_eq, _, hauthority, rfl⟩
    obtain ⟨hcanonical, rfl⟩ := canonicalJson_eq_ok_iff.mp htext
    rw [throwIf_eq_ok, not_not] at hdigest_eq htipVersion hroot_eq
    rw [throwIf_eq_ok, not_or, not_not, not_not] at hidentity
    rw [throwIf_eq_ok, not_or, not_not, not_lt] at hheight
    exact ⟨c₀, state, version, sparse, assertHex_eq_ok.mp htipHash, assertHex_eq_ok.mp hdigest,
      hcanonical, hdigest_eq, hstart, hidentity, hheight, htip, hgovernance, hstate, hversion,
      hsupported, htipVersion, hsparse, hroot_eq ▸ hroot, hauthority, rfl⟩
  · rintro ⟨c₀, state, version, sparse, h⟩
    refine ⟨(), assertHex_eq_ok.mpr h.tipHash, (), assertHex_eq_ok.mpr h.digest, _,
      canonicalJson_eq_ok_iff.mpr ⟨h.canonical, rfl⟩, (), throwIf_of_not (not_not.mpr h.digest_eq), c₀,
      h.start, (), throwIf_of_not ?_, (), throwIf_of_not ?_, (), h.tip, _, h.governance, state,
      h.ledger, version, h.version, (), h.supported, (), throwIf_of_not (not_not.mpr h.tipVersion),
      sparse, h.sparse, _, h.root, (), throwIf_of_not (not_not.mpr rfl), (), h.authority,
      h.restored.symm⟩
    · rw [not_or, not_not, not_not]
      exact h.identity
    · rw [not_or, not_not, not_lt]
      exact h.height

/-! ### The digest of a snapshot -/

omit [Crypto] in
private theorem canonical_of_depth {d d' : Nat} (v : Json) (h : Canonical d v)
    (hdepth : v.depth + d' ≤ maxCanonicalJsonDepth + 1) : Canonical d' v := by
  match v, h, hdepth with
  | .null, _, _ | .bool _, _, _ | .str _, _, _ => trivial
  | .num _, h, _ => exact h
  | .arr items, h, hdepth =>
    rw [Json.depth] at hdepth
    have hitems : ∀ item ∈ items, Canonical (d' + 1) item := fun item hitem =>
      canonical_of_depth item ((canonicalItems_iff _ _).mp h.2 item hitem) (by
        have := depthItems_le.mp (le_refl (Json.depthItems items)) item hitem
        omega)
    exact ⟨by omega, (canonicalItems_iff _ _).mpr hitems⟩
  | .obj members, h, hdepth =>
    rw [Json.depth] at hdepth
    have hmembers : ∀ m ∈ members, Canonical (d' + 1) m.2 := fun m hm =>
      canonical_of_depth m.2 ((canonicalMembers_iff _ _).mp h.2 m hm) (by
        have := depthMembers_le.mp (le_refl (Json.depthMembers members)) m hm
        omega)
    exact ⟨by omega, (canonicalMembers_iff _ _).mpr hmembers⟩
termination_by sizeOf v
decreasing_by
  · have := sizeOf_lt_of_mem hitem
    simp only [Json.arr.sizeOf_spec]
    omega
  · have := sizeOf_lt_of_mem hm
    have hpair : sizeOf m.2 < sizeOf m := by cases m; simp
    simp only [Json.obj.sizeOf_spec]
    omega

omit [Crypto] in
private theorem depth_transaction (tx : Transaction) : tx.toJson.depth ≤ 3 := by
  have hvotes : ∀ votes : List Vote, (Json.arr (votes.map Vote.toJson)).depth ≤ 2 := fun _ =>
    depth_arr_map_le fun _ => le_refl 1
  have hvalidators : ∀ vs : List Validator, (Json.arr (vs.map Validator.toJson)).depth ≤ 2 := fun _ =>
    depth_arr_map_le fun _ => le_refl 1
  have hproofs : ∀ ps : List ValidatorPossessionProof,
      (Json.arr (ps.map ValidatorPossessionProof.toJson)).depth ≤ 2 := fun _ =>
    depth_arr_map_le fun _ => le_refl 1
  have hentries : ∀ es : List ActivityEntry, (Json.arr (es.map ActivityEntry.toJson)).depth ≤ 2 :=
    fun _ => depth_arr_map_le fun _ => le_refl 1
  have happrovals : ∀ as : List ActivityOracleApproval,
      (Json.arr (as.map ActivityOracleApproval.toJson)).depth ≤ 2 := fun _ =>
    depth_arr_map_le fun _ => le_refl 1
  have hkeys : ∀ keys : List String, (Json.arr (keys.map .str)).depth ≤ 2 := fun _ =>
    depth_arr_map_le fun _ => Nat.zero_le 1
  rw [Transaction.toJson, depth_obj_le, Transaction.members]
  cases tx.body with
  | transfer => simp
  | activitySettlement _ _ _ approvals expires =>
    cases approvals <;> cases expires <;> simp [optionalMember, hentries, happrovals]
  | miningClaim => simp
  | validatorUpdate _ _ _ proofs =>
    cases proofs <;> simp [optionalMember, hvotes, hvalidators, hproofs]
  | activityOracleGovernance => simp [hvotes, hkeys]
  | protocolUpgrade => simp [hvotes]

omit [Crypto] in
private theorem depth_block (block : Block) : block.toJson.depth ≤ 5 := by
  have hvotes : (Json.arr (block.attestations.map Vote.toJson)).depth ≤ 4 :=
    depth_arr_map_le fun _ => (by decide : 1 ≤ 3)
  have hskips : (Json.arr (block.roundCertificate.map RoundSkipVote.toJson)).depth ≤ 4 :=
    depth_arr_map_le fun _ => (by decide : 1 ≤ 3)
  have htransactions : (Json.arr (block.transactions.map Transaction.toJson)).depth ≤ 4 :=
    depth_arr_map_le depth_transaction
  have hheader : block.header.toJson.depth ≤ 4 := (by decide : 1 ≤ 4)
  have hnullable : ∀ s, (nullable s).depth = 0 := fun s => by cases s <;> simp [nullable]
  rw [Block.toJson, depth_obj_le, Block.commitRoundJson]
  rcases block.commitRound with _ | _ | round <;>
    simp [optionalMember, hvotes, hskips, htransactions, hheader, hnullable]

/-! ### The schedules of a chain pass -/

variable {previous : Int} {control : ActivityOracleControl} {G : Governance}

theorem checkValidatorSchedule_eq_ok {minimum : Nat} {entries : List (Int × List Validator)} :
    checkValidatorSchedule minimum previous entries = .ok () ↔
      entries.Pairwise (fun a b => a.1 < b.1) ∧ ∀ e ∈ entries, previous < e.1 ∧ IsSafeInteger e.1 ∧
        minimum ≤ e.2.length ∧ e.2.length ≤ maxValidatorCount ∧ ValidatorsWellFormed e.2 := by
  have hset : ∀ vs, forValidators validateCheckpointValidator
      (fun v => assertValidPublicKey v.publicKey "Checkpoint validator public key") vs [] [] =
        .ok () ↔ ValidatorsWellFormed vs := fun vs => by
    refine validatorsWellFormed_iff fun v => ?_
    rw [validateCheckpointValidator]
    simp only [unit_bind_eq_ok, assertAddress_eq_ok, assertHex_eq_ok, throwIf_eq_ok,
      assertValidPublicKey_eq_ok, ne_eq, not_not, and_assoc]
  induction entries generalizing previous with
  | nil => simp [checkValidatorSchedule]
  | cons e entries ih =>
    obtain ⟨height, validators⟩ := e
    simp only [checkValidatorSchedule, unit_bind_eq_ok, throwIf_eq_ok, hset, ih, not_or, not_not,
      not_le, not_lt, gt_iff_lt, pairwise_cons, forall_mem_cons]
    constructor
    · rintro ⟨⟨hsafe, hlt⟩, hsize, hwf, hsorted, hall⟩
      exact ⟨⟨fun e he => (hall e he).1, hsorted⟩, ⟨hlt, hsafe, hsize.1, hsize.2, hwf⟩,
        fun e he => ⟨lt_trans hlt (hall e he).1, (hall e he).2⟩⟩
    · rintro ⟨⟨hlt, hsorted⟩, ⟨hprevious, hsafe, hmin, hmax, hwf⟩, hall⟩
      exact ⟨⟨hsafe, hprevious⟩, ⟨hmin, hmax⟩, hwf, hsorted, fun e he => ⟨hlt e he, (hall e he).2⟩⟩

omit [Crypto] in
theorem checkProtocolSchedule_eq_ok {version : Int} {entries : List (Int × Int)} :
    checkProtocolSchedule previous version entries = .ok () ↔
      entries.Pairwise (fun a b => a.1 < b.1 ∧ (consensusV6ProtocolVersion ≤ a.2 → a.2 ≤ b.2)) ∧
        ∀ e ∈ entries, (previous < e.1 ∧ (consensusV6ProtocolVersion ≤ version → version ≤ e.2)) ∧
          IsSafeInteger e.1 ∧ IsSafeInteger e.2 ∧ 1 ≤ e.2 ∧ e.2 ≤ 65535 := by
  induction entries generalizing previous version with
  | nil => simp [checkProtocolSchedule]
  | cons e entries ih =>
    obtain ⟨height, next⟩ := e
    simp only [checkProtocolSchedule, assertNoProtocolDowngradeFromV6, unit_bind_eq_ok,
      throwIf_eq_ok, ih, not_or, not_not, not_le, not_lt, gt_iff_lt, ge_iff_le, not_and,
      pairwise_cons, forall_mem_cons]
    constructor
    · rintro ⟨⟨hsafe, hlt, hversion, hpos, hmax⟩, hup, hsorted, hall⟩
      refine ⟨⟨fun e he => (hall e he).1, hsorted⟩, ⟨⟨hlt, hup⟩, hsafe, hversion, hpos, hmax⟩,
        fun e he => ⟨⟨lt_trans hlt (hall e he).1.1, fun h => ?_⟩, (hall e he).2⟩⟩
      exact le_trans (hup h) ((hall e he).1.2 (le_trans h (hup h)))
    · rintro ⟨⟨hlt, hsorted⟩, ⟨⟨hprevious, hup⟩, hsafe, hversion, hpos, hmax⟩, hall⟩
      exact ⟨⟨hsafe, hprevious, hversion, hpos, hmax⟩, hup, hsorted,
        fun e he => ⟨hlt e he, (hall e he).2⟩⟩

theorem checkOracleEntry_eq_ok {registered : List String} {entry : OracleControl}
    (hfits : OracleEntryFits registered control entry)
    (hkeys : ∀ key ∈ entry.publicKeys, isValidPublicKey key = true) :
    checkOracleEntry registered control entry = .ok () := by
  have hhex : forEach (fun key => assertHex key 64 "activity oracle governance publicKey")
      entry.publicKeys = .ok () :=
    forEach_eq_ok.mpr fun key hkey => assertHex_eq_ok.mpr (isHex_of_isValidPublicKey (hkeys key hkey))
  rw [checkOracleEntry, hhex, ok_bind]
  rw [OracleEntryFits] at hfits
  cases haction : entry.action with
  | pause =>
    rw [haction] at hfits
    exact throwIf_of_not (by simp [hfits.1, hfits.2])
  | resume =>
    rw [haction] at hfits
    exact throwIf_of_not (by simp [hfits.1, hfits.2])
  | revoke =>
    rw [haction] at hfits
    obtain ⟨hne, hlength, hnodup, hall⟩ := hfits
    refine activityOracleGovernancePublicKeysValid_eq_ok.mpr ⟨fun _ => ⟨hne, hlength, hnodup,
      fun key hkey => ⟨(hall key hkey).1, (hall key hkey).2, hkeys key hkey⟩⟩, fun h => absurd rfl h⟩

theorem checkOracleSchedule_eq_ok {registered : List String} {entries : List (Int × OracleControl)}
    (hsorted : entries.Pairwise fun a b => a.1 < b.1)
    (hall : ∀ e ∈ entries, previous < e.1 ∧ (IsSafeInteger e.1 ∧ 1 ≤ e.1) ∧ ∀ key ∈ e.2.publicKeys,
      isValidPublicKey key = true)
    (hfits : ∀ before e after, entries = before ++ e :: after → OracleEntryFits registered
      (before.foldl (fun control entry => control.advance entry.2) control) e.2) :
    checkOracleSchedule registered previous control entries = .ok () := by
  induction entries generalizing previous control with
  | nil => rfl
  | cons e entries ih =>
    obtain ⟨height, entry⟩ := e
    rw [pairwise_cons] at hsorted
    rw [forall_mem_cons] at hall
    obtain ⟨⟨hlt, ⟨hsafe, hpos⟩, hkeys⟩, hall⟩ := hall
    rw [checkOracleSchedule]
    refine unit_bind_eq_ok.mpr ⟨throwIf_of_not ?_, unit_bind_eq_ok.mpr
      ⟨checkOracleEntry_eq_ok (hfits [] _ entries rfl) hkeys, ?_⟩⟩
    · rw [not_or, not_or, not_not, not_le, not_lt]
      exact ⟨hsafe, hlt, hpos⟩
    · refine ih hsorted.2 (fun e he => ⟨hsorted.1 e he, (hall e he).2⟩) fun before e after heq => ?_
      exact hfits ((height, entry) :: before) e after (by rw [heq, cons_append])

theorem validateValidatorSchedule_eq_ok {g : GenesisConfig} (h : G.WellFormed g) :
    validateValidatorSchedule G.validatorSchedule.entries g.validators g.minimumValidatorCount =
      .ok G.validatorSchedule := by
  obtain ⟨rest, hrest⟩ := h.validators_start
  have hget : G.validatorSchedule.get 0 = some g.validators :=
    get_eq_some_iff.mpr (hrest ▸ mem_cons_self)
  have hcheck : checkValidatorSchedule g.minimumValidatorCount (-1) G.validatorSchedule.entries =
      .ok () := checkValidatorSchedule_eq_ok.mpr ⟨G.validatorSchedule.sorted, fun e he => by
    obtain ⟨⟨hsafe, hpos⟩, hset⟩ := h.validators e he
    exact ⟨by omega, hsafe, hset⟩⟩
  rw [validateValidatorSchedule, throwIf_of_not (by simp [hrest]), ok_bind, hcheck, ok_bind,
    ofEntries_entries]
  exact throwIf_bind_eq_ok.mpr ⟨not_not.mpr hget, rfl⟩

omit [Crypto] in
theorem validateProtocolSchedule_eq_ok [Crypto] {g : GenesisConfig} (h : G.WellFormed g) :
    validateProtocolSchedule G.protocolSchedule.entries = .ok G.protocolSchedule := by
  obtain ⟨rest, hrest⟩ := h.protocol_start
  have hget : G.protocolSchedule.get 0 = some 1 := get_eq_some_iff.mpr (hrest ▸ mem_cons_self)
  have hcheck : checkProtocolSchedule (-1) 0 G.protocolSchedule.entries = .ok () := by
    refine checkProtocolSchedule_eq_ok.mpr
      ⟨G.protocolSchedule.sorted.and h.no_downgrade, fun e he => ?_⟩
    obtain ⟨⟨hsafe, hpos⟩, hversion⟩ := h.protocol e he
    exact ⟨⟨by omega, fun hv6 => absurd hv6 (by decide)⟩, hsafe, hversion⟩
  rw [validateProtocolSchedule, throwIf_of_not (by simp [hrest]), ok_bind, hcheck, ok_bind,
    ofEntries_entries]
  exact throwIf_bind_eq_ok.mpr ⟨not_not.mpr hget, rfl⟩

theorem validateActivityOracleGovernanceSchedule_eq_ok {g : GenesisConfig} (h : G.WellFormed g)
    (hne : G.activityOracleGovernance.entries ≠ []) :
    validateActivityOracleGovernanceSchedule G.activityOracleGovernance.entries g =
      .ok G.activityOracleGovernance := by
  have hcheck : checkOracleSchedule g.activityOracles 0 .initial
      G.activityOracleGovernance.entries = .ok () := by
    refine checkOracleSchedule_eq_ok G.activityOracleGovernance.sorted (fun e he => ?_) h.oracles
    obtain ⟨⟨hsafe, hpos⟩, hkeys⟩ := h.oracle_entries e he
    exact ⟨by omega, ⟨hsafe, hpos⟩, hkeys⟩
  rw [validateActivityOracleGovernanceSchedule,
    throwIf_of_not (by rwa [length_eq_zero_iff]), ok_bind, hcheck, ok_bind,
    ofEntries_entries]

theorem checkpointGovernance_eq_ok {g : GenesisConfig} {c : Chain} (h : c.governance.WellFormed g)
    (ledger : LedgerSnapshot) :
    checkpointGovernance g (c.snapshotWith ledger) = .ok c.governance := by
  rw [checkpointGovernance, Chain.snapshotWith, validateValidatorSchedule_eq_ok h, ok_bind,
    validateProtocolSchedule_eq_ok h, ok_bind]
  by_cases hempty : c.governance.activityOracleGovernance.entries = []
  · have hmap : c.governance.activityOracleGovernance = .empty := ext_entries hempty
    rw [if_pos hempty]
    change Except.ok (⟨_, _, .empty⟩ : Governance) = _
    rw [← hmap]
  · rw [if_neg hempty]
    dsimp only
    rw [validateActivityOracleGovernanceSchedule_eq_ok h hempty, ok_bind]

/-! ### The tip of a chain -/

/-- What the tip of a chain satisfies. -/
structure Chain.Anchored (g : GenesisConfig) (c : Chain) : Prop where
  genesisBlock : ∃ L, LedgerState.fromGenesis g = .ok L ∧
    c.genesisBlock = createGenesisBlock g L.root
  chainId : c.tip.header.chainId = g.chainId
  height : c.tip.header.height = c.height
  shape : validateBlockShape c.tip = .ok ()
  hash : c.tip.hash = blockHash c.tip.header
  transactionRoot : c.tip.header.transactionRoot =
    merkleRoot (c.tip.transactions.map Transaction.toJson)
  txids : (c.tip.transactions.map Transaction.txid).Nodup
  state : ∃ version, c.protocolVersionAt c.height = .ok version ∧
    assertSupportedProtocolVersion version = .ok () ∧ c.tip.header.version = version ∧
    stateRootForProtocol version ⟨c.state, c.stateV2⟩ = .ok c.tip.header.stateRoot
  authority : (c.height = 0 ∧ c.tip = c.genesisBlock) ∨
    (c.height ≠ 0 ∧ ∃ validators, c.validatorsAt c.height = .ok validators ∧
      validateProposer c.tip validators true = .ok () ∧
      validateCertificates c.tip validators true = .ok ())

theorem isHex_root (L : LedgerState) : IsHex 32 L.root :=
  isHex_iff_isHash64.mpr (Crypto.sha256_hex _)

theorem Chain.anchored_create {g : GenesisConfig} {c : Chain} (h : create g = .ok c) :
    c.Anchored g := by
  obtain ⟨hg, L, hL, rfl⟩ := create_eq_ok h
  exact
    { genesisBlock := ⟨L, hL, rfl⟩
      chainId := rfl
      height := rfl
      shape := unit_bind_eq_ok.mpr
        ⟨validateBlockStructure_genesis (validateGenesis_eq_ok hg) (isHex_root L), rfl⟩
      hash := rfl
      transactionRoot := rfl
      txids := nodup_nil
      state := ⟨1, rfl, rfl, rfl, rfl⟩
      authority := .inl ⟨rfl, rfl⟩ }

theorem Chain.Anchored.acceptBlock {g : GenesisConfig} {c c' : Chain} (h : c.Anchored g)
    {block : Block} {nowMs : Int} (hgenesis : c.genesis = g)
    (haccept : c.acceptBlock block nowMs = .ok c') : c'.Anchored g := by
  obtain ⟨next, hnext, hcases⟩ := Chain.acceptBlock_eq_ok haccept
  obtain ⟨context, start, hreplays⟩ := Chain.validateFinalizedTransition_eq_ok.mp hnext
  obtain ⟨-, hgenesis', hgenesisBlock, htip, hheight, -⟩ := replays_of_acceptBlock haccept
  have hgates := hreplays.gates
  have henvelope := hreplays.envelope
  rw [validateBlockEnvelope, validateBlockEnvelopeGates, validateHeaderChain] at henvelope
  simp only [unit_bind_eq_ok, throwIf_eq_ok, ne_eq, not_not] at henvelope
  obtain ⟨⟨-, hstructure, -, ⟨-, -, -, -, -, -, -, -, -, htransactionRoot, hhash, -⟩, hproposer,
    hcertificates⟩, htransactions⟩ := henvelope
  -- what the block schedules takes effect later
  obtain ⟨hvalidators, hversion, -⟩ := (appends_of_acceptBlock haccept).stable
    (by rw [minUpdateDelay]; omega : block.header.height < block.header.height + minUpdateDelay)
    g.validators
  have hversion' : c'.protocolVersionAt c'.height = .ok context.protocolVersion := by
    rw [hheight, Chain.protocolVersionAt, hversion]
    exact hreplays.starts.version
  refine
    { genesisBlock := hgenesisBlock ▸ h.genesisBlock
      chainId := by rw [htip, hgates.chainId_eq, h.chainId]
      height := by rw [htip, hheight]
      shape := by rw [htip]; exact unit_bind_eq_ok.mpr ⟨hstructure, htransactions⟩
      hash := by rw [htip]; exact hhash
      transactionRoot := by rw [htip]; exact htransactionRoot
      txids := by rw [htip]; exact (hreplays.checked.nodup_txids).1
      state := ⟨_, hversion', hreplays.supported, by rw [htip]; exact hgates.version_eq, ?_⟩
      authority := .inr ⟨?_, context.currentValidators, ?_, by rw [htip]; exact hproposer,
        by rw [htip]; exact hcertificates⟩ }
  · rw [htip, ← hreplays.root]
    rcases hcases with ⟨hone, rfl⟩ | ⟨hne, keys, -, rfl⟩
    · rw [stateRootForProtocol, stateRootForProtocol, ← hgates.version_eq, hone]
      rfl
    · have hne1 : context.protocolVersion ≠ 1 := hgates.version_eq ▸ hne
      rw [stateRootForProtocol, stateRootForProtocol, if_neg hne1, if_neg hne1]
  · have hpos := (height_of_validateBlockStructure (unit_bind_eq_ok.mp h.shape).1).2
    rw [hheight, hgates.height_eq]
    omega
  · rw [hheight, Chain.validatorsAt, hgenesis', hgenesis, hvalidators, ← hgenesis]
    exact hreplays.starts.validators

/-! ### Reading a snapshot back -/

omit [Crypto] in
private theorem canonicalItems_map_of_mem {α : Type} {f : α → Json} {depth : Nat} {xs : List α}
    (h : ∀ x ∈ xs, Canonical depth (f x)) : CanonicalItems depth (xs.map f) :=
  (canonicalItems_iff _ _).mpr (forall_mem_map.mpr h)

omit [Crypto] in
private theorem canonical_ledgerSnapshot {L : LedgerState} (h : L.Valid) :
    Canonical 1 L.snapshot.toJson := by
  refine ⟨by decide, ⟨by decide, canonicalItems_map_of_mem fun e he => ?_⟩,
    ⟨by decide, canonicalItems_map_of_mem fun epoch hepoch => (h.epochs epoch hepoch).1⟩, trivial⟩
  have haccount := LedgerState.account_of_mem he
  have hbalance : IsSafeInteger e.2.balanceAtoms := by
    rw [← haccount]
    exact isSafeInteger_of_le (h.balance e.1) (h.balance_le e.1)
  have hnonce : IsSafeInteger e.2.nonce := by
    rw [← haccount]
    exact (h.nonce e.1).1
  exact ⟨by decide, trivial, hbalance, hnonce, trivial⟩

namespace Chain

variable {g : GenesisConfig} {c₀ c : Chain} {L : LedgerState} {K : List SemanticKey}

theorem canonical_snapshot (hanchored : c.Anchored g) (hG : c.governance.WellFormed g)
    (hL : L.Valid) : Canonical 0 (c.snapshotWith L.snapshot).toJson := by
  have hstructure := (unit_bind_eq_ok.mp hanchored.shape).1
  have hheight : IsSafeInteger c.height := by
    rw [← hanchored.height]
    exact (height_of_validateBlockStructure hstructure).1
  have htip : Canonical 1 c.tip.toJson := by
    rw [validateBlockStructure] at hstructure
    simp only [unit_bind_eq_ok, assertBlockBytes_eq_ok] at hstructure
    have hdepth := depth_block c.tip
    exact canonical_of_depth _ hstructure.2.2.2.2.2.1.1 (by rw [maxCanonicalJsonDepth]; omega)
  have hvalidators : CanonicalItems 2
      (c.governance.validatorSchedule.entries.map validatorEntryJson) := by
    refine canonicalItems_map_of_mem fun e he => ⟨by decide, (hG.validators e he).1.1, ?_, trivial⟩
    exact ⟨by decide, canonicalItems_map_of_mem fun v _ => ⟨by decide, trivial, trivial, trivial⟩⟩
  have hprotocol : CanonicalItems 2
      (c.governance.protocolSchedule.entries.map protocolEntryJson) :=
    canonicalItems_map_of_mem fun e he =>
      ⟨by decide, (hG.protocol e he).1.1, (hG.protocol e he).2.1, trivial⟩
  have hversion : IsSafeInteger (c.snapshotWith L.snapshot).version := by
    rw [ChainSnapshot.version]
    split <;> decide
  have horacles : ∀ m ∈ optionalMember "activityOracleGovernance"
      ((c.snapshotWith L.snapshot).activityOracleGovernance.map fun entries =>
        .arr (entries.map oracleEntryJson)), Canonical 1 m.2 := by
    rw [snapshotWith]
    split
    · exact fun _ hm => absurd hm not_mem_nil
    · intro m hm
      rw [mem_singleton.mp hm]
      refine ⟨by decide, canonicalItems_map_of_mem fun e he => ⟨by decide, trivial,
        (hG.oracle_entries e he).1.1, ⟨by decide, ?_⟩, trivial⟩⟩
      exact canonicalItems_map_of_mem fun _ _ => trivial
  refine ⟨by decide, (canonicalMembers_iff _ _).mpr fun m hm => ?_⟩
  rcases mem_append.mp hm with hm | hm
  · exact horacles m hm
  · refine (canonicalMembers_iff 1 _).mp ?_ m hm
    exact ⟨trivial, trivial, hheight, ⟨by decide, hprotocol⟩, canonical_ledgerSnapshot hL, htip,
      ⟨by decide, hvalidators⟩, hversion, trivial⟩

theorem snapshot_eq_ok (hK : KeysDistinct K) (h : c.Tracks K L)
    (hG : c.governance.WellFormed g) :
    c.snapshot = .ok (c.snapshotWith L.snapshot) ∨
      ∃ s, c.stateV2 = some s ∧ ByteCollision s.rootEncodings := by
  rcases h.form with hform | ⟨s, keys, hform⟩
  · rw [snapshot, hform.state]
    exact .inl rfl
  · obtain ⟨ks, hkeys, hlists⟩ := hform.indexed.exists_lists
    have hmem : ∀ k ∈ ks, k ∈ K := fun k hk => h.mem k ((hlists.mem k).mp hk)
    rcases reconstruct_of_commits hK hform.commits h.valid hG.portable hlists hmem with
      hview | hcollision
    · rw [snapshot, hform.state, hform.portableView, hkeys, hview]
      exact .inl rfl
    · exact .inr ⟨s, hform.stateV2, hcollision⟩

theorem checkCheckpointTip_eq_ok (hanchored : c.Anchored g) (hgenesis : c.genesis = g)
    (ledger : LedgerSnapshot) {anchor : TrustedAnchor} (hanchor : anchor.tipHash = c.tip.hash) :
    checkCheckpointTip (c.snapshotWith ledger) anchor = .ok () := by
  rw [checkCheckpointTip]
  refine unit_bind_eq_ok.mpr ⟨hanchored.shape, throwIf_bind_eq_ok.mpr ⟨?_,
    throwIf_bind_eq_ok.mpr ⟨not_not.mpr hanchored.transactionRoot, ?_⟩⟩⟩
  · simp only [not_or, not_not]
    exact ⟨by rw [snapshotWith, hgenesis]; exact hanchored.chainId, hanchored.height, hanchor.symm,
      hanchored.hash.symm⟩
  · exact forDistinct_eq_ok.mpr ⟨hanchored.txids, fun _ _ => not_mem_nil, fun _ _ => ⟨rfl, rfl⟩⟩

/-- A proposer that passes with its signature is the expected validator and has signed. -/
theorem signed_of_validateProposer {block : Block} {validators : List Validator}
    (h : validateProposer block validators true = .ok ()) :
    ∃ v signature, expectedValidator validators block.header.height block.header.round = .ok v ∧
      block.header.proposer = v.address ∧ block.proposerPublicKey = some v.publicKey ∧
      block.signature = some signature ∧ signature ≠ "" ∧
      verifyForProtocol block.header.version blockProposalDomain block.header.toJson signature
        v.publicKey = true := by
  unfold validateProposer at h
  split at h
  · cases h
  · next publicKey hkey =>
    simp only [unit_bind_eq_ok, throwIf_eq_ok] at h
    obtain ⟨hmissing, -, -, -, h⟩ := h
    obtain ⟨v, hv, h⟩ := bind_eq_ok.mp h
    simp only [throwIf_bind_eq_ok, not_not, if_true] at h
    obtain ⟨haddress, rfl, hsignature⟩ := h
    rw [validateProposerSignature] at hsignature
    split at hsignature
    · cases hsignature
    · next signature hsig =>
      rw [throwIf_eq_ok, not_not] at hsignature
      refine ⟨v, signature, hv, haddress, hkey, hsig, ?_, hsignature⟩
      rintro rfl
      exact hmissing (.inr ⟨trivial, .inr hsig⟩)

private theorem checkCheckpointFinality_eq_ok {tip : Block} {validators : List Validator}
    (hproposer : validateProposer tip validators true = .ok ())
    (hcertificates : validateCertificates tip validators true = .ok ()) :
    checkCheckpointFinality tip validators tip.header.version = .ok () := by
  obtain ⟨v, signature, hv, haddress, hkey, hsig, hnonempty, hsigned⟩ :=
    signed_of_validateProposer hproposer
  rw [checkCheckpointFinality, hv, ok_bind, hsig]
  refine throwIf_bind_eq_ok.mpr ⟨?_, ?_⟩
  · simp only [not_or, not_not]
    exact ⟨haddress, hkey, hnonempty, hsigned⟩
  · exact hcertificates

theorem checkCheckpointAuthority_eq_ok (hanchored : c.Anchored g) (hgenesis : c.genesis = g)
    (ledger : LedgerSnapshot) :
    checkCheckpointAuthority g c.genesisBlock c.governance (c.snapshotWith ledger)
      c.tip.header.version = .ok () := by
  have hcanonical : Canonical 0 c.tip.toJson := by
    have hstructure := (unit_bind_eq_ok.mp hanchored.shape).1
    rw [validateBlockStructure] at hstructure
    simp only [unit_bind_eq_ok, assertBlockBytes_eq_ok] at hstructure
    exact hstructure.2.2.2.2.2.1.1
  have htext := canonicalJson_eq_ok_iff.mpr ⟨hcanonical, rfl⟩
  rw [checkCheckpointAuthority, snapshotWith]
  rcases hanchored.authority with ⟨hzero, htip⟩ | ⟨hne, validators, hvalidators, hproposer, hcert⟩
  · rw [if_pos hzero, ← htip, htext, ok_bind, ok_bind]
    exact throwIf_of_not (not_not.mpr rfl)
  · rw [validatorsAt, hgenesis] at hvalidators
    rw [if_neg hne, hvalidators, ok_bind]
    exact checkCheckpointFinality_eq_ok hproposer hcert

omit [Crypto] in
private theorem eq_of_indexedBy {keys keys' : SortedSet canonicalLt} {G : Governance}
    (h : IndexedBy keys L G) (h' : IndexedBy keys' L G) : keys = keys' := by
  have hget : ∀ m : SortedSet canonicalLt, ∀ text, m.get text = some () ↔ text ∈ m.keys :=
    fun m text => by
      rw [← has_iff_mem, SortedMap.has]
      cases m.get text <;> simp
  refine ext_get fun text => Option.ext fun u => ?_
  rw [hget, hget, h text, h' text]

private theorem states_eq (hK : KeysDistinct K) (hG : c.governance.WellFormed g)
    (h : c.Tracks K L) {version : Int} (hversion : c.protocolVersionAt c.height = .ok version) :
    c.state = (if protocolUsesStateV2 version then none else some L) ∧
      checkpointSparse version L c.governance = .ok c.stateV2 ∧
      c.stateV2SemanticKeys = c.stateV2.map (fun _ =>
        addKeys .empty (stateV2KeyPreimages L.snapshot c.governance.snapshot)) ∧
      ∀ root, stateRootForProtocol version ⟨c.state, c.stateV2⟩ = .ok root →
        checkpointRoot version L c.stateV2 = .ok root := by
  rcases h.form with hform | ⟨s, keys, hform⟩
  · obtain rfl : version = 1 := Except.ok.inj (hversion.symm.trans hform.version)
    have huses : protocolUsesStateV2 1 = false := rfl
    rw [huses, hform.state, hform.stateV2, hform.semanticKeys, checkpointSparse, huses]
    exact ⟨rfl, rfl, rfl, fun root hroot => hroot⟩
  · obtain ⟨version', hversion', huses⟩ := hform.version
    obtain rfl : version = version' := Except.ok.inj (hversion.symm.trans hversion')
    have hne : version ≠ 1 := by
      rintro rfl
      cases huses
    have hsparse := stateV2FromLedgerSnapshot_of_commits hK h.valid h.mem hG hform.commits
    rw [if_pos huses, hform.state, hform.stateV2, hform.semanticKeys, checkpointSparse, if_pos huses,
      hsparse, eq_of_indexedBy hform.indexed (indexedBy_preimages L c.governance)]
    refine ⟨rfl, rfl, rfl, fun root hroot => ?_⟩
    rw [stateRootForProtocol, if_neg hne, if_pos huses] at hroot
    rw [checkpointRoot, if_neg hne]
    exact hroot

/-- A chain that tracks a ledger is read back from its snapshot. -/
theorem restores (hK : KeysDistinct K) (hcreate : create g = .ok c₀) (hgenesis : c.genesis = g)
    (hanchored : c.Anchored g) (hG : c.governance.WellFormed g) (h : c.Tracks K L) :
    fromTrustedSnapshot g (c.snapshotWith L.snapshot) (c.snapshotWith L.snapshot).anchor =
      .ok c := by
  obtain ⟨-, L₀, hL₀, hc₀⟩ := create_eq_ok hcreate
  obtain ⟨L₀', hL₀', hgenesisBlock⟩ := hanchored.genesisBlock
  obtain rfl : L₀ = L₀' := Except.ok.inj (hL₀.symm.trans hL₀')
  obtain ⟨version, hversion, hsupported, htipVersion, hroot⟩ := hanchored.state
  obtain ⟨hstate, hsparse, hkeys, hroot'⟩ := states_eq hK hG h hversion
  obtain ⟨hsafe, hpos⟩ := height_of_validateBlockStructure (unit_bind_eq_ok.mp hanchored.shape).1
  rw [hanchored.height] at hsafe hpos
  have hhash : ∀ text, IsHex 32 (sha256Hex text) := fun text =>
    isHex_iff_isHash64.mpr (Crypto.sha256_hex _)
  have hblock : c₀.genesisBlock = c.genesisBlock := by rw [hgenesisBlock, hc₀]
  have hauthority := checkCheckpointAuthority_eq_ok hanchored hgenesis L.snapshot
  rw [htipVersion, ← hblock] at hauthority
  refine fromTrustedSnapshot_eq_ok.mpr ⟨c₀, L, version, c.stateV2,
    { tipHash := by
        change IsHex 32 c.tip.hash
        rw [hanchored.hash]
        exact hhash _
      digest := hhash _
      canonical := canonical_snapshot hanchored hG h.valid
      digest_eq := rfl
      start := hcreate
      identity := by
        rw [snapshotWith, hgenesis, genesisHash, genesisHash, hblock]
        exact ⟨rfl, rfl⟩
      height := ⟨hsafe, hpos⟩
      tip := checkCheckpointTip_eq_ok hanchored hgenesis L.snapshot rfl
      governance := checkpointGovernance_eq_ok hG L.snapshot
      ledger := LedgerState.fromSnapshot_snapshot h.valid
      version := hversion
      supported := hsupported
      tipVersion := by rw [← htipVersion]; rfl
      sparse := hsparse
      root := hroot' _ hroot
      authority := hauthority
      restored := ?_ }⟩
  rw [← hstate, ← hkeys, hblock, show c₀.genesis = c.genesis by rw [hc₀, hgenesis]]
  rfl

variable {blocks : List (Block × Int)}

theorem anchored (hcreate : create g = .ok c₀) (hrun : c₀.acceptBlocks blocks = .ok c) :
    c.Anchored g := by
  have hinduction := acceptBlocks_induction
    (P := fun done c => c.Governed g done ∧ c.Anchored g)
    (fun _ _ _ _ _ hc haccept =>
      ⟨hc.1.acceptBlock haccept, hc.2.acceptBlock hc.1.genesis haccept⟩)
    ⟨governed_create hcreate, anchored_create hcreate⟩ hrun
  exact hinduction.2

/-- The snapshot of a chain that a run reaches is accepted with the genesis, and the chain that is
read back is the same, so it accepts the same blocks. -/
theorem snapshot_round_trip (hcreate : create g = .ok c₀) (hrun : c₀.acceptBlocks blocks = .ok c) :
    (∃ s, c.snapshot = .ok s ∧ fromTrustedSnapshot g s s.anchor = .ok c) ∨
      (∃ s, c.stateV2 = some s ∧ ByteCollision s.rootEncodings) ∨
      ByteCollision (SparseMerkleState.keyEncodings ((runKeys g blocks).map SemanticKey.text)) := by
  rcases keysDistinct_or_collision (runKeys g blocks) with hK | hcollision
  swap
  · exact .inr (.inr hcollision)
  obtain ⟨L, hfollows⟩ := follows hK (fun _ hk => hk) hcreate hrun
  have hG := hfollows.governed.wellFormed
  rcases snapshot_eq_ok hK hfollows.tracks hG with hsnapshot | hcollision
  · exact .inl ⟨_, hsnapshot, restores hK hcreate hfollows.governed.genesis (anchored hcreate hrun) hG
      hfollows.tracks⟩
  · exact .inr (.inl hcollision)

end Chain

end

attribute [local instance] OneValidator.oneCrypto

/-- The snapshot of `OneValidator` after its block. -/
theorem snapshot_round_trip_oneValidator :
    OneValidator.start.acceptBlocks [(OneValidator.block, 1)] = .ok OneValidator.next ∧
      ((∃ s, OneValidator.next.snapshot = .ok s ∧
          Chain.fromTrustedSnapshot OneValidator.genesis s s.anchor = .ok OneValidator.next) ∨
        ByteCollision (SparseMerkleState.keyEncodings
          ((runKeys OneValidator.genesis [(OneValidator.block, 1)]).map SemanticKey.text))) := by
  refine ⟨OneValidator.acceptBlocks_block, ?_⟩
  rcases Chain.snapshot_round_trip OneValidator.create_genesis OneValidator.acceptBlocks_block with
    h | ⟨s, hs, -⟩ | h
  · exact .inl h
  · cases hs
  · exact .inr h

end ZyronChain
