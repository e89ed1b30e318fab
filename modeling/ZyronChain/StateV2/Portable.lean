import Mathlib.Data.Set.Operations
import ZyronChain.Ledger.Snapshot
import ZyronChain.StateV2.Keys

/-!
# Portable views of the authenticated state

A portable view is read from the state and the list of the texts of its keys.  A validator list that
is not a list of records of two strings is refused here; the source hands it on to callers that
refuse it.

Source: `l1/src/state-v2.ts` (`leafKeyHashes`, `stateV2KeyPreimages`,
`reconstructStateV2PortableView` and the value checks it uses).

## Main definitions

* `stateV2KeyPreimages`, `reconstructStateV2PortableView`.
* `Governance.Portable` : schedules whose entries pass the value checks.
* `Indexes` : the texts of exactly the keys that have a value.

## Main results

* `reconstruct_of_commits` : the view of a state and its index is the ledger and the schedules.
-/

namespace ZyronChain

open Checks SparseTree Option SortedMap String

/-! ### Keys -/

/-- The family of a key (`startsWith`), and the rest of it (`slice`). -/
def keyFamily (key : String) : Option (KeyFamily × String) :=
  [KeyFamily.account, .activityEpoch, .validatorSchedule, .protocolSchedule,
    .activityOracleGovernance].findSome? fun f =>
      if f.label.toList <+: key.toList then
        some (f, String.ofList (key.toList.drop f.label.toList.length))
      else none

def parseSemanticHeight (value name : String) : Except String Int := do
  let digits := value.toList
  throwIf (digits = [] ∨ ¬ digits.all Char.isDigit = true ∨
    (digits.head? = some '0' ∧ digits.length ≠ 1)) s!"Invalid State v2 {name}"
  let parsed : Int := Nat.ofDigitChars 10 digits 0
  throwIf (¬ IsSafeInteger parsed ∨ parsed < 0) s!"Invalid State v2 {name}"
  .ok parsed

def assertUniqueSemanticNumbers (values : List Int) (name : String) : Except String Unit :=
  throwIf ((values.zip values.tail).any fun p => decide (p.1 = p.2)) s!"Duplicate State v2 {name}"

/-! ### Values -/

/-- `assertExactPortableRecord`, with the expected keys in order. -/
def assertExactPortableRecord (value : Json) (keys : List String) (name : String) :
    Except String Unit :=
  match value with
  | .obj members =>
    throwIf ((members.map Prod.fst).mergeSort canonicalLe ≠ keys) s!"Invalid {name} fields"
  | _ => .error s!"Invalid {name}"

/-- `assertStateV2AccountValue`; returns the account. -/
def assertStateV2AccountValue (value : Json) : Except String AccountState := do
  assertExactPortableRecord value ["balanceAtoms", "nonce"] "State v2 account value"
  match safeInteger? (value.field "balanceAtoms"), safeInteger? (value.field "nonce") with
  | some balanceAtoms, some nonce => do
    throwIf (balanceAtoms < 0 ∨ nonce < 0) "Invalid State v2 account value"
    .ok ⟨balanceAtoms, nonce⟩
  | _, _ => .error "Invalid State v2 account value"

def assertStateV2ActivityValue (value : Json) : Except String Unit := do
  assertExactPortableRecord value ["settled"] "State v2 activity value"
  match value.field "settled" with
  | some (.bool true) => .ok ()
  | _ => .error "Invalid State v2 activity value"

def validator? (value : Json) : Option Validator :=
  match text? (value.field "address"), text? (value.field "publicKey") with
  | some address, some publicKey => some ⟨address, publicKey⟩
  | _, _ => none

/-- `assertStateV2ValidatorScheduleValue`; returns the validators. -/
def assertStateV2ValidatorScheduleValue (value : Json) : Except String (List Validator) := do
  assertExactPortableRecord value ["validators"] "State v2 validator schedule value"
  match value.field "validators" with
  | some (.arr items) =>
    match items.mapM validator? with
    | some validators => .ok validators
    | none => .error "Invalid State v2 validator schedule value"
  | _ => .error "Invalid State v2 validator schedule value"

/-- `assertStateV2ProtocolScheduleValue`; returns the version. -/
def assertStateV2ProtocolScheduleValue (value : Json) : Except String Int := do
  assertExactPortableRecord value ["protocolVersion"] "State v2 protocol schedule value"
  match safeInteger? (value.field "protocolVersion") with
  | some protocolVersion => do
    throwIf (protocolVersion < 1) "Invalid State v2 protocol schedule value"
    .ok protocolVersion
  | none => .error "Invalid State v2 protocol schedule value"

def action? (name : String) : Option ActivityOracleGovernanceAction :=
  [ActivityOracleGovernanceAction.pause, .resume, .revoke].find? fun action => action.name = name

def invalidOracleValue : String := "Invalid State v2 activity oracle governance value"

/-- The checks of the keys of an oracle entry. -/
def assertOracleKeys (action : ActivityOracleGovernanceAction) (publicKeys : List String) :
    Except String Unit := do
  throwIf (publicKeys.length > 100) invalidOracleValue
  forDistinct id invalidOracleValue
    (fun publicKey => throwIf (¬ IsHex 64 publicKey) invalidOracleValue) (fun _ => .ok ()) []
    publicKeys
  throwIf (action ≠ .revoke ∧ publicKeys.length ≠ 0) invalidOracleValue
  throwIf (action = .revoke ∧ publicKeys.length = 0) invalidOracleValue

/-- `assertStateV2ActivityOracleGovernanceValue`; returns the entry. -/
def assertStateV2ActivityOracleGovernanceValue (value : Json) : Except String OracleControl := do
  assertExactPortableRecord value ["action", "publicKeys"]
    "State v2 activity oracle governance value"
  match (text? (value.field "action")).bind action?, value.field "publicKeys" with
  | some action, some (.arr items) =>
    match items.mapM fun item => text? (some item) with
    | some publicKeys => do
      assertOracleKeys action publicKeys
      .ok ⟨action, publicKeys⟩
    | none => .error invalidOracleValue
  | _, _ => .error invalidOracleValue

/-! ### Entries -/

/-- An entry of a portable view. -/
inductive PortableEntry where
  | account (address : Address) (held : AccountState)
  | activityEpoch (epoch : Int)
  | validatorSchedule (activationHeight : Int) (validators : List Validator)
  | protocolSchedule (activationHeight : Int) (protocolVersion : Int)
  | activityOracleGovernance (activationHeight : Int) (control : OracleControl)
deriving DecidableEq, Repr

namespace PortableEntry

def account? : PortableEntry → Option (Address × AccountState)
  | .account address held => some (address, held)
  | _ => none

def activityEpoch? : PortableEntry → Option Int
  | .activityEpoch epoch => some epoch
  | _ => none

def validatorSchedule? : PortableEntry → Option (Int × List Validator)
  | .validatorSchedule activationHeight validators => some (activationHeight, validators)
  | _ => none

def protocolSchedule? : PortableEntry → Option (Int × Int)
  | .protocolSchedule activationHeight protocolVersion => some (activationHeight, protocolVersion)
  | _ => none

def activityOracleGovernance? : PortableEntry → Option (Int × OracleControl)
  | .activityOracleGovernance activationHeight control => some (activationHeight, control)
  | _ => none

end PortableEntry

def readPortableEntry (key : String) (value : Json) : Except String PortableEntry :=
  match keyFamily key with
  | some (.account, rest) => do
    let account ← assertStateV2AccountValue value
    .ok (.account rest account)
  | some (.activityEpoch, rest) => do
    let epoch ← parseSemanticHeight rest "activity epoch"
    assertStateV2ActivityValue value
    .ok (.activityEpoch epoch)
  | some (.validatorSchedule, rest) => do
    let activationHeight ← parseSemanticHeight rest "validator activation height"
    let validators ← assertStateV2ValidatorScheduleValue value
    .ok (.validatorSchedule activationHeight validators)
  | some (.protocolSchedule, rest) => do
    let activationHeight ← parseSemanticHeight rest "protocol activation height"
    let protocolVersion ← assertStateV2ProtocolScheduleValue value
    .ok (.protocolSchedule activationHeight protocolVersion)
  | some (.activityOracleGovernance, rest) => do
    let activationHeight ← parseSemanticHeight rest "activity oracle governance height"
    let control ← assertStateV2ActivityOracleGovernanceValue value
    .ok (.activityOracleGovernance activationHeight control)
  | none => .error "Unknown State v2 semantic key"

structure StateV2PortableView where
  ledger : LedgerSnapshot
  governance : StateV2GovernanceSnapshot
deriving DecidableEq, Repr

/-- The part of `reconstructStateV2PortableView` after the loop, up to the comparison of roots. -/
def assemblePortableView (entries : List PortableEntry) : Except String StateV2PortableView := do
  let accounts := (entries.filterMap PortableEntry.account?).mergeSort fun a b => canonicalLe a.1 b.1
  let epochs := (entries.filterMap PortableEntry.activityEpoch?).mergeSort fun a b => a ≤ b
  let validatorSchedule :=
    (entries.filterMap PortableEntry.validatorSchedule?).mergeSort fun a b => a.1 ≤ b.1
  let protocolSchedule :=
    (entries.filterMap PortableEntry.protocolSchedule?).mergeSort fun a b => a.1 ≤ b.1
  let activityOracleGovernance :=
    (entries.filterMap PortableEntry.activityOracleGovernance?).mergeSort fun a b => a.1 ≤ b.1
  assertUniqueSemanticNumbers epochs "activity epoch"
  assertUniqueSemanticNumbers (validatorSchedule.map Prod.fst) "validator activation height"
  assertUniqueSemanticNumbers (protocolSchedule.map Prod.fst) "protocol activation height"
  assertUniqueSemanticNumbers (activityOracleGovernance.map Prod.fst)
    "activity oracle governance height"
  throwIf (validatorSchedule.head?.map Prod.fst ≠ some 0 ∨
    protocolSchedule.head?.map Prod.fst ≠ some 0)
    "State v2 governance schedule must start at genesis"
  let ledger ← LedgerState.fromSnapshot ⟨accounts, epochs⟩
  .ok ⟨ledger.snapshot, ⟨validatorSchedule, protocolSchedule, activityOracleGovernance⟩⟩

section

variable [Crypto]

def SparseMerkleState.leafKeyHashes (s : SparseMerkleState) : List Digest :=
  (leafKeys nodeDigest keyLayout 0 s.tree ([], [])).2

/-- The loop of `reconstructStateV2PortableView`. -/
def readPortableKeys (s : SparseMerkleState) (leafHashes : List Digest) :
    List String → List Digest → Except String (List PortableEntry)
  | [], _ => .ok []
  | key :: keys, seenHashes => do
    throwIf ((utf16 key).length < 1 ∨ (utf16 key).length > 256) "Invalid State v2 key preimage"
    let keyHash := stateKeyHash key
    throwIf (keyHash ∈ seenHashes) "Duplicate State v2 key preimage"
    throwIf (keyHash ∉ leafHashes) "State v2 key preimage is not committed by the root"
    match ← s.get key with
    | none => .error "State v2 key preimage has no committed value"
    | some value => do
      let entry ← readPortableEntry key value
      let entries ← readPortableKeys s leafHashes keys (keyHash :: seenHashes)
      .ok (entry :: entries)

def reconstructStateV2PortableView (s : SparseMerkleState) (keyPreimages : List String) :
    Except String StateV2PortableView := do
  let leafHashes := s.leafKeyHashes
  throwIf (keyPreimages.length ≠ leafHashes.length) "State v2 key preimage count mismatch"
  let entries ← readPortableKeys s leafHashes keyPreimages []
  throwIf (entries.length ≠ leafHashes.length) "Incomplete State v2 key preimage set"
  let view ← assemblePortableView entries
  let rebuilt ← stateV2FromLedgerSnapshot view.ledger view.governance
  throwIf (rebuilt.root ≠ s.root) "Reconstructed State v2 portable view root mismatch"
  .ok view

end

def stateV2KeyPreimages (snapshot : LedgerSnapshot) (governance : StateV2GovernanceSnapshot) :
    List String :=
  (snapshot.accounts.map (fun account => accountKey account.1) ++
    snapshot.settledActivityEpochs.map activityEpochKey ++
    governance.validatorSchedule.map (fun entry => validatorScheduleKey entry.1) ++
    governance.protocolSchedule.map (fun entry => protocolScheduleKey entry.1) ++
    governance.activityOracleGovernance.map fun entry =>
      activityOracleGovernanceKey entry.1).mergeSort canonicalLe

/-! ### Keys are read back -/

private theorem label_prefix_text_iff {f : KeyFamily} {k : SemanticKey} :
    f.label.toList <+: k.text.toList ↔ f = k.family := by
  rw [k.text_eq, toList_append]
  constructor
  · intro h
    rcases List.prefix_or_prefix_of_prefix h (List.prefix_append _ _) with hle | hle
    · exact KeyFamily.eq_of_label_prefix hle
    · exact (KeyFamily.eq_of_label_prefix hle).symm
  · rintro rfl
    exact List.prefix_append _ _

theorem keyFamily_text (k : SemanticKey) : keyFamily k.text = some (k.family, k.rest) := by
  have hrest : String.ofList (k.text.toList.drop k.family.label.toList.length) = k.rest := by
    rw [k.text_eq, toList_append, List.drop_left, ofList_toList]
  rw [keyFamily]
  simp only [label_prefix_text_iff, List.findSome?_cons, List.findSome?_nil]
  cases k <;> exact congrArg (fun rest => some (_, rest)) hrest

theorem parseSemanticHeight_numeral {n : Int} (hn : IsSafeInteger n) (hpos : 0 ≤ n) (name : String) :
    parseSemanticHeight (numeral n) name = .ok n := by
  obtain ⟨m, rfl⟩ := Int.eq_ofNat_of_zero_le hpos
  have hdigits : (numeral m).toList = Json.natText m := toList_ofList
  have hval : (Nat.ofDigitChars 10 (Json.natText m) 0 : Nat) = m :=
    Nat.ofDigitChars_toDigits (by decide) (by decide)
  have hall : (Json.natText m).all Char.isDigit = true :=
    List.all_eq_true.mpr fun c hc => Json.natText_isDigit hc
  rw [parseSemanticHeight, hdigits, throwIf_of_not, ok_bind, hval]
  · change (throwIf _ _ >>= fun _ => _) = _
    rw [throwIf_of_not]
    · rfl
    rw [not_or, not_not, not_lt]
    exact ⟨hn, hpos⟩
  · rintro (hnil | hdigit | ⟨hzero, hlen⟩)
    · exact Json.natText_ne_nil m hnil
    · exact hdigit hall
    · exact hlen (Json.natText_head hzero)

/-! ### Values are read back -/

theorem inOrder_validators (validators : List Validator) :
    InOrderItems (validators.map Validator.toJson) := by
  rw [inOrderItems_iff]
  intro v hv
  obtain ⟨validator, -, rfl⟩ := List.mem_map.mp hv
  exact ⟨(by decide : KeysInOrder ["address", "publicKey"]), trivial, trivial, trivial⟩

private theorem inOrder_texts (texts : List String) : InOrderItems (texts.map Json.str) := by
  rw [inOrderItems_iff]
  intro v hv
  obtain ⟨text, -, rfl⟩ := List.mem_map.mp hv
  exact trivial

private theorem assertRecord_of_keys {members : List (String × Json)} {keys : List String}
    (h : members.map Prod.fst = keys) (hkeys : keys.Pairwise fun a b => canonicalLe a b = true)
    (name : String) : assertExactPortableRecord (.obj members) keys name = .ok () := by
  rw [assertExactPortableRecord, h, List.mergeSort_of_pairwise hkeys]
  exact throwIf_of_not (not_not.mpr rfl)

theorem read_accountValue {account : AccountState} (hbalance : IsSafeInteger account.balanceAtoms)
    (hpos : 0 ≤ account.balanceAtoms) (hnonce : IsSafeInteger account.nonce ∧ 0 ≤ account.nonce) :
    assertStateV2AccountValue (normalize (accountValue account).val) = .ok account := by
  have horder : InOrder (accountValue account).val :=
    ⟨(by decide : KeysInOrder ["balanceAtoms", "nonce"]), trivial, trivial, trivial⟩
  have hrecord : ∀ name, assertExactPortableRecord (accountValue account).val ["balanceAtoms", "nonce"] name = .ok () :=
    assertRecord_of_keys rfl (by decide)
  rw [normalize_eq_self _ horder, assertStateV2AccountValue, hrecord, ok_bind]
  change (match safeInteger? (some (.num account.balanceAtoms)),
    safeInteger? (some (.num account.nonce)) with
    | some balanceAtoms, some nonce => _
    | _, _ => _) = _
  rw [safeInteger?_num hbalance, safeInteger?_num hnonce.1]
  change (throwIf _ _ >>= fun _ => _) = _
  rw [throwIf_of_not (by omega)]
  rfl

theorem read_settledValue : assertStateV2ActivityValue (normalize settledValue.val) = .ok () := by
  have horder : InOrder settledValue.val :=
    ⟨(by decide : KeysInOrder ["settled"]), trivial, trivial⟩
  have hrecord : ∀ name, assertExactPortableRecord settledValue.val ["settled"] name = .ok () :=
    assertRecord_of_keys rfl (by decide)
  rw [normalize_eq_self _ horder, assertStateV2ActivityValue, hrecord, ok_bind]
  rfl

private theorem mapM_validator? (validators : List Validator) :
    (validators.map Validator.toJson).mapM validator? = some validators := by
  induction validators with
  | nil => rfl
  | cons v vs ih =>
    rw [List.map_cons, List.mapM_cons, ih]
    rfl

theorem read_validatorsValue (validators : List Validator) :
    assertStateV2ValidatorScheduleValue (normalize (validatorsValue validators).val) =
      .ok validators := by
  have horder : InOrder (validatorsValue validators).val :=
    ⟨(by decide : KeysInOrder ["validators"]), inOrder_validators validators, trivial⟩
  have hrecord : ∀ name, assertExactPortableRecord (validatorsValue validators).val ["validators"] name = .ok () :=
    assertRecord_of_keys rfl (by decide)
  rw [normalize_eq_self _ horder, assertStateV2ValidatorScheduleValue, hrecord, ok_bind]
  change (match (validators.map Validator.toJson).mapM validator? with
    | some validators => _
    | none => _) = _
  rw [mapM_validator?]

theorem read_protocolValue {protocolVersion : Int} (h : IsSafeInteger protocolVersion)
    (hpos : 1 ≤ protocolVersion) :
    assertStateV2ProtocolScheduleValue (normalize (protocolValue protocolVersion).val) =
      .ok protocolVersion := by
  have horder : InOrder (protocolValue protocolVersion).val :=
    ⟨(by decide : KeysInOrder ["protocolVersion"]), trivial, trivial⟩
  have hrecord : ∀ name, assertExactPortableRecord (protocolValue protocolVersion).val ["protocolVersion"] name = .ok () :=
    assertRecord_of_keys rfl (by decide)
  rw [normalize_eq_self _ horder, assertStateV2ProtocolScheduleValue, hrecord, ok_bind]
  change (match safeInteger? (some (.num protocolVersion)) with
    | some protocolVersion => _
    | none => _) = _
  rw [safeInteger?_num h]
  change (throwIf _ _ >>= fun _ => _) = _
  rw [throwIf_of_not (by omega)]
  rfl

private theorem mapM_text? (texts : List String) :
    ((texts.map Json.str).mapM fun item => text? (some item)) = some texts := by
  induction texts with
  | nil => rfl
  | cons t ts ih =>
    rw [List.map_cons, List.mapM_cons, ih]
    rfl

theorem action?_name (action : ActivityOracleGovernanceAction) : action? action.name = some action := by
  cases action <;> decide

theorem read_oracleValue {control : OracleControl}
    (h : assertOracleKeys control.action control.publicKeys = .ok ()) :
    assertStateV2ActivityOracleGovernanceValue (normalize (oracleValue control).val) =
      .ok control := by
  have horder : InOrder (oracleValue control).val :=
    ⟨(by decide : KeysInOrder ["action", "publicKeys"]), trivial,
      inOrder_texts control.publicKeys, trivial⟩
  have hrecord : ∀ name, assertExactPortableRecord (oracleValue control).val ["action", "publicKeys"] name = .ok () :=
    assertRecord_of_keys rfl (by decide)
  rw [normalize_eq_self _ horder, assertStateV2ActivityOracleGovernanceValue, hrecord, ok_bind]
  change (match (some control.action.name).bind action?, some (Json.arr _) with
    | some action, some (.arr items) => _
    | _, _ => _) = _
  rw [bind_some, action?_name]
  change (match (control.publicKeys.map Json.str).mapM fun item => text? (some item) with
    | some publicKeys => _
    | none => _) = _
  rw [mapM_text?]
  change (assertOracleKeys control.action control.publicKeys >>= fun _ => _) = _
  rw [h]
  rfl

/-! ### Entries are read back -/

/-- Schedules that start at genesis and whose entries pass the value checks. -/
structure Governance.Portable (G : Governance) : Prop where
  validators_start : G.validatorSchedule.entries.head?.map Prod.fst = some 0
  protocol_start : G.protocolSchedule.entries.head?.map Prod.fst = some 0
  validators_heights : ∀ h ∈ G.validatorSchedule.keys, IsSafeInteger h ∧ 0 ≤ h
  protocol_heights : ∀ h ∈ G.protocolSchedule.keys, IsSafeInteger h ∧ 0 ≤ h
  oracle_heights : ∀ h ∈ G.activityOracleGovernance.keys, IsSafeInteger h ∧ 0 ≤ h
  versions : ∀ e ∈ G.protocolSchedule.entries, IsSafeInteger e.2 ∧ 1 ≤ e.2
  oracles : ∀ e ∈ G.activityOracleGovernance.entries,
    assertOracleKeys e.2.action e.2.publicKeys = .ok ()

/-- The entry of a key that has a value. -/
def portableEntry (L : LedgerState) (G : Governance) : SemanticKey → Option PortableEntry
  | .account address => (L.accounts.get address).map (.account address)
  | .activityEpoch epoch => (L.settledActivityEpochs.get epoch).map fun _ => .activityEpoch epoch
  | .validatorSchedule height => (G.validatorSchedule.get height).map (.validatorSchedule height)
  | .protocolSchedule height => (G.protocolSchedule.get height).map (.protocolSchedule height)
  | .activityOracleGovernance height =>
    (G.activityOracleGovernance.get height).map (.activityOracleGovernance height)

variable {L : LedgerState} {G : Governance}

private theorem mem_keys_of_get {r : Int → Int → Prop} [IsStrictTotalOrder Int r] {V : Type}
    {m : SortedMap r V} {k : Int} {v : V} (h : m.get k = some v) : k ∈ m.keys :=
  List.mem_map_of_mem (f := Prod.fst) (get_eq_some_iff.mp h)

theorem readPortableEntry_view (hL : L.Valid) (hG : G.Portable) {k : SemanticKey} {v : JsonValue}
    (h : stateView L G k = some v) :
    ∃ entry, portableEntry L G k = some entry ∧
      readPortableEntry k.text (normalize v.val) = .ok entry := by
  rw [readPortableEntry, keyFamily_text]
  cases k with
  | account a =>
    obtain ⟨account, hget, rfl⟩ := map_eq_some_iff.mp h
    obtain ⟨hbalance, hpos, hnonce⟩ := account_bounds hL hget
    refine ⟨.account a account, by rw [portableEntry, hget, map_some], ?_⟩
    change (assertStateV2AccountValue _ >>= fun _ => _) = _
    rw [read_accountValue hbalance hpos hnonce]
    rfl
  | activityEpoch e =>
    obtain ⟨u, hget, rfl⟩ := map_eq_some_iff.mp h
    have hbounds := hL.epochs e (mem_keys_of_get hget)
    refine ⟨.activityEpoch e, by rw [portableEntry, hget, map_some], ?_⟩
    change (parseSemanticHeight (numeral e) _ >>= fun _ => _) = _
    rw [parseSemanticHeight_numeral hbounds.1 hbounds.2, ok_bind, read_settledValue]
    rfl
  | validatorSchedule height =>
    obtain ⟨validators, hget, rfl⟩ := map_eq_some_iff.mp h
    have hbounds := hG.validators_heights height (mem_keys_of_get hget)
    refine ⟨.validatorSchedule height validators, by rw [portableEntry, hget, map_some], ?_⟩
    change (parseSemanticHeight (numeral height) _ >>= fun _ => _) = _
    rw [parseSemanticHeight_numeral hbounds.1 hbounds.2, ok_bind, read_validatorsValue]
    rfl
  | protocolSchedule height =>
    obtain ⟨version, hget, rfl⟩ := map_eq_some_iff.mp h
    have hbounds := hG.protocol_heights height (mem_keys_of_get hget)
    have hversion := hG.versions _ (get_eq_some_iff.mp hget)
    refine ⟨.protocolSchedule height version, by rw [portableEntry, hget, map_some], ?_⟩
    change (parseSemanticHeight (numeral height) _ >>= fun _ => _) = _
    rw [parseSemanticHeight_numeral hbounds.1 hbounds.2, ok_bind,
      read_protocolValue hversion.1 hversion.2]
    rfl
  | activityOracleGovernance height =>
    obtain ⟨control, hget, rfl⟩ := map_eq_some_iff.mp h
    have hbounds := hG.oracle_heights height (mem_keys_of_get hget)
    refine ⟨.activityOracleGovernance height control, by rw [portableEntry, hget, map_some], ?_⟩
    change (parseSemanticHeight (numeral height) _ >>= fun _ => _) = _
    rw [parseSemanticHeight_numeral hbounds.1 hbounds.2, ok_bind,
      read_oracleValue (hG.oracles _ (get_eq_some_iff.mp hget))]
    rfl

/-! ### The view is assembled -/

private theorem assertUnique_of_sorted {values : List Int} (h : values.Pairwise fun a b => a < b)
    (name : String) : assertUniqueSemanticNumbers values name = .ok () := by
  have hzip : ∀ p ∈ values.zip values.tail, p.1 < p.2 := by
    induction values with
    | nil => exact fun p hp => absurd hp List.not_mem_nil
    | cons a values ih =>
      rw [List.pairwise_cons] at h
      cases values with
      | nil => exact fun p hp => absurd hp List.not_mem_nil
      | cons b values =>
        intro p hp
        rw [List.tail_cons, List.zip_cons_cons, List.mem_cons] at hp
        rcases hp with rfl | hp
        · exact h.1 b List.mem_cons_self
        · exact ih h.2 p hp
  refine throwIf_of_not ?_
  rw [List.any_eq_true]
  rintro ⟨p, hp, heq⟩
  have hlt := hzip p hp
  rw [decide_eq_true_iff] at heq
  omega

private theorem assertUnique_entries {V : Type} (m : SortedMap (fun a b : Int => a < b) V)
    (name : String) : assertUniqueSemanticNumbers (m.entries.map Prod.fst) name = .ok () :=
  assertUnique_of_sorted m.keys_sorted name

/-- The keys that have a value, each once. -/
structure Lists (ks : List SemanticKey) (L : LedgerState) (G : Governance) : Prop where
  nodup : ks.Nodup
  mem : ∀ k, k ∈ ks ↔ stateView L G k ≠ none

section

variable {ks : List SemanticKey}

private theorem sorted_entries {K V : Type} [DecidableEq K] {r : K → K → Prop}
    [IsStrictTotalOrder K r] (le : K → K → Bool)
    (htrans : ∀ a b c, le a b = true → le b c = true → le a c = true)
    (htotal : ∀ a b, (le a b || le b a) = true) (hlt : ∀ a b, r a b → le a b = true)
    (hanti : ∀ a b, le a b = true → le b a = true → a = b) (hks : Lists ks L G)
    {key : K → SemanticKey} {pick : PortableEntry → Option (K × V)} {m : SortedMap r V}
    (hpick : ∀ k e, (portableEntry L G k).bind pick = some e ↔ k = key e.1 ∧ m.get e.1 = some e.2)
    (hview : ∀ k v, m.get k = some v → stateView L G (key k) ≠ none) :
    (((ks.filterMap (portableEntry L G)).filterMap pick).mergeSort fun a b => le a.1 b.1) =
      m.entries := by
  rw [List.filterMap_filterMap]
  refine mergeSort_eq_entries le htrans htotal hlt hanti ?_ fun e => ?_
  · refine List.Nodup.filterMap (fun k k' e he he' => ?_) hks.nodup
    rw [((hpick k e).mp he).1, ((hpick k' e).mp he').1]
  · rw [List.mem_filterMap, ← get_eq_some_iff (k := e.1) (v := e.2)]
    constructor
    · rintro ⟨k, -, hk⟩
      exact ((hpick k e).mp hk).2
    · intro hget
      exact ⟨key e.1, (hks.mem _).mpr (hview _ _ hget), (hpick _ e).mpr ⟨rfl, hget⟩⟩

private theorem sorted_schedule {V : Type} (hks : Lists ks L G) {key : Int → SemanticKey}
    {pick : PortableEntry → Option (Int × V)} {m : SortedMap (fun a b : Int => a < b) V}
    (hpick : ∀ k e, (portableEntry L G k).bind pick = some e ↔ k = key e.1 ∧ m.get e.1 = some e.2)
    (hview : ∀ k v, m.get k = some v → stateView L G (key k) ≠ none) :
    (((ks.filterMap (portableEntry L G)).filterMap pick).mergeSort fun a b => a.1 ≤ b.1) =
      m.entries :=
  sorted_entries (fun a b => decide (a ≤ b)) (by simp; omega) (by simp; omega) (by simp; omega)
    (by simp; omega) hks hpick hview

private theorem sorted_epochs (hks : Lists ks L G) :
    (((ks.filterMap (portableEntry L G)).filterMap PortableEntry.activityEpoch?).mergeSort
      fun a b => a ≤ b) = L.settledActivityEpochs.keys := by
  have hpick : ∀ k e, (portableEntry L G k).bind PortableEntry.activityEpoch? = some e ↔
      k = .activityEpoch e ∧ e ∈ L.settledActivityEpochs.keys := by
    intro k e
    rw [← has_iff_mem, SortedMap.has, isSome_iff_exists]
    cases k <;> simp [portableEntry, PortableEntry.activityEpoch?, bind_eq_some_iff]
    constructor
    · rintro ⟨hget, rfl⟩
      exact ⟨rfl, hget⟩
    · rintro ⟨rfl, hget⟩
      exact ⟨hget, rfl⟩
  rw [List.filterMap_filterMap]
  refine mergeSort_eq_keys (fun a b => decide (a ≤ b)) (by simp; omega) (by simp; omega)
    (by simp; omega) (by simp; omega) ?_ fun e => ?_
  · refine List.Nodup.filterMap (fun k k' e he he' => ?_) hks.nodup
    rw [((hpick k e).mp he).1, ((hpick k' e).mp he').1]
  · rw [List.mem_filterMap]
    constructor
    · rintro ⟨k, -, hk⟩
      exact ((hpick k e).mp hk).2
    · intro he
      refine ⟨.activityEpoch e, (hks.mem _).mpr ?_, (hpick _ e).mpr ⟨rfl, he⟩⟩
      rw [stateView, ne_eq, map_eq_none_iff, get_eq_none_iff, not_not]
      exact he

private theorem bind_pick {K V : Type} {x : Option V} {entry : V → PortableEntry}
    {pick : PortableEntry → Option (K × V)} {a : K} (h : ∀ v, pick (entry v) = some (a, v))
    {e : K × V} : (x.map entry).bind pick = some e ↔ a = e.1 ∧ x = some e.2 := by
  cases x with
  | none => simp
  | some v =>
    rw [map_some, bind_some, h, Option.some.injEq, Option.some.injEq]
    exact Prod.ext_iff

private theorem bind_pick_none {V W : Type} {x : Option V} {entry : V → PortableEntry}
    {pick : PortableEntry → Option W} (h : ∀ v, pick (entry v) = none) {e : W} :
    ¬ (x.map entry).bind pick = some e := by
  cases x with
  | none => simp
  | some v => simp [h]

private theorem pick_account (k : SemanticKey) (e : Address × AccountState) :
    (portableEntry L G k).bind PortableEntry.account? = some e ↔
      k = .account e.1 ∧ L.accounts.get e.1 = some e.2 := by
  cases k with
  | account a =>
    rw [portableEntry, bind_pick (fun _ => rfl), SemanticKey.account.injEq]
    exact and_congr_right fun heq => by rw [heq]
  | _ => exact iff_of_false (bind_pick_none fun _ => rfl) fun h => SemanticKey.noConfusion h.1

private theorem pick_validators (k : SemanticKey) (e : Int × List Validator) :
    (portableEntry L G k).bind PortableEntry.validatorSchedule? = some e ↔
      k = .validatorSchedule e.1 ∧ G.validatorSchedule.get e.1 = some e.2 := by
  cases k with
  | validatorSchedule a =>
    rw [portableEntry, bind_pick (fun _ => rfl), SemanticKey.validatorSchedule.injEq]
    exact and_congr_right fun heq => by rw [heq]
  | _ => exact iff_of_false (bind_pick_none fun _ => rfl) fun h => SemanticKey.noConfusion h.1

private theorem pick_protocol (k : SemanticKey) (e : Int × Int) :
    (portableEntry L G k).bind PortableEntry.protocolSchedule? = some e ↔
      k = .protocolSchedule e.1 ∧ G.protocolSchedule.get e.1 = some e.2 := by
  cases k with
  | protocolSchedule a =>
    rw [portableEntry, bind_pick (fun _ => rfl), SemanticKey.protocolSchedule.injEq]
    exact and_congr_right fun heq => by rw [heq]
  | _ => exact iff_of_false (bind_pick_none fun _ => rfl) fun h => SemanticKey.noConfusion h.1

private theorem pick_oracles (k : SemanticKey) (e : Int × OracleControl) :
    (portableEntry L G k).bind PortableEntry.activityOracleGovernance? = some e ↔
      k = .activityOracleGovernance e.1 ∧ G.activityOracleGovernance.get e.1 = some e.2 := by
  cases k with
  | activityOracleGovernance a =>
    rw [portableEntry, bind_pick (fun _ => rfl), SemanticKey.activityOracleGovernance.injEq]
    exact and_congr_right fun heq => by rw [heq]
  | _ => exact iff_of_false (bind_pick_none fun _ => rfl) fun h => SemanticKey.noConfusion h.1

private theorem map_ne_none {V W : Type} {x : Option V} {v : V} (h : x = some v) (f : V → W) :
    x.map f ≠ none := by
  rw [h]
  exact some_ne_none _

/-- The entries of all keys make up the ledger and the schedules. -/
theorem assemblePortableView_eq (hL : L.Valid) (hG : G.Portable) (hks : Lists ks L G) :
    assemblePortableView (ks.filterMap (portableEntry L G)) = .ok ⟨L.snapshot, G.snapshot⟩ := by
  have haccounts : (((ks.filterMap (portableEntry L G)).filterMap PortableEntry.account?).mergeSort
      fun a b => canonicalLe a.1 b.1) = L.accounts.entries :=
    sorted_entries canonicalLe (fun _ _ _ => canonicalLe_trans)
      (fun a b => (Bool.or_eq_true _ _).mpr (canonicalLe_total a b))
      (fun a b (hab : canonicalLt a b) => decide_eq_true (List.le_of_lt hab)) (fun _ _ => canonicalLe_antisymm) hks
      pick_account fun _ _ hget => map_ne_none hget _
  have hvalidators := sorted_schedule hks pick_validators fun _ _ hget => map_ne_none hget _
  have hprotocol := sorted_schedule hks pick_protocol fun _ _ hget => map_ne_none hget _
  have horacles := sorted_schedule hks pick_oracles fun _ _ hget => map_ne_none hget _
  have hstart : ¬ (G.validatorSchedule.entries.head?.map Prod.fst ≠ some 0 ∨
      G.protocolSchedule.entries.head?.map Prod.fst ≠ some 0) := by
    rw [not_or, not_not, not_not]
    exact ⟨hG.validators_start, hG.protocol_start⟩
  simp only [assemblePortableView, haccounts, sorted_epochs hks, hvalidators, hprotocol, horacles]
  rw [assertUnique_of_sorted L.settledActivityEpochs.keys_sorted, ok_bind,
    assertUnique_entries, ok_bind, assertUnique_entries, ok_bind, assertUnique_entries, ok_bind,
    throwIf_of_not hstart, ok_bind]
  change (LedgerState.fromSnapshot L.snapshot >>= fun _ => _) = _
  rw [LedgerState.fromSnapshot_snapshot hL]
  rfl

end

/-! ### Reconstruction -/

section

variable [Crypto] {K ks : List SemanticKey} {s : SparseMerkleState}

private theorem readPortableKeys_cons (hcommits : Commits K (stateView L G) s) (hL : L.Valid)
    (hG : G.Portable) {k : SemanticKey} (hk : k ∈ K) (hview : stateView L G k ≠ none)
    (leafHashes : List Digest) (keys : List String) (seen : List Digest) :
    ∃ entry, portableEntry L G k = some entry ∧
      readPortableKeys s leafHashes (k.text :: keys) seen = (do
        throwIf ((utf16 k.text).length < 1 ∨ (utf16 k.text).length > 256)
          "Invalid State v2 key preimage"
        throwIf (stateKeyHash k.text ∈ seen) "Duplicate State v2 key preimage"
        throwIf (stateKeyHash k.text ∉ leafHashes)
          "State v2 key preimage is not committed by the root"
        let entries ← readPortableKeys s leafHashes keys (stateKeyHash k.text :: seen)
        .ok (entry :: entries)) := by
  obtain ⟨v, hv⟩ := ne_none_iff_exists'.mp hview
  obtain ⟨entry, hentry, hread⟩ := readPortableEntry_view hL hG hv
  have hget := hcommits.get hk
  rw [hv, map_some] at hget
  refine ⟨entry, hentry, ?_⟩
  simp only [readPortableKeys, hget, ok_bind, hread]

private theorem readPortableKeys_entries (hcommits : Commits K (stateView L G) s) (hL : L.Valid)
    (hG : G.Portable) {leafHashes seen : List Digest} {entries : List PortableEntry}
    (hks : ∀ k ∈ ks, k ∈ K ∧ stateView L G k ≠ none)
    (h : readPortableKeys s leafHashes (ks.map SemanticKey.text) seen = .ok entries) :
    entries = ks.filterMap (portableEntry L G) := by
  induction ks generalizing seen entries with
  | nil =>
    cases h
    rfl
  | cons k ks ih =>
    rw [List.forall_mem_cons] at hks
    obtain ⟨entry, hentry, hread⟩ := readPortableKeys_cons hcommits hL hG hks.1.1 hks.1.2
      leafHashes (ks.map SemanticKey.text) seen
    rw [List.map_cons, hread, throwIf_bind_eq_ok, throwIf_bind_eq_ok, throwIf_bind_eq_ok] at h
    obtain ⟨rest, hrest, h⟩ := bind_eq_ok.mp h.2.2.2
    rw [Except.ok.injEq] at h
    rw [← h, ih hks.2 hrest, List.filterMap_cons, hentry]

/-- A reconstruction that succeeds returns the ledger and the schedules. -/
theorem reconstruct_eq_ok (hcommits : Commits K (stateView L G) s) (hL : L.Valid)
    (hG : G.Portable) (hks : Lists ks L G) (hK : ∀ k ∈ ks, k ∈ K) {view : StateV2PortableView}
    (h : reconstructStateV2PortableView s (ks.map SemanticKey.text) = .ok view) :
    view = ⟨L.snapshot, G.snapshot⟩ := by
  rw [reconstructStateV2PortableView, throwIf_bind_eq_ok] at h
  obtain ⟨entries, hread, h⟩ := bind_eq_ok.mp h.2
  rw [throwIf_bind_eq_ok] at h
  obtain ⟨view', hview, h⟩ := bind_eq_ok.mp h.2
  obtain ⟨rebuilt, -, h⟩ := bind_eq_ok.mp h
  rw [throwIf_bind_eq_ok, Except.ok.injEq] at h
  have hentries := readPortableKeys_entries hcommits hL hG
    (fun k hk => ⟨hK k hk, (hks.mem k).mp hk⟩) hread
  rw [hentries, assemblePortableView_eq hL hG hks, Except.ok.injEq] at hview
  rw [← h.2, hview]

omit [Crypto] in
private theorem length_utf16_le (key : String) : (utf16 key).length ≤ 2 * key.toList.length := by
  rw [utf16, List.length_flatMap]
  refine le_trans (List.sum_le_card_nsmul _ 2 fun n hn => ?_) (by simp [Nat.mul_comm])
  obtain ⟨c, -, rfl⟩ := List.mem_map.mp hn
  split <;> simp

omit [Crypto] in
private theorem length_utf16_pos (k : SemanticKey) : 1 ≤ (utf16 k.text).length := by
  by_contra hlt
  have hnil : utf16 k.text = utf16 "" := List.length_eq_zero_iff.mp (by omega)
  exact k.text_ne_empty (utf16_injective hnil)

omit [Crypto] in
private theorem length_numeral {n : Int} (hn : IsSafeInteger n) (hpos : 0 ≤ n) :
    (numeral n).toList.length ≤ 16 := by
  obtain ⟨m, rfl⟩ := Int.eq_ofNat_of_zero_le hpos
  have hdigits : (numeral m).toList = Json.natText m := toList_ofList
  rw [hdigits, Json.natText, Nat.length_toDigits_le_iff (by decide) (by decide)]
  have hle := hn.2
  rw [maxSafeInteger] at hle
  omega

omit [Crypto] in
private theorem length_text (hL : L.Valid) (hG : G.Portable) {k : SemanticKey}
    (hview : stateView L G k ≠ none) : (utf16 k.text).length ≤ 256 := by
  have hlabel := k.family.length_label_le
  have hrest : k.rest.toList.length ≤ 43 := by
    rw [ne_eq] at hview
    cases k with
    | account a =>
      rw [stateView, map_eq_none_iff, get_eq_none_iff, not_not] at hview
      obtain ⟨hhead, hlen, -⟩ := hL.address a hview
      have htake := congrArg List.length hhead
      rw [List.length_take] at htake
      rw [List.length_drop] at hlen
      change a.toList.length ≤ 43
      simp only [List.length_cons, List.length_nil] at htake
      omega
    | activityEpoch e =>
      rw [stateView, map_eq_none_iff, get_eq_none_iff, not_not] at hview
      have hbounds := hL.epochs e hview
      exact le_trans (length_numeral hbounds.1 hbounds.2) (by decide)
    | validatorSchedule h =>
      rw [stateView, map_eq_none_iff, get_eq_none_iff, not_not] at hview
      have hbounds := hG.validators_heights h hview
      exact le_trans (length_numeral hbounds.1 hbounds.2) (by decide)
    | protocolSchedule h =>
      rw [stateView, map_eq_none_iff, get_eq_none_iff, not_not] at hview
      have hbounds := hG.protocol_heights h hview
      exact le_trans (length_numeral hbounds.1 hbounds.2) (by decide)
    | activityOracleGovernance h =>
      rw [stateView, map_eq_none_iff, get_eq_none_iff, not_not] at hview
      have hbounds := hG.oracle_heights h hview
      exact le_trans (length_numeral hbounds.1 hbounds.2) (by decide)
  have hlength := length_utf16_le k.text
  rw [k.text_eq, toList_append, List.length_append] at hlength
  rw [k.text_eq]
  omega

/-- The keys of the leaves are the hashes of the keys that have a value. -/
theorem perm_keys (hKD : KeysDistinct K) (hcommits : Commits K (stateView L G) s)
    (hks : Lists ks L G) (hK : ∀ k ∈ ks, k ∈ K) :
    s.tree.keys.Perm (ks.map fun k => stateKeyHash k.text) := by
  refine (List.perm_ext_iff_of_nodup s.routed.nodup_keys ?_).mpr fun keyHash => ?_
  · exact List.Nodup.map_on (fun k hk k' hk' heq => hKD k (hK k hk) k' (hK k' hk') heq) hks.nodup
  · rw [s.routed.mem_keys_iff, List.mem_map]
    change s.stored keyHash ≠ none ↔ _
    constructor
    · intro hstored
      by_contra hnone
      push Not at hnone
      refine hstored ?_
      by_cases hmem : ∃ k ∈ K, stateKeyHash k.text = keyHash
      · obtain ⟨k, hk, rfl⟩ := hmem
        rw [hcommits.stored k hk, map_eq_none_iff]
        by_contra hview
        exact hnone k ((hks.mem k).mpr hview) rfl
      · exact hcommits.outside keyHash fun k hk heq => hmem ⟨k, hk, heq⟩
    · rintro ⟨k, hk, rfl⟩
      rw [hcommits.stored k (hK k hk), ne_eq, map_eq_none_iff]
      exact (hks.mem k).mp hk

private theorem exists_readPortableKeys (hKD : KeysDistinct K)
    (hcommits : Commits K (stateView L G) s) (hL : L.Valid) (hG : G.Portable)
    {leafHashes seen : List Digest} (hks : ∀ k ∈ ks, k ∈ K ∧ stateView L G k ≠ none)
    (hnodup : ks.Nodup) (hleaf : ∀ k ∈ ks, stateKeyHash k.text ∈ leafHashes)
    (hseen : ∀ k ∈ ks, stateKeyHash k.text ∉ seen) :
    readPortableKeys s leafHashes (ks.map SemanticKey.text) seen =
      .ok (ks.filterMap (portableEntry L G)) := by
  induction ks generalizing seen with
  | nil => rfl
  | cons k ks ih =>
    rw [List.nodup_cons] at hnodup
    rw [List.forall_mem_cons] at hks hleaf hseen
    obtain ⟨entry, hentry, hread⟩ := readPortableKeys_cons hcommits hL hG hks.1.1 hks.1.2
      leafHashes (ks.map SemanticKey.text) seen
    have hlength := length_text hL hG hks.1.2
    have hpos := length_utf16_pos k
    rw [List.map_cons, hread, throwIf_of_not (by omega), ok_bind, throwIf_of_not hseen.1, ok_bind,
      throwIf_of_not (not_not.mpr hleaf.1), ok_bind, ih hks.2 hnodup.2 hleaf.2, ok_bind,
      List.filterMap_cons, hentry]
    intro k' hk' hmem
    rcases List.mem_cons.mp hmem with heq | hmem
    · exact hnodup.1 (hKD k' (hks.2 k' hk').1 k hks.1.1 heq ▸ hk')
    · exact hseen.2 k' hk' hmem

theorem leafKeyHashes_eq (s : SparseMerkleState) :
    s.leafKeyHashes = s.tree.keys ∨ ByteCollision s.rootEncodings := by
  have hwalk : (leafKeys nodeDigest keyLayout 0 s.tree ([], [])).2 = s.tree.keys ∨
      Merkle.Collides nodeDigest
        (Merkle.rootInputs nodeDigest keyLayout.height (occupant keyLayout 0 s.tree)) :=
    leafKeys_eq_keys s.routed
  rcases hwalk with hkeys | hcollides
  · exact .inl hkeys
  · exact .inr (byteCollision_of_collides hcollides)

omit [Crypto] in
private theorem length_filterMap_of_isSome {α β : Type} {f : α → Option β} {xs : List α}
    (h : ∀ x ∈ xs, f x ≠ none) : (xs.filterMap f).length = xs.length := by
  induction xs with
  | nil => rfl
  | cons x xs ih =>
    rw [List.forall_mem_cons] at h
    obtain ⟨y, hy⟩ := ne_none_iff_exists'.mp h.1
    rw [List.filterMap_cons, hy, List.length_cons, List.length_cons, ih h.2]

/-- The view of a state and the list of its keys is the ledger and the schedules, unless SHA-256
collides on what was hashed for the nodes of the state. -/
theorem reconstruct_of_commits (hKD : KeysDistinct K) (hcommits : Commits K (stateView L G) s)
    (hL : L.Valid) (hG : G.Portable) (hks : Lists ks L G) (hK : ∀ k ∈ ks, k ∈ K) :
    reconstructStateV2PortableView s (ks.map SemanticKey.text) = .ok ⟨L.snapshot, G.snapshot⟩ ∨
      ByteCollision s.rootEncodings := by
  rw [or_iff_not_imp_right]
  intro hfree
  have hleaf := (leafKeyHashes_eq s).resolve_right hfree
  have hperm := perm_keys hKD hcommits hks hK
  have hlength : s.leafKeyHashes.length = ks.length := by
    rw [hleaf, hperm.length_eq, List.length_map]
  have hview : ∀ k ∈ ks, k ∈ K ∧ stateView L G k ≠ none := fun k hk =>
    ⟨hK k hk, (hks.mem k).mp hk⟩
  have hentries : (ks.filterMap (portableEntry L G)).length = ks.length := by
    refine length_filterMap_of_isSome fun k hk => ?_
    obtain ⟨v, hv⟩ := ne_none_iff_exists'.mp (hview k hk).2
    obtain ⟨entry, hentry, -⟩ := readPortableEntry_view hL hG hv
    rw [hentry]
    exact some_ne_none _
  have hmem : ∀ k ∈ ks, stateKeyHash k.text ∈ s.leafKeyHashes := by
    intro k hk
    rw [hleaf, hperm.mem_iff, List.mem_map]
    exact ⟨k, hk, rfl⟩
  have hread : readPortableKeys s s.leafKeyHashes (ks.map SemanticKey.text) [] =
      .ok (ks.filterMap (portableEntry L G)) :=
    exists_readPortableKeys hKD hcommits hL hG hview hks.nodup hmem fun k _ => List.not_mem_nil
  obtain ⟨rebuilt, hrebuilt, hcommits'⟩ := exists_stateV2FromLedgerSnapshot hKD
    (fun k v hv => hK k ((hks.mem k).mpr (by rw [hv]; exact some_ne_none v))) hL
    fun e he => (hG.versions e he).1
  have hs : rebuilt = s := hcommits'.ext hcommits
  rw [reconstructStateV2PortableView, List.length_map, hlength, throwIf_of_not (not_not.mpr rfl),
    ok_bind, hread, ok_bind, hentries, throwIf_of_not (not_not.mpr rfl), ok_bind,
    assemblePortableView_eq hL hG hks, ok_bind, hrebuilt, ok_bind, hs,
    throwIf_of_not (not_not.mpr rfl), ok_bind]

end

end ZyronChain
