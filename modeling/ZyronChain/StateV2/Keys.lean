import Mathlib.Logic.Function.Basic
import ZyronChain.Ledger.Invariant
import ZyronChain.StateV2.Map

/-!
# The ledger and the schedules in the authenticated state

Every account, settled epoch and schedule entry has a key.  `Commits` says that a state stores
exactly the values of a view of these keys; a state built by writes is determined by its view, as
long as no two of the keys in play have one hash.

Source: `l1/src/state-v2.ts` (`accountKey` to `activityOracleGovernanceKey`,
`stateV2FromLedgerSnapshot`).
-/

namespace ZyronChain

open Checks SparseTree List SparseMerkleState SortedMap String Function

/-! ### Keys -/

def numeral (n : Int) : String := String.ofList (Json.intText n)

theorem numeral_injective : Function.Injective numeral := by
  intro n m h
  have htext : Json.intText n = Json.intText m := ofList_injective h
  have hnumber := congrArg Json.numberOf htext
  rw [Json.numberOf_intText, Json.numberOf_intText, Option.some.injEq, Json.num.injEq] at hnumber
  exact hnumber

def accountKey (address : Address) : String := "account:" ++ address

def activityEpochKey (epoch : Int) : String := "activity-epoch:" ++ numeral epoch

def validatorScheduleKey (activationHeight : Int) : String :=
  "validator-schedule:" ++ numeral activationHeight

def protocolScheduleKey (activationHeight : Int) : String :=
  "protocol-schedule:" ++ numeral activationHeight

def activityOracleGovernanceKey (activationHeight : Int) : String :=
  "activity-oracle-governance:" ++ numeral activationHeight

/-- The families of keys. -/
inductive KeyFamily where
  | account
  | activityEpoch
  | validatorSchedule
  | protocolSchedule
  | activityOracleGovernance
deriving DecidableEq, Repr

def KeyFamily.label : KeyFamily → String
  | .account => "account:"
  | .activityEpoch => "activity-epoch:"
  | .validatorSchedule => "validator-schedule:"
  | .protocolSchedule => "protocol-schedule:"
  | .activityOracleGovernance => "activity-oracle-governance:"

theorem KeyFamily.eq_of_label_prefix {f g : KeyFamily} (h : f.label.toList <+: g.label.toList) :
    f = g := by
  revert h
  cases f <;> cases g <;> decide

theorem KeyFamily.length_label_le (f : KeyFamily) : f.label.toList.length ≤ 27 := by
  cases f <;> decide

theorem KeyFamily.label_ne_nil (f : KeyFamily) : f.label.toList ≠ [] := by
  cases f <;> decide

/-- The keys of the authenticated state. -/
inductive SemanticKey where
  | account (address : Address)
  | activityEpoch (epoch : Int)
  | validatorSchedule (activationHeight : Int)
  | protocolSchedule (activationHeight : Int)
  | activityOracleGovernance (activationHeight : Int)
deriving DecidableEq, Repr

namespace SemanticKey

def text : SemanticKey → String
  | .account address => accountKey address
  | .activityEpoch epoch => activityEpochKey epoch
  | .validatorSchedule activationHeight => validatorScheduleKey activationHeight
  | .protocolSchedule activationHeight => protocolScheduleKey activationHeight
  | .activityOracleGovernance activationHeight => activityOracleGovernanceKey activationHeight

def family : SemanticKey → KeyFamily
  | .account _ => .account
  | .activityEpoch _ => .activityEpoch
  | .validatorSchedule _ => .validatorSchedule
  | .protocolSchedule _ => .protocolSchedule
  | .activityOracleGovernance _ => .activityOracleGovernance

def rest : SemanticKey → String
  | .account address => address
  | .activityEpoch epoch => numeral epoch
  | .validatorSchedule activationHeight | .protocolSchedule activationHeight
  | .activityOracleGovernance activationHeight => numeral activationHeight

theorem text_eq (k : SemanticKey) : k.text = k.family.label ++ k.rest := by
  cases k <;> rfl

theorem eq_of_rest {k k' : SemanticKey} (hfamily : k.family = k'.family) (hrest : k.rest = k'.rest) :
    k = k' := by
  cases k <;> cases k' <;> cases hfamily
  · exact congrArg _ hrest
  all_goals exact congrArg _ (numeral_injective hrest)

theorem text_injective : Function.Injective text := by
  intro k k' h
  have hlist : k.family.label.toList ++ k.rest.toList = k'.family.label.toList ++ k'.rest.toList := by
    rw [← toList_append, ← toList_append, ← text_eq, ← text_eq, h]
  have hfamily : k.family = k'.family := by
    have hprefix := prefix_append k.family.label.toList k.rest.toList
    rw [hlist] at hprefix
    rcases prefix_or_prefix_of_prefix hprefix
      (prefix_append k'.family.label.toList k'.rest.toList) with hle | hle
    · exact KeyFamily.eq_of_label_prefix hle
    · exact (KeyFamily.eq_of_label_prefix hle).symm
  rw [hfamily, append_cancel_left_eq] at hlist
  exact eq_of_rest hfamily (toList_inj.mp hlist)

theorem text_ne_empty (k : SemanticKey) : k.text ≠ "" := by
  intro h
  have hlist := congrArg String.toList h
  rw [text_eq, toList_append] at hlist
  exact k.family.label_ne_nil (append_eq_nil_iff.mp hlist).1

end SemanticKey

/-! ### Values -/

/-- An entry of the schedule of the activity oracles. -/
structure OracleControl where
  action : ActivityOracleGovernanceAction
  publicKeys : List String
deriving DecidableEq, Repr

/-- The schedules of the chain. -/
structure Governance where
  validatorSchedule : SortedMap (fun a b : Int => a < b) (List Validator)
  protocolSchedule : SortedMap (fun a b : Int => a < b) Int
  activityOracleGovernance : SortedMap (fun a b : Int => a < b) OracleControl
deriving DecidableEq

def accountValue (account : AccountState) : JsonValue :=
  ⟨.obj [("balanceAtoms", .num account.balanceAtoms), ("nonce", .num account.nonce)],
    (by decide : ["balanceAtoms", "nonce"].Nodup), trivial, trivial, trivial⟩

def settledValue : JsonValue := ⟨.obj [("settled", .bool true)], by decide, trivial, trivial⟩

theorem plainItems_map {α : Type} {f : α → Json} (h : ∀ x, (f x).Plain) (xs : List α) :
    Json.PlainItems (xs.map f) := by
  induction xs with
  | nil => trivial
  | cons x xs ih => exact ⟨h x, ih⟩

theorem Validator.plain_toJson (v : Validator) : v.toJson.Plain :=
  ⟨(by decide : ["address", "publicKey"].Nodup), trivial, trivial, trivial⟩

def validatorsValue (validators : List Validator) : JsonValue :=
  ⟨.obj [("validators", .arr (validators.map Validator.toJson))], nodup_singleton _,
    plainItems_map Validator.plain_toJson validators, trivial⟩

def protocolValue (protocolVersion : Int) : JsonValue :=
  ⟨.obj [("protocolVersion", .num protocolVersion)], nodup_singleton _, trivial, trivial⟩

def oracleValue (control : OracleControl) : JsonValue :=
  ⟨.obj [("action", .str control.action.name), ("publicKeys", .arr (control.publicKeys.map .str))],
    (by decide : ["action", "publicKeys"].Nodup), trivial,
    plainItems_map (f := .str) (fun _ => trivial) control.publicKeys, trivial⟩

def stateView (L : LedgerState) (G : Governance) : SemanticKey → Option JsonValue
  | .account address => (L.accounts.get address).map accountValue
  | .activityEpoch epoch => (L.settledActivityEpochs.get epoch).map fun _ => settledValue
  | .validatorSchedule height => (G.validatorSchedule.get height).map validatorsValue
  | .protocolSchedule height => (G.protocolSchedule.get height).map protocolValue
  | .activityOracleGovernance height => (G.activityOracleGovernance.get height).map oracleValue

/-- `StateV2GovernanceSnapshot`; an empty list of oracle entries stands for an absent one. -/
structure StateV2GovernanceSnapshot where
  validatorSchedule : List (Int × List Validator)
  protocolSchedule : List (Int × Int)
  activityOracleGovernance : List (Int × OracleControl)
deriving DecidableEq, Repr

/-- `governanceSnapshot`. -/
def Governance.snapshot (G : Governance) : StateV2GovernanceSnapshot where
  validatorSchedule := G.validatorSchedule.entries
  protocolSchedule := G.protocolSchedule.entries
  activityOracleGovernance := G.activityOracleGovernance.entries

/-- The entries of a schedule, in order, as writes. -/
def scheduleWrites {V : Type} (key : Int → SemanticKey) (value : V → JsonValue)
    (schedule : List (Int × V)) : List (SemanticKey × JsonValue) :=
  (schedule.mergeSort fun a b => a.1 ≤ b.1).map fun entry => (key entry.1, value entry.2)

/-- The writes of `stateV2FromLedgerSnapshot`. -/
def snapshotWrites (snapshot : LedgerSnapshot) (governance : StateV2GovernanceSnapshot) :
    List (SemanticKey × JsonValue) :=
  ((snapshot.accounts.mergeSort fun a b => canonicalLe a.1 b.1).map fun entry =>
      (.account entry.1, accountValue entry.2)) ++
    ((snapshot.settledActivityEpochs.mergeSort fun a b => a ≤ b).map fun epoch =>
      (.activityEpoch epoch, settledValue)) ++
    scheduleWrites .validatorSchedule validatorsValue governance.validatorSchedule ++
    scheduleWrites .protocolSchedule protocolValue governance.protocolSchedule ++
    scheduleWrites .activityOracleGovernance oracleValue governance.activityOracleGovernance

variable {k : SemanticKey} {v : JsonValue}

private theorem mem_entryWrites {K V : Type} {r : K → K → Prop} [IsStrictTotalOrder K r]
    [DecidableEq K] [DecidableRel r] {m : SortedMap r V} {key : K → SemanticKey}
    {value : V → JsonValue} (le : K × V → K × V → Bool) :
    (k, v) ∈ (m.entries.mergeSort le).map (fun entry => (key entry.1, value entry.2)) ↔
      ∃ x, key x = k ∧ (m.get x).map value = some v := by
  rw [mem_map]
  constructor
  · rintro ⟨entry, hentry, heq⟩
    rw [mem_mergeSort, ← get_eq_some_iff (k := entry.1) (v := entry.2)] at hentry
    rw [Prod.mk.injEq] at heq
    exact ⟨entry.1, heq.1, by rw [hentry, Option.map_some, heq.2]⟩
  · rintro ⟨x, rfl, hget⟩
    obtain ⟨y, hy, rfl⟩ := Option.map_eq_some_iff.mp hget
    exact ⟨(x, y), mem_mergeSort.mpr (get_eq_some_iff.mp hy), rfl⟩

theorem mem_scheduleWrites {V : Type} {key : Int → SemanticKey} {value : V → JsonValue}
    {schedule : SortedMap (fun a b : Int => a < b) V} :
    (k, v) ∈ scheduleWrites key value schedule.entries ↔
      ∃ height, key height = k ∧ (schedule.get height).map value = some v := by
  exact mem_entryWrites _

theorem mem_snapshotWrites {L : LedgerState} {G : Governance} :
    (k, v) ∈ snapshotWrites L.snapshot G.snapshot ↔ stateView L G k = some v := by
  have haccounts : (k, v) ∈ ((L.accounts.entries.mergeSort fun a b => canonicalLe a.1 b.1).map
      fun entry => (SemanticKey.account entry.1, accountValue entry.2)) ↔
      ∃ a, SemanticKey.account a = k ∧ (L.accounts.get a).map accountValue = some v :=
    mem_entryWrites _
  have hepochs : (k, v) ∈ ((L.settledActivityEpochs.keys.mergeSort fun a b => a ≤ b).map
      fun epoch => (SemanticKey.activityEpoch epoch, settledValue)) ↔
      ∃ e, SemanticKey.activityEpoch e = k ∧
        (L.settledActivityEpochs.get e).map (fun _ => settledValue) = some v := by
    rw [mem_map]
    constructor
    · rintro ⟨epoch, hepoch, heq⟩
      rw [mem_mergeSort, ← has_iff_mem, SortedMap.has, Option.isSome_iff_exists] at hepoch
      obtain ⟨u, hu⟩ := hepoch
      rw [Prod.mk.injEq] at heq
      exact ⟨epoch, heq.1, by rw [hu, Option.map_some, heq.2]⟩
    · rintro ⟨e, rfl, hget⟩
      obtain ⟨u, hu, rfl⟩ := Option.map_eq_some_iff.mp hget
      refine ⟨e, mem_mergeSort.mpr (has_iff_mem.mp ?_), rfl⟩
      rw [SortedMap.has, hu]
      rfl
  simp only [snapshotWrites, mem_append, LedgerState.snapshot, Governance.snapshot, haccounts,
    hepochs, mem_scheduleWrites]
  cases k <;> simp [stateView]

/-! ### Canonical values -/

theorem canonical_accountValue {account : AccountState} (hbalance : IsSafeInteger account.balanceAtoms)
    (hnonce : IsSafeInteger account.nonce) : Canonical 0 (accountValue account).val :=
  ⟨by decide, hbalance, hnonce, trivial⟩

theorem canonical_settledValue : Canonical 0 settledValue.val := ⟨by decide, trivial, trivial⟩

theorem canonicalItems_map {α : Type} {f : α → Json} {depth : Nat} (h : ∀ x, Canonical depth (f x))
    (xs : List α) : CanonicalItems depth (xs.map f) := by
  rw [canonicalItems_iff]
  intro v hv
  obtain ⟨x, -, rfl⟩ := mem_map.mp hv
  exact h x

theorem canonical_validatorsValue (validators : List Validator) :
    Canonical 0 (validatorsValue validators).val :=
  ⟨by decide, ⟨by decide, canonicalItems_map (f := Validator.toJson)
    (fun _ => ⟨by decide, trivial, trivial, trivial⟩) _⟩,
    trivial⟩

theorem canonical_protocolValue {protocolVersion : Int} (h : IsSafeInteger protocolVersion) :
    Canonical 0 (protocolValue protocolVersion).val := ⟨by decide, h, trivial⟩

theorem canonical_oracleValue (control : OracleControl) : Canonical 0 (oracleValue control).val :=
  ⟨by decide, trivial, ⟨by decide, canonicalItems_map (f := .str) (fun _ => trivial) _⟩, trivial⟩

theorem account_bounds {L : LedgerState} (hL : L.Valid) {a : Address} {account : AccountState}
    (hget : L.accounts.get a = some account) :
    IsSafeInteger account.balanceAtoms ∧ 0 ≤ account.balanceAtoms ∧
      IsSafeInteger account.nonce ∧ 0 ≤ account.nonce := by
  have haccount := LedgerState.account_of_mem (get_eq_some_iff.mp hget)
  have hbalance : L.balance a = account.balanceAtoms := by rw [LedgerState.balance, haccount]
  have hnonce : L.nonce a = account.nonce := by rw [LedgerState.nonce, haccount]
  exact ⟨hbalance ▸ isSafeInteger_of_le (hL.balance a) (hL.balance_le a), hbalance ▸ hL.balance a,
    hnonce ▸ hL.nonce a⟩

theorem canonical_stateView {L : LedgerState} (hL : L.Valid) {G : Governance}
    (hG : ∀ entry ∈ G.protocolSchedule.entries, IsSafeInteger entry.2)
    (h : stateView L G k = some v) : Canonical 0 v.val := by
  cases k with
  | account a =>
    obtain ⟨account, hget, rfl⟩ := Option.map_eq_some_iff.mp h
    obtain ⟨hbalance, -, hnonce⟩ := account_bounds hL hget
    exact canonical_accountValue hbalance hnonce.1
  | activityEpoch e =>
    obtain ⟨u, -, rfl⟩ := Option.map_eq_some_iff.mp h
    exact canonical_settledValue
  | validatorSchedule height =>
    obtain ⟨validators, -, rfl⟩ := Option.map_eq_some_iff.mp h
    exact canonical_validatorsValue validators
  | protocolSchedule height =>
    obtain ⟨version, hget, rfl⟩ := Option.map_eq_some_iff.mp h
    exact canonical_protocolValue (hG _ (get_eq_some_iff.mp hget))
  | activityOracleGovernance height =>
    obtain ⟨control, -, rfl⟩ := Option.map_eq_some_iff.mp h
    exact canonical_oracleValue control

/-! ### States that store a view -/

section

variable [Crypto]

def stateV2FromLedgerSnapshot (snapshot : LedgerSnapshot) (governance : StateV2GovernanceSnapshot) :
    Except String SparseMerkleState :=
  SparseMerkleState.run ((snapshotWrites snapshot governance).map fun w => (w.1.text, w.2))

def KeysDistinct (K : List SemanticKey) : Prop :=
  ∀ k ∈ K, ∀ k' ∈ K, stateKeyHash k.text = stateKeyHash k'.text → k = k'

theorem keysDistinct_or_collision (K : List SemanticKey) :
    KeysDistinct K ∨ ByteCollision (SparseMerkleState.keyEncodings (K.map SemanticKey.text)) := by
  rw [or_iff_not_imp_right]
  intro hfree k hk k' hk' h
  exact SemanticKey.text_injective ((keyHash_eq_or_collision
    (mem_map_of_mem hk) (mem_map_of_mem hk') h).resolve_right hfree)

/-- The state stores the values of the keys in `K`, and nothing else. -/
structure Commits (K : List SemanticKey) (view : SemanticKey → Option JsonValue)
    (s : SparseMerkleState) : Prop where
  stored : ∀ k ∈ K, s.stored (stateKeyHash k.text) = (view k).map fun v => canonicalText v.val
  outside : ∀ keyHash, (∀ k ∈ K, stateKeyHash k.text ≠ keyHash) → s.stored keyHash = none
  compact : Compact s.tree

variable {K : List SemanticKey} {view : SemanticKey → Option JsonValue} {s s' : SparseMerkleState}

theorem commits_empty (K : List SemanticKey) : Commits K (fun _ => none) .empty where
  stored _ _ := rfl
  outside _ _ := rfl
  compact := trivial

/-- A view has at most one state. -/
theorem Commits.ext (h : Commits K view s) (h' : Commits K view s') : s = s' := by
  refine ext_stored h.compact h'.compact fun keyHash => ?_
  by_cases hk : ∃ k ∈ K, stateKeyHash k.text = keyHash
  · obtain ⟨k, hk, rfl⟩ := hk
    rw [h.stored k hk, h'.stored k hk]
  · have hne : ∀ k ∈ K, stateKeyHash k.text ≠ keyHash := fun k hmem heq => hk ⟨k, hmem, heq⟩
    rw [h.outside keyHash hne, h'.outside keyHash hne]

theorem Commits.get (h : Commits K view s) {k : SemanticKey} (hk : k ∈ K) :
    s.get k.text = .ok ((view k).map fun v => normalize v.val) := by
  have hstored := h.stored k hk
  cases hview : view k with
  | none =>
    rw [hview] at hstored
    exact get_of_stored_none k.text_ne_empty hstored
  | some v =>
    rw [hview] at hstored
    exact get_of_stored_some k.text_ne_empty v.property hstored

theorem Commits.set (hK : KeysDistinct K) (h : Commits K view s) {k : SemanticKey} (hk : k ∈ K)
    {v : JsonValue} (hv : Canonical 0 v.val) :
    ∃ s', s.set k.text v = .ok s' ∧ Commits K (Function.update view k (some v)) s' := by
  obtain ⟨s', hset⟩ := s.exists_set_eq_ok k.text_ne_empty hv
  obtain ⟨-, -, hstored⟩ := set_eq_ok hset
  refine ⟨s', hset, fun k' hk' => ?_, fun keyHash hne => ?_, compact_set hset
    h.compact⟩
  · rw [hstored]
    by_cases hkk : k' = k
    · rw [hkk, if_pos rfl, update_self]
      rfl
    · rw [if_neg fun heq => hkk (hK k' hk' k hk heq), update_of_ne hkk, h.stored k' hk']
  · rw [hstored, if_neg (hne k hk).symm, h.outside keyHash hne]

/-- The view after a sequence of writes. -/
def overwrite (view : SemanticKey → Option JsonValue) :
    List (SemanticKey × JsonValue) → SemanticKey → Option JsonValue
  | [] => view
  | w :: ws => overwrite (Function.update view w.1 (some w.2)) ws

variable {ws : List (SemanticKey × JsonValue)}

theorem Commits.writes (hK : KeysDistinct K) (h : Commits K view s)
    (hws : ∀ w ∈ ws, w.1 ∈ K ∧ Canonical 0 w.2.val) :
    ∃ s', SparseMerkleState.writes (ws.map fun w => (w.1.text, w.2)) s = .ok s' ∧
      Commits K (overwrite view ws) s' := by
  induction ws generalizing view s with
  | nil => exact ⟨s, rfl, h⟩
  | cons w ws ih =>
    rw [forall_mem_cons] at hws
    obtain ⟨s₁, hset, h₁⟩ := h.set hK hws.1.1 hws.1.2
    obtain ⟨s', hrest, h'⟩ := ih h₁ hws.2
    exact ⟨s', bind_eq_ok.mpr ⟨s₁, hset, hrest⟩, h'⟩

omit [Crypto] in
theorem overwrite_eq {target : SemanticKey → Option JsonValue}
    (hws : ∀ w ∈ ws, target w.1 = some w.2) (hview : ∀ k, (∀ w ∈ ws, w.1 ≠ k) → view k = target k) :
    overwrite view ws = target := by
  induction ws generalizing view with
  | nil => exact funext fun k => hview k fun w hw => absurd hw not_mem_nil
  | cons w ws ih =>
    rw [forall_mem_cons] at hws
    refine ih hws.2 fun k hk => ?_
    by_cases heq : k = w.1
    · rw [heq, update_self, hws.1]
    · rw [update_of_ne heq]
      exact hview k (forall_mem_cons.mpr ⟨Ne.symm heq, hk⟩)

/-- A ledger and schedules have a state, which stores their view. -/
theorem exists_stateV2FromLedgerSnapshot (hK : KeysDistinct K) {L : LedgerState} {G : Governance}
    (hmem : ∀ k v, stateView L G k = some v → k ∈ K) (hL : L.Valid)
    (hG : ∀ entry ∈ G.protocolSchedule.entries, IsSafeInteger entry.2) :
    ∃ s, stateV2FromLedgerSnapshot L.snapshot G.snapshot = .ok s ∧ Commits K (stateView L G) s := by
  have hwrites : ∀ w ∈ snapshotWrites L.snapshot G.snapshot, w.1 ∈ K ∧ Canonical 0 w.2.val :=
    fun w hw => by
      have hview : stateView L G w.1 = some w.2 := mem_snapshotWrites.mp hw
      exact ⟨hmem w.1 w.2 hview, canonical_stateView hL hG hview⟩
  obtain ⟨s, hs, hcommits⟩ := (commits_empty K).writes hK hwrites
  have hview : overwrite (fun _ => none) (snapshotWrites L.snapshot G.snapshot) = stateView L G := by
    refine overwrite_eq (fun w hw => mem_snapshotWrites.mp hw) fun k hk => ?_
    cases hview : stateView L G k with
    | none => rfl
    | some v => exact absurd rfl (hk (k, v) (mem_snapshotWrites.mpr hview))
  rw [hview] at hcommits
  exact ⟨s, hs, hcommits⟩

end

end ZyronChain
