import ZyronChain.Crypto
import ZyronChain.Lib.Method
import ZyronChain.Lib.ReplayGuard
import ZyronChain.Lib.Tally

/-!
# Authenticated peer requests

A request of a peer carries its identity, a time, a nonce and a signature in its headers.
`preflight` reserves the nonce before the body is read and `verify` consumes it; a nonce that was
consumed is refused.  The authenticator remembers a nonce until the time of its request can no longer
be accepted, in a map that is swept when the first entry is due.  A count of the entries of each
identity and two caps bound the map.

Source: `l1/src/peer-identity.ts`, `PeerRequestAuthenticator`.

## Main definitions

* `PeerRequestAuthenticator`, `preflight`, `verify` : the class of the source.
* `PeerRequestAuthenticator.Step` : a call at a time, with the request it passes.

## Main results

* `PeerRequestAuthenticator.Consistent.step` : every call keeps the counts and the caps.
* `PeerRequestAuthenticator.peer_requests_not_replayed` : no request passes twice.
-/

namespace ZyronChain

open Checks Method JsMap List

/-! ### Requests -/

/-- `PEER_REQUEST_DOMAIN`. -/
def peerRequestDomain : String := "ZyronChain/peer-request/v1"

/-- `PEER_REQUEST_MAX_SKEW_MS`. -/
def peerRequestMaxSkewMs : Int := 60000

/-- `MAX_PEER_REQUEST_NONCES`. -/
def maxPeerRequestNonces : Int := 10000

/-- `MAX_PEER_REQUEST_NONCES_PER_IDENTITY`. -/
def maxPeerRequestNoncesPerIdentity : Int := 2500

/-- The value of a header: none, one text or several. -/
inductive HeaderValue where
  | absent
  | single (value : String)
  | multiple (values : List String)
  deriving DecidableEq

/-- The headers that authenticate a request. -/
structure PeerRequestHeaders where
  nodeId : HeaderValue
  publicKey : HeaderValue
  timestamp : HeaderValue
  nonce : HeaderValue
  bodySha256 : HeaderValue
  signature : HeaderValue

def singleHeader (value : HeaderValue) (name : String) : Except String String := match value with
  | .single text => if text = "" then .error s!"Missing peer request {name}" else .ok text
  | .absent | .multiple _ => .error s!"Missing peer request {name}"

/-- The expression `^(0|[1-9][0-9]*)$`. -/
def isTimestampText (text : String) : Bool := match text.toList with
  | [] => false
  | ['0'] => true
  | c :: cs => ('1' ≤ c && c ≤ '9') && cs.all Char.isDigit

/-- The number that a text of digits stands for.  It is a safe integer exactly when the double next
to it is. -/
def decimalValue (text : String) : Int :=
  text.toList.foldl (fun n c => 10 * n + ((c.toNat - '0'.toNat : Nat) : Int)) 0

/-- The fields of the headers. -/
structure PeerRequestFields where
  nodeId : String
  publicKey : String
  timestampMs : Int
  nonce : String
  bodySha256 : String
  signature : String
  deriving DecidableEq

/-- The method and the path of a request. -/
structure PeerRequestTarget where
  method : String
  path : String

/-- The chain that the authenticator serves. -/
structure PeerRequestChain where
  chainId : String
  genesisHash : String
  deriving DecidableEq

section

variable [Crypto]

def nodeIdFromPublicKey (publicKey : String) : Except String String := do
  assertHex publicKey 64 "node identity public key"
  .ok (Crypto.sha256 (hexBytes publicKey.toList))

/-- `peerRequestPayload`.  `upperCase` is the string method `toUpperCase`. -/
def peerRequestPayload (upperCase : String → String) (chain : PeerRequestChain)
    (fields : PeerRequestFields) (target : PeerRequestTarget) : Except String Json := do
  throwIf (target.method ≠ upperCase target.method ∨ target.path.toList.head? ≠ some '/')
    "Invalid peer request target"
  .ok (.obj [("domain", .str peerRequestDomain), ("nodeId", .str fields.nodeId),
    ("publicKey", .str fields.publicKey), ("method", .str target.method),
    ("path", .str target.path), ("chainId", .str chain.chainId),
    ("genesisHash", .str chain.genesisHash), ("bodySha256", .str fields.bodySha256),
    ("timestampMs", .num fields.timestampMs), ("nonce", .str fields.nonce)])

def peerRequestDigest (payload : Json) : String := sha256Hex (canonicalText payload)

end

/-! ### The authenticator -/

inductive ReplayState where
  | reserved
  | consumed
  deriving DecidableEq

structure PeerRequestReplayEntry where
  timestampMs : Int
  state : ReplayState
  requestDigest : String
  deriving DecidableEq

/-- The fields of an authenticator that do not change. -/
structure PeerRequestConfig where
  trustedPublicKeys : List String
  expected : PeerRequestChain
  maxSeenNonces : Int
  maxSeenNoncesPerIdentity : Int
  deriving DecidableEq

structure PeerRequestAuthenticator where
  config : PeerRequestConfig
  seenNonces : JsMap String PeerRequestReplayEntry
  seenNonceCountsByNodeId : JsMap String Int
  nextReplaySweepAtMs : WithTop Int
  replaySweepCount : Int
  deriving DecidableEq

def replayKey (nodeId nonce : String) : String := nodeId ++ ":" ++ nonce

/-- The node of a key: what stands before the first colon. -/
def replayNodeId (key : String) : String := String.ofList (key.toList.takeWhile (· ≠ ':'))

def replayExpiryAtMs (timestampMs : Int) : WithTop Int :=
  if timestampMs > maxSafeInteger - (peerRequestMaxSkewMs + 1) then ⊤
  else ((timestampMs + (peerRequestMaxSkewMs + 1) : Int) : WithTop Int)

def WithinSkew (timestampMs nowMs : Int) : Prop := |nowMs - timestampMs| ≤ peerRequestMaxSkewMs

instance (timestampMs nowMs : Int) : Decidable (WithinSkew timestampMs nowMs) :=
  inferInstanceAs (Decidable (_ ≤ _))

namespace PeerRequestAuthenticator

/-- The deletion of an expired entry, with its count. -/
def forget (a : PeerRequestAuthenticator) (key : String) : PeerRequestAuthenticator :=
  let remaining := (a.seenNonceCountsByNodeId.get (replayNodeId key)).getD 1 - 1
  { a with
    seenNonces := a.seenNonces.delete key
    seenNonceCountsByNodeId :=
      if remaining ≤ 0 then a.seenNonceCountsByNodeId.delete (replayNodeId key)
      else a.seenNonceCountsByNodeId.set (replayNodeId key) remaining }

/-- The loop of `sweepIfDue`, over the entries and the time of the next sweep. -/
def sweepEntries (nowMs : Int) : List (String × PeerRequestReplayEntry) →
    PeerRequestAuthenticator → WithTop Int → PeerRequestAuthenticator
  | [], a, nextSweepAtMs => { a with nextReplaySweepAtMs := nextSweepAtMs }
  | (key, entry) :: es, a, nextSweepAtMs =>
    if replayExpiryAtMs entry.timestampMs ≤ nowMs then
      sweepEntries nowMs es (a.forget key) nextSweepAtMs
    else sweepEntries nowMs es a (min nextSweepAtMs (replayExpiryAtMs entry.timestampMs))

def sweepIfDue (nowMs : Int) (a : PeerRequestAuthenticator) : PeerRequestAuthenticator :=
  if (nowMs : WithTop Int) < a.nextReplaySweepAtMs then a
  else sweepEntries nowMs a.seenNonces.entries
    { a with replaySweepCount := a.replaySweepCount + 1 } ⊤

/-- A new entry, with its count and the time of the next sweep. -/
def remember (fields : PeerRequestFields) (state : ReplayState) (requestDigest : String)
    (a : PeerRequestAuthenticator) : PeerRequestAuthenticator :=
  { a with
    seenNonces := a.seenNonces.set (replayKey fields.nodeId fields.nonce)
      ⟨fields.timestampMs, state, requestDigest⟩
    seenNonceCountsByNodeId := a.seenNonceCountsByNodeId.set fields.nodeId
      ((a.seenNonceCountsByNodeId.get fields.nodeId).getD 0 + 1)
    nextReplaySweepAtMs := min a.nextReplaySweepAtMs (replayExpiryAtMs fields.timestampMs) }

def assertReplayCapacity (a : PeerRequestAuthenticator) (nodeId : String) : Except String Unit := do
  throwIf ((a.seenNonceCountsByNodeId.get nodeId).getD 0 ≥ a.config.maxSeenNoncesPerIdentity)
    "Peer request replay cache per-identity capacity exceeded"
  throwIf ((a.seenNonces.keys.length : Int) ≥ a.config.maxSeenNonces)
    "Peer request replay cache capacity exceeded"

section

variable [Crypto]

def create (trustedPublicKeys : List String) (expected : PeerRequestChain)
    (maxSeenNonces maxSeenNoncesPerIdentity : Option Int) :
    Except String PeerRequestAuthenticator := do
  throwIf (trustedPublicKeys.length = 0) "At least one trusted peer identity is required"
  let capacity := maxSeenNonces.getD maxPeerRequestNonces
  throwIf (¬ IsSafeInteger capacity ∨ capacity < 1 ∨ capacity > maxPeerRequestNonces)
    "Invalid peer request replay cache capacity"
  let perIdentity := maxSeenNoncesPerIdentity.getD (min maxPeerRequestNoncesPerIdentity capacity)
  throwIf (¬ IsSafeInteger perIdentity ∨ perIdentity < 1 ∨ perIdentity > capacity ∨
    perIdentity > maxPeerRequestNoncesPerIdentity)
    "Invalid peer request per-identity replay cache capacity"
  forEach (fun publicKey => do
    assertHex publicKey 64 "trusted peer public key"
    let _ ← nodeIdFromPublicKey publicKey
    .ok ()) trustedPublicKeys
  .ok ⟨⟨trustedPublicKeys, expected, capacity, perIdentity⟩, .empty, .empty, ⊤, 0⟩

def validateHeaders (config : PeerRequestConfig) (headers : PeerRequestHeaders) (nowMs : Int) :
    Except String PeerRequestFields := do
  let nodeId ← singleHeader headers.nodeId "node ID"
  let publicKey ← singleHeader headers.publicKey "public key"
  let timestampText ← singleHeader headers.timestamp "timestamp"
  let nonce ← singleHeader headers.nonce "nonce"
  let bodySha256 ← singleHeader headers.bodySha256 "body hash"
  let signature ← singleHeader headers.signature "signature"
  assertHex nodeId 32 "peer request node ID"
  assertHex publicKey 64 "peer request public key"
  assertHex nonce 16 "peer request nonce"
  assertHex bodySha256 32 "peer request body hash"
  assertHex signature 64 "peer request signature"
  throwIf (publicKey ∉ config.trustedPublicKeys) "Untrusted peer identity"
  let derived ← nodeIdFromPublicKey publicKey
  throwIf (derived ≠ nodeId) "Peer request node ID mismatch"
  throwIf (¬ isTimestampText timestampText = true) "Invalid peer request timestamp"
  let timestampMs := decimalValue timestampText
  throwIf (¬ IsSafeInteger timestampMs ∨ ¬ WithinSkew timestampMs nowMs)
    "Peer request timestamp outside allowed window"
  .ok ⟨nodeId, publicKey, timestampMs, nonce, bodySha256, signature⟩

variable (upperCase : String → String)

def signedPayload (config : PeerRequestConfig) (fields : PeerRequestFields)
    (target : PeerRequestTarget) : Except String Json := do
  let payload ← peerRequestPayload upperCase config.expected fields target
  throwIf (¬ verifyCanonical payload fields.signature fields.publicKey = true)
    "Invalid peer request signature"
  .ok payload

def preflight (headers : PeerRequestHeaders) (target : PeerRequestTarget) (nowMs : Int) :
    Method PeerRequestAuthenticator Unit := do
  let fields ← call (validateHeaders (← get).config headers nowMs)
  modify (sweepIfDue nowMs)
  throwWhen ((← get).seenNonces.has (replayKey fields.nodeId fields.nonce) = true)
    "Replayed peer request"
  let payload ← call (signedPayload upperCase (← get).config fields target)
  call ((← get).assertReplayCapacity fields.nodeId)
  modify (remember fields .reserved (peerRequestDigest payload))

/-- The end of `verify`: a reserved nonce is consumed, a new one is stored as consumed. -/
def consume (fields : PeerRequestFields) (requestDigest : String) :
    Method PeerRequestAuthenticator String := do
  match (← get).seenNonces.get (replayKey fields.nodeId fields.nonce) with
  | some existing => do
    throwWhen (existing.state ≠ .reserved) "Replayed peer request"
    throwWhen (existing.requestDigest ≠ requestDigest ∨
      existing.timestampMs ≠ fields.timestampMs) "Peer request nonce reservation mismatch"
    modify fun a => { a with
      seenNonces := a.seenNonces.set (replayKey fields.nodeId fields.nonce)
        { existing with state := .consumed } }
    pure fields.nodeId
  | none => do
    call ((← get).assertReplayCapacity fields.nodeId)
    modify (remember fields .consumed requestDigest)
    pure fields.nodeId

def verify (headers : PeerRequestHeaders) (target : PeerRequestTarget) (bodySha256 : String)
    (nowMs : Int) : Method PeerRequestAuthenticator String := do
  let fields ← call (validateHeaders (← get).config headers nowMs)
  call (assertHex bodySha256 32 "peer request body hash")
  throwWhen (bodySha256 ≠ fields.bodySha256) "Peer request body hash mismatch"
  modify (sweepIfDue nowMs)
  let payload ← call (signedPayload upperCase (← get).config fields target)
  consume fields (peerRequestDigest payload)

end

/-! ### What a call leaves -/

/-- The entries remembered for an identity. -/
def entriesOf (a : PeerRequestAuthenticator) (nodeId : String) : Int :=
  a.seenNonces.keys.countP fun key => replayNodeId key = nodeId

/-- The counts are those of the entries, and the caps of the configuration hold. -/
structure Consistent (config : PeerRequestConfig) (a : PeerRequestAuthenticator) : Prop where
  config_eq : a.config = config
  counts : a.seenNonceCountsByNodeId.Tallies a.entriesOf
  cap : (a.seenNonces.keys.length : Int) ≤ config.maxSeenNonces
  capPerIdentity : ∀ nodeId, a.entriesOf nodeId ≤ config.maxSeenNoncesPerIdentity

/-- What every call may do at a time: a consumed entry stays as it is until it expires. -/
structure Change (nowMs : Int) (a b : PeerRequestAuthenticator) : Prop where
  consistent : ∀ {config : PeerRequestConfig}, Consistent config a → Consistent config b
  keeps : ∀ {key : String} {entry : PeerRequestReplayEntry}, entry.state = .consumed →
    a.seenNonces.get key = some entry →
    b.seenNonces.get key = some entry ∨ replayExpiryAtMs entry.timestampMs ≤ nowMs

variable {nowMs : Int} {a b c : PeerRequestAuthenticator} {key : String}
  {entry : PeerRequestReplayEntry} {fields : PeerRequestFields}

theorem Change.refl (a : PeerRequestAuthenticator) : Change nowMs a a := ⟨id, fun _ => .inl⟩

theorem Change.trans (h : Change nowMs a b) (h' : Change nowMs b c) : Change nowMs a c := by
  refine ⟨fun hcons => h'.consistent (h.consistent hcons), fun hstate hget => ?_⟩
  rcases h.keeps hstate hget with hkept | hexpired
  · exact h'.keeps hstate hkept
  · exact .inr hexpired

private theorem perm_keys_delete (h : a.seenNonces.get key = some entry) :
    a.seenNonces.keys.Perm (key :: (a.seenNonces.delete key).keys) :=
  (perm_delete h).map Prod.fst

theorem change_forget (h : a.seenNonces.get key = some entry)
    (hexpired : replayExpiryAtMs entry.timestampMs ≤ nowMs) : Change nowMs a (a.forget key) := by
  have hperm := perm_keys_delete h
  have hcount (nodeId : String) : a.entriesOf nodeId =
      (a.forget key).entriesOf nodeId + if replayNodeId key = nodeId then 1 else 0 := by
    rw [entriesOf, hperm.countP_eq, countP_cons, entriesOf, Nat.cast_add]
    simp [forget]
  have hnonneg (nodeId : String) : 0 ≤ (a.forget key).entriesOf nodeId := Int.natCast_nonneg _
  constructor
  · intro config hcons
    refine ⟨hcons.config_eq, ?_, ?_, ?_⟩
    · have hown := hcount (replayNodeId key)
      rw [if_pos rfl] at hown
      have hget := hcons.counts (replayNodeId key)
      rw [if_neg (by have := hnonneg (replayNodeId key); omega)] at hget
      -- the entry itself was counted, so the source's branch is the one of `tally`
      have htally : (a.forget key).seenNonceCountsByNodeId =
          a.seenNonceCountsByNodeId.tally (replayNodeId key) (-1) := by
        have := hnonneg (replayNodeId key)
        simp only [forget, JsMap.tally, hget, Option.getD_some]
        rw [← Int.sub_eq_add_neg]
        exact if_congr (by omega) rfl rfl
      rw [htally]
      refine hcons.counts.tally (by omega) fun nodeId hne => ?_
      rw [hcount nodeId, if_neg (Ne.symm hne), add_zero]
    · have hlen := hperm.length_eq
      rw [length_cons] at hlen
      have := hcons.cap
      change (((a.seenNonces.delete key).keys.length : Nat) : Int) ≤ _
      omega
    · intro nodeId
      have := hcons.capPerIdentity nodeId
      have hcounted := hcount nodeId
      split at hcounted <;> omega
  · intro key' entry' _ hget
    by_cases hkey : key' = key
    · subst hkey
      cases h.symm.trans hget
      exact .inr hexpired
    · refine .inl ?_
      change (a.seenNonces.delete key).get key' = some entry'
      rw [get_delete, if_neg hkey, hget]

/-- The loop of a sweep meets every entry where the map has it. -/
theorem change_sweepEntries (es : List (String × PeerRequestReplayEntry)) :
    ∀ (a : PeerRequestAuthenticator) (nextSweepAtMs : WithTop Int), (es.map Prod.fst).Nodup →
      (∀ e ∈ es, a.seenNonces.get e.1 = some e.2) →
      Change nowMs a (sweepEntries nowMs es a nextSweepAtMs) := by
  induction es with
  | nil =>
    intro a nextSweepAtMs _ _
    exact ⟨fun hcons => ⟨hcons.config_eq, hcons.counts, hcons.cap, hcons.capPerIdentity⟩,
      fun _ => .inl⟩
  | cons e es ih =>
    intro a nextSweepAtMs hnodup hmem
    obtain ⟨key, entry⟩ := e
    rw [map_cons, nodup_cons] at hnodup
    have hrest : ∀ e ∈ es, a.seenNonces.get e.1 = some e.2 := fun e he => hmem e (.tail _ he)
    rw [sweepEntries]
    split
    · rename_i hexpired
      refine (change_forget (hmem _ (.head _)) hexpired).trans (ih _ _ hnodup.2 fun e he => ?_)
      have hne : e.1 ≠ key := fun heq => hnodup.1 (mem_map.mpr ⟨e, he, heq⟩)
      change (a.seenNonces.delete key).get e.1 = some e.2
      rw [get_delete, if_neg hne, hrest e he]
    · exact ih _ _ hnodup.2 hrest

theorem change_sweepIfDue (a : PeerRequestAuthenticator) : Change nowMs a (a.sweepIfDue nowMs) := by
  rw [sweepIfDue]
  split
  · exact .refl a
  · have hcount : Change nowMs a { a with replaySweepCount := a.replaySweepCount + 1 } :=
      ⟨fun hcons => ⟨hcons.config_eq, hcons.counts, hcons.cap, hcons.capPerIdentity⟩, fun _ => .inl⟩
    exact hcount.trans (change_sweepEntries _ _ _ a.seenNonces.nodup fun e he =>
      get_eq_some_iff.mpr he)

theorem change_remember {state : ReplayState} {requestDigest : String}
    (hnode : replayNodeId (replayKey fields.nodeId fields.nonce) = fields.nodeId)
    (habsent : a.seenNonces.get (replayKey fields.nodeId fields.nonce) = none)
    (hcapacity : a.assertReplayCapacity fields.nodeId = .ok ()) :
    Change nowMs a (a.remember fields state requestDigest) := by
  have hkeys : (a.remember fields state requestDigest).seenNonces.keys =
      a.seenNonces.keys ++ [replayKey fields.nodeId fields.nonce] := by
    simp [remember, JsMap.keys, entries_set habsent]
  have hcount (nodeId : String) : (a.remember fields state requestDigest).entriesOf nodeId =
      a.entriesOf nodeId + if fields.nodeId = nodeId then 1 else 0 := by
    rw [entriesOf, hkeys, countP_append, entriesOf, Nat.cast_add]
    simp [countP_cons, hnode]
  rw [assertReplayCapacity, throwIf_bind_eq_ok, throwIf_eq_ok] at hcapacity
  obtain ⟨hidentity, hglobal⟩ := hcapacity
  constructor
  · intro config hcons
    rw [hcons.counts.getD, hcons.config_eq] at hidentity
    rw [hcons.config_eq] at hglobal
    refine ⟨hcons.config_eq, ?_, ?_, ?_⟩
    · have hnonneg : 0 ≤ a.entriesOf fields.nodeId := Int.natCast_nonneg _
      have htally : (a.remember fields state requestDigest).seenNonceCountsByNodeId =
          a.seenNonceCountsByNodeId.tally fields.nodeId 1 := by
        rw [JsMap.tally, if_neg (by rw [hcons.counts.getD]; omega)]
        rfl
      rw [htally]
      refine hcons.counts.tally (by rw [hcount, if_pos rfl]) fun nodeId hne => ?_
      rw [hcount, if_neg (Ne.symm hne), add_zero]
    · rw [hkeys, length_append, length_singleton]
      omega
    · intro nodeId
      have := hcons.capPerIdentity nodeId
      rw [hcount]
      split
      · rename_i heq
        subst heq
        omega
      · omega
  · intro key entry _ hget
    refine .inl ?_
    have hne : replayKey fields.nodeId fields.nonce ≠ key := fun heq => by
      rw [← heq, habsent] at hget
      cases hget
    exact (get_set_of_ne hne).trans hget

theorem change_mark {existing : PeerRequestReplayEntry} (h : a.seenNonces.get key = some entry)
    (hreserved : entry.state = .reserved) :
    Change nowMs a { a with seenNonces := a.seenNonces.set key existing } := by
  have hkeys : (a.seenNonces.set key existing).keys = a.seenNonces.keys := keys_set h
  constructor
  · intro config hcons
    have hentries : entriesOf { a with seenNonces := a.seenNonces.set key existing } =
        a.entriesOf := funext fun nodeId => by simp only [entriesOf, hkeys]
    refine ⟨hcons.config_eq, ?_, ?_, ?_⟩
    · rw [hentries]
      exact hcons.counts
    · change ((a.seenNonces.set key existing).keys.length : Int) ≤ _
      rw [hkeys]
      exact hcons.cap
    · rw [hentries]
      exact hcons.capPerIdentity
  · intro key' entry' hstate hget
    refine .inl ?_
    have hne : key ≠ key' := fun heq => by
      subst heq
      cases h.symm.trans hget
      rw [hreserved] at hstate
      cases hstate
    exact (get_set_of_ne hne).trans hget

/-- The request of some fields is in the map as consumed. -/
def Consumed (nodeId nonce : String) (timestampMs : Int) (a : PeerRequestAuthenticator) : Prop :=
  ∃ requestDigest, a.seenNonces.get (replayKey nodeId nonce) =
    some ⟨timestampMs, .consumed, requestDigest⟩

/-- `consume` passes only a request whose key holds no consumed entry. -/
theorem consume_ensures {requestDigest : String}
    (hnode : replayNodeId (replayKey fields.nodeId fields.nonce) = fields.nodeId) :
    Ensures (consume fields requestDigest) a
      (fun _ b => Change nowMs a b ∧ b.Consumed fields.nodeId fields.nonce fields.timestampMs ∧
        ∀ t, ¬ a.Consumed fields.nodeId fields.nonce t)
      fun _ => Change nowMs a := by
  simp only [consume, ensures_bind, ensures_get]
  cases hget : a.seenNonces.get (replayKey fields.nodeId fields.nonce) with
  | some existing =>
    simp only [ensures_bind, ensures_throwWhen, ensures_modify, ensures_pure]
    refine ⟨fun _ => .refl a, fun hreserved => ⟨fun _ => .refl a, fun hmatch => ?_⟩⟩
    rw [not_not] at hreserved
    rw [not_or, not_not, not_not] at hmatch
    refine ⟨change_mark hget hreserved, ⟨existing.requestDigest, ?_⟩, fun t hconsumed => ?_⟩
    · rw [get_set_self, ← hmatch.2]
    · obtain ⟨digest, hsome⟩ := hconsumed
      cases hget.symm.trans hsome
      cases hreserved
  | none =>
    simp only [ensures_bind, ensures_get, ensures_call, ensures_modify, ensures_pure]
    refine ⟨fun _ hcapacity => ⟨change_remember hnode hget hcapacity, ⟨requestDigest, ?_⟩,
      fun t hconsumed => ?_⟩, fun _ _ => .refl a⟩
    · exact get_set_self _ _ _
    · obtain ⟨digest, hsome⟩ := hconsumed
      cases hget.symm.trans hsome

/-- An entry expires only when its time is no longer accepted. -/
theorem lt_of_replayExpiryAtMs_le {timestampMs : Int}
    (h : replayExpiryAtMs timestampMs ≤ nowMs) : peerRequestMaxSkewMs < nowMs - timestampMs := by
  rw [replayExpiryAtMs] at h
  split at h
  · exact absurd h (WithTop.not_top_le_coe _)
  · have := WithTop.coe_le_coe.mp h
    omega

theorem Change.consumed {nodeId nonce : String} {t : Int} (h : Change nowMs a b)
    (hconsumed : a.Consumed nodeId nonce t) :
    b.Consumed nodeId nonce t ∨ peerRequestMaxSkewMs < nowMs - t := by
  obtain ⟨digest, hget⟩ := hconsumed
  rcases h.keeps rfl hget with hkept | hexpired
  · exact .inl ⟨digest, hkept⟩
  · exact .inr (lt_of_replayExpiryAtMs_le hexpired)

/-! ### Runs -/

section

variable [Crypto] {config : PeerRequestConfig} {headers : PeerRequestHeaders}

/-- Validated headers name a node without a colon and a time within the window. -/
theorem of_validateHeaders_eq_ok (h : validateHeaders config headers nowMs = .ok fields) :
    replayNodeId (replayKey fields.nodeId fields.nonce) = fields.nodeId ∧
      WithinSkew fields.timestampMs nowMs := by
  obtain ⟨nodeId, -, h⟩ := bind_eq_ok.mp h
  obtain ⟨publicKey, -, h⟩ := bind_eq_ok.mp h
  obtain ⟨timestampText, -, h⟩ := bind_eq_ok.mp h
  obtain ⟨nonce, -, h⟩ := bind_eq_ok.mp h
  obtain ⟨bodySha256, -, h⟩ := bind_eq_ok.mp h
  obtain ⟨signature, -, h⟩ := bind_eq_ok.mp h
  obtain ⟨hnode, h⟩ := unit_bind_eq_ok.mp h
  iterate 4 replace h := (unit_bind_eq_ok.mp h).2
  replace h := (throwIf_bind_eq_ok.mp h).2
  obtain ⟨derived, -, h⟩ := bind_eq_ok.mp h
  iterate 2 replace h := (throwIf_bind_eq_ok.mp h).2
  obtain ⟨htime, h⟩ := throwIf_bind_eq_ok.mp h
  cases h
  refine ⟨?_, (not_not.mp (not_or.mp htime).2)⟩
  have hcolon : ∀ c ∈ nodeId.toList, decide (c ≠ ':') = true := by
    intro c hc
    have hhex := (assertHex_eq_ok.mp hnode).2 c hc
    refine decide_eq_true fun heq => ?_
    subst heq
    revert hhex
    decide
  rw [replayNodeId, replayKey, String.toList_append, String.toList_append, append_assoc,
    takeWhile_append_of_pos hcolon]
  simp

variable (upperCase : String → String)

theorem preflight_ensures (headers : PeerRequestHeaders) (target : PeerRequestTarget)
    (nowMs : Int) (a : PeerRequestAuthenticator) :
    Ensures (preflight upperCase headers target nowMs) a (fun _ => Change nowMs a)
      fun _ => Change nowMs a := by
  have hsweep : Change nowMs a (a.sweepIfDue nowMs) := change_sweepIfDue a
  simp only [preflight, ensures_bind, ensures_get, ensures_call, ensures_modify, ensures_throwWhen]
  refine ⟨fun fields hfields => ⟨fun _ => hsweep, fun hfresh => ⟨fun payload _ =>
    ⟨fun _ hcapacity => hsweep.trans (change_remember (of_validateHeaders_eq_ok hfields).1 ?_
      hcapacity), fun _ _ => hsweep⟩, fun _ _ => hsweep⟩⟩, fun _ _ => .refl a⟩
  simpa [JsMap.has] using hfresh

/-- `verify` passes a request whose key holds no consumed entry after the sweep. -/
theorem verify_ensures (headers : PeerRequestHeaders) (target : PeerRequestTarget)
    (bodySha256 : String) (nowMs : Int) (a : PeerRequestAuthenticator) :
    Ensures (verify upperCase headers target bodySha256 nowMs) a
      (fun _ b => Change nowMs a b ∧ ∀ fields, validateHeaders a.config headers nowMs = .ok fields →
        b.Consumed fields.nodeId fields.nonce fields.timestampMs ∧
          ∀ t, ¬ (a.sweepIfDue nowMs).Consumed fields.nodeId fields.nonce t)
      fun _ => Change nowMs a := by
  have hsweep : Change nowMs a (a.sweepIfDue nowMs) := change_sweepIfDue a
  simp only [verify, ensures_bind, ensures_get, ensures_call, ensures_modify, ensures_throwWhen]
  refine ⟨fun fields hfields => ⟨fun _ _ => ⟨fun _ => .refl a, fun _ => ⟨fun payload _ => ?_,
    fun _ _ => hsweep⟩⟩, fun _ _ => .refl a⟩, fun _ _ => .refl a⟩
  refine (consume_ensures (of_validateHeaders_eq_ok hfields).1).imp (fun _ b hb => ?_)
    fun _ b hb => hsweep.trans hb
  refine ⟨hsweep.trans hb.1, fun fields' hfields' => ?_⟩
  cases hfields.symm.trans hfields'
  exact hb.2

/-- A request as its signer identifies it. -/
structure PeerRequest where
  nodeId : String
  nonce : String
  timestampMs : Int
  deriving DecidableEq

/-- A call at a time, with the request that passes `verify`, if one does. -/
inductive Step (a : PeerRequestAuthenticator) (nowMs : Int) :
    Option PeerRequest → PeerRequestAuthenticator → Prop
  | preflight (headers : PeerRequestHeaders) (target : PeerRequestTarget) :
      Step a nowMs none (state (preflight upperCase headers target nowMs a))
  | refused {headers : PeerRequestHeaders} {target : PeerRequestTarget} {bodySha256 e : String}
      {b : PeerRequestAuthenticator}
      (h : verify upperCase headers target bodySha256 nowMs a = .error e b) : Step a nowMs none b
  | passed {headers : PeerRequestHeaders} {target : PeerRequestTarget} {bodySha256 nodeId : String}
      {fields : PeerRequestFields} {b : PeerRequestAuthenticator}
      (hfields : validateHeaders a.config headers nowMs = .ok fields)
      (h : verify upperCase headers target bodySha256 nowMs a = .ok nodeId b) :
      Step a nowMs (some ⟨fields.nodeId, fields.nonce, fields.timestampMs⟩) b

variable {upperCase} {request : Option PeerRequest}

theorem Step.change (h : Step upperCase a nowMs request b) : Change nowMs a b := by
  cases h with
  | preflight headers target => exact (preflight_ensures upperCase headers target nowMs a).state
  | refused h => exact (verify_ensures upperCase _ _ _ nowMs a).of_error h
  | passed hfields h => exact ((verify_ensures upperCase _ _ _ nowMs a).of_ok h).1

/-- A request that passes is consumed afterwards, its time is accepted, and no entry under its key
was consumed after the sweep. -/
theorem Step.of_passed {r : PeerRequest} (h : Step upperCase a nowMs (some r) b) :
    b.Consumed r.nodeId r.nonce r.timestampMs ∧ WithinSkew r.timestampMs nowMs ∧
      ∀ t, ¬ (a.sweepIfDue nowMs).Consumed r.nodeId r.nonce t := by
  cases h with
  | passed hfields h =>
    have hpassed := ((verify_ensures upperCase _ _ _ nowMs a).of_ok h).2 _ hfields
    exact ⟨hpassed.1, (of_validateHeaders_eq_ok hfields).2, hpassed.2⟩

variable (upperCase) in
/-- The authenticator as a replay guard: a request is remembered by its consumed entry. -/
def replayGuard (config : PeerRequestConfig) : ReplayGuard PeerRequestAuthenticator PeerRequest where
  inv := Consistent config
  step a nowMs r b := Step upperCase a nowMs r b
  remembers a r := a.Consumed r.nodeId r.nonce r.timestampMs
  expired r nowMs := peerRequestMaxSkewMs < nowMs - r.timestampMs
  conflict r r' := r.nodeId = r'.nodeId ∧ r.nonce = r'.nonce
  expired_mono := by
    intro r t t' hle h
    omega
  inv_step := fun hcons hstep => hstep.change.consistent hcons
  keeps := fun _ hstep hconsumed => hstep.change.consumed hconsumed
  stores := fun _ hstep => hstep.of_passed.1
  fresh := by
    intro a b t r _ hstep
    have := (abs_le.mp hstep.of_passed.2.1).2
    omega
  refuses := by
    rintro a b t ⟨nodeId, nonce, t₁⟩ ⟨nodeId', nonce', t₂⟩ _ hstep ⟨rfl, rfl⟩ hconsumed
    rcases (change_sweepIfDue a).consumed hconsumed with hkept | hexpired
    · exact absurd hkept (hstep.of_passed.2.2 t₁)
    · exact hexpired

theorem consistent_of_create_eq_ok {trustedPublicKeys : List String} {expected : PeerRequestChain}
    {maxSeenNonces maxSeenNoncesPerIdentity : Option Int} {start : PeerRequestAuthenticator}
    (h : create trustedPublicKeys expected maxSeenNonces maxSeenNoncesPerIdentity = .ok start) :
    Consistent start.config start := by
  obtain ⟨-, h⟩ := throwIf_bind_eq_ok.mp h
  obtain ⟨hcap, h⟩ := throwIf_bind_eq_ok.mp h
  obtain ⟨hcapPerIdentity, h⟩ := throwIf_bind_eq_ok.mp h
  obtain ⟨-, h⟩ := unit_bind_eq_ok.mp h
  cases h
  simp only [not_or, not_lt] at hcap hcapPerIdentity
  exact ⟨rfl, fun nodeId => rfl, zero_le_one.trans hcap.2.1,
    fun nodeId => zero_le_one.trans hcapPerIdentity.2.1⟩

/-- In every run of `preflight` and `verify` on a clock that does not go back no request passes
twice, a nonce of a node passes again only when the time of its first request is accepted no more,
and the counts and the caps hold. -/
theorem peer_requests_not_replayed {trustedPublicKeys : List String} {expected : PeerRequestChain}
    {maxSeenNonces maxSeenNoncesPerIdentity : Option Int} {start a : PeerRequestAuthenticator}
    {t : Int} {passed : List (PeerRequest × Int)}
    (hcreate : create trustedPublicKeys expected maxSeenNonces maxSeenNoncesPerIdentity = .ok start)
    (hrun : (replayGuard upperCase start.config).Run start a t passed) :
    (passed.map Prod.fst).Nodup ∧
      passed.Pairwise (fun x y => x.1.nodeId = y.1.nodeId → x.1.nonce = y.1.nonce →
        ∀ nowMs, y.2 ≤ nowMs → ¬ WithinSkew x.1.timestampMs nowMs) ∧
      (∀ nodeId, (a.seenNonceCountsByNodeId.get nodeId).getD 0 = a.entriesOf nodeId) ∧
      (a.seenNonces.keys.length : Int) ≤ start.config.maxSeenNonces ∧
      ∀ nodeId, a.entriesOf nodeId ≤ start.config.maxSeenNoncesPerIdentity := by
  have hstart := consistent_of_create_eq_ok hcreate
  have hcons : Consistent start.config a := hrun.inv hstart
  refine ⟨hrun.nodup hstart fun r => ⟨rfl, rfl⟩, ?_, hcons.counts.getD, hcons.cap,
    hcons.capPerIdentity⟩
  refine (hrun.pairwise hstart).imp fun {x y} hpair hnode hnonce nowMs hle hskew => ?_
  have hexpired : peerRequestMaxSkewMs < y.2 - x.1.timestampMs := hpair ⟨hnode, hnonce⟩
  have := (abs_le.mp hskew).2
  omega

end

section Sample

local instance acceptingCrypto : Crypto := .ofTable fun _ _ _ => true

private def sampleHeaders : PeerRequestHeaders :=
  ⟨.single (digits 64 '7'), .single (digits 128 '1'), .single "1000", .single (digits 32 '2'),
    .single (digits 64 '3'), .single (digits 128 '4')⟩

/-- A request that is reserved and then verified passes. -/
theorem peer_requests_not_replayed_sample : ∃ start a : PeerRequestAuthenticator,
    create [digits 128 '1'] ⟨"zyron", digits 64 '5'⟩ none none = .ok start ∧
      (replayGuard id start.config).Run start a 1000
        [(⟨digits 64 '7', digits 32 '2', 1000⟩, 1000)] ∧
      (a.seenNonceCountsByNodeId.get (digits 64 '7')).getD 0 = a.entriesOf (digits 64 '7') := by
  let start : PeerRequestAuthenticator :=
    ⟨⟨[digits 128 '1'], ⟨"zyron", digits 64 '5'⟩, 10000, 2500⟩, .empty, .empty, ⊤, 0⟩
  have hcreate : create [digits 128 '1'] ⟨"zyron", digits 64 '5'⟩ none none = .ok start := by
    decide +kernel
  let reserved := state (preflight id sampleHeaders ⟨"GET", "/status"⟩ 1000 start)
  have hpassed : returned (verify id sampleHeaders ⟨"GET", "/status"⟩ (digits 64 '3') 1000
      reserved) = true := by
    decide +kernel
  obtain ⟨nodeId, a, hverify⟩ := exists_of_returned hpassed
  have hfields : validateHeaders reserved.config sampleHeaders 1000 = .ok ⟨digits 64 '7',
      digits 128 '1', 1000, digits 32 '2', digits 64 '3', digits 128 '4'⟩ := by
    decide +kernel
  have hfirst : Step id start 1000 none reserved := .preflight sampleHeaders ⟨"GET", "/status"⟩
  have hsecond : Step id reserved 1000 (some ⟨digits 64 '7', digits 32 '2', 1000⟩) a :=
    .passed hfields hverify
  have hreserved : (replayGuard id start.config).Run start reserved 1000 [] :=
    .step (r := none) (.start 1000) le_rfl hfirst
  have hrun := hreserved.step le_rfl hsecond
  exact ⟨start, a, hcreate, hrun, (peer_requests_not_replayed hcreate hrun).2.2.1 _⟩

end Sample

end PeerRequestAuthenticator

end ZyronChain
