import ZyronChain.CanonicalForm
import ZyronChain.RemoteSigner

/-!
# The intents of the remote signer

A skip vote is a signature of the canonical text of six fields, under a domain from protocol
version 3 on and as it is before.  The signer reserves a slot of its journal for a request whose
intent is a round skip.  For the other two intents of version 1 it checks only the chain and the
height of the payload, which it then signs without a domain: such a payload may be that of a skip
vote.

Source: `l1/src/remote-signer-service.ts` (`signLocked`, `legacyGuard`), `l1/src/block.ts`
(`validateRoundSkipVote`).

## Main definitions

* `RemoteSigner.SkipVote` : a released signature that is accepted as a skip vote of the validator.
* `RemoteSigner.Confusable` : a request of another intent for the payload of a skip vote.

## Main results

* `RemoteSigner.release_cases` : which requests release what.
* `RemoteSigner.skip_votes_reserved` : without confusable requests, every skip vote has its
  reservation in the journal.
-/

namespace ZyronChain

open Checks SigningJournal List ValidatorMessage

/-! ### Members of normal forms -/

mutual

/-- No object of the value has two members of one name, as no object of ECMAScript has. -/
def NamesDistinct : Json → Prop
  | .arr items => NamesDistinctItems items
  | .obj members => (members.map Prod.fst).Nodup ∧ NamesDistinctMembers members
  | .null | .bool _ | .num _ | .decimal _ | .str _ => True

/-- The items of an array have distinct names. -/
def NamesDistinctItems : List Json → Prop
  | [] => True
  | v :: vs => NamesDistinct v ∧ NamesDistinctItems vs

/-- The values of the members of an object have distinct names. -/
def NamesDistinctMembers : List (String × Json) → Prop
  | [] => True
  | (_, v) :: ms => NamesDistinct v ∧ NamesDistinctMembers ms

end

mutual

/-- A value that can be encoded has integer numbers only. -/
theorem plain_of_canonical {depth : Nat} (v : Json) (hv : Canonical depth v)
    (hnames : NamesDistinct v) : v.Plain := by
  cases v with
  | arr items => exact plainItems_of_canonical items hv.2 hnames
  | obj members => exact ⟨hnames.1, plainMembers_of_canonical members hv.2 hnames.2⟩
  | decimal literal => exact hv
  | null | bool | num | str => trivial

theorem plainItems_of_canonical {depth : Nat} (vs : List Json) (hvs : CanonicalItems depth vs)
    (hnames : NamesDistinctItems vs) : Json.PlainItems vs := by
  cases vs with
  | nil => trivial
  | cons v vs =>
    exact ⟨plain_of_canonical v hvs.1 hnames.1, plainItems_of_canonical vs hvs.2 hnames.2⟩

theorem plainMembers_of_canonical {depth : Nat} (ms : List (String × Json))
    (hms : CanonicalMembers depth ms) (hnames : NamesDistinctMembers ms) :
    Json.PlainMembers ms := by
  match ms with
  | [] => trivial
  | (_, v) :: ms =>
    exact ⟨plain_of_canonical v hms.1 hnames.1, plainMembers_of_canonical ms hms.2 hnames.2⟩

end

variable {v : Json}

theorem field_eq_some_iff {ms : List (String × Json)} (hnodup : (ms.map Prod.fst).Nodup)
    {name : String} : (Json.obj ms).field name = some v ↔ (name, v) ∈ ms := by
  rw [Json.field, Option.map_eq_some_iff]
  constructor
  · rintro ⟨m, hm, rfl⟩
    have hname : m.1 = name := by simpa using List.find?_some hm
    rw [← hname]
    exact mem_of_find?_eq_some hm
  · intro hmem
    cases hfind : ms.find? fun m => m.1 = name with
    | none =>
      have := List.find?_eq_none.mp hfind _ hmem
      simp at this
    | some m =>
      refine ⟨m, rfl, ?_⟩
      have hname : m.1 = name := by simpa using List.find?_some hfind
      have heq := inj_on_of_nodup_map hnodup (mem_of_find?_eq_some hfind) hmem hname
      rw [heq]

theorem field_normalize (hv : v.Plain) (name : String) :
    (normalize v).field name = (v.field name).map normalize := by
  cases v with
  | obj ms =>
    have hms : (ms.map Prod.fst).Nodup := hv.1
    have hkeys : ((orderEntries (normalizeMembers ms)).map Prod.fst).Nodup := by
      rw [((perm_orderEntries (normalizeMembers ms)).map Prod.fst).nodup_iff, fst_normalizeMembers]
      exact hms
    refine Option.ext fun w => ?_
    rw [normalize, field_eq_some_iff hkeys, (perm_orderEntries _).mem_iff,
      normalizeMembers_eq_map, mem_map, Option.map_eq_some_iff]
    constructor
    · rintro ⟨m, hm, hmw⟩
      rw [Prod.mk.injEq] at hmw
      exact ⟨m.2, (field_eq_some_iff hms).mpr (hmw.1 ▸ hm), hmw.2⟩
    · rintro ⟨u, hu, rfl⟩
      exact ⟨(name, u), (field_eq_some_iff hms).mp hu, rfl⟩
  | null | bool | num | decimal | str | arr => rfl

/-- Values of one text have the same members, up to the order of theirs. -/
theorem field_of_canonicalText {w : Json} (hv : v.Plain) (hw : w.Plain)
    (h : canonicalText v = canonicalText w) (name : String) :
    (v.field name).map normalize = (w.field name).map normalize := by
  rw [← field_normalize hv, ← field_normalize hw, normalize_eq_of_canonicalText hv hw h]

namespace RemoteSigner

theorem strField_of_canonicalText {v w : Json} (hv : v.Plain) (hw : w.Plain)
    (h : canonicalText v = canonicalText w) (name : String) :
    strField v name = strField w name := by
  have hstr : ∀ u : Json, ∀ s, strField u name = some s ↔
      (u.field name).map normalize = some (.str s) := by
    intro u s
    rw [strField]
    cases u.field name with
    | none => simp
    | some x => cases x <;> simp [normalize]
  refine Option.ext fun s => ?_
  rw [hstr, hstr, field_of_canonicalText hv hw h]

theorem numField_of_canonicalText {v w : Json} (hv : v.Plain) (hw : w.Plain)
    (h : canonicalText v = canonicalText w) (name : String) :
    numField v name = numField w name := by
  have hnum : ∀ u : Json, ∀ n, numField u name = some n ↔
      (u.field name).map normalize = some (.num n) := by
    intro u n
    rw [numField]
    cases u.field name with
    | none => simp
    | some x => cases x <;> simp [normalize]
  refine Option.ext fun n => ?_
  rw [hnum, hnum, field_of_canonicalText hv hw h]

section

variable [Crypto] {cfg : Config} {journal : SigningJournal} {request : SigningRequest}
  {reservation : JournalRequest} {release : Release}

/-! ### Which requests release what -/

/-- Where a release comes from: a round skip with its reservation, a request of version 1 for
another intent, signed without a domain, or a domain that is not that of skip votes. -/
inductive Origin (cfg : Config) (request : SigningRequest) (reservation : JournalRequest)
    (release : Release) : Prop
  | skip {height round : Int} {previousHash : String}
      (checked : SkipChecked request.payload height round previousHash)
      (reservation_eq : reservation = .skip height round previousHash)
      (payload_eq : release.payload = request.payload)
      (chainId_eq : strField request.payload "chainId" = some cfg.chainId)
  | undomained (version_eq : request.version = 1) (intent_ne : request.intent ≠ .roundSkip)
      (payload_eq : release.payload = request.payload) (domain_eq : release.domain = none)
      (chainId_eq : strField request.payload "chainId" = some cfg.chainId)
  | domained {domain : String} (domain_eq : release.domain = some domain)
      (domain_ne : domain ≠ roundSkipDomain)
      (payload_eq : release.payload = request.payload ∨ release.payload.Plain)

variable {payload : Json} {height round : Int} {s : State} {q : SigningRequest} {x : Release}
  {previousHash : String}

private theorem origin_legacy {domain : Option String}
    (hdomain : request.intent ≠ .roundSkip → (domain = none ∧ request.version = 1) ∨
      ∃ d, domain = some d ∧ d ≠ roundSkipDomain)
    (h : legacyRelease cfg journal request domain = .ok (reservation, release)) :
    Origin cfg request reservation release := by
  rw [legacyRelease, throwIf_bind_eq_ok] at h
  obtain ⟨⟨height, reservation'⟩, hguard, h⟩ := bind_eq_ok.mp h.2
  cases h
  obtain ⟨hchain, ⟨-, round, previousHash, hchecked, hreservation⟩ | ⟨hintent, -⟩⟩ :=
    legacyGuard_eq_ok hguard
  · exact .skip hchecked hreservation rfl hchain
  · rcases hdomain hintent with ⟨rfl, hversion⟩ | ⟨d, rfl, hne⟩
    · exact .undomained hversion hintent rfl rfl hchain
    · exact .domained rfl hne (.inl rfl)

/-- Which requests release what. -/
theorem release_cases (h : signLocked cfg journal request = .ok (reservation, release)) :
    Origin cfg request reservation release := by
  rw [signLocked, throwIf_bind_eq_ok, throwIf_bind_eq_ok] at h
  obtain ⟨-, -, h⟩ := h
  split at h
  · next hversion =>
    rw [throwIf_bind_eq_ok] at h
    exact origin_legacy (fun _ => .inl ⟨rfl, hversion⟩) h.2
  · rw [throwIf_bind_eq_ok] at h
    obtain ⟨-, h⟩ := h
    split at h
    · obtain ⟨-, domain, hdomain, hne, hpayload⟩ := checked_v6 h
      exact .domained hdomain hne hpayload
    · refine origin_legacy (fun hne => .inr ⟨_, rfl, fun hdomain => hne ?_⟩) h
      exact validatorSigningDomain_injective hdomain

/-! ### Skip votes -/

/-- The signature that a release makes, for the signing function of its key; a value that cannot be
encoded has none. -/
def signatureOf (sign : List Char → String) (x : Release) : Option String :=
  match canonicalJson x.value with
  | .ok text => some (sign text)
  | .error _ => none

/-- A released signature that is accepted as the validator's skip vote for a height, a round and
the hash of the block before, under some protocol version. -/
def SkipVote (cfg : Config) (sign : List Char → String) (x : Release) (height round : Int)
    (previousHash : String) : Prop :=
  ∃ signature, signatureOf sign x = some signature ∧ ∃ chainId members protocolVersion,
    validateRoundSkipVote ⟨addressFromPublicKey cfg.publicKey, cfg.publicKey, chainId, height, round,
      previousHash, signature⟩ members chainId height round previousHash protocolVersion = .ok ()

/-- A request of version 1 for another intent with the payload of a skip vote of the validator. -/
def Confusable (cfg : Config) (request : SigningRequest) : Prop :=
  request.version = 1 ∧ request.intent ≠ .roundSkip ∧ ∃ vote : RoundSkipVote,
    vote.validator = addressFromPublicKey cfg.publicKey ∧ vote.publicKey = cfg.publicKey ∧
    canonicalText request.payload = canonicalText (roundSkipPayload vote)

/-- The signatures of what was released verify for their own text only. -/
def Unforged (cfg : Config) (sign : List Char → String) (s : State) : Prop :=
  ∀ q x, (q, x) ∈ s.released → ∀ message,
    Crypto.verify (sign (canonicalText x.value)) message cfg.publicKey = true →
      message = canonicalText x.value

omit [Crypto] in
private theorem plain_roundSkipPayload (vote : RoundSkipVote) : (roundSkipPayload vote).Plain :=
  plain_payload (.roundSkip 1 vote)

private theorem text_of_skipVote {sign : List Char → String} (hsign : Unforged cfg sign s)
    (hx : (q, x) ∈ s.released) (hvote : SkipVote cfg sign x height round previousHash) :
    Canonical 0 x.value ∧ ∃ vote : RoundSkipVote, ∃ protocolVersion,
      vote.validator = addressFromPublicKey cfg.publicKey ∧ vote.publicKey = cfg.publicKey ∧
      vote.height = height ∧ vote.round = round ∧ vote.previousHash = previousHash ∧
      canonicalText x.value =
        canonicalText (protocolMessage protocolVersion roundSkipDomain (roundSkipPayload vote)) := by
  obtain ⟨signature, hsignature, chainId, members, protocolVersion, hvalid⟩ := hvote
  rw [signatureOf] at hsignature
  split at hsignature
  · next text htext =>
    obtain ⟨hcanonical, rfl⟩ := canonicalJson_eq_ok_iff.mp htext
    cases hsignature
    refine ⟨hcanonical, ⟨addressFromPublicKey cfg.publicKey, cfg.publicKey, chainId, height, round,
      previousHash, sign (canonicalText x.value)⟩, protocolVersion, rfl, rfl, rfl, rfl, rfl, ?_⟩
    rw [validateRoundSkipVote] at hvalid
    obtain ⟨_, -, hvalid⟩ := bind_eq_ok.mp hvalid
    rw [throwIf_bind_eq_ok] at hvalid
    obtain ⟨_, -, hvalid⟩ := bind_eq_ok.mp hvalid.2
    obtain ⟨_, -, hvalid⟩ := bind_eq_ok.mp hvalid
    obtain ⟨_, -, hvalid⟩ := bind_eq_ok.mp hvalid
    obtain ⟨_, -, hvalid⟩ := bind_eq_ok.mp hvalid
    rw [throwIf_bind_eq_ok, throwIf_bind_eq_ok, throwIf_eq_ok] at hvalid
    exact (hsign q x hx _ (verify_of_verifyForProtocol (not_not.mp hvalid.2.2))).symm
  · cases hsignature

omit [Crypto] in
private theorem reserved_fields (hchecked : SkipChecked payload height round previousHash)
    (hplain : payload.Plain) {vote : RoundSkipVote}
    (h : canonicalText payload = canonicalText (roundSkipPayload vote)) :
    height = vote.height ∧ round = vote.round ∧ previousHash = vote.previousHash := by
  have hskip := plain_roundSkipPayload vote
  have hheight := hchecked.height.symm.trans (numField_of_canonicalText hplain hskip h "height")
  have hround := hchecked.round.symm.trans (numField_of_canonicalText hplain hskip h "round")
  have hhash := hchecked.previousHash.symm.trans
    (strField_of_canonicalText hplain hskip h "previousHash")
  exact ⟨Option.some.inj hheight, Option.some.inj hround, Option.some.inj hhash⟩

omit [Crypto] in
private theorem chainId_domainPayload {domain : String} {w : Json} (hplain : payload.Plain)
    (hw : w.Plain) (h : canonicalText w = canonicalText (domainPayload domain payload)) :
    strField w "chainId" = none :=
  strField_of_canonicalText hw (plain_domainPayload hplain) h "chainId"

/-- A release with the text of a skip vote comes from a round skip for its slot, or from a
confusable request. -/
private theorem reservation_of_text (horigin : Origin cfg request reservation release)
    (hnames : NamesDistinct request.payload) (hclear : ¬ Confusable cfg request)
    (hcanonical : Canonical 0 release.value) {vote : RoundSkipVote} {protocolVersion : Int}
    (hvalidator : vote.validator = addressFromPublicKey cfg.publicKey)
    (hkey : vote.publicKey = cfg.publicKey)
    (htext : canonicalText release.value =
      canonicalText (protocolMessage protocolVersion roundSkipDomain (roundSkipPayload vote))) :
    reservation = .skip vote.height vote.round vote.previousHash := by
  have hskip := plain_roundSkipPayload vote
  obtain ⟨height, slot, domain, payload⟩ := release
  have hplain : payload = request.payload ∨ payload.Plain → payload.Plain := by
    rintro (rfl | hplain)
    · cases domain with
      | none => exact plain_of_canonical _ hcanonical hnames
      | some d => exact plain_of_canonical _ hcanonical.2.2.1 hnames
    · exact hplain
  rw [protocolMessage] at htext
  cases horigin with
  | @skip height' round previousHash hchecked hreservation hpayload hchain =>
    have hpayload : payload = request.payload := hpayload
    have hplain := hplain (.inl hpayload)
    subst hpayload
    have hfields : canonicalText request.payload = canonicalText (roundSkipPayload vote) →
        reservation = .skip vote.height vote.round vote.previousHash := by
      intro h
      obtain ⟨rfl, rfl, rfl⟩ := reserved_fields hchecked hplain h
      exact hreservation
    cases domain with
    | none =>
      split at htext
      · cases hchain.symm.trans (chainId_domainPayload hskip hplain htext)
      · exact hfields htext
    | some d =>
      split at htext
      · have hnormal := field_of_canonicalText (plain_domainPayload hplain)
          (plain_domainPayload hskip) htext "payload"
        have hnormal : normalize request.payload = normalize (roundSkipPayload vote) :=
          Option.some.inj hnormal
        refine hfields ?_
        rw [canonicalText, canonicalText, hnormal]
      · cases chainId_domainPayload hplain hskip htext.symm
  | undomained hversion hintent hpayload hdomain hchain =>
    have hpayload : payload = request.payload := hpayload
    have hdomain : domain = none := hdomain
    have hplain := hplain (.inl hpayload)
    subst hpayload hdomain
    split at htext
    · cases hchain.symm.trans (chainId_domainPayload hskip hplain htext)
    · exact absurd ⟨hversion, hintent, vote, hvalidator, hkey, htext⟩ hclear
  | @domained d hdomain hne hpayload =>
    have hdomain : domain = some d := hdomain
    have hplain := hplain hpayload
    subst hdomain
    split at htext
    · have hd := strField_of_canonicalText (plain_domainPayload hplain)
        (plain_domainPayload hskip) htext "domain"
      exact absurd (Option.some.inj hd) hne
    · cases chainId_domainPayload hplain hskip htext.symm

/-! ### Runs -/

variable {out : Option (SigningRequest × Release)}

theorem Step.keeps {s' : State} (h : Step cfg s s' out) (hf : s.journal.Faithful) (height : Int) :
    SigningJournal.Keeps height s.journal.journal s'.journal.journal := by
  obtain ⟨-, ⟨-, hsame, -⟩ | ⟨request, reservation, release, es, hw, -⟩⟩ := h.cases hf
  · exact hsame.symm.keeps
  · exact hw.keeps hf height

omit [Crypto] in
theorem get_reservations_of_skip {es : List Entry}
    (h : journal.reserve (.skip height round previousHash) = .ok es) :
    (journal.append es).reservations.get (height, round) = some (.skip, previousHash) := by
  rcases reserveChoice_cases h with ⟨rfl, hget⟩ | ⟨rfl, -⟩
  · exact hget
  · exact JsMap.get_set_self _ _ _

/-- What was released came from a request that the signer was sent; the slot of a skip is in the
journal. -/
def Recorded (cfg : Config) (s : State) (q : SigningRequest) (x : Release) : Prop :=
  q ∈ s.requests ∧ ∃ reservation, Origin cfg q reservation x ∧
    ∀ height round previousHash, reservation = .skip height round previousHash →
      s.journal.journal.reservations.get (height, round) = some (.skip, previousHash)

private theorem Recorded.step {s' : State} (hstep : Step cfg s s' out) (hf : s.journal.Faithful)
    (h : Recorded cfg s q x) : Recorded cfg s' q x := by
  obtain ⟨hq, reservation, horigin, hjournal⟩ := h
  refine ⟨?_, reservation, horigin, fun height round previousHash heq =>
    (hstep.keeps hf height).reservations round _ (hjournal height round previousHash heq)⟩
  cases hstep with
  | restarted => exact hq
  | _ => exact mem_append_left _ hq

theorem Reachable.recorded (h : Reachable cfg s) (hx : (q, x) ∈ s.released) :
    Recorded cfg s q x := by
  induction h with
  | fresh => cases hx
  | @step s s' out prior hstep ih =>
    have hf := prior.invariant.faithful
    have hmono := fun hx => (ih hx).step hstep hf
    cases hstep with
    | refused | crashed | stopped | restarted => exact hmono hx
    | @signed request reservation release es hchecked hreserve =>
      rcases mem_append.mp hx with hx | hx
      · exact hmono hx
      · rw [mem_singleton, Prod.mk.injEq] at hx
        obtain ⟨rfl, rfl⟩ := hx
        refine ⟨mem_append_right _ (mem_singleton_self _), reservation, release_cases hchecked, ?_⟩
        rintro height round previousHash rfl
        exact get_reservations_of_skip hreserve

/-- In a run without confusable requests, every released signature that is accepted as a skip vote
of the validator has its reservation in the journal, where it is found again when the file is
opened; so there is one skip vote for a height and round. -/
theorem skip_votes_reserved {s : State} (h : Reachable cfg s) {sign : List Char → String}
    (hsign : Unforged cfg sign s) (hnames : ∀ q ∈ s.requests, NamesDistinct q.payload)
    (hclear : ∀ q ∈ s.requests, ¬ Confusable cfg q) :
    (∀ q x height round previousHash, (q, x) ∈ s.released →
      SkipVote cfg sign x height round previousHash →
      s.journal.journal.reservations.get (height, round) = some (.skip, previousHash) ∧
      ∃ o, openFile s.journal.file = .ok o ∧
        o.journal.reservations.get (height, round) = some (.skip, previousHash)) ∧
    ∀ q x q' x' height round previousHash previousHash', (q, x) ∈ s.released →
      (q', x') ∈ s.released → SkipVote cfg sign x height round previousHash →
      SkipVote cfg sign x' height round previousHash' → previousHash = previousHash' := by
  have hreserved : ∀ q x height round previousHash, (q, x) ∈ s.released →
      SkipVote cfg sign x height round previousHash →
      s.journal.journal.reservations.get (height, round) = some (.skip, previousHash) := by
    intro q x height round previousHash hx hvote
    obtain ⟨hq, reservation, horigin, hjournal⟩ := h.recorded hx
    obtain ⟨hcanonical, vote, version, hvalidator, hkey, rfl, rfl, rfl, htext⟩ :=
      text_of_skipVote hsign hx hvote
    exact hjournal _ _ _ (reservation_of_text horigin (hnames q hq) (hclear q hq) hcanonical
      hvalidator hkey htext)
  refine ⟨fun q x height round previousHash hx hvote => ?_, ?_⟩
  · have hget := hreserved q x height round previousHash hx hvote
    obtain ⟨⟨es, j, hfile, hist, hsame⟩, -⟩ := h.invariant.faithful
    refine ⟨hget, ⟨j, none, []⟩, by rw [hfile, hist.openFile], ?_⟩
    rw [hsame.reservations]
    exact hget
  · intro q x q' x' height round previousHash previousHash' hx hx' hvote hvote'
    have hget := hreserved q x height round previousHash hx hvote
    rw [hreserved q' x' height round previousHash' hx' hvote', Option.some.injEq,
      Prod.mk.injEq] at hget
    exact hget.2.symm

end

/-! ### Two skip votes under another intent -/

namespace Confused

def key : String := digits 128 '1'

def first : String := digits 64 'a'

def second : String := digits 64 'b'

/-- The validator's address under the stand-in digest. -/
def address : String := "ZYN7777777777777777777777777777777777777777"

def payload (previousHash : String) : Json :=
  roundSkipPayload ⟨address, key, "zyron", 2, 0, previousHash, ""⟩

def sign (text : List Char) : String :=
  if text = canonicalText (payload first) then digits 128 'a' else digits 128 'b'

local instance confusedCrypto : Crypto := .ofTable fun signature message _ =>
  decide (signature = digits 128 'a' ∧ message = canonicalText (payload first) ∨
    signature = digits 128 'b' ∧ message = canonicalText (payload second))

def cfg : Config := ⟨key, "zyron", [⟨address, key⟩]⟩

/-- A request of version 1 for the payload of a skip vote. -/
def request (intent : ValidatorSigningIntent) (previousHash : String) : SigningRequest :=
  ⟨1, intent, none, payload previousHash, none⟩

def release (previousHash : String) : Release := ⟨2, none, none, payload previousHash⟩

theorem text_ne : canonicalText (payload second) ≠ canonicalText (payload first) := by decide

theorem sign_first : sign (canonicalText (payload first)) = digits 128 'a' := if_pos rfl

theorem sign_second : sign (canonicalText (payload second)) = digits 128 'b' := if_neg text_ne

/-- The signatures verify for the texts of the two payloads alone. -/
theorem unforged {s : State}
    (hs : ∀ q x, (q, x) ∈ s.released → x = release first ∨ x = release second) :
    Unforged cfg sign s := by
  have hdigits : digits 128 'a' ≠ digits 128 'b' := by decide +kernel
  intro q x hx message hverify
  have hverify : sign (canonicalText x.value) = digits 128 'a' ∧
      message = canonicalText (payload first) ∨ sign (canonicalText x.value) = digits 128 'b' ∧
      message = canonicalText (payload second) := of_decide_eq_true hverify
  rcases hs q x hx with rfl | rfl
  · rcases hverify with ⟨-, hmessage⟩ | ⟨hsecond, -⟩
    · exact hmessage
    · exact absurd (sign_first.symm.trans hsecond) hdigits
  · rcases hverify with ⟨hfirst, -⟩ | ⟨-, hmessage⟩
    · exact absurd (hfirst.symm.trans sign_second) hdigits
    · exact hmessage

/-- Both signatures are accepted as skip votes under protocol version 1. -/
theorem skipVotes : SkipVote cfg sign (release first) 2 0 first ∧
    SkipVote cfg sign (release second) 2 0 second :=
  ⟨⟨digits 128 'a', by decide +kernel, "zyron", memberMap cfg.validators, 1, by decide +kernel⟩,
    ⟨digits 128 'b', by decide +kernel, "zyron", memberMap cfg.validators, 1, by decide +kernel⟩⟩

theorem namesDistinct_payload (previousHash : String) : NamesDistinct (payload previousHash) :=
  ⟨(by decide : ["chainId", "height", "previousHash", "publicKey", "round", "validator"].Nodup),
    trivial, trivial, trivial, trivial, trivial, trivial, trivial⟩

/-- The signer after two attestation requests with the payloads of skip votes. -/
def attested : State where
  journal := ⟨(empty.append [.mark 2]).append [], [] ++ journalText [.mark 2] ++ journalText []⟩
  requests := [] ++ [request .blockAttestation first] ++ [request .blockAttestation second]
  released := [] ++ [(request .blockAttestation first, release first)] ++
    [(request .blockAttestation second, release second)]

def skipped : State where
  journal := ⟨empty.append [.choice 2 0 .skip first], [] ++ journalText [.choice 2 0 .skip first]⟩
  requests := [] ++ [request .roundSkip first]
  released := [] ++ [(request .roundSkip first, release first)]

theorem reachable_attested : Reachable cfg attested := by
  have hreserve : empty.reserve (.legacyHeight 2) = .ok [.mark 2] := by
    decide +kernel
  have hreserve' : (empty.append [.mark 2]).reserve (.legacyHeight 2) = .ok [] := by
    decide +kernel
  have hfirst : signLocked cfg empty (request .blockAttestation first) =
      .ok (.legacyHeight 2, release first) := rfl
  have hsecond : signLocked cfg (empty.append [.mark 2]) (request .blockAttestation second) =
      .ok (.legacyHeight 2, release second) := rfl
  exact (Reachable.fresh.step (.signed hfirst hreserve)).step (.signed hsecond hreserve')

theorem reachable_skipped : Reachable cfg skipped := by
  have hreserve : empty.reserve (.skip 2 0 first) =
      .ok [.choice 2 0 .skip first] := by decide
  have hguard : legacyGuard cfg empty .roundSkip (payload first) = .ok (2, .skip 2 0 first) := by
    decide +kernel
  have hsigned : signLocked cfg empty (request .roundSkip first) =
      .ok (.skip 2 0 first, release first) := by
    simp only [signLocked, request, legacyRelease, hguard]
    rfl
  exact Reachable.fresh.step (.signed hsigned hreserve)

/-- Two requests for block attestations of version 1 make the signer release skip votes for two
blocks in round 0 of height 2, without a reservation of the slot. -/
theorem two_skip_votes :
    Reachable cfg attested ∧ Unforged cfg sign attested ∧
      (∀ q ∈ attested.requests, NamesDistinct q.payload) ∧
      (request .blockAttestation first, release first) ∈ attested.released ∧
      (request .blockAttestation second, release second) ∈ attested.released ∧
      SkipVote cfg sign (release first) 2 0 first ∧
      SkipVote cfg sign (release second) 2 0 second ∧ first ≠ second ∧
      attested.journal.journal.reservations.get (2, 0) = none := by
  refine ⟨reachable_attested, unforged ?_, ?_, by simp [attested], by simp [attested],
    skipVotes.1, skipVotes.2, by decide +kernel, by decide⟩
  · intro q x hx
    simp only [attested, nil_append, cons_append, mem_cons, Prod.mk.injEq,
      not_mem_nil, or_false] at hx
    rcases hx with ⟨-, rfl⟩ | ⟨-, rfl⟩
    · exact .inl rfl
    · exact .inr rfl
  · intro q hq
    simp only [attested, nil_append, cons_append, mem_cons, not_mem_nil, or_false] at hq
    rcases hq with rfl | rfl
    · exact namesDistinct_payload first
    · exact namesDistinct_payload second

/-- A round skip has its reservation, in memory and in the file. -/
theorem skip_votes_reserved_skipped :
    skipped.journal.journal.reservations.get (2, 0) = some (.skip, first) ∧
      ∃ o, openFile skipped.journal.file = .ok o ∧
        o.journal.reservations.get (2, 0) = some (.skip, first) := by
  have hrequest : ∀ q ∈ skipped.requests, q = request .roundSkip first := by
    intro q hq
    simpa [skipped] using hq
  refine (skip_votes_reserved reachable_skipped (show Unforged cfg sign skipped from unforged ?_) (fun q hq => ?_)
    fun q hq hconfusable => ?_).1 (request .roundSkip first) (release first) 2 0 first
    (by simp [skipped]) skipVotes.1
  · intro q x hx
    have hx : q = request .roundSkip first ∧ x = release first := by simpa [skipped] using hx
    exact .inl hx.2
  · rw [hrequest q hq]
    exact namesDistinct_payload first
  · rw [hrequest q hq] at hconfusable
    exact hconfusable.2.1 rfl

end Confused

end RemoteSigner

end ZyronChain
