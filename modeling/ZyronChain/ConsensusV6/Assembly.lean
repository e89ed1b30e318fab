import Mathlib.Data.List.Induction
import Mathlib.Data.List.Perm.Subperm
import ZyronChain.ConsensusV6.Certificates

/-!
# Assembling a timeout certificate

The leader of a round collects the timeout responses of the round before.  A response that does
not verify, whatever it holds, is passed over; a later response of one validator replaces the
earlier one; and once the highest certificate is chosen, votes that report another block for its
round are dropped.  What is left is checked like a certificate received from outside.

Source: `l1/src/node.ts` (`assembleTimeoutCertificate`), `l1/src/consensus-v6.ts`
(`validateTimeoutResponse`, `maxQC`), `l1/src/node-base.ts` (`v6SignProposalLocked`).

## Main definitions

* `validateTimeoutResponse`, `maxQC`, `assembleTimeoutCertificate` : the leader's side.
* `v6ProposalRequest` : the request that the leader of the next round makes of a certificate.

## Main results

* `validateTimeoutCertificate_of_kept` : what is left after the filter always verifies.
* `assembleTimeoutCertificate_spec` : assembly never fails, and what it gives can be proposed on.
-/

namespace ZyronChain

open Checks List JsMap

/-! ### Responses -/

structure V6TimeoutResponse where
  vote : V6TimeoutVote
  highQC : Option PrepareQC
deriving DecidableEq, Repr

def validateTimeoutResponseShape (response : V6TimeoutResponse) : Except String Unit := do
  validateTimeoutVoteShape response.vote
  match response.highQC with
  | none => .ok ()
  | some qc => validatePrepareQCShape qc

/-- `maxQC`: of several certificates of the highest round the first. -/
def maxQC (candidates : List (Option PrepareQC)) : Option PrepareQC :=
  candidates.foldl (fun best candidate =>
    match candidate, best with
    | none, best => best
    | some qc, none => some qc
    | some qc, some b => if qc.round > b.round then some qc else some b) none

/-- A certificate of the highest round among the candidates, or none when there is none. -/
def IsHighest (best : Option PrepareQC) (candidates : List (Option PrepareQC)) : Prop :=
  (best = none → ∀ c ∈ candidates, c = none) ∧
    ∀ qc, best = some qc → some qc ∈ candidates ∧ ∀ c, some c ∈ candidates → c.round ≤ qc.round

theorem isHighest_maxQC (candidates : List (Option PrepareQC)) :
    IsHighest (maxQC candidates) candidates := by
  induction candidates using List.reverseRecOn with
  | nil => exact ⟨fun _ => nofun, nofun⟩
  | append_singleton candidates c ih =>
    obtain ⟨hnone, hsome⟩ := ih
    rw [maxQC, foldl_append]
    change IsHighest (match c, maxQC candidates with
      | none, best => best
      | some qc, none => some qc
      | some qc, some b => if qc.round > b.round then some qc else some b) _
    cases c with
    | none =>
      refine ⟨fun h c hc => ?_, fun qc h => ?_⟩
      · rcases mem_append.mp hc with hc | hc
        · exact hnone h c hc
        · exact mem_singleton.mp hc
      · obtain ⟨hmem, hle⟩ := hsome qc h
        refine ⟨mem_append_left _ hmem, fun c hc => hle c ?_⟩
        simpa using hc
    | some c =>
      cases hbest : maxQC candidates with
      | none =>
        refine ⟨nofun, ?_⟩
        rintro qc ⟨⟩
        refine ⟨by simp, fun c' hc' => ?_⟩
        rcases mem_append.mp hc' with hc' | hc'
        · exact absurd (hnone hbest _ hc') (Option.some_ne_none c')
        · rw [mem_singleton, Option.some.injEq] at hc'
          rw [hc']
      | some b =>
        obtain ⟨hmem, hle⟩ := hsome b hbest
        have hcases : ∀ c', some c' ∈ candidates ++ [some c] → c' = c ∨ c'.round ≤ b.round := by
          intro c' hc'
          rcases mem_append.mp hc' with hc' | hc'
          · exact .inr (hle c' hc')
          · exact .inl (by simpa using hc')
        change IsHighest (if c.round > b.round then some c else some b) _
        split
        · next hgt =>
          refine ⟨nofun, ?_⟩
          rintro qc ⟨⟩
          refine ⟨by simp, fun c' hc' => ?_⟩
          rcases hcases c' hc' with rfl | hle'
          · exact le_rfl
          · omega
        · next hgt =>
          refine ⟨nofun, ?_⟩
          rintro qc ⟨⟩
          refine ⟨mem_append_left _ hmem, fun c' hc' => ?_⟩
          rcases hcases c' hc' with rfl | hle'
          · omega
          · exact hle'

section

variable [Crypto]

/-- The certificate of a response against the report that its vote signs. -/
def validateReport (response : V6TimeoutResponse) (validators : List Validator)
    (chainId : String) (height : Int) : Except String Unit :=
  if response.vote.payload.highQCRound = -1 then
    throwIf (response.highQC ≠ none) "Timeout response carries an unreported QC"
  else
    match response.highQC with
    | none => .error "Timeout response is missing its reported QC"
    | some qc => do
      validatePrepareQC qc validators chainId height
      throwIf (qc.round ≠ response.vote.payload.highQCRound ∨
        qc.blockHash ≠ response.vote.payload.highQCHash)
        "Timeout response QC does not match the signed report"

def validateTimeoutResponse (response : V6TimeoutResponse) (validators : List Validator)
    (chainId : String) (height round : Int) : Except String Unit := do
  validateTimeoutResponseShape response
  validateTimeoutVote response.vote (memberMap validators) chainId height round
  validateReport response validators chainId height

/-- One pass of the collecting loop; `none` is a value that is not a record of the shape of a
response, for which the validation throws. -/
def collectResponse (validators : List Validator) (chainId : String) (height round : Int)
    (valid : JsMap Address V6TimeoutResponse) (response : Option V6TimeoutResponse) :
    JsMap Address V6TimeoutResponse :=
  match response with
  | none => valid
  | some r =>
    match validateTimeoutResponse r validators chainId height round with
    | .ok () => valid.set r.vote.validator r
    | .error _ => valid

/-- The valid responses, the last one of each validator. -/
def validResponses (responses : List (Option V6TimeoutResponse)) (validators : List Validator)
    (chainId : String) (height round : Int) : List V6TimeoutResponse :=
  (responses.foldl (collectResponse validators chainId height round) .empty).entries.map Prod.snd

/-- The responses whose vote goes into the certificate. -/
def keptResponses (valid : List V6TimeoutResponse) (highest : Option PrepareQC) :
    List V6TimeoutResponse :=
  valid.filter fun r =>
    match highest with
    | none => true
    | some qc => ¬ (r.vote.payload.highQCRound = qc.round ∧ r.vote.payload.highQCHash ≠ qc.blockHash)

def assembleTimeoutCertificate (responses : List (Option V6TimeoutResponse))
    (validators : List Validator) (chainId : String) (height round : Int) :
    Except String (Option TimeoutCertificate) := do
  let valid := validResponses responses validators chainId height round
  let highest := maxQC (valid.map V6TimeoutResponse.highQC)
  let votes := (keptResponses valid highest).map V6TimeoutResponse.vote
  let quorum ← validatorQuorumSize validators.length
  if votes.length < quorum then
    .ok none
  else do
    let certificate : TimeoutCertificate := ⟨chainId, height, round, votes, highest⟩
    let _ ← validateTimeoutCertificate certificate validators chainId height round
    .ok (some certificate)

/-! ### What a valid response says -/

/-- A response that passed: a vote that verifies, and the certificate that it reports. -/
structure V6TimeoutResponse.Valid (r : V6TimeoutResponse) (validators : List Validator)
    (chainId : String) (height round : Int) : Prop where
  vote : validateTimeoutVote r.vote (memberMap validators) chainId height round = .ok ()
  report : (r.vote.payload.highQCRound = -1 ∧ r.highQC = none) ∨
    ∃ qc, r.highQC = some qc ∧ validatePrepareQC qc validators chainId height = .ok () ∧
      qc.round = r.vote.payload.highQCRound ∧ qc.blockHash = r.vote.payload.highQCHash

variable {validators : List Validator} {chainId : String} {height round : Int}
  {valid : List V6TimeoutResponse} {responses : List (Option V6TimeoutResponse)}
  {highest : Option PrepareQC} {tc : TimeoutCertificate}

theorem V6TimeoutResponse.valid_of_validate {r : V6TimeoutResponse}
    (h : validateTimeoutResponse r validators chainId height round = .ok ()) :
    r.Valid validators chainId height round := by
  rw [validateTimeoutResponse] at h
  obtain ⟨_, -, h⟩ := bind_eq_ok.mp h
  obtain ⟨_, hvote, h⟩ := bind_eq_ok.mp h
  refine ⟨hvote, ?_⟩
  rw [validateReport] at h
  split at h
  · next hround =>
    rw [throwIf_eq_ok, ne_eq, not_not] at h
    exact .inl ⟨hround, h⟩
  · cases hqc : r.highQC with
    | none => rw [hqc] at h; cases h
    | some qc =>
      rw [hqc] at h
      obtain ⟨_, hvalid, h⟩ := bind_eq_ok.mp h
      rw [throwIf_eq_ok, not_or, ne_eq, not_not, ne_eq, not_not] at h
      exact .inr ⟨qc, rfl, hvalid, h⟩

private theorem timeoutVote_parts {vote : V6TimeoutVote}
    (h : validateTimeoutVote vote (memberMap validators) chainId height round = .ok ()) :
    validateTimeoutVoteShape vote = .ok () ∧ (vote.payload.chainId = chainId ∧
      vote.payload.height = height ∧ vote.payload.round = round) ∧
      ⟨vote.validator, vote.publicKey⟩ ∈ validators := by
  rw [validateTimeoutVote] at h
  obtain ⟨_, hshape, h⟩ := bind_eq_ok.mp h
  rw [throwIf_bind_eq_ok, throwIf_bind_eq_ok, not_or, not_or, ne_eq, not_not, ne_eq, not_not,
    ne_eq, not_not, ne_eq, not_not] at h
  exact ⟨hshape, h.1, mem_of_memberMap_get h.2.1⟩

omit [Crypto] in
private theorem timeoutVoteShape_target {vote : V6TimeoutVote}
    (h : validateTimeoutVoteShape vote = .ok ()) (name : String) :
    assertV6ChainId vote.payload.chainId name = .ok () ∧
      assertV6Height vote.payload.height name = .ok () ∧
      assertV6Round vote.payload.round name = .ok () ∧
      -1 ≤ vote.payload.highQCRound ∧ vote.payload.highQCRound ≤ vote.payload.round := by
  rw [validateTimeoutVoteShape] at h
  obtain ⟨_, -, h⟩ := bind_eq_ok.mp h
  obtain ⟨_, -, h⟩ := bind_eq_ok.mp h
  obtain ⟨_, -, h⟩ := bind_eq_ok.mp h
  obtain ⟨_, hchain, h⟩ := bind_eq_ok.mp h
  obtain ⟨_, hheight, h⟩ := bind_eq_ok.mp h
  obtain ⟨_, hround, h⟩ := bind_eq_ok.mp h
  rw [throwIf_bind_eq_ok, not_or, not_or, not_lt, gt_iff_lt, not_lt] at h
  rw [assertV6ChainId, throwIf_eq_ok] at hchain
  rw [assertV6Height, throwIf_eq_ok] at hheight
  rw [assertV6Round, throwIf_eq_ok] at hround
  exact ⟨throwIf_of_not hchain, throwIf_of_not hheight, throwIf_of_not hround, h.1.2⟩

/-! ### The collected responses -/

/-- What the loop has collected after some responses: an entry is a valid response under its
signer, and every valid response has an entry for its signer. -/
structure Collected (valid : JsMap Address V6TimeoutResponse)
    (responses : List (Option V6TimeoutResponse)) (validators : List Validator)
    (chainId : String) (height round : Int) : Prop where
  entry : ∀ a r, (a, r) ∈ valid.entries → r.vote.validator = a ∧ some r ∈ responses ∧
    validateTimeoutResponse r validators chainId height round = .ok ()
  signer : ∀ r, some r ∈ responses →
    validateTimeoutResponse r validators chainId height round = .ok () →
    r.vote.validator ∈ valid.keys

private theorem Collected.mono {valid : JsMap Address V6TimeoutResponse}
    {response : Option V6TimeoutResponse}
    (h : Collected valid responses validators chainId height round)
    (hbad : ∀ r, response = some r → validateTimeoutResponse r validators chainId height round ≠ .ok
      ()) : Collected valid (responses ++ [response]) validators chainId height round := by
  refine ⟨fun a r hr => ?_, fun r hr hvalid => ?_⟩
  · obtain ⟨ha, hmem, hvalid⟩ := h.entry a r hr
    exact ⟨ha, mem_append_left _ hmem, hvalid⟩
  · rcases mem_append.mp hr with hr | hr
    · exact h.signer r hr hvalid
    · exact absurd hvalid (hbad r (mem_singleton.mp hr).symm)

private theorem Collected.step {valid : JsMap Address V6TimeoutResponse}
    (h : Collected valid responses validators chainId height round)
    (response : Option V6TimeoutResponse) :
    Collected (collectResponse validators chainId height round valid response)
      (responses ++ [response]) validators chainId height round := by
  cases response with
  | none => exact h.mono nofun
  | some s =>
    cases hs : validateTimeoutResponse s validators chainId height round with
    | error message =>
      rw [collectResponse, hs]
      refine h.mono ?_
      rintro r ⟨⟩
      rw [hs]
      nofun
    | ok u =>
      rw [collectResponse, hs]
      refine ⟨fun a r hr => ?_, fun r hr hvalid => ?_⟩
      · rw [← get_eq_some_iff, get_set] at hr
        split at hr
        · next ha =>
          cases hr
          exact ⟨ha, by simp, hs⟩
        · obtain ⟨ha, hmem, hvalid⟩ := h.entry a r (get_eq_some_iff.mp hr)
          exact ⟨ha, mem_append_left _ hmem, hvalid⟩
      · by_contra hkey
        rw [← get_eq_none_iff, get_set] at hkey
        split at hkey
        · cases hkey
        · next hne =>
          rcases mem_append.mp hr with hr | hr
          · exact (get_eq_none_iff.mp hkey) (h.signer r hr hvalid)
          · rw [mem_singleton, Option.some.injEq] at hr
            exact hne (by rw [hr])

theorem collected (responses : List (Option V6TimeoutResponse)) (validators : List Validator)
    (chainId : String) (height round : Int) :
    Collected (responses.foldl (collectResponse validators chainId height round) .empty)
      responses validators chainId height round := by
  induction responses using List.reverseRecOn with
  | nil => exact ⟨nofun, nofun⟩
  | append_singleton responses response ih =>
    rw [foldl_append]
    exact ih.step response

private theorem validResponses_spec (responses : List (Option V6TimeoutResponse))
    (validators : List Validator) (chainId : String) (height round : Int) :
    ((validResponses responses validators chainId height round).map
      fun r => r.vote.validator).Nodup ∧
    ∀ r ∈ validResponses responses validators chainId height round,
      some r ∈ responses ∧ validateTimeoutResponse r validators chainId height round = .ok () := by
  have h := collected responses validators chainId height round
  rw [validResponses, map_map]
  refine ⟨?_, fun r hr => ?_⟩
  · have hkeys := (responses.foldl (collectResponse validators chainId height round) .empty).nodup
    rwa [map_congr_left fun e he => (h.entry e.1 e.2 he).1.symm] at hkeys
  · obtain ⟨e, he, rfl⟩ := mem_map.mp hr
    exact (h.entry e.1 e.2 he).2

omit [Crypto] in
private theorem maxReported_le {votes : List V6TimeoutVote} {m : Int} (hm : -1 ≤ m)
    (h : ∀ v ∈ votes, v.payload.highQCRound ≤ m) : maxReported votes ≤ m := by
  rw [maxReported]
  generalize (-1 : Int) = start at hm
  induction votes generalizing start with
  | nil => exact hm
  | cons v votes ih =>
    exact ih (fun w hw => h w (mem_cons_of_mem v hw)) _
      (max_le hm (h v mem_cons_self))

private theorem exists_carrier (hvalid : ∀ r ∈ valid, r.Valid validators chainId height round)
    {qc : PrepareQC} (hhighest : IsHighest (some qc) (valid.map V6TimeoutResponse.highQC)) :
    validatePrepareQC qc validators chainId height = .ok () ∧
      ∃ r ∈ keptResponses valid (some qc), r.highQC = some qc ∧
        qc.round = r.vote.payload.highQCRound := by
  obtain ⟨r, hr, hrqc⟩ := mem_map.mp (hhighest.2 qc rfl).1
  rcases (hvalid r hr).report with ⟨-, hnone⟩ | ⟨qc', hqc', hok, hround, hhash⟩
  · rw [hnone] at hrqc
    cases hrqc
  · obtain rfl : qc' = qc := Option.some.inj (hqc'.symm.trans hrqc)
    refine ⟨hok, r, mem_filter.mpr ⟨hr, ?_⟩, hqc', hround⟩
    simp [hhash]

private theorem reported_kept {valid : List V6TimeoutResponse} {validators : List Validator}
    {chainId : String} {height round : Int}
    (hvalid : ∀ r ∈ valid, r.Valid validators chainId height round) {highest : Option PrepareQC}
    (hhighest : IsHighest highest (valid.map V6TimeoutResponse.highQC)) :
    let votes := (keptResponses valid highest).map V6TimeoutResponse.vote
    (highest = none ∧ maxReported votes = -1) ∨
      ∃ qc, highest = some qc ∧ qc.round = maxReported votes ∧ 0 ≤ qc.round ∧
        validatePrepareQC qc validators chainId height = .ok () ∧
        ∀ v ∈ votes, v.payload.highQCRound = maxReported votes →
          v.payload.highQCHash = qc.blockHash := by
  intro votes
  have hkept : ∀ v ∈ votes, ∃ r ∈ valid, r.vote = v := by
    intro v hv
    obtain ⟨r, hr, rfl⟩ := mem_map.mp hv
    exact ⟨r, mem_of_mem_filter hr, rfl⟩
  cases highest with
  | none =>
    refine .inl ⟨rfl, le_antisymm (maxReported_le le_rfl fun v hv => ?_)
      (neg_one_le_maxReported _)⟩
    obtain ⟨r, hr, rfl⟩ := hkept v hv
    rcases (hvalid r hr).report with ⟨hround, -⟩ | ⟨qc, hqc, -⟩
    · exact hround.le
    · have hnone := hhighest.1 rfl _ (mem_map_of_mem hr)
      rw [hqc] at hnone
      cases hnone
  | some qc =>
    obtain ⟨hqc, r, hr, -, hround⟩ := exists_carrier hvalid hhighest
    have hle := (hhighest.2 qc rfl).2
    have hnonneg : 0 ≤ qc.round := (PrepareQC.valid_of_validate hqc).round_mem.1
    have hkeep : r.vote ∈ votes := mem_map_of_mem hr
    have hmax : qc.round = maxReported votes := by
      refine le_antisymm (hround.trans_le (le_maxReported hkeep))
        (maxReported_le (by omega) fun v hv => ?_)
      obtain ⟨s, hs, rfl⟩ := hkept v hv
      rcases (hvalid s hs).report with ⟨hneg, -⟩ | ⟨qc', hqc', -, hround', -⟩
      · omega
      · rw [← hround']
        exact hle qc' (hqc' ▸ mem_map_of_mem hs)
    refine .inr ⟨qc, rfl, hmax, hnonneg, hqc, fun v hv hvround => ?_⟩
    obtain ⟨s, hs, rfl⟩ := mem_map.mp hv
    have hpass := (mem_filter.mp hs).2
    by_contra hne
    simp only [decide_not, Bool.not_eq_true', decide_eq_false_iff_not] at hpass
    exact hpass ⟨hvround.trans hmax.symm, hne⟩

/-- What is left after the filter verifies once it is a quorum, and reports the round of its
highest certificate. -/
theorem validateTimeoutCertificate_of_kept (hlen : validators.length ≤ 100)
    (hpos : 1 ≤ validators.length) (hdistinct : (valid.map fun r => r.vote.validator).Nodup)
    (hvalid : ∀ r ∈ valid, r.Valid validators chainId height round)
    (hhighest : IsHighest highest (valid.map V6TimeoutResponse.highQC)) {votes : List V6TimeoutVote}
    (hvotes : (keptResponses valid highest).map V6TimeoutResponse.vote = votes)
    (hquorum : quorumSize validators.length ≤ votes.length) :
    validateTimeoutCertificate ⟨chainId, height, round, votes, highest⟩ validators chainId height
      round = .ok (maxReported votes) := by
  have hvote : ∀ v ∈ votes,
      validateTimeoutVote v (memberMap validators) chainId height round = .ok () := by
    intro v hv
    rw [← hvotes] at hv
    obtain ⟨r, hr, rfl⟩ := mem_map.mp hv
    exact (hvalid r (mem_of_mem_filter hr)).vote
  have hnodup : (votes.map V6TimeoutVote.validator).Nodup := by
    rw [← hvotes, map_map]
    exact hdistinct.sublist (filter_sublist.map _)
  have hcount : votes.length ≤ validators.length := by
    have hsub : votes.map V6TimeoutVote.validator ⊆ validators.map Validator.address := by
      intro a ha
      obtain ⟨v, hv, rfl⟩ := mem_map.mp ha
      exact mem_map.mpr ⟨_, (timeoutVote_parts (hvote v hv)).2.2, rfl⟩
    simpa using (subperm_of_subset hnodup hsub).length_le
  obtain ⟨v, hv⟩ : ∃ v, v ∈ votes := by
    refine exists_mem_of_length_pos (lt_of_lt_of_le ?_ hquorum)
    rw [quorumSize]
    omega
  obtain ⟨hshape, ⟨hchain, hheight, hround⟩, -⟩ := timeoutVote_parts (hvote v hv)
  obtain ⟨hchainOk, hheightOk, hroundOk, -⟩ := timeoutVoteShape_target hshape "timeout certificate"
  rw [hchain] at hchainOk
  rw [hheight] at hheightOk
  rw [hround] at hroundOk
  have hreported := reported_kept hvalid hhighest
  rw [hvotes] at hreported
  have htcShape : validateTimeoutCertificateShape ⟨chainId, height, round, votes, highest⟩ =
      .ok () := by
    rw [validateTimeoutCertificateShape]
    refine bind_eq_ok.mpr ⟨(), hchainOk, bind_eq_ok.mpr ⟨(), hheightOk, bind_eq_ok.mpr
      ⟨(), hroundOk, throwIf_bind_eq_ok.mpr ⟨not_lt.mpr (hcount.trans hlen), bind_eq_ok.mpr
        ⟨(), forEach_eq_ok.mpr
        fun w hw => (timeoutVote_parts (hvote w hw)).1, ?_⟩⟩⟩⟩⟩
    rcases hreported with ⟨rfl, -⟩ | ⟨qc, rfl, -, -, hqc, -⟩
    · rfl
    · rw [validatePrepareQC] at hqc
      exact (bind_eq_ok.mp hqc).elim fun _ h => h.1
  have hhigh : validateHighQC ⟨chainId, height, round, votes, highest⟩ validators chainId height =
      .ok (maxReported votes) := by
    rw [validateHighQC]
    rcases hreported with ⟨rfl, hmax⟩ | ⟨qc, rfl, hmax, hnonneg, hqc, hhash⟩
    · rw [if_pos (by rw [hmax]; decide), hmax]
      rfl
    · rw [if_neg (by rw [← hmax]; omega)]
      refine bind_eq_ok.mpr ⟨(), hqc, throwIf_bind_eq_ok.mpr ⟨not_not.mpr hmax,
        throwIf_bind_eq_ok.mpr ⟨?_, rfl⟩⟩⟩
      rintro ⟨w, hw, hwround, hne⟩
      exact hne (hhash w hw hwround)
  rw [validateTimeoutCertificate]
  refine bind_eq_ok.mpr ⟨(), htcShape, throwIf_bind_eq_ok.mpr ⟨by simp, throwIf_bind_eq_ok.mpr
    ⟨not_lt.mpr hcount, bind_eq_ok.mpr ⟨(), forDistinct_eq_ok.mpr ⟨hnodup, by simp, fun w hw =>
      ⟨rfl, hvote w hw⟩⟩, bind_eq_ok.mpr ⟨(), assertQuorum_eq_ok.mpr ⟨hpos, hquorum⟩, hhigh⟩⟩⟩⟩⟩

/-! ### The request of the next leader -/

/-- The round that the leader's proposal is justified by. -/
def proposalJustifyRound (validators : List Validator) (chainId : String) (height round : Int)
    (tc : Option TimeoutCertificate) : Except String Int :=
  if round = 0 then .ok (-1)
  else
    match tc with
    | none => .ok (-1)
    | some tc => validateTimeoutCertificate tc validators chainId height (round - 1)

/-- The request that a leader checks before it signs its proposal (`v6SignProposalLocked`). -/
def v6UnsignedRequest (validators : List Validator) (chainId : String) (height round : Int)
    (block : Block) (tc : Option TimeoutCertificate) : Except String V6PrepareRequest := do
  let justifyRound ← proposalJustifyRound validators chainId height round tc
  let payload : V6ProposalPayload := ⟨chainId, height, round, block.hash, justifyRound⟩
  let request : V6PrepareRequest := ⟨⟨payload, digits 128 '0'⟩, block, tc⟩
  let _ ← validatePrepareRequestCertificates request validators chainId height false
  .ok request

/-- The blocks that can be proposed on a timeout certificate: the block of its certificate, no
newer than that, or a fresh block when it carries none. -/
structure TimeoutCertificate.Proposable (tc : TimeoutCertificate) (block : Block) : Prop where
  chainId : block.header.chainId = tc.chainId
  height : block.header.height = tc.height
  hash : IsHex 32 block.hash
  fresh : tc.highQC = none → block.header.round = tc.round + 1
  certified : ∀ qc, tc.highQC = some qc → block.hash = qc.blockHash ∧ block.header.round ≤ qc.round

private theorem timeoutCertificate_target {reported : Int}
    (htc : validateTimeoutCertificate tc validators chainId height round = .ok reported) :
    assertV6ChainId chainId "proposal" = .ok () ∧ assertV6Height height "proposal" = .ok () ∧
      0 ≤ round ∧ tc.chainId = chainId ∧ tc.height = height ∧ tc.round = round ∧
      maxReported tc.votes ≤ round := by
  have hvalid := validateTimeoutCertificate_eq_ok htc
  rw [validateTimeoutCertificate] at htc
  obtain ⟨_, hshape, htc⟩ := bind_eq_ok.mp htc
  rw [throwIf_bind_eq_ok, not_or, not_or, ne_eq, not_not, ne_eq, not_not, ne_eq, not_not] at htc
  obtain ⟨⟨rfl, rfl, rfl⟩, -⟩ := htc
  rw [validateTimeoutCertificateShape] at hshape
  obtain ⟨_, hchain, hshape⟩ := bind_eq_ok.mp hshape
  obtain ⟨_, hheight, hshape⟩ := bind_eq_ok.mp hshape
  obtain ⟨_, hround, hshape⟩ := bind_eq_ok.mp hshape
  rw [throwIf_bind_eq_ok] at hshape
  obtain ⟨_, hvotes, -⟩ := bind_eq_ok.mp hshape.2
  rw [assertV6ChainId, throwIf_eq_ok] at hchain
  rw [assertV6Height, throwIf_eq_ok] at hheight
  rw [assertV6Round, throwIf_eq_ok] at hround
  refine ⟨throwIf_of_not hchain, throwIf_of_not hheight, by omega, rfl, rfl, rfl,
    maxReported_le (by omega) fun v hv => ?_⟩
  have htarget := (timeoutVoteShape_target (forEach_eq_ok.mp hvotes v hv) "").2.2.2.2
  rwa [(hvalid.target v hv).2.2] at htarget

/-- A request of the next round on an accepted certificate is accepted. -/
theorem validatePrepareRequestCertificates_of_timeout
    (htc : validateTimeoutCertificate tc validators chainId height round = .ok (maxReported
      tc.votes)) (hnext : round + 1 ≤ v6MaxRound) {block : Block} (hblock : tc.Proposable block)
    {signature : String} (hhex : IsHex 64 signature) {check : Bool}
    (hsigned : check = true → verifyProposalSignature ⟨⟨chainId, height, round + 1, block.hash,
      maxReported tc.votes⟩, signature⟩ validators = .ok ()) :
    validatePrepareRequestCertificates
      ⟨⟨⟨chainId, height, round + 1, block.hash, maxReported tc.votes⟩, signature⟩, block, some tc⟩
      validators chainId height check = .ok tc.highQC := by
  have hvalid := validateTimeoutCertificate_eq_ok htc
  obtain ⟨hchainOk, hheightOk, hnonneg, hchain, hheight, hround, hle⟩ :=
    timeoutCertificate_target htc
  have hge := neg_one_le_maxReported tc.votes
  generalize maxReported tc.votes = reported at *
  have hsafe : ∀ n : Int, -1 ≤ n → n ≤ v6MaxRound → IsSafeInteger n := by
    intro n hn hn'
    rw [v6MaxRound] at hn'
    rw [IsSafeInteger, maxSafeInteger]
    omega
  have hshape : validateProposalShape
      ⟨⟨chainId, height, round + 1, block.hash, reported⟩, signature⟩ = .ok () := by
    rw [validateProposalShape]
    refine bind_eq_ok.mpr ⟨(), hchainOk, bind_eq_ok.mpr ⟨(), hheightOk, bind_eq_ok.mpr
      ⟨(), throwIf_of_not ?_, bind_eq_ok.mpr ⟨(), assertHex_eq_ok.mpr hblock.hash,
        throwIf_bind_eq_ok.mpr ⟨?_, assertHex_eq_ok.mpr hhex⟩⟩⟩⟩⟩
    · rintro (hbad | hneg | hgt)
      · exact hbad (hsafe (round + 1) (by omega) hnext)
      · change round + 1 < 0 at hneg
        omega
      · exact absurd hnext (not_le.mpr hgt)
    · rintro (hbad | hneg | hgt)
      · exact hbad (hsafe reported hge (by omega))
      · exact absurd hge (not_le.mpr hneg)
      · change reported ≥ round + 1 at hgt
        omega
  have hcheck : checkProposalSignature check
      ⟨⟨chainId, height, round + 1, block.hash, reported⟩, signature⟩ validators = .ok () := by
    rw [checkProposalSignature]
    split
    · next htrue => exact hsigned htrue
    · rfl
  have hlater : block.header.round ≤ round + 1 := by
    rcases hvalid.highQC with ⟨-, hnone⟩ | ⟨qc, hqc, -, hqcRound, -⟩
    · rw [hblock.fresh hnone, hround]
    · have := (hblock.certified qc hqc).2
      omega
  rw [validatePrepareRequestCertificates]
  refine bind_eq_ok.mpr ⟨(), hshape, throwIf_bind_eq_ok.mpr ⟨by simp, throwIf_bind_eq_ok.mpr
    ⟨by simp, bind_eq_ok.mpr ⟨(), hcheck, throwIf_bind_eq_ok.mpr ⟨by simp,
      throwIf_bind_eq_ok.mpr ⟨?_, throwIf_bind_eq_ok.mpr ⟨not_lt.mpr hlater, ?_⟩⟩⟩⟩⟩⟩⟩
  · simp [hblock.height, hblock.chainId, hheight, hchain]
  · change (if round + 1 = 0 then _ else _) = _
    rw [if_neg (by omega)]
    change (validateTimeoutCertificate tc validators chainId height (round + 1 - 1) >>= _) = _
    rw [add_sub_cancel_right, htc, ok_bind, validateJustification]
    refine throwIf_bind_eq_ok.mpr ⟨by simp, ?_⟩
    rcases hvalid.highQC with ⟨hneg, hnone⟩ | ⟨qc, hqc, hqcOk, hqcRound, -⟩
    · rw [if_pos hneg, hnone]
      refine throwIf_bind_eq_ok.mpr ⟨?_, rfl⟩
      simp [hblock.fresh hnone, hround]
    · have hqcNonneg := (PrepareQC.valid_of_validate hqcOk).round_mem.1
      obtain ⟨hhash, hold⟩ := hblock.certified qc hqc
      rw [if_neg (by omega), hqc]
      refine throwIf_bind_eq_ok.mpr ⟨by simp [hhash], throwIf_bind_eq_ok.mpr ⟨?_, rfl⟩⟩
      exact not_lt.mpr hold

/-! ### Assembly -/

def ValidIn (responses : List (Option V6TimeoutResponse)) (validators : List Validator)
    (chainId : String) (height round : Int) (r : V6TimeoutResponse) : Prop :=
  some r ∈ responses ∧ validateTimeoutResponse r validators chainId height round = .ok ()

/-- No two valid responses carry certificates of one round for two blocks. -/
def Agreeing (responses : List (Option V6TimeoutResponse)) (validators : List Validator)
    (chainId : String) (height round : Int) : Prop :=
  ∀ r s qc qc', ValidIn responses validators chainId height round r →
    ValidIn responses validators chainId height round s → r.highQC = some qc →
    s.highQC = some qc' → qc.round = qc'.round → qc.blockHash = qc'.blockHash

private theorem keptResponses_eq_self (hagree : Agreeing responses validators chainId height round)
    (hvalid : ∀ r ∈ valid, ValidIn responses validators chainId height round r)
    (hhighest : IsHighest highest (valid.map V6TimeoutResponse.highQC)) :
    keptResponses valid highest = valid := by
  rw [keptResponses, filter_eq_self]
  intro r hr
  cases highest with
  | none => rfl
  | some qc =>
    obtain ⟨hqc, s, hs, hsqc, -⟩ := exists_carrier
      (fun r hr => V6TimeoutResponse.valid_of_validate (hvalid r hr).2) hhighest
    have hnonneg := (PrepareQC.valid_of_validate hqc).round_mem.1
    have hs := mem_of_mem_filter hs
    simp only [decide_eq_true_eq, not_and, ne_eq, not_not]
    intro hround
    rcases (V6TimeoutResponse.valid_of_validate (hvalid r hr).2).report with
      ⟨hneg, -⟩ | ⟨qc', hqc', -, hround', hhash⟩
    · omega
    · rw [← hhash]
      exact hagree r s qc' qc (hvalid r hr) (hvalid s hs) hqc' hsqc (hround'.trans hround)

private theorem isHighest_kept (hvalid : ∀ r ∈ valid, r.Valid validators chainId height round)
    (hhighest : IsHighest highest (valid.map V6TimeoutResponse.highQC)) :
    IsHighest highest ((keptResponses valid highest).map V6TimeoutResponse.highQC) := by
  have hsub : ∀ c ∈ (keptResponses valid highest).map V6TimeoutResponse.highQC,
      c ∈ valid.map V6TimeoutResponse.highQC :=
    fun c hc => (filter_sublist.map _).subset hc
  refine ⟨fun h c hc => hhighest.1 h c (hsub c hc), ?_⟩
  rintro qc rfl
  obtain ⟨-, r, hr, hrqc, -⟩ := exists_carrier hvalid hhighest
  exact ⟨mem_map.mpr ⟨r, hr, hrqc⟩, fun c hc => (hhighest.2 qc rfl).2 c (hsub _ hc)⟩

private theorem length_le_validResponses {signers : List Address} (hnodup : signers.Nodup)
    (hsigners : ∀ a ∈ signers, ∃ r, ValidIn responses validators chainId height round r ∧
      r.vote.validator = a) :
    signers.length ≤ (validResponses responses validators chainId height round).length := by
  have hsub : signers ⊆
      (responses.foldl (collectResponse validators chainId height round) .empty).keys := by
    intro a ha
    obtain ⟨r, ⟨hmem, hok⟩, rfl⟩ := hsigners a ha
    exact (collected responses validators chainId height round).signer r hmem hok
  have hle := (subperm_of_subset hnodup hsub).length_le
  rwa [JsMap.keys, length_map, ← length_map (f := Prod.snd)] at hle

/-- A certificate on which the leader of the next round can propose: the request that it checks
before it signs is accepted, and so is the one with its signature. -/
def Extendable (tc : TimeoutCertificate) (validators : List Validator) (chainId : String)
    (height round : Int) : Prop :=
  ∀ block, tc.Proposable block →
    ∃ request, v6UnsignedRequest validators chainId height (round + 1) block (some tc) =
        .ok request ∧
      ∀ signature, IsHex 64 signature →
        verifyProposalSignature ⟨request.proposal.payload, signature⟩ validators = .ok () →
        validatePrepareRequestCertificates ⟨⟨request.proposal.payload, signature⟩, block, some tc⟩
          validators chainId height true = .ok tc.highQC

theorem extendable_of_validate
    (htc : validateTimeoutCertificate tc validators chainId height round = .ok (maxReported
      tc.votes)) (hnext : round + 1 ≤ v6MaxRound) :
    Extendable tc validators chainId height round := by
  intro block hblock
  have hnonneg := (timeoutCertificate_target htc).2.2.1
  have hjustify : proposalJustifyRound validators chainId height (round + 1) (some tc) =
      .ok (maxReported tc.votes) := by
    rw [proposalJustifyRound, if_neg (by omega)]
    rw [add_sub_cancel_right, htc]
  have hzero : IsHex 64 (digits 128 '0') := by decide +kernel
  refine ⟨⟨⟨⟨chainId, height, round + 1, block.hash, maxReported tc.votes⟩, digits 128 '0'⟩, block,
    some tc⟩, ?_, fun signature hhex hsigned =>
      validatePrepareRequestCertificates_of_timeout htc hnext hblock hhex fun _ => hsigned⟩
  rw [v6UnsignedRequest, hjustify, ok_bind]
  exact bind_eq_ok.mpr ⟨tc.highQC,
    validatePrepareRequestCertificates_of_timeout htc hnext hblock hzero nofun, rfl⟩

/-- Assembly never fails for a validator set of the size of one; it gives nothing, or a certificate
that verifies, carries the highest certificate of the responses it keeps, and on which the leader
of the next round can propose.  It gives a certificate whenever a quorum of validators gave a valid
response and the certificates of a round agree. -/
theorem assembleTimeoutCertificate_spec (responses : List (Option V6TimeoutResponse))
    (validators : List Validator) (chainId : String) (height round : Int)
    (hpos : 1 ≤ validators.length) (hlen : validators.length ≤ 100) :
    ∃ result, assembleTimeoutCertificate responses validators chainId height round = .ok result ∧
      (∀ tc, result = some tc →
        (∃ reported, validateTimeoutCertificate tc validators chainId height round = .ok reported) ∧
        (∃ kept : List V6TimeoutResponse,
          kept = keptResponses (validResponses responses validators chainId height round)
            tc.highQC ∧
          (∀ r ∈ kept, ValidIn responses validators chainId height round r) ∧
          tc.votes = kept.map V6TimeoutResponse.vote ∧
          IsHighest tc.highQC (kept.map V6TimeoutResponse.highQC)) ∧
        (round + 1 ≤ v6MaxRound → Extendable tc validators chainId height round)) ∧
      ((∃ signers : List Address, signers.Nodup ∧ quorumSize validators.length ≤ signers.length ∧
          ∀ a ∈ signers, ∃ r, ValidIn responses validators chainId height round r ∧
            r.vote.validator = a) →
        Agreeing responses validators chainId height round → ∃ tc, result = some tc) := by
  obtain ⟨hdistinct, hvalid⟩ := validResponses_spec responses validators chainId height round
  set valid := validResponses responses validators chainId height round with hvalidEq
  have hhighest := isHighest_maxQC (valid.map V6TimeoutResponse.highQC)
  set highest := maxQC (valid.map V6TimeoutResponse.highQC) with hhighestEq
  have hresult : assembleTimeoutCertificate responses validators chainId height round =
      if (keptResponses valid highest).length < quorumSize validators.length then .ok none
      else (validateTimeoutCertificate ⟨chainId, height, round,
          (keptResponses valid highest).map V6TimeoutResponse.vote, highest⟩ validators chainId
          height round >>= fun _ => .ok (some ⟨chainId, height, round,
            (keptResponses valid highest).map V6TimeoutResponse.vote, highest⟩)) := by
    rw [assembleTimeoutCertificate, validatorQuorumSize, throwIf_of_not (by omega)]
    change (if ((keptResponses valid highest).map _).length < _ then _ else _) = _
    rw [length_map]
  rw [hresult]
  split
  · next hshort =>
    refine ⟨none, rfl, by simp, ?_⟩
    rintro ⟨signers, hnodup, hquorum, hsigners⟩ hagree
    rw [keptResponses_eq_self hagree hvalid hhighest] at hshort
    have hle := length_le_validResponses hnodup hsigners
    rw [← hvalidEq] at hle
    omega
  · next hquorum =>
    have hvalid' : ∀ r ∈ valid, r.Valid validators chainId height round :=
      fun r hr => V6TimeoutResponse.valid_of_validate (hvalid r hr).2
    have htc := validateTimeoutCertificate_of_kept hlen hpos hdistinct hvalid' hhighest rfl
      (by rw [length_map]; exact not_lt.mp hquorum)
    rw [htc]
    refine ⟨_, rfl, ?_, fun _ _ => ⟨_, rfl⟩⟩
    rintro tc ⟨⟩
    exact ⟨⟨_, htc⟩, ⟨_, rfl, fun r hr => hvalid r (mem_of_mem_filter hr), rfl,
      isHighest_kept hvalid' hhighest⟩, extendable_of_validate htc⟩

end

/-! ### A quorum of one -/

namespace LoneTimeout

local instance loneCrypto : Crypto := .ofTable fun _ _ _ => true

def validator : Validator := ⟨"ZYN1111111111111111111111111111111111111111", digits 128 '1'⟩

def response : V6TimeoutResponse where
  vote := ⟨⟨"zyron", 1, 0, -1, zeroHash⟩, validator.address, validator.publicKey, digits 128 'a'⟩
  highQC := none

/-- A malformed value does not keep the only validator's response from making a certificate that
the leader of round 1 can propose on. -/
theorem assembleTimeoutCertificate_lone :
    ∃ tc, assembleTimeoutCertificate [none, some response] [validator] "zyron" 1 0 =
        .ok (some tc) ∧ Extendable tc [validator] "zyron" 1 0 := by
  obtain ⟨result, hresult, hsome, hexists⟩ := assembleTimeoutCertificate_spec
    [none, some response] [validator] "zyron" 1 0 (by decide) (by decide)
  have hok : validateTimeoutResponse response [validator] "zyron" 1 0 = .ok () := by
    decide +kernel
  obtain ⟨tc, rfl⟩ := hexists ⟨[validator.address], by simp, by decide, fun a ha =>
    ⟨response, ⟨by simp, hok⟩, (mem_singleton.mp ha).symm⟩⟩ (by
      rintro r s qc qc' ⟨hr, -⟩ - hqc
      have : r = response := by simpa using hr
      rw [this] at hqc
      cases hqc)
  exact ⟨tc, hresult, (hsome tc rfl).2.2 (by decide)⟩

end LoneTimeout

end ZyronChain
