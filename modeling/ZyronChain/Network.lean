import Mathlib.Logic.Function.Basic
import ZyronChain.Lib.Quorum
import ZyronChain.Node.Step

/-!
# A network of validators

The correct validators run nodes; the others may send anything.  In every order, nodes receive
calls, crash and restart, and lose or find tampered the files that are not the journal.  The only
thing that is not possible is to make a signature of a correct validator: a signature that a node
is brought and that is one of a correct validator was released by it before.

## Main definitions

* `Committee` : the validators of a height, some of which are Byzantine.
* `Network`, `Network.Step`, `Network.Reachable` : the network.
* `Network.Unforged` : a signature that no one has forged.

## Main results

* `QuorumVotes.quorum_of_unforged` : the voters of a certificate are a quorum, and the correct ones
  have released their votes.
-/

namespace ZyronChain

open List

/-- The validators that decide on a height of a chain, some of which are Byzantine. -/
structure Committee where
  chainId : String
  height : Int
  validators : List Validator
  /-- The keys of the Byzantine validators. -/
  byzantine : Finset String
  distinct : (validators.map Validator.publicKey).Nodup
  bound : byzantine.card < 2 * quorumSize validators.length - validators.length

namespace Committee

def members (c : Committee) : Finset String := (c.validators.map Validator.publicKey).toFinset

theorem card_members (c : Committee) : c.members.card = c.validators.length := by
  rw [members, toFinset_card_of_nodup c.distinct, length_map]

/-- Any two quorums have a correct validator in common. -/
def quorums (c : Committee) : QuorumSystem String :=
  .ofSize c.members c.byzantine (quorumSize c.validators.length) (by
    have := c.bound
    have := c.card_members
    omega)

/-- A node with this view of the chain decides on the height with these validators. -/
structure Admits (c : Committee) (chain : ChainView) : Prop where
  chainId_eq : chain.chainId = c.chainId
  validators_eq : chain.height + 1 = c.height → chain.validatorsAt c.height = c.validators

end Committee

/-- The nodes of the correct validators, by their keys, and the messages whose signatures were
released. -/
structure Network where
  nodes : String → Node
  released : List (String × ValidatorMessage)

namespace Network

def update (S : Network) (key : String) (n : Node) (released : List ValidatorMessage) :
    Network where
  nodes := Function.update S.nodes key n
  released := S.released ++ released.map (key, ·)

section

variable [Crypto]

/-- Where the signature is one of a correct validator, that validator has released it. -/
def Unforged (c : Committee) (S : Network) (signature : String) : Prop :=
  ∀ key text, key ∉ c.byzantine → Crypto.verify signature text key = true →
    ∃ m, (key, m) ∈ S.released ∧ m.text = text

/-- The steps of the network: those of the correct nodes, with what they are brought unforged.  The
files of a node may change in any way. -/
inductive Step (c : Committee) (S : Network) : Network → Prop
  | node {key : String} {received : List String} {n : Node} {released : List ValidatorMessage}
      (correct : key ∉ c.byzantine) (step : (S.nodes key).Step received n released)
      (unforged : ∀ signature ∈ received, S.Unforged c signature) (admitted : c.Admits n.chain) :
      Step c S (S.update key n released)
  | files {key : String} {files : ConsensusFiles} (correct : key ∉ c.byzantine) :
      Step c S (S.update key { S.nodes key with files := files } [])

/-- A network before anything was signed. -/
structure Initial (c : Committee) (S : Network) : Prop where
  publicKey : ∀ key, key ∉ c.byzantine → (S.nodes key).publicKey = key
  journal : ∀ key, key ∉ c.byzantine → (S.nodes key).journal = .fresh
  admitted : ∀ key, key ∉ c.byzantine → c.Admits (S.nodes key).chain
  released : S.released = []

/-- The networks that steps lead to. -/
inductive Reachable (c : Committee) : Network → Prop
  | initial {S : Network} (initial : S.Initial c) : Reachable c S
  | step {S S' : Network} (prior : Reachable c S) (next : S.Step c S') : Reachable c S'

end

@[simp] theorem update_nodes_self (S : Network) (key : String) (n : Node)
    (released : List ValidatorMessage) : (S.update key n released).nodes key = n := by
  simp only [update, Function.update_self]

variable {key : String} {released : List ValidatorMessage}

theorem update_nodes_of_ne (S : Network) {key' : String} (h : key' ≠ key) (n : Node)
    (released : List ValidatorMessage) : (S.update key n released).nodes key' = S.nodes key' := by
  simp only [update, Function.update_of_ne h]

theorem forall_nodes_update {S : Network} {n : Node} (P : String → Node → Prop) (hself : P key n)
    (hother : ∀ key', key' ≠ key → P key' (S.nodes key')) (key' : String) :
    P key' ((S.update key n released).nodes key') := by
  by_cases heq : key' = key
  · subst heq
    rw [update_nodes_self]
    exact hself
  · rw [update_nodes_of_ne S heq]
    exact hother key' heq

theorem mem_released_update {S : Network} {n : Node} {k : String} {m : ValidatorMessage} :
    (k, m) ∈ (S.update key n released).released ↔ (k, m) ∈ S.released ∨ k = key ∧ m ∈ released := by
  simp only [update, mem_append, mem_map, Prod.mk.injEq]
  constructor
  · rintro (h | ⟨m', hm', rfl, rfl⟩)
    · exact .inl h
    · exact .inr ⟨rfl, hm'⟩
  · rintro (h | ⟨rfl, hm⟩)
    · exact .inl h
    · exact .inr ⟨m, hm, rfl, rfl⟩

end Network

section

variable [Crypto]

omit [Crypto] in
theorem Committee.quorum_of_members (c : Committee) {ι : Type} {votes : List ι}
    {validator publicKey : ι → String} (hdistinct : (votes.map validator).Nodup)
    (hquorum : quorumSize c.validators.length ≤ votes.length)
    (hmember : ∀ v ∈ votes, ⟨validator v, publicKey v⟩ ∈ c.validators) :
    c.quorums.quorum (votes.map publicKey).toFinset := by
  refine Quorum.of_list ?_ ?_ ?_
  · -- two votes with one key are votes of one validator
    refine (nodup_map_iff_inj_on (List.Nodup.of_map _ hdistinct)).mpr ?_
    intro v hv w hw hkey
    have hvw : (⟨validator v, publicKey v⟩ : Validator) = ⟨validator w, publicKey w⟩ :=
      inj_on_of_nodup_map c.distinct (hmember v hv) (hmember w hw) hkey
    have haddress : validator v = validator w := congrArg Validator.address hvw
    exact inj_on_of_nodup_map hdistinct hv hw haddress
  · intro key hkey
    obtain ⟨v, hv, rfl⟩ := mem_map.mp hkey
    exact mem_toFinset.mpr (mem_map.mpr ⟨_, hmember v hv, rfl⟩)
  · rw [length_map]
    exact hquorum

/-- The voters of a certificate are a quorum, and the correct ones have released their votes. -/
theorem QuorumVotes.quorum_of_unforged {c : Committee} {S : Network} {votes : List Vote}
    {domain : String} {payload : Json} (h : QuorumVotes votes c.validators domain payload)
    (hunforged : ∀ v ∈ votes, S.Unforged c v.signature) :
    ∃ Q, c.quorums.quorum Q ∧ ∀ key ∈ Q, c.quorums.correct key →
      ∃ m, (key, m) ∈ S.released ∧ m.text = canonicalText (domainPayload domain payload) := by
  refine ⟨_, c.quorum_of_members h.distinct h.quorum h.member, ?_⟩
  intro key hkey hcorrect
  obtain ⟨v, hv, rfl⟩ := mem_map.mp (mem_toFinset.mp hkey)
  exact hunforged v hv _ _ hcorrect (verify_of_verifyCanonicalDomain (h.signed v hv))

end

end ZyronChain
