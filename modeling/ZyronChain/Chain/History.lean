import Mathlib.Data.List.Chain
import ZyronChain.Chain.Bodies
import ZyronChain.Chain.Snapshot

/-!
# The history of a chain

Each block of a run extends the one before it, and the proposer and the certificates of each can be
checked again at the end, with the schedules the chain has then.  The hash of a tip commits to the
headers and the transactions of all blocks before it.

Source: `l1/src/chain.ts` (`acceptBlock`), `l1/src/block.ts`.

## Main results

* `Chain.history_finalized` : every block of a run is final under the schedules of the chain.
* `Chain.history_determined` : runs that end in one hash have one history.
-/

namespace ZyronChain

open Checks List

section

variable [Crypto]

/-- A block that comes right after another one. -/
structure Block.Extends (block previous : Block) : Prop where
  height : block.header.height = previous.header.height + 1
  previousHash : block.header.previousHash = previous.hash
  timestamp : previous.header.timestampMs < block.header.timestampMs

namespace Chain

/-- A block that the validators in force at its height have proposed and finalized. -/
structure Finalized (c : Chain) (block : Block) : Prop where
  version : c.protocolVersionAt block.header.height = .ok block.header.version
  authority : ∃ validators, c.validatorsAt block.header.height = .ok validators ∧
    validateProposer block validators true = .ok () ∧
    validateCertificates block validators true = .ok ()

/-- The blocks of a run, as they stand at its end. -/
structure History (g : GenesisConfig) (genesisBlock : Block) (done : List (Block × Int))
    (c : Chain) : Prop where
  governed : c.Governed g done
  anchored : c.Anchored g
  height : c.height = done.length
  linked : (genesisBlock :: done.map Prod.fst).IsChain fun b b' => b'.Extends b
  last : (genesisBlock :: done.map Prod.fst).getLast? = some c.tip
  finalized : ∀ e ∈ done, e.1.header.height ≤ c.height ∧ c.Finalized e.1

variable {g : GenesisConfig} {c₀ c c' : Chain} {blocks blocks' : List (Block × Int)}

theorem history_create (hcreate : create g = .ok c₀) : c₀.History g c₀.tip [] where
  governed := governed_create hcreate
  anchored := anchored_create hcreate
  height := by
    obtain ⟨-, _, -, rfl⟩ := create_eq_ok hcreate
    rfl
  linked := isChain_singleton _
  last := rfl
  finalized := fun _ he => absurd he not_mem_nil

/-- The new block is final, and the old ones stay so. -/
theorem History.acceptBlock {genesisBlock : Block} (h : c.History g genesisBlock blocks)
    {block : Block} {nowMs : Int} (haccept : c.acceptBlock block nowMs = .ok c') :
    c'.History g genesisBlock (blocks ++ [(block, nowMs)]) := by
  obtain ⟨⟨_, _, _, hreplays⟩, hgenesis, -, rfl, hheight, -⟩ := replays_of_acceptBlock haccept
  have hanchored := h.anchored.acceptBlock h.governed.genesis haccept
  have hnext := hreplays.gates.height_eq
  have hlength := h.height
  rw [h.anchored.height] at hnext
  refine ⟨h.governed.acceptBlock haccept, hanchored, ?_, ?_, ?_, ?_⟩
  · rw [length_append, length_singleton]
    omega
  · rw [map_append, ← cons_append]
    refine h.linked.append (isChain_singleton _) fun b hb b' hb' => ?_
    rw [h.last, Option.mem_some_iff] at hb
    rw [map_singleton, head?_cons, Option.mem_some_iff] at hb'
    subst hb hb'
    exact ⟨hreplays.gates.height_eq, hreplays.gates.previousHash_eq, hreplays.proposal.timestamp_lt⟩
  · rw [map_append, ← cons_append]
    exact getLast?_concat
  · intro e he
    rcases mem_append.mp he with he | he
    · -- what the block schedules takes effect above the blocks before it
      obtain ⟨hle, hversion, validators, hvalidators, hchecks⟩ := h.finalized e he
      obtain ⟨hsame, hsameVersion, -⟩ := (appends_of_acceptBlock haccept).stable
        (by rw [minUpdateDelay]; omega : e.1.header.height < c'.tip.header.height + minUpdateDelay)
        c.genesis.validators
      refine ⟨by omega, hsameVersion.trans hversion, validators, ?_, hchecks⟩
      rw [Chain.validatorsAt, hgenesis]
      exact hsame.trans hvalidators
    · rw [mem_singleton.mp he]
      obtain ⟨_, hversion, -, hheader, -⟩ := hanchored.state
      rw [hheight, ← hheader] at hversion
      refine ⟨hheight.ge, hversion, ?_⟩
      rcases hanchored.authority with ⟨hzero, -⟩ | ⟨-, validators, hvalidators, hchecks⟩
      · omega
      · exact ⟨validators, hheight ▸ hvalidators, hchecks⟩

theorem history (hcreate : create g = .ok c₀) (hrun : c₀.acceptBlocks blocks = .ok c) :
    c.History g c₀.tip blocks :=
  acceptBlocks_induction (P := fun done c => c.History g c₀.tip done)
    (fun _ _ _ _ _ h haccept => h.acceptBlock haccept) (history_create hcreate) hrun

/-- The blocks of a run are linked up to the tip, and each is final under the schedules of the chain. -/
theorem history_finalized (hcreate : create g = .ok c₀) (hrun : c₀.acceptBlocks blocks = .ok c) :
    (c₀.tip :: blocks.map Prod.fst).IsChain (fun b b' => b'.Extends b) ∧
      (c₀.tip :: blocks.map Prod.fst).getLast? = some c.tip ∧ ∀ e ∈ blocks, c.Finalized e.1 := by
  have h := history hcreate hrun
  exact ⟨h.linked, h.last, fun e he => (h.finalized e he).2⟩

theorem acceptBlocks_concat {entry : Block × Int}
    (h : c₀.acceptBlocks (blocks ++ [entry]) = .ok c) :
    ∃ c₁, c₀.acceptBlocks blocks = .ok c₁ ∧ c₁.acceptBlock entry.1 entry.2 = .ok c := by
  induction blocks generalizing c₀ with
  | nil =>
    obtain ⟨_, haccept, hc⟩ := bind_eq_ok.mp h
    exact ⟨c₀, rfl, haccept.trans hc⟩
  | cons first blocks ih =>
    obtain ⟨c', haccept, h⟩ := bind_eq_ok.mp h
    obtain ⟨c₁, hrun, hlast⟩ := ih h
    exact ⟨c₁, bind_eq_ok.mpr ⟨c', haccept, hrun⟩, hlast⟩

/-- Tips of one hash are one block at one height, apart from their certificates. -/
theorem History.tip_determined {genesisBlock : Block} (h : c.History g genesisBlock blocks)
    (h' : c'.History g genesisBlock blocks') (hhash : c.tip.hash = c'.tip.hash) :
    (blocks.length = blocks'.length ∧ c.tip.header = c'.tip.header ∧
        c.tip.transactions = c'.tip.transactions) ∨
      ∃ b ∈ genesisBlock :: blocks.map Prod.fst, ∃ b' ∈ genesisBlock :: blocks'.map Prod.fst,
        ByteCollision (b.hashedBytes ∪ b'.hashedBytes) := by
  rw [h.anchored.hash, h'.anchored.hash] at hhash
  refine Or.imp_right (fun hcollision => ⟨c.tip, mem_of_getLast? h.last, c'.tip,
    mem_of_getLast? h'.last, hcollision⟩) ?_
  rcases header_eq_of_blockHash hhash with hheader | hcollision
  · have hheight := h.anchored.height
    rw [hheader, h'.anchored.height, h.height, h'.height] at hheight
    refine (transactions_eq_of_hash hhash h.anchored.transactionRoot h'.anchored.transactionRoot
      (.of_map _ h.anchored.txids) (.of_map _ h'.anchored.txids)).imp_left fun htransactions => ?_
    exact ⟨by omega, hheader, htransactions⟩
  · exact .inr hcollision

/-- Two runs from a genesis block that end in one hash have accepted the same headers and the same
transactions, or SHA-256 collides on two of their blocks. -/
theorem history_determined (hcreate : create g = .ok c₀) (hrun : c₀.acceptBlocks blocks = .ok c)
    (hrun' : c₀.acceptBlocks blocks' = .ok c') (hhash : c.tip.hash = c'.tip.hash) :
    blocks.map (fun e => (e.1.header, e.1.transactions)) =
        blocks'.map (fun e => (e.1.header, e.1.transactions)) ∨
      ∃ b ∈ c₀.tip :: blocks.map Prod.fst, ∃ b' ∈ c₀.tip :: blocks'.map Prod.fst,
        ByteCollision (b.hashedBytes ∪ b'.hashedBytes) := by
  induction blocks using reverseRecOn generalizing c c' blocks' with
  | nil =>
    refine ((history hcreate hrun).tip_determined (history hcreate hrun') hhash).imp_left ?_
    rintro ⟨hlength, -⟩
    rw [eq_nil_of_length_eq_zero hlength.symm]
  | append_singleton blocks e ih =>
    rcases (history hcreate hrun).tip_determined (history hcreate hrun') hhash with
      ⟨hlength, hheader, htransactions⟩ | hcollision
    · rcases eq_nil_or_concat' blocks' with rfl | ⟨blocks', e', rfl⟩
      · rw [length_append, length_singleton] at hlength
        cases hlength
      obtain ⟨c₁, hrun₁, haccept⟩ := acceptBlocks_concat hrun
      obtain ⟨c₁', hrun₁', haccept'⟩ := acceptBlocks_concat hrun'
      obtain ⟨⟨_, _, _, hreplays⟩, -, -, htip, -⟩ := replays_of_acceptBlock haccept
      obtain ⟨⟨_, _, _, hreplays'⟩, -, -, htip', -⟩ := replays_of_acceptBlock haccept'
      rw [htip, htip'] at hheader htransactions
      have hprevious : c₁.tip.hash = c₁'.tip.hash := by
        rw [← hreplays.gates.previousHash_eq, ← hreplays'.gates.previousHash_eq, hheader]
      rcases ih hrun₁ hrun₁' hprevious with hsame | ⟨b, hb, b', hb', hcollision⟩
      · rw [map_append, map_append, hsame, map_singleton, map_singleton, hheader, htransactions]
        exact .inl rfl
      · refine .inr ?_
        rw [map_append, map_append, ← cons_append, ← cons_append]
        exact ⟨b, mem_append_left _ hb, b', mem_append_left _ hb', hcollision⟩
    · exact .inr hcollision

end Chain

end

attribute [local instance] OneValidator.oneCrypto

/-- The block of `OneValidator` is final at the end of its run. -/
theorem history_finalized_oneValidator :
    OneValidator.block.Extends OneValidator.start.tip ∧
      OneValidator.next.Finalized OneValidator.block := by
  obtain ⟨hlinked, -, hfinalized⟩ := Chain.history_finalized OneValidator.create_genesis
    OneValidator.acceptBlocks_block
  exact ⟨(isChain_cons_cons.mp hlinked).1, hfinalized _ mem_cons_self⟩

/-- The run of `OneValidator` and whatever else ends in the same hash. -/
theorem history_determined_oneValidator :
    OneValidator.start.acceptBlocks [(OneValidator.block, 1)] = .ok OneValidator.next ∧
      ∀ blocks c, OneValidator.start.acceptBlocks blocks = .ok c →
        OneValidator.next.tip.hash = c.tip.hash →
        [(OneValidator.block.header, OneValidator.block.transactions)] =
            blocks.map (fun e => (e.1.header, e.1.transactions)) ∨
          ∃ b ∈ [OneValidator.start.tip, OneValidator.block],
            ∃ b' ∈ OneValidator.start.tip :: blocks.map Prod.fst,
              ByteCollision (b.hashedBytes ∪ b'.hashedBytes) :=
  ⟨OneValidator.acceptBlocks_block, fun _ _ hrun hhash => Chain.history_determined
    OneValidator.create_genesis OneValidator.acceptBlocks_block hrun hhash⟩

end ZyronChain
