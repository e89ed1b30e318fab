import ZyronChain.Genesis

/-!
# The size of a block

Bounds on the canonical size of what a block carries besides its transactions.

Source: `l1/src/block.ts`, `l1/src/types.ts`.
-/

namespace ZyronChain

open Checks

theorem size_chainId_le {chainId : String} (h : IsChainId chainId) :
    (Json.str chainId).size ≤ 66 := by
  rw [size_str fun c hc => isPlainChar_of_isIdChar (h.2.2 c hc)]
  have := h.2.1
  omega

/-- A header takes at most 512 bytes. -/
theorem size_header_le {header : BlockHeader} (hchain : IsChainId header.chainId)
    (hversion : IsSafeInteger header.version) (hheight : IsSafeInteger header.height)
    (hround : IsSafeInteger header.round) (htime : IsSafeInteger header.timestampMs)
    (hprevious : IsHex 32 header.previousHash) (htransactions : IsHex 32 header.transactionRoot)
    (hstate : IsHex 32 header.stateRoot) (hproposer : (Json.str header.proposer).size ≤ 45) :
    header.toJson.size ≤ 512 := by
  have hchain := size_chainId_le hchain
  have hversion := size_num_le hversion
  have hheight := size_num_le hheight
  have hround := size_num_le hround
  have htime := size_num_le htime
  have hnames : Json.namesSize ["chainId", "height", "previousHash", "proposer", "round",
    "stateRoot", "timestampMs", "transactionRoot", "version"] = 98 := by decide
  simp only [Json.namesSize] at hnames
  rw [BlockHeader.toJson, Json.size_obj]
  simp only [Json.sizeMembers, size_str_of_isHex hprevious, size_str_of_isHex htransactions,
    size_str_of_isHex hstate]
  omega

variable [Crypto]

/-- The genesis block passes the structural checks. -/
theorem validateBlockStructure_genesis {g : GenesisConfig} (hg : g.Valid) {stateRoot : String}
    (hroot : IsHex 32 stateRoot) :
    validateBlockStructure (createGenesisBlock g stateRoot) = .ok () := by
  have hhash : ∀ bytes, IsHex 32 (Crypto.sha256 bytes) := fun bytes =>
    isHex_iff_isHash64.mpr (Crypto.sha256_hex bytes)
  have hprevious : IsHex 32 (createGenesisBlock g stateRoot).header.previousHash := by
    change IsHex 32 (if g.bindConfig then genesisConfigCommitment g else digits 64 '0')
    split
    · exact hhash _
    · exact isHex_digits rfl rfl
  have hproposer : (Json.str "GENESIS").size ≤ 45 := by decide
  have hheader : (createGenesisBlock g stateRoot).header.toJson.size ≤ 512 :=
    size_header_le hg.chainId (by decide : IsSafeInteger 1) (by decide : IsSafeInteger 0)
      (by decide : IsSafeInteger 0) hg.timestamp.1 hprevious (hhash _) hroot hproposer
  have hcanonical : Canonical 0 (createGenesisBlock g stateRoot).toJson := by
    have hnum : ∀ n : Int, IsSafeInteger n → Canonical 2 (.num n) := fun _ h => h
    refine ⟨by decide, ⟨by decide, trivial⟩, trivial, ⟨by decide, trivial, ?_⟩, trivial,
      ⟨by decide, trivial⟩, trivial, ⟨by decide, trivial⟩, trivial⟩
    exact ⟨hnum 0 (by decide), trivial, trivial, hnum 0 (by decide), trivial, hg.timestamp.1,
      trivial, hnum 1 (by decide), trivial⟩
  have hsize : (createGenesisBlock g stateRoot).toJson.size ≤ maxBlockBytes := by
    have hnames : Json.namesSize ["attestations", "hash", "header", "proposerPublicKey",
      "roundCertificate", "signature", "transactions"] = 90 := by decide
    simp only [Json.namesSize] at hnames
    have hblock : (Json.str (createGenesisBlock g stateRoot).hash).size = 66 :=
      size_str_of_isHex (hhash _)
    have hempty : (Json.arr []).size = 2 := rfl
    have hnull : Json.null.size = 4 := rfl
    rw [Block.toJson, Json.size_obj]
    change 1 + max 1 (Json.sizeMembers [("attestations", .arr []),
      ("hash", .str (createGenesisBlock g stateRoot).hash),
      ("header", (createGenesisBlock g stateRoot).header.toJson), ("proposerPublicKey", .null),
      ("roundCertificate", .arr []), ("signature", .null), ("transactions", .arr [])]) ≤ 2000000
    simp only [Json.sizeMembers, hblock, hempty, hnull]
    omega
  rw [validateBlockStructure, validateHeaderStructure]
  simp only [unit_bind_eq_ok, throwIf_eq_ok, assertBlockBytes_eq_ok, assertHex_eq_ok]
  have hversion : ¬ (¬ IsSafeInteger 1 ∨ (1 : Int) < 1 ∨ (1 : Int) > 65535) := by decide
  have hzero : ¬ (¬ IsSafeInteger 0 ∨ (0 : Int) < 0) := by decide
  exact ⟨rfl, ⟨hversion, hzero, hzero, not_not.mpr hg.timestamp.1, hprevious, hhash _, hroot,
    hhash _, fun h => h.1 rfl⟩, Nat.not_lt_zero _, Nat.not_lt_zero _, Nat.not_lt_zero _,
    ⟨hcanonical, hsize⟩, rfl, rfl⟩

end ZyronChain
