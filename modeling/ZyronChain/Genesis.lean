import ZyronChain.Block

/-!
# The genesis configuration

A genesis and everything it must satisfy.  The JSON key sets and the closed sets of names that the
source checks are those of the record and enumeration types.

Source: `l1/src/types.ts` (`GenesisConfig`), `l1/src/chain.ts` (`validateGenesis`),
`l1/src/network-class.ts`, `l1/src/tokenomics.ts`, `l1/src/allocation-locks.ts`
(`validateAllocationLocks`), `l1/src/public-distribution-release.ts`, `l1/src/fee-policy.ts`,
`l1/src/activity-oracle.ts`, `l1/src/validator-admission.ts`, `l1/src/block.ts`
(`createGenesisBlock`).

## Main definitions

* `GenesisConfig`, `GenesisConfig.toJson`, `genesisConfigCommitment`.
* `validateGenesis`.
* `createGenesisBlock`.
* `ValidatorsWellFormed` : what every loop over a validator set establishes.
-/

namespace ZyronChain

open Checks List

structure Allocation where
  address : Address
  amountAtoms : Int
deriving DecidableEq, Repr

structure AllocationLocks where
  founderVesting : Address
  permanentLiquidity : Address
deriving DecidableEq, Repr

structure PublicDistributionRelease where
  address : Address
  cliffMs : Int
  linearMs : Int
deriving DecidableEq, Repr

/-- `networkClass` of a genesis. -/
inductive NetworkClass where
  | devnet
  | localDevnet
  | testnet
  | privateTestnet
  | openTestnet
  | walletTestnet
  | publicLaunch
  | valueBearing
  | mainnet
deriving DecidableEq, Repr

/-- `feePolicy` of a genesis, of version `fixed-fee-v1`. -/
structure FeePolicy where
  fixedTransferFeeAtoms : Int
deriving DecidableEq, Repr

structure GenesisConfig where
  chainId : String
  timestampMs : Int
  validators : List Validator
  activityOracles : List String
  activityPool : Address
  allocations : List Allocation
  allocationLocks : Option AllocationLocks
  activityOracleThreshold : Option Int
  activityOraclePolicy : Option ActivityOraclePolicy
  activitySettlementCapAtoms : Option Int
  launchProfile : Option LaunchProfile
  networkClass : Option NetworkClass
  publicDistributionRelease : Option PublicDistributionRelease
  feePolicy : Option FeePolicy
  /-- The `genesisProofs` of policy `possession-proof-v1`. -/
  validatorAdmission : Option (List ValidatorPossessionProof)
deriving DecidableEq, Repr

/-! ### JSON values -/

def NetworkClass.name : NetworkClass → String
  | .devnet => "devnet"
  | .localDevnet => "local-devnet"
  | .testnet => "testnet"
  | .privateTestnet => "private-testnet"
  | .openTestnet => "open-testnet"
  | .walletTestnet => "wallet-testnet"
  | .publicLaunch => "public-launch"
  | .valueBearing => "value-bearing"
  | .mainnet => "mainnet"

def ActivityOraclePolicy.name : ActivityOraclePolicy → String
  | .testSingleV1 => "test-single-v1"
  | .thresholdV1 => "threshold-v1"

def LaunchProfile.name : LaunchProfile → String
  | .fixedSupplyV1 => "fixed-supply-v1"

def Allocation.toJson (a : Allocation) : Json :=
  .obj [("address", .str a.address), ("amountAtoms", .num a.amountAtoms)]

def AllocationLocks.toJson (locks : AllocationLocks) : Json :=
  .obj [("founderVesting", .str locks.founderVesting),
    ("permanentLiquidity", .str locks.permanentLiquidity)]

def PublicDistributionRelease.toJson (release : PublicDistributionRelease) : Json :=
  .obj [("address", .str release.address), ("cliffMs", .num release.cliffMs),
    ("linearMs", .num release.linearMs)]

def FeePolicy.toJson (policy : FeePolicy) : Json :=
  .obj [("fixedTransferFeeAtoms", .num policy.fixedTransferFeeAtoms), ("version", .str "fixed-fee-v1")]

/-- `validatorAdmission` as JSON. -/
def validatorAdmissionJson (genesisProofs : List ValidatorPossessionProof) : Json :=
  .obj [("genesisProofs", .arr (genesisProofs.map ValidatorPossessionProof.toJson)),
    ("policy", .str "possession-proof-v1")]

def GenesisConfig.toJson (g : GenesisConfig) : Json :=
  .obj (optionalMember "activityOraclePolicy" (g.activityOraclePolicy.map fun p => .str p.name) ++
    optionalMember "activityOracleThreshold" (g.activityOracleThreshold.map .num) ++
    [("activityOracles", .arr (g.activityOracles.map .str)), ("activityPool", .str g.activityPool)] ++
    optionalMember "activitySettlementCapAtoms" (g.activitySettlementCapAtoms.map .num) ++
    optionalMember "allocationLocks" (g.allocationLocks.map AllocationLocks.toJson) ++
    [("allocations", .arr (g.allocations.map Allocation.toJson)), ("chainId", .str g.chainId)] ++
    optionalMember "feePolicy" (g.feePolicy.map FeePolicy.toJson) ++
    optionalMember "launchProfile" (g.launchProfile.map fun p => .str p.name) ++
    optionalMember "networkClass" (g.networkClass.map fun c => .str c.name) ++
    optionalMember "publicDistributionRelease"
      (g.publicDistributionRelease.map PublicDistributionRelease.toJson) ++
    [("timestampMs", .num g.timestampMs)] ++
    optionalMember "validatorAdmission" (g.validatorAdmission.map validatorAdmissionJson) ++
    [("validators", .arr (g.validators.map Validator.toJson))])

/-! ### Network classes and profiles -/

/-- `isStrictNetworkClass`. -/
def NetworkClass.isStrict : NetworkClass → Bool
  | .publicLaunch | .valueBearing | .mainnet => true
  | _ => false

/-- `isStrictNetworkClass(readNetworkClass(genesis))`. -/
def GenesisConfig.isStrict (g : GenesisConfig) : Bool := match g.networkClass with
  | some c => c.isStrict
  | none => false

/-- `STRICT_MIN_VALIDATORS`. -/
def strictMinValidators : Nat := 4

def GenesisConfig.minimumValidatorCount (g : GenesisConfig) : Nat :=
  if g.isStrict = true ∨ g.launchProfile = some .fixedSupplyV1 then strictMinValidators else 1

/-- What follows each hyphen of a text. -/
def afterHyphens : List Char → List (List Char)
  | [] => []
  | c :: cs => if c = '-' then cs :: afterHyphens cs else afterHyphens cs

/-- A text starts with a word and then ends or goes on with a hyphen. -/
def startsSegment (word text : List Char) : Bool :=
  word.isPrefixOf text && ((text.drop word.length).isEmpty || (text.drop word.length).head? == some '-')

def chainIdRequiresStrictNetworkClass (chainId : String) : Bool :=
  (chainId.toList :: afterHyphens chainId.toList).any fun text =>
    ["mainnet", "public-launch", "value-bearing"].any fun word => startsSegment word.toList text

def assertValueBearingClassRequiresFixedSupplyProfile (g : GenesisConfig) : Except String Unit := do
  throwIf (chainIdRequiresStrictNetworkClass g.chainId = true ∧ ¬ g.isStrict = true)
    ("A chain ID that names mainnet, public-launch, or value-bearing requires networkClass " ++
      "\"public-launch\", \"value-bearing\", or \"mainnet\"")
  throwIf (g.isStrict = true ∧ g.launchProfile ≠ some .fixedSupplyV1)
    ("Value-bearing, public-launch, and mainnet genesis must declare launchProfile " ++
      "\"fixed-supply-v1\" so founder vesting and the permanent-liquidity lock are consensus rules")

/-- `/^[a-z0-9-]{3,64}$/`. -/
def IsChainId (chainId : String) : Prop :=
  3 ≤ chainId.toList.length ∧ chainId.toList.length ≤ 64 ∧
    ∀ c ∈ chainId.toList, (c.isDigit || ('a' ≤ c && c ≤ 'z') || c = '-') = true

instance (chainId : String) : Decidable (IsChainId chainId) :=
  @instDecidableAnd _ _ inferInstance
    (@instDecidableAnd _ _ inferInstance (List.decidableBAll _ _))

/-! ### Validator sets -/

section

variable [Crypto]

/-- A loop over a validator set with the sets of its keys and addresses: each validator is checked,
looked up in both sets, and checked further. -/
def forValidators (before after : Validator → Except String Unit) :
    List Validator → List String → List Address → Except String Unit
  | [], _, _ => .ok ()
  | v :: vs, seenKeys, seenAddresses => do
    before v
    throwIf (v.publicKey ∈ seenKeys) "Duplicate validator public key"
    throwIf (v.address ∈ seenAddresses) "Duplicate validator address"
    after v
    forValidators before after vs (v.publicKey :: seenKeys) (v.address :: seenAddresses)

/-- Distinct validators with the addresses of their keys, which are points of the curve. -/
structure ValidatorsWellFormed (validators : List Validator) : Prop where
  keys_nodup : (validators.map Validator.publicKey).Nodup
  addresses_nodup : (validators.map Validator.address).Nodup
  address : ∀ v ∈ validators, IsAddress v.address
  publicKey : ∀ v ∈ validators, IsHex 64 v.publicKey
  address_eq : ∀ v ∈ validators, addressFromPublicKey v.publicKey = v.address
  point : ∀ v ∈ validators, isValidPublicKey v.publicKey = true

/-- The checks of a genesis validator on its own. -/
def validateGenesisValidator (v : Validator) : Except String Unit := do
  assertAddress v.address
  assertHex v.publicKey 64 "validator publicKey"
  throwIf (addressFromPublicKey v.publicKey ≠ v.address) "Validator address/public key mismatch"
  assertValidPublicKey v.publicKey "Genesis validator public key"

/-! ### Activity oracles -/

/-- The loop over the activity oracles. -/
def validateActivityOracles (oracles : List String) : Except String Unit :=
  forDistinct id "Duplicate activity oracle" (fun oracle => assertHex oracle 64 "activity oracle")
    (fun _ => .ok ()) [] oracles

def validateActivityOracleThreshold (g : GenesisConfig) : Except String Unit :=
  match g.activityOracleThreshold with
  | none => .ok ()
  | some threshold =>
    throwIf (¬ IsSafeInteger threshold ∨ threshold < 1 ∨ threshold > g.activityOracles.length ∨
      threshold > maxActivityOracleApprovals) "Invalid activity oracle threshold"

/-- `isTwoOfThreeOrStricter`. -/
def IsTwoOfThreeOrStricter (threshold : Int) (oracleCount : Nat) : Prop :=
  IsSafeInteger threshold ∧ 3 ≤ oracleCount ∧ 2 ≤ threshold ∧ threshold ≤ oracleCount ∧
    (oracleCount : Int) - threshold ≥ 1 ∧ threshold * 3 ≥ oracleCount * 2

instance (threshold : Int) (oracleCount : Nat) :
    Decidable (IsTwoOfThreeOrStricter threshold oracleCount) :=
  inferInstanceAs (Decidable (_ ∧ _ ∧ _ ∧ _ ∧ _ ∧ _))

def activityOraclePolicyRequired : String :=
  "Launch profile fixed-supply-v1 requires activity oracle policy threshold-v1"

/-- The bound of the activity cap under a policy. -/
def ActivityOraclePolicy.maxCapAtoms : ActivityOraclePolicy → Int
  | .thresholdV1 => publicLaunchActivityCapAtoms
  | .testSingleV1 => maxActivitySettlementAtoms

/-- The activity cap of a genesis under a policy. -/
def validateActivitySettlementCap (g : GenesisConfig) (policy : ActivityOraclePolicy) :
    Except String Unit :=
  throwIf (∃ cap, g.activitySettlementCapAtoms = some cap ∧
    (¬ IsSafeInteger cap ∨ cap < 1 ∨ cap > policy.maxCapAtoms)) "Invalid activity settlement cap"

def validateActivityOraclePolicy (g : GenesisConfig) : Except String Unit := do
  throwIf (g.activitySettlementCapAtoms ≠ none ∧ g.activityOraclePolicy = none)
    "activitySettlementCapAtoms requires an activity oracle policy"
  throwIf (g.launchProfile = some .fixedSupplyV1 ∧ g.activityOraclePolicy ≠ some .thresholdV1)
    activityOraclePolicyRequired
  match g.activityOraclePolicy with
  | none => .ok ()
  | some .testSingleV1 => do
    validateActivitySettlementCap g .testSingleV1
    throwIf (g.activityOracleThreshold ≠ none)
      "Activity oracle policy test-single-v1 cannot declare activityOracleThreshold"
    throwIf (g.launchProfile = some .fixedSupplyV1) activityOraclePolicyRequired
  | some .thresholdV1 => do
    validateActivitySettlementCap g .thresholdV1
    throwIf (¬ ∃ threshold, g.activityOracleThreshold = some threshold ∧
      IsTwoOfThreeOrStricter threshold g.activityOracles.length)
      ("Activity oracle policy threshold-v1 requires 2-of-3 or stricter (at least two-thirds of " ++
        "at least three keys, with one spare)")
    forEach (fun oracle => assertValidPublicKey oracle "Genesis activity oracle public key")
      g.activityOracles

/-- The keys of a genesis that declares a threshold are points. -/
def validateThresholdKeys (g : GenesisConfig) : Except String Unit :=
  match g.activityOracleThreshold with
  | none => .ok ()
  | some _ =>
    forEach (fun oracle => assertValidPublicKey oracle "Genesis activity oracle public key")
      g.activityOracles

end

/-! ### Allocations -/

/-- The checks of an allocation on its own. -/
def validateAllocation (hasLaunchProfile : Bool) (a : Allocation) : Except String Unit := do
  assertAddress a.address
  throwIf (a.address = miningTrackerAddress) "Mining tracker cannot receive a genesis allocation"
  throwIf (hasLaunchProfile = true ∧ isActivityWindowAddress a.address = true)
    "Activity window record address cannot receive a genesis allocation"
  throwIf (¬ IsSafeInteger a.amountAtoms ∨ a.amountAtoms < 0) "Invalid genesis allocation"

def genesisSupplyExceeded : String := "Genesis supply exceeds maximum supply"

/-- The loop over the allocations, with the supply and the addresses so far. -/
def validateAllocations (hasLaunchProfile : Bool) : List Allocation → Int → List Address →
    Except String Unit
  | [], _, _ => .ok ()
  | a :: allocations, supply, allocated => do
    validateAllocation hasLaunchProfile a
    throwIf (¬ IsSafeInteger (supply + a.amountAtoms) ∨ supply + a.amountAtoms > maxSupplyAtoms)
      genesisSupplyExceeded
    throwIf (a.address ∈ allocated) "Duplicate genesis allocation"
    validateAllocations hasLaunchProfile allocations (supply + a.amountAtoms)
      (a.address :: allocated)

def GenesisConfig.allocationOf (g : GenesisConfig) (address : Address) : Option Allocation :=
  g.allocations.find? fun a => a.address = address

def validateLockedAccount (g : GenesisConfig) (address : Address) : Except String Unit := do
  throwIf (address = miningTrackerAddress)
    "Invalid allocation lock: mining tracker is protocol-reserved"
  throwIf (address = g.activityPool) "Invalid allocation lock: the activity pool cannot be locked"
  throwIf (g.allocationOf address = none)
    "Invalid allocation lock: the locked account needs a genesis allocation"

def validateAllocationLocks (g : GenesisConfig) : Except String Unit := match g.allocationLocks with
  | none => .ok ()
  | some locks => do
    assertAddress locks.founderVesting
    assertAddress locks.permanentLiquidity
    throwIf (locks.founderVesting = locks.permanentLiquidity)
      "Invalid allocation locks: roles must use distinct addresses"
    forEach (validateLockedAccount g) [locks.founderVesting, locks.permanentLiquidity]

/-! ### The fixed-supply launch profile -/

/-- `FOUNDER_ALLOCATION_ATOMS` and `ECOSYSTEM_RESERVE_ATOMS`: 5,000,000 ZYN. -/
def founderAllocationAtoms : Int := 500000000000000

/-- `PUBLIC_DISTRIBUTION_ATOMS` and `LIQUIDITY_RESERVE_ATOMS`: 20,000,000 ZYN. -/
def publicDistributionAtoms : Int := 2000000000000000

structure FixedSupplyAddresses where
  founder : Address
  publicDistribution : Address
  liquidityReserve : Address
  ecosystemReserve : Address
deriving DecidableEq, Repr

/-- The roles with their names, in the order of the record. -/
def FixedSupplyAddresses.roles (addresses : FixedSupplyAddresses) : List (String × Address) :=
  [("founder", addresses.founder), ("publicDistribution", addresses.publicDistribution),
    ("liquidityReserve", addresses.liquidityReserve),
    ("ecosystemReserve", addresses.ecosystemReserve)]

def assertZynAddress (address : String) : Except String Unit :=
  throwIf (¬ IsAddress address) "Invalid fixed-supply ZYN address"

def assertFixedSupplyAddresses (addresses : FixedSupplyAddresses) : Except String Unit :=
  forDistinct Prod.snd "Fixed-supply allocation roles must use distinct addresses"
    (fun entry => do
      assertZynAddress entry.2
      throwIf (entry.2 = miningTrackerAddress)
        s!"Fixed-supply {entry.1} address cannot be the reserved mining tracker")
    (fun _ => .ok ()) [] addresses.roles

/-- The amount that the plan requires of an address. -/
def FixedSupplyAddresses.required (addresses : FixedSupplyAddresses) (address : Address) :
    Option Int :=
  if address = addresses.ecosystemReserve then some founderAllocationAtoms
  else if address = addresses.liquidityReserve then some publicDistributionAtoms
  else if address = addresses.publicDistribution then some publicDistributionAtoms
  else if address = addresses.founder then some founderAllocationAtoms
  else none

/-- The loop of `assertFixedSupplyAllocations`; returns the total. -/
def sumFixedSupply (addresses : FixedSupplyAddresses) : List Allocation → List Address → Int →
    Except String Int
  | [], _, total => .ok total
  | a :: allocations, seen, total => do
    assertZynAddress a.address
    throwIf (¬ IsSafeInteger a.amountAtoms ∨ a.amountAtoms < 0)
      "Invalid fixed-supply allocation amount"
    throwIf (a.address ∈ seen) "Duplicate fixed-supply allocation address"
    throwIf (addresses.required a.address ≠ some a.amountAtoms)
      "Genesis allocation does not match the frozen fixed-supply plan"
    throwIf (¬ IsSafeInteger (total + a.amountAtoms)) "Fixed-supply allocation total overflow"
    sumFixedSupply addresses allocations (a.address :: seen) (total + a.amountAtoms)

def fourAllocations : String :=
  "Fixed-supply genesis requires exactly four disclosed allocation accounts"

/-- `assertFixedSupplyAllocations`.  The loop accepts only distinct addresses of the plan, so four
allocations cover the four roles. -/
def assertFixedSupplyAllocations (allocations : List Allocation)
    (addresses : FixedSupplyAddresses) : Except String Unit := do
  assertFixedSupplyAddresses addresses
  throwIf (allocations.length ≠ 4) fourAllocations
  let total ← sumFixedSupply addresses allocations [] 0
  throwIf (total ≠ maxSupplyAtoms) "Fixed-supply genesis must allocate exactly 50,000,000 ZYN"

def assertFixedSupplyGenesis (g : GenesisConfig) (locks : AllocationLocks)
    (addresses : FixedSupplyAddresses) : Except String Unit := do
  assertFixedSupplyAllocations g.allocations addresses
  throwIf (g.activityPool = addresses.founder ∨ g.activityPool = addresses.publicDistribution ∨
    g.activityPool = addresses.liquidityReserve)
    ("Fixed-supply activity pool must not be the founder, public-distribution, or " ++
      "permanent-liquidity allocation")
  throwIf (g.activityPool ≠ addresses.ecosystemReserve)
    "Fixed-supply activity pool must be the ecosystem/community allocation"
  throwIf (locks.founderVesting ≠ addresses.founder ∨
    locks.permanentLiquidity ≠ addresses.liquidityReserve)
    ("Fixed-supply allocationLocks must name exactly the founder (founderVesting) and " ++
      "permanent-liquidity (permanentLiquidity) allocations")

def assertFixedSupplyLaunchProfile (g : GenesisConfig) : Except String Unit :=
  match g.allocationLocks with
  | none => .error ("Fixed-supply genesis must declare allocationLocks for the founder and " ++
      "permanent-liquidity allocations")
  | some locks =>
    let roleAddresses := [locks.founderVesting, locks.permanentLiquidity, g.activityPool]
    match g.allocations.filter fun a => a.address ∉ roleAddresses with
    | [remaining] => do
      throwIf (¬ roleAddresses.Nodup ∨ g.allocations.length ≠ 4) fourAllocations
      assertFixedSupplyGenesis g locks
        { founder := locks.founderVesting
          publicDistribution := remaining.address
          liquidityReserve := locks.permanentLiquidity
          ecosystemReserve := g.activityPool }
    | _ => .error fourAllocations

/-- The profile of a genesis, if it declares one. -/
def validateLaunchProfile (g : GenesisConfig) : Except String Unit :=
  if g.launchProfile.isSome then assertFixedSupplyLaunchProfile g else .ok ()

/-! ### Public distribution, fees and admission -/

/-- The bounds of a release schedule: 365 days and 100 years. -/
def minLinearMs : Int := 31536000000

def maxScheduleMs : Int := 3153600000000

def assertScheduleBound (value : Int) (name : String) (minimum maximum : Int) :
    Except String Unit :=
  throwIf (¬ IsSafeInteger value ∨ value < minimum ∨ value > maximum)
    s!"Invalid public distribution release {name}"

def validatePublicDistributionRelease (g : GenesisConfig) : Except String Unit :=
  match g.publicDistributionRelease with
  | none =>
    throwIf (g.isStrict = true ∨ g.launchProfile = some .fixedSupplyV1)
      ("fixed-supply-v1, public-launch, value-bearing, and mainnet genesis must declare " ++
        "publicDistributionRelease so the 20,000,000 ZYN allocation cannot be spent in full on " ++
        "day one")
  | some release => do
    assertAddress release.address
    throwIf (release.address = miningTrackerAddress)
      "Invalid public distribution release: mining tracker is protocol-reserved"
    throwIf (release.address = g.activityPool)
      ("Invalid public distribution release: the activity pool cannot be the " ++
        "public-distribution account")
    throwIf (∃ locks, g.allocationLocks = some locks ∧
      (release.address = locks.founderVesting ∨ release.address = locks.permanentLiquidity))
      ("Invalid public distribution release: the address must not be the founder or " ++
        "permanent-liquidity allocation")
    match g.allocationOf release.address with
    | none =>
      .error "Invalid public distribution release: the account needs a genesis allocation"
    | some allocation => do
      assertScheduleBound release.cliffMs "cliffMs" 0 maxScheduleMs
      assertScheduleBound release.linearMs "linearMs" minLinearMs maxScheduleMs
      throwIf (g.launchProfile = some .fixedSupplyV1 ∧
        allocation.amountAtoms ≠ publicDistributionAtoms)
        ("Public distribution release must cover the 20,000,000 ZYN public-distribution " ++
          "allocation")

def validateGenesisFeePolicy (g : GenesisConfig) : Except String Unit := match g.feePolicy with
  | none => .ok ()
  | some policy => do
    throwIf (g.launchProfile ≠ some .fixedSupplyV1)
      "fixed-fee-v1 requires launchProfile fixed-supply-v1"
    throwIf (¬ IsSafeInteger policy.fixedTransferFeeAtoms ∨ policy.fixedTransferFeeAtoms < 1 ∨
      policy.fixedTransferFeeAtoms > maxSupplyAtoms) "Invalid fixed transfer fee"

def validateValidatorAdmissionShape (g : GenesisConfig) : Except String Unit :=
  match g.validatorAdmission with
  | none => .ok ()
  | some proofs =>
    forEach (fun proof : ValidatorPossessionProof =>
      assertHex proof.signature 64 "genesis possession proof signature") proofs

def assertValueBearingClassRequiresValidatorAdmission (g : GenesisConfig) : Except String Unit :=
  throwIf (g.isStrict = true ∧ g.validatorAdmission = none)
    ("Value-bearing, public-launch, and mainnet genesis require validatorAdmission (policy " ++
      "\"possession-proof-v1\") with one possession proof per genesis validator")

section

variable [Crypto]

def genesisCommitmentView (g : GenesisConfig) : GenesisConfig :=
  { g with validatorAdmission := g.validatorAdmission.map fun _ => [] }

def genesisConfigCommitment (g : GenesisConfig) : String :=
  sha256Hex (canonicalText (.obj [("domain", .str "zyronchain/genesis-config/v1"),
    ("genesis", (genesisCommitmentView g).toJson)]))

def possessionProofDomain : String := "zyronchain/validator-possession/v1"

def possessionProofPayload (chainId chainBinding : String) (activationHeight : Int)
    (validator : Validator) : Json :=
  .obj [("activationHeight", .num activationHeight), ("address", .str validator.address),
    ("chainBinding", .str chainBinding), ("chainId", .str chainId),
    ("publicKey", .str validator.publicKey)]

def verifyPossessionProof (chainId chainBinding : String) (activationHeight : Int)
    (validator : Validator) (signature : String) : Bool :=
  verifyCanonicalDomain possessionProofDomain
    (possessionProofPayload chainId chainBinding activationHeight validator) signature
    validator.publicKey

/-- The loop over possession proofs and the validators they are of. -/
def validatePossessionProofs (chainId chainBinding : String) (activationHeight : Int)
    (order : String) (label : String) : List (ValidatorPossessionProof × Validator) →
    Except String Unit :=
  forEach fun entry => do
    throwIf (entry.1.address ≠ entry.2.address) order
    throwIf (¬ verifyPossessionProof chainId chainBinding activationHeight entry.2
      entry.1.signature = true) s!"{label} {entry.2.address}"

def assertGenesisPossessionProofs (g : GenesisConfig) : Except String Unit :=
  match g.validatorAdmission with
  | none => .ok ()
  | some proofs => do
    throwIf (proofs.length ≠ g.validators.length)
      "validatorAdmission requires exactly one possession proof per genesis validator"
    validatePossessionProofs g.chainId (genesisConfigCommitment g) 0
      "Genesis possession proof does not match the genesis validator order"
      "Invalid genesis validator possession proof for" (proofs.zip g.validators)

/-! ### Validation -/

/-- The message of a validator count out of bounds. -/
def validatorCountMessage (minimum : Nat) (strict loose : String) : String :=
  if minimum > 1 then strict else loose

def validateGenesis (g : GenesisConfig) : Except String Unit := do
  throwIf (¬ IsChainId g.chainId) "Invalid chain ID"
  assertValueBearingClassRequiresFixedSupplyProfile g
  throwIf (¬ IsSafeInteger g.timestampMs ∨ g.timestampMs < 0) "Invalid genesis timestamp"
  throwIf (g.validators.length < g.minimumValidatorCount ∨ g.validators.length > maxValidatorCount)
    (validatorCountMessage g.minimumValidatorCount
      ("fixed-supply-v1, public-launch, value-bearing, and mainnet genesis require at least 4 and " ++
        "at most 100 distinct validators")
      "Genesis validator count must be between 1 and 100")
  forValidators validateGenesisValidator (fun _ => .ok ()) g.validators [] []
  throwIf (g.activityOracles.length = 0) "At least one activity oracle is required"
  validateActivityOracles g.activityOracles
  validateActivityOracleThreshold g
  validateActivityOraclePolicy g
  validateThresholdKeys g
  assertAddress g.activityPool
  throwIf (g.activityPool = miningTrackerAddress) "Mining tracker cannot be the activity pool"
  throwIf (g.allocations.length = 0) "Invalid allocations"
  validateAllocations g.launchProfile.isSome g.allocations 0 []
  validateAllocationLocks g
  validateLaunchProfile g
  validatePublicDistributionRelease g
  validateGenesisFeePolicy g
  validateValidatorAdmissionShape g
  assertValueBearingClassRequiresValidatorAdmission g
  assertGenesisPossessionProofs g

/-! ### The genesis block -/

/-- Whether the genesis header commits to the configuration. -/
def GenesisConfig.bindConfig (g : GenesisConfig) : Bool :=
  g.launchProfile.isSome || g.activityOracleThreshold.isSome || g.activityOraclePolicy.isSome ||
    g.activitySettlementCapAtoms.isSome || g.networkClass.isSome ||
    g.publicDistributionRelease.isSome || g.feePolicy.isSome || g.validatorAdmission.isSome

def createGenesisBlock (g : GenesisConfig) (stateRoot : String) : Block :=
  let header : BlockHeader :=
    { version := 1
      chainId := g.chainId
      height := 0
      round := 0
      previousHash := if g.bindConfig then genesisConfigCommitment g else digits 64 '0'
      timestampMs := g.timestampMs
      transactionRoot := merkleRoot []
      stateRoot := stateRoot
      proposer := "GENESIS" }
  { header := header
    transactions := []
    hash := blockHash header
    proposerPublicKey := none
    signature := none
    roundCertificate := []
    attestations := []
    commitRound := none }

/-! ### What acceptance means -/

variable {before after : Validator → Except String Unit} {validators : List Validator}

omit [Crypto] in
theorem forValidators_eq_ok {seenKeys : List String} {seenAddresses : List Address} {u : Unit} :
    forValidators before after validators seenKeys seenAddresses = .ok u ↔
      (validators.map Validator.publicKey).Nodup ∧ (validators.map Validator.address).Nodup ∧
        ∀ v ∈ validators, v.publicKey ∉ seenKeys ∧ v.address ∉ seenAddresses ∧
          before v = .ok () ∧ after v = .ok () := by
  induction validators generalizing seenKeys seenAddresses with
  | nil => simp [forValidators]
  | cons v vs ih =>
    have hstep : forValidators before after (v :: vs) seenKeys seenAddresses = .ok u ↔
        before v = .ok () ∧ v.publicKey ∉ seenKeys ∧ v.address ∉ seenAddresses ∧
          after v = .ok () ∧ forValidators before after vs (v.publicKey :: seenKeys)
            (v.address :: seenAddresses) = .ok u := by
      rw [forValidators, bind_eq_ok]
      constructor
      · rintro ⟨_, hb, h⟩
        rw [throwIf_bind_eq_ok, throwIf_bind_eq_ok, bind_eq_ok] at h
        obtain ⟨hk, ha, _, hafter, h⟩ := h
        exact ⟨hb, hk, ha, hafter, h⟩
      · rintro ⟨hb, hk, ha, hafter, h⟩
        exact ⟨(), hb, throwIf_bind_eq_ok.mpr ⟨hk, throwIf_bind_eq_ok.mpr
          ⟨ha, bind_eq_ok.mpr ⟨(), hafter, h⟩⟩⟩⟩
    rw [hstep, ih, map_cons, map_cons, nodup_cons, nodup_cons, forall_mem_cons]
    simp only [mem_cons, not_or, mem_map, not_exists, not_and]
    constructor
    · rintro ⟨hb, hk, ha, hafter, hkeys, haddresses, hall⟩
      exact ⟨⟨fun w hw heq => (hall w hw).1.1 heq, hkeys⟩,
        ⟨fun w hw heq => (hall w hw).2.1.1 heq, haddresses⟩, ⟨hk, ha, hb, hafter⟩,
        fun w hw => ⟨(hall w hw).1.2, (hall w hw).2.1.2, (hall w hw).2.2⟩⟩
    · rintro ⟨⟨hk', hkeys⟩, ⟨ha', haddresses⟩, ⟨hk, ha, hb, hafter⟩, hall⟩
      exact ⟨hb, hk, ha, hafter, hkeys, haddresses, fun w hw =>
        ⟨⟨fun heq => hk' w hw heq, (hall w hw).1⟩, ⟨fun heq => ha' w hw heq, (hall w hw).2.1⟩,
          (hall w hw).2.2⟩⟩

theorem assertValidPublicKey_eq_ok {publicKey label : String} :
    assertValidPublicKey publicKey label = .ok () ↔ isValidPublicKey publicKey = true := by
  rw [assertValidPublicKey, throwIf_eq_ok, not_not]

/-- A loop over a validator set accepts exactly the well-formed sets, if it checks each validator. -/
theorem validatorsWellFormed_iff
    (hcheck : ∀ v, before v = .ok () ∧ after v = .ok () ↔ IsAddress v.address ∧ IsHex 64 v.publicKey
      ∧ addressFromPublicKey v.publicKey = v.address ∧ isValidPublicKey v.publicKey = true) :
    forValidators before after validators [] [] = .ok () ↔ ValidatorsWellFormed validators := by
  rw [forValidators_eq_ok]
  constructor
  · rintro ⟨hkeys, haddresses, hall⟩
    have hv : ∀ v ∈ validators, _ := fun v hv => (hcheck v).mp (hall v hv).2.2
    exact ⟨hkeys, haddresses, fun v h => (hv v h).1, fun v h => (hv v h).2.1,
      fun v h => (hv v h).2.2.1, fun v h => (hv v h).2.2.2⟩
  · intro h
    exact ⟨h.keys_nodup, h.addresses_nodup, fun v hv => ⟨not_mem_nil, not_mem_nil,
      (hcheck v).mpr ⟨h.address v hv, h.publicKey v hv, h.address_eq v hv, h.point v hv⟩⟩⟩

theorem validateGenesisValidators_eq_ok :
    forValidators validateGenesisValidator (fun _ => .ok ()) validators [] [] = .ok () ↔
      ValidatorsWellFormed validators := by
  refine validatorsWellFormed_iff fun v => ?_
  rw [validateGenesisValidator]
  simp only [unit_bind_eq_ok, assertAddress_eq_ok, assertHex_eq_ok, throwIf_eq_ok,
    assertValidPublicKey_eq_ok, and_true, ne_eq, not_not]

theorem validateValidators_eq_ok :
    validateValidators validators [] [] = .ok () ↔ ValidatorsWellFormed validators := by
  have hloop : ∀ (vs : List Validator) (seenKeys : List String) (seenAddresses : List Address),
      validateValidators vs seenKeys seenAddresses =
        forValidators validateValidator (fun _ => .ok ()) vs seenKeys seenAddresses := by
    intro vs
    induction vs with
    | nil => exact fun _ _ => rfl
    | cons v vs ih =>
      intro seenKeys seenAddresses
      rw [validateValidators, forValidators, ih]
      rfl
  rw [hloop]
  refine validatorsWellFormed_iff fun v => ?_
  rw [validateValidator]
  simp only [unit_bind_eq_ok, assertAddress_eq_ok, assertHex_eq_ok, throwIf_eq_ok,
    assertValidPublicKey_eq_ok, and_true, ne_eq, not_not]

end

theorem validateAllocations_eq_ok {profile : Bool} {allocations : List Allocation} {supply : Int}
    {allocated : List Address} (hsupply : supply ≤ maxSupplyAtoms)
    (h : validateAllocations profile allocations supply allocated = .ok ()) :
    (allocations.map Allocation.address).Nodup ∧
      supply + (allocations.map Allocation.amountAtoms).sum ≤ maxSupplyAtoms ∧
      ∀ a ∈ allocations, a.address ∉ allocated ∧ IsAddress a.address ∧
        a.address ≠ miningTrackerAddress ∧
        (profile = true → isActivityWindowAddress a.address = false) ∧ 0 ≤ a.amountAtoms := by
  induction allocations generalizing supply allocated with
  | nil => simpa using hsupply
  | cons a allocations ih =>
    rw [validateAllocations, unit_bind_eq_ok, throwIf_bind_eq_ok, throwIf_bind_eq_ok] at h
    obtain ⟨ha, hsafe, hfresh, h⟩ := h
    rw [validateAllocation] at ha
    simp only [unit_bind_eq_ok, assertAddress_eq_ok, throwIf_eq_ok] at ha
    obtain ⟨haddress, htracker, hwindow, hamount⟩ := ha
    rw [not_or, not_lt] at hamount
    rw [not_or, gt_iff_lt, not_lt] at hsafe
    obtain ⟨hnodup, hsum, hall⟩ := ih hsafe.2 h
    refine ⟨nodup_cons.mpr ⟨fun hmem => ?_, hnodup⟩, ?_, forall_mem_cons.mpr ⟨?_, ?_⟩⟩
    · obtain ⟨b, hb, heq⟩ := mem_map.mp hmem
      exact (hall b hb).1 (heq ▸ mem_cons_self)
    · rw [map_cons, sum_cons]
      omega
    · refine ⟨hfresh, haddress, htracker, fun hprofile => ?_, hamount.2⟩
      exact Bool.not_eq_true _ ▸ fun hw => hwindow ⟨hprofile, hw⟩
    · intro b hb
      exact ⟨fun hmem => (hall b hb).1 (mem_cons_of_mem _ hmem), (hall b hb).2⟩

section

variable [Crypto]

/-- What a validated genesis satisfies. -/
structure GenesisConfig.Valid (g : GenesisConfig) : Prop where
  chainId : IsChainId g.chainId
  timestamp : IsSafeInteger g.timestampMs ∧ 0 ≤ g.timestampMs
  count : g.minimumValidatorCount ≤ g.validators.length ∧ g.validators.length ≤ maxValidatorCount
  validators : ValidatorsWellFormed g.validators
  oracles : g.activityOracles.Nodup ∧ ∀ oracle ∈ g.activityOracles, IsHex 64 oracle
  policy : validateActivityOraclePolicy g = .ok ()
  pool : IsAddress g.activityPool ∧ g.activityPool ≠ miningTrackerAddress
  allocations : validateAllocations g.launchProfile.isSome g.allocations 0 [] = .ok ()
  locks : validateAllocationLocks g = .ok ()
  profile : g.launchProfile.isSome = true → assertFixedSupplyLaunchProfile g = .ok ()
  release : validatePublicDistributionRelease g = .ok ()
  fee : validateGenesisFeePolicy g = .ok ()

theorem validateGenesis_eq_ok {g : GenesisConfig} (h : validateGenesis g = .ok ()) : g.Valid := by
  rw [validateGenesis] at h
  simp only [unit_bind_eq_ok, throwIf_eq_ok, not_or, not_not, not_lt, gt_iff_lt] at h
  obtain ⟨hchain, -, htime, hcount, hvalidators, -, horacles, -, hpolicy, -, hpool, htracker, -,
    halloc, hlocks, hprofile, hrelease, hfee, -⟩ := h
  refine ⟨hchain, htime, hcount, validateGenesisValidators_eq_ok.mp hvalidators, ?_, hpolicy,
    ⟨assertAddress_eq_ok.mp hpool, htracker⟩, halloc, hlocks, fun hsome => ?_, hrelease, hfee⟩
  · obtain ⟨hnodup, -, hhex⟩ := forDistinct_eq_ok.mp horacles
    rw [map_id] at hnodup
    exact ⟨hnodup, fun oracle ho => assertHex_eq_ok.mp (hhex oracle ho).1⟩
  · rw [validateLaunchProfile, if_pos hsome] at hprofile
    exact hprofile

end

end ZyronChain
