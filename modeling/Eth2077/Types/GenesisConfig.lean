import Eth2077.Lib.Seen
import Eth2077.Types.Canonical
import Eth2077.Types.Metadata

/-!
# The genesis configuration (`types/src/genesis_builder.rs`)

The configuration, its validation and its commitment. All parts of variable length that are hashed stand behind their
length, so the bytes can be read back, whatever the seed and the metadata contain.
-/

namespace Eth2077
namespace GenesisBuilder
open SortBy

inductive SigningScheme where
  | bls12381
  | ed25519
  | secp256k1
  | multiSig
  | threshold
  | aggregate
deriving DecidableEq

inductive ArtifactFormat where
  | ssz
  | json
  | rlp
  | binary
  | hexEncoded
  | compressedSsz
deriving DecidableEq

/-- `usize` has 64 bits. -/
structure GenesisBuilderConfig where
  chainId : UInt64
  genesisTime : UInt64
  validatorCount : UInt64
  signingScheme : SigningScheme
  artifactFormat : ArtifactFormat
  deterministicSeed : Text
  minDepositGwei : UInt64
  metadata : HashMap Text Text

structure GenesisBuilderValidationError where
  field : String
  reason : String
deriving DecidableEq

def minSeedLen : ℕ := 8

def defaultGenesisBuilderConfig : GenesisBuilderConfig where
  chainId := 2077
  genesisTime := 1893456000
  validatorCount := 64
  signingScheme := .aggregate
  artifactFormat := .ssz
  deterministicSeed := ⟨"eth2077-default-seed", by decide⟩
  minDepositGwei := 32000000000
  metadata :=
    AList.insert ⟨"aggregate.domain", by decide⟩ ⟨"eth2077-genesis", by decide⟩ <|
    AList.insert ⟨"artifact_version", by decide⟩ ⟨"v1", by decide⟩ <|
    AList.insert ⟨"release_channel", by decide⟩ ⟨"testnet", by decide⟩ <|
    AList.insert ⟨"phase", by decide⟩ ⟨"Configure", by decide⟩ ∅

/-! ### Validation -/

abbrev Errors := List GenesisBuilderValidationError

def requireMetadataKey (metadata : HashMap Text Text) (key : Text) (reason : String) : Errors :=
  if key ∈ metadata then [] else [⟨"metadata." ++ key.1, reason⟩]

/-- The number under a key, with the errors of looking for it. -/
def parseRequiredUsize (metadata : HashMap Text Text) (key : Text) (missingReason : String) : Option ℕ × Errors :=
  match metadata.lookup key with
  | none => (none, [⟨"metadata." ++ key.1, missingReason⟩])
  | some value =>
    match fromStrRadix 10 64 value.1.toList with
    | some parsed => (some parsed, [])
    | none => (none, [⟨"metadata." ++ key.1, "must be an unsigned integer"⟩])

/-- The common body of `validate_multisig_metadata` and `validate_threshold_metadata`: some of a total have to sign. -/
def validateShareMetadata (total part : Text) (missingReason : String) (metadata : HashMap Text Text) : Errors :=
  let (participants, totalErrors) := parseRequiredUsize metadata total missingReason
  let (threshold, partErrors) := parseRequiredUsize metadata part missingReason
  totalErrors ++ partErrors ++
    match participants, threshold with
    | some participants, some threshold =>
      (if participants = 0 then [⟨"metadata." ++ total.1, "must be greater than zero"⟩] else []) ++
      (if threshold = 0 then [⟨"metadata." ++ part.1, "must be greater than zero"⟩] else []) ++
      if participants < threshold then [⟨"metadata." ++ part.1, "must be less than or equal to " ++ total.1⟩] else []
    | _, _ => []

def validateMultisigMetadata : HashMap Text Text → Errors :=
  validateShareMetadata ⟨"multisig.participants", by decide⟩ ⟨"multisig.threshold", by decide⟩
    "must be present for MultiSig"

def validateThresholdMetadata : HashMap Text Text → Errors :=
  validateShareMetadata ⟨"threshold.total_shares", by decide⟩ ⟨"threshold.quorum", by decide⟩
    "must be present for Threshold"

def validateSigningMetadata (config : GenesisBuilderConfig) : Errors :=
  match config.signingScheme with
  | .bls12381 | .ed25519 | .secp256k1 => []
  | .multiSig => validateMultisigMetadata config.metadata
  | .threshold => validateThresholdMetadata config.metadata
  | .aggregate =>
    requireMetadataKey config.metadata ⟨"aggregate.domain", by decide⟩ "must be present for Aggregate"

def validateArtifactMetadata (config : GenesisBuilderConfig) : Errors :=
  match config.artifactFormat with
  | .compressedSsz => requireMetadataKey config.metadata ⟨"compression.codec", by decide⟩
      "must be present when artifact_format is CompressedSsz"
  | .hexEncoded => requireMetadataKey config.metadata ⟨"hex.case", by decide⟩
      "must be present when artifact_format is HexEncoded"
  | .ssz | .json | .rlp | .binary => []

def isBlank (s : String) : Bool := trim s.toList = []

/-- The body of the loop over the metadata. -/
def entryErrors (entry : Text × Text) : Errors :=
  (if isBlank entry.1.1 then [⟨"metadata", "contains an empty key"⟩] else []) ++
    if isBlank entry.2.1 then [⟨"metadata", "contains an empty value"⟩] else []

def validateGenesisBuilderConfig (order : IterOrder (Text × Text)) (config : GenesisBuilderConfig) :
    Except Errors Unit :=
  Seen.report
    ((if config.chainId = 0 then [⟨"chain_id", "must be greater than zero"⟩] else []) ++
      (if config.genesisTime = 0 then [⟨"genesis_time", "must be greater than zero"⟩] else []) ++
      (if config.validatorCount = 0 then [⟨"validator_count", "must be greater than zero"⟩] else []) ++
      (if isBlank config.deterministicSeed.1 then [⟨"deterministic_seed", "must not be empty or whitespace"⟩]
        else if (asBytes config.deterministicSeed.1).length < minSeedLen then
          [⟨"deterministic_seed", "must contain at least 8 characters"⟩]
        else []) ++
      (if config.minDepositGwei = 0 then [⟨"min_deposit_gwei", "must be greater than zero"⟩]
        else if config.minDepositGwei < 1000000000 then
          [⟨"min_deposit_gwei", "must be at least 1_000_000_000 gwei"⟩]
        else []) ++
      (traverse order config.metadata).flatMap entryErrors ++
      validateSigningMetadata config ++ validateArtifactMetadata config)

theorem defaultGenesisBuilderConfig_valid (order : IterOrder (Text × Text)) :
    validateGenesisBuilderConfig order defaultGenesisBuilderConfig = .ok () := by
  have hentries : ∀ e ∈ defaultGenesisBuilderConfig.metadata.entries, entryErrors (e.1, e.2) = [] := by decide
  have htraverse : (traverse order defaultGenesisBuilderConfig.metadata).flatMap entryErrors = [] := by
    refine List.flatMap_eq_nil_iff.mpr fun entry hentry => ?_
    obtain ⟨e, he, rfl⟩ := List.mem_map.mp (order.mem_order.mp hentry)
    exact hentries e he
  rw [validateGenesisBuilderConfig, htraverse]
  decide

/-! ### Commitment -/

def SigningScheme.discriminant : SigningScheme → UInt8
  | bls12381 => 1
  | ed25519 => 2
  | secp256k1 => 3
  | multiSig => 4
  | threshold => 5
  | aggregate => 6

def ArtifactFormat.discriminant : ArtifactFormat → UInt8
  | ssz => 1
  | json => 2
  | rlp => 3
  | binary => 4
  | hexEncoded => 5
  | compressedSsz => 6

def hashLenPrefixedBytes (bytes : List UInt8) : List UInt8 := beBytes 8 bytes.length ++ bytes

def hashText (text : Text) : List UInt8 := hashLenPrefixedBytes (asBytes text.1)

/-- What an entry of the metadata feeds the hasher. -/
def hashEntry (entry : Text × Text) : List UInt8 := hashText entry.1 ++ hashText entry.2

def hashSortedMetadata (order : IterOrder (Text × Text)) (metadata : HashMap Text Text) : List UInt8 :=
  let pairs := sortedPairs order metadata
  beBytes 8 pairs.length ++ pairs.flatMap hashEntry

def configDomain : List UInt8 := asBytes "eth2077-genesis-builder-config-v1"

/-- Everything that is fed to the hasher. -/
def configBytes (order : IterOrder (Text × Text)) (config : GenesisBuilderConfig) : List UInt8 :=
  configDomain ++ (toBeBytes config.chainId ++ (toBeBytes config.genesisTime ++ (toBeBytes config.validatorCount ++
    (config.signingScheme.discriminant :: config.artifactFormat.discriminant ::
      (hashText config.deterministicSeed ++ (toBeBytes config.minDepositGwei ++
        hashSortedMetadata order config.metadata))))))

def computeGenesisBuilderCommitment (sha256 : List UInt8 → B256) (order : IterOrder (Text × Text))
    (config : GenesisBuilderConfig) : String :=
  hexEncode (sha256 (configBytes order config)).toList

/-! ### What the bytes fix -/

/-- `==` of two configurations. -/
structure Same (config config' : GenesisBuilderConfig) : Prop where
  chainId : config.chainId = config'.chainId
  genesisTime : config.genesisTime = config'.genesisTime
  validatorCount : config.validatorCount = config'.validatorCount
  signingScheme : config.signingScheme = config'.signingScheme
  artifactFormat : config.artifactFormat = config'.artifactFormat
  deterministicSeed : config.deterministicSeed = config'.deterministicSeed
  minDepositGwei : config.minDepositGwei = config'.minDepositGwei
  metadata : SameMap config.metadata config'.metadata

theorem SigningScheme.discriminant_injective : Function.Injective SigningScheme.discriminant := by
  intro scheme scheme' h
  cases scheme <;> cases scheme' <;> first | rfl | cases h

theorem ArtifactFormat.discriminant_injective : Function.Injective ArtifactFormat.discriminant := by
  intro format format' h
  cases format <;> cases format' <;> first | rfl | cases h

theorem isPrefixCode_hashLenPrefixedBytes :
    PrefixCode.IsPrefixCode fun bytes : { bs : List UInt8 // bs.length < 256 ^ 8 } => hashLenPrefixedBytes bytes.1 :=
  PrefixCode.lengthPrefixed (isPrefixCode_beBytes 8)

theorem isPrefixCode_hashText : PrefixCode.IsPrefixCode hashText := by
  refine isPrefixCode_hashLenPrefixedBytes.comp
    (p := fun text : Text => ⟨asBytes text.1, text.2.trans (by decide)⟩) fun a b h => ?_
  exact Subtype.ext (asBytes_injective (Subtype.mk.inj h))

theorem isPrefixCode_hashEntry : PrefixCode.IsPrefixCode hashEntry :=
  isPrefixCode_hashText.append isPrefixCode_hashText fun _ _ hkey hvalue => Prod.ext hkey hvalue

theorem hashEntry_ne_nil (entry : Text × Text) : hashEntry entry ≠ [] := by
  intro h
  have hlen := congrArg List.length h
  simp [hashEntry, hashText, hashLenPrefixedBytes] at hlen

/-- The number of the entries is not needed to read them, as nothing comes after. -/
theorem hashSortedMetadata_iff {order order' : IterOrder (Text × Text)} {metadata metadata' : HashMap Text Text} :
    hashSortedMetadata order metadata = hashSortedMetadata order' metadata' ↔ SameMap metadata metadata' := by
  constructor
  · intro h
    obtain ⟨-, hentries⟩ := List.append_inj h (by rw [length_beBytes, length_beBytes])
    exact sortedPairs_iff.mp (isPrefixCode_hashEntry.flatMap_injective hashEntry_ne_nil hentries)
  · intro h
    have hpairs : sortedPairs order metadata = sortedPairs order' metadata' := sortedPairs_iff.mpr h
    rw [hashSortedMetadata, hashSortedMetadata, hpairs]

/-- Two configurations feed the hasher the same bytes if and only if they are equal, in whatever order their metadata is
traversed. -/
theorem genesis_commitment_binding (order order' : IterOrder (Text × Text)) (config config' : GenesisBuilderConfig) :
    configBytes order config = configBytes order' config' ↔ Same config config' := by
  constructor
  · intro h
    obtain ⟨hchain, h⟩ := isPrefixCode_toBeBytes (List.append_cancel_left h)
    obtain ⟨htime, h⟩ := isPrefixCode_toBeBytes h
    obtain ⟨hcount, h⟩ := isPrefixCode_toBeBytes h
    obtain ⟨hscheme, h⟩ := List.cons.inj h
    obtain ⟨hformat, h⟩ := List.cons.inj h
    obtain ⟨hseed, h⟩ := isPrefixCode_hashText h
    obtain ⟨hdeposit, h⟩ := isPrefixCode_toBeBytes h
    exact ⟨hchain, htime, hcount, SigningScheme.discriminant_injective hscheme,
      ArtifactFormat.discriminant_injective hformat, hseed, hdeposit, hashSortedMetadata_iff.mp h⟩
  · intro h
    have hmetadata : hashSortedMetadata order config.metadata = hashSortedMetadata order' config'.metadata :=
      hashSortedMetadata_iff.mpr h.metadata
    rw [configBytes, configBytes, h.chainId, h.genesisTime, h.validatorCount, h.signingScheme, h.artifactFormat,
      h.deterministicSeed, h.minDepositGwei, hmetadata]

end GenesisBuilder
end Eth2077
