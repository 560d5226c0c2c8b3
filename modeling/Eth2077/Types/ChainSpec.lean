import Eth2077.Lib.Entries
import Eth2077.Lib.Seen
import Eth2077.Types.Metadata

/-!
# The chain specification (`types/src/chain_spec.rs`)

A specification is frozen by the hash of its canonical text, which has a line `label=value` for each field. The names of
the forks, their EIPs and the metadata are not escaped. Validation looks at how they are trimmed and whether they repeat,
but not at what they are made of, so a value can go on with the next line and an equality sign can be moved from a value
to its key. The text fixes the specification if and only if it is known from the characters that this cannot happen.

`str::to_lowercase` and `str::to_uppercase` are parameters.
-/

namespace Eth2077
namespace ChainSpec

inductive NetworkKind where
  | mainnet
  | testnet
  | devnet
  | shadow
  | local
  | custom
deriving DecidableEq

inductive ForkPhase where
  | scheduled
  | activated
  | deprecated
  | cancelled
  | pending
  | emergency
deriving DecidableEq

inductive ConsensusType where
  | proofOfStake
  | citadelOob
  | hybrid
  | proofOfAuthority
  | delegated
  | experimental
deriving DecidableEq

inductive SpecStatus where
  | draft
  | frozen
  | released
  | superseded
  | revoked
  | archived
deriving DecidableEq

structure ForkEntry where
  name : String
  phase : ForkPhase
  activationEpoch : UInt64
  eips : List String
  consensusChange : Bool
  metadata : HashMap String String

structure ChainSpecConfig where
  chainId : UInt64
  network : NetworkKind
  consensus : ConsensusType
  status : SpecStatus
  genesisTime : UInt64
  slotsPerEpoch : UInt64
  secondsPerSlot : UInt64
  forks : List ForkEntry
  metadata : HashMap String String

structure ChainSpecValidationError where
  field : String
  reason : String
deriving DecidableEq

def defaultChainSpecConfig : ChainSpecConfig where
  chainId := 20770001
  network := .testnet
  consensus := .proofOfStake
  status := .draft
  genesisTime := 1766000000
  slotsPerEpoch := 32
  secondsPerSlot := 12
  forks :=
    [{ name := "genesis-bootstrap"
       phase := .activated
       activationEpoch := 0
       eips := ["EIP-1559", "EIP-4895"]
       consensusChange := false
       metadata := AList.insert "rollout" "genesis" (AList.insert "ticket" "ETH2077-BOOT" ∅) },
     { name := "citadel-oob-alpha"
       phase := .scheduled
       activationEpoch := 12000
       eips := ["EIP-7002", "EIP-7251"]
       consensusChange := true
       metadata := AList.insert "rollout" "canary" (AList.insert "ticket" "ETH2077-CITADEL-01" ∅) },
     { name := "throughput-balance-v1"
       phase := .pending
       activationEpoch := 24000
       eips := ["EIP-7623"]
       consensusChange := false
       metadata := AList.insert "rollout" "stage-1" (AList.insert "ticket" "ETH2077-THR-02" ∅) }]
  metadata :=
    AList.insert "profile" "freeze-candidate" <|
    AList.insert "owner" "eth2077-core" <|
    AList.insert "spec_version" "2026.1-testnet" ∅

/-! ### Validation -/

abbrev Errors := List ChainSpecValidationError

/-- `{:?}` of a phase. -/
def ForkPhase.debug : ForkPhase → String
  | scheduled => "Scheduled"
  | activated => "Activated"
  | deprecated => "Deprecated"
  | cancelled => "Cancelled"
  | pending => "Pending"
  | emergency => "Emergency"

/-- The value under a key without the white space around it, and nothing if there is none. -/
def trimmedValue (metadata : HashMap String String) (key : String) : String :=
  ((metadata.lookup key).map trimmed).getD ""

section Validation
variable (toLowercase toUppercase : String → String)

/-- The loop over the EIPs of a fork. -/
def eipErrors (name : String) : Finset String → List String → Errors
  | _, [] => []
  | seenEips, eip :: eips =>
    let token := trimmed eip
    if token = "" then
      ⟨"forks.eips", "fork '" ++ name ++ "' contains an empty EIP entry"⟩ :: eipErrors name seenEips eips
    else if toUppercase token ∈ seenEips then
      ⟨"forks.eips", "fork '" ++ name ++ "' contains duplicate EIP '" ++ token ++ "'"⟩ :: eipErrors name seenEips eips
    else eipErrors name (insert (toUppercase token) seenEips) eips

/-- The body of the loop over the forks. -/
def forkErrors (seenNames : HashMap String ℕ) (previousEpoch : Option UInt64) (index : ℕ) (fork : ForkEntry) : Errors :=
  let name := trimmed fork.name
  (if name = "" then [⟨"forks.name", "fork names must not be empty"⟩] else []) ++
    (match seenNames.lookup (toLowercase name) with
      | some priorIndex => [⟨"forks.name", "fork name '" ++ name ++ "' is duplicated at indices " ++
          toString priorIndex ++ " and " ++ toString index⟩]
      | none => []) ++
    (if (fork.phase = .scheduled ∨ fork.phase = .pending) ∧ fork.activationEpoch = 0 then
      [⟨"forks.activation_epoch", "fork '" ++ name ++ "' in phase " ++ fork.phase.debug ++
        " must have activation_epoch > 0"⟩]
      else []) ++
    (match previousEpoch with
      | some prior =>
        if fork.activationEpoch < prior then
          [⟨"forks.activation_epoch", "fork '" ++ name ++ "' has non-monotonic activation epoch " ++
            toString fork.activationEpoch.toNat ++ " (previous " ++ toString prior.toNat ++ ")"⟩]
        else []
      | none => []) ++
    eipErrors toUppercase name ∅ fork.eips ++
    if fork.metadata.keys.any fun key => trimmed key = "" then
      [⟨"forks.metadata", "fork '" ++ name ++ "' contains an empty metadata key"⟩]
    else []

def forksErrors : HashMap String ℕ → Option UInt64 → ℕ → List ForkEntry → Errors
  | _, _, _, [] => []
  | seenNames, previousEpoch, index, fork :: forks =>
    let normalizedName := toLowercase (trimmed fork.name)
    forkErrors toLowercase toUppercase seenNames previousEpoch index fork ++
      forksErrors (if normalizedName ∈ seenNames then seenNames else seenNames.insert normalizedName index)
        (some fork.activationEpoch) (index + 1) forks

def validateChainSpecConfig (config : ChainSpecConfig) : Except Errors Unit :=
  Seen.report
    ((if config.chainId = 0 then [⟨"chain_id", "must be greater than zero"⟩] else []) ++
      (if config.genesisTime = 0 then [⟨"genesis_time", "must be greater than zero"⟩] else []) ++
      (if config.slotsPerEpoch = 0 then [⟨"slots_per_epoch", "must be greater than zero"⟩] else []) ++
      (if config.secondsPerSlot = 0 then [⟨"seconds_per_slot", "must be greater than zero"⟩] else []) ++
      (if config.forks = [] then [⟨"forks", "must include at least one fork entry"⟩] else []) ++
      (if trimmedValue config.metadata "spec_version" = "" then
        [⟨"metadata.spec_version", "must be present and non-empty"⟩] else []) ++
      (if config.metadata.keys.any fun key => trimmed key = "" then
        [⟨"metadata", "metadata keys must not be empty"⟩] else []) ++
      (if config.network = .custom ∧ trimmedValue config.metadata "network_name" = "" then
        [⟨"metadata.network_name", "is required when network is Custom"⟩] else []) ++
      forksErrors toLowercase toUppercase ∅ none 0 config.forks)

end Validation

/-! ### What is accepted -/

structure ForkEntry.Accepted (toUppercase : String → String) (fork : ForkEntry) : Prop where
  name : trimmed fork.name ≠ ""
  activationEpoch : fork.phase = .scheduled ∨ fork.phase = .pending → fork.activationEpoch ≠ 0
  eips : ∀ eip ∈ fork.eips, trimmed eip ≠ ""
  distinct : (fork.eips.map fun eip => toUppercase (trimmed eip)).Nodup
  metadata : ∀ key ∈ fork.metadata, trimmed key ≠ ""

structure Accepted (toLowercase toUppercase : String → String) (config : ChainSpecConfig) : Prop where
  chainId : config.chainId ≠ 0
  genesisTime : config.genesisTime ≠ 0
  slotsPerEpoch : config.slotsPerEpoch ≠ 0
  secondsPerSlot : config.secondsPerSlot ≠ 0
  nonempty : config.forks ≠ []
  specVersion : trimmedValue config.metadata "spec_version" ≠ ""
  metadata : ∀ key ∈ config.metadata, trimmed key ≠ ""
  networkName : config.network = .custom → trimmedValue config.metadata "network_name" ≠ ""
  distinct : (config.forks.map fun fork => toLowercase (trimmed fork.name)).Nodup
  epochs : (config.forks.map ForkEntry.activationEpoch).IsChain (· ≤ ·)
  forks : ∀ fork ∈ config.forks, fork.Accepted toUppercase

section Validation
variable {toLowercase toUppercase : String → String}

theorem eipErrors_eq_nil {name : String} {seenEips : Finset String} {eips : List String} :
    eipErrors toUppercase name seenEips eips = [] ↔ (∀ eip ∈ eips, trimmed eip ≠ "") ∧
      (eips.map fun eip => toUppercase (trimmed eip)).Nodup ∧ ∀ eip ∈ eips, toUppercase (trimmed eip) ∉ seenEips := by
  induction eips generalizing seenEips with
  | nil => simp [eipErrors]
  | cons eip eips ih =>
    rw [eipErrors, List.map_cons, List.nodup_cons]
    simp only [List.forall_mem_cons]
    by_cases htoken : trimmed eip = ""
    · simp [htoken]
    by_cases hseen : toUppercase (trimmed eip) ∈ seenEips
    · simp [htoken, hseen]
    · have hnotMem : toUppercase (trimmed eip) ∉ eips.map (fun eip => toUppercase (trimmed eip)) ↔
          ∀ other ∈ eips, toUppercase (trimmed other) ≠ toUppercase (trimmed eip) := by
        simp
      simp only [htoken, hseen, if_false, ih, Finset.mem_insert, not_or, forall_and, hnotMem, ne_eq, not_false_eq_true,
        true_and]
      constructor
      · rintro ⟨htokens, hnodup, hfresh, hunseen⟩
        exact ⟨htokens, ⟨hfresh, hnodup⟩, hunseen⟩
      · rintro ⟨htokens, ⟨hfresh, hnodup⟩, hunseen⟩
        exact ⟨htokens, hnodup, hfresh, hunseen⟩

theorem keys_any_iff {metadata : HashMap String String} :
    (metadata.keys.any fun key => trimmed key = "") = false ↔ ∀ key ∈ metadata, trimmed key ≠ "" := by
  simp [List.any_eq_false, AList.mem_keys]

theorem ite_singleton_eq_nil {p : Prop} [Decidable p] {error : ChainSpecValidationError} :
    (if p then [error] else []) = [] ↔ ¬ p := by
  rw [ite_eq_right_iff]
  exact forall_congr' fun _ => iff_of_false (List.cons_ne_nil _ _) id

/-- A fork that nothing is said about. -/
theorem forkErrors_eq_nil {seenNames : HashMap String ℕ} {previousEpoch : Option UInt64} {index : ℕ} {fork : ForkEntry} :
    forkErrors toLowercase toUppercase seenNames previousEpoch index fork = [] ↔ fork.Accepted toUppercase ∧
      toLowercase (trimmed fork.name) ∉ seenNames ∧ ∀ prior ∈ previousEpoch, prior ≤ fork.activationEpoch := by
  have hseen : seenNames.lookup (toLowercase (trimmed fork.name)) = none ↔ toLowercase (trimmed fork.name) ∉ seenNames :=
    AList.lookup_eq_none
  have hprior : ∀ prior, ¬ fork.activationEpoch < prior ↔ prior ≤ fork.activationEpoch := fun _ => UInt64.not_lt
  simp only [forkErrors, List.append_eq_nil_iff, ite_singleton_eq_nil, eipErrors_eq_nil, ← hseen, Bool.not_eq_true,
    keys_any_iff]
  constructor
  · rintro ⟨⟨⟨⟨⟨hname, hfresh⟩, hepoch⟩, hmono⟩, heips, hdistinct, -⟩, hkeys⟩
    refine ⟨⟨hname, fun hphase hzero => hepoch ⟨hphase, hzero⟩, heips, hdistinct, hkeys⟩, ?_, ?_⟩
    · cases hlookup : seenNames.lookup (toLowercase (trimmed fork.name)) with
      | none => rfl
      | some priorIndex =>
        rw [hlookup] at hfresh
        cases hfresh
    · rintro prior rfl
      simpa [hprior, ite_singleton_eq_nil] using hmono
  · rintro ⟨⟨hname, hepoch, heips, hdistinct, hkeys⟩, hfresh, hmono⟩
    refine ⟨⟨⟨⟨⟨hname, ?_⟩, fun hboth => hepoch hboth.1 hboth.2⟩, ?_⟩, heips, hdistinct, ?_⟩, hkeys⟩
    · rw [hfresh]
    · cases previousEpoch with
      | none => rfl
      | some prior => simpa [hprior, ite_singleton_eq_nil] using hmono prior rfl
    · exact fun _ _ => Finset.notMem_empty _

theorem forksErrors_eq_nil {seenNames : HashMap String ℕ} {previousEpoch : Option UInt64} {index : ℕ}
    {forks : List ForkEntry} : forksErrors toLowercase toUppercase seenNames previousEpoch index forks = [] ↔
      (forks.map fun fork => toLowercase (trimmed fork.name)).Nodup ∧
      (∀ fork ∈ forks, toLowercase (trimmed fork.name) ∉ seenNames) ∧
      (previousEpoch.toList ++ forks.map ForkEntry.activationEpoch).IsChain (· ≤ ·) ∧
      ∀ fork ∈ forks, fork.Accepted toUppercase := by
  induction forks generalizing seenNames previousEpoch index with
  | nil =>
    cases previousEpoch <;> simp [forksErrors]
  | cons fork forks ih =>
    have hchain : (previousEpoch.toList ++ (fork :: forks).map ForkEntry.activationEpoch).IsChain (· ≤ ·) ↔
        (∀ prior ∈ previousEpoch, prior ≤ fork.activationEpoch) ∧
          ((some fork.activationEpoch).toList ++ forks.map ForkEntry.activationEpoch).IsChain (· ≤ ·) := by
      cases previousEpoch <;> simp [List.isChain_cons_cons]
    rw [forksErrors, List.append_eq_nil_iff, forkErrors_eq_nil, hchain, List.map_cons, List.nodup_cons]
    by_cases hfresh : toLowercase (trimmed fork.name) ∈ seenNames
    · simp [hfresh]
    · rw [if_neg hfresh, ih]
      have hinsert : ∀ other : ForkEntry,
          toLowercase (trimmed other.name) ∉ seenNames.insert (toLowercase (trimmed fork.name)) index ↔
            toLowercase (trimmed other.name) ≠ toLowercase (trimmed fork.name) ∧
              toLowercase (trimmed other.name) ∉ seenNames := by
        intro other
        rw [AList.mem_insert, not_or]
      have hnotMem : toLowercase (trimmed fork.name) ∉ forks.map (fun fork => toLowercase (trimmed fork.name)) ↔
          ∀ other ∈ forks, toLowercase (trimmed other.name) ≠ toLowercase (trimmed fork.name) := by
        simp
      simp only [List.forall_mem_cons, hinsert, hnotMem, hfresh, forall_and, not_false_eq_true, true_and]
      constructor
      · rintro ⟨⟨haccepted, hprior⟩, hnodup, ⟨hfresh, hunseen⟩, hepochs, hforks⟩
        exact ⟨⟨hfresh, hnodup⟩, hunseen, ⟨hprior, hepochs⟩, haccepted, hforks⟩
      · rintro ⟨⟨hfresh, hnodup⟩, hunseen, ⟨hprior, hepochs⟩, haccepted, hforks⟩
        exact ⟨⟨haccepted, hprior⟩, hnodup, ⟨hfresh, hunseen⟩, hepochs, hforks⟩

theorem validate_eq_ok {config : ChainSpecConfig} :
    validateChainSpecConfig toLowercase toUppercase config = .ok () ↔ Accepted toLowercase toUppercase config := by
  rw [validateChainSpecConfig, Seen.report_eq_ok]
  simp only [List.append_eq_nil_iff, ite_singleton_eq_nil, Bool.not_eq_true, keys_any_iff, forksErrors_eq_nil]
  constructor
  · rintro ⟨⟨⟨⟨⟨⟨⟨⟨hid, hgenesis⟩, hslots⟩, hseconds⟩, hforks⟩, hversion⟩, hkeys⟩, hnetwork⟩, hdistinct, -, hepochs,
      haccepted⟩
    exact ⟨hid, hgenesis, hslots, hseconds, hforks, hversion, hkeys, fun hcustom hempty => hnetwork ⟨hcustom, hempty⟩,
      hdistinct, hepochs, haccepted⟩
  · intro h
    exact ⟨⟨⟨⟨⟨⟨⟨⟨h.chainId, h.genesisTime⟩, h.slotsPerEpoch⟩, h.secondsPerSlot⟩, h.nonempty⟩, h.specVersion⟩,
      h.metadata⟩, fun hboth => h.networkName hboth.1 hboth.2⟩, h.distinct, fun _ _ => AList.notMem_empty _, h.epochs, h.forks⟩

/-- The default is accepted, since its names are in lower case and its EIPs in upper case. -/
theorem defaultChainSpecConfig_valid
    (hlower : ∀ s : String, (s.toList.all fun c => c.toNat < 128 ∧ c.toLower = c) → toLowercase s = s)
    (hupper : ∀ s : String, (s.toList.all fun c => c.toNat < 128 ∧ c.toUpper = c) → toUppercase s = s) :
    validateChainSpecConfig toLowercase toUppercase defaultChainSpecConfig = .ok () := by
  have hnames : defaultChainSpecConfig.forks.map (fun fork => toLowercase (trimmed fork.name)) =
      defaultChainSpecConfig.forks.map fun fork => trimmed fork.name := by
    have hascii : ∀ fork ∈ defaultChainSpecConfig.forks,
        (trimmed fork.name).toList.all fun c => c.toNat < 128 ∧ c.toLower = c := by
      decide
    exact List.map_congr_left fun fork hfork => hlower _ (hascii fork hfork)
  have heips : ∀ fork ∈ defaultChainSpecConfig.forks, (fork.eips.map fun eip => toUppercase (trimmed eip)) =
      fork.eips.map trimmed := by
    have hascii : ∀ fork ∈ defaultChainSpecConfig.forks, ∀ eip ∈ fork.eips,
        (trimmed eip).toList.all fun c => c.toNat < 128 ∧ c.toUpper = c := by
      decide
    exact fun fork hfork => List.map_congr_left fun eip heip => hupper _ (hascii fork hfork eip heip)
  have hforks : ∀ fork ∈ defaultChainSpecConfig.forks, trimmed fork.name ≠ "" ∧
      (fork.phase = .scheduled ∨ fork.phase = .pending → fork.activationEpoch ≠ 0) ∧
      (∀ eip ∈ fork.eips, trimmed eip ≠ "") ∧ (fork.eips.map trimmed).Nodup ∧
      ∀ key ∈ fork.metadata.keys, trimmed key ≠ "" := by
    decide
  refine validate_eq_ok.mpr
    ⟨by decide, by decide, by decide, by decide, by decide, by decide, ?_, nofun, ?_, by decide, ?_⟩
  · show ∀ key ∈ defaultChainSpecConfig.metadata.keys, trimmed key ≠ ""
    decide
  · rw [hnames]
    decide
  · intro fork hfork
    obtain ⟨hname, hepoch, hempty, hdistinct, hkeys⟩ := hforks fork hfork
    exact ⟨hname, hepoch, hempty, heips fork hfork ▸ hdistinct, hkeys⟩

end Validation

/-! ### Commitment -/

def networkLabel : NetworkKind → String
  | .mainnet => "mainnet"
  | .testnet => "testnet"
  | .devnet => "devnet"
  | .shadow => "shadow"
  | .local => "local"
  | .custom => "custom"

def forkPhaseLabel : ForkPhase → String
  | .scheduled => "scheduled"
  | .activated => "activated"
  | .deprecated => "deprecated"
  | .cancelled => "cancelled"
  | .pending => "pending"
  | .emergency => "emergency"

def consensusLabel : ConsensusType → String
  | .proofOfStake => "proof_of_stake"
  | .citadelOob => "citadel_oob"
  | .hybrid => "hybrid"
  | .proofOfAuthority => "proof_of_authority"
  | .delegated => "delegated"
  | .experimental => "experimental"

def statusLabel : SpecStatus → String
  | .draft => "draft"
  | .frozen => "frozen"
  | .released => "released"
  | .superseded => "superseded"
  | .revoked => "revoked"
  | .archived => "archived"

def resolveSpecVersion (config : ChainSpecConfig) : String :=
  let version := trimmedValue config.metadata "spec_version"
  if version = "" then
    statusLabel config.status ++ "-" ++ toString config.chainId.toNat ++ "-" ++ toString config.forks.length
  else version

def forkLabel (forkIndex : ℕ) (field : String) : String := "fork[" ++ toString forkIndex ++ "]." ++ field

section Canonical
variable (order : IterOrder (String × String))

def metadataLines (label : String) (metadata : HashMap String String) : List (String × String) :=
  (sortedByKey order metadata).map fun (key, value) => (label ++ key, value)

/-- The label and the value of every line of a fork. -/
def forkLines (forkIndex : ℕ) (fork : ForkEntry) : List (String × String) :=
  [(forkLabel forkIndex "name", fork.name),
    (forkLabel forkIndex "phase", forkPhaseLabel fork.phase),
    (forkLabel forkIndex "activation_epoch", toString fork.activationEpoch.toNat),
    (forkLabel forkIndex "consensus_change", toString fork.consensusChange)] ++
  (fork.eips.zipIdx.map fun (eip, eipIndex) => (forkLabel forkIndex ("eip[" ++ toString eipIndex ++ "]"), eip)) ++
  metadataLines order (forkLabel forkIndex "metadata.") fork.metadata

/-- `first` is the index of the first fork. -/
def forksLines (first : ℕ) (forks : List ForkEntry) : List (String × String) :=
  (forks.zipIdx first).flatMap fun (fork, forkIndex) => forkLines order forkIndex fork

def scalarLines (config : ChainSpecConfig) : List (String × String) :=
  [("chain_id", toString config.chainId.toNat),
    ("network", networkLabel config.network),
    ("consensus", consensusLabel config.consensus),
    ("status", statusLabel config.status),
    ("genesis_time", toString config.genesisTime.toNat),
    ("slots_per_epoch", toString config.slotsPerEpoch.toNat),
    ("seconds_per_slot", toString config.secondsPerSlot.toNat),
    ("spec_version", resolveSpecVersion config)]

def configLines (config : ChainSpecConfig) : List (String × String) :=
  scalarLines config ++ (metadataLines order "metadata." config.metadata ++ forksLines order 0 config.forks)

def formatLine (entry : String × String) : String := entry.1 ++ "=" ++ entry.2 ++ "\n"

/-- The text that is hashed. -/
def canonical (config : ChainSpecConfig) : String := String.join ((configLines order config).map formatLine)

def computeChainSpecCommitment (sha256 : List UInt8 → B256) (config : ChainSpecConfig) : String :=
  hexEncode (sha256 (asBytes (canonical order config))).toList

end Canonical

/-! ### What the lines fix -/

/-- `==` of two forks. -/
structure ForkEntry.Same (fork fork' : ForkEntry) : Prop where
  name : fork.name = fork'.name
  phase : fork.phase = fork'.phase
  activationEpoch : fork.activationEpoch = fork'.activationEpoch
  eips : fork.eips = fork'.eips
  consensusChange : fork.consensusChange = fork'.consensusChange
  metadata : SameMap fork.metadata fork'.metadata

/-- `==` of two configurations. -/
structure Same (config config' : ChainSpecConfig) : Prop where
  chainId : config.chainId = config'.chainId
  network : config.network = config'.network
  consensus : config.consensus = config'.consensus
  status : config.status = config'.status
  genesisTime : config.genesisTime = config'.genesisTime
  slotsPerEpoch : config.slotsPerEpoch = config'.slotsPerEpoch
  secondsPerSlot : config.secondsPerSlot = config'.secondsPerSlot
  forks : List.Forall₂ ForkEntry.Same config.forks config'.forks
  metadata : SameMap config.metadata config'.metadata

theorem networkLabel_injective : Function.Injective networkLabel := by
  intro a b
  cases a <;> cases b <;> decide

theorem forkPhaseLabel_injective : Function.Injective forkPhaseLabel := by
  intro a b
  cases a <;> cases b <;> decide

theorem consensusLabel_injective : Function.Injective consensusLabel := by
  intro a b
  cases a <;> cases b <;> decide

theorem statusLabel_injective : Function.Injective statusLabel := by
  intro a b
  cases a <;> cases b <;> decide

theorem toString_uint64_injective {a b : UInt64} (h : toString a.toNat = toString b.toNat) : a = b :=
  UInt64.toNat_inj.mp (toString_injective (congrArg String.toList h))

/-- The index ends at the first bracket. -/
theorem forkLabel_inj {i j : ℕ} {field field' : String} (h : forkLabel i field = forkLabel j field') :
    i = j ∧ field = field' := by
  have hbracket : ∀ n : ℕ, ']' ∉ (toString n).toList := fun n hmem => absurd (isDigit_of_mem_toString hmem) (by decide)
  have hchars : (toString i).toList ++ [']'] ++ ('.' :: field.toList) =
      (toString j).toList ++ [']'] ++ ('.' :: field'.toList) := by
    simpa [forkLabel] using congrArg String.toList h
  obtain ⟨hindex, hfield⟩ := PrefixCode.terminated ']' (a := ⟨_, hbracket i⟩) (b := ⟨_, hbracket j⟩) hchars
  exact ⟨toString_injective (Subtype.mk.inj hindex), String.toList_inj.mp (List.cons.inj hfield).2⟩

section Lines
variable {order order' : IterOrder (String × String)} {index first : ℕ} {fork fork' : ForkEntry}
  {forks forks' : List ForkEntry} {entry : String × String}

theorem forkLabel_append (index : ℕ) (s t : String) : forkLabel index s ++ t = forkLabel index (s ++ t) :=
  String.append_assoc ..

theorem label_of_mem_metadataLines {label : String} {metadata : HashMap String String}
    (h : entry ∈ metadataLines order label metadata) : ∃ key, entry.1 = label ++ key := by
  obtain ⟨⟨key, value⟩, _, rfl⟩ := List.mem_map.mp h
  exact ⟨key, rfl⟩

theorem label_of_mem_forkLines (h : entry ∈ forkLines order index fork) : ∃ field, entry.1 = forkLabel index field := by
  rw [forkLines, List.mem_append, List.mem_append] at h
  rcases h with (h | h) | h
  · simp only [List.mem_cons, List.not_mem_nil, or_false] at h
    rcases h with rfl | rfl | rfl | rfl <;> exact ⟨_, rfl⟩
  · obtain ⟨⟨eip, eipIndex⟩, _, rfl⟩ := List.mem_map.mp h
    exact ⟨_, rfl⟩
  · obtain ⟨key, hkey⟩ := label_of_mem_metadataLines h
    exact ⟨_, hkey.trans (forkLabel_append ..)⟩

theorem label_of_mem_forksLines (h : entry ∈ forksLines order first forks) :
    ∃ index ≥ first, ∃ field, entry.1 = forkLabel index field := by
  obtain ⟨⟨fork, index⟩, hfork, hentry⟩ := List.mem_flatMap.mp h
  exact ⟨index, List.le_snd_of_mem_zipIdx hfork, label_of_mem_forkLines hentry⟩

theorem metadataLines_iff {label : String} {metadata metadata' : HashMap String String} :
    metadataLines order label metadata = metadataLines order' label metadata' ↔ SameMap metadata metadata' := by
  have hinj : Function.Injective fun entry : String × String => (label ++ entry.1, entry.2) := by
    rintro ⟨key, value⟩ ⟨key', value'⟩ h
    obtain ⟨hkey, hvalue⟩ := Prod.mk.inj h
    exact Prod.ext ((String.append_right_inj label).mp hkey) hvalue
  rw [← @sortedByKey_iff _ _ _ _ _ _ _ _ order order']
  exact (List.map_injective_iff.mpr hinj).eq_iff

/-- The lines of a fork are the fork. -/
theorem forkLines_iff : forkLines order index fork = forkLines order' index fork' ↔ fork.Same fork' := by
  constructor
  · intro h
    rw [forkLines, forkLines, List.append_assoc, List.append_assoc] at h
    obtain ⟨hfixed, hrest⟩ := List.append_inj h rfl
    simp only [List.cons.injEq, Prod.mk.injEq, true_and, and_true] at hfixed
    obtain ⟨hname, hphase, hepoch, hchange⟩ := hfixed
    have hbool : ∀ {a b : Bool}, toString a = toString b → a = b := by decide
    have heip : ∀ {eips : List String}, ∀ entry ∈ eips.zipIdx.map fun (eip, eipIndex) =>
        (forkLabel index ("eip[" ++ toString eipIndex ++ "]"), eip), ∃ t, entry.1 = forkLabel index ("eip[" ++ t) := by
      intro eips entry hentry
      obtain ⟨⟨eip, eipIndex⟩, _, rfl⟩ := List.mem_map.mp hentry
      exact ⟨toString eipIndex ++ "]", congrArg (forkLabel index) (String.append_assoc ..)⟩
    have hkey : ∀ {order metadata}, ∀ entry ∈ metadataLines order (forkLabel index "metadata.") metadata,
        ¬ ∃ t, entry.1 = forkLabel index ("eip[" ++ t) := by
      rintro order metadata entry hentry ⟨t, ht⟩
      obtain ⟨key, hkey⟩ := label_of_mem_metadataLines hentry
      have hfield := (forkLabel_inj ((forkLabel_append ..).symm.trans (hkey.symm.trans ht))).2
      have hchars := congrArg String.toList hfield
      rw [String.toList_append, String.toList_append] at hchars
      exact absurd (List.cons.inj hchars).1 (by decide)
    obtain ⟨heips, hmetadata⟩ := Entries.append_inj_of_forall heip heip hkey hkey hrest
    refine ⟨hname, forkPhaseLabel_injective hphase, toString_uint64_injective hepoch, ?_, hbool hchange,
      metadataLines_iff.mp hmetadata⟩
    simpa [List.map_map, Function.comp_def] using congrArg (List.map Prod.snd) heips
  · intro h
    rw [forkLines, forkLines, h.name, h.phase, h.activationEpoch, h.eips, h.consensusChange,
      metadataLines_iff.mpr h.metadata]

theorem forksLines_iff : forksLines order first forks = forksLines order' first forks' ↔
    List.Forall₂ ForkEntry.Same forks forks' := by
  have hcons : ∀ order first fork forks, forksLines order first (fork :: forks) =
      forkLines order first fork ++ forksLines order (first + 1) forks := fun _ _ _ _ => rfl
  have hne : ∀ order first fork forks, forksLines order first (fork :: forks) ≠ [] :=
    fun _ _ _ _ => List.cons_ne_nil _ _
  induction forks generalizing forks' first with
  | nil =>
    cases forks' with
    | nil => exact iff_of_true rfl .nil
    | cons fork' forks' => exact iff_of_false (hne order' first fork' forks').symm nofun
  | cons fork forks ih =>
    cases forks' with
    | nil => exact iff_of_false (hne order first fork forks) nofun
    | cons fork' forks' =>
      have hlater : ∀ {order forks}, ∀ entry ∈ forksLines order (first + 1) forks,
          ¬ ∃ field, entry.1 = forkLabel first field := by
        rintro order forks entry hentry ⟨field, hfield⟩
        obtain ⟨index, hindex, field', hfield'⟩ := label_of_mem_forksLines hentry
        have heq := (forkLabel_inj (hfield'.symm.trans hfield)).1
        omega
      constructor
      · intro h
        rw [hcons, hcons] at h
        obtain ⟨hfork, hforks⟩ := Entries.append_inj_of_forall (fun _ => label_of_mem_forkLines)
          (fun _ => label_of_mem_forkLines) hlater hlater h
        exact .cons (forkLines_iff.mp hfork) (ih.mp hforks)
      · intro h
        obtain ⟨hfork, hforks⟩ := List.forall₂_cons.mp h
        rw [hcons, hcons, forkLines_iff.mpr hfork, ih.mpr hforks]

/-- The lines are the configuration. -/
theorem configLines_iff {config config' : ChainSpecConfig} :
    configLines order config = configLines order' config' ↔ Same config config' := by
  constructor
  · intro h
    obtain ⟨hscalars, hrest⟩ := List.append_inj h rfl
    simp only [scalarLines, List.cons.injEq, Prod.mk.injEq, true_and, and_true] at hscalars
    obtain ⟨hid, hnetwork, hconsensus, hstatus, hgenesis, hslots, hseconds, -⟩ := hscalars
    have hfork : ∀ {order forks}, ∀ entry ∈ forksLines order 0 forks, ¬ ∃ key, entry.1 = "metadata." ++ key := by
      rintro order forks entry hentry ⟨key, hkey⟩
      obtain ⟨index, -, field, hfield⟩ := label_of_mem_forksLines hentry
      have hchars := congrArg String.toList (hfield.symm.trans hkey)
      simp only [forkLabel, String.toList_append] at hchars
      exact absurd (List.cons.inj hchars).1 (by decide)
    obtain ⟨hmetadata, hforks⟩ := Entries.append_inj_of_forall (fun _ => label_of_mem_metadataLines)
      (fun _ => label_of_mem_metadataLines) hfork hfork hrest
    exact ⟨toString_uint64_injective hid, networkLabel_injective hnetwork, consensusLabel_injective hconsensus,
      statusLabel_injective hstatus, toString_uint64_injective hgenesis, toString_uint64_injective hslots,
      toString_uint64_injective hseconds, forksLines_iff.mp hforks, metadataLines_iff.mp hmetadata⟩
  · intro h
    have hversion : resolveSpecVersion config = resolveSpecVersion config' := by
      rw [resolveSpecVersion, resolveSpecVersion, trimmedValue, trimmedValue, h.metadata, h.status, h.chainId,
        h.forks.length_eq]
    rw [configLines, configLines, scalarLines, scalarLines, hversion, h.chainId, h.network, h.consensus, h.status,
      h.genesisTime, h.slotsPerEpoch, h.secondsPerSlot, metadataLines_iff.mpr h.metadata, forksLines_iff.mpr h.forks]

end Lines

/-! ### Characters -/

/-- The characters of keys and of values. -/
def EntriesIn (keys values : Set Char) (metadata : HashMap String String) : Prop :=
  ∀ key value, metadata.lookup key = some value → (∀ c ∈ key.toList, c ∈ keys) ∧ ∀ c ∈ value.toList, c ∈ values

structure ForkEntry.WrittenIn (keys values : Set Char) (fork : ForkEntry) : Prop where
  name : ∀ c ∈ fork.name.toList, c ∈ values
  eips : ∀ eip ∈ fork.eips, ∀ c ∈ eip.toList, c ∈ values
  metadata : EntriesIn keys values fork.metadata

/-- The characters of the strings that stand in the text as they are: those of keys, and those of all others. -/
structure WrittenIn (keys values : Set Char) (config : ChainSpecConfig) : Prop where
  forks : ∀ fork ∈ config.forks, fork.WrittenIn keys values
  metadata : EntriesIn keys values config.metadata

/-- What the labels, the values and the lines end with. -/
def IsMark (c : Char) : Prop := c = '=' ∨ c = '\n'

theorem IsMark.notMem_toString {c : Char} (hc : IsMark c) (n : ℕ) : c ∉ (toString n).toList := by
  intro h
  have hdigit := isDigit_of_mem_toString h
  rcases hc with rfl | rfl <;> exact absurd hdigit (by decide)

theorem IsMark.notMem_forkLabel {c : Char} (hc : IsMark c) {index : ℕ} {field : String} (h : c ∉ field.toList) :
    c ∉ (forkLabel index field).toList := by
  have hfork : c ∉ "fork[".toList ∧ c ∉ "].".toList := by
    rcases hc with rfl | rfl <;> decide
  simp only [forkLabel, String.toList_append, List.mem_append, not_or]
  exact ⟨⟨⟨hfork.1, hc.notMem_toString index⟩, hfork.2⟩, h⟩

section Marks
variable {keys values : Set Char} {order : IterOrder (String × String)} {config : ChainSpecConfig} {fork : ForkEntry}

/-- The mark is not in the name of the line if it is in no key, and not in the value if it is in none. -/
def Free (keys values : Set Char) (c : Char) (entry : String × String) : Prop :=
  (c ∉ keys → c ∉ entry.1.toList) ∧ (c ∉ values → c ∉ entry.2.toList)

theorem free_of_mem_metadataLines {c : Char} {label : String} (hlabel : c ∉ label.toList)
    {metadata : HashMap String String} (hmetadata : EntriesIn keys values metadata) :
    ∀ entry ∈ metadataLines order label metadata, Free keys values c entry := by
  intro entry hentry
  obtain ⟨⟨key, value⟩, hmem, rfl⟩ := List.mem_map.mp hentry
  obtain ⟨hkey, hvalue⟩ := hmetadata key value (mem_sortedByKey.mp hmem)
  refine ⟨fun hkeys => ?_, fun hvalues hc => hvalues (hvalue c hc)⟩
  rw [String.toList_append, List.mem_append, not_or]
  exact ⟨hlabel, fun hc => hkeys (hkey c hc)⟩

theorem IsMark.free_of_mem_forkLines {c : Char} (hc : IsMark c) (hfork : fork.WrittenIn keys values) {index : ℕ} :
    ∀ entry ∈ forkLines order index fork, Free keys values c entry := by
  have hfields : ∀ field ∈ ["name", "phase", "activation_epoch", "consensus_change", "metadata.", "eip[", "]"],
      c ∉ field.toList := by
    rcases hc with rfl | rfl <;> decide
  have hphase : c ∉ (forkPhaseLabel fork.phase).toList := by
    rcases hc with rfl | rfl <;> cases fork.phase <;> decide
  have hchange : c ∉ (toString fork.consensusChange).toList := by
    rcases hc with rfl | rfl <;> cases fork.consensusChange <;> decide
  simp only [List.forall_mem_cons] at hfields
  obtain ⟨hname, hphases, hepoch, hchanges, hmetadata, heip, hbracket, -⟩ := hfields
  intro entry hentry
  rw [forkLines, List.mem_append, List.mem_append] at hentry
  rcases hentry with (hentry | hentry) | hentry
  · simp only [List.mem_cons, List.not_mem_nil, or_false] at hentry
    rcases hentry with rfl | rfl | rfl | rfl
    · exact ⟨fun _ => hc.notMem_forkLabel hname, fun hvalues hmem => hvalues (hfork.name c hmem)⟩
    · exact ⟨fun _ => hc.notMem_forkLabel hphases, fun _ => hphase⟩
    · exact ⟨fun _ => hc.notMem_forkLabel hepoch, fun _ => hc.notMem_toString _⟩
    · exact ⟨fun _ => hc.notMem_forkLabel hchanges, fun _ => hchange⟩
  · obtain ⟨⟨eip, eipIndex⟩, hmem, rfl⟩ := List.mem_map.mp hentry
    refine ⟨fun _ => hc.notMem_forkLabel ?_, fun hvalues hmem' => hvalues (hfork.eips eip ?_ c hmem')⟩
    · simp only [String.toList_append, List.mem_append, not_or]
      exact ⟨⟨heip, hc.notMem_toString eipIndex⟩, hbracket⟩
    · exact List.fst_mem_of_mem_zipIdx hmem
  · exact free_of_mem_metadataLines (hc.notMem_forkLabel hmetadata) hfork.metadata entry hentry

theorem mem_of_mem_trimmedValue {c : Char} {metadata : HashMap String String} {key : String}
    (h : c ∈ (trimmedValue metadata key).toList) : ∃ value, metadata.lookup key = some value ∧ c ∈ value.toList := by
  rw [trimmedValue] at h
  cases hvalue : metadata.lookup key with
  | none =>
    rw [hvalue] at h
    cases h
  | some value =>
    rw [hvalue, Option.map_some, Option.getD_some, trimmed, String.toList_ofList] at h
    exact ⟨value, rfl, mem_of_mem_trim h⟩

theorem IsMark.notMem_specVersion {c : Char} (hc : IsMark c) (hvalues : c ∉ values)
    (hmetadata : EntriesIn keys values config.metadata) : c ∉ (resolveSpecVersion config).toList := by
  have hstatus : c ∉ (statusLabel config.status).toList ∧ c ∉ "-".toList := by
    rcases hc with rfl | rfl <;> cases config.status <;> decide
  rw [resolveSpecVersion]
  split_ifs
  · simp only [String.toList_append, List.mem_append, not_or]
    exact ⟨⟨⟨⟨hstatus.1, hstatus.2⟩, hc.notMem_toString _⟩, hstatus.2⟩, hc.notMem_toString _⟩
  · intro h
    obtain ⟨value, hvalue, hmem⟩ := mem_of_mem_trimmedValue h
    exact hvalues ((hmetadata _ _ hvalue).2 c hmem)

theorem IsMark.free_of_mem_configLines {c : Char} (hc : IsMark c) (h : WrittenIn keys values config) :
    ∀ entry ∈ configLines order config, Free keys values c entry := by
  have hlabels : ∀ label ∈ (scalarLines config).map Prod.fst, c ∉ label.toList := by
    simp only [scalarLines, List.map_cons, List.map_nil]
    rcases hc with rfl | rfl <;> decide
  have hnetwork : c ∉ (networkLabel config.network).toList := by
    rcases hc with rfl | rfl <;> cases config.network <;> decide
  have hconsensus : c ∉ (consensusLabel config.consensus).toList := by
    rcases hc with rfl | rfl <;> cases config.consensus <;> decide
  have hstatus : c ∉ (statusLabel config.status).toList := by
    rcases hc with rfl | rfl <;> cases config.status <;> decide
  have hvalues : ∀ entry ∈ scalarLines config, c ∉ values → c ∉ entry.2.toList := by
    simp only [scalarLines, List.forall_mem_cons]
    refine ⟨fun _ => hc.notMem_toString _, fun _ => hnetwork, fun _ => hconsensus, fun _ => hstatus,
      fun _ => hc.notMem_toString _, fun _ => hc.notMem_toString _, fun _ => hc.notMem_toString _,
      fun hvalues => hc.notMem_specVersion hvalues h.metadata, nofun⟩
  have hmetadata : c ∉ "metadata.".toList := by
    rcases hc with rfl | rfl <;> decide
  intro entry hentry
  rw [configLines, List.mem_append, List.mem_append] at hentry
  rcases hentry with hentry | hentry | hentry
  · exact ⟨fun _ => hlabels _ (List.mem_map_of_mem hentry), hvalues _ hentry⟩
  · exact free_of_mem_metadataLines hmetadata h.metadata entry hentry
  · obtain ⟨⟨fork, index⟩, hfork, hentry⟩ := List.mem_flatMap.mp hentry
    exact hc.free_of_mem_forkLines (h.forks fork (List.fst_mem_of_mem_zipIdx hfork)) entry hentry

end Marks

/-! ### The text -/

def lineChars (entry : String × String) : List Char × List Char := (entry.1.toList, entry.2.toList)

theorem toList_canonical (order : IterOrder (String × String)) (config : ChainSpecConfig) :
    (canonical order config).toList = Entries.text '=' '\n' ((configLines order config).map lineChars) := by
  have hline : ∀ entry, (formatLine entry).toList = Entries.line '=' '\n' (lineChars entry) := by
    intro entry
    simp [formatLine, Entries.line, lineChars]
  rw [canonical, String.toList_join, List.flatMap_map, Entries.text, List.flatMap_map]
  exact congrArg₂ _ (funext hline) rfl

/-- The lines can be read from the front or from the end. -/
def Readable (keys values : Set Char) : Prop := ('=' ∉ keys ∧ '\n' ∉ values) ∨ ('\n' ∉ keys ∧ '=' ∉ values)

section Freeze
variable {keys values : Set Char} {order order' : IterOrder (String × String)} {config config' : ChainSpecConfig}

theorem WrittenIn.free {a b : Char} (h : WrittenIn keys values config) (ha : IsMark a) (hb : IsMark b) (hkeys : a ∉ keys)
    (hvalues : b ∉ values) : ∀ line ∈ (configLines order config).map lineChars, a ∉ line.1 ∧ b ∉ line.2 := by
  intro line hline
  obtain ⟨entry, hentry, rfl⟩ := List.mem_map.mp hline
  exact ⟨(ha.free_of_mem_configLines h entry hentry).1 hkeys, (hb.free_of_mem_configLines h entry hentry).2 hvalues⟩

theorem same_of_canonical (hchars : Readable keys values) (h : WrittenIn keys values config)
    (h' : WrittenIn keys values config') (heq : canonical order config = canonical order' config') :
    Same config config' := by
  have hinj : Function.Injective lineChars := by
    rintro ⟨label, value⟩ ⟨label', value'⟩ hentry
    obtain ⟨hlabel, hvalue⟩ := Prod.mk.inj hentry
    exact Prod.ext (String.toList_inj.mp hlabel) (String.toList_inj.mp hvalue)
  have htext := congrArg String.toList heq
  rw [toList_canonical, toList_canonical] at htext
  have hlines : (configLines order config).map lineChars = (configLines order' config').map lineChars := by
    rcases hchars with ⟨hkeys, hvalues⟩ | ⟨hkeys, hvalues⟩
    · exact Entries.eq_of_text_eq (h.free (.inl rfl) (.inr rfl) hkeys hvalues)
        (h'.free (.inl rfl) (.inr rfl) hkeys hvalues) htext
    · exact Entries.eq_of_text_eq_mirror (h.free (.inr rfl) (.inl rfl) hkeys hvalues)
        (h'.free (.inr rfl) (.inl rfl) hkeys hvalues) htext
  exact configLines_iff.mp (List.map_injective_iff.mpr hinj hlines)

end Freeze

/-! ### Texts that can be read twice -/

/-- The characters that every specification needs, and a further line of metadata. -/
def letters : List Char := "metadata.spec_version".toList

def specOf (metadata : HashMap String String) : ChainSpecConfig where
  chainId := 2077
  network := .testnet
  consensus := .proofOfStake
  status := .frozen
  genesisTime := 1766000000
  slotsPerEpoch := 32
  secondsPerSlot := 12
  forks := [⟨"d", .activated, 0, [], false, ∅⟩]
  metadata

/-- Sorted entries with a version, written in the letters and in some marks. -/
structure IsSpec (keyMarks valueMarks : List Char) (l : List (String × String)) : Prop where
  sorted : l.Pairwise fun a b => compare a.1 b.1 = .lt
  version : ("spec_version", "v") ∈ l
  chars : ∀ entry ∈ l, trimmed entry.1 ≠ "" ∧ entry.1.toList ⊆ letters ++ keyMarks ∧
    entry.2.toList ⊆ letters ++ valueMarks

instance decidableIsSpec (keyMarks valueMarks : List Char) (l : List (String × String)) :
    Decidable (IsSpec keyMarks valueMarks l) :=
  decidable_of_iff
    ((l.Pairwise fun a b => compare a.1 b.1 = .lt) ∧ ("spec_version", "v") ∈ l ∧
      ∀ entry ∈ l, trimmed entry.1 ≠ "" ∧ entry.1.toList ⊆ letters ++ keyMarks ∧ entry.2.toList ⊆ letters ++ valueMarks)
    ⟨fun ⟨sorted, version, chars⟩ => ⟨sorted, version, chars⟩, fun h => ⟨h.sorted, h.version, h.chars⟩⟩

namespace IsSpec
variable {keyMarks valueMarks : List Char} {l l' : List (String × String)}

def config (h : IsSpec keyMarks valueMarks l) : ChainSpecConfig := specOf (ofPairs l (nodup_of_pairwise_compare h.sorted))

theorem lookup (h : IsSpec keyMarks valueMarks l) {key value : String} :
    h.config.metadata.lookup key = some value ↔ (key, value) ∈ l := by
  rw [← @mem_traverse _ _ _ _ .stored]
  exact (traverse_ofPairs (nodup_of_pairwise_compare h.sorted) .stored).mem_iff

theorem version_eq (h : IsSpec keyMarks valueMarks l) : trimmedValue h.config.metadata "spec_version" = "v" := by
  rw [trimmedValue, h.lookup.mpr h.version]
  decide

theorem accepted (h : IsSpec keyMarks valueMarks l) (toLowercase toUppercase : String → String) :
    Accepted toLowercase toUppercase h.config := by
  have hpositive : (2077 : UInt64) ≠ 0 ∧ (1766000000 : UInt64) ≠ 0 ∧ (32 : UInt64) ≠ 0 ∧ (12 : UInt64) ≠ 0 := by decide
  refine ⟨hpositive.1, hpositive.2.1, hpositive.2.2.1, hpositive.2.2.2, List.cons_ne_nil _ _, ?_, ?_, nofun,
    List.nodup_singleton _, .singleton _, ?_⟩
  · rw [h.version_eq]
    decide
  · intro key hkey
    obtain ⟨value, hvalue⟩ := mem_iff_exists_lookup.mp hkey
    exact (h.chars _ (h.lookup.mp hvalue)).1
  · rintro fork hfork
    obtain rfl := List.mem_singleton.mp hfork
    exact ⟨by decide, nofun, nofun, .nil, fun key hkey => absurd hkey (AList.notMem_empty key)⟩

theorem writtenIn (h : IsSpec keyMarks valueMarks l) {keys values : Set Char}
    (hkeys : ∀ c ∈ letters ++ keyMarks, c ∈ keys) (hvalues : ∀ c ∈ letters ++ valueMarks, c ∈ values) :
    WrittenIn keys values h.config := by
  refine ⟨fun fork hfork => ?_, fun key value hvalue => ?_⟩
  · obtain rfl := List.mem_singleton.mp hfork
    refine ⟨fun c hc => hvalues c (List.mem_append_left _ ?_), nofun, nofun⟩
    obtain rfl := List.mem_singleton.mp hc
    decide
  · obtain ⟨-, hkey, hvalue⟩ := h.chars _ (h.lookup.mp hvalue)
    exact ⟨fun c hc => hkeys c (hkey hc), fun c hc => hvalues c (hvalue hc)⟩

theorem canonical_eq (h : IsSpec keyMarks valueMarks l) (h' : IsSpec keyMarks valueMarks l')
    (htext : String.join (l.map fun entry => formatLine ("metadata." ++ entry.1, entry.2)) =
      String.join (l'.map fun entry => formatLine ("metadata." ++ entry.1, entry.2)))
    (order order' : IterOrder (String × String)) : canonical order h.config = canonical order' h'.config := by
  have hlines : ∀ {l : List (String × String)} (h : IsSpec keyMarks valueMarks l) order,
      (metadataLines order "metadata." h.config.metadata).map formatLine =
        l.map fun entry => formatLine ("metadata." ++ entry.1, entry.2) := by
    intro l h order
    rw [metadataLines, show sortedByKey order h.config.metadata = l from sortedByKey_ofPairs h.sorted order, List.map_map]
    rfl
  have hscalars : scalarLines h.config = scalarLines h'.config := by
    rw [scalarLines, scalarLines, resolveSpecVersion, resolveSpecVersion, h.version_eq, h'.version_eq]
    rfl
  have hforks : forksLines order 0 h.config.forks = forksLines order' 0 h'.config.forks :=
    forksLines_iff.mpr (.cons ⟨rfl, rfl, rfl, rfl, rfl, fun _ => rfl⟩ .nil)
  simp only [canonical, configLines, List.map_append, String.join_append, hscalars, hforks, hlines, htext]

theorem not_same (h : IsSpec keyMarks valueMarks l) (h' : IsSpec keyMarks valueMarks l') (hne : l ≠ l') :
    ¬ Same h.config h'.config := by
  intro hsame
  have hsorted : sortedByKey .stored h.config.metadata = sortedByKey .stored h'.config.metadata :=
    sortedByKey_iff.mpr hsame.metadata
  exact hne (((sortedByKey_ofPairs h.sorted .stored).symm.trans hsorted).trans (sortedByKey_ofPairs h'.sorted .stored))

end IsSpec

/-- Two specifications with one text. -/
structure Collide (keyMarks valueMarks : List Char) (l l' : List (String × String)) : Prop where
  left : IsSpec keyMarks valueMarks l
  right : IsSpec keyMarks valueMarks l'
  text : String.join (l.map fun entry => formatLine ("metadata." ++ entry.1, entry.2)) =
    String.join (l'.map fun entry => formatLine ("metadata." ++ entry.1, entry.2))
  ne : l ≠ l'

instance decidableCollide (keyMarks valueMarks : List Char) (l l' : List (String × String)) :
    Decidable (Collide keyMarks valueMarks l l') :=
  decidable_of_iff
    (IsSpec keyMarks valueMarks l ∧ IsSpec keyMarks valueMarks l' ∧
      String.join (l.map fun entry => formatLine ("metadata." ++ entry.1, entry.2)) =
        String.join (l'.map fun entry => formatLine ("metadata." ++ entry.1, entry.2)) ∧ l ≠ l')
    ⟨fun ⟨left, right, text, ne⟩ => ⟨left, right, text, ne⟩, fun h => ⟨h.left, h.right, h.text, h.ne⟩⟩

/-- A value goes on with the next line. -/
theorem collide_value : Collide [] ['=', '\n'] [("a", "m\nmetadata.d=m"), ("spec_version", "v")]
    [("a", "m"), ("d", "m"), ("spec_version", "v")] := by
  decide

/-- A key begins with the line before. -/
theorem collide_key : Collide ['=', '\n'] [] [("a=m\nmetadata.d", "m"), ("spec_version", "v")]
    [("a", "m"), ("d", "m"), ("spec_version", "v")] := by
  decide

/-- Either of two equality signs ends the label. -/
theorem collide_sign : Collide ['='] ['='] [("a", "d=m"), ("spec_version", "v")] [("a=d", "m"), ("spec_version", "v")] := by
  decide

/-- A line without an equality sign belongs to the value before it or to the key behind it. -/
theorem collide_line : Collide ['\n'] ['\n'] [("a", "m\nmetadata.d"), ("e", "m"), ("spec_version", "v")]
    [("a", "m"), ("d\nmetadata.e", "m"), ("spec_version", "v")] := by
  decide

section Freeze
variable {toLowercase toUppercase : String → String} {keys values : Set Char}

variable (toLowercase toUppercase keys values) in
/-- No two accepted specifications that are written in these characters have one text. -/
def Freezes : Prop :=
  ∀ order order' config config', validateChainSpecConfig toLowercase toUppercase config = .ok () →
    validateChainSpecConfig toLowercase toUppercase config' = .ok () → WrittenIn keys values config →
      WrittenIn keys values config' → canonical order config = canonical order' config' → Same config config'

theorem Collide.not_freezes {keyMarks valueMarks : List Char} {l l' : List (String × String)}
    (h : Collide keyMarks valueMarks l l') (hletters : ∀ c ∈ letters, c ∈ keys ∧ c ∈ values)
    (hkeys : ∀ c ∈ keyMarks, c ∈ keys) (hvalues : ∀ c ∈ valueMarks, c ∈ values) :
    ¬ Freezes toLowercase toUppercase keys values := by
  intro hfreezes
  have hkeys' : ∀ c ∈ letters ++ keyMarks, c ∈ keys :=
    List.forall_mem_append.mpr ⟨fun c hc => (hletters c hc).1, hkeys⟩
  have hvalues' : ∀ c ∈ letters ++ valueMarks, c ∈ values :=
    List.forall_mem_append.mpr ⟨fun c hc => (hletters c hc).2, hvalues⟩
  refine h.left.not_same h.right h.ne (hfreezes .stored .stored _ _ (validate_eq_ok.mpr (h.left.accepted _ _))
    (validate_eq_ok.mpr (h.right.accepted _ _)) (h.left.writtenIn hkeys' hvalues') (h.right.writtenIn hkeys' hvalues') ?_)
  exact h.left.canonical_eq h.right h.text .stored .stored

/-- The text freezes the accepted specifications, if and only if it can be read from the front or from the end. -/
theorem commitment_freezes_iff (toLowercase toUppercase : String → String) (keys values : Set Char)
    (hletters : ∀ c ∈ letters, c ∈ keys ∧ c ∈ values) :
    Freezes toLowercase toUppercase keys values ↔ Readable keys values := by
  constructor
  · intro h
    by_contra hnot
    rw [Readable, not_or, not_and_or, not_and_or, not_not, not_not, not_not, not_not] at hnot
    rcases hnot with ⟨hsign | hstop, hstop' | hsign'⟩
    · exact collide_key.not_freezes hletters (by simp [hsign, hstop']) nofun h
    · exact collide_sign.not_freezes hletters (by simp [hsign]) (by simp [hsign']) h
    · exact collide_line.not_freezes hletters (by simp [hstop']) (by simp [hstop]) h
    · exact collide_value.not_freezes hletters nofun (by simp [hstop, hsign']) h
  · intro hchars order order' config config' _ _ hwritten hwritten' heq
    exact same_of_canonical hchars hwritten hwritten' heq

/-- Keys without equality signs and other strings without line breaks. -/
theorem freezes_without_breaks :
    (∀ c ∈ letters, c ∈ {c | c ≠ '='} ∧ c ∈ {c | c ≠ '\n'}) ∧
      Freezes (String.map Char.toLower) (String.map Char.toUpper) {c | c ≠ '='} {c | c ≠ '\n'} := by
  have hmarks : '=' ∉ letters ∧ '\n' ∉ letters := by decide
  have hletters : ∀ c ∈ letters, c ≠ '=' ∧ c ≠ '\n' :=
    fun c hc => ⟨fun heq => hmarks.1 (heq ▸ hc), fun heq => hmarks.2 (heq ▸ hc)⟩
  exact ⟨hletters, (commitment_freezes_iff _ _ _ _ hletters).mpr (.inl ⟨fun h => h rfl, fun h => h rfl⟩)⟩

/-- The value of one entry holds the line of another. -/
theorem spliced_line_not_frozen : ∃ config config',
    (∀ toLowercase toUppercase, validateChainSpecConfig toLowercase toUppercase config = .ok () ∧
      validateChainSpecConfig toLowercase toUppercase config' = .ok ()) ∧
    (∀ order order', canonical order config = canonical order' config') ∧ ¬ Same config config' := by
  obtain ⟨left, right, htext, hne⟩ := collide_value
  refine ⟨left.config, right.config, fun toLowercase toUppercase => ?_, left.canonical_eq right htext,
    left.not_same right hne⟩
  exact ⟨validate_eq_ok.mpr (left.accepted _ _), validate_eq_ok.mpr (right.accepted _ _)⟩

end Freeze

/-! ### Schedules that can be read twice -/

/-- The text of some lines ends with a line break. -/
theorem join_formatLine {lines : List (String × String)} (hne : lines ≠ []) :
    ∃ t, String.join (lines.map formatLine) = t ++ "\n" := by
  obtain ⟨earlier, last, rfl⟩ := (List.eq_nil_or_concat' lines).resolve_left hne
  refine ⟨String.join (earlier.map formatLine) ++ last.1 ++ "=" ++ last.2, ?_⟩
  simp [formatLine, String.append_assoc]

section Reread
variable {toLowercase toUppercase : String → String}

/-- The first EIP can hold the lines of the others. -/
theorem exists_merged {fork : ForkEntry} {eip other : String} {eips : List String} (h : fork.eips = eip :: other :: eips)
    (index : ℕ) : ∃ t, ∀ order, String.join ((forkLines order index fork).map formatLine) =
      String.join ((forkLines order index { fork with eips := [eip ++ t] }).map formatLine) := by
  let toLine : String × ℕ → String × String :=
    fun (eip, eipIndex) => (forkLabel index ("eip[" ++ toString eipIndex ++ "]"), eip)
  obtain ⟨t, ht⟩ := join_formatLine (show ((other :: eips).zipIdx 1).map toLine ≠ [] from List.cons_ne_nil _ _)
  refine ⟨"\n" ++ t, fun order => ?_⟩
  have hmerged : String.join (((eip :: other :: eips).zipIdx.map toLine).map formatLine) =
      String.join (([eip ++ ("\n" ++ t)].zipIdx.map toLine).map formatLine) := by
    rw [List.zipIdx_cons, List.map_cons, List.map_cons, String.join_cons, ht]
    simp [toLine, formatLine, String.append_assoc]
  rw [forkLines, forkLines, h]
  simp only [List.map_append, String.join_append]
  exact congrArg (fun s => _ ++ s ++ _) hmerged

theorem forksLines_append (order : IterOrder (String × String)) (first : ℕ) (forks forks' : List ForkEntry) :
    forksLines order first (forks ++ forks') =
      forksLines order first forks ++ forksLines order (first + forks.length) forks' := by
  rw [forksLines, List.zipIdx_append, List.flatMap_append]
  rfl

/-- A fork can be exchanged for one of the same name and epoch. -/
theorem Accepted.exchange {config : ChainSpecConfig} (h : Accepted toLowercase toUppercase config)
    {pre post : List ForkEntry} {fork fork' : ForkEntry} (hforks : config.forks = pre ++ fork :: post) (hname : fork'.name = fork.name)
    (hepoch : fork'.activationEpoch = fork.activationEpoch) (hfork' : fork'.Accepted toUppercase) :
    Accepted toLowercase toUppercase { config with forks := pre ++ fork' :: post } := by
  have hdistinct := h.distinct
  have hepochs := h.epochs
  have haccepted := h.forks
  rw [hforks, List.map_append, List.map_cons] at hdistinct hepochs
  rw [hforks, List.forall_mem_append, List.forall_mem_cons] at haccepted
  refine ⟨h.chainId, h.genesisTime, h.slotsPerEpoch, h.secondsPerSlot,
    List.append_ne_nil_of_right_ne_nil _ (List.cons_ne_nil _ _), h.specVersion, h.metadata, h.networkName, ?_, ?_, ?_⟩
  · rw [List.map_append, List.map_cons, hname]
    exact hdistinct
  · rw [List.map_append, List.map_cons, hepoch]
    exact hepochs
  · rw [List.forall_mem_append, List.forall_mem_cons]
    exact ⟨haccepted.1, hfork', haccepted.2.2⟩

theorem canonical_exchange {config : ChainSpecConfig} {pre post : List ForkEntry} {fork fork' : ForkEntry}
    (hforks : config.forks = pre ++ fork :: post) {order : IterOrder (String × String)}
    (htext : String.join ((forkLines order pre.length fork).map formatLine) =
      String.join ((forkLines order pre.length fork').map formatLine)) :
    canonical order config = canonical order { config with forks := pre ++ fork' :: post } := by
  have hscalars : scalarLines config = scalarLines { config with forks := pre ++ fork' :: post } := by
    simp [scalarLines, resolveSpecVersion, hforks]
  have hsplit : ∀ fork, forksLines order 0 (pre ++ fork :: post) = forksLines order 0 pre ++
      (forkLines order pre.length fork ++ forksLines order (pre.length + 1) post) := by
    intro fork
    rw [forksLines_append, Nat.zero_add]
    rfl
  simp only [canonical, configLines, List.map_append, String.join_append, hscalars, hforks, hsplit, htext]

/-- The text does not depend on the order in which the maps were traversed. -/
theorem canonical_order (order order' : IterOrder (String × String)) (config : ChainSpecConfig) :
    canonical order config = canonical order' config := by
  have hself : Same config config := ⟨rfl, rfl, rfl, rfl, rfl, rfl, rfl,
    List.forall₂_same.mpr fun _ _ => ⟨rfl, rfl, rfl, rfl, rfl, fun _ => rfl⟩, fun _ => rfl⟩
  rw [canonical, canonical, configLines_iff.mpr hself]

/-- Whenever a fork has more than one EIP, the text is that of another specification that is accepted. -/
theorem exists_reread {config : ChainSpecConfig} (h : validateChainSpecConfig toLowercase toUppercase config = .ok ())
    {fork : ForkEntry} (hfork : fork ∈ config.forks) (heips : 1 < fork.eips.length) :
    ∃ config', validateChainSpecConfig toLowercase toUppercase config' = .ok () ∧ ¬ Same config config' ∧
      ∀ order order', canonical order config = canonical order' config' := by
  have haccepted := validate_eq_ok.mp h
  have hfork' := haccepted.forks fork hfork
  obtain ⟨pre, post, hforks⟩ := List.append_of_mem hfork
  obtain ⟨eip, other, eips, hcons⟩ : ∃ eip other eips, fork.eips = eip :: other :: eips := by
    match fork.eips, heips with
    | eip :: other :: eips, _ => exact ⟨eip, other, eips, rfl⟩
  obtain ⟨t, ht⟩ := exists_merged hcons pre.length
  refine ⟨{ config with forks := pre ++ { fork with eips := [eip ++ t] } :: post }, validate_eq_ok.mpr ?_,
    fun hsame => ?_, fun order order' => ?_⟩
  · refine haccepted.exchange hforks rfl rfl
      ⟨hfork'.name, hfork'.activationEpoch, ?_, List.nodup_singleton _, hfork'.metadata⟩
    intro merged hmerged hblank
    obtain rfl := List.mem_singleton.mp hmerged
    rw [trimmed_eq_empty_iff, String.toList_append] at hblank
    exact hfork'.eips eip (hcons ▸ List.mem_cons_self)
      (trimmed_eq_empty_iff.mpr fun c hc => hblank c (List.mem_append_left _ hc))
  · have heq : config.forks.map ForkEntry.eips =
        (pre ++ { fork with eips := [eip ++ t] } :: post).map ForkEntry.eips := by
      rw [← List.forall₂_eq_eq_eq, List.forall₂_map_left_iff, List.forall₂_map_right_iff]
      exact hsame.forks.imp fun _ _ hsame => hsame.eips
    rw [hforks, List.map_append, List.map_append] at heq
    have hmerged := (List.cons.inj (List.append_cancel_left heq)).1
    rw [hcons] at hmerged
    cases (List.cons.inj hmerged).2
  · rw [canonical_order order' order]
    exact canonical_exchange hforks (ht order)

end Reread

end ChainSpec
end Eth2077
