import Eth2077.Lib.Seen
import Eth2077.Types.Canonical
import Eth2077.Types.Metadata

/-!
# Validator ceremonies (`types/src/validator_ceremony.rs`)

The commitment to the configuration of a ceremony ends a label and a key with a zero byte and an entry of the metadata
with `0xFF`. No text contains the latter, but a key or a value may contain the former, and then the entry can be cut in two
places. It depends on the other keys whether what comes out is a map again that is written in the same order.
-/

namespace Eth2077
namespace ValidatorCeremony

inductive SignerProtocol where
  | local
  | remoteGrpc
  | remoteHttp
  | hsm
  | thresholdBls
  | distributed
deriving DecidableEq

inductive SecurityLevel where
  | standard
  | enhanced
  | airGapped
  | multiParty
  | formallyVerified
  | postQuantum
deriving DecidableEq

/-- `usize` has 64 bits. -/
structure ValidatorCeremonyConfig where
  validatorCount : UInt64
  threshold : UInt64
  protocol : SignerProtocol
  security : SecurityLevel
  rotationPeriodDays : UInt64
  requireAirGap : Bool
  metadata : HashMap String String

structure ValidatorCeremonyValidationError where
  field : String
  reason : String
deriving DecidableEq

def defaultValidatorCeremonyConfig : ValidatorCeremonyConfig where
  validatorCount := 128
  threshold := 86
  protocol := .thresholdBls
  security := .multiParty
  rotationPeriodDays := 90
  requireAirGap := true
  metadata :=
    AList.insert "verification_policy" "dual-operator-check" <|
    AList.insert "profile" "eth2077-testnet-default" ∅

def SecurityLevel.meetsAirGapRequirement : SecurityLevel → Bool
  | airGapped | multiParty | formallyVerified | postQuantum => true
  | standard | enhanced => false

def validateValidatorCeremonyConfig (config : ValidatorCeremonyConfig) :
    Except (List ValidatorCeremonyValidationError) Unit :=
  Seen.report
    ((if config.validatorCount = 0 then [⟨"validator_count", "validator_count must be greater than zero"⟩] else []) ++
      (if config.threshold = 0 then [⟨"threshold", "threshold must be greater than zero"⟩] else []) ++
      (if config.validatorCount < config.threshold then [⟨"threshold", "threshold cannot exceed validator_count"⟩]
        else []) ++
      (if config.rotationPeriodDays = 0 then [⟨"rotation_period_days", "rotation_period_days must be at least 1"⟩]
        else []) ++
      (if 3650 < config.rotationPeriodDays then
        [⟨"rotation_period_days", "rotation_period_days must not exceed 3650"⟩] else []) ++
      (if config.requireAirGap ∧ ¬ config.security.meetsAirGapRequirement then
        [⟨"security", "require_air_gap=true requires AirGapped, MultiParty, FormallyVerified, or PostQuantum security"⟩]
        else []) ++
      (if config.security = .airGapped ∧ config.protocol = .remoteHttp then
        [⟨"protocol", "RemoteHttp is incompatible with AirGapped security"⟩] else []) ++
      (if (config.protocol = .thresholdBls ∨ config.protocol = .distributed) ∧ config.threshold < 2 then
        [⟨"threshold", "threshold must be at least 2 for ThresholdBls or Distributed protocols"⟩] else []) ++
      if config.security = .postQuantum ∧ 180 < config.rotationPeriodDays then
        [⟨"rotation_period_days", "PostQuantum profile requires rotation_period_days <= 180"⟩]
      else [])

theorem defaultValidatorCeremonyConfig_valid :
    validateValidatorCeremonyConfig defaultValidatorCeremonyConfig = .ok () := by decide

/-! ### Commitment -/

def protocolLabel : SignerProtocol → String
  | .local => "Local"
  | .remoteGrpc => "RemoteGrpc"
  | .remoteHttp => "RemoteHttp"
  | .hsm => "Hsm"
  | .thresholdBls => "ThresholdBls"
  | .distributed => "Distributed"

def securityLabel : SecurityLevel → String
  | .standard => "Standard"
  | .enhanced => "Enhanced"
  | .airGapped => "AirGapped"
  | .multiParty => "MultiParty"
  | .formallyVerified => "FormallyVerified"
  | .postQuantum => "PostQuantum"

/-- `u64::to_le_bytes`. -/
def toLeBytes (n : UInt64) : List UInt8 := (toBeBytes n).reverse

def labelBytes (label : String) : List UInt8 := asBytes label ++ [0]

def entryBytes (entry : String × String) : List UInt8 := asBytes entry.1 ++ ([0] ++ (asBytes entry.2 ++ [0xFF]))

/-- Everything that is fed to the hasher. -/
def ceremonyBytes (order : IterOrder (String × String)) (config : ValidatorCeremonyConfig) : List UInt8 :=
  toLeBytes config.validatorCount ++ (toLeBytes config.threshold ++ (labelBytes (protocolLabel config.protocol) ++
    (labelBytes (securityLabel config.security) ++ (toLeBytes config.rotationPeriodDays ++
      ([config.requireAirGap.toUInt8] ++ (sortedPairs order config.metadata).flatMap entryBytes)))))

def computeValidatorCeremonyCommitment (sha256 : List UInt8 → B256) (order : IterOrder (String × String))
    (config : ValidatorCeremonyConfig) : String :=
  hexEncode (sha256 (ceremonyBytes order config)).toList

/-! ### What the bytes fix -/

/-- `==` of two configurations. -/
structure Same (config config' : ValidatorCeremonyConfig) : Prop where
  validatorCount : config.validatorCount = config'.validatorCount
  threshold : config.threshold = config'.threshold
  protocol : config.protocol = config'.protocol
  security : config.security = config'.security
  rotationPeriodDays : config.rotationPeriodDays = config'.rotationPeriodDays
  requireAirGap : config.requireAirGap = config'.requireAirGap
  metadata : SameMap config.metadata config'.metadata

/-- A key and its value with a zero byte between them. -/
def entryText (entry : String × String) : String := entry.1 ++ "\x00" ++ entry.2

theorem entryBytes_eq (entry : String × String) : entryBytes entry = asBytes (entryText entry) ++ [0xFF] := by
  have hzero : asBytes "\x00" = [0] := by decide
  rw [entryBytes, entryText, asBytes_append, asBytes_append, hzero]
  simp

theorem isPrefixCode_toLeBytes : PrefixCode.IsPrefixCode toLeBytes := by
  refine PrefixCode.of_length (fun n => by rw [toLeBytes, List.length_reverse, toBeBytes, length_beBytes]) fun a b h => ?_
  exact (isPrefixCode_toBeBytes (congrArg (· ++ []) (List.reverse_injective h))).1

theorem isPrefixCode_protocol : PrefixCode.IsPrefixCode fun protocol => labelBytes (protocolLabel protocol) := by
  have hzero : ∀ protocol, 0 ∉ asBytes (protocolLabel protocol) := by
    intro protocol
    cases protocol <;> decide
  refine (PrefixCode.terminated 0).comp (p := fun protocol => ⟨asBytes (protocolLabel protocol), hzero protocol⟩) ?_
  intro a b h
  have hlabel : protocolLabel a = protocolLabel b := asBytes_injective (Subtype.mk.inj h)
  revert hlabel
  cases a <;> cases b <;> decide

theorem isPrefixCode_security : PrefixCode.IsPrefixCode fun security => labelBytes (securityLabel security) := by
  have hzero : ∀ security, 0 ∉ asBytes (securityLabel security) := by
    intro security
    cases security <;> decide
  refine (PrefixCode.terminated 0).comp (p := fun security => ⟨asBytes (securityLabel security), hzero security⟩) ?_
  intro a b h
  have hlabel : securityLabel a = securityLabel b := asBytes_injective (Subtype.mk.inj h)
  revert hlabel
  cases a <;> cases b <;> decide

/-- The entries are told apart as texts, since no text contains `0xFF`. -/
theorem flatMap_entryBytes_iff {l l' : List (String × String)} :
    l.flatMap entryBytes = l'.flatMap entryBytes ↔ l.map entryText = l'.map entryText := by
  have hnone : ∀ s : String, 0xFF ∉ asBytes s := fun s h => absurd (lt_of_mem_asBytes h) (by decide)
  have hcode : PrefixCode.IsPrefixCode fun s : String => asBytes s ++ [0xFF] :=
    (PrefixCode.terminated 0xFF).comp (p := fun s => ⟨asBytes s, hnone s⟩) fun a b h =>
      asBytes_injective (congrArg Subtype.val h)
  have hmap : ∀ l : List (String × String),
      l.flatMap entryBytes = (l.map entryText).flatMap fun s => asBytes s ++ [0xFF] := by
    intro l
    rw [List.flatMap_map]
    exact congrArg l.flatMap (funext entryBytes_eq)
  rw [hmap, hmap]
  exact ⟨fun h => hcode.flatMap_injective (fun s => by simp) h, fun h => by rw [h]⟩

/-- The bytes fix all but the metadata, of which they fix the texts of the sorted entries. -/
theorem ceremonyBytes_iff {order order' : IterOrder (String × String)} {config config' : ValidatorCeremonyConfig} :
    ceremonyBytes order config = ceremonyBytes order' config' ↔
      (config.validatorCount = config'.validatorCount ∧ config.threshold = config'.threshold ∧
        config.protocol = config'.protocol ∧ config.security = config'.security ∧
        config.rotationPeriodDays = config'.rotationPeriodDays ∧ config.requireAirGap = config'.requireAirGap) ∧
      (sortedPairs order config.metadata).map entryText = (sortedPairs order' config'.metadata).map entryText := by
  rw [← flatMap_entryBytes_iff]
  constructor
  · intro h
    obtain ⟨hcount, h⟩ := isPrefixCode_toLeBytes h
    obtain ⟨hthreshold, h⟩ := isPrefixCode_toLeBytes h
    obtain ⟨hprotocol, h⟩ := isPrefixCode_protocol h
    obtain ⟨hsecurity, h⟩ := isPrefixCode_security h
    obtain ⟨hrotation, h⟩ := isPrefixCode_toLeBytes h
    obtain ⟨hgap, h⟩ := List.cons.inj h
    have hgap : config.requireAirGap = config'.requireAirGap := by
      revert hgap
      cases config.requireAirGap <;> cases config'.requireAirGap <;> decide
    exact ⟨⟨hcount, hthreshold, hprotocol, hsecurity, hrotation, hgap⟩, h⟩
  · rintro ⟨⟨hcount, hthreshold, hprotocol, hsecurity, hrotation, hgap⟩, h⟩
    rw [ceremonyBytes, ceremonyBytes, hcount, hthreshold, hprotocol, hsecurity, hrotation, hgap, h]

/-- Wherever else an entry can be cut at a zero byte, the new key has another key of the map in its way. -/
def Uncuttable (metadata : HashMap String String) : Prop :=
  ∀ key value, metadata.lookup key = some value →
    ∀ key' value', entryText (key', value') = entryText (key, value) → key' ≠ key →
      ∃ other ∈ metadata, (key < other ∧ other ≤ key') ∨ (key' ≤ other ∧ other < key)

section Metadata
variable {order order' : IterOrder (String × String)} {metadata metadata' : HashMap String String}

theorem pairwise_keys (order : IterOrder (String × String)) (metadata : HashMap String String) :
    (sortedPairs order metadata).Pairwise fun a b => a.1 < b.1 :=
  (pairwise_sortedPairs order metadata).imp compare_lt_iff_lt.mp

/-- An entry that is cut elsewhere, with no other key in the way, gives another map with the same texts. -/
theorem exists_of_cut (order : IterOrder (String × String)) {key value key' value' : String}
    (hlookup : metadata.lookup key = some value)
    (htext : entryText (key', value') = entryText (key, value)) (hne : key' ≠ key)
    (hway : ∀ other ∈ metadata, ¬ ((key < other ∧ other ≤ key') ∨ (key' ≤ other ∧ other < key))) :
    ∃ metadata', ¬ SameMap metadata metadata' ∧
      (sortedPairs order metadata').map entryText = (sortedPairs order metadata).map entryText := by
  have hentry : (key, value) ∈ sortedPairs order metadata := mem_sortedPairs.mpr hlookup
  obtain ⟨pre, post, hsplit⟩ := List.append_of_mem hentry
  have hsorted := pairwise_keys order metadata
  have hmem : ∀ entry ∈ pre ++ (key, value) :: post, entry.1 ∈ metadata := by
    intro entry hentry
    exact mem_iff_exists_lookup.mpr ⟨_, mem_sortedPairs.mp (hsplit ▸ hentry)⟩
  rw [hsplit, List.pairwise_append, List.pairwise_cons] at hsorted
  obtain ⟨hpre, ⟨hafter, hpost⟩, hbefore⟩ := hsorted
  have hpre' : ∀ entry ∈ pre, entry.1 < key' := by
    intro entry hentry
    have hkey : entry.1 < key := hbefore entry hentry (key, value) List.mem_cons_self
    have hfree := hway entry.1 (hmem entry (List.mem_append_left _ hentry))
    exact lt_of_not_ge fun hle => hfree (.inr ⟨hle, hkey⟩)
  have hpost' : ∀ entry ∈ post, key' < entry.1 := by
    intro entry hentry
    have hkey : key < entry.1 := hafter entry hentry
    have hfree := hway entry.1 (hmem entry (List.mem_append_right _ (List.mem_cons_of_mem _ hentry)))
    exact lt_of_not_ge fun hle => hfree (.inl ⟨hkey, hle⟩)
  have hcut : (pre ++ (key', value') :: post).Pairwise fun a b => compare a.1 b.1 = .lt := by
    refine List.Pairwise.imp compare_lt_iff_lt.mpr (List.pairwise_append.mpr ⟨hpre, ?_, ?_⟩)
    · exact List.pairwise_cons.mpr ⟨hpost', hpost⟩
    · intro a ha b hb
      rcases List.mem_cons.mp hb with rfl | hb
      · exact hpre' a ha
      · exact hbefore a ha b (List.mem_cons_of_mem _ hb)
  refine ⟨ofPairs _ (nodup_of_pairwise_compare hcut), fun hsame => ?_, ?_⟩
  · have hlist : sortedPairs order metadata = sortedPairs order _ := sortedPairs_iff.mpr hsame
    rw [sortedPairs_ofPairs hcut, hsplit] at hlist
    have hentry := (List.cons.inj (List.append_cancel_left hlist)).1
    exact hne (congrArg Prod.fst hentry).symm
  · rw [sortedPairs_ofPairs hcut, hsplit]
    simp [htext]

/-- If nothing can be cut elsewhere, the texts of the sorted entries are the map. -/
theorem Uncuttable.sameMap (h : Uncuttable metadata)
    (htexts : (sortedPairs order metadata).map entryText = (sortedPairs order' metadata').map entryText) :
    SameMap metadata metadata' := by
  have hlen : (sortedPairs order metadata).length = (sortedPairs order' metadata').length := by
    simpa using congrArg List.length htexts
  by_cases hkeys : (sortedPairs order metadata).map Prod.fst = (sortedPairs order' metadata').map Prod.fst
  · -- with the same keys, the texts leave the same values
    refine sortedPairs_iff.mp (List.ext_getElem hlen fun i hi hi' => ?_)
    have hkey : (sortedPairs order metadata)[i].1 = (sortedPairs order' metadata')[i].1 := by
      have := congrArg (·[i]?) hkeys
      simpa [hi, hi'] using this
    have htext : entryText (sortedPairs order metadata)[i] = entryText (sortedPairs order' metadata')[i] := by
      have := congrArg (·[i]?) htexts
      simpa [hi, hi'] using this
    refine Prod.ext hkey ?_
    rw [entryText, entryText, hkey] at htext
    exact (String.append_right_inj _).mp htext
  · obtain ⟨pre, a, post, pre', a', post', hl, hl', hpre, hne, hbefore, hafter⟩ :=
      SortBy.exists_exchange (pairwise_keys order metadata) (pairwise_keys order' metadata') hlen hkeys
    have htext : entryText a' = entryText a := by
      rw [hl, hl', List.map_append, List.map_append] at htexts
      have := (List.append_inj htexts (by simp [hpre])).2
      exact (List.cons.inj this).1.symm
    have hmem : a ∈ sortedPairs order metadata := hl ▸ List.mem_append_right pre List.mem_cons_self
    obtain ⟨other, hother, hway⟩ := h a.1 a.2 (mem_sortedPairs.mp hmem) a'.1 a'.2 htext (Ne.symm hne)
    obtain ⟨value, hvalue⟩ := mem_iff_exists_lookup.mp hother
    have hother : (other, value) ∈ sortedPairs order metadata := mem_sortedPairs.mpr hvalue
    have hsorted := pairwise_keys order metadata
    rw [hl] at hother hsorted
    obtain ⟨-, hpost, hcross⟩ := List.pairwise_append.mp hsorted
    rcases List.mem_append.mp hother with hother | hother
    · have hlt := hbefore _ hother
      have hlt' := hcross _ hother a List.mem_cons_self
      rcases hway with ⟨hkey, -⟩ | ⟨hle, -⟩
      · exact absurd hkey (lt_asymm hlt')
      · exact absurd hlt (not_lt_of_ge hle)
    · rcases List.mem_cons.mp hother with rfl | hother
      · rcases hway with ⟨hkey, -⟩ | ⟨-, hkey⟩
        · exact absurd hkey (lt_irrefl _)
        · exact absurd hkey (lt_irrefl _)
      · have hlt := hafter _ hother
        have hlt' := (List.pairwise_cons.mp hpost).1 _ hother
        rcases hway with ⟨-, hle⟩ | ⟨-, hkey⟩
        · exact absurd hlt (not_lt_of_ge hle)
        · exact absurd hkey (lt_asymm hlt')

/-- Without zero bytes there is one place to cut. -/
theorem uncuttable_of_zero_free
    (hzero : ∀ key value, metadata.lookup key = some value → '\x00' ∉ key.toList ∧ '\x00' ∉ value.toList) :
    Uncuttable metadata := by
  intro key value hlookup key' value' htext hne
  obtain ⟨hkey, hvalue⟩ := hzero key value hlookup
  have hchars : key'.toList ++ '\x00' :: value'.toList = key.toList ++ '\x00' :: value.toList := by
    simpa [entryText] using congrArg String.toList htext
  have hcut := (List.append_cons_inj_of_notMem hkey hvalue).mp hchars.symm
  exact absurd (String.toList_inj.mp hcut.1).symm hne

end Metadata

/-- The bytes of a configuration are those of equal ones only, if and only if no entry of its metadata can be cut at
another zero byte without another key in the way. -/
theorem ceremony_commitment_binding_iff (order : IterOrder (String × String)) (config : ValidatorCeremonyConfig) :
    (∀ order' config', ceremonyBytes order config = ceremonyBytes order' config' ↔ Same config config') ↔
      Uncuttable config.metadata := by
  constructor
  · intro hbinds key value hlookup key' value' htext hne
    by_contra hway
    obtain ⟨metadata', hdiffers, htexts⟩ := exists_of_cut order hlookup htext hne
      fun other hmem hbetween => hway ⟨other, hmem, hbetween⟩
    have hsame := (hbinds order { config with metadata := metadata' }).mp
      (ceremonyBytes_iff.mpr ⟨⟨rfl, rfl, rfl, rfl, rfl, rfl⟩, htexts.symm⟩)
    exact hdiffers hsame.metadata
  · intro huncuttable order' config'
    rw [ceremonyBytes_iff]
    constructor
    · rintro ⟨⟨hcount, hthreshold, hprotocol, hsecurity, hrotation, hgap⟩, htexts⟩
      exact ⟨hcount, hthreshold, hprotocol, hsecurity, hrotation, hgap, huncuttable.sameMap htexts⟩
    · intro h
      exact ⟨⟨h.validatorCount, h.threshold, h.protocol, h.security, h.rotationPeriodDays, h.requireAirGap⟩,
        by rw [sortedPairs_iff.mpr h.metadata]⟩

def ceremonyOf (key value : String) : ValidatorCeremonyConfig :=
  { defaultValidatorCeremonyConfig with metadata := AList.insert key value ∅ }

/-- A zero byte in the key of one and in the value of the other. -/
theorem zero_byte_collides : ∃ config config' : ValidatorCeremonyConfig,
    validateValidatorCeremonyConfig config = .ok () ∧ validateValidatorCeremonyConfig config' = .ok () ∧
      ceremonyBytes .stored config = ceremonyBytes .stored config' ∧ ¬ Same config config' := by
  refine ⟨ceremonyOf "a\x00b" "c", ceremonyOf "a" "b\x00c", by decide, by decide, by decide +kernel, fun h => ?_⟩
  exact absurd (h.metadata "a") (by decide)

end ValidatorCeremony
end Eth2077
