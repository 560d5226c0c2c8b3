import Eth2077.Lib.Delimited
import Eth2077.Lib.Entries
import Eth2077.Types.GenesisConfig
import Mathlib.Algebra.GroupWithZero.Nat

/-!
# The genesis allocations (`types/src/genesis_builder.rs`)

The artifact is hashed from one record for each allocation, in the order of the texts. Every record stands behind its
length, but in a record the fields are joined by bars and the metadata by semicolons and equality signs, and nothing is
escaped. So an address or the metadata can hold what looks like the fields of another allocation.
-/

namespace Eth2077
namespace GenesisBuilder
open SortBy

inductive AllocationKind where
  | validatorDeposit
  | faucet
  | treasury
  | bridge
  | preMine
  | contract
deriving DecidableEq

structure GenesisAllocation where
  address : String
  kind : AllocationKind
  amountGwei : UInt64
  isValidator : Bool
  metadata : HashMap String String

structure GenesisBuilderStats where
  totalAllocations : UInt64
  validatorDeposits : UInt64
  totalGwei : UInt64
  uniqueAddresses : UInt64
  signingComplete : Bool
  artifactHash : String

/-! ### Records -/

def isValidatorDeposit (allocation : GenesisAllocation) : Bool :=
  allocation.isValidator ∨ allocation.kind = .validatorDeposit

def normalizeAddress (address : String) : String := asciiLowercase (trimmed address)

def allocationKindName : AllocationKind → String
  | .validatorDeposit => "validator_deposit"
  | .faucet => "faucet"
  | .treasury => "treasury"
  | .bridge => "bridge"
  | .preMine => "premine"
  | .contract => "contract"

/-- The loop of `canonical_metadata_fragment`. -/
def joinPairs : List (String × String) → String
  | [] => ""
  | [(key, value)] => key ++ "=" ++ value
  | (key, value) :: rest => key ++ "=" ++ value ++ ";" ++ joinPairs rest

def canonicalMetadataFragment (order : IterOrder (String × String)) (metadata : HashMap String String) : String :=
  joinPairs (sortedPairs order metadata)

def canonicalAllocationRecord (order : IterOrder (String × String)) (allocation : GenesisAllocation) : String :=
  normalizeAddress allocation.address ++ "|" ++ allocationKindName allocation.kind ++ "|" ++
    toString allocation.amountGwei.toNat ++ "|" ++ (if allocation.isValidator then "1" else "0") ++ "|" ++
    canonicalMetadataFragment order allocation.metadata

theorem fragment_congr {order order' : IterOrder (String × String)} {metadata metadata' : HashMap String String}
    (h : SameMap metadata metadata') :
    canonicalMetadataFragment order metadata = canonicalMetadataFragment order' metadata' :=
  congrArg joinPairs (sortedPairs_iff.mpr h)

theorem canonicalAllocationRecord_order (order order' : IterOrder (String × String)) (allocation : GenesisAllocation) :
    canonicalAllocationRecord order allocation = canonicalAllocationRecord order' allocation := by
  rw [canonicalAllocationRecord, canonicalAllocationRecord]
  exact congrArg _ (fragment_congr fun _ => rfl)

/-- An allocation with its record: the record is a `String`, and no allocation of memory is longer than `isize::MAX`. -/
abbrev RecordedAllocation :=
  { allocation : GenesisAllocation // (asBytes (canonicalAllocationRecord .stored allocation)).length < 2 ^ 63 }

def RecordedAllocation.record (order : IterOrder (String × String)) (allocation : RecordedAllocation) : Text :=
  ⟨canonicalAllocationRecord order allocation.1, by
    rw [canonicalAllocationRecord_order order .stored]
    exact allocation.2⟩

/-! ### The artifact -/

def artifactDomain : List UInt8 := asBytes "eth2077-genesis-builder-artifact-v1"

section Artifact
variable (sha256 : List UInt8 → B256) (configOrder : IterOrder (Text × Text)) (order : IterOrder (String × String))

def canonicalRecords (allocations : List RecordedAllocation) : List Text :=
  sortBy compare (allocations.map (RecordedAllocation.record order))

/-- Everything that is fed to the hasher. -/
def artifactBytes (config : GenesisBuilderConfig) (allocations : List RecordedAllocation) : List UInt8 :=
  artifactDomain ++ (asBytes (computeGenesisBuilderCommitment sha256 configOrder config) ++
    (beBytes 8 (canonicalRecords order allocations).length ++ (canonicalRecords order allocations).flatMap hashText))

def computeGenesisBuilderStats (allocations : List RecordedAllocation) (config : GenesisBuilderConfig) :
    GenesisBuilderStats :=
  let deposits := allocations.filter fun allocation => isValidatorDeposit allocation.1
  { totalAllocations := .ofNat allocations.length
    validatorDeposits := .ofNat deposits.length
    totalGwei := allocations.foldl (fun total allocation => total.saturatingAdd allocation.1.amountGwei) 0
    uniqueAddresses := .ofNat (allocations.map fun allocation => normalizeAddress allocation.1.address).dedup.length
    signingComplete :=
      (validateGenesisBuilderConfig configOrder config).isOk && config.validatorCount ≤ .ofNat deposits.length &&
        deposits.all fun allocation => config.minDepositGwei ≤ allocation.1.amountGwei
    artifactHash := hexEncode (sha256 (artifactBytes sha256 configOrder order config allocations)).toList }

end Artifact

/-! ### Fields of a record -/

/-- The three fields between the address and the metadata. -/
def header (kind : AllocationKind) (amountGwei : UInt64) (isValidator : Bool) : List (List Char) :=
  [(allocationKindName kind).toList, (toString amountGwei.toNat).toList, [if isValidator then '1' else '0']]

def fieldsOf (s : String) : List (List Char) := s.toList.splitOn '|'

def joinFields (fields : List (List Char)) : String := String.ofList (['|'].intercalate fields)

def GenesisAllocation.header (allocation : GenesisAllocation) : List (List Char) :=
  GenesisBuilder.header allocation.kind allocation.amountGwei allocation.isValidator

theorem allocationKindName_injective : Function.Injective allocationKindName := by
  intro a b
  cases a <;> cases b <;> decide

theorem bar_notMem_kind (kind : AllocationKind) : '|' ∉ (allocationKindName kind).toList := by
  cases kind <;> decide

theorem header_injective {kind kind' : AllocationKind} {amount amount' : UInt64} {flag flag' : Bool}
    (h : header kind amount flag = header kind' amount' flag') : kind = kind' ∧ amount = amount' ∧ flag = flag' := by
  simp only [header, List.cons.injEq, and_true] at h
  obtain ⟨hkind, hamount, hflag⟩ := h
  refine ⟨allocationKindName_injective (String.toList_inj.mp hkind), UInt64.toNat_inj.mp (toString_injective hamount), ?_⟩
  revert hflag
  cases flag <;> cases flag' <;> decide

/-- A kind is no number. -/
theorem kind_ne_of_isDigit (kind : AllocationKind) {field : List Char} (h : ∀ c ∈ field, c.isDigit) :
    (allocationKindName kind).toList ≠ field := by
  rintro rfl
  have hletter : ((allocationKindName kind).toList.any fun c => !c.isDigit) = true := by
    cases kind <;> decide
  obtain ⟨c, hc, hdigit⟩ := List.any_eq_true.mp hletter
  rw [h c hc] at hdigit
  cases hdigit

theorem fieldsOf_record (order : IterOrder (String × String)) (a : GenesisAllocation) :
    fieldsOf (canonicalAllocationRecord order a) = fieldsOf (normalizeAddress a.address) ++
      (a.header ++ fieldsOf (canonicalMetadataFragment order a.metadata)) := by
  have hamount : '|' ∉ (toString a.amountGwei.toNat).toList := fun h => absurd (isDigit_of_mem_toString h) (by decide)
  have hflag : (if a.isValidator then "1" else "0").toList = [if a.isValidator then '1' else '0'] := by
    cases a.isValidator <;> rfl
  have hbar : '|' ∉ [if a.isValidator then '1' else '0'] := by
    cases a.isValidator <;> decide
  have htext : (canonicalAllocationRecord order a).toList = (normalizeAddress a.address).toList ++ '|' ::
      ((allocationKindName a.kind).toList ++ '|' :: ((toString a.amountGwei.toNat).toList ++ '|' ::
        ([if a.isValidator then '1' else '0'] ++ '|' :: (canonicalMetadataFragment order a.metadata).toList))) := by
    simp [canonicalAllocationRecord, ← hflag]
  rw [fieldsOf, htext, List.splitOn_append_cons_self, List.splitOn_append_cons_self, List.splitOn_append_cons_self,
    List.splitOn_append_cons_self, List.splitOn_eq_singleton (bar_notMem_kind a.kind), List.splitOn_eq_singleton hamount,
    List.splitOn_eq_singleton hbar]
  rfl

theorem fieldsOf_injective : Function.Injective fieldsOf := fun _ _ h =>
  String.toList_inj.mp (Delimited.splitOn_injective h)

theorem fieldsOf_ne_nil (s : String) : fieldsOf s ≠ [] := List.splitOn_ne_nil _ _

theorem bar_notMem_field {s : String} {field : List Char} (h : field ∈ fieldsOf s) : '|' ∉ field :=
  Delimited.notMem_of_mem_splitOn h

theorem joinFields_fieldsOf (s : String) : joinFields (fieldsOf s) = s := by
  rw [joinFields, fieldsOf, List.intercalate_splitOn, String.ofList_toList]

theorem fieldsOf_joinFields {fields : List (List Char)} (hne : fields ≠ []) (hbar : ∀ field ∈ fields, '|' ∉ field) :
    fieldsOf (joinFields fields) = fields := by
  rw [fieldsOf, joinFields, String.toList_ofList, List.splitOn_intercalate '|' hbar hne]

section Headers
variable {before after before' after' : List (List Char)} {kind kind' : AllocationKind} {amount amount' : UInt64}
  {flag flag' : Bool}

/-- No header begins inside another, since no kind is a number or a flag. -/
theorem header_append_cases {skipped : List (List Char)}
    (h : header kind amount flag ++ after = skipped ++ (header kind' amount' flag' ++ after')) :
    skipped = [] ∨
      ∃ mid, skipped = header kind amount flag ++ mid ∧ after = mid ++ (header kind' amount' flag' ++ after') := by
  have hflag : ∀ c ∈ [if flag then '1' else '0'], c.isDigit := by
    intro c hc
    obtain rfl := List.mem_singleton.mp hc
    cases flag <;> decide
  simp only [header, List.cons_append, List.nil_append] at h
  cases skipped with
  | nil => exact .inl rfl
  | cons x skipped =>
    obtain ⟨rfl, hamount⟩ := List.cons.inj h
    cases skipped with
    | nil => exact absurd (List.cons.inj hamount).1.symm (kind_ne_of_isDigit kind' fun c hc => isDigit_of_mem_toString hc)
    | cons y skipped =>
      obtain ⟨rfl, hbit⟩ := List.cons.inj hamount
      cases skipped with
      | nil => exact absurd (List.cons.inj hbit).1.symm (kind_ne_of_isDigit kind' hflag)
      | cons z mid =>
        obtain ⟨rfl, hafter⟩ := List.cons.inj hbit
        exact .inr ⟨mid, rfl, hafter⟩

/-- Of two headers in one list of fields, if they are not the same, one is behind the other. -/
theorem header_cases
    (h : before ++ (header kind amount flag ++ after) = before' ++ (header kind' amount' flag' ++ after')) :
    (before = before' ∧ header kind amount flag = header kind' amount' flag' ∧ after = after') ∨
      (∃ mid, before' = before ++ (header kind amount flag ++ mid) ∧
        after = mid ++ (header kind' amount' flag' ++ after')) ∨
      ∃ mid, before = before' ++ (header kind' amount' flag' ++ mid) ∧
        after' = mid ++ (header kind amount flag ++ after) := by
  have hsame : header kind amount flag ++ after = header kind' amount' flag' ++ after' →
      header kind amount flag = header kind' amount' flag' ∧ after = after' := fun h => List.append_inj h rfl
  rcases List.append_eq_append_iff.mp h with ⟨skipped, hbefore, hrest⟩ | ⟨skipped, hbefore, hrest⟩
  · rcases header_append_cases hrest with rfl | ⟨mid, rfl, hafter⟩
    · exact .inl ⟨by simpa using hbefore.symm, hsame hrest⟩
    · exact .inr (.inl ⟨mid, hbefore, hafter⟩)
  · rcases header_append_cases hrest with rfl | ⟨mid, rfl, hafter⟩
    · exact .inl ⟨by simpa using hbefore, hsame hrest.symm⟩
    · exact .inr (.inr ⟨mid, hbefore, hafter⟩)

end Headers

/-! ### Metadata -/

/-- An entry that has no equality sign and no other entry beside it. -/
def SingleEntry (metadata : HashMap String String) : Prop :=
  ∀ key value, metadata.lookup key = some value →
    '=' ∉ key.toList ∧ '=' ∉ value.toList ∧ ∀ other ∈ metadata, other = key

/-- The equality signs of entries. -/
def signs (pairs : List (String × String)) : ℕ :=
  (pairs.map fun entry => entry.1.toList.count '=' + entry.2.toList.count '=' + 1).sum

theorem count_joinPairs (pairs : List (String × String)) : (joinPairs pairs).toList.count '=' = signs pairs := by
  induction pairs with
  | nil => rfl
  | cons entry rest ih =>
    obtain ⟨key, value⟩ := entry
    cases rest with
    | nil =>
      simp [joinPairs, signs]
      omega
    | cons entry' rest =>
      have hjoin : joinPairs ((key, value) :: entry' :: rest) =
          key ++ "=" ++ value ++ ";" ++ joinPairs (entry' :: rest) := rfl
      rw [hjoin, signs, List.map_cons, List.sum_cons]
      simp only [String.toList_append, List.count_append, ih, signs]
      simp
      omega

theorem eq_nil_of_signs {pairs : List (String × String)} (h : signs pairs = 0) : pairs = [] := by
  cases pairs with
  | nil => rfl
  | cons entry rest =>
    rw [signs, List.map_cons, List.sum_cons] at h
    omega

theorem joinPairs_cons (key value : String) (rest : List (String × String)) :
    ∃ t, joinPairs ((key, value) :: rest) = key ++ "=" ++ t := by
  cases rest with
  | nil => exact ⟨value, rfl⟩
  | cons entry rest => exact ⟨value ++ ";" ++ joinPairs (entry :: rest), by simp [joinPairs, String.append_assoc]⟩

def single (key value : String) : HashMap String String := ofPairs [(key, value)] (List.nodup_singleton key)

theorem lookup_single {key value key' value' : String} :
    (single key value).lookup key' = some value' ↔ key' = key ∧ value' = value := by
  have hmem : (key', value') ∈ traverse .stored (single key value) ↔
      (single key value).lookup key' = some value' := mem_traverse
  rw [← hmem]
  simp [single, ofPairs, traverse, IterOrder.stored]

/-- An equality sign and no other: there is one entry. -/
theorem eq_of_joinPairs {pairs : List (String × String)} {key value : String} (hkey : '=' ∉ key.toList)
    (hvalue : '=' ∉ value.toList) (h : joinPairs pairs = key ++ "=" ++ value) : pairs = [(key, value)] := by
  have hsigns : signs pairs = 1 := by
    rw [← count_joinPairs, h]
    simp [List.count_eq_zero_of_not_mem hkey, List.count_eq_zero_of_not_mem hvalue]
  cases pairs with
  | nil => cases hsigns
  | cons entry rest =>
    obtain ⟨key', value'⟩ := entry
    rw [signs, List.map_cons, List.sum_cons] at hsigns
    have hrest : rest = [] := eq_nil_of_signs (show signs rest = 0 by rw [signs]; omega)
    subst hrest
    have hchars : key'.toList ++ '=' :: value'.toList = key.toList ++ '=' :: value.toList := by
      simpa [joinPairs] using congrArg String.toList h
    obtain ⟨hkeys, -, hvalues⟩ := (List.append_cons_inj_of_notMem hkey hvalue).mp hchars.symm
    rw [String.toList_inj.mp hkeys, String.toList_inj.mp hvalues]

section Fragment
variable {order : IterOrder (String × String)} {metadata metadata' : HashMap String String}

theorem sortedPairs_eq_nil_iff : sortedPairs order metadata = [] ↔ ∀ key, key ∉ metadata := by
  rw [List.eq_nil_iff_forall_not_mem]
  constructor
  · intro h key hkey
    obtain ⟨value, hvalue⟩ := mem_iff_exists_lookup.mp hkey
    exact h (key, value) (mem_sortedPairs.mpr hvalue)
  · intro h entry hentry
    exact h entry.1 (mem_iff_exists_lookup.mpr ⟨_, mem_sortedPairs.mp hentry⟩)

theorem sign_mem_fragment_iff : '=' ∈ (canonicalMetadataFragment order metadata).toList ↔ ∃ key, key ∈ metadata := by
  rw [← List.count_pos_iff, canonicalMetadataFragment, count_joinPairs, Nat.pos_iff_ne_zero, ← not_iff_not, not_not,
    not_exists, ← @sortedPairs_eq_nil_iff order]
  exact ⟨eq_nil_of_signs, fun h => by rw [h]; rfl⟩

theorem fragment_eq_empty (h : ∀ key, key ∉ metadata) : canonicalMetadataFragment order metadata = "" := by
  rw [canonicalMetadataFragment, sortedPairs_eq_nil_iff.mpr h]
  rfl

theorem sortedPairs_single (key value : String) : sortedPairs order (single key value) = [(key, value)] :=
  sortedPairs_ofPairs (List.pairwise_singleton _ _) order

theorem fragment_single (key value : String) :
    canonicalMetadataFragment order (single key value) = key ++ "=" ++ value := by
  rw [canonicalMetadataFragment, sortedPairs_single]
  rfl

theorem SingleEntry.same (h : SingleEntry metadata) {key value : String} (hvalue : metadata.lookup key = some value) :
    SameMap metadata (single key value) := by
  intro other
  refine Option.ext fun value' => ?_
  rw [lookup_single]
  constructor
  · intro hother
    obtain rfl := (h key value hvalue).2.2 other (mem_iff_exists_lookup.mpr ⟨_, hother⟩)
    exact ⟨rfl, Option.some.inj (hother.symm.trans hvalue)⟩
  · rintro ⟨rfl, rfl⟩
    exact hvalue

/-- The text of a single entry. -/
theorem SingleEntry.fragment (h : SingleEntry metadata) {key value : String} (hvalue : metadata.lookup key = some value) :
    canonicalMetadataFragment order metadata = key ++ "=" ++ value :=
  (fragment_congr (h.same hvalue)).trans (@fragment_single order key value)

theorem SingleEntry.same_of_fragment (h : SingleEntry metadata)
    (heq : canonicalMetadataFragment order metadata' = canonicalMetadataFragment order metadata) :
    SameMap metadata metadata' := by
  refine sortedPairs_iff.mp (show sortedPairs order metadata = sortedPairs order metadata' from ?_)
  by_cases hsome : ∃ key, key ∈ metadata
  · obtain ⟨key, hkey⟩ := hsome
    obtain ⟨value, hvalue⟩ := mem_iff_exists_lookup.mp hkey
    obtain ⟨hkey, hsign, -⟩ := h key value hvalue
    rw [h.fragment hvalue] at heq
    rw [sortedPairs_iff.mpr (h.same hvalue), @sortedPairs_single order, eq_of_joinPairs hkey hsign heq]
  · rw [fragment_eq_empty (not_exists.mp hsome)] at heq
    rw [sortedPairs_eq_nil_iff.mpr (not_exists.mp hsome)]
    refine (eq_nil_of_signs ?_).symm
    rw [← count_joinPairs]
    exact congrArg (fun s => s.toList.count '=') heq

theorem singleEntry_of_fragment
    (h : ∀ metadata', canonicalMetadataFragment order metadata' = canonicalMetadataFragment order metadata →
      SameMap metadata metadata') : SingleEntry metadata := by
  intro key value hlookup
  have hmem : (key, value) ∈ sortedPairs order metadata := mem_sortedPairs.mpr hlookup
  obtain ⟨⟨first, value'⟩, rest, hpairs⟩ := List.exists_cons_of_ne_nil (List.ne_nil_of_mem hmem)
  obtain ⟨t, ht⟩ := joinPairs_cons first value' rest
  have hfragment : canonicalMetadataFragment order metadata = first ++ "=" ++ t := by
    rw [canonicalMetadataFragment, hpairs, ht]
  -- whatever can be read from the text is in the map
  have hread : ∀ key' value', key' ++ "=" ++ value' = first ++ "=" ++ t → SameMap metadata (single key' value') :=
    fun key' value' heq => h _ (by rw [fragment_single, hfragment, heq])
  have hfirst := hread first t rfl
  have hkey := hlookup
  rw [hfirst key, lookup_single] at hkey
  obtain ⟨rfl, rfl⟩ := hkey
  refine ⟨fun hsign => ?_, fun hsign => ?_, fun other hother => ?_⟩
  · obtain ⟨x, y, hxy⟩ := List.append_of_mem hsign
    have hcut := hread (String.ofList x) (String.ofList y ++ "=" ++ value) (by
      rw [← String.toList_inj]
      simp [hxy])
    rw [hcut key, lookup_single] at hlookup
    have hlen := congrArg (fun s => s.toList.length) hlookup.1
    simp only [hxy, String.toList_ofList, List.length_append, List.length_cons] at hlen
    omega
  · obtain ⟨x, y, hxy⟩ := List.append_of_mem hsign
    have hcut := hread (key ++ "=" ++ String.ofList x) (String.ofList y) (by
      rw [← String.toList_inj]
      simp [hxy])
    rw [hcut key, lookup_single] at hlookup
    have hlen := congrArg (fun s => s.toList.length) hlookup.1
    simp only [String.toList_append, List.length_append] at hlen
    have hone : "=".toList.length = 1 := rfl
    omega
  · obtain ⟨value', hvalue'⟩ := mem_iff_exists_lookup.mp hother
    rw [hfirst other, lookup_single] at hvalue'
    exact hvalue'.1

end Fragment

/-! ### Readings -/

/-- Some field has an equality sign. -/
def HasSign (fields : List (List Char)) : Prop := ∃ field ∈ fields, '=' ∈ field

/-- The fields are those of a normalised address. -/
def IsNormalized (fields : List (List Char)) : Prop := normalizeAddress (joinFields fields) = joinFields fields

theorem hasSign_append {fields fields' : List (List Char)} :
    HasSign (fields ++ fields') ↔ HasSign fields ∨ HasSign fields' := by
  simp only [HasSign, List.mem_append, or_and_right, exists_or]

theorem hasSign_fieldsOf {s : String} : HasSign (fieldsOf s) ↔ '=' ∈ s.toList :=
  (Delimited.mem_iff_exists_field (by decide)).symm

theorem not_hasSign_header (kind : AllocationKind) (amount : UInt64) (flag : Bool) :
    ¬ HasSign (header kind amount flag) := by
  rintro ⟨field, hfield, hsign⟩
  simp only [header, List.mem_cons, List.not_mem_nil, or_false] at hfield
  rcases hfield with rfl | rfl | rfl
  · revert hsign
    cases kind <;> decide
  · exact absurd (isDigit_of_mem_toString hsign) (by decide)
  · revert hsign
    cases flag <;> decide

theorem normalizeAddress_normalizeAddress (address : String) :
    normalizeAddress (normalizeAddress address) = normalizeAddress address := by
  have hidem : Char.toLower ∘ Char.toLower = Char.toLower := funext toLower_toLower
  simp only [normalizeAddress, trimmed, asciiLowercase, String.toList_ofList, trim_map_toLower, trim_trim, List.map_map,
    hidem]

theorem isNormalized_address (a : GenesisAllocation) : IsNormalized (fieldsOf (normalizeAddress a.address)) := by
  rw [IsNormalized, joinFields_fieldsOf, normalizeAddress_normalizeAddress]

section Fragment
variable {order : IterOrder (String × String)} {metadata : HashMap String String}

theorem fieldsOf_fragment : fieldsOf (canonicalMetadataFragment order metadata) = [[]] ∨
    HasSign (fieldsOf (canonicalMetadataFragment order metadata)) := by
  by_cases h : ∃ key, key ∈ metadata
  · exact .inr (hasSign_fieldsOf.mpr (sign_mem_fragment_iff.mpr h))
  · rw [fragment_eq_empty (not_exists.mp h)]
    exact .inl rfl

/-- A text without an equality sign is that of no map but the empty one, and with one it is that of some map. -/
theorem exists_metadata {text : String} (h : text = "" ∨ '=' ∈ text.toList) :
    ∃ metadata, ∀ order, canonicalMetadataFragment order metadata = text := by
  rcases h with rfl | h
  · exact ⟨∅, fun order => fragment_eq_empty fun key => AList.notMem_empty key⟩
  · obtain ⟨key, value, htext⟩ := List.append_of_mem h
    refine ⟨single (String.ofList key) (String.ofList value), fun order => ?_⟩
    rw [fragment_single, ← String.toList_inj, htext]
    simp

end Fragment

/-- The same allocation, up to the normalisation of the address. -/
structure GenesisAllocation.Same (a b : GenesisAllocation) : Prop where
  address : normalizeAddress a.address = normalizeAddress b.address
  kind : a.kind = b.kind
  amountGwei : a.amountGwei = b.amountGwei
  isValidator : a.isValidator = b.isValidator
  metadata : SameMap a.metadata b.metadata

theorem GenesisAllocation.Same.record {a b : GenesisAllocation} {order order' : IterOrder (String × String)}
    (h : a.Same b) :
    canonicalAllocationRecord order a = canonicalAllocationRecord order' b := by
  rw [canonicalAllocationRecord, canonicalAllocationRecord, h.address, h.kind, h.amountGwei, h.isValidator,
    fragment_congr h.metadata]

/-- Nothing in the address or in the metadata looks like the fields of another allocation. -/
structure GenesisAllocation.Unambiguous (a : GenesisAllocation) : Prop where
  metadata : SingleEntry a.metadata
  address : ∀ before kind amount flag after,
    fieldsOf (normalizeAddress a.address) = before ++ (GenesisBuilder.header kind amount flag ++ after) → before ≠ [] →
      IsNormalized before → (∀ key, key ∉ a.metadata) ∧ ¬ HasSign after
  entry : ∀ key value, a.metadata.lookup key = some value → ∀ before kind amount flag after,
    fieldsOf (key ++ "=" ++ value) = before ++ (GenesisBuilder.header kind amount flag ++ after) → after ≠ [] →
      IsNormalized (fieldsOf (normalizeAddress a.address) ++ (a.header ++ before)) → after ≠ [[]] ∧ ¬ HasSign after

/-- Fields that can be an address and metadata are those of an allocation. -/
theorem exists_reading {before after : List (List Char)} (hne : before ≠ []) (hne' : after ≠ [])
    (hbar : ∀ field ∈ before, '|' ∉ field) (hbar' : ∀ field ∈ after, '|' ∉ field) (hbefore : IsNormalized before)
    (hafter : after = [[]] ∨ HasSign after) (kind : AllocationKind) (amount : UInt64) (flag : Bool) :
    ∃ b : GenesisAllocation, fieldsOf (normalizeAddress b.address) = before ∧
      ∀ order, fieldsOf (canonicalAllocationRecord order b) = before ++ (header kind amount flag ++ after) := by
  have hfields := fieldsOf_joinFields hne' hbar'
  have htext : joinFields after = "" ∨ '=' ∈ (joinFields after).toList := by
    rcases hafter with rfl | hsign
    · exact .inl rfl
    · exact .inr (hasSign_fieldsOf.mp (hfields.symm ▸ hsign))
  obtain ⟨metadata, hmetadata⟩ := exists_metadata htext
  have haddress : fieldsOf (normalizeAddress (joinFields before)) = before := by
    rw [hbefore, fieldsOf_joinFields hne hbar]
  refine ⟨⟨joinFields before, kind, amount, flag, metadata⟩, haddress, fun order => ?_⟩
  rw [fieldsOf_record, hmetadata, hfields, haddress]
  rfl

/-- A header has three fields. -/
theorem append_header_ne_singleton {before after : List (List Char)} {kind : AllocationKind} {amount : UInt64}
    {flag : Bool} {field : List Char} : before ++ (header kind amount flag ++ after) ≠ [field] := by
  intro h
  have hlen := congrArg List.length h
  simp only [header, List.length_append, List.length_cons, List.length_nil] at hlen
  omega

theorem ne_append_header {before after : List (List Char)} {kind : AllocationKind} {amount : UInt64} {flag : Bool} :
    before ≠ before ++ (header kind amount flag ++ after) := by
  intro h
  exact List.cons_ne_nil _ _ (List.self_eq_append_right.mp h)

section Unambiguous
variable {order : IterOrder (String × String)} {a b : GenesisAllocation}

/-- The record of an unambiguous allocation is that of no other. -/
theorem GenesisAllocation.Unambiguous.same {order' : IterOrder (String × String)} (h : a.Unambiguous)
    (hrecord : canonicalAllocationRecord order a = canonicalAllocationRecord order' b) : a.Same b := by
  have hfields := congrArg fieldsOf hrecord
  rw [fieldsOf_record, fieldsOf_record] at hfields
  rcases header_cases hfields with ⟨haddress, hheader, hmetadata⟩ | ⟨mid, hbefore, hafter⟩ | ⟨mid, hbefore, hafter⟩
  · obtain ⟨hkind, hamount, hflag⟩ := header_injective hheader
    refine ⟨fieldsOf_injective haddress, hkind, hamount, hflag, ?_⟩
    have htext : canonicalMetadataFragment order b.metadata = canonicalMetadataFragment order a.metadata :=
      (fragment_congr fun _ => rfl).trans (fieldsOf_injective hmetadata).symm
    exact h.metadata.same_of_fragment htext
  · -- the other header is in the metadata
    obtain ⟨key, hkey⟩ : ∃ key, key ∈ a.metadata := by
      by_contra hnone
      rw [fragment_eq_empty (not_exists.mp hnone)] at hafter
      exact append_header_ne_singleton hafter.symm
    obtain ⟨value, hvalue⟩ := mem_iff_exists_lookup.mp hkey
    rw [h.metadata.fragment hvalue] at hafter
    obtain ⟨hne, hnosign⟩ := h.entry key value hvalue mid _ _ _ _ hafter (fieldsOf_ne_nil _)
      (hbefore ▸ isNormalized_address b)
    rcases fieldsOf_fragment with hempty | hsign
    · exact absurd hempty hne
    · exact absurd hsign hnosign
  · -- the other header is in the address
    obtain ⟨hempty, hnosign⟩ := h.address _ _ _ _ mid hbefore (fieldsOf_ne_nil _) (isNormalized_address b)
    rw [fragment_eq_empty hempty] at hafter
    rcases fieldsOf_fragment with hnone | hsign
    · exact absurd (hafter.symm.trans hnone) append_header_ne_singleton
    · rw [hafter, hasSign_append, hasSign_append] at hsign
      rcases hsign with hsign | hsign | hsign
      · exact absurd hsign hnosign
      · exact absurd hsign (not_hasSign_header _ _ _)
      · exact absurd (hasSign_fieldsOf.mp hsign) (by decide)

/-- If no other allocation has the record, nothing looks like the fields of another. -/
theorem unambiguous_of_record
    (h : ∀ b, canonicalAllocationRecord order b = canonicalAllocationRecord order a → a.Same b) : a.Unambiguous := by
  -- no other header can be read in the record
  have hread : ∀ {before kind amount flag after}, fieldsOf (canonicalAllocationRecord order a) =
      before ++ (header kind amount flag ++ after) → before ≠ [] → after ≠ [] → IsNormalized before →
        after = [[]] ∨ HasSign after → before = fieldsOf (normalizeAddress a.address) := by
    intro before kind amount flag after hfields hne hne' hbefore hafter
    have hbar : ∀ field ∈ before ++ (header kind amount flag ++ after), '|' ∉ field :=
      fun field hfield => bar_notMem_field (hfields ▸ hfield)
    obtain ⟨b, haddress, hrecord⟩ := exists_reading hne hne' (fun field hfield => hbar field (by simp [hfield]))
      (fun field hfield => hbar field (by simp [hfield])) hbefore hafter kind amount flag
    have hsame := h b (fieldsOf_injective ((hrecord order).trans hfields.symm))
    rw [hsame.address, haddress]
  have hsingle : SingleEntry a.metadata := by
    refine @singleEntry_of_fragment order a.metadata fun metadata' hmetadata => ?_
    exact (h { a with metadata := metadata' } (by rw [canonicalAllocationRecord, hmetadata]; rfl)).metadata
  have hrecord := fieldsOf_record order a
  refine ⟨hsingle, ?_, ?_⟩
  · intro before kind amount flag after hfields hne hbefore
    by_contra hnot
    have hsign : HasSign (after ++ (a.header ++ fieldsOf (canonicalMetadataFragment order a.metadata))) := by
      rw [hasSign_append, hasSign_append, hasSign_fieldsOf, sign_mem_fragment_iff]
      by_cases hsome : ∃ key, key ∈ a.metadata
      · exact .inr (.inr hsome)
      · exact .inl (not_not.mp fun hnosign => hnot ⟨not_exists.mp hsome, hnosign⟩)
    rw [hfields, List.append_assoc, List.append_assoc] at hrecord
    have hsame := hread hrecord hne (List.append_ne_nil_of_right_ne_nil _ (List.cons_ne_nil _ _)) hbefore (.inr hsign)
    exact ne_append_header (hsame.trans hfields)
  · intro key value hvalue before kind amount flag after hfields hne hbefore
    by_contra hnot
    have hafter : after = [[]] ∨ HasSign after := by
      by_cases hnone : after = [[]]
      · exact .inl hnone
      · exact .inr (not_not.mp fun hnosign => hnot ⟨hnone, hnosign⟩)
    rw [hsingle.fragment hvalue, hfields, ← List.append_assoc, ← List.append_assoc, List.append_assoc _ _ before]
      at hrecord
    have hsame := hread hrecord (List.append_ne_nil_of_left_ne_nil (fieldsOf_ne_nil _) _) hne hbefore hafter
    exact ne_append_header hsame.symm

end Unambiguous

/-! ### Plain metadata -/

/-- No bar, no equality sign in a key and no semicolon in a value: the text is read from the front. -/
def PlainMetadata (metadata : HashMap String String) : Prop :=
  ∀ key value, metadata.lookup key = some value →
    ('|' ∉ key.toList ∧ '=' ∉ key.toList) ∧ '|' ∉ value.toList ∧ ';' ∉ value.toList

theorem joinPairs_text {pairs : List (String × String)} (hne : pairs ≠ []) :
    (joinPairs pairs).toList ++ [';'] = Entries.text '=' ';' (pairs.map fun entry => (entry.1.toList, entry.2.toList)) := by
  induction pairs with
  | nil => exact absurd rfl hne
  | cons entry rest ih =>
    obtain ⟨key, value⟩ := entry
    cases rest with
    | nil => simp [joinPairs, Entries.text, Entries.line]
    | cons entry' rest =>
      have hjoin : joinPairs ((key, value) :: entry' :: rest) =
          key ++ "=" ++ value ++ ";" ++ joinPairs (entry' :: rest) := rfl
      rw [hjoin, List.map_cons, Entries.text, List.flatMap_cons, ← Entries.text, ← ih (List.cons_ne_nil _ _)]
      simp [Entries.line]

theorem mem_joinPairs {pairs : List (String × String)} {c : Char} (hc : c ∈ (joinPairs pairs).toList) :
    c = '=' ∨ c = ';' ∨ ∃ entry ∈ pairs, c ∈ entry.1.toList ∨ c ∈ entry.2.toList := by
  cases pairs with
  | nil => cases hc
  | cons entry rest =>
    have hc := List.mem_append_left [';'] hc
    rw [joinPairs_text (List.cons_ne_nil _ _)] at hc
    obtain ⟨_, hline, hc⟩ := List.mem_flatMap.mp hc
    obtain ⟨entry', hentry, rfl⟩ := List.mem_map.mp hline
    simp only [Entries.line, List.mem_append, List.mem_cons, List.not_mem_nil, or_false] at hc
    rcases hc with hc | rfl | hc | rfl
    · exact .inr (.inr ⟨entry', hentry, .inl hc⟩)
    · exact .inl rfl
    · exact .inr (.inr ⟨entry', hentry, .inr hc⟩)
    · exact .inr (.inl rfl)

section Plain
variable {order order' : IterOrder (String × String)} {metadata metadata' : HashMap String String}

theorem PlainMetadata.bar_notMem (h : PlainMetadata metadata) :
    '|' ∉ (canonicalMetadataFragment order metadata).toList := by
  intro hbar
  rcases mem_joinPairs hbar with hsign | hstop | ⟨entry, hentry, hmem⟩
  · exact absurd hsign (by decide)
  · exact absurd hstop (by decide)
  · obtain ⟨⟨hkey, -⟩, hvalue, -⟩ := h entry.1 entry.2 (mem_sortedPairs.mp hentry)
    exact hmem.elim hkey hvalue

theorem PlainMetadata.entries (h : PlainMetadata metadata) :
    ∀ entry ∈ (sortedPairs order metadata).map (fun entry => (entry.1.toList, entry.2.toList)),
      '=' ∉ entry.1 ∧ ';' ∉ entry.2 := by
  intro _ hmem
  obtain ⟨entry, hentry, rfl⟩ := List.mem_map.mp hmem
  obtain ⟨⟨-, hkey⟩, -, hvalue⟩ := h entry.1 entry.2 (mem_sortedPairs.mp hentry)
  exact ⟨hkey, hvalue⟩

theorem PlainMetadata.same_of_fragment (h : PlainMetadata metadata) (h' : PlainMetadata metadata')
    (heq : canonicalMetadataFragment order metadata = canonicalMetadataFragment order metadata') :
    SameMap metadata metadata' := by
  refine sortedPairs_iff.mp (show sortedPairs order metadata = sortedPairs order metadata' from ?_)
  have hsigns : signs (sortedPairs order metadata) = signs (sortedPairs order metadata') := by
    rw [← count_joinPairs, ← count_joinPairs]
    exact congrArg (fun s => s.toList.count '=') heq
  by_cases hnil : sortedPairs order metadata = []
  · rw [hnil] at hsigns ⊢
    exact (eq_nil_of_signs hsigns.symm).symm
  · have hnil' : sortedPairs order metadata' ≠ [] := by
      intro hnil'
      rw [hnil'] at hsigns
      exact hnil (eq_nil_of_signs hsigns)
    have htext := congrArg (fun s => s.toList ++ [';']) heq
    simp only [canonicalMetadataFragment, joinPairs_text hnil, joinPairs_text hnil'] at htext
    have hpairs := Entries.eq_of_text_eq h.entries h'.entries htext
    refine List.map_injective_iff.mpr (fun x y hxy => ?_) hpairs
    obtain ⟨hkey, hvalue⟩ := Prod.mk.inj hxy
    exact Prod.ext (String.toList_inj.mp hkey) (String.toList_inj.mp hvalue)

/-- The header stands before the last field, so nothing in the address can be taken for it. -/
theorem same_of_record {a b : GenesisAllocation} (ha : PlainMetadata a.metadata) (hb : PlainMetadata b.metadata)
    (hrecord : canonicalAllocationRecord order a = canonicalAllocationRecord order' b) : a.Same b := by
  rw [canonicalAllocationRecord_order order' order] at hrecord
  have hfields := congrArg fieldsOf hrecord
  have hlast {metadata : HashMap String String} (h : PlainMetadata metadata) :
      fieldsOf (canonicalMetadataFragment order metadata) = [(canonicalMetadataFragment order metadata).toList] :=
    List.splitOn_eq_singleton h.bar_notMem
  rw [fieldsOf_record, fieldsOf_record, hlast ha, hlast hb] at hfields
  rcases header_cases hfields with ⟨haddress, hheader, hmetadata⟩ | ⟨mid, -, hafter⟩ | ⟨mid, -, hafter⟩
  · obtain ⟨hkind, hamount, hflag⟩ := header_injective hheader
    have htext := String.toList_inj.mp (List.cons.inj hmetadata).1
    exact ⟨fieldsOf_injective haddress, hkind, hamount, hflag, ha.same_of_fragment hb htext⟩
  · exact absurd hafter.symm append_header_ne_singleton
  · exact absurd hafter.symm append_header_ne_singleton

end Plain

/-! ### The artifact -/

/-- What an allocation says. -/
def GenesisAllocation.content (a : GenesisAllocation) :
    String × AllocationKind × UInt64 × Bool × List (String × String) :=
  (normalizeAddress a.address, a.kind, a.amountGwei, a.isValidator, sortedPairs .stored a.metadata)

theorem GenesisAllocation.content_eq_iff {a b : GenesisAllocation} : a.content = b.content ↔ a.Same b := by
  simp only [content, Prod.mk.injEq, sortedPairs_iff]
  constructor
  · rintro ⟨haddress, hkind, hamount, hvalidator, hmetadata⟩
    exact ⟨haddress, hkind, hamount, hvalidator, hmetadata⟩
  · rintro ⟨haddress, hkind, hamount, hvalidator, hmetadata⟩
    exact ⟨haddress, hkind, hamount, hvalidator, hmetadata⟩

/-- The same allocations in any order. -/
def SameAllocations (allocations allocations' : List RecordedAllocation) : Prop :=
  ∃ reordered, allocations.Perm reordered ∧ List.Forall₂ (fun a b => a.1.Same b.1) reordered allocations'

theorem sameAllocations_iff {allocations allocations' : List RecordedAllocation} :
    SameAllocations allocations allocations' ↔
      (allocations.map fun a => a.1.content).Perm (allocations'.map fun a => a.1.content) := by
  rw [perm_map_iff]
  simp only [GenesisAllocation.content_eq_iff, SameAllocations]

section Artifact
variable {sha256 : List UInt8 → B256} {configOrder : IterOrder (Text × Text)} {order order' : IterOrder (String × String)}
  {config : GenesisBuilderConfig} {allocations allocations' : List RecordedAllocation}

theorem hashText_ne_nil (text : Text) : hashText text ≠ [] := by
  intro h
  have hlen := congrArg List.length h
  simp [hashText, hashLenPrefixedBytes] at hlen

/-- The bytes are the records, in any order. -/
theorem artifactBytes_eq_iff : artifactBytes sha256 configOrder order config allocations =
    artifactBytes sha256 configOrder order' config allocations' ↔
      (allocations.map (RecordedAllocation.record order)).Perm (allocations'.map (RecordedAllocation.record order')) := by
  constructor
  · intro h
    have hrecords := List.append_cancel_left (List.append_cancel_left h)
    obtain ⟨-, hrecords⟩ := List.append_inj hrecords (by rw [length_beBytes, length_beBytes])
    exact perm_of_sortBy_eq (isPrefixCode_hashText.flatMap_injective hashText_ne_nil hrecords)
  · intro h
    have hrecords : canonicalRecords order allocations = canonicalRecords order' allocations' := sortBy_eq_iff.mpr h
    rw [artifactBytes, artifactBytes, hrecords]

/-- The artifact tells two lists apart as far as the records of their allocations do. -/
theorem artifactBytes_iff_of_record
    (h : ∀ a ∈ allocations, ∀ b ∈ allocations', a.record order = b.record order → a.1.Same b.1) :
    artifactBytes sha256 configOrder order config allocations =
      artifactBytes sha256 configOrder order' config allocations' ↔ SameAllocations allocations allocations' := by
  have horder : RecordedAllocation.record order' = RecordedAllocation.record order :=
    funext fun a => Subtype.ext (canonicalAllocationRecord_order order' order a.1)
  rw [artifactBytes_eq_iff, horder, perm_map_iff]
  refine exists_congr fun reordered => and_congr_right fun hperm => ?_
  refine forall₂_congr_mem fun a ha b hb => ?_
  constructor
  · exact h a (hperm.mem_iff.mpr ha) b hb
  · intro hsame
    exact Subtype.ext hsame.record

/-- The artifact commits to a list of allocations, if and only if each of them is unambiguous. Of two lists with plain
metadata it commits to both. -/
theorem artifact_commits_iff (sha256 : List UInt8 → B256) (configOrder : IterOrder (Text × Text))
    (order : IterOrder (String × String)) (config : GenesisBuilderConfig) (allocations : List RecordedAllocation) :
    ((∀ order' allocations', artifactBytes sha256 configOrder order config allocations =
        artifactBytes sha256 configOrder order' config allocations' ↔ SameAllocations allocations allocations') ↔
      ∀ a ∈ allocations, a.1.Unambiguous) ∧
    ∀ order' allocations', (∀ a ∈ allocations ++ allocations', PlainMetadata a.1.metadata) →
      (artifactBytes sha256 configOrder order config allocations =
        artifactBytes sha256 configOrder order' config allocations' ↔ SameAllocations allocations allocations') := by
  refine ⟨⟨?_, ?_⟩, ?_⟩
  · intro h a ha
    obtain ⟨pre, post, rfl⟩ := List.append_of_mem ha
    refine @unambiguous_of_record order a.1 fun b hb => ?_
    let twin : RecordedAllocation := ⟨b, by
      rw [canonicalAllocationRecord_order .stored order, hb, canonicalAllocationRecord_order order .stored]
      exact a.2⟩
    have hrecord : RecordedAllocation.record order twin = RecordedAllocation.record order a := Subtype.ext hb
    have hbytes : artifactBytes sha256 configOrder order config (pre ++ a :: post) =
        artifactBytes sha256 configOrder order config (pre ++ twin :: post) := by
      refine artifactBytes_eq_iff.mpr (.of_eq ?_)
      rw [List.map_append, List.map_append, List.map_cons, List.map_cons, hrecord]
    have hcontents := sameAllocations_iff.mp ((h order _).mp hbytes)
    have hcontent := @eq_of_perm_map _ _ (fun a : RecordedAllocation => a.1.content) pre post a twin hcontents
    exact GenesisAllocation.content_eq_iff.mp hcontent
  · intro h order' allocations'
    exact artifactBytes_iff_of_record fun a ha b _ hrecord => (h a ha).same (Subtype.mk.inj hrecord)
  · intro order' allocations' hplain
    exact artifactBytes_iff_of_record fun a ha b hb hrecord =>
      same_of_record (hplain a (List.mem_append_left _ ha)) (hplain b (List.mem_append_right _ hb))
        (Subtype.mk.inj hrecord)

end Artifact

def treasuryOf (metadata : HashMap String String) : GenesisAllocation where
  address := "0xda0"
  kind := .treasury
  amountGwei := 5
  isValidator := false
  metadata

theorem record_treasuryOf (order : IterOrder (String × String)) (metadata : HashMap String String) :
    canonicalAllocationRecord order (treasuryOf metadata) =
      "0xda0|treasury|5|0|" ++ canonicalMetadataFragment order metadata := by
  have haddress : normalizeAddress "0xda0" = "0xda0" := by decide
  have hamount : toString (5 : UInt64).toNat = "5" := by decide
  simp only [canonicalAllocationRecord, treasuryOf, haddress, hamount, allocationKindName]
  rfl

def twoEntries (value : String) : HashMap String String :=
  ofPairs [("a", "b"), ("c", value)] (show ["a", "c"].Nodup by decide)

theorem lookup_twoEntries {value key found : String} :
    (twoEntries value).lookup key = some found ↔ (key, found) = ("a", "b") ∨ (key, found) = ("c", value) := by
  have hmem : (key, found) ∈ traverse .stored (twoEntries value) ↔ (twoEntries value).lookup key = some found :=
    mem_traverse
  rw [← hmem]
  simp [twoEntries, ofPairs, traverse, IterOrder.stored]

theorem record_twoEntries (order : IterOrder (String × String)) (value : String) :
    canonicalAllocationRecord order (treasuryOf (twoEntries value)) = "0xda0|treasury|5|0|a=b;c=" ++ value := by
  have hsorted : [("a", "b"), ("c", value)].Pairwise fun x y : String × String => compare x.1 y.1 = .lt := by
    simp only [List.pairwise_cons, List.mem_singleton, forall_eq, List.not_mem_nil, false_implies, implies_true,
      List.Pairwise.nil, and_true]
    decide
  rw [record_treasuryOf, canonicalMetadataFragment, twoEntries, sortedPairs_ofPairs hsorted]
  simp [joinPairs, ← String.toList_inj]

theorem plainMetadata_twoEntries {value : String} (hbar : '|' ∉ value.toList) (hstop : ';' ∉ value.toList) :
    PlainMetadata (twoEntries value) := by
  intro key found hlookup
  rcases lookup_twoEntries.mp hlookup with heq | heq <;> cases heq
  · decide
  · exact ⟨by decide, hbar, hstop⟩

/-- An allocation with two entries, the second of one letter. -/
def twoEntriesOf (letter : Char) (h : (asBytes ("0xda0|treasury|5|0|a=b;c=" ++ letter.toString)).length < 2 ^ 63) :
    RecordedAllocation := ⟨treasuryOf (twoEntries letter.toString), (record_twoEntries .stored _).symm ▸ h⟩

/-- Two lists whose maps differ in the second of two entries. -/
theorem artifact_commits_iff_two_entries :
    artifactBytes (fun _ => .zero) .stored .stored defaultGenesisBuilderConfig [twoEntriesOf 'd' (by decide)] ≠
      artifactBytes (fun _ => .zero) .stored .stored defaultGenesisBuilderConfig [twoEntriesOf 'e' (by decide)] := by
  have hplain : ∀ a ∈ [twoEntriesOf 'd' (by decide)] ++ [twoEntriesOf 'e' (by decide)], PlainMetadata a.1.metadata := by
    intro a ha
    rcases List.mem_pair.mp ha with rfl | rfl
    · exact plainMetadata_twoEntries (by decide) (by decide)
    · exact plainMetadata_twoEntries (by decide) (by decide)
  intro hbytes
  have hsame := ((artifact_commits_iff _ _ _ _ _).2 _ _ hplain).mp hbytes
  rw [sameAllocations_iff] at hsame
  have hcontent := List.singleton_perm_singleton.mp hsame
  have hmetadata := (GenesisAllocation.content_eq_iff.mp hcontent).metadata "c"
  exact absurd hmetadata (by decide)

/-- Two entries of metadata, and one entry whose value holds the text of the second. -/
theorem joined_metadata_not_committed : ∃ allocations allocations' : List RecordedAllocation,
    ¬ SameAllocations allocations allocations' ∧ ∀ sha256 configOrder order config,
      artifactBytes sha256 configOrder order config allocations =
        artifactBytes sha256 configOrder order config allocations' := by
  have hrecord : ∀ order, canonicalAllocationRecord order (treasuryOf (twoEntries "d")) = "0xda0|treasury|5|0|a=b;c=d" :=
    fun order => record_twoEntries order "d"
  have hrecord' : ∀ order,
      canonicalAllocationRecord order (treasuryOf (single "a" "b;c=d")) = "0xda0|treasury|5|0|a=b;c=d" := by
    intro order
    rw [record_treasuryOf, fragment_single]
    rfl
  have hlen : (asBytes "0xda0|treasury|5|0|a=b;c=d").length < 2 ^ 63 := by decide
  refine ⟨[⟨treasuryOf (twoEntries "d"), (hrecord _).symm ▸ hlen⟩],
    [⟨treasuryOf (single "a" "b;c=d"), (hrecord' _).symm ▸ hlen⟩],
    ?_, fun sha256 configOrder order config => artifactBytes_eq_iff.mpr (.of_eq ?_)⟩
  · rw [sameAllocations_iff]
    intro hsame
    have hcontent := List.singleton_perm_singleton.mp hsame
    have hmetadata : (twoEntries "d").lookup "c" = none := (GenesisAllocation.content_eq_iff.mp hcontent).metadata "c"
    exact Option.some_ne_none _ hmetadata
  · exact congrArg (fun record => [record]) (Subtype.ext ((hrecord order).trans (hrecord' order).symm))

end GenesisBuilder
end Eth2077
