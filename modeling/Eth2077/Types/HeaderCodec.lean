import Eth2077.Types.Canonical

/-!
# Reading a header back (`types/src/canonical.rs`)

The decoder that `RlpDecodable` derives for `Header`. An absent trailing field and the number zero are
both written as the empty string, so `some 0` in an optional number comes back as `none`, and before a
later present field the two have one encoding.
-/

namespace Eth2077

namespace Header

/-! ### Fields -/

def decodeFixed (n : ℕ) : Rlp.Decoder (FixedBytes n) := fun buf => do
  let (bs, buf) ← Rlp.decodeString buf
  if h : bs.length = n then some (⟨bs, h⟩, buf) else none

def decodeBytes : Rlp.Decoder Bytes := fun buf => do
  let (bs, buf) ← Rlp.decodeString buf
  if h : bs.length < 2 ^ 63 then some (⟨bs, h⟩, buf) else none

def decodeU64 : Rlp.Decoder UInt64 := fun buf => do
  let (n, buf) ← Rlp.decodeNumber 8 buf
  some (UInt64.ofNat n, buf)

def decodeU256 : Rlp.Decoder U256 := fun buf => do
  let (n, buf) ← Rlp.decodeNumber 32 buf
  some (BitVec.ofNat 256 n, buf)

/-- The derived decoder. The fields are read off the whole buffer and the length of the payload is
compared at the end. -/
def decode : Rlp.Decoder Header := do
  let ends ← Rlp.decodeRecord
  let parentHash ← decodeFixed 32
  let ommersHash ← decodeFixed 32
  let beneficiary ← decodeFixed 20
  let stateRoot ← decodeFixed 32
  let transactionsRoot ← decodeFixed 32
  let receiptsRoot ← decodeFixed 32
  let logsBloom ← decodeFixed 256
  let difficulty ← decodeU256
  let number ← decodeU64
  let gasLimit ← decodeU64
  let gasUsed ← decodeU64
  let timestamp ← decodeU64
  let extraData ← decodeBytes
  let mixHash ← decodeFixed 32
  let nonce ← decodeU64
  let baseFeePerGas ← Rlp.decodeTrailing ends decodeU64
  let blobGasUsed ← Rlp.decodeTrailing ends decodeU64
  let excessBlobGas ← Rlp.decodeTrailing ends decodeU64
  let parentBeaconBlockRoot ← Rlp.decodeTrailing ends (decodeFixed 32)
  Rlp.decodeEnd ends
  return { parentHash, ommersHash, beneficiary, stateRoot, transactionsRoot, receiptsRoot, logsBloom,
           difficulty, number, gasLimit, gasUsed, timestamp, extraData, mixHash, nonce, baseFeePerGas,
           blobGasUsed, excessBlobGas, parentBeaconBlockRoot }

theorem decodeFixed_encodeString {n : ℕ} (hn : n < 2 ^ 64) (bs : FixedBytes n) (rest : List UInt8) :
    decodeFixed n (Rlp.encodeString bs.toList ++ rest) = some (bs, rest) := by
  have hlen : bs.toList.length < 2 ^ 64 := by rwa [bs.toList_length]
  simp [decodeFixed, Rlp.decodeString_encodeString hlen]

theorem decodeBytes_encodeString (bs : Bytes) (rest : List UInt8) :
    decodeBytes (Rlp.encodeString bs.1 ++ rest) = some (bs, rest) := by
  have hlen : bs.1.length < 2 ^ 64 := bs.2.trans (by omega)
  simpa [decodeBytes, Rlp.decodeString_encodeString hlen] using bs.2

theorem decodeU64_encodeNumber (n : UInt64) (rest : List UInt8) :
    decodeU64 (Rlp.encodeNumber 8 n.toNat ++ rest) = some (n, rest) := by
  have hn : n.toNat < 256 ^ 8 := n.toNat_lt
  simp [decodeU64, Rlp.decodeNumber_encodeNumber (show 8 < 2 ^ 64 by omega) hn]

theorem decodeU256_encodeNumber (n : U256) (rest : List UInt8) :
    decodeU256 (Rlp.encodeNumber 32 n.toNat ++ rest) = some (n, rest) := by
  have hn : n.toNat < 256 ^ 32 := n.isLt
  simp [decodeU256, Rlp.decodeNumber_encodeNumber (show 32 < 2 ^ 64 by omega) hn]

theorem eq_zero_of_head? {n : UInt64} (h : (Rlp.encodeNumber 8 n.toNat).head? = some 0x80) : n = 0 :=
  UInt64.toNat_inj.mp (Rlp.encodeNumber_head (by omega) n.toNat_lt h)

theorem encodeNumber_eq_empty {n : UInt64} : Rlp.encodeNumber 8 n.toNat = [0x80] ↔ n = 0 := by
  constructor
  · intro h
    exact eq_zero_of_head? (by rw [h]; rfl)
  · rintro rfl
    decide

theorem decodeTrailing_u64 (o : Option UInt64) (items : List (Option (List UInt8))) (rest : List UInt8) :
    Rlp.decodeTrailing rest.length decodeU64
        ((Rlp.trailing (o.map (fun n => Rlp.encodeNumber 8 n.toNat) :: items)).flatten ++ rest) =
      some (o.filter (· ≠ 0), (Rlp.trailing items).flatten ++ rest) := by
  have := Rlp.decodeTrailing_trailing decodeU64_encodeNumber (fun n => Rlp.encodeString_ne_nil _)
    (fun n h => encodeNumber_eq_empty.mpr (eq_zero_of_head? h)) o items rest
  simpa only [ne_eq, encodeNumber_eq_empty] using this

theorem decodeTrailing_fixed {n : ℕ} (hn : n < 2 ^ 64) (hpos : 0 < n) (o : Option (FixedBytes n))
    (items : List (Option (List UInt8))) (rest : List UInt8) :
    Rlp.decodeTrailing rest.length (decodeFixed n)
        ((Rlp.trailing (o.map (fun bs => Rlp.encodeString bs.toList) :: items)).flatten ++ rest) =
      some (o, (Rlp.trailing items).flatten ++ rest) := by
  have hhead : ∀ bs : FixedBytes n, (Rlp.encodeString bs.toList).head? ≠ some 0x80 := by
    intro bs h
    have hnil := Rlp.eq_nil_of_head?_encodeString (by rwa [bs.toList_length]) h
    have := bs.toList_length
    rw [hnil, List.length_nil] at this
    omega
  have hne : ∀ bs : FixedBytes n, Rlp.encodeString bs.toList ≠ [0x80] := by
    intro bs h
    exact hhead bs (by rw [h]; rfl)
  have := Rlp.decodeTrailing_trailing (decodeFixed_encodeString hn) (fun bs => Rlp.encodeString_ne_nil _)
    (fun bs h => absurd h (hhead bs)) o items rest
  have hfilter : (o.filter fun bs => Rlp.encodeString bs.toList ≠ [0x80]) = o := by
    cases o <;> simp [Option.filter, hne]
  rwa [hfilter] at this

/-! ### Headers -/

/-- What is left of a header once it was written and read again. -/
def readBack (h : Header) : Header :=
  { h with
    baseFeePerGas := h.baseFeePerGas.filter (· ≠ 0)
    blobGasUsed := h.blobGasUsed.filter (· ≠ 0)
    excessBlobGas := h.excessBlobGas.filter (· ≠ 0) }

/-- The items of the fields that are always there. -/
def fixedItems (h : Header) : List (List UInt8) :=
  let number (n : UInt64) := Rlp.encodeNumber 8 n.toNat
  [Rlp.encodeString h.parentHash.toList, Rlp.encodeString h.ommersHash.toList,
    Rlp.encodeString h.beneficiary.toList, Rlp.encodeString h.stateRoot.toList,
    Rlp.encodeString h.transactionsRoot.toList, Rlp.encodeString h.receiptsRoot.toList,
    Rlp.encodeString h.logsBloom.toList, Rlp.encodeNumber 32 h.difficulty.toNat, number h.number,
    number h.gasLimit, number h.gasUsed, number h.timestamp, Rlp.encodeString h.extraData.1,
    Rlp.encodeString h.mixHash.toList, number h.nonce]

def optionalItems (h : Header) : List (Option (List UInt8)) :=
  [h.baseFeePerGas.map fun n => Rlp.encodeNumber 8 n.toNat,
    h.blobGasUsed.map fun n => Rlp.encodeNumber 8 n.toNat,
    h.excessBlobGas.map fun n => Rlp.encodeNumber 8 n.toNat,
    h.parentBeaconBlockRoot.map fun root => Rlp.encodeString root.toList]

theorem encode_eq (h : Header) : h.encode = Rlp.encodeList (h.fixedItems ++ Rlp.trailing h.optionalItems) := rfl

theorem length_fixed_le {n : ℕ} (bs : FixedBytes n) : (Rlp.encodeString bs.toList).length ≤ 9 + n := by
  have := Rlp.length_encodeString_le bs.toList
  rwa [bs.toList_length] at this

theorem length_trailing_le (h : Header) : (Rlp.trailing h.optionalItems).flatten.length ≤ 168 := by
  refine Rlp.length_trailing_le 41 fun item hitem => ?_
  have hnumber := fun n : UInt64 => Rlp.length_encodeNumber_le 8 n.toNat
  simp only [optionalItems, List.mem_cons, List.not_mem_nil, or_false, eq_comm (a := some item),
    Option.map_eq_some_iff] at hitem
  rcases hitem with ⟨n, -, rfl⟩ | ⟨n, -, rfl⟩ | ⟨n, -, rfl⟩ | ⟨root, -, rfl⟩
  · exact (hnumber n).trans (by omega)
  · exact (hnumber n).trans (by omega)
  · exact (hnumber n).trans (by omega)
  · exact length_fixed_le root

theorem length_payload_lt (h : Header) :
    (h.fixedItems ++ Rlp.trailing h.optionalItems).flatten.length < 2 ^ 64 := by
  have hnumber := fun n : UInt64 => Rlp.length_encodeNumber_le 8 n.toNat
  have := length_fixed_le h.parentHash
  have := length_fixed_le h.ommersHash
  have := length_fixed_le h.beneficiary
  have := length_fixed_le h.stateRoot
  have := length_fixed_le h.transactionsRoot
  have := length_fixed_le h.receiptsRoot
  have := length_fixed_le h.logsBloom
  have := Rlp.length_encodeNumber_le 32 h.difficulty.toNat
  have := hnumber h.number
  have := hnumber h.gasLimit
  have := hnumber h.gasUsed
  have := hnumber h.timestamp
  have := Rlp.length_encodeString_le h.extraData.1
  have := h.extraData.2
  have := length_fixed_le h.mixHash
  have := hnumber h.nonce
  have := h.length_trailing_le
  simp only [fixedItems, List.flatten_append, List.flatten_cons, List.flatten_nil, List.append_nil, List.length_append]
  omega

theorem decode_encode (h : Header) (rest : List UInt8) :
    decode (h.encode ++ rest) = some (h.readBack, rest) := by
  have h32 : 32 < 2 ^ 64 := by omega
  rw [decode, encode, Rlp.Decoder.bind_eq (Rlp.decodeRecord_encodeList _ rest)]
  · simp only [List.flatten_append, List.flatten_cons, List.flatten_nil, List.append_nil, List.append_assoc]
    rw [Rlp.Decoder.bind_eq (decodeFixed_encodeString h32 ..),
      Rlp.Decoder.bind_eq (decodeFixed_encodeString h32 ..),
      Rlp.Decoder.bind_eq (decodeFixed_encodeString (by omega) ..),
      Rlp.Decoder.bind_eq (decodeFixed_encodeString h32 ..),
      Rlp.Decoder.bind_eq (decodeFixed_encodeString h32 ..),
      Rlp.Decoder.bind_eq (decodeFixed_encodeString h32 ..),
      Rlp.Decoder.bind_eq (decodeFixed_encodeString (by omega) ..),
      Rlp.Decoder.bind_eq (decodeU256_encodeNumber ..), Rlp.Decoder.bind_eq (decodeU64_encodeNumber ..),
      Rlp.Decoder.bind_eq (decodeU64_encodeNumber ..), Rlp.Decoder.bind_eq (decodeU64_encodeNumber ..),
      Rlp.Decoder.bind_eq (decodeU64_encodeNumber ..), Rlp.Decoder.bind_eq (decodeBytes_encodeString ..),
      Rlp.Decoder.bind_eq (decodeFixed_encodeString h32 ..),
      Rlp.Decoder.bind_eq (decodeU64_encodeNumber ..), Rlp.Decoder.bind_eq (decodeTrailing_u64 ..),
      Rlp.Decoder.bind_eq (decodeTrailing_u64 ..), Rlp.Decoder.bind_eq (decodeTrailing_u64 ..),
      Rlp.Decoder.bind_eq (decodeTrailing_fixed h32 (by omega) ..)]
    rw [Rlp.Decoder.bind_eq (show _ = some ((), rest) from if_pos rfl)]
    rfl
  · exact h.length_payload_lt

/-- No optional number is present and zero. -/
def NoPresentZero (h : Header) : Prop :=
  h.baseFeePerGas ≠ some 0 ∧ h.blobGasUsed ≠ some 0 ∧ h.excessBlobGas ≠ some 0

theorem filter_ne_zero {o : Option UInt64} : o.filter (· ≠ 0) = o ↔ o ≠ some 0 := by
  cases o <;> simp

theorem readBack_eq {h : Header} : h.readBack = h ↔ h.NoPresentZero := by
  obtain ⟨⟩ := h
  simp only [readBack, NoPresentZero, Header.mk.injEq, true_and, and_true, filter_ne_zero]

/-! ### What an encoding tells of a header -/

/-- An optional number as it is told: before a later present field, zero counts as absent. -/
def told (later : Bool) (o : Option UInt64) : Option UInt64 := if later then o.filter (· ≠ 0) else o

def laterThanBlobGas (h : Header) : Bool := h.excessBlobGas.isSome || h.parentBeaconBlockRoot.isSome

def laterThanBaseFee (h : Header) : Bool := h.blobGasUsed.isSome || h.laterThanBlobGas

/-- A header as its encoding tells it. -/
def asTold (h : Header) : Header :=
  { h with
    baseFeePerGas := told h.laterThanBaseFee h.baseFeePerGas
    blobGasUsed := told h.laterThanBlobGas h.blobGasUsed
    excessBlobGas := told h.parentBeaconBlockRoot.isSome h.excessBlobGas }

/-- Before the last present optional field, every number is present and not zero. -/
def NoGap (h : Header) : Prop :=
  (h.laterThanBaseFee → h.baseFeePerGas ≠ none ∧ h.baseFeePerGas ≠ some 0) ∧
    (h.laterThanBlobGas → h.blobGasUsed ≠ none ∧ h.blobGasUsed ≠ some 0) ∧
    (h.parentBeaconBlockRoot.isSome → h.excessBlobGas ≠ none ∧ h.excessBlobGas ≠ some 0)

theorem trailing_u64_inj {o o' : Option UInt64} {items items' : List (Option (List UInt8))}
    (hitems : some [] ∉ items) (hitems' : some [] ∉ items') :
    (Rlp.trailing (o.map (fun n => Rlp.encodeNumber 8 n.toNat) :: items)).flatten =
        (Rlp.trailing (o'.map (fun n => Rlp.encodeNumber 8 n.toNat) :: items')).flatten ↔
      told (items.any Option.isSome) o = told (items'.any Option.isSome) o' ∧
        (Rlp.trailing items).flatten = (Rlp.trailing items').flatten := by
  have htold (later : Bool) (o : Option UInt64) :
      Rlp.told (fun n => Rlp.encodeNumber 8 n.toNat) later o = told later o := by
    simp only [Rlp.told, told, ne_eq, encodeNumber_eq_empty]
  rw [← htold, ← htold]
  exact Rlp.flatten_trailing_inj decodeU64_encodeNumber (fun n => Rlp.encodeString_ne_nil _)
    (fun n h => encodeNumber_eq_empty.mpr (eq_zero_of_head? h)) hitems hitems'

theorem trailing_root_inj {o o' : Option B256} :
    (Rlp.trailing [o.map fun root => Rlp.encodeString root.toList]).flatten =
      (Rlp.trailing [o'.map fun root => Rlp.encodeString root.toList]).flatten ↔ o = o' := by
  constructor
  · intro h
    have hdec := decodeTrailing_fixed (n := 32) (by omega) (by omega) o [] []
    rw [h, decodeTrailing_fixed (by omega) (by omega) o' [] []] at hdec
    exact (Prod.mk.inj (Option.some_inj.mp hdec)).1.symm
  · rintro rfl
    rfl

theorem optionalItems_inj {h h' : Header} :
    (Rlp.trailing h.optionalItems).flatten = (Rlp.trailing h'.optionalItems).flatten ↔
      told h.laterThanBaseFee h.baseFeePerGas = told h'.laterThanBaseFee h'.baseFeePerGas ∧
        told h.laterThanBlobGas h.blobGasUsed = told h'.laterThanBlobGas h'.blobGasUsed ∧
        told h.parentBeaconBlockRoot.isSome h.excessBlobGas = told h'.parentBeaconBlockRoot.isSome h'.excessBlobGas ∧
        h.parentBeaconBlockRoot = h'.parentBeaconBlockRoot := by
  rw [optionalItems, optionalItems, trailing_u64_inj, trailing_u64_inj, trailing_u64_inj, trailing_root_inj]
  · simp [laterThanBaseFee, laterThanBlobGas]
  all_goals
    simp [eq_comm (a := some []), Rlp.encodeNumber, Rlp.encodeString_ne_nil]

/-- A header without its optional fields. -/
def fixedPart (h : Header) : Header :=
  { h with baseFeePerGas := none, blobGasUsed := none, excessBlobGas := none, parentBeaconBlockRoot := none }

theorem fixedItems_eq {h h' : Header} (hfixed : h.fixedPart = h'.fixedPart) : h.fixedItems = h'.fixedItems :=
  show h.fixedPart.fixedItems = h'.fixedPart.fixedItems by rw [hfixed]

theorem asTold_eq_iff {g h : Header} :
    g.asTold = h.asTold ↔ g.fixedPart = h.fixedPart ∧
      told g.laterThanBaseFee g.baseFeePerGas = told h.laterThanBaseFee h.baseFeePerGas ∧
      told g.laterThanBlobGas g.blobGasUsed = told h.laterThanBlobGas h.blobGasUsed ∧
      told g.parentBeaconBlockRoot.isSome g.excessBlobGas = told h.parentBeaconBlockRoot.isSome h.excessBlobGas ∧
      g.parentBeaconBlockRoot = h.parentBeaconBlockRoot := by
  obtain ⟨⟩ := g
  obtain ⟨⟩ := h
  simp [asTold, fixedPart, and_assoc]

theorem asTold_inj {h h' : Header} :
    h.asTold = h'.asTold ↔
      h.fixedPart = h'.fixedPart ∧
        (Rlp.trailing h.optionalItems).flatten = (Rlp.trailing h'.optionalItems).flatten := by
  rw [asTold_eq_iff, optionalItems_inj]

/-- Two headers have one encoding exactly if it tells them the same. -/
theorem encode_inj {h h' : Header} : h.encode = h'.encode ↔ h.asTold = h'.asTold := by
  rw [asTold_inj]
  constructor
  · intro henc
    have hfixed : h.fixedPart = h'.fixedPart := by
      have hdec := h.decode_encode []
      rw [henc, h'.decode_encode []] at hdec
      have hread := (Prod.mk.inj (Option.some_inj.mp hdec)).1
      show h.readBack.fixedPart = h'.readBack.fixedPart
      rw [hread]
    have hrecord := Rlp.decodeRecord_encodeList h.length_payload_lt []
    rw [← encode_eq, henc, encode_eq, Rlp.decodeRecord_encodeList h'.length_payload_lt []] at hrecord
    have hpayload := (Prod.mk.inj (Option.some_inj.mp hrecord)).2
    rw [List.append_nil, List.append_nil, List.flatten_append, List.flatten_append, fixedItems_eq hfixed] at hpayload
    exact ⟨hfixed, (List.append_cancel_left hpayload).symm⟩
  · rintro ⟨hfixed, htrailing⟩
    rw [encode_eq, encode_eq, Rlp.encodeList, Rlp.encodeList, List.flatten_append, List.flatten_append,
      fixedItems_eq hfixed, htrailing]

/-- Absent for zero and zero for absent. -/
def exchanged : Option UInt64 → Option UInt64
  | none => some 0
  | some _ => none

theorem told_exchanged {o : Option UInt64} (ho : ¬ (o ≠ none ∧ o ≠ some 0)) :
    told true (exchanged o) = told true o ∧ exchanged o ≠ o := by
  cases o with
  | none => decide
  | some n =>
    obtain rfl : n = 0 := by simpa using ho
    decide

theorem told_of_present {later : Bool} {o o' : Option UInt64} (ho : later → o ≠ none ∧ o ≠ some 0)
    (h : told later o' = told later o) : o' = o := by
  cases later with
  | false => exact h
  | true =>
    obtain ⟨hnone, hzero⟩ := ho rfl
    have h : o'.filter (· ≠ 0) = o := h.trans (filter_ne_zero.mpr hzero)
    cases o' with
    | none => exact absurd h.symm hnone
    | some n =>
      rw [Option.filter] at h
      split at h
      · exact h
      · exact absurd h.symm hnone

/-- A header is told apart from every other one exactly if it has no gap. -/
theorem asTold_unique_iff {h : Header} : (∀ g : Header, g.asTold = h.asTold → g = h) ↔ h.NoGap := by
  constructor
  · intro hunique
    refine ⟨fun hlater => ?_, fun hlater => ?_, fun hlater => ?_⟩ <;> by_contra ho <;>
      obtain ⟨htold, hne⟩ := told_exchanged ho
    · refine hne (congrArg baseFeePerGas (hunique { h with baseFeePerGas := exchanged h.baseFeePerGas } ?_))
      refine asTold_eq_iff.mpr ⟨rfl, ?_, rfl, rfl, rfl⟩
      show told h.laterThanBaseFee (exchanged h.baseFeePerGas) = _
      rw [hlater, htold]
    · refine hne (congrArg blobGasUsed (hunique { h with blobGasUsed := exchanged h.blobGasUsed } ?_))
      refine asTold_eq_iff.mpr ⟨rfl, ?_, ?_, rfl, rfl⟩
      · show told (_ || h.laterThanBlobGas) h.baseFeePerGas = told (_ || h.laterThanBlobGas) _
        rw [hlater, Bool.or_true, Bool.or_true]
      · show told h.laterThanBlobGas (exchanged h.blobGasUsed) = _
        rw [hlater, htold]
    · refine hne (congrArg excessBlobGas (hunique { h with excessBlobGas := exchanged h.excessBlobGas } ?_))
      refine asTold_eq_iff.mpr ⟨rfl, ?_, ?_, ?_, rfl⟩
      · simp [laterThanBaseFee, laterThanBlobGas, hlater]
      · simp [laterThanBlobGas, hlater]
      · show told h.parentBeaconBlockRoot.isSome (exchanged h.excessBlobGas) = _
        rw [hlater, htold]
  · rintro ⟨hbase, hblob, hexcess⟩ g hg
    -- from the last field on: once the later fields agree, the same are there
    obtain ⟨hfixed, htoldBase, htoldBlob, htoldExcess, hroot⟩ := asTold_eq_iff.mp hg
    rw [hroot] at htoldExcess
    have hexcess := told_of_present hexcess htoldExcess
    have hlater : g.laterThanBlobGas = h.laterThanBlobGas := by rw [laterThanBlobGas, laterThanBlobGas, hexcess, hroot]
    rw [hlater] at htoldBlob
    have hblob := told_of_present hblob htoldBlob
    have hlater : g.laterThanBaseFee = h.laterThanBaseFee := by rw [laterThanBaseFee, laterThanBaseFee, hblob, hlater]
    rw [hlater] at htoldBase
    have hbase := told_of_present hbase htoldBase
    obtain ⟨⟩ := g
    obtain ⟨⟩ := h
    simp_all [fixedPart]

/-- The numbers of `create_genesis_block`, with every hash zero. -/
def genesis : Header where
  parentHash := FixedBytes.zero
  ommersHash := FixedBytes.zero
  beneficiary := FixedBytes.zero
  stateRoot := FixedBytes.zero
  transactionsRoot := FixedBytes.zero
  receiptsRoot := FixedBytes.zero
  logsBloom := FixedBytes.zero
  difficulty := 0
  number := 0
  gasLimit := 30000000
  gasUsed := 0
  timestamp := 0
  extraData := Bytes.default
  mixHash := FixedBytes.zero
  nonce := 0
  baseFeePerGas := some 1000000000
  blobGasUsed := some 0
  excessBlobGas := some 0
  parentBeaconBlockRoot := none

/-- A header is read back as it was written exactly if no optional number is present and zero. Two
headers have one hash exactly if their encodings tell them the same, and the hash tells a header from
every other one exactly if it has no gap. -/
theorem header_round_trip (keccak256 : List UInt8 → B256) (h h' : Header)
    (hc : keccak256 h.encode = keccak256 h'.encode → h.encode = h'.encode) :
    (decode h.encode = some (h, []) ↔ h.NoPresentZero) ∧
      (h.hash keccak256 = h'.hash keccak256 ↔ h.asTold = h'.asTold) ∧
      (h.NoPresentZero → h'.NoPresentZero → h.hash keccak256 = h'.hash keccak256 → h = h') ∧
      ((∀ g : Header, (keccak256 g.encode = keccak256 h.encode → g.encode = h.encode) →
        g.hash keccak256 = h.hash keccak256 → g = h) ↔ h.NoGap) := by
  have hdec := h.decode_encode []
  have hdec' := h'.decode_encode []
  rw [List.append_nil] at hdec hdec'
  refine ⟨?_, ?_, ?_, ?_⟩
  · rw [hdec, ← readBack_eq, Option.some_inj, Prod.mk.injEq, and_iff_left rfl]
  · rw [← encode_inj]
    exact ⟨hc, congrArg keccak256⟩
  · intro hz hz' hhash
    rw [hc hhash, hdec', readBack_eq.mpr hz, readBack_eq.mpr hz'] at hdec
    exact (Prod.mk.inj (Option.some_inj.mp hdec)).1.symm
  · rw [← asTold_unique_iff]
    constructor
    · intro hunique g hg
      have henc := encode_inj.mpr hg
      exact hunique g (fun _ => henc) (congrArg keccak256 henc)
    · intro hunique g hcg hhash
      exact hunique g (encode_inj.mp (hcg hhash))

/-- The header of a first block without blob fields. -/
def firstHeader : Header := { genesis with number := 1, blobGasUsed := none, excessBlobGas := none }

def secondHeader : Header := { firstHeader with number := 2 }

/-- The digests of the encodings of three headers. -/
def headerDigest (bs : List UInt8) : B256 :=
  if bs = genesis.encode then .ofNat 32 0x31f4c54848d86f507268c1758d642525fc8950c8a2bae8f9782e13f7cb3a617a
  else if bs = firstHeader.encode then .ofNat 32 0x1b5ca186c7afe0cd2199b627e2a7da0a25c507bd065cd7de4a346dbcc306a186
  else .ofNat 32 0xffb7be7dc016402d17cc6613996f0b73a3a2596943ca2b931f93a764bf90cca0

theorem header_round_trip_first_block :
    decode firstHeader.encode = some (firstHeader, []) ∧
      firstHeader.hash headerDigest ≠ secondHeader.hash headerDigest ∧
      firstHeader.hash headerDigest ≠ genesis.hash headerDigest ∧
      genesis.hash headerDigest = ({ genesis with blobGasUsed := none } : Header).hash headerDigest ∧
      ¬ ∀ g : Header, (headerDigest g.encode = headerDigest genesis.encode → g.encode = genesis.encode) →
        g.hash headerDigest = genesis.hash headerDigest → g = genesis := by
  have hfirst : firstHeader.NoPresentZero := ⟨by decide, by decide, by decide⟩
  have hsecond : secondHeader.NoPresentZero := ⟨by decide, by decide, by decide⟩
  obtain ⟨hread, -, happart, -⟩ := header_round_trip headerDigest firstHeader secondHeader (by decide +kernel)
  obtain ⟨-, hgenesis, -, -⟩ := header_round_trip headerDigest firstHeader genesis (by decide +kernel)
  obtain ⟨-, htwin, -, hgap⟩ :=
    header_round_trip headerDigest genesis { genesis with blobGasUsed := none } (by decide +kernel)
  refine ⟨hread.mpr hfirst, ?_, ?_, htwin.mpr rfl, ?_⟩
  · exact fun h => absurd (congrArg number (happart hfirst hsecond h)) (by decide)
  · exact fun h => absurd (congrArg number (hgenesis.mp h)) (by decide)
  · exact fun h => ((hgap.mp h).2.1 rfl).2 rfl

theorem genesis_header_lost :
    decode genesis.encode ≠ some (genesis, []) ∧
      ({ genesis with baseFeePerGas := none } : Header).encode = { genesis with baseFeePerGas := some 0 }.encode ∧
      ({ genesis with blobGasUsed := none } : Header).encode = genesis.encode := by
  refine ⟨?_, ?_, ?_⟩
  · have hdec := genesis.decode_encode []
    rw [List.append_nil] at hdec
    rw [hdec]
    intro h
    have hzero := readBack_eq.mp (Prod.mk.inj (Option.some_inj.mp h)).1
    exact hzero.2.1 rfl
  · decide +kernel
  · decide +kernel

end Header

end Eth2077
