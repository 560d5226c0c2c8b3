import Eth2077.Node.Numbers

/-!
# Blocks and engine payloads (`bridge/src/payload_converter.rs`, `bridge/src/engine_api.rs`)

A block goes to the engine as a payload of hexadecimal texts, and comes back from one. The texts are written
and read by hand; whatever does not read as it should is silently a default. A block comes back as it went.
-/

namespace Eth2077

namespace Bridge

/-! ### The types of the engine API -/

structure HexBytes where
  text : String
deriving DecidableEq

def HexBytes.empty : HexBytes := ⟨"0x"⟩

structure HexQuantity where
  text : String
deriving DecidableEq

def HexQuantity.zero : HexQuantity := ⟨"0x0"⟩

structure Bytes32 where
  text : String
deriving DecidableEq

structure Address where
  text : String
deriving DecidableEq

structure WithdrawalV1 where
  index : HexQuantity
  validatorIndex : HexQuantity
  address : Address
  amount : HexQuantity
deriving DecidableEq

structure ExecutionPayloadV3 where
  parentHash : Bytes32
  feeRecipient : Address
  stateRoot : Bytes32
  receiptsRoot : Bytes32
  logsBloom : HexBytes
  prevRandao : Bytes32
  blockNumber : HexQuantity
  gasLimit : HexQuantity
  gasUsed : HexQuantity
  timestamp : HexQuantity
  extraData : HexBytes
  baseFeePerGas : HexQuantity
  blockHash : Bytes32
  transactions : List HexBytes
  withdrawals : List WithdrawalV1
  blobGasUsed : HexQuantity
  excessBlobGas : HexQuantity
deriving DecidableEq

structure Eth2077Block where
  parentHash : FixedBytes 32
  feeRecipient : FixedBytes 20
  stateRoot : FixedBytes 32
  receiptsRoot : FixedBytes 32
  blockNumber : UInt64
  gasLimit : UInt64
  gasUsed : UInt64
  timestamp : UInt64
  baseFeePerGas : BitVec 128
  transactions : List (List UInt8)
  withdrawals : List WithdrawalV1

/-! ### The codecs -/

def hexChars : List Char := "0123456789abcdef".toList

def hexChar (nibble : UInt8) : Char := hexChars.getD nibble.toNat '0'

/-- The loop over the bytes. -/
def hexDigits (bytes : List UInt8) : List Char :=
  bytes.flatMap fun byte : UInt8 => [hexChar (byte >>> 4), hexChar (byte &&& 0x0f)]

def encodeHexBytes (bytes : List UInt8) : String := String.ofList ('0' :: 'x' :: hexDigits bytes)

def decodeHexNibble (byte : UInt8) : Option UInt8 :=
  if 0x30 ≤ byte ∧ byte ≤ 0x39 then some (byte - 0x30)
  else if 0x61 ≤ byte ∧ byte ≤ 0x66 then some (byte - 0x61 + 10)
  else if 0x41 ≤ byte ∧ byte ≤ 0x46 then some (byte - 0x41 + 10)
  else none

/-- `strip_prefix("0x")`, or else `strip_prefix("0X")`. -/
def stripHexPrefix : List Char → List Char
  | '0' :: 'x' :: rest => rest
  | '0' :: 'X' :: rest => rest
  | raw => raw

/-- The loop over the pairs of `chunks_exact(2)`. -/
def decodePairs : List UInt8 → Option (List UInt8)
  | a :: b :: rest => do
    let hi ← decodeHexNibble a
    let lo ← decodeHexNibble b
    let out ← decodePairs rest
    return ((hi <<< 4) ||| lo) :: out
  | _ => some []

def decodeHexBytes (input : String) : Option (List UInt8) :=
  let raw := asBytes (String.ofList (stripHexPrefix (trim input.toList)))
  if raw = [] then some []
  else if raw.length % 2 ≠ 0 then none
  else decodePairs raw

/-- The last `n` of the bytes, or all of them behind zeros. -/
def lastBytes (n : ℕ) (decoded : List UInt8) : List UInt8 :=
  if n ≤ decoded.length then decoded.drop (decoded.length - n)
  else List.replicate (n - decoded.length) 0 ++ decoded

theorem length_lastBytes (n : ℕ) (decoded : List UInt8) : (lastBytes n decoded).length = n := by
  unfold lastBytes
  split_ifs
  · rw [List.length_drop]
    omega
  · rw [List.length_append, List.length_replicate]
    omega

def decodeFixedHexBytes (n : ℕ) (input : String) : FixedBytes n :=
  ⟨lastBytes n ((decodeHexBytes input).getD []), length_lastBytes ..⟩

def encodeHexQuantityU64 (value : UInt64) : HexQuantity := ⟨hexNat value.toNat⟩

def encodeHexQuantityU128 (value : BitVec 128) : HexQuantity := ⟨hexNat value.toNat⟩

/-- The two functions `decode_hex_quantity_*`, for a number of `bits` bits. -/
def decodeHexQuantity (bits : ℕ) (value : HexQuantity) : ℕ :=
  let raw := stripHexPrefix (trim value.text.toList)
  if raw = [] then 0 else (fromStrRadix 16 bits raw).getD 0

def decodeHexQuantityU64 (value : HexQuantity) : UInt64 := .ofNat (decodeHexQuantity 64 value)

def decodeHexQuantityU128 (value : HexQuantity) : BitVec 128 := .ofNat 128 (decodeHexQuantity 128 value)

/-! ### The conversions -/

namespace Eth2077Block

def toExecutionPayload (b : Eth2077Block) : ExecutionPayloadV3 where
  parentHash := ⟨encodeHexBytes b.parentHash.toList⟩
  feeRecipient := ⟨encodeHexBytes b.feeRecipient.toList⟩
  stateRoot := ⟨encodeHexBytes b.stateRoot.toList⟩
  receiptsRoot := ⟨encodeHexBytes b.receiptsRoot.toList⟩
  logsBloom := ⟨encodeHexBytes (List.replicate 256 0)⟩
  prevRandao := ⟨encodeHexBytes (List.replicate 32 0)⟩
  blockNumber := encodeHexQuantityU64 b.blockNumber
  gasLimit := encodeHexQuantityU64 b.gasLimit
  gasUsed := encodeHexQuantityU64 b.gasUsed
  timestamp := encodeHexQuantityU64 b.timestamp
  extraData := .empty
  baseFeePerGas := encodeHexQuantityU128 b.baseFeePerGas
  blockHash := ⟨encodeHexBytes (List.replicate 32 0)⟩
  transactions := b.transactions.map fun tx => ⟨encodeHexBytes tx⟩
  withdrawals := b.withdrawals
  blobGasUsed := .zero
  excessBlobGas := .zero

/-- `From<ExecutionPayloadV3>`. -/
def ofExecutionPayload (value : ExecutionPayloadV3) : Eth2077Block where
  parentHash := decodeFixedHexBytes 32 value.parentHash.text
  feeRecipient := decodeFixedHexBytes 20 value.feeRecipient.text
  stateRoot := decodeFixedHexBytes 32 value.stateRoot.text
  receiptsRoot := decodeFixedHexBytes 32 value.receiptsRoot.text
  blockNumber := decodeHexQuantityU64 value.blockNumber
  gasLimit := decodeHexQuantityU64 value.gasLimit
  gasUsed := decodeHexQuantityU64 value.gasUsed
  timestamp := decodeHexQuantityU64 value.timestamp
  baseFeePerGas := decodeHexQuantityU128 value.baseFeePerGas
  transactions := value.transactions.map fun tx => (decodeHexBytes tx.text).getD []
  withdrawals := value.withdrawals

end Eth2077Block

/-! ### Bytes -/

theorem asBytes_ofList (cs : List Char) : asBytes (String.ofList cs) = cs.flatMap String.utf8EncodeChar := by
  simp [asBytes, List.utf8Encode]

/-- A nibble is written as one byte, and read back. -/
theorem decodeHexNibble_hexChar {nibble : UInt8} (h : nibble.toNat < 16) :
    ∃ byte, String.utf8EncodeChar (hexChar nibble) = [byte] ∧ decodeHexNibble byte = some nibble := by
  have key : ∀ n : Fin 16, (String.utf8EncodeChar (hexChar (.ofNat n))).map decodeHexNibble = [some (.ofNat n)] := by
    decide
  have hn := key ⟨nibble.toNat, h⟩
  rw [UInt8.ofNat_toNat] at hn
  obtain ⟨byte, hbyte, hdecode⟩ := List.map_eq_singleton_iff.mp hn
  exact ⟨byte, hbyte, hdecode⟩

theorem nibbles (byte : UInt8) : (byte >>> 4).toNat < 16 ∧ (byte &&& 0x0f).toNat < 16 ∧
    ((byte >>> 4) <<< 4) ||| (byte &&& 0x0f) = byte := by
  have key : ∀ n : Fin 256, ((UInt8.ofNat n) >>> 4).toNat < 16 ∧ ((UInt8.ofNat n) &&& 0x0f).toNat < 16 ∧
      (((UInt8.ofNat n) >>> 4) <<< 4) ||| ((UInt8.ofNat n) &&& 0x0f) = UInt8.ofNat n := by
    decide +kernel
  have hn := key ⟨byte.toNat, byte.toNat_lt⟩
  rwa [UInt8.ofNat_toNat] at hn

theorem isLowerHex_hexChar {nibble : UInt8} (h : nibble.toNat < 16) : IsLowerHex (hexChar nibble) := by
  have key : ∀ n : Fin 16, hexChar (.ofNat n) = Nat.digitChar n := by decide
  have hn := key ⟨nibble.toNat, h⟩
  rw [UInt8.ofNat_toNat] at hn
  rw [hn]
  exact isLowerHex_digitChar h

theorem isLowerHex_hexDigits {bytes : List UInt8} : ∀ c ∈ hexDigits bytes, IsLowerHex c := by
  intro c hc
  obtain ⟨byte, -, hc⟩ := List.mem_flatMap.mp hc
  obtain ⟨hhi, hlo, -⟩ := nibbles byte
  rcases List.mem_pair.mp hc with rfl | rfl
  · exact isLowerHex_hexChar hhi
  · exact isLowerHex_hexChar hlo

theorem stripHexPrefix_trim {digits : List Char} (h : ∀ c ∈ digits, IsLowerHex c) :
    stripHexPrefix (trim ('0' :: 'x' :: digits)) = digits := by
  rw [trim_canonical h]
  rfl

/-- Byte by byte, the pairs of digits are read back. -/
theorem decodePairs_hexDigits (bytes : List UInt8) :
    ((hexDigits bytes).flatMap String.utf8EncodeChar).length = 2 * bytes.length ∧
      decodePairs ((hexDigits bytes).flatMap String.utf8EncodeChar) = some bytes := by
  induction bytes with
  | nil => exact ⟨rfl, rfl⟩
  | cons byte bytes ih =>
    obtain ⟨hhi, hlo, hbyte⟩ := nibbles byte
    obtain ⟨a, ha, hdecodeA⟩ := decodeHexNibble_hexChar hhi
    obtain ⟨b, hb, hdecodeB⟩ := decodeHexNibble_hexChar hlo
    have hcons : (hexDigits (byte :: bytes)).flatMap String.utf8EncodeChar =
        a :: b :: (hexDigits bytes).flatMap String.utf8EncodeChar := by
      simp [hexDigits, ha, hb]
    obtain ⟨hlength, hpairs⟩ := ih
    rw [hcons]
    refine ⟨by simp only [List.length_cons, hlength]; omega, ?_⟩
    simp [decodePairs, hdecodeA, hdecodeB, hpairs, hbyte]

theorem decodeHexBytes_encodeHexBytes (bytes : List UInt8) : decodeHexBytes (encodeHexBytes bytes) = some bytes := by
  obtain ⟨hlength, hpairs⟩ := decodePairs_hexDigits bytes
  have hraw : asBytes (String.ofList (stripHexPrefix (trim (encodeHexBytes bytes).toList))) =
      (hexDigits bytes).flatMap String.utf8EncodeChar := by
    rw [encodeHexBytes, String.toList_ofList, stripHexPrefix_trim isLowerHex_hexDigits, asBytes_ofList]
  unfold decodeHexBytes
  simp only [hraw]
  split_ifs with hnil hodd
  · rw [hnil, List.length_nil] at hlength
    have hbytes : bytes = [] := List.length_eq_zero_iff.mp (by omega)
    rw [hbytes]
  · omega
  · exact hpairs

theorem decodeFixedHexBytes_encodeHexBytes {n : ℕ} (bytes : FixedBytes n) :
    decodeFixedHexBytes n (encodeHexBytes bytes.toList) = bytes := by
  have hlength : bytes.toList.length = n := bytes.toList_length
  apply List.Vector.toList_injective
  show lastBytes n ((decodeHexBytes (encodeHexBytes bytes.toList)).getD []) = bytes.toList
  rw [decodeHexBytes_encodeHexBytes, Option.getD_some, lastBytes, if_pos hlength.ge, hlength, Nat.sub_self,
    List.drop_zero]

/-! ### Quantities -/

theorem decodeHexQuantity_hexNat {n bits : ℕ} (h : n < 2 ^ bits) : decodeHexQuantity bits ⟨hexNat n⟩ = n := by
  have hlower : ∀ c ∈ Nat.toDigits 16 n, IsLowerHex c := isLowerHex_of_mem_toDigits (by decide) le_rfl
  have hread : fromStrRadix 16 bits (Nat.toDigits 16 n) = some n := by
    rw [fromStrRadix_toDigits (by decide) le_rfl le_rfl, Numeral.reread_self, if_pos h]
  unfold decodeHexQuantity
  simp only [toList_hexNat, stripHexPrefix_trim hlower, hread, Option.getD_some]
  rw [if_neg Nat.toDigits_ne_nil]

theorem decodeHexQuantityU64_encode (value : UInt64) :
    decodeHexQuantityU64 (encodeHexQuantityU64 value) = value := by
  rw [decodeHexQuantityU64, encodeHexQuantityU64, decodeHexQuantity_hexNat value.toNat_lt, UInt64.ofNat_toNat]

theorem decodeHexQuantityU128_encode (value : BitVec 128) :
    decodeHexQuantityU128 (encodeHexQuantityU128 value) = value := by
  rw [decodeHexQuantityU128, encodeHexQuantityU128, decodeHexQuantity_hexNat value.isLt, BitVec.ofNat_toNat,
    BitVec.setWidth_eq]

/-! ### There and back -/

theorem ofExecutionPayload_toExecutionPayload (b : Eth2077Block) :
    .ofExecutionPayload b.toExecutionPayload = b := by
  obtain ⟨parentHash, feeRecipient, stateRoot, receiptsRoot, blockNumber, gasLimit, gasUsed, timestamp, baseFeePerGas,
    transactions, withdrawals⟩ := b
  simp only [Eth2077Block.ofExecutionPayload, Eth2077Block.toExecutionPayload, decodeFixedHexBytes_encodeHexBytes,
    decodeHexQuantityU64_encode, decodeHexQuantityU128_encode, List.map_map, Function.comp_def,
    decodeHexBytes_encodeHexBytes, Option.getD_some, List.map_id']

/-- Every block comes back from its payload, and every payload of a block from its block. -/
theorem payload_round_trip : (∀ b : Eth2077Block, .ofExecutionPayload b.toExecutionPayload = b) ∧
    ∀ payload ∈ Set.range Eth2077Block.toExecutionPayload,
      (Eth2077Block.ofExecutionPayload payload).toExecutionPayload = payload := by
  refine ⟨ofExecutionPayload_toExecutionPayload, ?_⟩
  rintro _ ⟨b, rfl⟩
  rw [ofExecutionPayload_toExecutionPayload]

end Bridge

end Eth2077
