import Eth2077.Lib.Fallible
import Eth2077.Node.Parse

/-!
# Raw transactions (`node/src/bin/eth2077-devnetd.rs`, `decode_raw_tx`)

The fields of a signed transaction are read out of RLP one after the other. A malformed field is an error that
ends the reading; a number that is read into 256 bits and is longer than that is a panic. `safe_decodeRawTx`
says for which transactions there is none.
-/

namespace Eth2077

open Fallible

/-- What is used of the `rlp` crate. An `Rlp` is a view of some bytes; an error is its text. -/
structure RlpCrate where
  isList : List UInt8 → Bool
  itemCount : List UInt8 → Except String ℕ
  «at» : List UInt8 → ℕ → Except String (List UInt8)
  /-- `val_at::<Vec<u8>>`. -/
  valAt : List UInt8 → ℕ → Except String (List UInt8)

/-- `Result<_, String>` of a function that may panic. -/
abbrev Decode := ExceptT String (Except Panic)

/-! ### Conversions -/

/-- `U256::from_be_slice`. -/
def U256.fromBeSlice (bytes : List UInt8) : Except Panic U256 :=
  if 32 < bytes.length then .error ⟨"Value too large for Uint"⟩ else .ok (BitVec.ofNat 256 (ofBe bytes))

/-- `FixedBytes::from_slice`. -/
def FixedBytes.fromSlice (n : ℕ) (bytes : List UInt8) : Except Panic (FixedBytes n) :=
  if h : bytes.length = n then .ok ⟨bytes, h⟩
  else .error ⟨s!"cannot convert a slice of length {bytes.length} to FixedBytes<{n}>"⟩

/-- The loop of `hex_to_u64_be`. -/
def beU64 (bytes : List UInt8) : UInt64 := bytes.foldl (fun out b => (out <<< 8) ||| b.toUInt64) 0

/-- The loop of `hex_to_u128_be`. -/
def beU128 (bytes : List UInt8) : BitVec 128 :=
  bytes.foldl (fun out b => (out <<< 8) ||| b.toBitVec.setWidth 128) 0

/-- A number of at most `width` bytes. -/
def hexToBe {α : Type} (kind : String) (width : ℕ) (read : List UInt8 → α) (bytes : List UInt8) : Decode α :=
  if width < bytes.length then throw s!"integer overflows {kind}" else pure (read bytes)

def hexToU64Be (bytes : List UInt8) : Decode UInt64 := hexToBe "u64" 8 beU64 bytes

def hexToU128Be (bytes : List UInt8) : Decode (BitVec 128) := hexToBe "u128" 16 beU128 bytes

namespace RlpCrate
variable (rlp : RlpCrate)

/-! ### Fields -/

/-- The bytes of a field, for a reader of `kind`. -/
def field (kind : String) (item : List UInt8) (idx : ℕ) : Decode (List UInt8) :=
  orFail (fun e => s!"invalid {kind} field {idx}: {e}") (rlp.valAt item idx)

def rlpU64 (item : List UInt8) (idx : ℕ) : Decode UInt64 := do
  let raw ← rlp.field "u64" item idx
  hexToU64Be raw

def rlpU128 (item : List UInt8) (idx : ℕ) : Decode (BitVec 128) := do
  let raw ← rlp.field "u128" item idx
  hexToU128Be raw

def rlpU256 (item : List UInt8) (idx : ℕ) : Decode U256 := do
  let raw ← rlp.field "u256" item idx
  orPanic (U256.fromBeSlice raw)

def rlpBytes (item : List UInt8) (idx : ℕ) : Decode (List UInt8) := rlp.field "bytes" item idx

def rlpOptionalAddress (item : List UInt8) (idx : ℕ) : Decode (Option Address) := do
  let raw ← rlp.field "address" item idx
  if raw = [] then pure none
  else if raw.length = 20 then do
    let address ← orPanic (FixedBytes.fromSlice 20 raw)
    return some address
  else throw s!"invalid address length at field {idx}: {raw.length}"

/-- One turn of the loop of `rlp_b256_list`. -/
def b256Element (list : List UInt8) (idx i : ℕ) : Decode B256 := do
  let raw ← orFail (fun e => s!"invalid b256 element {i} at field {idx}: {e}") (rlp.valAt list i)
  if raw.length ≠ 32 then throw s!"invalid b256 length at field {idx}[{i}]: {raw.length} (expected 32)"
  else orPanic (FixedBytes.fromSlice 32 raw)

def rlpB256List (item : List UInt8) (idx : ℕ) : Decode (List B256) := do
  let list ← orFail (fun e => s!"invalid list field {idx}: {e}") (rlp.at item idx)
  if !rlp.isList list then throw s!"field {idx} must be a list"
  else do
    let count ← orFail (fun e => s!"failed counting list items at field {idx}: {e}") (rlp.itemCount list)
    (List.range count).mapM (rlp.b256Element list idx)

/-- An entry of the authorization list, once it is known to be a list. -/
def authorization (auth : List UInt8) (idx i : ℕ) : Decode SignedAuthorization := do
  let chainId ← rlp.rlpU256 auth 0
  let addressRaw ← orFail (fun e => s!"invalid authorization address at field {idx}[{i}]: {e}") (rlp.valAt auth 1)
  if addressRaw.length ≠ 20 then
    throw s!"invalid authorization address length at field {idx}[{i}]: {addressRaw.length}"
  else do
    let nonce ← rlp.rlpU64 auth 2
    let yParityRaw ← rlp.rlpU64 auth 3
    if 1 < yParityRaw then throw s!"invalid y_parity at field {idx}[{i}]: {yParityRaw} (expected 0 or 1)"
    else do
      let r ← rlp.rlpU256 auth 4
      let s ← rlp.rlpU256 auth 5
      let address ← orPanic (FixedBytes.fromSlice 20 addressRaw)
      return { chainId, address, nonce, yParity := yParityRaw.toUInt8, r, s }

/-- One turn of the loop of `rlp_signed_authorization_list`. -/
def authorizationEntry (list : List UInt8) (idx i : ℕ) : Decode SignedAuthorization := do
  let auth ← orFail (fun e => s!"invalid authorization entry {i} in field {idx}: {e}") (rlp.at list i)
  if !rlp.isList auth then throw s!"authorization entry {i} in field {idx} must be a list"
  else rlp.authorization auth idx i

def rlpSignedAuthorizationList (item : List UInt8) (idx : ℕ) : Decode (List SignedAuthorization) := do
  let list ← orFail (fun e => s!"invalid authorization list field {idx}: {e}") (rlp.at item idx)
  if !rlp.isList list then throw s!"field {idx} must be an authorization list"
  else do
    let count ← orFail (fun e => s!"failed counting authorization list items at field {idx}: {e}")
      (rlp.itemCount list)
    (List.range count).mapM (rlp.authorizationEntry list idx)

/-! ### Transactions -/

def decodeLegacy (item : List UInt8) : Decode DecodedRawTx := do
  let nonce ← rlp.rlpU64 item 0
  let gasPrice ← rlp.rlpU128 item 1
  let gasLimit ← rlp.rlpU64 item 2
  let «to» ← rlp.rlpOptionalAddress item 3
  let value ← rlp.rlpU256 item 4
  let data ← rlp.rlpBytes item 5
  return ⟨0, none, nonce, gasLimit, gasPrice, none, none, [], [], «to», value, data⟩

/-- EIP-2930. -/
def decode2930 (item : List UInt8) : Decode DecodedRawTx := do
  let chainId ← rlp.rlpU64 item 0
  let nonce ← rlp.rlpU64 item 1
  let gasPrice ← rlp.rlpU128 item 2
  let gasLimit ← rlp.rlpU64 item 3
  let «to» ← rlp.rlpOptionalAddress item 4
  let value ← rlp.rlpU256 item 5
  let data ← rlp.rlpBytes item 6
  return ⟨0x01, some chainId, nonce, gasLimit, gasPrice, none, none, [], [], «to», value, data⟩

/-- EIP-1559. -/
def decode1559 (item : List UInt8) : Decode DecodedRawTx := do
  let chainId ← rlp.rlpU64 item 0
  let nonce ← rlp.rlpU64 item 1
  let maxPriority ← rlp.rlpU128 item 2
  let maxFee ← rlp.rlpU128 item 3
  let gasLimit ← rlp.rlpU64 item 4
  let «to» ← rlp.rlpOptionalAddress item 5
  let value ← rlp.rlpU256 item 6
  let data ← rlp.rlpBytes item 7
  return ⟨0x02, some chainId, nonce, gasLimit, maxFee, some maxPriority, none, [], [], «to», value, data⟩

def accessList (item : List UInt8) : Decode (List UInt8) :=
  orFail (fun e => s!"invalid access list field 8: {e}") (rlp.at item 8)

/-- EIP-4844. -/
def decode4844 (item : List UInt8) : Decode DecodedRawTx := do
  let chainId ← rlp.rlpU64 item 0
  let nonce ← rlp.rlpU64 item 1
  let maxPriority ← rlp.rlpU128 item 2
  let maxFee ← rlp.rlpU128 item 3
  let gasLimit ← rlp.rlpU64 item 4
  let «to» ← rlp.rlpOptionalAddress item 5
  let value ← rlp.rlpU256 item 6
  let data ← rlp.rlpBytes item 7
  let accessList ← rlp.accessList item
  if !rlp.isList accessList then throw "invalid access list field 8: expected list"
  else do
    let maxFeePerBlobGas ← rlp.rlpU128 item 9
    let blobHashes ← rlp.rlpB256List item 10
    return ⟨0x03, some chainId, nonce, gasLimit, maxFee, some maxPriority, some maxFeePerBlobGas, blobHashes, [],
      «to», value, data⟩

/-- EIP-7702. -/
def decode7702 (item : List UInt8) : Decode DecodedRawTx := do
  let chainId ← rlp.rlpU64 item 0
  let nonce ← rlp.rlpU64 item 1
  let maxPriority ← rlp.rlpU128 item 2
  let maxFee ← rlp.rlpU128 item 3
  let gasLimit ← rlp.rlpU64 item 4
  let «to» ← rlp.rlpOptionalAddress item 5
  if «to» = none then throw "EIP-7702 transaction must include destination address"
  else do
    let value ← rlp.rlpU256 item 6
    let data ← rlp.rlpBytes item 7
    let accessList ← rlp.accessList item
    if !rlp.isList accessList then throw "invalid access list field 8: expected list"
    else do
      let authorizations ← rlp.rlpSignedAuthorizationList item 9
      if authorizations.isEmpty then throw "EIP-7702 authorization list must not be empty"
      else
        return ⟨0x04, some chainId, nonce, gasLimit, maxFee, some maxPriority, none, [], authorizations, «to»,
          value, data⟩

def decodeTyped (txType : UInt8) (payload : List UInt8) : Decode DecodedRawTx :=
  if !rlp.isList payload then throw s!"typed transaction {bytesToHex [txType]} is not an RLP list"
  else if txType = 0x01 then rlp.decode2930 payload
  else if txType = 0x02 then rlp.decode1559 payload
  else if txType = 0x03 then rlp.decode4844 payload
  else if txType = 0x04 then rlp.decode7702 payload
  else throw (s!"unsupported typed transaction: {bytesToHex [txType]} " ++
    "(supported: legacy, 0x01, 0x02, 0x03, 0x04)")

def decodeRawTx (rawTx : String) : Decode DecodedRawTx :=
  match parseHexBytes rawTx with
  | none => throw "raw transaction is not valid hex"
  | some [] => throw "raw transaction payload is empty"
  | some (first :: payload) =>
    if 0xc0 ≤ first then
      if !rlp.isList (first :: payload) then throw "legacy transaction is not an RLP list"
      else rlp.decodeLegacy (first :: payload)
    else rlp.decodeTyped first payload

/-! ### What the fields have to be -/

section Conditions
variable (item : List UInt8) (idx : ℕ)

/-- The field is there, with at most `n` bytes. -/
def Short (n : ℕ) : Prop := ∃ raw, rlp.valAt item idx = .ok raw ∧ raw.length ≤ n

/-- The field, if it is there, is no longer than a 256-bit number. -/
def FitsWord : Prop := ∀ raw, rlp.valAt item idx = .ok raw → raw.length ≤ 32

/-- The field is there, with the twenty bytes of an address. -/
def HasAddress : Prop := ∃ raw, rlp.valAt item idx = .ok raw ∧ raw.length = 20

/-- The field is there and is an address or empty. -/
def HasRecipient : Prop := ∃ raw, rlp.valAt item idx = .ok raw ∧ (raw = [] ∨ raw.length = 20)

/-- The field is there and is 0 or 1. -/
def HasParity : Prop := ∃ raw, rlp.valAt item idx = .ok raw ∧ raw.length ≤ 8 ∧ beU64 raw ≤ 1

/-- The field is there and is a list. -/
def HasList : Prop := ∃ list, rlp.at item idx = .ok list ∧ rlp.isList list = true

/-- The first fields are there, with at most so many bytes. -/
def Numbers (widths : List ℕ) : Prop := ∀ width ∈ widths.zipIdx, rlp.Short item width.2 width.1

/-- The value, which comes after the numbers and the recipient, fits if those can be read. -/
def ValueFits (widths : List ℕ) : Prop :=
  rlp.Numbers item widths → rlp.HasRecipient item widths.length → rlp.FitsWord item (widths.length + 1)

/-- What is read of an authorization before its signature. -/
def AuthorizationHead : Prop :=
  rlp.Short item 0 32 ∧ rlp.HasAddress item 1 ∧ rlp.Short item 2 8 ∧ rlp.HasParity item 3

/-- The chain id fits, and the signature if it is read. -/
def AuthorizationFits : Prop :=
  rlp.FitsWord item 0 ∧
    (rlp.AuthorizationHead item → rlp.FitsWord item 4 ∧ (rlp.Short item 4 32 → rlp.FitsWord item 5))

def AuthorizationReads : Prop := rlp.AuthorizationHead item ∧ rlp.Short item 4 32 ∧ rlp.Short item 5 32

/-- Every authorization fits up to the first that is refused. -/
def AuthorizationsFit : Prop :=
  ∀ list, rlp.at item idx = .ok list → rlp.isList list = true → ∀ count, rlp.itemCount list = .ok count →
    ∀ i < count, (∀ j < i, ∃ auth, rlp.at list j = .ok auth ∧ rlp.isList auth = true ∧ rlp.AuthorizationReads auth) →
      ∀ auth, rlp.at list i = .ok auth → rlp.isList auth = true → rlp.AuthorizationFits auth

/-- As `ValueFits`; a set-code transaction has a recipient, and after the value, the data and the access list
come the authorizations. -/
def SetCodeFits (widths : List ℕ) : Prop :=
  rlp.Numbers item widths → rlp.HasAddress item widths.length →
    rlp.FitsWord item (widths.length + 1) ∧
      (rlp.Short item (widths.length + 1) 32 → (∃ data, rlp.valAt item (widths.length + 2) = .ok data) →
        rlp.HasList item (widths.length + 3) → rlp.AuthorizationsFit item (widths.length + 4))

end Conditions

/-- The numbers of 256 bits that decoding the bytes comes to are no longer than that. -/
def BytesFit : List UInt8 → Prop
  | [] => True
  | first :: payload =>
    if 0xc0 ≤ first then rlp.isList (first :: payload) = true → rlp.ValueFits (first :: payload) [8, 16, 8]
    else
      rlp.isList payload = true →
        (first = 0x01 → rlp.ValueFits payload [8, 8, 16, 8]) ∧
        (first = 0x02 ∨ first = 0x03 → rlp.ValueFits payload [8, 8, 16, 16, 8]) ∧
        (first = 0x04 → rlp.SetCodeFits payload [8, 8, 16, 16, 8])

variable {rlp} {item list auth : List UInt8} {idx i : ℕ}

theorem completes_fromBeSlice {bytes : List UInt8} : Completes (U256.fromBeSlice bytes) ↔ bytes.length ≤ 32 := by
  unfold U256.fromBeSlice
  split_ifs with h
  · simpa using h
  · simpa using h

theorem completes_fromSlice {n : ℕ} {bytes : List UInt8} (h : bytes.length = n) :
    Completes (FixedBytes.fromSlice n bytes) := by
  rw [FixedBytes.fromSlice, dif_pos h]
  exact completes_ok _

@[simp] theorem safe_field (kind : String) : Safe (rlp.field kind item idx) := safe_orFail _ _

@[simp] theorem returns_field {kind : String} {raw : List UInt8} :
    Returns (rlp.field kind item idx) raw ↔ rlp.valAt item idx = .ok raw := returns_orFail

section Numbers
variable {α : Type} {kind : String} {width : ℕ} {read : List UInt8 → α}

theorem safe_number : Safe (rlp.field kind item idx >>= hexToBe kind width read) := by
  rw [safe_bind]
  refine ⟨safe_field _, fun raw _ => ?_⟩
  unfold hexToBe
  split_ifs
  · exact safe_throw _
  · exact safe_pure _

theorem returns_number {n : α} : Returns (rlp.field kind item idx >>= hexToBe kind width read) n ↔
    ∃ raw, rlp.valAt item idx = .ok raw ∧ raw.length ≤ width ∧ read raw = n := by
  simp only [returns_bind, returns_field, hexToBe]
  refine exists_congr fun raw => and_congr_right fun _ => ?_
  split_ifs with h
  · exact iff_of_false not_returns_throw fun hle => by omega
  · simp only [returns_pure, not_lt.mp h, true_and]

theorem succeeds_number : Succeeds (rlp.field kind item idx >>= hexToBe kind width read) ↔
    rlp.Short item idx width := by
  simp only [Succeeds, returns_number, Short]
  constructor
  · rintro ⟨-, raw, hraw, hlen, -⟩
    exact ⟨raw, hraw, hlen⟩
  · rintro ⟨raw, hraw, hlen⟩
    exact ⟨_, raw, hraw, hlen, rfl⟩

end Numbers

@[simp] theorem safe_rlpU64 : Safe (rlp.rlpU64 item idx) := safe_number

theorem succeeds_rlpU64 : Succeeds (rlp.rlpU64 item idx) ↔ rlp.Short item idx 8 := succeeds_number

@[simp] theorem safe_rlpU128 : Safe (rlp.rlpU128 item idx) := safe_number

theorem succeeds_rlpU128 : Succeeds (rlp.rlpU128 item idx) ↔ rlp.Short item idx 16 := succeeds_number

theorem hasParity_iff : (∃ n, Returns (rlp.rlpU64 item idx) n ∧ ¬ 1 < n) ↔ rlp.HasParity item idx := by
  constructor
  · rintro ⟨n, hn, hle⟩
    obtain ⟨raw, hraw, hlen, rfl⟩ := returns_number.mp hn
    exact ⟨raw, hraw, hlen, UInt64.not_lt.mp hle⟩
  · rintro ⟨raw, hraw, hlen, hle⟩
    exact ⟨beU64 raw, returns_number.mpr ⟨raw, hraw, hlen, rfl⟩, UInt64.not_lt.mpr hle⟩

@[simp] theorem safe_rlpU256 : Safe (rlp.rlpU256 item idx) ↔ rlp.FitsWord item idx := by
  simp only [rlpU256, safe_bind, safe_field, true_and, returns_field, safe_orPanic, completes_fromBeSlice, FitsWord]

theorem succeeds_rlpU256 : Succeeds (rlp.rlpU256 item idx) ↔ rlp.Short item idx 32 := by
  simp only [Succeeds, rlpU256, returns_bind, returns_field, returns_orPanic, Short]
  rw [exists_comm]
  refine exists_congr fun raw => ?_
  rw [exists_and_left, ← completes_fromBeSlice]
  rfl

@[simp] theorem safe_rlpBytes : Safe (rlp.rlpBytes item idx) := safe_field _

theorem succeeds_rlpBytes : Succeeds (rlp.rlpBytes item idx) ↔ ∃ raw, rlp.valAt item idx = .ok raw := by
  simp only [Succeeds, rlpBytes, returns_field]

@[simp] theorem safe_rlpOptionalAddress : Safe (rlp.rlpOptionalAddress item idx) := by
  rw [rlpOptionalAddress, safe_bind]
  refine ⟨safe_field _, fun raw _ => ?_⟩
  split_ifs with hempty hlen
  · exact safe_pure _
  · rw [safe_bind_const fun _ => iff_true_intro (safe_pure _), safe_orPanic]
    exact ⟨completes_fromSlice hlen, fun _ => trivial⟩
  · exact safe_throw _

theorem returns_rlpOptionalAddress {recipient : Option Address} :
    Returns (rlp.rlpOptionalAddress item idx) recipient ↔
      rlp.valAt item idx = .ok (recipient.elim [] List.Vector.toList) := by
  simp only [rlpOptionalAddress, returns_bind, returns_field]
  constructor
  · rintro ⟨raw, hraw, hrecipient⟩
    split_ifs at hrecipient with hempty hlen
    · rw [returns_pure] at hrecipient
      rw [hraw, hempty, ← hrecipient]
      rfl
    · obtain ⟨address, haddress, hrecipient⟩ := returns_bind.mp hrecipient
      rw [returns_orPanic, FixedBytes.fromSlice, dif_pos hlen] at haddress
      rw [returns_pure] at hrecipient
      rw [hraw, ← hrecipient, ← Except.ok.inj haddress]
      rfl
    · cases hrecipient
  · intro h
    refine ⟨_, h, ?_⟩
    cases recipient with
    | none => simp
    | some address =>
      have hlen : address.toList.length = 20 := address.2
      have hne : address.toList ≠ [] := by
        intro hnil
        simp [hnil] at hlen
      simp only [Option.elim_some, hne, hlen, if_true, if_false]
      refine returns_bind.mpr ⟨address, ?_, returns_pure.mpr rfl⟩
      rw [returns_orPanic, FixedBytes.fromSlice, dif_pos hlen]
      rfl

theorem succeeds_rlpOptionalAddress : Succeeds (rlp.rlpOptionalAddress item idx) ↔ rlp.HasRecipient item idx := by
  simp only [Succeeds, returns_rlpOptionalAddress, HasRecipient]
  constructor
  · rintro ⟨recipient, h⟩
    refine ⟨_, h, ?_⟩
    cases recipient with
    | none => exact .inl rfl
    | some address => exact .inr address.2
  · rintro ⟨raw, hraw, rfl | hlen⟩
    · exact ⟨none, hraw⟩
    · exact ⟨some ⟨raw, hlen⟩, hraw⟩

theorem hasAddress_iff :
    (∃ recipient, Returns (rlp.rlpOptionalAddress item idx) recipient ∧ ¬ recipient = none) ↔
      rlp.HasAddress item idx := by
  simp only [returns_rlpOptionalAddress, HasAddress]
  constructor
  · rintro ⟨recipient, h, hne⟩
    obtain ⟨address, rfl⟩ := Option.ne_none_iff_exists'.mp hne
    exact ⟨_, h, address.2⟩
  · rintro ⟨raw, hraw, hlen⟩
    exact ⟨some ⟨raw, hlen⟩, hraw, by simp⟩

/-! ### Lists -/

@[simp] theorem safe_rlpB256List : Safe (rlp.rlpB256List item idx) := by
  have helement : ∀ list i, Safe (rlp.b256Element list idx i) := by
    intro list i
    rw [b256Element, safe_bind_guard fun raw hlen => iff_true_intro ?_]
    · exact ⟨safe_orFail _ _, fun _ => trivial⟩
    · exact safe_orPanic.mpr (completes_fromSlice (not_not.mp hlen))
  rw [rlpB256List, safe_bind_guard fun list _ => iff_true_intro ?_]
  · exact ⟨safe_orFail _ _, fun _ => trivial⟩
  · rw [safe_bind]
    exact ⟨safe_orFail _ _, fun count _ => safe_mapM_range.mpr fun i _ _ => helement list i⟩

/-- The address has been checked, so making one of the bytes does not panic. -/
theorem safe_address {raw : List UInt8} {n : ℕ} (hlen : ¬ raw.length ≠ n) {β : Type} (f : FixedBytes n → β) :
    Safe (orPanic (FixedBytes.fromSlice n raw) >>= fun address => (pure (f address) : Decode β)) := by
  rw [safe_bind_const fun _ => iff_true_intro (safe_pure _), safe_orPanic]
  exact ⟨completes_fromSlice (not_not.mp hlen), fun _ => trivial⟩

theorem succeeds_address {raw : List UInt8} {n : ℕ} (hlen : ¬ raw.length ≠ n) {β : Type} (f : FixedBytes n → β) :
    Succeeds (orPanic (FixedBytes.fromSlice n raw) >>= fun address => (pure (f address) : Decode β)) := by
  rw [succeeds_bind_const fun _ => iff_true_intro (succeeds_pure _), and_true]
  obtain ⟨address, h⟩ := completes_fromSlice (not_not.mp hlen)
  exact ⟨address, returns_orPanic.mpr h⟩

theorem hasAddressField_iff {f : String → String} :
    (∃ raw, Returns (orFail f (rlp.valAt item idx) : Decode (List UInt8)) raw ∧ ¬ raw.length ≠ 20) ↔
      rlp.HasAddress item idx := by
  simp [HasAddress]

theorem safe_authorization : Safe (rlp.authorization auth idx i) ↔ rlp.AuthorizationFits auth := by
  rw [authorization, safe_bind_const fun _ => safe_bind_guard fun _ hlen => safe_bind_const fun _ =>
    safe_bind_guard fun _ _ => safe_bind_const fun _ => safe_bind_const fun _ => iff_true_intro (safe_address hlen _)]
  simp only [safe_rlpU256, safe_rlpU64, safe_orFail, true_and, succeeds_rlpU256, succeeds_rlpU64, hasParity_iff,
    hasAddressField_iff, implies_true, and_true, AuthorizationFits, AuthorizationHead, and_imp]

theorem succeeds_authorization : Succeeds (rlp.authorization auth idx i) ↔ rlp.AuthorizationReads auth := by
  rw [authorization, succeeds_bind_const fun _ => succeeds_bind_guard fun _ hlen => succeeds_bind_const fun _ =>
    succeeds_bind_guard fun _ _ => succeeds_bind_const fun _ => succeeds_bind_const fun _ =>
      iff_true_intro (succeeds_address hlen _)]
  simp only [succeeds_rlpU256, succeeds_rlpU64, hasParity_iff, hasAddressField_iff, and_true, AuthorizationReads,
    AuthorizationHead, and_assoc]

theorem safe_authorizationEntry : Safe (rlp.authorizationEntry list idx i) ↔
    ∀ auth, rlp.at list i = .ok auth → rlp.isList auth = true → rlp.AuthorizationFits auth := by
  simp only [authorizationEntry, safe_bind, safe_orFail, true_and, returns_orFail]
  refine forall_congr' fun auth => imp_congr_right fun _ => ?_
  cases rlp.isList auth with
  | false => simp
  | true => simp [safe_authorization]

theorem succeeds_authorizationEntry : Succeeds (rlp.authorizationEntry list idx i) ↔
    ∃ auth, rlp.at list i = .ok auth ∧ rlp.isList auth = true ∧ rlp.AuthorizationReads auth := by
  simp only [Succeeds, authorizationEntry, returns_bind, returns_orFail]
  rw [exists_comm]
  refine exists_congr fun auth => ?_
  rw [exists_and_left, and_congr_right_iff]
  intro _
  cases rlp.isList auth with
  | false => simp
  | true =>
    have hreads : Succeeds (rlp.authorization auth idx i) ↔ rlp.AuthorizationReads auth := succeeds_authorization
    simp only [← hreads, true_and]
    rfl

theorem safe_rlpSignedAuthorizationList :
    Safe (rlp.rlpSignedAuthorizationList item idx) ↔ rlp.AuthorizationsFit item idx := by
  simp only [rlpSignedAuthorizationList, safe_bind, safe_orFail, true_and, returns_orFail]
  refine forall_congr' fun list => imp_congr_right fun _ => ?_
  cases rlp.isList list with
  | false => simp
  | true =>
    simp [safe_bind, safe_mapM_range, safe_authorizationEntry, succeeds_authorizationEntry]

/-! ### Transactions -/

/-- The recipient, the value and the data, and a rest that cannot panic. -/
theorem safe_recipient_value {k : Option Address → U256 → List UInt8 → Decode DecodedRawTx}
    (hk : ∀ recipient value data, Safe (k recipient value data)) :
    Safe (do
      let recipient ← rlp.rlpOptionalAddress item idx
      let value ← rlp.rlpU256 item (idx + 1)
      let data ← rlp.rlpBytes item (idx + 2)
      k recipient value data) ↔ (rlp.HasRecipient item idx → rlp.FitsWord item (idx + 1)) := by
  have hdata : ∀ recipient value, Safe (do
      let data ← rlp.rlpBytes item (idx + 2)
      k recipient value data) := by
    intro recipient value
    rw [safe_bind]
    exact ⟨safe_rlpBytes, fun data _ => hk recipient value data⟩
  rw [safe_bind_const fun recipient => safe_bind_const fun value => iff_true_intro (hdata recipient value)]
  simp [succeeds_rlpOptionalAddress]

theorem safe_decodeLegacy : Safe (rlp.decodeLegacy item) ↔ rlp.ValueFits item [8, 16, 8] := by
  rw [decodeLegacy, safe_bind_const fun _ => safe_bind_const fun _ => safe_bind_const fun _ =>
    safe_recipient_value fun _ _ _ => safe_pure _]
  simp [ValueFits, Numbers, succeeds_rlpU64, succeeds_rlpU128]

theorem safe_decode2930 : Safe (rlp.decode2930 item) ↔ rlp.ValueFits item [8, 8, 16, 8] := by
  rw [decode2930, safe_bind_const fun _ => safe_bind_const fun _ => safe_bind_const fun _ => safe_bind_const fun _ =>
    safe_recipient_value fun _ _ _ => safe_pure _]
  simp [ValueFits, Numbers, succeeds_rlpU64, succeeds_rlpU128]

theorem safe_decode1559 : Safe (rlp.decode1559 item) ↔ rlp.ValueFits item [8, 8, 16, 16, 8] := by
  rw [decode1559, safe_bind_const fun _ => safe_bind_const fun _ => safe_bind_const fun _ => safe_bind_const fun _ =>
    safe_bind_const fun _ => safe_recipient_value fun _ _ _ => safe_pure _]
  simp [ValueFits, Numbers, succeeds_rlpU64, succeeds_rlpU128]

/-- The blobs come after the value and cannot panic. -/
theorem safe_blobs {f : BitVec 128 → List B256 → DecodedRawTx} :
    Safe (do
      let accessList ← rlp.accessList item
      if !rlp.isList accessList then throw "invalid access list field 8: expected list"
      else do
        let maxFeePerBlobGas ← rlp.rlpU128 item 9
        let blobHashes ← rlp.rlpB256List item 10
        return f maxFeePerBlobGas blobHashes) := by
  rw [safe_bind_guard fun _ _ => safe_bind_const fun _ => safe_bind_const fun _ => iff_true_intro (safe_pure _)]
  simp [accessList]

theorem safe_decode4844 : Safe (rlp.decode4844 item) ↔ rlp.ValueFits item [8, 8, 16, 16, 8] := by
  rw [decode4844, safe_bind_const fun _ => safe_bind_const fun _ => safe_bind_const fun _ => safe_bind_const fun _ =>
    safe_bind_const fun _ => safe_recipient_value fun _ _ _ => safe_blobs]
  simp [ValueFits, Numbers, succeeds_rlpU64, succeeds_rlpU128]

/-- What comes after the data of a set-code transaction panics only in the authorizations. -/
theorem safe_setCode {f : List SignedAuthorization → DecodedRawTx} :
    Safe (do
      let accessList ← rlp.accessList item
      if !rlp.isList accessList then throw "invalid access list field 8: expected list"
      else do
        let authorizations ← rlp.rlpSignedAuthorizationList item 9
        if authorizations.isEmpty then throw "EIP-7702 authorization list must not be empty"
        else return f authorizations) ↔
      (rlp.HasList item 8 → rlp.AuthorizationsFit item 9) := by
  rw [safe_bind_guard fun _ _ => safe_bind_guard fun _ _ => iff_true_intro (safe_pure _)]
  simp [accessList, safe_rlpSignedAuthorizationList, HasList]

theorem safe_decode7702 : Safe (rlp.decode7702 item) ↔ rlp.SetCodeFits item [8, 8, 16, 16, 8] := by
  rw [decode7702, safe_bind_const fun _ => safe_bind_const fun _ => safe_bind_const fun _ => safe_bind_const fun _ =>
    safe_bind_const fun _ => safe_bind_guard fun _ _ => safe_bind_const fun _ => safe_bind_const fun _ => safe_setCode]
  simp [SetCodeFits, Numbers, succeeds_rlpU64, succeeds_rlpU128, succeeds_rlpU256, succeeds_rlpBytes, hasAddress_iff]

theorem safe_decodeTyped {txType : UInt8} {payload : List UInt8} : Safe (rlp.decodeTyped txType payload) ↔
    (rlp.isList payload = true →
      (txType = 0x01 → rlp.ValueFits payload [8, 8, 16, 8]) ∧
      (txType = 0x02 ∨ txType = 0x03 → rlp.ValueFits payload [8, 8, 16, 16, 8]) ∧
      (txType = 0x04 → rlp.SetCodeFits payload [8, 8, 16, 16, 8])) := by
  unfold decodeTyped
  cases rlp.isList payload with
  | false => simp
  | true =>
    simp only [Bool.not_true, Bool.false_eq_true, if_false, true_implies]
    split_ifs with h1 h2 h3 h4
    · simp [h1, safe_decode2930]
    · simp [h2, safe_decode1559]
    · simp [h3, safe_decode4844]
    · simp [h4, safe_decode7702]
    · simp [h1, h2, h3, h4]

/-- Decoding a raw transaction panics exactly on the numbers that are too long. -/
theorem safe_decodeRawTx {rawTx : String} : Safe (rlp.decodeRawTx rawTx) ↔
    ∀ bytes, parseHexBytes rawTx = some bytes → rlp.BytesFit bytes := by
  unfold decodeRawTx
  split
  · simp [*]
  · simp [*, BytesFit]
  · rename_i first payload hbytes
    simp only [hbytes, Option.some_inj, forall_eq', BytesFit]
    by_cases hlegacy : 0xc0 ≤ first
    · simp only [if_pos hlegacy]
      cases rlp.isList (first :: payload) with
      | false => simp
      | true => simp [safe_decodeLegacy]
    · simp only [if_neg hlegacy]
      exact safe_decodeTyped

/-! ### Short lists -/

/-- The items of a list with their headers, where none is longer than 55 bytes; at most `fuel` of them. -/
def shortItems : ℕ → List UInt8 → List (List UInt8)
  | 0, _ => []
  | _, [] => []
  | fuel + 1, b :: bytes =>
    let len := if b < 0x80 then 0 else if b < 0xc0 then (b - 0x80).toNat else (b - 0xc0).toNat
    (b :: bytes.take len) :: shortItems fuel (bytes.drop len)

/-- What the crate does with a list of at most 55 bytes. -/
def shortLists : RlpCrate :=
  let item (bytes : List UInt8) (i : ℕ) : Except String (List UInt8) :=
    match (shortItems bytes.length bytes.tail)[i]? with
    | some item => .ok item
    | none => .error "RlpIsTooShort"
  { isList := fun bytes => bytes.head?.any fun b => 0xc0 ≤ b
    itemCount := fun bytes => .ok (shortItems bytes.length bytes.tail).length
    «at» := item
    valAt := fun bytes i => (item bytes i).bind fun item =>
      match item with
      | [] => .error "RlpIsTooShort"
      | b :: payload =>
        if b < 0x80 then .ok [b] else if b < 0xc0 then .ok payload else .error "RlpExpectedToBeData" }

end RlpCrate

end Eth2077
