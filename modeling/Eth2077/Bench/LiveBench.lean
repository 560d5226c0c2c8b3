import Eth2077.Lib.Rlp
import Eth2077.Node.Numbers
import Eth2077.Node.ReplayProtection

/-!
# The live bench (`live-bench/src/main.rs`)

The bench asks a daemon for the nonce of a sender, builds a transaction of type 2 without a signature and sends it.
The daemon reads the fields back and runs the transaction for the address it was last asked about, so that the two
requests together are a transfer of that sender (`live_bench_transfer`). The senders are the addresses that follow
the one on the command line; the counter wraps at the end of the address space (`senders_distinct`).
-/

namespace Eth2077

namespace LiveBench

open Fallible Rpc

/-! ### What is sent -/

/-- The items that are appended to the `RlpStream`. -/
def type2Fields (chainId nonce : UInt64) («to» : Address)
    (valueWei gasLimit maxPriorityFeePerGas maxFeePerGas : UInt64) : List (List UInt8) :=
  let number (n : UInt64) : List UInt8 := Rlp.trimmed 8 n.toNat
  [number chainId, number nonce, number maxPriorityFeePerGas, number maxFeePerGas, number gasLimit, «to».toList,
    number valueWei, []]

def typedTxHex (txType : UInt8) (payload : List UInt8) : String := bytesToHex (txType :: payload)

/-- `rlpList` is what `s.out()` gives after the items. -/
def buildType2RawTx (rlpList : List (List UInt8) → List UInt8) (chainId nonce : UInt64) («to» : Address)
    (valueWei gasLimit maxPriorityFeePerGas maxFeePerGas : UInt64) : String :=
  typedTxHex 0x02 (rlpList (type2Fields chainId nonce «to» valueWei gasLimit maxPriorityFeePerGas maxFeePerGas))

/-- The bench's own reading of a quantity. -/
def parseHexU64 (input : String) : Option UInt64 :=
  (fromStrRadix 16 64 (strip0x (trim input.toList))).map UInt64.ofNat

/-! ### Senders -/

def parseAddress (addr : String) : Except String Address :=
  let raw := strip0x (trim addr.toList)
  if raw.length ≠ 40 ∨ !raw.all isAsciiHexdigit then .error ("invalid address: " ++ addr)
  else if h : (hexDecode raw).length = 20 then .ok ⟨hexDecode raw, h⟩
  else .error "invalid address hex"

def canonicalAddress (addr : String) : Except String String := do
  let bytes ← parseAddress addr
  return bytesToHex bytes.toList

/-- The second loop of `add_u64_to_address`; the bytes are those before the last eight, the last of them first. -/
def carryInto : ℕ → List UInt8 → List UInt8
  | _, [] => []
  | carry, b :: bytes =>
    if carry = 0 then b :: bytes
    else UInt8.ofNat ((b.toNat + carry) % 256) :: carryInto ((b.toNat + carry) / 256) bytes

/-- The first loop, with `k` turns to go. -/
def addBytes : ℕ → ℕ → ℕ → List UInt8 → List UInt8
  | 0, _, carry, bytes => carryInto carry bytes
  | _ + 1, _, _, [] => []
  | k + 1, n, carry, b :: bytes =>
    UInt8.ofNat ((b.toNat + n % 256 + carry) % 256) :: addBytes k (n / 256) ((b.toNat + n % 256 + carry) / 256) bytes

theorem length_carryInto (carry : ℕ) (bytes : List UInt8) : (carryInto carry bytes).length = bytes.length := by
  induction bytes generalizing carry with
  | nil => rfl
  | cons b bytes ih =>
    rw [carryInto]
    split_ifs
    · rfl
    · rw [List.length_cons, ih, List.length_cons]

theorem length_addBytes (k n carry : ℕ) (bytes : List UInt8) : (addBytes k n carry bytes).length = bytes.length := by
  induction k generalizing n carry bytes with
  | zero => exact length_carryInto carry bytes
  | succ k ih =>
    cases bytes with
    | nil => rfl
    | cons b bytes => rw [addBytes, List.length_cons, ih, List.length_cons]

def addU64ToAddress (addr : Address) (n : UInt64) : Address :=
  ⟨(addBytes 8 n.toNat 0 addr.toList.reverse).reverse, by simp [length_addBytes]⟩

/-- The addresses from the base on; there is always one. -/
def deriveSenders (base : String) (count : UInt64) : Except String (List String) := do
  let canonical ← canonicalAddress base
  let baseAddr ← parseAddress canonical
  return (List.range (max count.toNat 1)).map fun i =>
    bytesToHex (addU64ToAddress baseAddr (UInt64.ofNat i)).toList

/-! ### Adding to an address -/

theorem ofBe_reverse_cons (b : UInt8) (bytes : List UInt8) :
    ofBe (b :: bytes).reverse = ofBe bytes.reverse * 256 + b.toNat := by
  rw [List.reverse_cons]
  generalize bytes.reverse = front
  induction front with
  | nil => simp [ofBe]
  | cons a front ih =>
    rw [List.cons_append, ofBe, ih, ofBe, List.length_append, List.length_singleton, pow_succ]
    ring

/-- One byte of a sum, and what is carried. -/
theorem carry_step {x y k sum : ℕ} (h : y % 256 ^ k = (x + sum / 256) % 256 ^ k) :
    y % 256 ^ k * 256 + sum % 256 = (x * 256 + sum) % 256 ^ (k + 1) := by
  rw [pow_succ, mul_comm (256 ^ k), Nat.mod_mul, h]
  have h1 : (x * 256 + sum) % 256 = sum % 256 := by omega
  have h2 : (x * 256 + sum) / 256 = x + sum / 256 := by omega
  rw [h1, h2]
  omega

theorem ofBe_carryInto (carry : ℕ) (bytes : List UInt8) :
    ofBe (carryInto carry bytes).reverse = (ofBe bytes.reverse + carry) % 256 ^ bytes.length := by
  induction bytes generalizing carry with
  | nil => simp [carryInto, ofBe, Nat.mod_one]
  | cons b bytes ih =>
    have hlt := ofBe_lt (b :: bytes).reverse
    rw [List.length_reverse] at hlt
    rw [carryInto]
    split_ifs with hzero
    · rw [hzero, add_zero, Nat.mod_eq_of_lt hlt]
    · rw [ofBe_reverse_cons, ofBe_reverse_cons, ih, UInt8.toNat_ofNat', Nat.mod_mod, List.length_cons, add_assoc]
      rw [← carry_step (Nat.mod_mod _ _), Nat.mod_mod]

theorem ofBe_addBytes {k n carry : ℕ} {bytes : List UInt8} (hk : k ≤ bytes.length) (hn : n < 256 ^ k) :
    ofBe (addBytes k n carry bytes).reverse = (ofBe bytes.reverse + n + carry) % 256 ^ bytes.length := by
  induction k generalizing n carry bytes with
  | zero =>
    obtain rfl : n = 0 := by omega
    rw [addBytes, ofBe_carryInto, add_zero]
  | succ k ih =>
    cases bytes with
    | nil => cases hk
    | cons b bytes =>
      have hquot : n / 256 < 256 ^ k := by
        rw [Nat.div_lt_iff_lt_mul (by decide), ← pow_succ]
        exact hn
      rw [addBytes, ofBe_reverse_cons, ofBe_reverse_cons, ih (by simpa using hk) hquot, UInt8.toNat_ofNat', Nat.mod_mod,
        List.length_cons]
      have hsum : ofBe bytes.reverse * 256 + b.toNat + n + carry =
          (ofBe bytes.reverse + n / 256) * 256 + (b.toNat + n % 256 + carry) := by omega
      rw [hsum, ← carry_step (Nat.mod_mod _ _), Nat.mod_mod]

theorem ofBe_addU64ToAddress (addr : Address) (n : UInt64) :
    ofBe (addU64ToAddress addr n).toList = (ofBe addr.toList + n.toNat) % 2 ^ 160 := by
  show ofBe (addBytes 8 n.toNat 0 addr.toList.reverse).reverse = _
  have hlen : addr.toList.reverse.length = 20 := by simp
  rw [ofBe_addBytes (by omega) n.toNat_lt, List.reverse_reverse, hlen]
  rfl

theorem toList_bytesToHex (bytes : List UInt8) : (bytesToHex bytes).toList = '0' :: 'x' :: (hexEncode bytes).toList := by
  rw [bytesToHex, String.toList_append]
  rfl

theorem length_hexEncode (bytes : List UInt8) : (hexEncode bytes).toList.length = 2 * bytes.length := by
  simp [hexEncode, mul_comm]

theorem hexDecode_hexEncode (bytes : List UInt8) : hexDecode (hexEncode bytes).toList = bytes := by
  refine hexEncode_injective (String.toList_injective ?_)
  refine hexEncode_hexDecode ?_ fun c hc => isLowerHex_of_mem_hexEncode c hc
  rw [length_hexEncode]
  omega

theorem all_isAsciiHexdigit_hexEncode (bytes : List UInt8) : (hexEncode bytes).toList.all isAsciiHexdigit = true :=
  List.all_eq_true.mpr fun c hc => (isLowerHex_of_mem_hexEncode c hc).spec.1

theorem parseAddress_bytesToHex (addr : Address) : parseAddress (bytesToHex addr.toList) = .ok addr := by
  have hlen : (hexEncode addr.toList).toList.length = 40 := by
    rw [length_hexEncode, addr.toList_length]
  have hdecode : hexDecode (hexEncode addr.toList).toList = addr.toList := hexDecode_hexEncode _
  rw [parseAddress, toList_bytesToHex, trim_canonical fun c hc => isLowerHex_of_mem_hexEncode c hc, strip0x,
    all_isAsciiHexdigit_hexEncode]
  simp only [hlen, hdecode, addr.toList_length]
  rfl

theorem toNat_ofNat_of_lt {i : ℕ} {count : UInt64} (h : i < max count.toNat 1) : (UInt64.ofNat i).toNat = i := by
  have := count.toNat_lt
  exact UInt64.toNat_ofNat_of_lt' (by rw [show UInt64.size = 2 ^ 64 from rfl]; omega)

/-- The bench's senders are as many as were asked for, at least one, and no two are the same address. -/
theorem senders_distinct (base : String) (count : UInt64) (senders : List String)
    (h : deriveSenders base count = .ok senders) :
    senders.length = max count.toNat 1 ∧ senders.Nodup ∧ ∃ baseAddr, parseAddress base = .ok baseAddr ∧
      ∀ i < senders.length, ∃ addr : Address, senders[i]? = some (bytesToHex addr.toList) ∧
        ofBe addr.toList = (ofBe baseAddr.toList + i) % 2 ^ 160 := by
  obtain ⟨canonical, hcanonical, h⟩ := except_bind_eq_ok.mp h
  obtain ⟨baseAddr, hbase, hpure⟩ := except_bind_eq_ok.mp hcanonical
  cases hpure
  rw [parseAddress_bytesToHex] at h
  cases h
  have hlt : ∀ i ∈ List.range (max count.toNat 1), (UInt64.ofNat i).toNat = i := fun i hi =>
    toNat_ofNat_of_lt (List.mem_range.mp hi)
  refine ⟨by simp, List.nodup_range.map_on fun i hi j hj heq => ?_, baseAddr, hbase, fun i hi => ?_⟩
  · have hbytes := congrArg ofBe (bytesToHex_injective heq)
    rw [ofBe_addU64ToAddress, ofBe_addU64ToAddress, hlt i hi, hlt j hj] at hbytes
    have hi' := (UInt64.ofNat i).toNat_lt
    have hj' := (UInt64.ofNat j).toNat_lt
    rw [hlt i hi] at hi'
    rw [hlt j hj] at hj'
    omega
  · rw [List.length_map, List.length_range] at hi
    refine ⟨addU64ToAddress baseAddr (UInt64.ofNat i), ?_, ?_⟩
    · rw [List.getElem?_map, List.getElem?_range hi]
      rfl
    · rw [ofBe_addU64ToAddress, toNat_ofNat_of_lt hi]

/-! ### Reading back -/

/-- The list reads as the items it was made of. -/
structure ReadsBack (rlp : RlpCrate) (rlpList : List (List UInt8) → List UInt8) (items : List (List UInt8)) : Prop where
  isList : rlp.isList (rlpList items) = true
  valAt : ∀ i item, items[i]? = some item → rlp.valAt (rlpList items) i = .ok item

theorem beU64_trimmed (n : UInt64) : beU64 (Rlp.trimmed 8 n.toNat) = n := by
  rw [← UInt64.toNat_inj, toNat_beU64 (Rlp.length_trimmed_le 8 n.toNat), Rlp.ofBe_trimmed n.toNat_lt]

theorem toNat_shift_or_128 {out : BitVec 128} (b : UInt8) (h : out.toNat < 2 ^ 120) :
    ((out <<< 8) ||| b.toBitVec.setWidth 128).toNat = out.toNat * 256 + b.toNat := by
  have hb := b.toNat_lt
  have hbyte : (b.toBitVec.setWidth 128).toNat = b.toNat := by
    rw [BitVec.toNat_setWidth, UInt8.toNat_toBitVec, Nat.mod_eq_of_lt]
    omega
  have hshift : (out <<< 8).toNat = 2 ^ 8 * out.toNat := by
    rw [BitVec.toNat_shiftLeft, Nat.shiftLeft_eq, Nat.mod_eq_of_lt]
    · exact Nat.mul_comm _ _
    · omega
  rw [BitVec.toNat_or, hbyte, hshift, ← Nat.two_pow_add_eq_or_of_lt hb]
  omega

/-- The bytes of a `u64` are not too many for a `u128`. -/
theorem toNat_beU128 {bytes : List UInt8} (h : bytes.length ≤ 16) : (beU128 bytes).toNat = ofBe bytes := by
  have key : ∀ (bytes : List UInt8) (out : BitVec 128), (out.toNat + 1) * 256 ^ bytes.length ≤ 2 ^ 128 →
      (bytes.foldl (fun (out : BitVec 128) b => (out <<< 8) ||| b.toBitVec.setWidth 128) out).toNat =
        out.toNat * 256 ^ bytes.length + ofBe bytes := by
    intro bytes
    induction bytes with
    | nil => simp [ofBe]
    | cons b bytes ih =>
      intro out h
      have hb := b.toNat_lt
      have hpos : 0 < 256 ^ bytes.length := Nat.pow_pos (by decide)
      rw [List.length_cons, Nat.pow_succ] at h
      have hsmall : out.toNat < 2 ^ 120 := by
        have : (out.toNat + 1) * 256 ≤ 2 ^ 128 :=
          Nat.le_trans (Nat.mul_le_mul_left _ (Nat.le_mul_of_pos_left 256 hpos)) h
        omega
      have hstep := toNat_shift_or_128 b hsmall
      rw [List.foldl_cons, ih, hstep, ofBe, List.length_cons, Nat.pow_succ]
      · ring
      · rw [hstep]
        calc (out.toNat * 256 + b.toNat + 1) * 256 ^ bytes.length
          _ ≤ (out.toNat + 1) * 256 * 256 ^ bytes.length := Nat.mul_le_mul_right _ (by omega)
          _ ≤ 2 ^ 128 := by rwa [Nat.mul_assoc, Nat.mul_comm 256]
  rw [beU128, key]
  · simp
  · rw [show (0 : BitVec 128).toNat = 0 from rfl, Nat.zero_add, Nat.one_mul]
    exact Nat.pow_le_pow_right (by decide) h

theorem beU128_trimmed (n : UInt64) : beU128 (Rlp.trimmed 8 n.toNat) = BitVec.ofNat 128 n.toNat := by
  have hlt := n.toNat_lt
  have hlen := Rlp.length_trimmed_le 8 n.toNat
  rw [← BitVec.toNat_inj, toNat_beU128 (by omega), Rlp.ofBe_trimmed hlt, BitVec.toNat_ofNat, Nat.mod_eq_of_lt]
  omega

section Decode
variable {rlp : RlpCrate} {item : List UInt8} {idx : ℕ} {n : UInt64}

theorem returns_rlpU64 (h : rlp.valAt item idx = .ok (Rlp.trimmed 8 n.toNat)) : Returns (rlp.rlpU64 item idx) n :=
  RlpCrate.returns_number.mpr ⟨_, h, Rlp.length_trimmed_le 8 n.toNat, beU64_trimmed n⟩

theorem returns_rlpU128 (h : rlp.valAt item idx = .ok (Rlp.trimmed 8 n.toNat)) :
    Returns (rlp.rlpU128 item idx) (BitVec.ofNat 128 n.toNat) :=
  RlpCrate.returns_number.mpr ⟨_, h, (Rlp.length_trimmed_le 8 n.toNat).trans (by decide), beU128_trimmed n⟩

theorem returns_rlpU256 (h : rlp.valAt item idx = .ok (Rlp.trimmed 8 n.toNat)) :
    Returns (rlp.rlpU256 item idx) (BitVec.ofNat 256 n.toNat) := by
  have hlen := Rlp.length_trimmed_le 8 n.toNat
  refine returns_bind.mpr ⟨_, RlpCrate.returns_field.mpr h, returns_orPanic.mpr ?_⟩
  rw [U256.fromBeSlice, if_neg (by omega), Rlp.ofBe_trimmed n.toNat_lt]

variable {rlpList : List (List UInt8) → List UInt8} {recipient : Address}
  {chainId nonce valueWei gasLimit maxPriorityFeePerGas maxFeePerGas : UInt64}

/-- The transaction as the daemon sees it. -/
def transfer (chainId nonce : UInt64) («to» : Address)
    (valueWei gasLimit maxPriorityFeePerGas maxFeePerGas : UInt64) : DecodedRawTx where
  txType := 0x02
  chainId := some chainId
  nonce := nonce
  gasLimit := gasLimit
  gasPrice := BitVec.ofNat 128 maxFeePerGas.toNat
  maxPriorityFeePerGas := some (BitVec.ofNat 128 maxPriorityFeePerGas.toNat)
  maxFeePerBlobGas := none
  blobHashes := []
  authorizations := []
  «to» := some «to»
  value := BitVec.ofNat 256 valueWei.toNat
  data := []

theorem returns_decode1559 (h : ReadsBack rlp rlpList
    (type2Fields chainId nonce recipient valueWei gasLimit maxPriorityFeePerGas maxFeePerGas)) :
    Returns (rlp.decode1559
        (rlpList (type2Fields chainId nonce recipient valueWei gasLimit maxPriorityFeePerGas maxFeePerGas)))
      (transfer chainId nonce recipient valueWei gasLimit maxPriorityFeePerGas maxFeePerGas) := by
  unfold RlpCrate.decode1559
  refine returns_bind.mpr ⟨_, returns_rlpU64 (h.valAt 0 _ rfl), ?_⟩
  refine returns_bind.mpr ⟨_, returns_rlpU64 (h.valAt 1 _ rfl), ?_⟩
  refine returns_bind.mpr ⟨_, returns_rlpU128 (h.valAt 2 _ rfl), ?_⟩
  refine returns_bind.mpr ⟨_, returns_rlpU128 (h.valAt 3 _ rfl), ?_⟩
  refine returns_bind.mpr ⟨_, returns_rlpU64 (h.valAt 4 _ rfl), ?_⟩
  refine returns_bind.mpr ⟨some recipient, RlpCrate.returns_rlpOptionalAddress.mpr (h.valAt 5 _ rfl), ?_⟩
  refine returns_bind.mpr ⟨_, returns_rlpU256 (h.valAt 6 _ rfl), ?_⟩
  refine returns_bind.mpr ⟨_, RlpCrate.returns_field.mpr (h.valAt 7 _ rfl), ?_⟩
  exact returns_pure.mpr rfl

theorem parseHexBytes_bytesToHex (bytes : List UInt8) : parseHexBytes (bytesToHex bytes) = some bytes := by
  rw [parseHexBytes, toList_bytesToHex, trim_canonical fun c hc => isLowerHex_of_mem_hexEncode c hc, strip0x]
  simp [all_isAsciiHexdigit_hexEncode, hexDecode_hexEncode]

/-- The daemon decodes what the bench builds, field by field. -/
theorem returns_decodeRawTx (h : ReadsBack rlp rlpList
    (type2Fields chainId nonce recipient valueWei gasLimit maxPriorityFeePerGas maxFeePerGas)) :
    Returns (rlp.decodeRawTx
        (buildType2RawTx rlpList chainId nonce recipient valueWei gasLimit maxPriorityFeePerGas maxFeePerGas))
      (transfer chainId nonce recipient valueWei gasLimit maxPriorityFeePerGas maxFeePerGas) := by
  rw [RlpCrate.decodeRawTx, buildType2RawTx, typedTxHex, parseHexBytes_bytesToHex]
  dsimp only
  rw [if_neg (by decide), RlpCrate.decodeTyped, h.isList]
  exact returns_decode1559 h

end Decode

/-! ### The two requests -/

theorem parseHexU64_hexNat (n : UInt64) : parseHexU64 (hexNat n.toNat) = some n := by
  have htrim : trim (hexNat n.toNat).toList = (hexNat n.toNat).toList := by
    rw [toList_hexNat]
    exact trim_canonical (isLowerHex_of_mem_toDigits (by decide) (by decide))
  rw [parseHexU64, htrim, fromStrRadix_hexNat, if_pos n.toNat_lt, Option.map_some, UInt64.ofNat_toNat]

/-- Asking for the nonce of a sender and sending what is built with the answer has the daemon run a transfer of that
sender, on its own chain, with the nonce of the account and the amounts as they were given. -/
theorem live_bench_transfer (R : Revm) (env : RpcEnv) (rlpList : List (List UInt8) → List UInt8)
    (node : DaemonState R.Db) (sender recipient : Address) (valueWei gasLimit maxPriorityFeePerGas maxFeePerGas : UInt64)
    (hrlp : ReadsBack env.rlp rlpList (type2Fields node.chainId (accountNonceFromDb R node.evmDb sender).1 recipient
      valueWei gasLimit maxPriorityFeePerGas maxFeePerGas)) :
    let asked := ethGetTransactionCount R node.toNodeState (.array [.string (bytesToHex sender.toList), .string "latest"])
    ∃ nonceHex nonce, asked.1 = .result (.string nonceHex) ∧ parseHexU64 nonceHex = some nonce ∧
      nonce = (accountNonceFromDb R node.evmDb sender).1 ∧
      prepare R (decoders env) asked.2 (.array [.string (buildType2RawTx rlpList node.chainId nonce recipient valueWei
          gasLimit maxPriorityFeePerGas maxFeePerGas)]) .ethSendRawTransaction =
        .inr (⟨sender, transfer node.chainId nonce recipient valueWei gasLimit maxPriorityFeePerGas maxFeePerGas, true,
          node.currentHeight.saturatingAdd 1, blockTs node.toNodeState (node.currentHeight.saturatingAdd 1)⟩, asked.2) := by
  intro asked
  have htext : (bytesToHex sender.toList).toList = '0' :: 'x' :: (hexEncode sender.toList).toList :=
    toList_bytesToHex _
  have hcanonical : Eth2077.canonicalAddress (bytesToHex sender.toList) = some (bytesToHex sender.toList) :=
    canonicalAddress_digits htext (by rw [length_hexEncode, sender.toList_length])
      fun c hc => isLowerHex_of_mem_hexEncode c hc
  have hasked : asked = (.result (hexU64 (accountNonceFromDb R node.evmDb sender).1), { node.toNodeState with
      evmDb := (accountNonceFromDb R node.evmDb sender).2
      pendingNonceAddressHint := some (bytesToHex sender.toList) }) := by
    have hparam : ((Json.array [.string (bytesToHex sender.toList), .string "latest"]).param 0).bind Json.asStr =
        some (bytesToHex sender.toList) := rfl
    show ethGetTransactionCount R node.toNodeState _ = _
    simp only [ethGetTransactionCount, hparam, Option.bind_some, hcanonical, addressFromHex_bytesToHex]
  refine ⟨hexNat (accountNonceFromDb R node.evmDb sender).1.toNat, (accountNonceFromDb R node.evmDb sender).1, ?_,
    parseHexU64_hexNat _, rfl, ?_⟩
  · rw [hasked]
    rfl
  · have hdecodes : (decoders env).decodeRawTx (buildType2RawTx rlpList node.chainId
          (accountNonceFromDb R node.evmDb sender).1 recipient valueWei gasLimit maxPriorityFeePerGas maxFeePerGas) =
        .ok (transfer node.chainId (accountNonceFromDb R node.evmDb sender).1 recipient valueWei gasLimit
          maxPriorityFeePerGas maxFeePerGas) := by
      have h := returns_decodeRawTx hrlp
      rw [Returns] at h
      simp only [decoders, h]
    have hsender : (decoders env).addressFromHex (bytesToHex sender.toList) = some sender :=
      addressFromHex_bytesToHex sender
    have hparam : ∀ rawTx, ((Json.array [.string rawTx]).param 0).bind Json.asStr = some rawTx := fun _ => rfl
    have hchain : (some node.chainId).any (fun id => id ≠ node.chainId) = false := by simp
    rw [hasked]
    simp only [prepare, hparam, Option.getD_some, hdecodes, transfer, hchain, Bool.false_eq_true, if_false, hsender]
    rfl

open Daemon

/-- A wei for another account, at the default prices of the bench. -/
def someFields : List (List UInt8) := type2Fields 2077001 0 (.repeatByte 0x33) 1 21000 1000000000 2000000000

/-- A list as the crate writes it. -/
def streamOut (items : List (List UInt8)) : List UInt8 := Rlp.encodeList (items.map Rlp.encodeString)

theorem readsBack_someFields : ReadsBack RlpCrate.shortLists streamOut someFields where
  isList := by decide
  valAt i item hitem := by
    have hall : ∀ x ∈ someFields.zipIdx, RlpCrate.shortLists.valAt (streamOut someFields) x.2 = .ok x.1 := by
      decide +kernel
    exact hall (item, i) (List.mem_zipIdx_iff_getElem?.mpr hitem)

theorem live_bench_transfer_started :
    let asked := ethGetTransactionCount accountsOnly (startedNode accountsOnly).toNodeState
      (.array [.string (bytesToHex (FixedBytes.repeatByte 0x22 : Address).toList), .string "latest"])
    ∃ call, prepare accountsOnly (decoders walletEnv) asked.2 (.array [.string (buildType2RawTx streamOut 2077001 0
        (.repeatByte 0x33) 1 21000 1000000000 2000000000)]) .ethSendRawTransaction = .inr (call, asked.2) ∧
      call.caller = .repeatByte 0x22 ∧ call.decoded.value = 1 := by
  intro asked
  obtain ⟨nonceHex, nonce, -, -, rfl, hprepare⟩ := live_bench_transfer accountsOnly walletEnv streamOut
    (startedNode accountsOnly) (.repeatByte 0x22) (.repeatByte 0x33) 1 21000 1000000000 2000000000 readsBack_someFields
  exact ⟨_, hprepare, rfl, rfl⟩

theorem senders_distinct_wrapped :
    deriveSenders "0xffffffffffffffffffffffffffffffffffffffff" 2 =
        .ok ["0xffffffffffffffffffffffffffffffffffffffff", "0x0000000000000000000000000000000000000000"] ∧
      ["0xffffffffffffffffffffffffffffffffffffffff", "0x0000000000000000000000000000000000000000"].Nodup := by
  have h : deriveSenders "0xffffffffffffffffffffffffffffffffffffffff" 2 =
      .ok ["0xffffffffffffffffffffffffffffffffffffffff", "0x0000000000000000000000000000000000000000"] := by
    decide +kernel
  exact ⟨h, (senders_distinct _ 2 _ h).2.1⟩

end LiveBench

end Eth2077
