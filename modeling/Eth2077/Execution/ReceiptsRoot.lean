import Eth2077.Execution.HeaderRoots

/-!
# What the receipts root commits to

A receipt is encoded field by field, with the number of its logs, of the topics of each and of its data bytes in front
of them. The root hashes the hashes of these strings, so equal roots mean equal receipts, unless `keccak256`
collides on what was hashed.
-/

namespace Eth2077
open PrefixCode BlockValidator

/-! ### The encoding of one receipt -/

/-- No `Vec` is longer than `isize::MAX`. -/
def Log.Fits (log : Log) : Prop := log.topics.length < 2 ^ 63

def Receipt.Fits (receipt : Receipt) : Prop := receipt.logs.length < 2 ^ 63 ∧ ∀ log ∈ receipt.logs, log.Fits

instance : DecidablePred Log.Fits := fun log => inferInstanceAs (Decidable (log.topics.length < 2 ^ 63))

instance : DecidablePred Receipt.Fits := fun _ => inferInstanceAs (Decidable (_ ∧ _))

/-- The receipts there can be. -/
abbrev SizedReceipt := { receipt : Receipt // receipt.Fits }

theorem isPrefixCode_count : IsPrefixCode fun n : { n // n < 2 ^ 63 } => beBytes 8 n.1 := by
  refine (isPrefixCode_beBytes 8).comp (p := fun n : { n // n < 2 ^ 63 } => ⟨n.1, n.2.trans (by omega)⟩) ?_
  intro a b h
  exact Subtype.ext (Subtype.mk.inj h)

theorem isPrefixCode_topic : IsPrefixCode fun topic : { _topic : B256 // True } => topic.1.toList :=
  (isPrefixCode_fixedBytes 32).comp Subtype.val_injective

theorem isPrefixCode_encodeLog : IsPrefixCode fun log : { log : Log // log.Fits } => encodeLog log.1 := by
  rintro ⟨⟨address, topics, data⟩, h⟩ ⟨⟨address', topics', data'⟩, h'⟩ xs ys hab
  simp only [encodeLog, List.append_assoc] at hab
  obtain ⟨rfl, htopics⟩ := isPrefixCode_fixedBytes 20 hab
  obtain ⟨rfl, hdata⟩ := isPrefixCode_topic.counted isPrefixCode_count ⟨h, fun _ _ => trivial⟩
    ⟨h', fun _ _ => trivial⟩ htopics
  rw [← List.append_assoc, ← List.append_assoc] at hdata
  obtain ⟨rfl, hrest⟩ := isPrefixCode_bytes hdata
  exact ⟨rfl, hrest⟩

theorem statusByte_injective : Function.Injective fun status : Bool => (if status then 1 else 0 : UInt8) := by
  intro a b h
  revert a b
  decide

theorem encodeReceipt_injective : Function.Injective fun receipt : SizedReceipt => encodeReceipt receipt.1 := by
  rintro ⟨⟨txHash, status, gas, bloom, logs⟩, h⟩ ⟨⟨txHash', status', gas', bloom', logs'⟩, h'⟩ hab
  simp only [encodeReceipt, List.append_assoc, List.singleton_append] at hab
  obtain ⟨rfl, hstatus⟩ := isPrefixCode_fixedBytes 32 hab
  obtain ⟨hbyte, hgas⟩ := List.cons.inj hstatus
  obtain rfl := statusByte_injective hbyte
  obtain ⟨rfl, hbloom⟩ := isPrefixCode_toBeBytes hgas
  obtain ⟨rfl, hlogs⟩ := isPrefixCode_fixedBytes 256 hbloom
  -- nothing follows the logs
  rw [← List.append_nil (logs.flatMap encodeLog), ← List.append_nil (logs'.flatMap encodeLog)] at hlogs
  obtain ⟨rfl, -⟩ := isPrefixCode_encodeLog.counted isPrefixCode_count h h' hlogs
  rfl

/-! ### The whole payload -/

/-- What `compute_receipts_root` hashes last. -/
def receiptsPayload (leaves : List B256) : List UInt8 :=
  beBytes 8 leaves.length ++ leaves.flatMap fun leaf => leaf.toList

variable {keccak256 : List UInt8 → B256}

theorem computeReceiptsRoot_eq (receipts : List Receipt) : computeReceiptsRoot keccak256 receipts =
    keccak256 (receiptsPayload (receipts.map fun receipt => keccak256 (encodeReceipt receipt))) := by
  rw [computeReceiptsRoot, receiptsPayload, List.length_map, List.flatMap_map]

theorem receiptsPayload_injective : Function.Injective receiptsPayload := by
  intro leaves leaves' h
  obtain ⟨-, h⟩ := List.append_inj h (by rw [length_beBytes, length_beBytes])
  simpa using map_eq_of_flatMap_toList (f := id) h

/-- The byte strings that are hashed for the root. -/
def receiptsHashed (keccak256 : List UInt8 → B256) (receipts : List Receipt) : List (List UInt8) :=
  receiptsPayload (receipts.map fun receipt => keccak256 (encodeReceipt receipt)) :: receipts.map encodeReceipt

/-- Equal receipts roots mean equal receipts: the encoding is injective, so is the string under the root, and so is
what is hashed, as far as `keccak256` is. -/
theorem receipts_root_fixes_receipts (keccak256 : List UInt8 → B256) :
    (Function.Injective fun receipt : SizedReceipt => encodeReceipt receipt.1) ∧
    Function.Injective receiptsPayload ∧
    (∀ receipts, computeReceiptsRoot keccak256 receipts =
      keccak256 (receiptsPayload (receipts.map fun receipt => keccak256 (encodeReceipt receipt)))) ∧
    ∀ receipts receipts' : List SizedReceipt,
      Set.InjOn keccak256 {bs | bs ∈ receiptsHashed keccak256 (receipts.map Subtype.val) ++
        receiptsHashed keccak256 (receipts'.map Subtype.val)} →
      computeReceiptsRoot keccak256 (receipts.map Subtype.val) =
        computeReceiptsRoot keccak256 (receipts'.map Subtype.val) →
      receipts = receipts' := by
  refine ⟨encodeReceipt_injective, receiptsPayload_injective, computeReceiptsRoot_eq, ?_⟩
  intro receipts receipts' hinj hroot
  rw [computeReceiptsRoot_eq, computeReceiptsRoot_eq] at hroot
  have hpayload := hinj (by simp [receiptsHashed]) (by simp [receiptsHashed]) hroot
  have hleaves := receiptsPayload_injective hpayload
  rw [List.map_map, List.map_map] at hleaves
  refine eq_of_map_eq ?_ hleaves
  intro a ha b hb hleaf
  have hmem : ∀ r ∈ receipts ++ receipts', encodeReceipt r.1 ∈ receiptsHashed keccak256 (receipts.map Subtype.val) ++
      receiptsHashed keccak256 (receipts'.map Subtype.val) := by
    intro r hr
    rcases List.mem_append.mp hr with hr | hr
    · exact List.mem_append_left _ (List.mem_cons_of_mem _ (List.mem_map_of_mem (List.mem_map_of_mem hr)))
    · exact List.mem_append_right _ (List.mem_cons_of_mem _ (List.mem_map_of_mem (List.mem_map_of_mem hr)))
  exact encodeReceipt_injective (hinj (hmem a ha) (hmem b hb) hleaf)

/-- The receipt of a call that left two topics in its logs. -/
def topicsReceipt (logs : List Log) : Receipt where
  txHash := .repeatByte 7
  status := true
  cumulativeGasUsed := 23000
  logsBloom := .ofNat 256 (2^84 + 2^185 + 2^278 + 2^327 + 2^353 + 2^481 + 2^518 + 2^735 + 2^1213)
  logs := logs

def oneLog : SizedReceipt :=
  ⟨topicsReceipt [⟨.repeatByte 4, [.repeatByte 0x21, .repeatByte 0x22], ⟨[5], by decide⟩⟩], by decide⟩

/-- The second topic has a log of its own; the bloom filter does not tell. -/
def twoLogs : SizedReceipt :=
  ⟨topicsReceipt [⟨.repeatByte 4, [.repeatByte 0x21], Bytes.default⟩,
    ⟨.repeatByte 4, [.repeatByte 0x22], ⟨[5], by decide⟩⟩], by decide⟩

/-- The receipt of the next call, with a log without topics and one without data. -/
def nextReceipt : SizedReceipt :=
  ⟨⟨.repeatByte 8, true, 24000, .ofNat 256 (2^84 + 2^185 + 2^278 + 2^353 + 2^518 + 2^735),
    [⟨.repeatByte 4, [], ⟨[1, 2, 3], by decide⟩⟩, ⟨.repeatByte 4, [.repeatByte 0x21], Bytes.default⟩]⟩, by decide⟩

/-- The digests of the encodings of the three receipts, and of what is hashed for the two roots. -/
def receiptDigest (bs : List UInt8) : B256 :=
  if bs.length = 406 then .ofNat 32 0x8b18011fcccb265c47588034e94dea442a05189fe96ba0b0a0562a69cb5276e1
  else if bs.length = 442 then .ofNat 32 0x2cfb190b4577bdce816b526252c1071458a3367b497d251bf8903b48dc281ca4
  else if bs.length = 412 then .ofNat 32 0x9b5c87e2e3fe1dd1600c63de1f825dbab420ec62ad607182806c1726dadc3dc5
  else if bs[8]? = some 0x8b then .ofNat 32 0xdee2d50406797f4eca0ed5f460056edcd2341c27e6c7128b3c582e7edc01cdd6
  else .ofNat 32 0xf9e93a50f95f2e83d95d9835c882e898b4c84098b6f4cbe7a4684513b673e8e3

/-- Two topics in one log or in two: the roots differ. -/
theorem receipts_root_fixes_receipts_of_logs :
    computeReceiptsRoot receiptDigest [oneLog.1, nextReceipt.1] ≠
      computeReceiptsRoot receiptDigest [twoLogs.1, nextReceipt.1] := by
  intro hroot
  have hreceipts := (receipts_root_fixes_receipts receiptDigest).2.2.2 [oneLog, nextReceipt] [twoLogs, nextReceipt]
    ?_ hroot
  · have hlogs := congrArg (fun receipt => receipt.1.logs.length) (List.cons.inj hreceipts).1
    exact absurd hlogs (by decide)
  · have hinj : ∀ x ∈ receiptsHashed receiptDigest [oneLog.1, nextReceipt.1] ++
          receiptsHashed receiptDigest [twoLogs.1, nextReceipt.1],
        ∀ y ∈ receiptsHashed receiptDigest [oneLog.1, nextReceipt.1] ++
            receiptsHashed receiptDigest [twoLogs.1, nextReceipt.1],
          receiptDigest x = receiptDigest y → x = y := by
      decide +kernel
    exact fun x hx y hy h => hinj x hx y hy h

end Eth2077
