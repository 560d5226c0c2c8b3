import Eth2077.Lib.KeyedFold
import Eth2077.Lib.Xor
import Eth2077.Prim

/-!
# Witness commitments (`types/src/witness.rs`)

A commitment names the payload of a witness by its content identifier, for which the text of the payload is folded into
32 bytes by exclusive or. Thirty-two bytes of text that come twice in a row drop out of the fold, and with an array of
numbers in it the text of every payload has room for them.
-/

namespace Eth2077
namespace Witness

structure WitnessCid where
  hash : FixedBytes 32
  codec : UInt8
  version : UInt8
deriving DecidableEq

structure WitnessPayload where
  blockHash : FixedBytes 32
  blockNumber : UInt64
  stateRoot : FixedBytes 32
  receiptsRoot : FixedBytes 32
  -- a payload whose text has no room in memory has no identifier, so the length is not bounded here
  proofData : List UInt8
  timestamp : UInt64
deriving DecidableEq

structure WitnessCommitment where
  cid : WitnessCid
  blockHash : FixedBytes 32
  blockNumber : UInt64
  proposerSignature : Bytes

inductive WitnessVerifyResult where
  | valid
  | invalidCid
  | mismatchedStateRoot
  | missingProofData
  | signatureInvalid
deriving DecidableEq

/-- `hash[index % 32] ^= byte` -/
def xorAt (hash : FixedBytes 32) (e : UInt8 × ℕ) : FixedBytes 32 :=
  hash.set (Fin.ofNat 32 e.2) (hash.get (Fin.ofNat 32 e.2) ^^^ e.1)

def xorFold (bytes : List UInt8) : FixedBytes 32 := bytes.zipIdx.foldl xorAt .zero

section Model
variable (toVec : WitnessPayload → List UInt8)

def WitnessCid.fromPayload (payload : WitnessPayload) : WitnessCid :=
  ⟨xorFold (toVec payload), 0x01, 1⟩

def WitnessCommitment.verifyBinding (commitment : WitnessCommitment) (payload : WitnessPayload) :
    WitnessVerifyResult :=
  if payload.proofData = [] then .missingProofData
  else if WitnessCid.fromPayload toVec payload ≠ commitment.cid then .invalidCid
  else if commitment.proposerSignature.1 = [] ∨ commitment.proposerSignature.1.all (· = 0) then .signatureInvalid
  else if commitment.blockHash ≠ payload.blockHash then .mismatchedStateRoot
  else .valid

variable {toVec} {commitment : WitnessCommitment} {payload : WitnessPayload}

theorem verifyBinding_eq_valid : commitment.verifyBinding toVec payload = .valid ↔
    payload.proofData ≠ [] ∧ WitnessCid.fromPayload toVec payload = commitment.cid ∧
      (∃ byte ∈ commitment.proposerSignature.1, byte ≠ 0) ∧ commitment.blockHash = payload.blockHash := by
  have hsigned : (∃ byte ∈ commitment.proposerSignature.1, byte ≠ 0) ↔
      ¬ (commitment.proposerSignature.1 = [] ∨ commitment.proposerSignature.1.all (· = 0)) := by
    simp only [List.all_eq_true, decide_eq_true_iff, not_or, not_forall, exists_prop]
    refine ⟨fun h => ⟨?_, h⟩, And.right⟩
    obtain ⟨byte, hmem, -⟩ := h
    exact List.ne_nil_of_mem hmem
  rw [hsigned]
  unfold WitnessCommitment.verifyBinding
  split_ifs <;> simp_all

end Model

/-! ### The text of a payload -/

/-- The text of an ASCII string. -/
def ascii (s : String) : List UInt8 := s.toList.map fun c => .ofNat c.toNat

def jsonNumber (n : ℕ) : List UInt8 := (Nat.toDigits 10 n).map fun c => .ofNat c.toNat

/-- Numbers after the first of an array. -/
def jsonMore (bytes : List UInt8) : List UInt8 := bytes.flatMap fun byte => 0x2c :: jsonNumber byte.toNat

/-- What stands between the brackets of an array. -/
def jsonElements : List UInt8 → List UInt8
  | [] => []
  | byte :: bytes => jsonNumber byte.toNat ++ jsonMore bytes

def jsonArray (bytes : List UInt8) : List UInt8 := 0x5b :: jsonElements bytes ++ [0x5d]

/-- A serializer that writes the proof data as an array of numbers, between what it writes for the other fields. -/
def WritesProofData (toVec : WitnessPayload → List UInt8) : Prop :=
  ∀ p : WitnessPayload, ∃ head tail, ∀ data, toVec { p with proofData := data } = head ++ jsonArray data ++ tail

/-- The text before the proof data. -/
def jsonHead (p : WitnessPayload) : List UInt8 :=
  ascii "\x7b\"block_hash\":" ++ jsonArray p.blockHash.toList ++
  ascii ",\"block_number\":" ++ jsonNumber p.blockNumber.toNat ++
  ascii ",\"state_root\":" ++ jsonArray p.stateRoot.toList ++
  ascii ",\"receipts_root\":" ++ jsonArray p.receiptsRoot.toList ++
  ascii ",\"proof_data\":"

def jsonTail (p : WitnessPayload) : List UInt8 :=
  ascii ",\"timestamp\":" ++ jsonNumber p.timestamp.toNat ++ ascii "\x7d"

/-- `serde_json::to_vec` of the derived serializer. -/
def toJson (p : WitnessPayload) : List UInt8 := jsonHead p ++ jsonArray p.proofData ++ jsonTail p

theorem writesProofData_toJson : WritesProofData toJson := fun p => ⟨jsonHead p, jsonTail p, fun _ => rfl⟩

/-! ### The fold -/

theorem get_xorFold (bytes : List UInt8) (k : Fin 32) :
    (xorFold bytes).get k = (XorLike.column 32 k 0 bytes).foldl (· ^^^ ·) 0 := by
  have hlocal : KeyedFold.Local (fun hash : FixedBytes 32 => hash.get) (fun e : UInt8 × ℕ => Fin.ofNat 32 e.2)
      (fun e byte => byte ^^^ e.1) xorAt :=
    ⟨fun hash e => List.Vector.get_set_same .., fun hash e k hk => List.Vector.get_set_of_ne (Ne.symm hk) _⟩
  have hkey : ∀ e : UInt8 × ℕ, decide (Fin.ofNat 32 e.2 = k) = decide (e.2 % 32 = k) := by
    intro e
    rw [decide_eq_decide, Fin.ext_iff]
    rfl
  rw [xorFold, hlocal.foldl_filter, XorLike.column, List.foldl_map]
  simp only [hkey]
  rw [FixedBytes.zero, FixedBytes.repeatByte, List.Vector.get_replicate]

theorem xorFold_doubled {a w b : List UInt8} (hw : w.length = 32) : xorFold (a ++ (w ++ w) ++ b) = xorFold (a ++ b) := by
  have hrows : 32 ∣ w.length := dvd_of_eq hw.symm
  exact List.Vector.ext fun k => by rw [get_xorFold, get_xorFold, XorLike.foldl_column_doubled 0 hrows]

/-! ### No identifier binds -/

theorem jsonMore_append (a b : List UInt8) : jsonMore (a ++ b) = jsonMore a ++ jsonMore b := List.flatMap_append

theorem jsonElements_append {a : List UInt8} (ha : a ≠ []) (b : List UInt8) :
    jsonElements (a ++ b) = jsonElements a ++ jsonMore b := by
  cases a with
  | nil => exact absurd rfl ha
  | cons byte a =>
    show _ ++ jsonMore (a ++ b) = _ ++ jsonMore a ++ jsonMore b
    rw [jsonMore_append, List.append_assoc]

/-- Sixteen more ones, twice. -/
def doubledOnes : List UInt8 := .replicate 16 1 ++ .replicate 16 1

/-- Ten and fifteen ones, twice, where the second ten reads as the end of a hundred and ten. -/
def doubledTen : List UInt8 := 10 :: .replicate 14 1 ++ 110 :: .replicate 15 1

theorem jsonElements_doubledTen : ∃ w, w.length = 32 ∧ jsonElements doubledTen = w ++ w :=
  ⟨jsonElements (10 :: .replicate 15 1), by decide, by decide⟩

/-- Another array with the same fold. -/
def collide (data : List UInt8) : List UInt8 := if data = [] then doubledTen else data ++ doubledOnes

theorem jsonElements_collide (data : List UInt8) : ∃ w, w.length = 32 ∧
    jsonElements (collide data) = jsonElements data ++ (w ++ w) := by
  unfold collide
  split_ifs with hnil
  · obtain ⟨w, hw, htext⟩ := jsonElements_doubledTen
    exact ⟨w, hw, by rw [hnil, htext]; rfl⟩
  · refine ⟨jsonMore (.replicate 16 1), by decide, ?_⟩
    rw [jsonElements_append hnil, doubledOnes, jsonMore_append]

theorem collide_ne (data : List UInt8) : collide data ≠ data ∧ collide data ≠ [] := by
  unfold collide
  split_ifs with hnil
  · subst hnil
    exact ⟨List.cons_ne_nil _ _, List.cons_ne_nil _ _⟩
  · exact ⟨fun h => absurd (List.append_right_eq_self.mp h) (by decide), fun h => hnil (List.append_eq_nil_iff.mp h).1⟩

theorem fromPayload_collide {toVec : WitnessPayload → List UInt8} (h : WritesProofData toVec) (p : WitnessPayload) :
    WitnessCid.fromPayload toVec { p with proofData := collide p.proofData } = WitnessCid.fromPayload toVec p := by
  obtain ⟨head, tail, htext⟩ := h p
  obtain ⟨w, hw, hcollide⟩ := jsonElements_collide p.proofData
  have hp : toVec p = head ++ 0x5b :: jsonElements p.proofData ++ (0x5d :: tail) := by
    rw [show p = { p with proofData := p.proofData } from rfl, htext, jsonArray]
    simp
  have hq : toVec { p with proofData := collide p.proofData } =
      head ++ 0x5b :: jsonElements p.proofData ++ (w ++ w) ++ (0x5d :: tail) := by
    rw [htext, jsonArray, hcollide]
    simp
  rw [WitnessCid.fromPayload, WitnessCid.fromPayload, hp, hq, xorFold_doubled hw]

/-- The identifier of a payload never binds it: another payload is accepted under it. -/
theorem witness_never_binds (toVec : WitnessPayload → List UInt8) (h : WritesProofData toVec) (p : WitnessPayload) :
    ¬ ∀ (q : WitnessPayload) (c : WitnessCommitment), c.cid = WitnessCid.fromPayload toVec p →
      c.verifyBinding toVec q = .valid → q = p := by
  intro hbinds
  let q : WitnessPayload := { p with proofData := collide p.proofData }
  let c : WitnessCommitment := ⟨WitnessCid.fromPayload toVec p, p.blockHash, p.blockNumber, ⟨[1], by decide⟩⟩
  have hvalid : c.verifyBinding toVec q = .valid :=
    verifyBinding_eq_valid.mpr
      ⟨(collide_ne p.proofData).2, fromPayload_collide h p, ⟨1, List.mem_singleton_self 1, by decide⟩, rfl⟩
  have heq : q = p := hbinds q c rfl hvalid
  exact (collide_ne p.proofData).1 (congrArg WitnessPayload.proofData heq)

/-- A payload with some proof data. -/
def witnessOf (proofData : List UInt8) : WitnessPayload := ⟨.zero, 42, .zero, .zero, proofData, 7⟩

theorem witness_never_binds_one :
    ¬ ∀ (q : WitnessPayload) (c : WitnessCommitment), c.cid = WitnessCid.fromPayload toJson (witnessOf [1]) →
      c.verifyBinding toJson q = .valid → q = witnessOf [1] :=
  witness_never_binds toJson writesProofData_toJson (witnessOf [1])

/-- Two numbers of the proof data change places and the commitment still holds. -/
theorem swapped_witness_valid : ∃ p q : WitnessPayload, ∃ c : WitnessCommitment,
    c.cid = WitnessCid.fromPayload toJson p ∧ c.verifyBinding toJson q = .valid ∧ q ≠ p := by
  let p := witnessOf (1 :: .replicate 15 3 ++ [2])
  let q := witnessOf (2 :: .replicate 15 3 ++ [1])
  refine ⟨p, q, ⟨WitnessCid.fromPayload toJson p, p.blockHash, p.blockNumber, ⟨[1], by decide⟩⟩, rfl, ?_, ?_⟩
  · decide +kernel
  · decide

end Witness
end Eth2077
