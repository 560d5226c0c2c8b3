import Mathlib.Algebra.Order.Ring.Nat
import Eth2077.Lib.Seen
import Eth2077.Types.Canonical

/-!
# Frame transactions (`types/src/eip8141.rs`)

A transaction of several frames, each in a phase of its own. Its hash is taken over the sender, the nonce, the fee and
the frames one after another. The priority fee is not among the bytes, and nothing says how long a frame is, so the bytes
do not fix the transaction: they do with the priority fee and the lengths of the calldata.
-/

namespace Eth2077
namespace Eip8141
open PrefixCode

inductive FramePhase where
  | validation
  | authorization
  | sponsorship
  | deployment
  | execution
deriving DecidableEq

structure Frame where
  phase : FramePhase
  target : Address
  calldata : Bytes
  gasLimit : UInt64
  value : BitVec 128
deriving DecidableEq

structure FrameTransaction where
  sender : Address
  nonce : UInt64
  maxFeePerGas : BitVec 128
  maxPriorityFeePerGas : BitVec 128
  frames : List Frame
  signature : Bytes
deriving DecidableEq

inductive FrameTxError where
  | emptyFrames
  | missingPhase (phase : FramePhase)
  | duplicatePhase (phase : FramePhase)
  | invalidPhaseOrder (expected found : FramePhase)
  | zeroGasLimit (frameIndex : ℕ)
  | excessiveTotalGas (total max : UInt64)
  | emptySignature
deriving DecidableEq

def maxTotalGas : UInt64 := 30000000

def FramePhase.discriminant : FramePhase → UInt8
  | validation => 0
  | authorization => 1
  | sponsorship => 2
  | deployment => 3
  | execution => 4

/-- The body of the loop over the frames; `previous` is the phase of the frame before. -/
def frameErrors (frameIndex : ℕ) (seen : Bool) (previous : Option FramePhase) (frame : Frame) : List FrameTxError :=
  (if frame.gasLimit = 0 then [.zeroGasLimit frameIndex] else []) ++
    (if seen then [.duplicatePhase frame.phase] else []) ++
    match previous with
    | none => []
    | some phase =>
      -- `REQUIRED_PHASE_ORDER[prev_index]` is the phase itself
      if frame.phase.discriminant < phase.discriminant then [.invalidPhaseOrder phase frame.phase] else []

/-- The loop over the frames. -/
def framesErrors : ℕ → Finset FramePhase → Option FramePhase → List Frame → List FrameTxError
  | _, _, _, [] => []
  | frameIndex, seenPhases, previous, frame :: frames =>
    frameErrors frameIndex (frame.phase ∈ seenPhases) previous frame ++
      framesErrors (frameIndex + 1) (insert frame.phase seenPhases) (some frame.phase) frames

/-- The gas of all frames, of 128 bits. -/
def totalGas (frames : List Frame) : BitVec 128 :=
  frames.foldl (fun total frame => total.saturatingAdd (.ofNat 128 frame.gasLimit.toNat)) 0

def validateFrameTransaction (tx : FrameTransaction) : Except (List FrameTxError) Unit :=
  let phases := tx.frames.map Frame.phase
  let total := totalGas tx.frames
  Seen.report
    ((if tx.frames = [] then [.emptyFrames] else []) ++
      (if tx.signature.1 = [] then [.emptySignature] else []) ++
      framesErrors 0 ∅ none tx.frames ++
      (if .validation ∉ phases then [.missingPhase .validation] else []) ++
      (if .execution ∉ phases then [.missingPhase .execution] else []) ++
      if maxTotalGas.toNat < total.toNat then
        [.excessiveTotalGas (UInt64.saturate total.toNat) maxTotalGas]
      else [])

/-- What a frame feeds the hasher. -/
def frameBytes (frame : Frame) : List UInt8 :=
  [frame.phase.discriminant] ++ (frame.target.toList ++ (toBeBytes frame.gasLimit ++
    (beBytes 16 frame.value.toNat ++ frame.calldata.1)))

/-- Everything that is fed to the hasher. -/
def frameTxBytes (tx : FrameTransaction) : List UInt8 :=
  tx.sender.toList ++ (toBeBytes tx.nonce ++ (beBytes 16 tx.maxFeePerGas.toNat ++ tx.frames.flatMap frameBytes))

def computeFrameTxHash (sha256 : List UInt8 → B256) (tx : FrameTransaction) : B256 := sha256 (frameTxBytes tx)

/-! ### What is accepted -/

section Validation
variable {tx : FrameTransaction} {frames : List Frame} {frame : Frame} {frameIndex : ℕ} {previous : Option FramePhase}
  {seenPhases : Finset FramePhase}

/-- A frame does not go back behind the one before it. -/
def Follows (previous : Option FramePhase) (frame : Frame) : Prop :=
  ∀ phase ∈ previous, phase.discriminant ≤ frame.phase.discriminant

theorem frameErrors_eq_nil {seen : Bool} : frameErrors frameIndex seen previous frame = [] ↔
    frame.gasLimit ≠ 0 ∧ seen = false ∧ Follows previous frame := by
  unfold frameErrors Follows
  cases previous <;> simp [UInt8.not_lt]

theorem discriminant_injective : Function.Injective FramePhase.discriminant := by
  intro phase phase' h
  cases phase <;> cases phase' <;> first | rfl | cases h

/-- The last phase seen, none of which is later. -/
def Latest (seenPhases : Finset FramePhase) : Option FramePhase → Prop
  | none => seenPhases = ∅
  | some phase => phase ∈ seenPhases ∧ ∀ phase' ∈ seenPhases, phase'.discriminant ≤ phase.discriminant

/-- A frame is in a new phase and goes not back if and only if its phase is later than all seen. -/
theorem Latest.new_iff (h : Latest seenPhases previous) : (frame.phase ∉ seenPhases ∧ Follows previous frame) ↔
    ∀ phase ∈ seenPhases, phase.discriminant < frame.phase.discriminant := by
  cases previous with
  | none =>
    obtain rfl : seenPhases = ∅ := h
    simp [Follows]
  | some latest =>
    obtain ⟨hmem, hlatest⟩ := h
    constructor
    · rintro ⟨hnew, hfollows⟩ phase hphase
      have hle : phase.discriminant ≤ frame.phase.discriminant :=
        UInt8.le_trans (hlatest phase hphase) (hfollows latest rfl)
      refine UInt8.lt_of_le_of_ne hle fun heq => hnew ?_
      rwa [← discriminant_injective heq]
    · intro hlater
      refine ⟨fun hold => UInt8.lt_irrefl _ (hlater _ hold), ?_⟩
      rintro phase ⟨⟩
      exact UInt8.le_of_lt (hlater latest hmem)

theorem latest_insert (h : ∀ phase ∈ seenPhases, phase.discriminant < frame.phase.discriminant) :
    Latest (insert frame.phase seenPhases) (some frame.phase) := by
  refine ⟨Finset.mem_insert_self _ _, fun phase hphase => ?_⟩
  rcases Finset.mem_insert.mp hphase with rfl | hphase
  · exact UInt8.le_refl _
  · exact UInt8.le_of_lt (h phase hphase)

/-- The loop has nothing to say if every frame has gas and is in a later phase than all before it. -/
theorem framesErrors_eq_nil (h : Latest seenPhases previous) :
    framesErrors frameIndex seenPhases previous frames = [] ↔
      (∀ frame ∈ frames, frame.gasLimit ≠ 0 ∧
        ∀ phase ∈ seenPhases, phase.discriminant < frame.phase.discriminant) ∧
      frames.Pairwise fun a b => a.phase.discriminant < b.phase.discriminant := by
  induction frames generalizing frameIndex seenPhases previous with
  | nil => simp [framesErrors]
  | cons frame frames ih =>
    rw [framesErrors, List.append_eq_nil_iff, frameErrors_eq_nil, decide_eq_false_iff_not, h.new_iff,
      List.forall_mem_cons, List.pairwise_cons]
    constructor
    · rintro ⟨hframe, hrest⟩
      obtain ⟨hframes, hpairwise⟩ := (ih (latest_insert hframe.2)).mp hrest
      refine ⟨⟨hframe, fun f hf => ⟨(hframes f hf).1, fun phase hphase => ?_⟩⟩, fun f hf => ?_, hpairwise⟩
      · exact (hframes f hf).2 phase (Finset.mem_insert_of_mem hphase)
      · exact (hframes f hf).2 _ (Finset.mem_insert_self _ _)
    · rintro ⟨⟨hframe, hframes⟩, hlater, hpairwise⟩
      refine ⟨hframe, (ih (latest_insert hframe.2)).mpr
        ⟨fun f hf => ⟨(hframes f hf).1, fun phase hphase => ?_⟩, hpairwise⟩⟩
      rcases Finset.mem_insert.mp hphase with rfl | hphase
      · exact hlater f hf
      · exact (hframes f hf).2 phase hphase

/-- The total is exact, or the largest number there is. -/
theorem toNat_totalGas (frames : List Frame) : (totalGas frames).toNat =
    min (frames.map fun frame => frame.gasLimit.toNat).sum (BitVec.maxNat 128) := by
  have hfold : ∀ (total : BitVec 128) (frames : List Frame),
      (frames.foldl (fun total frame => total.saturatingAdd (.ofNat 128 frame.gasLimit.toNat)) total).toNat =
        min (total.toNat + (frames.map fun frame => frame.gasLimit.toNat).sum) (BitVec.maxNat 128) := by
    intro total frames
    induction frames generalizing total with
    | nil =>
      have hle := total.toNat_le_maxNat
      simp [Nat.min_eq_left hle]
    | cons frame frames ih =>
      have hgas : (BitVec.ofNat 128 frame.gasLimit.toNat).toNat = frame.gasLimit.toNat :=
        BitVec.toNat_ofNat_of_le (frame.gasLimit.toNat_le_maxNat.trans (by decide))
      rw [List.foldl_cons, ih, BitVec.toNat_saturatingAdd, hgas, List.map_cons, List.sum_cons]
      omega
  rw [totalGas, hfold, show (0 : BitVec 128).toNat = 0 from rfl, Nat.zero_add]

/-- A signed transaction whose frames are in later and later phases, from validation to execution, and have gas, which is
not too much together. -/
structure Valid (tx : FrameTransaction) : Prop where
  signature : tx.signature.1 ≠ []
  phases : tx.frames.Pairwise fun a b => a.phase.discriminant < b.phase.discriminant
  validation : .validation ∈ tx.frames.map Frame.phase
  execution : .execution ∈ tx.frames.map Frame.phase
  gas : ∀ frame ∈ tx.frames, frame.gasLimit ≠ 0
  total : (tx.frames.map fun frame => frame.gasLimit.toNat).sum ≤ maxTotalGas.toNat

theorem validateFrameTransaction_iff : validateFrameTransaction tx = .ok () ↔ Valid tx := by
  have hlatest : Latest ∅ none := rfl
  have hmax : maxTotalGas.toNat < BitVec.maxNat 128 := by decide
  have htotal : (totalGas tx.frames).toNat ≤ maxTotalGas.toNat ↔
      (tx.frames.map fun frame => frame.gasLimit.toNat).sum ≤ maxTotalGas.toNat := by
    rw [toNat_totalGas]
    omega
  unfold validateFrameTransaction
  dsimp only
  rw [Seen.report_eq_ok]
  simp only [List.append_eq_nil_iff, framesErrors_eq_nil hlatest, ite_eq_right_iff, List.cons_ne_nil, imp_false, not_not,
    not_lt, htotal]
  constructor
  · rintro ⟨⟨⟨⟨⟨-, hsignature⟩, hframes, hphases⟩, hvalidation⟩, hexecution⟩, htotal⟩
    exact ⟨hsignature, hphases, hvalidation, hexecution, fun frame hframe => (hframes frame hframe).1, htotal⟩
  · intro h
    refine ⟨⟨⟨⟨⟨?_, h.signature⟩, fun frame hframe => ⟨h.gas frame hframe, nofun⟩, h.phases⟩, h.validation⟩,
      h.execution⟩, h.total⟩
    intro hnil
    have hnone := h.validation
    rw [hnil] at hnone
    cases hnone

end Validation

/-! ### What the bytes fix -/

/-- The same in all that is meant to be signed. -/
structure SameSigned (tx tx' : FrameTransaction) : Prop where
  sender : tx.sender = tx'.sender
  nonce : tx.nonce = tx'.nonce
  maxFeePerGas : tx.maxFeePerGas = tx'.maxFeePerGas
  maxPriorityFeePerGas : tx.maxPriorityFeePerGas = tx'.maxPriorityFeePerGas
  frames : tx.frames = tx'.frames

section Bytes
variable {tx tx' : FrameTransaction} {frame frame' : Frame} {frames frames' : List Frame} {xs ys : List UInt8}

/-- A frame can be told from its bytes if it is known how long its calldata is. -/
theorem frame_of_frameBytes (hlen : frame.calldata.1.length = frame'.calldata.1.length)
    (h : frameBytes frame ++ xs = frameBytes frame' ++ ys) : frame = frame' ∧ xs = ys := by
  obtain ⟨phase, target, calldata, gasLimit, value⟩ := frame
  obtain ⟨phase', target', calldata', gasLimit', value'⟩ := frame'
  simp only [frameBytes, List.append_assoc] at h
  obtain ⟨hphase, htarget⟩ := List.cons.inj h
  obtain rfl := discriminant_injective hphase
  obtain ⟨rfl, hgas⟩ := isPrefixCode_fixedBytes 20 htarget
  obtain ⟨rfl, hvalue⟩ := isPrefixCode_toBeBytes hgas
  obtain ⟨rfl, hcalldata⟩ := isPrefixCode_bitVec 16 hvalue
  obtain ⟨hbytes, hrest⟩ := List.append_inj hcalldata hlen
  obtain rfl := Subtype.ext hbytes
  exact ⟨rfl, hrest⟩

theorem frames_of_frameBytes
    (hlen : frames.map (fun frame => frame.calldata.1.length) = frames'.map fun frame => frame.calldata.1.length)
    (h : frames.flatMap frameBytes = frames'.flatMap frameBytes) : frames = frames' := by
  induction frames generalizing frames' with
  | nil => exact (List.map_eq_nil_iff.mp hlen.symm).symm
  | cons frame frames ih =>
    cases frames' with
    | nil => cases hlen
    | cons frame' frames' =>
      obtain ⟨hlength, hlengths⟩ := List.cons.inj hlen
      rw [List.flatMap_cons, List.flatMap_cons] at h
      obtain ⟨rfl, hrest⟩ := frame_of_frameBytes hlength h
      rw [ih hlengths hrest]

/-- The bytes fix the rest, where the priority fee and the lengths of the calldata are known. -/
theorem sameSigned_iff (h : frameTxBytes tx = frameTxBytes tx') : SameSigned tx tx' ↔
    tx.maxPriorityFeePerGas = tx'.maxPriorityFeePerGas ∧
      tx.frames.map (fun frame => frame.calldata.1.length) = tx'.frames.map fun frame => frame.calldata.1.length := by
  constructor
  · intro hsame
    exact ⟨hsame.maxPriorityFeePerGas, by rw [hsame.frames]⟩
  · rintro ⟨hpriority, hlen⟩
    obtain ⟨hsender, hnonce⟩ := isPrefixCode_fixedBytes 20 h
    obtain ⟨hnonce, hfee⟩ := isPrefixCode_toBeBytes hnonce
    obtain ⟨hfee, hframes⟩ := isPrefixCode_bitVec 16 hfee
    exact ⟨hsender, hnonce, hfee, hpriority, frames_of_frameBytes hlen hframes⟩

end Bytes

/-- The hash of no accepted transaction fixes what is signed: another priority fee has the same bytes. Of two
transactions with the same bytes it depends on the priority fees and the lengths of the calldata. -/
theorem frame_tx_hash_never_fixes (tx : FrameTransaction) (h : validateFrameTransaction tx = .ok ()) :
    (¬ ∀ tx', validateFrameTransaction tx' = .ok () → frameTxBytes tx = frameTxBytes tx' → SameSigned tx tx') ∧
    ∀ tx', validateFrameTransaction tx' = .ok () → frameTxBytes tx = frameTxBytes tx' →
      (SameSigned tx tx' ↔ tx.maxPriorityFeePerGas = tx'.maxPriorityFeePerGas ∧
        tx.frames.map (fun frame => frame.calldata.1.length) = tx'.frames.map fun frame => frame.calldata.1.length) := by
  refine ⟨fun hfixes => ?_, fun tx' _ hbytes => sameSigned_iff hbytes⟩
  -- neither the validation nor the bytes look at the priority fee
  have hsame := hfixes { tx with maxPriorityFeePerGas := tx.maxPriorityFeePerGas + 1 } h rfl
  have hfee : tx.maxPriorityFeePerGas = tx.maxPriorityFeePerGas + 1 := hsame.maxPriorityFeePerGas
  bv_omega

def validationFrame (calldata : Bytes) : Frame := ⟨.validation, .repeatByte 1, calldata, 21000, 0⟩

def authorizationFrame : Frame := ⟨.authorization, .repeatByte 2, ⟨[0xAB], by decide⟩, 40000, 5⟩

def executionFrame : Frame := ⟨.execution, .repeatByte 3, ⟨[0xCD], by decide⟩, 100000, 1000⟩

def transactionOf (maxPriorityFeePerGas : BitVec 128) (frames : List Frame) : FrameTransaction :=
  ⟨.repeatByte 0x11, 7, 100, maxPriorityFeePerGas, frames, ⟨[0xAA], by decide⟩⟩

def threeFrames : FrameTransaction := transactionOf 2 [validationFrame .default, authorizationFrame, executionFrame]

/-- The authorization is calldata of the validation. -/
def twoFrames : FrameTransaction :=
  transactionOf 2 [validationFrame ⟨frameBytes authorizationFrame, by decide⟩, executionFrame]

theorem frame_tx_hash_never_fixes_three :
    ¬ ∀ tx', validateFrameTransaction tx' = .ok () → frameTxBytes threeFrames = frameTxBytes tx' →
      SameSigned threeFrames tx' :=
  (frame_tx_hash_never_fixes threeFrames (by decide +kernel)).1

/-- Another priority fee, and a frame that is read as the calldata of the one before it. -/
theorem same_bytes_other_transactions :
    (∃ tx tx' : FrameTransaction, validateFrameTransaction tx = .ok () ∧ validateFrameTransaction tx' = .ok () ∧
      frameTxBytes tx = frameTxBytes tx' ∧ tx.maxPriorityFeePerGas ≠ tx'.maxPriorityFeePerGas) ∧
    ∃ tx tx' : FrameTransaction, validateFrameTransaction tx = .ok () ∧ validateFrameTransaction tx' = .ok () ∧
      frameTxBytes tx = frameTxBytes tx' ∧ tx.frames.length = 3 ∧ tx'.frames.length = 2 := by
  refine ⟨⟨threeFrames, { threeFrames with maxPriorityFeePerGas := 3 }, ?_⟩, threeFrames, twoFrames, ?_⟩
  · decide +kernel
  · decide +kernel

end Eip8141
end Eth2077
