import Mathlib.Data.Finset.Card
import Eth2077.Lib.Seen
import Eth2077.Prim

/-!
# Proofs of several clients (`types/src/eip8025.rs`)

An attestation collects proofs of the execution of a block, made by different clients. It is accepted if the proofs name
the block by its hash and end in the same state. Neither the number of the block nor the state they start from is
compared.
-/

namespace Eth2077
namespace Eip8025

inductive ClientImplementation where
  | geth
  | nethermind
  | besu
  | erigon
  | reth
deriving DecidableEq

structure ExecutionProof where
  blockNumber : UInt64
  blockHash : B256
  stateRootBefore : B256
  stateRootAfter : B256
  proofData : Bytes
  proverClient : ClientImplementation
deriving DecidableEq

structure ProofAttestation where
  blockNumber : UInt64
  blockHash : B256
  proofs : List ExecutionProof
  attesterId : B256
deriving DecidableEq

inductive ProofValidationError where
  | insufficientClientDiversity (uniqueClients required : ℕ)
  | blockHashMismatch (proofIndex : ℕ)
  | emptyProofs
  | duplicateClient (client : ClientImplementation)
  | stateRootMismatch (proofIndex : ℕ)
  | proofDataEmpty (proofIndex : ℕ)
deriving DecidableEq

structure ProofConsensusConfig where
  requiredClientDiversity : ℕ
  totalKnownClients : ℕ

structure ProofAttestationStats where
  blockNumber : UInt64
  uniqueClients : ℕ
  totalProofBytes : UInt64
  meetsDiversityThreshold : Bool
  stateRootsConsistent : Bool

def defaultProofConfig : ProofConsensusConfig := ⟨3, 5⟩

section Model
variable (attestation : ProofAttestation) (config : ProofConsensusConfig)

/-- The body of the loop over the proofs. -/
def proofErrors (seen : Bool) : ExecutionProof × ℕ → List ProofValidationError
  | (proof, proofIndex) =>
    (if proof.blockHash ≠ attestation.blockHash then [.blockHashMismatch proofIndex] else []) ++
      (if seen then [.duplicateClient proof.proverClient] else []) ++
      (if proof.proofData.1 = [] then [.proofDataEmpty proofIndex] else []) ++
      match attestation.proofs.head?.map ExecutionProof.stateRootAfter with
      | none => []
      | some expected => if proof.stateRootAfter ≠ expected then [.stateRootMismatch proofIndex] else []

/-- `unique_clients.len()` once all proofs have been looked at. -/
def uniqueClients : ℕ := (attestation.proofs.map ExecutionProof.proverClient).toFinset.card

def validateProofAttestation : Except (List ProofValidationError) Unit :=
  Seen.report
    ((if attestation.proofs = [] then [.emptyProofs] else []) ++
      Seen.collect (fun x => x.1.proverClient) (proofErrors attestation) ∅ attestation.proofs.zipIdx ++
      if uniqueClients attestation < config.requiredClientDiversity then
        [.insufficientClientDiversity (uniqueClients attestation) config.requiredClientDiversity]
      else [])

def computeAttestationStats : ProofAttestationStats where
  blockNumber := attestation.blockNumber
  uniqueClients := uniqueClients attestation
  totalProofBytes :=
    attestation.proofs.foldl (fun total proof => total.saturatingAdd (.ofNat proof.proofData.1.length)) 0
  meetsDiversityThreshold := config.requiredClientDiversity ≤ uniqueClients attestation
  stateRootsConsistent :=
    match attestation.proofs.head? with
    | none => true
    | some first => attestation.proofs.all fun proof => proof.stateRootAfter = first.stateRootAfter

end Model

section Valid
variable {attestation : ProofAttestation} {config : ProofConsensusConfig}

/-- What is checked of an attestation. -/
structure Valid (attestation : ProofAttestation) (config : ProofConsensusConfig) : Prop where
  proofs : attestation.proofs ≠ []
  clients : (attestation.proofs.map ExecutionProof.proverClient).Nodup
  hashes : ∀ proof ∈ attestation.proofs, proof.blockHash = attestation.blockHash
  data : ∀ proof ∈ attestation.proofs, proof.proofData.1 ≠ []
  after : ∀ proof ∈ attestation.proofs, ∀ first ∈ attestation.proofs.head?, proof.stateRootAfter = first.stateRootAfter
  diversity : config.requiredClientDiversity ≤ uniqueClients attestation

theorem proofErrors_eq_nil {x : ExecutionProof × ℕ} : proofErrors attestation false x = [] ↔
    x.1.blockHash = attestation.blockHash ∧ x.1.proofData.1 ≠ [] ∧
      ∀ first ∈ attestation.proofs.head?, x.1.stateRootAfter = first.stateRootAfter := by
  unfold proofErrors
  cases attestation.proofs.head? <;> simp

theorem validateProofAttestation_iff :
    validateProofAttestation attestation config = .ok () ↔ Valid attestation config := by
  have hkeys : attestation.proofs.zipIdx.map (fun x => x.1.proverClient) =
      attestation.proofs.map ExecutionProof.proverClient := by
    rw [← List.zipIdx_map_fst 0 attestation.proofs, List.map_map, List.zipIdx_map_fst]
    rfl
  have hall : ∀ P : ExecutionProof → Prop, (∀ x ∈ attestation.proofs.zipIdx, P x.1) ↔ ∀ p ∈ attestation.proofs, P p := by
    intro P
    conv_rhs => rw [← List.zipIdx_map_fst 0 attestation.proofs, List.forall_mem_map]
  unfold validateProofAttestation
  rw [Seen.report_eq_ok, List.append_eq_nil_iff, List.append_eq_nil_iff,
    Seen.collect_empty_eq_nil fun x => by simp [proofErrors], hkeys]
  simp only [proofErrors_eq_nil, hall fun p => p.blockHash = attestation.blockHash ∧ p.proofData.1 ≠ [] ∧
    ∀ first ∈ attestation.proofs.head?, p.stateRootAfter = first.stateRootAfter, ite_eq_right_iff, List.cons_ne_nil,
    imp_false, not_lt]
  constructor
  · rintro ⟨⟨hproofs, hclients, hchecked⟩, hdiversity⟩
    exact ⟨hproofs, hclients, fun p hp => (hchecked p hp).1, fun p hp => (hchecked p hp).2.1,
      fun p hp => (hchecked p hp).2.2, hdiversity⟩
  · intro h
    exact ⟨⟨h.proofs, h.clients, fun p hp => ⟨h.hashes p hp, h.data p hp, h.after p hp⟩⟩, h.diversity⟩

/-- All proofs are about one transition, from one state to another, and come from enough clients. -/
structure OneTransition (attestation : ProofAttestation) (config : ProofConsensusConfig) : Prop where
  blockNumber : ∀ proof ∈ attestation.proofs, proof.blockNumber = attestation.blockNumber
  blockHash : ∀ proof ∈ attestation.proofs, proof.blockHash = attestation.blockHash
  before : ∀ proof ∈ attestation.proofs, ∀ proof' ∈ attestation.proofs, proof.stateRootBefore = proof'.stateRootBefore
  after : ∀ proof ∈ attestation.proofs, ∀ proof' ∈ attestation.proofs, proof.stateRootAfter = proof'.stateRootAfter
  clients : (attestation.proofs.map ExecutionProof.proverClient).Nodup
  diversity : config.requiredClientDiversity ≤ (attestation.proofs.map ExecutionProof.proverClient).toFinset.card
  threshold : (computeAttestationStats attestation config).meetsDiversityThreshold = true
  consistent : (computeAttestationStats attestation config).stateRootsConsistent = true

theorem stateRootsConsistent_of_valid (h : Valid attestation config) :
    (computeAttestationStats attestation config).stateRootsConsistent = true := by
  have hafter := h.after
  unfold computeAttestationStats
  dsimp only
  cases hfirst : attestation.proofs.head? with
  | none => rfl
  | some first => exact List.all_eq_true.mpr fun proof hproof => decide_eq_true (hafter proof hproof first hfirst)

end Valid

/-- An accepted attestation is about one transition if and only if its proofs have its block number and start from the
same state. -/
theorem accepted_one_transition_iff (attestation : ProofAttestation) (config : ProofConsensusConfig)
    (h : validateProofAttestation attestation config = .ok ()) : OneTransition attestation config ↔
      (∀ proof ∈ attestation.proofs, proof.blockNumber = attestation.blockNumber) ∧
      ∀ proof ∈ attestation.proofs, ∀ proof' ∈ attestation.proofs, proof.stateRootBefore = proof'.stateRootBefore := by
  have hvalid := validateProofAttestation_iff.mp h
  constructor
  · intro hone
    exact ⟨hone.blockNumber, hone.before⟩
  · rintro ⟨hnumber, hbefore⟩
    have hfirst := List.head?_eq_some_head hvalid.proofs
    refine ⟨hnumber, hvalid.hashes, hbefore, fun proof hproof proof' hproof' => ?_, hvalid.clients, hvalid.diversity,
      decide_eq_true hvalid.diversity, stateRootsConsistent_of_valid hvalid⟩
    rw [hvalid.after proof hproof _ hfirst, hvalid.after proof' hproof' _ hfirst]

/-- Proofs of three clients, the second with a block number and a state before of its own. -/
def threeProofs (blockNumber : UInt64) (stateRootBefore : B256) : ProofAttestation where
  blockNumber := 1000
  blockHash := .repeatByte 0xAA
  proofs :=
    [⟨1000, .repeatByte 0xAA, .repeatByte 0x10, .repeatByte 0xBB, ⟨[1], by decide⟩, .geth⟩,
      ⟨blockNumber, .repeatByte 0xAA, stateRootBefore, .repeatByte 0xBB, ⟨[2], by decide⟩, .nethermind⟩,
      ⟨1000, .repeatByte 0xAA, .repeatByte 0x10, .repeatByte 0xBB, ⟨[3], by decide⟩, .besu⟩]
  attesterId := .repeatByte 0x42

theorem accepted_one_transition_three : OneTransition (threeProofs 1000 (.repeatByte 0x10)) defaultProofConfig :=
  (accepted_one_transition_iff _ _ (by decide +kernel)).mpr (by decide +kernel)

/-- A proof of another block, and one that starts from another state. -/
theorem accepted_other_transitions :
    (∃ attestation, validateProofAttestation attestation defaultProofConfig = .ok () ∧
      ¬ ∀ proof ∈ attestation.proofs, proof.blockNumber = attestation.blockNumber) ∧
    ∃ attestation, validateProofAttestation attestation defaultProofConfig = .ok () ∧
      ¬ ∀ proof ∈ attestation.proofs, ∀ proof' ∈ attestation.proofs, proof.stateRootBefore = proof'.stateRootBefore := by
  refine ⟨⟨threeProofs 999 (.repeatByte 0x10), ?_⟩, threeProofs 1000 (.repeatByte 0x11), ?_⟩
  · decide +kernel
  · decide +kernel

end Eip8025
end Eth2077
