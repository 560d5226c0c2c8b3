import Mathlib.Data.Finset.Card
import Eth2077.Prim

/-!
# The optimistic fast path (`oob-consensus/src/fast_path.rs`)

`FastPathAccumulator` counts attestations for one hash. The engine resets it whenever it enters a
round; `FastPathAccumulator.Ok` is what holds between two resets.
-/

namespace Eth2077

structure CommitmentEnvelope where
  blockHash : B256
  blockNumber : UInt64
  stateRoot : B256
  timestamp : UInt64
  signature : List UInt8
  proposerIndex : UInt64
deriving DecidableEq

structure FinalityProof where
  commitment : CommitmentEnvelope
  proofData : List UInt8
  finalizedAt : UInt64
deriving DecidableEq

structure FastPathConfig where
  quorumThreshold : Nat
  timeoutMs : UInt64
  optimisticThreshold : Nat
deriving DecidableEq

structure FastPathAttestation where
  blockHash : B256
  attesterIndex : UInt64
  signature : List UInt8
  receivedAtMs : UInt64
deriving DecidableEq

inductive FastPathOutcome where
  | fastFinalized (proof : FinalityProof)
  | slowPath
  | timeout
  | conflictDetected
deriving DecidableEq

structure FastPathAccumulator where
  config : FastPathConfig
  attestations : List FastPathAttestation
  roundBlockHash : Option B256
  roundStartMs : Option UInt64
  conflictDetected : Bool
deriving DecidableEq

/-- `u64::to_le_bytes`. -/
def toLeBytes (n : UInt64) : List UInt8 := (List.range 8).map fun i => UInt8.ofNat (n.toNat / 256 ^ i)

namespace FastPathAccumulator

def new (config : FastPathConfig) : FastPathAccumulator where
  config := config
  attestations := []
  roundBlockHash := none
  roundStartMs := none
  conflictDetected := false

def reset (acc : FastPathAccumulator) : FastPathAccumulator :=
  { acc with attestations := [], roundBlockHash := none, roundStartMs := none, conflictDetected := false }

def agreementCount (acc : FastPathAccumulator) : Nat :=
  match acc.roundBlockHash with
  | none => 0
  | some roundHash => (acc.attestations.filter fun a => a.blockHash == roundHash).length

def isTimedOut (acc : FastPathAccumulator) (nowMs : UInt64) : Bool :=
  match acc.roundStartMs with
  | some startMs => decide (acc.config.timeoutMs < nowMs.saturatingSub startMs)
  | none => false

def hasQuorum (acc : FastPathAccumulator) : Bool :=
  !acc.conflictDetected && decide (acc.config.quorumThreshold ≤ acc.agreementCount)

def buildFastProof (acc : FastPathAccumulator) (blockHash : B256) (finalizedAt : UInt64) : FinalityProof :=
  let matching := acc.attestations.filter fun a => a.blockHash == blockHash
  -- the first non-empty signature in list order, as the loop's `is_empty` test picks it
  let firstSignature := ((matching.map (·.signature)).find? fun sig => !sig.isEmpty).getD []
  { commitment :=
      { blockHash := blockHash, blockNumber := 0, stateRoot := FixedBytes.zero, timestamp := finalizedAt,
        signature := firstSignature, proposerIndex := 0 }
    proofData := matching.flatMap fun a => toLeBytes a.attesterIndex
    finalizedAt := finalizedAt }

/-- The end of `add_attestation`: what the stored attestations amount to. -/
def outcome (acc : FastPathAccumulator) (attestation : FastPathAttestation) : Option FastPathOutcome :=
  if 0 < acc.config.optimisticThreshold ∧ acc.config.optimisticThreshold ≤ acc.agreementCount then
    let blockHash := acc.roundBlockHash.getD attestation.blockHash
    some (.fastFinalized (acc.buildFastProof blockHash attestation.receivedAtMs))
  else if acc.hasQuorum then some .slowPath
  else none

/-- A vote for another hash: keep it, and flag the conflict until the next reset. -/
def flagConflict (acc : FastPathAccumulator) (attestation : FastPathAttestation) : FastPathAccumulator :=
  { acc with conflictDetected := true, attestations := acc.attestations ++ [attestation] }

/-- `round_start_ms` is set by the first attestation after a reset. -/
def noteStart (acc : FastPathAccumulator) (nowMs : UInt64) : FastPathAccumulator :=
  { acc with roundStartMs := some (acc.roundStartMs.getD nowMs) }

def addAttestation (acc : FastPathAccumulator) (attestation : FastPathAttestation) :
    FastPathAccumulator × Option FastPathOutcome :=
  if acc.conflictDetected then (acc, some .conflictDetected)
  else
    let acc := acc.noteStart attestation.receivedAtMs
    if acc.isTimedOut attestation.receivedAtMs then (acc, some .timeout)
    else
      match acc.attestations.find? fun a => a.attesterIndex == attestation.attesterIndex with
      | some existing =>
        if existing.blockHash ≠ attestation.blockHash then
          (acc.flagConflict attestation, some .conflictDetected)
        else
          let acc := { acc with attestations := acc.attestations.replaceF fun a =>
            if a.attesterIndex = attestation.attesterIndex then some attestation else none }
          (acc, acc.outcome attestation)
      | none =>
        match acc.roundBlockHash with
        | some roundHash =>
          if roundHash ≠ attestation.blockHash then
            (acc.flagConflict attestation, some .conflictDetected)
          else
            let acc := { acc with attestations := acc.attestations ++ [attestation] }
            (acc, acc.outcome attestation)
        | none =>
          let acc := { acc with roundBlockHash := some attestation.blockHash,
                                attestations := acc.attestations ++ [attestation] }
          (acc, acc.outcome attestation)

/-! ### Between two resets -/

variable {acc : FastPathAccumulator} {a : FastPathAttestation}

/-- Unless a conflict is flagged, the attestations come from distinct attesters, all for the hash of
the round, and every one of them satisfies `P`. -/
structure Ok (P : UInt64 → B256 → Prop) (acc : FastPathAccumulator) : Prop where
  nodup : acc.conflictDetected = false → (acc.attestations.map (·.attesterIndex)).Nodup
  hash : acc.conflictDetected = false → ∀ a ∈ acc.attestations, acc.roundBlockHash = some a.blockHash
  voted : acc.conflictDetected = false → ∀ a ∈ acc.attestations, P a.attesterIndex a.blockHash

namespace Ok
variable {P Q : UInt64 → B256 → Prop}

theorem reset (P : UInt64 → B256 → Prop) (acc : FastPathAccumulator) : Ok P acc.reset :=
  ⟨fun _ => List.nodup_nil, fun _ _ h => absurd h List.not_mem_nil, fun _ _ h => absurd h List.not_mem_nil⟩

theorem new (P : UInt64 → B256 → Prop) (cfg : FastPathConfig) : Ok P (.new cfg) :=
  reset P (.new cfg)

theorem mono (h : Ok P acc) (hPQ : ∀ i b, P i b → Q i b) : Ok Q acc :=
  ⟨h.nodup, h.hash, fun hc a ha => hPQ _ _ (h.voted hc a ha)⟩

end Ok

def append (acc : FastPathAccumulator) (a : FastPathAttestation) : FastPathAccumulator :=
  { acc.noteStart a.receivedAtMs with
    roundBlockHash := some a.blockHash, attestations := acc.attestations ++ [a] }

theorem addAttestation_cases (hfresh : ∀ x ∈ acc.attestations, x.attesterIndex ≠ a.attesterIndex) :
    (acc.conflictDetected = true ∧ acc.addAttestation a = (acc, some .conflictDetected)) ∨
    (acc.conflictDetected = false ∧ acc.addAttestation a = (acc.noteStart a.receivedAtMs, some .timeout)) ∨
    (acc.conflictDetected = false ∧ acc.addAttestation a =
      ((acc.noteStart a.receivedAtMs).flagConflict a, some .conflictDetected)) ∨
    (acc.conflictDetected = false ∧ (∀ b, acc.roundBlockHash = some b → b = a.blockHash) ∧
      acc.addAttestation a = (acc.append a, (acc.append a).outcome a)) := by
  have hfind : (acc.noteStart a.receivedAtMs).attestations.find?
      (fun x => x.attesterIndex == a.attesterIndex) = none := by
    simpa [noteStart] using hfresh
  cases hc : acc.conflictDetected with
  | true => exact .inl ⟨rfl, by simp [addAttestation, hc]⟩
  | false =>
    refine .inr ?_
    by_cases ht : (acc.noteStart a.receivedAtMs).isTimedOut a.receivedAtMs = true
    · exact .inl ⟨rfl, by simp [addAttestation, hc, ht]⟩
    refine .inr ?_
    cases hr : (acc.noteStart a.receivedAtMs).roundBlockHash with
    | none =>
      refine .inr ⟨rfl, fun b hb => absurd (hr.symm.trans hb) nofun, ?_⟩
      simp [addAttestation, hc, ht, hfind, hr]
      exact ⟨rfl, rfl⟩
    | some b =>
      by_cases hb : b = a.blockHash
      · subst hb
        refine .inr ⟨rfl, fun b hb => (Option.some.inj (hr.symm.trans hb)).symm, ?_⟩
        simp [addAttestation, hc, ht, hfind, hr]
        exact ⟨rfl, rfl⟩
      · exact .inl ⟨rfl, by simp [addAttestation, hc, ht, hfind, hr, hb]⟩

theorem addAttestation_config (acc : FastPathAccumulator) (a : FastPathAttestation) :
    (acc.addAttestation a).1.config = acc.config := by
  unfold addAttestation
  split_ifs
  · rfl
  simp only
  split_ifs
  · rfl
  split
  · split_ifs <;> rfl
  · split
    · split_ifs <;> rfl
    · rfl

namespace Ok
variable {P : UInt64 → B256 → Prop}

theorem of_conflict (h : acc.conflictDetected = true) : Ok P acc :=
  ⟨fun hf => absurd (h.symm.trans hf) nofun, fun hf => absurd (h.symm.trans hf) nofun,
    fun hf => absurd (h.symm.trans hf) nofun⟩

theorem noteStart (h : Ok P acc) (now : UInt64) : Ok P (acc.noteStart now) := ⟨h.nodup, h.hash, h.voted⟩

theorem append (h : Ok P acc) (hc : acc.conflictDetected = false)
    (hb : ∀ b, acc.roundBlockHash = some b → b = a.blockHash) (ha : P a.attesterIndex a.blockHash)
    (hfresh : ∀ x ∈ acc.attestations, x.attesterIndex ≠ a.attesterIndex) : Ok P (acc.append a) := by
  refine ⟨fun _ => ?_, fun _ x hx => ?_, fun _ x hx => ?_⟩
  · rw [FastPathAccumulator.append, List.map_append, List.map_singleton]
    refine (h.nodup hc).append (List.nodup_singleton _) ?_
    simpa [List.disjoint_singleton] using hfresh
  · rcases List.mem_append.mp hx with hx | hx
    · rw [hb _ (h.hash hc x hx)]; rfl
    · rw [List.mem_singleton.mp hx]; rfl
  · rcases List.mem_append.mp hx with hx | hx
    · exact h.voted hc x hx
    · rw [List.mem_singleton.mp hx]; exact ha

theorem addAttestation (h : Ok P acc) (ha : P a.attesterIndex a.blockHash)
    (hfresh : ∀ x ∈ acc.attestations, x.attesterIndex ≠ a.attesterIndex) :
    Ok P (acc.addAttestation a).1 := by
  rcases addAttestation_cases hfresh with ⟨-, hr⟩ | ⟨-, hr⟩ | ⟨-, hr⟩ | ⟨hc, hb, hr⟩ <;> rw [hr]
  · exact h
  · exact h.noteStart _
  · exact of_conflict rfl
  · exact h.append hc hb ha hfresh

end Ok

theorem outcome_eq_fastFinalized {p : FinalityProof} (h : acc.outcome a = some (.fastFinalized p)) :
    0 < acc.config.optimisticThreshold ∧ acc.config.optimisticThreshold ≤ acc.agreementCount := by
  unfold outcome at h
  split_ifs at h with h1 h2
  · exact h1
  · cases h

theorem fastFinalized_cases (hfresh : ∀ x ∈ acc.attestations, x.attesterIndex ≠ a.attesterIndex)
    {p : FinalityProof} (hf : (acc.addAttestation a).2 = some (.fastFinalized p)) :
    acc.conflictDetected = false ∧ (∀ b, acc.roundBlockHash = some b → b = a.blockHash) ∧
      0 < acc.config.optimisticThreshold ∧
      acc.config.optimisticThreshold ≤ (acc.append a).agreementCount := by
  rcases addAttestation_cases hfresh with ⟨-, hr⟩ | ⟨-, hr⟩ | ⟨-, hr⟩ | ⟨hc, hb, hr⟩ <;> rw [hr] at hf
  · cases hf
  · cases hf
  · cases hf
  · exact ⟨hc, hb, outcome_eq_fastFinalized hf⟩

/-- A fast finalisation is backed by `optimistic_threshold` distinct attesters of the hash just
attested. -/
theorem Ok.fastFinalized {P : UInt64 → B256 → Prop} (h : Ok P acc) (ha : P a.attesterIndex a.blockHash)
    (hfresh : ∀ x ∈ acc.attestations, x.attesterIndex ≠ a.attesterIndex) {p : FinalityProof}
    (hf : (acc.addAttestation a).2 = some (.fastFinalized p)) :
    0 < acc.config.optimisticThreshold ∧ ∃ A : Finset UInt64,
      acc.config.optimisticThreshold ≤ A.card ∧ ∀ i ∈ A, P i a.blockHash := by
  obtain ⟨hc, hb, hpos, hle⟩ := fastFinalized_cases hfresh hf
  have hok := h.append hc hb ha hfresh
  refine ⟨hpos, ((acc.append a).attestations.map (·.attesterIndex)).toFinset, ?_, ?_⟩
  · rw [List.toFinset_card_of_nodup (hok.nodup hc), List.length_map]
    exact hle.trans (List.length_filter_le _ _)
  · intro i hi
    obtain ⟨x, hx, rfl⟩ := List.mem_map.mp (List.mem_toFinset.mp hi)
    have hxh : a.blockHash = x.blockHash := Option.some.inj (hok.hash hc x hx)
    exact hxh ▸ hok.voted hc x hx

end FastPathAccumulator

end Eth2077
