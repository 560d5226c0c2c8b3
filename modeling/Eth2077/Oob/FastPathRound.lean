import Eth2077.Oob.FastPath

/-!
# A round of the fast path

What `FastPathAccumulator` knows is determined by the attestations since the last reset: the first of
them starts the clock and names the hash of the round, the ones that come in time are kept, one for each
attester, and the first of these for another hash ends the round with a conflict.
-/

namespace Eth2077

namespace FastPathAccumulator

inductive Call where
  | addAttestation (attestation : FastPathAttestation)
  | reset

def call (acc : FastPathAccumulator) : Call → FastPathAccumulator
  | .addAttestation attestation => (acc.addAttestation attestation).1
  | .reset => acc.reset

/-- A new accumulator after a sequence of calls. -/
def after (cfg : FastPathConfig) (calls : List Call) : FastPathAccumulator := calls.foldl call (new cfg)

/-- The attestations since the last reset. -/
def round (calls : List Call) : List FastPathAttestation :=
  calls.foldl (fun attestations c => match c with
    | .addAttestation attestation => attestations ++ [attestation]
    | .reset => []) []

/-- Not later than `timeout_ms` after the first attestation of the round. -/
def InTime (cfg : FastPathConfig) (round : List FastPathAttestation) (a : FastPathAttestation) : Prop :=
  ∀ first ∈ round.head?, a.receivedAtMs.toNat ≤ first.receivedAtMs.toNat + cfg.timeoutMs.toNat

/-- The hash of the round is that of its first attestation. -/
def roundHash (round : List FastPathAttestation) : Option B256 := round.head?.map (·.blockHash)

/-- An attestation in time for a hash other than the round's. -/
def Conflicting (cfg : FastPathConfig) (round : List FastPathAttestation) (a : FastPathAttestation) : Prop :=
  InTime cfg round a ∧ roundHash round ≠ some a.blockHash

structure Accumulates (cfg : FastPathConfig) (round : List FastPathAttestation) (acc : FastPathAccumulator) :
    Prop where
  config : acc.config = cfg
  start : acc.roundStartMs = round.head?.map (·.receivedAtMs)
  hash : acc.roundBlockHash = roundHash round
  conflict : acc.conflictDetected = true ↔ ∃ a ∈ round, Conflicting cfg round a
  nodup : acc.conflictDetected = false → (acc.attestations.map (·.attesterIndex)).Nodup
  agree : acc.conflictDetected = false → ∀ a ∈ acc.attestations, acc.roundBlockHash = some a.blockHash
  attesters : acc.conflictDetected = false → ∀ i, i ∈ acc.attestations.map (·.attesterIndex) ↔
    ∃ a ∈ round, InTime cfg round a ∧ a.attesterIndex = i

/-! ### One attestation -/

/-- The attestation takes the place of an earlier one by the same attester, or the last place. -/
def record (attestations : List FastPathAttestation) (a : FastPathAttestation) : List FastPathAttestation :=
  if a.attesterIndex ∈ attestations.map (·.attesterIndex) then
    attestations.replaceF fun x => if x.attesterIndex = a.attesterIndex then some a else none
  else attestations ++ [a]

variable {cfg : FastPathConfig} {acc : FastPathAccumulator} {a x : FastPathAttestation}
  {attestations round : List FastPathAttestation}

theorem map_replaceF (attestations : List FastPathAttestation) (a : FastPathAttestation) :
    (attestations.replaceF fun x => if x.attesterIndex = a.attesterIndex then some a else none).map
      (·.attesterIndex) = attestations.map (·.attesterIndex) := by
  induction attestations with
  | nil => rfl
  | cons x attestations ih =>
    rw [List.replaceF]
    split
    · rename_i hnone
      rw [List.map_cons, List.map_cons, ih]
    · rename_i y hsome
      split_ifs at hsome with heq
      obtain rfl := Option.some_inj.mp hsome
      rw [List.map_cons, List.map_cons, heq]

theorem mem_replaceF (h : x ∈ attestations.replaceF fun x =>
    if x.attesterIndex = a.attesterIndex then some a else none) : x ∈ attestations ∨ x = a := by
  induction attestations with
  | nil => cases h
  | cons y attestations ih =>
    rw [List.replaceF] at h
    split at h
    · rcases List.mem_cons.mp h with rfl | h
      · exact .inl (List.mem_cons_self ..)
      · exact (ih h).imp_left (List.mem_cons_of_mem _)
    · rename_i z hsome
      split_ifs at hsome
      obtain rfl := Option.some_inj.mp hsome
      rcases List.mem_cons.mp h with rfl | h
      · exact .inr rfl
      · exact .inl (List.mem_cons_of_mem _ h)

theorem mem_record (h : x ∈ record attestations a) : x ∈ attestations ∨ x = a := by
  unfold record at h
  split_ifs at h
  · exact mem_replaceF h
  · simpa using h

theorem nodup_record (h : (attestations.map (·.attesterIndex)).Nodup) :
    ((record attestations a).map (·.attesterIndex)).Nodup := by
  unfold record
  split_ifs with hmem
  · rwa [map_replaceF]
  · rw [List.map_append, List.map_singleton]
    exact h.append (List.nodup_singleton _) (by simpa [List.disjoint_singleton] using hmem)

theorem mem_attesters_record {i : UInt64} :
    i ∈ (record attestations a).map (·.attesterIndex) ↔
      i ∈ attestations.map (·.attesterIndex) ∨ i = a.attesterIndex := by
  unfold record
  split_ifs with hmem
  · rw [map_replaceF]
    constructor
    · exact .inl
    · rintro (h | rfl)
      · exact h
      · exact hmem
  · simp

/-- What is left of the accumulator when the attestation counts. -/
def store (acc : FastPathAccumulator) (a : FastPathAttestation) : FastPathAccumulator :=
  { acc.noteStart a.receivedAtMs with
    roundBlockHash := some a.blockHash, attestations := record acc.attestations a }

theorem isTimedOut_noteStart (acc : FastPathAccumulator) (nowMs : UInt64) :
    (acc.noteStart nowMs).isTimedOut nowMs = true ↔
      acc.config.timeoutMs.toNat + (acc.roundStartMs.getD nowMs).toNat < nowMs.toNat := by
  simp only [isTimedOut, noteStart, decide_eq_true_eq, UInt64.lt_iff_toNat_lt, UInt64.toNat_saturatingSub]
  omega

theorem addAttestation_of_conflict (h : acc.conflictDetected = true) :
    acc.addAttestation a = (acc, some .conflictDetected) := by
  simp [addAttestation, h]

theorem addAttestation_of_late (hc : acc.conflictDetected = false)
    (h : (acc.noteStart a.receivedAtMs).isTimedOut a.receivedAtMs = true) :
    acc.addAttestation a = (acc.noteStart a.receivedAtMs, some .timeout) := by
  simp [addAttestation, hc, h]

section InTime
variable (hc : acc.conflictDetected = false)
  (ht : ¬ (acc.noteStart a.receivedAtMs).isTimedOut a.receivedAtMs = true)
  (hagree : ∀ x ∈ acc.attestations, acc.roundBlockHash = some x.blockHash)

include hc ht hagree

theorem addAttestation_of_other {b : B256} (hb : acc.roundBlockHash = some b) (hne : b ≠ a.blockHash) :
    acc.addAttestation a = ((acc.noteStart a.receivedAtMs).flagConflict a, some .conflictDetected) := by
  simp only [addAttestation, hc, ht, Bool.false_eq_true, if_false]
  split
  · rename_i existing hfind
    have hexisting := hagree existing (List.mem_of_find?_eq_some hfind)
    rw [hb, Option.some_inj] at hexisting
    rw [if_pos (hexisting ▸ hne)]
  · have hround : (acc.noteStart a.receivedAtMs).roundBlockHash = some b := hb
    rw [hround]
    dsimp only
    rw [if_pos hne]

theorem addAttestation_of_agree (hb : ∀ b ∈ acc.roundBlockHash, b = a.blockHash) :
    acc.addAttestation a = (acc.store a, (acc.store a).outcome a) := by
  simp only [addAttestation, hc, ht, Bool.false_eq_true, if_false]
  split
  · rename_i existing hfind
    have hmem : existing ∈ acc.attestations := List.mem_of_find?_eq_some hfind
    have hsame : existing.attesterIndex = a.attesterIndex := by simpa using List.find?_some hfind
    have hexisting := hagree existing hmem
    have hhash := hb _ hexisting
    have hstore : { acc.noteStart a.receivedAtMs with attestations := acc.attestations.replaceF fun x =>
        if x.attesterIndex = a.attesterIndex then some a else none } = acc.store a := by
      rw [store, record, if_pos (hsame ▸ List.mem_map_of_mem hmem), ← hhash, ← hexisting]
      rfl
    rw [if_neg (not_not.mpr hhash), ← hstore]
    rfl
  · rename_i hfind
    have hfresh : a.attesterIndex ∉ acc.attestations.map (·.attesterIndex) := by
      simpa [noteStart] using hfind
    have hstore : acc.store a = acc.append a := by
      rw [store, record, if_neg hfresh]
      rfl
    rw [hstore]
    split
    · rename_i b hround
      obtain rfl := hb b hround
      rw [if_neg (not_not.mpr rfl), hround]
      rfl
    · rfl

end InTime

/-! ### The round so far -/

theorem inTime_concat (ha : round ≠ []) : InTime cfg (round ++ [a]) x ↔ InTime cfg round x := by
  obtain ⟨first, rest, rfl⟩ := List.exists_cons_of_ne_nil ha
  rfl

theorem roundHash_concat (ha : round ≠ []) : roundHash (round ++ [a]) = roundHash round := by
  obtain ⟨first, rest, rfl⟩ := List.exists_cons_of_ne_nil ha
  rfl

theorem conflicting_concat (ha : round ≠ []) : Conflicting cfg (round ++ [a]) x ↔ Conflicting cfg round x := by
  rw [Conflicting, Conflicting, inTime_concat ha, roundHash_concat ha]

namespace Accumulates

theorem reset (acc : FastPathAccumulator) : Accumulates acc.config [] acc.reset where
  config := rfl
  start := rfl
  hash := rfl
  conflict := by simp [FastPathAccumulator.reset]
  nodup _ := List.nodup_nil
  agree _ x hx := by cases hx
  attesters _ i := by simp [FastPathAccumulator.reset]

theorem new (cfg : FastPathConfig) : Accumulates cfg [] (.new cfg) := reset (.new cfg)

variable (h : Accumulates cfg round acc)

include h

theorem inTime_iff : InTime cfg (round ++ [a]) a ↔
    ¬ (acc.noteStart a.receivedAtMs).isTimedOut a.receivedAtMs = true := by
  rw [isTimedOut_noteStart, h.config, h.start, InTime]
  cases round with
  | nil => simp
  | cons first rest => simp [Nat.add_comm]

theorem eq_nil_of_hash (hb : acc.roundBlockHash = none) : round = [] := by
  rw [h.hash, roundHash, Option.map_eq_none_iff, List.head?_eq_none_iff] at hb
  exact hb

/-- A round that has begun begins as it did. -/
theorem start_noteStart : (acc.noteStart a.receivedAtMs).roundStartMs =
    (round ++ [a]).head?.map (·.receivedAtMs) := by
  rw [noteStart, h.start]
  cases round with
  | nil => rfl
  | cons first rest => rfl

theorem of_conflict (hc : acc.conflictDetected = true) : Accumulates cfg (round ++ [a]) acc := by
  obtain ⟨y, hy, hconflicting⟩ := h.conflict.mp hc
  have hne : round ≠ [] := List.ne_nil_of_mem hy
  have hhead : (round ++ [a]).head? = round.head? := by
    obtain ⟨first, rest, rfl⟩ := List.exists_cons_of_ne_nil hne
    rfl
  have hfalse : ¬ acc.conflictDetected = false := by simp [hc]
  refine ⟨h.config, by rw [hhead, h.start], by rw [roundHash_concat hne, h.hash], ?_, fun hf => absurd hf hfalse,
    fun hf => absurd hf hfalse, fun hf => absurd hf hfalse⟩
  exact iff_of_true hc ⟨y, List.mem_append_left _ hy, (conflicting_concat hne).mpr hconflicting⟩

theorem addAttestation_late (hlate : ¬ InTime cfg (round ++ [a]) a) :
    Accumulates cfg (round ++ [a]) (acc.noteStart a.receivedAtMs) := by
  have hne : round ≠ [] := by
    rintro rfl
    exact hlate (by simp [InTime])
  refine ⟨h.config, h.start_noteStart, by rw [roundHash_concat hne]; exact h.hash, ?_, h.nodup, h.agree, ?_⟩
  · refine h.conflict.trans ?_
    simp only [conflicting_concat hne, List.mem_append, List.mem_singleton]
    constructor
    · rintro ⟨y, hy, hconflicting⟩
      exact ⟨y, .inl hy, hconflicting⟩
    · rintro ⟨y, hy | rfl, hconflicting⟩
      · exact ⟨y, hy, hconflicting⟩
      · exact absurd ((inTime_concat hne).mpr hconflicting.1) hlate
  · intro hf i
    rw [show (acc.noteStart a.receivedAtMs).attestations = acc.attestations from rfl, h.attesters hf i]
    simp only [inTime_concat hne, List.mem_append, List.mem_singleton]
    constructor
    · rintro ⟨y, hy, hin⟩
      exact ⟨y, .inl hy, hin⟩
    · rintro ⟨y, hy | rfl, hin, rfl⟩
      · exact ⟨y, hy, hin, rfl⟩
      · exact absurd ((inTime_concat hne).mpr hin) hlate

theorem addAttestation_other (hin : InTime cfg (round ++ [a]) a) {b : B256} (hb : acc.roundBlockHash = some b)
    (hne : b ≠ a.blockHash) :
    Accumulates cfg (round ++ [a]) ((acc.noteStart a.receivedAtMs).flagConflict a) := by
  have hround : round ≠ [] := by
    rintro rfl
    cases h.hash.symm.trans hb
  refine ⟨h.config, h.start_noteStart, by rw [roundHash_concat hround]; exact h.hash, ?_, nofun, nofun, nofun⟩
  refine iff_of_true rfl ⟨a, by simp, hin, ?_⟩
  rw [roundHash_concat hround, ← h.hash, hb, ne_eq, Option.some_inj]
  exact hne

theorem addAttestation_agree (hc : acc.conflictDetected = false) (hin : InTime cfg (round ++ [a]) a)
    (hb : ∀ b ∈ acc.roundBlockHash, b = a.blockHash) : Accumulates cfg (round ++ [a]) (acc.store a) := by
  have hhash : roundHash (round ++ [a]) = some a.blockHash := by
    cases hround : acc.roundBlockHash with
    | none =>
      rw [h.eq_nil_of_hash hround]
      rfl
    | some b =>
      have hne : round ≠ [] := by
        rintro rfl
        cases h.hash.symm.trans hround
      rw [roundHash_concat hne, ← h.hash, hround, hb b hround]
  -- whoever came in time before still does: the round has begun, or there was nobody
  have hbefore : ∀ x ∈ round, (InTime cfg (round ++ [a]) x ↔ InTime cfg round x) := fun x hx =>
    inTime_concat (List.ne_nil_of_mem hx)
  have hnone : ¬ ∃ x ∈ round, Conflicting cfg round x := fun hx =>
    Bool.noConfusion (hc.symm.trans (h.conflict.mpr hx))
  refine ⟨h.config, h.start_noteStart, hhash.symm, iff_of_false (by simp [store, noteStart, hc]) ?_,
    fun _ => nodup_record (h.nodup hc), ?_, ?_⟩
  · rintro ⟨x, hx, hconflicting⟩
    rcases List.mem_append.mp hx with hx | hx
    · exact hnone ⟨x, hx, (conflicting_concat (List.ne_nil_of_mem hx)).mp hconflicting⟩
    · rw [List.mem_singleton.mp hx] at hconflicting
      exact hconflicting.2 hhash
  · intro _ x hx
    rcases mem_record hx with hx | rfl
    · have hround := h.agree hc x hx
      rw [hb _ hround]
      rfl
    · rfl
  · intro _ i
    rw [show (acc.store a).attestations = record acc.attestations a from rfl, mem_attesters_record,
      h.attesters hc i]
    constructor
    · rintro (⟨x, hx, hxin, rfl⟩ | rfl)
      · exact ⟨x, List.mem_append_left _ hx, (hbefore x hx).mpr hxin, rfl⟩
      · exact ⟨a, by simp, hin, rfl⟩
    · rintro ⟨x, hx, hxin, rfl⟩
      rcases List.mem_append.mp hx with hx | hx
      · exact .inl ⟨x, hx, (hbefore x hx).mp hxin, rfl⟩
      · rw [List.mem_singleton.mp hx]
        exact .inr rfl

/-- What an attestation does in a round. -/
theorem addAttestation_cases :
    ((∃ x ∈ round ++ [a], Conflicting cfg (round ++ [a]) x) ∧
      (acc.addAttestation a).2 = some .conflictDetected ∧
      Accumulates cfg (round ++ [a]) (acc.addAttestation a).1) ∨
    (acc.conflictDetected = false ∧ acc.addAttestation a = (acc.noteStart a.receivedAtMs, some .timeout) ∧
      Accumulates cfg (round ++ [a]) (acc.noteStart a.receivedAtMs)) ∨
    (acc.conflictDetected = false ∧ acc.addAttestation a = (acc.store a, (acc.store a).outcome a) ∧
      Accumulates cfg (round ++ [a]) (acc.store a)) := by
  cases hc : acc.conflictDetected with
  | true =>
    rw [addAttestation_of_conflict hc]
    have hnext := h.of_conflict (a := a) hc
    exact .inl ⟨hnext.conflict.mp hc, rfl, hnext⟩
  | false =>
    by_cases hin : InTime cfg (round ++ [a]) a
    · have ht := h.inTime_iff.mp hin
      by_cases hb : ∀ b ∈ acc.roundBlockHash, b = a.blockHash
      · exact .inr (.inr ⟨rfl, addAttestation_of_agree hc ht (h.agree hc) hb, h.addAttestation_agree hc hin hb⟩)
      · push Not at hb
        obtain ⟨b, hround, hne⟩ := hb
        rw [addAttestation_of_other hc ht (h.agree hc) hround hne]
        have hnext := h.addAttestation_other hin hround hne
        exact .inl ⟨hnext.conflict.mp rfl, rfl, hnext⟩
    · have ht := not_not.mp (fun ht => hin (h.inTime_iff.mpr ht))
      exact .inr (.inl ⟨rfl, addAttestation_of_late hc ht, h.addAttestation_late hin⟩)

theorem addAttestation : Accumulates cfg (round ++ [a]) (acc.addAttestation a).1 := by
  rcases h.addAttestation_cases (a := a) with ⟨-, -, hnext⟩ | ⟨-, heq, hnext⟩ | ⟨-, heq, hnext⟩
  · exact hnext
  · rwa [heq]
  · rwa [heq]

end Accumulates

theorem accumulates_after (cfg : FastPathConfig) (calls : List Call) :
    Accumulates cfg (FastPathAccumulator.round calls) (after cfg calls) := by
  induction calls using List.reverseRecOn with
  | nil => exact Accumulates.new cfg
  | append_singleton calls c ih =>
    simp only [FastPathAccumulator.round, after, List.foldl_append, List.foldl_cons, List.foldl_nil] at ih ⊢
    cases c with
    | addAttestation a => exact ih.addAttestation
    | reset =>
      have hreset := Accumulates.reset (calls.foldl call (.new cfg))
      rwa [ih.config] at hreset

/-! ### Counting -/

theorem agreementCount_eq (hagree : ∀ a ∈ acc.attestations, acc.roundBlockHash = some a.blockHash) :
    acc.agreementCount = acc.attestations.length := by
  unfold agreementCount
  split
  · rename_i hnone
    cases hatt : acc.attestations with
    | nil => rfl
    | cons a rest => cases hnone.symm.trans (hagree a (by simp [hatt]))
  · rename_i b hb
    rw [List.filter_eq_self.mpr]
    intro a ha
    simpa using (Option.some_inj.mp (hb.symm.trans (hagree a ha))).symm

theorem length_record (h : a.attesterIndex ∈ attestations.map (·.attesterIndex)) :
    (record attestations a).length = attestations.length := by
  rw [record, if_pos h]
  simpa only [List.length_map] using congrArg List.length (map_replaceF attestations a)

/-- A second attestation by the same attester does not count. -/
theorem Accumulates.agreementCount_again (h : Accumulates cfg round acc) (hc : acc.conflictDetected = false)
    (ha : a.attesterIndex ∈ acc.attestations.map (·.attesterIndex)) :
    (acc.addAttestation a).1.agreementCount = acc.agreementCount := by
  by_cases ht : (acc.noteStart a.receivedAtMs).isTimedOut a.receivedAtMs = true
  · rw [addAttestation_of_late hc ht]
    rfl
  · by_cases hb : ∀ b ∈ acc.roundBlockHash, b = a.blockHash
    · have hnext := h.addAttestation_agree hc (h.inTime_iff.mpr ht) hb
      rw [addAttestation_of_agree hc ht (h.agree hc) hb, agreementCount_eq (hnext.agree hc),
        agreementCount_eq (h.agree hc)]
      exact length_record ha
    · push Not at hb
      obtain ⟨b, hround, hne⟩ := hb
      rw [addAttestation_of_other hc ht (h.agree hc) hround hne]
      simp [agreementCount, flagConflict, noteStart, Option.mem_def.mp hround, Ne.symm hne]

theorem Accumulates.fastFinalized (h : Accumulates cfg round acc) {p : FinalityProof}
    (hf : (acc.addAttestation a).2 = some (.fastFinalized p)) :
    ∃ attesters : List UInt64, attesters.Nodup ∧
      (∀ i, i ∈ attesters ↔ ∃ x ∈ round ++ [a], InTime cfg (round ++ [a]) x ∧
        x.blockHash = p.commitment.blockHash ∧ x.attesterIndex = i) ∧
      cfg.optimisticThreshold ≤ attesters.length ∧ p.proofData = attesters.flatMap toLeBytes := by
  rcases h.addAttestation_cases (a := a) with ⟨-, hout, -⟩ | ⟨-, heq, -⟩ | ⟨hc, heq, hnext⟩
  · cases hout.symm.trans hf
  · rw [heq] at hf
    cases hf
  · rw [heq] at hf
    have hcount := (outcome_eq_fastFinalized hf).2
    rw [agreementCount_eq (hnext.agree hc), hnext.config] at hcount
    have hp : p = (acc.store a).buildFastProof a.blockHash a.receivedAtMs := by
      unfold outcome at hf
      split_ifs at hf
      · exact (FastPathOutcome.fastFinalized.inj (Option.some_inj.mp hf)).symm
      · cases hf
    have hmatching : (acc.store a).attestations.filter (fun x => x.blockHash == a.blockHash) =
        (acc.store a).attestations := by
      rw [List.filter_eq_self.mpr]
      intro x hx
      simpa using (Option.some_inj.mp (hnext.agree hc x hx)).symm
    -- everybody in time spoke for the hash of the round, or there would be a conflict
    have hround : ∀ x ∈ round ++ [a], InTime cfg (round ++ [a]) x → x.blockHash = a.blockHash := by
      intro x hx hin
      by_contra hne
      have hconflict := hnext.conflict.mpr ⟨x, hx, hin, fun hhash => hne ?_⟩
      · exact Bool.noConfusion (hc.symm.trans hconflict)
      · rw [← hnext.hash] at hhash
        exact (Option.some_inj.mp hhash).symm
    refine ⟨(acc.store a).attestations.map (·.attesterIndex), hnext.nodup hc, ?_, by simpa using hcount, ?_⟩
    · intro i
      rw [hnext.attesters hc i, hp]
      constructor
      · rintro ⟨x, hx, hin, hi⟩
        exact ⟨x, hx, hin, hround x hx hin, hi⟩
      · rintro ⟨x, hx, hin, -, hi⟩
        exact ⟨x, hx, hin, hi⟩
    · rw [hp, buildFastProof, List.flatMap_map]
      exact congrArg (List.flatMap fun x => toLeBytes x.attesterIndex) hmatching

theorem Accumulates.conflictDetected (h : Accumulates cfg round acc)
    (hx : ∃ x ∈ round ++ [a], Conflicting cfg (round ++ [a]) x) :
    (acc.addAttestation a).2 = some .conflictDetected := by
  rcases h.addAttestation_cases (a := a) with ⟨-, hout, -⟩ | ⟨hc, -, hnext⟩ | ⟨hc, -, hnext⟩
  · exact hout
  · exact Bool.noConfusion (hc.symm.trans (hnext.conflict.mpr hx))
  · exact Bool.noConfusion (hc.symm.trans (hnext.conflict.mpr hx))

/-- What holds after any calls: one attestation for each attester and all for the hash of the round, a
proof only of the hash that enough attesters named in time and made of exactly their indices, and nothing
but conflicts once there has been one. -/
theorem fast_path_invariant (cfg : FastPathConfig) (calls : List Call) :
    ((after cfg calls).conflictDetected = false →
      ((after cfg calls).attestations.map (·.attesterIndex)).Nodup ∧
      (∀ x ∈ (after cfg calls).attestations, (after cfg calls).roundBlockHash = some x.blockHash) ∧
      ∀ a, a.attesterIndex ∈ (after cfg calls).attestations.map (·.attesterIndex) →
        ((after cfg calls).addAttestation a).1.agreementCount = (after cfg calls).agreementCount) ∧
    (∀ a p, ((after cfg calls).addAttestation a).2 = some (.fastFinalized p) →
      ∃ attesters : List UInt64, attesters.Nodup ∧
        (∀ i, i ∈ attesters ↔ ∃ x ∈ FastPathAccumulator.round calls ++ [a],
          InTime cfg (FastPathAccumulator.round calls ++ [a]) x ∧
          x.blockHash = p.commitment.blockHash ∧ x.attesterIndex = i) ∧
        cfg.optimisticThreshold ≤ attesters.length ∧ p.proofData = attesters.flatMap toLeBytes) ∧
    (∀ a, (∃ x ∈ FastPathAccumulator.round calls ++ [a],
        Conflicting cfg (FastPathAccumulator.round calls ++ [a]) x) →
      ((after cfg calls).addAttestation a).2 = some .conflictDetected) := by
  have h := accumulates_after cfg calls
  refine ⟨fun hc => ⟨h.nodup hc, h.agree hc, fun a ha => h.agreementCount_again hc ha⟩,
    fun a p hf => h.fastFinalized hf, fun a hx => h.conflictDetected hx⟩

end FastPathAccumulator

end Eth2077
