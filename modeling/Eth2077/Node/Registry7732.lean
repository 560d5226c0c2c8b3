import Eth2077.Node.Engine7732
import Eth2077.Lib.Runs

/-!
# The registry of payload headers and envelopes

What any sequence of registrations keeps: the two indexes of the headers agree, and envelopes are filed
under their own root. A header that arrives after an envelope of its root is not compared with it, so the
order of the two matters exactly when their slots differ and nothing else decides.
-/

namespace Eth2077

namespace Engine7732

/-- A request to register. -/
inductive Registration where
  | header (req : Json)
  | envelope (req : Json)

variable {Db : Type} {s s' : NodeState Db} {header : Engine7732HeaderRecord} {envelope : Engine7732EnvelopeRecord}

def respond (s : NodeState Db) (x : EngineEnv × Registration) : Except Panic (Json × NodeState Db) :=
  match x.2 with
  | .header req => registerPayloadHeaderResponse x.1 s req
  | .envelope req => .ok (registerPayloadEnvelopeResponse x.1 s req)

def step (s : NodeState Db) (x : EngineEnv × Registration) : Option (NodeState Db) :=
  (respond s x).toOption.map Prod.snd

def HasStatus (answer : Json) (status : String) : Prop := answer.get "status" = some (.string status)

def HasReplayStatus (answer : Json) (status : String) : Prop := answer.get "replayStatus" = some (.string status)

def SameRegistry (s s' : NodeState Db) : Prop :=
  s'.engine7732HeadersBySlot = s.engine7732HeadersBySlot ∧
    s'.engine7732HeadersByRoot = s.engine7732HeadersByRoot ∧
    s'.engine7732EnvelopesByRoot = s.engine7732EnvelopesByRoot

theorem SameRegistry.refl (s : NodeState Db) : SameRegistry s s := ⟨rfl, rfl, rfl⟩

theorem not_accepted_of_invalid {answer : Json} (h : HasStatus answer "INVALID") : ¬ HasStatus answer "ACCEPTED" := by
  intro h'
  have := h.symm.trans h'
  simp at this

theorem hasStatus_invalid (err : String) (fields : List (String × Json)) : HasStatus (invalid err fields) "INVALID" := by
  simp [HasStatus, invalid, Json.get, Json.asObject]

/-! ### What a registration does -/

/-- A header is refused, known already, or filed. -/
theorem registerHeader_cases (s : NodeState Db) (header : Engine7732HeaderRecord) :
    (∃ existing, s.engine7732HeadersByRoot.lookup header.payloadHeaderRoot = some existing ∧
      headerConflicts existing header = true ∧ HasStatus (registerHeader s header).1 "INVALID" ∧
      (registerHeader s header).2 = s) ∨
    (∃ existing, s.engine7732HeadersByRoot.lookup header.payloadHeaderRoot = some existing ∧
      headerConflicts existing header = false ∧ HasStatus (registerHeader s header).1 "ACCEPTED" ∧
      HasReplayStatus (registerHeader s header).1 "DUPLICATE" ∧
      (registerHeader s header).2 =
        { s with engine7732HeadersBySlot :=
            pushRoot s.engine7732HeadersBySlot existing.slot header.payloadHeaderRoot }) ∨
    (s.engine7732HeadersByRoot.lookup header.payloadHeaderRoot = none ∧
      HasStatus (registerHeader s header).1 "ACCEPTED" ∧
      (registerHeader s header).2 =
        { s with
          engine7732HeadersByRoot := AList.insert header.payloadHeaderRoot header s.engine7732HeadersByRoot
          engine7732HeadersBySlot := pushRoot s.engine7732HeadersBySlot header.slot header.payloadHeaderRoot }) := by
  unfold registerHeader
  dsimp only
  split
  · rename_i existing hlookup
    split_ifs with hconflict
    · exact .inl ⟨existing, hlookup, hconflict, hasStatus_invalid _ _, rfl⟩
    · refine .inr (.inl ⟨existing, hlookup, by simpa using hconflict, ?_, ?_, rfl⟩)
      · simp [HasStatus, Json.get, Json.asObject]
      · simp [HasReplayStatus, Json.get, Json.asObject, List.lookup_cons]
  · rename_i hlookup
    exact .inr (.inr ⟨hlookup, by simp [HasStatus, Json.get, Json.asObject], rfl⟩)

/-- The header filed under the envelope's root has another slot. -/
def SlotMismatch (s : NodeState Db) (envelope : Engine7732EnvelopeRecord) : Prop :=
  ∃ header, s.engine7732HeadersByRoot.lookup envelope.payloadHeaderRoot = some header ∧ header.slot ≠ envelope.slot

/-- An envelope filed under the same root says something else. -/
def EnvelopeConflict (s : NodeState Db) (envelope : Engine7732EnvelopeRecord) : Prop :=
  ∃ existing, s.engine7732EnvelopesByRoot.lookup envelope.payloadHeaderRoot = some existing ∧
    envelopeConflicts existing envelope = true

theorem registerEnvelope_cases (s : NodeState Db) (envelope : Engine7732EnvelopeRecord) :
    ((SlotMismatch s envelope ∨ EnvelopeConflict s envelope) ∧ HasStatus (registerEnvelope s envelope).1 "INVALID" ∧
      (registerEnvelope s envelope).2 = s) ∨
    (¬ SlotMismatch s envelope ∧ ¬ EnvelopeConflict s envelope ∧
      HasStatus (registerEnvelope s envelope).1 "ACCEPTED" ∧
      (registerEnvelope s envelope).2 =
        if envelope.payloadHeaderRoot ∈ s.engine7732EnvelopesByRoot then s
        else { s with engine7732EnvelopesByRoot :=
          AList.insert envelope.payloadHeaderRoot envelope s.engine7732EnvelopesByRoot }) := by
  unfold registerEnvelope
  dsimp only
  split
  · rename_i header hfilter
    obtain ⟨hlookup, hslot⟩ := Option.filter_eq_some_iff.mp hfilter
    exact .inl ⟨.inl ⟨header, hlookup, by simpa using hslot⟩, hasStatus_invalid _ _, rfl⟩
  · rename_i hfilter
    have hslot : ¬ SlotMismatch s envelope := by
      rintro ⟨header, hlookup, hne⟩
      rw [hlookup] at hfilter
      simp [Option.filter, hne] at hfilter
    split
    · rename_i existing hlookup
      by_cases hconflict : envelopeConflicts existing envelope = true
      · rw [if_pos hconflict]
        exact .inl ⟨.inr ⟨existing, hlookup, hconflict⟩, hasStatus_invalid _ _, rfl⟩
      · rw [if_neg hconflict]
        have hno : ¬ EnvelopeConflict s envelope := by
          rintro ⟨existing', hlookup', hconflict'⟩
          cases hlookup.symm.trans hlookup'
          exact hconflict hconflict'
        have hmem : envelope.payloadHeaderRoot ∈ s.engine7732EnvelopesByRoot :=
          mem_iff_exists_lookup.mpr ⟨_, hlookup⟩
        exact .inr ⟨hslot, hno, by simp [HasStatus, Json.get, Json.asObject], (if_pos hmem).symm⟩
    · rename_i hlookup
      have hno : ¬ EnvelopeConflict s envelope := by
        rintro ⟨existing', hlookup', -⟩
        cases hlookup.symm.trans hlookup'
      exact .inr ⟨hslot, hno, by simp [HasStatus, Json.get, Json.asObject],
        (if_neg (AList.lookup_eq_none.mp hlookup)).symm⟩

/-! ### The index by slot -/

theorem pushRoot_of_mem {roots : HashMap UInt64 (List String)} {slot : UInt64} {root : String}
    (h : root ∈ (roots.lookup slot).getD []) : pushRoot roots slot root = roots := if_pos h

theorem count_pushRoot (roots : HashMap UInt64 (List String)) (slot slot' : UInt64) (root r : String) :
    (((pushRoot roots slot root).lookup slot').getD []).count r =
      if r = root ∧ slot' = slot ∧ root ∉ (roots.lookup slot).getD [] then
        ((roots.lookup slot').getD []).count r + 1
      else ((roots.lookup slot').getD []).count r := by
  unfold pushRoot
  dsimp only
  split_ifs with hmem hnew hnew
  · exact absurd hmem hnew.2.2
  · rfl
  · obtain ⟨rfl, rfl, -⟩ := hnew
    simp [AList.lookup_insert]
  · by_cases hslot : slot' = slot
    · subst hslot
      have hr : r ≠ root := fun h => hnew ⟨h, rfl, hmem⟩
      simp [AList.lookup_insert, Ne.symm hr]
    · rw [AList.lookup_insert_ne hslot]

/-- Headers are filed by slot exactly as they are by root, and envelopes under their own root. -/
structure RegistryInv (s : NodeState Db) : Prop where
  filed : ∀ r header, s.engine7732HeadersByRoot.lookup r = some header →
    ((s.engine7732HeadersBySlot.lookup header.slot).getD []).count r = 1
  absent : ∀ r slot, (∀ header, s.engine7732HeadersByRoot.lookup r = some header → header.slot ≠ slot) →
    ((s.engine7732HeadersBySlot.lookup slot).getD []).count r = 0
  envelopes : ∀ r envelope, s.engine7732EnvelopesByRoot.lookup r = some envelope → envelope.payloadHeaderRoot = r

theorem RegistryInv.mem_roots (hs : RegistryInv s) {r : String}
    (h : s.engine7732HeadersByRoot.lookup r = some header) :
    r ∈ (s.engine7732HeadersBySlot.lookup header.slot).getD [] :=
  List.count_pos_iff.mp (by rw [hs.filed r header h]; exact Nat.one_pos)

theorem RegistryInv.congr (hs : RegistryInv s) (h : SameRegistry s s') : RegistryInv s' := by
  obtain ⟨h1, h2, h3⟩ := h
  exact ⟨by rw [h1, h2]; exact hs.filed, by rw [h1, h2]; exact hs.absent, by rw [h3]; exact hs.envelopes⟩

theorem RegistryInv.registerHeader (hs : RegistryInv s) (header : Engine7732HeaderRecord) :
    RegistryInv (registerHeader s header).2 := by
  rcases registerHeader_cases s header with
    ⟨existing, -, -, -, heq⟩ | ⟨existing, hlookup, -, -, -, heq⟩ | ⟨hlookup, -, heq⟩
  · rwa [heq]
  · rw [heq, pushRoot_of_mem (hs.mem_roots hlookup)]
    exact hs
  · have hnone : ∀ slot, ((s.engine7732HeadersBySlot.lookup slot).getD []).count header.payloadHeaderRoot = 0 := by
      intro slot
      refine hs.absent _ slot fun existing h => ?_
      cases hlookup.symm.trans h
    have hfresh : header.payloadHeaderRoot ∉ (s.engine7732HeadersBySlot.lookup header.slot).getD [] :=
      List.count_eq_zero.mp (hnone header.slot)
    rw [heq]
    refine ⟨fun r existing h => ?_, fun r slot h => ?_, hs.envelopes⟩
    · rw [count_pushRoot]
      by_cases hr : r = header.payloadHeaderRoot
      · subst hr
        simp only [AList.lookup_insert, Option.some_inj] at h
        subst h
        rw [if_pos ⟨rfl, rfl, hfresh⟩, hnone]
      · simp only [AList.lookup_insert_ne hr] at h
        rw [if_neg fun h' => hr h'.1, hs.filed r existing h]
    · rw [count_pushRoot]
      by_cases hr : r = header.payloadHeaderRoot
      · subst hr
        have hslot : slot ≠ header.slot := (h header (AList.lookup_insert ..)).symm
        rw [if_neg fun h' => hslot h'.2.1, hnone]
      · rw [if_neg fun h' => hr h'.1]
        refine hs.absent r slot fun existing h' => h existing ?_
        rwa [AList.lookup_insert_ne hr]

theorem RegistryInv.registerEnvelope (hs : RegistryInv s) (envelope : Engine7732EnvelopeRecord) :
    RegistryInv (registerEnvelope s envelope).2 := by
  rcases registerEnvelope_cases s envelope with ⟨-, -, heq⟩ | ⟨-, -, -, heq⟩
  · rwa [heq]
  · rw [heq]
    split_ifs with hmem
    · exact hs
    · refine ⟨hs.filed, hs.absent, fun r existing h => ?_⟩
      by_cases hr : r = envelope.payloadHeaderRoot
      · subst hr
        simp only [AList.lookup_insert, Option.some_inj] at h
        rw [h]
      · simp only [AList.lookup_insert_ne hr] at h
        exact hs.envelopes r existing h

/-! ### Requests -/

variable {x : EngineEnv × Registration} {answer : Json}

/-- A request registers the record it is read as, or is invalid. -/
theorem respond_cases (h : respond s x = .ok (answer, s')) :
    (∃ req header, x.2 = .header req ∧ parseHeaderRecord x.1 req (fallbackSlot s) = .ok (.ok header) ∧
      registerHeader s header = (answer, s')) ∨
    (∃ req envelope, x.2 = .envelope req ∧ parseEnvelopeRecord x.1 req (fallbackSlot s) = .ok envelope ∧
      registerEnvelope s envelope = (answer, s')) ∨
    HasStatus answer "INVALID" ∧ s' = s := by
  obtain ⟨env, registration⟩ := x
  cases registration with
  | header req =>
    simp only [respond, registerPayloadHeaderResponse, bind, Except.bind, pure, Except.pure] at h
    split at h
    · cases h
    · rename_i parsed hparse
      split at h
      · rename_i header
        exact .inl ⟨req, header, rfl, hparse, Except.ok.inj h⟩
      · cases h
        exact .inr (.inr ⟨hasStatus_invalid _ _, rfl⟩)
  | envelope req =>
    simp only [respond, registerPayloadEnvelopeResponse, Except.ok.injEq] at h
    split at h
    · rename_i envelope hparse
      exact .inr (.inl ⟨req, envelope, rfl, hparse, h⟩)
    · cases h
      exact .inr (.inr ⟨hasStatus_invalid _ _, rfl⟩)

/-- What a request changes: nothing, the index by slot, or one header or envelope that is new. -/
theorem respond_effect (h : respond s x = .ok (answer, s')) :
    s' = s ∨
    (HasStatus answer "ACCEPTED" ∧ ∃ slot root,
      s' = { s with engine7732HeadersBySlot := pushRoot s.engine7732HeadersBySlot slot root }) ∨
    (HasStatus answer "ACCEPTED" ∧ ∃ header, s.engine7732HeadersByRoot.lookup header.payloadHeaderRoot = none ∧
      s' = { s with
        engine7732HeadersByRoot := AList.insert header.payloadHeaderRoot header s.engine7732HeadersByRoot
        engine7732HeadersBySlot :=
          pushRoot s.engine7732HeadersBySlot header.slot header.payloadHeaderRoot }) ∨
    (HasStatus answer "ACCEPTED" ∧ ∃ req envelope, x.2 = .envelope req ∧
      parseEnvelopeRecord x.1 req (fallbackSlot s) = .ok envelope ∧
      envelope.payloadHeaderRoot ∉ s.engine7732EnvelopesByRoot ∧
      s' = { s with engine7732EnvelopesByRoot :=
        AList.insert envelope.payloadHeaderRoot envelope s.engine7732EnvelopesByRoot }) := by
  rcases respond_cases h with ⟨-, header, -, -, heq⟩ | ⟨req, envelope, hreq, hparse, heq⟩ | ⟨-, rfl⟩
  · have hcases := registerHeader_cases s header
    rw [heq] at hcases
    rcases hcases with ⟨-, -, -, -, rfl⟩ | ⟨existing, -, -, hacc, -, rfl⟩ | ⟨hnone, hacc, rfl⟩
    · exact .inl rfl
    · exact .inr (.inl ⟨hacc, _, _, rfl⟩)
    · exact .inr (.inr (.inl ⟨hacc, header, hnone, rfl⟩))
  · have hcases := registerEnvelope_cases s envelope
    rw [heq] at hcases
    rcases hcases with ⟨-, -, rfl⟩ | ⟨-, -, hacc, hs'⟩
    · exact .inl rfl
    · dsimp only at hs'
      split_ifs at hs' with hmem
      · exact .inl hs'
      · exact .inr (.inr (.inr ⟨hacc, req, envelope, hreq, hparse, hmem, hs'⟩))
  · exact .inl rfl

theorem step_eq_some : step s x = some s' ↔ ∃ answer, respond s x = .ok (answer, s') := toOption_map_snd

theorem registryInv_step (hs : RegistryInv s) (h : step s x = some s') : RegistryInv s' := by
  obtain ⟨answer, h⟩ := step_eq_some.mp h
  rcases respond_cases h with ⟨-, header, -, -, heq⟩ | ⟨-, envelope, -, -, heq⟩ | ⟨-, rfl⟩
  · have := hs.registerHeader header
    rwa [heq] at this
  · have := hs.registerEnvelope envelope
    rwa [heq] at this
  · exact hs

theorem sameRegistry_of_invalid (h : respond s x = .ok (answer, s')) (hinvalid : HasStatus answer "INVALID") :
    SameRegistry s s' := by
  have hrefused := not_accepted_of_invalid hinvalid
  rcases respond_effect h with rfl | ⟨hacc, -⟩ | ⟨hacc, -⟩ | ⟨hacc, -⟩
  · exact .refl s'
  · exact absurd hacc hrefused
  · exact absurd hacc hrefused
  · exact absurd hacc hrefused

/-! ### What is filed stays filed -/

/-- Neither a header nor an envelope is ever overwritten. -/
theorem lookup_step (h : step s x = some s') :
    (∀ r header, s.engine7732HeadersByRoot.lookup r = some header →
      s'.engine7732HeadersByRoot.lookup r = some header) ∧
    ∀ r envelope, s.engine7732EnvelopesByRoot.lookup r = some envelope →
      s'.engine7732EnvelopesByRoot.lookup r = some envelope := by
  obtain ⟨answer, h⟩ := step_eq_some.mp h
  rcases respond_effect h with rfl | ⟨-, slot, root, rfl⟩ | ⟨-, header, hnone, rfl⟩ | ⟨-, -, envelope, -, -, hmem, rfl⟩
  · exact ⟨fun _ _ h => h, fun _ _ h => h⟩
  · exact ⟨fun _ _ h => h, fun _ _ h => h⟩
  · refine ⟨fun r existing hr => ?_, fun _ _ h => h⟩
    have hne : r ≠ header.payloadHeaderRoot := by
      rintro rfl
      cases hnone.symm.trans hr
    rwa [AList.lookup_insert_ne hne]
  · refine ⟨fun _ _ h => h, fun r existing hr => ?_⟩
    have hne : r ≠ envelope.payloadHeaderRoot := by
      rintro rfl
      exact hmem (mem_iff_exists_lookup.mpr ⟨_, hr⟩)
    rwa [AList.lookup_insert_ne hne]

/-! ### Sending again -/

/-- A header of the run was accepted. -/
def AcceptedHeader (s₀ : NodeState Db) (run : List (EngineEnv × Registration)) (header : Engine7732HeaderRecord) : Prop :=
  ∃ pre env req post m answer m', run = pre ++ (env, .header req) :: post ∧ Run.exec step s₀ pre = some m ∧
    parseHeaderRecord env req (fallbackSlot m) = .ok (.ok header) ∧
    respond m (env, .header req) = .ok (answer, m') ∧ HasStatus answer "ACCEPTED"

/-- An envelope of the run was accepted. -/
def AcceptedEnvelope (s₀ : NodeState Db) (run : List (EngineEnv × Registration))
    (envelope : Engine7732EnvelopeRecord) : Prop :=
  ∃ pre env req post m answer m', run = pre ++ (env, .envelope req) :: post ∧ Run.exec step s₀ pre = some m ∧
    parseEnvelopeRecord env req (fallbackSlot m) = .ok envelope ∧
    respond m (env, .envelope req) = .ok (answer, m') ∧ HasStatus answer "ACCEPTED"

theorem respond_header {env : EngineEnv} {req : Json}
    (h : parseHeaderRecord env req (fallbackSlot s) = .ok (.ok header)) :
    respond s (env, .header req) = .ok (registerHeader s header) := by
  simp [respond, registerPayloadHeaderResponse, h, bind, Except.bind, pure, Except.pure]

theorem respond_envelope {env : EngineEnv} {req : Json}
    (h : parseEnvelopeRecord env req (fallbackSlot s) = .ok envelope) :
    respond s (env, .envelope req) = .ok (registerEnvelope s envelope) := by
  simp [respond, registerPayloadEnvelopeResponse, h]

theorem headerConflicts_self (header : Engine7732HeaderRecord) : headerConflicts header header = false := by
  simp [headerConflicts]

theorem envelopeConflicts_self (envelope : Engine7732EnvelopeRecord) : envelopeConflicts envelope envelope = false := by
  simp [envelopeConflicts]

/-- What a request of the run has filed is on file at its end. -/
theorem lookup_of_respond {s₀ m m' : NodeState Db} {pre post : List (EngineEnv × Registration)}
    (hs : Run.exec step s₀ (pre ++ x :: post) = some s) (hm : Run.exec step s₀ pre = some m)
    (h : respond m x = .ok (answer, m')) :
    (∀ r header, m'.engine7732HeadersByRoot.lookup r = some header →
      s.engine7732HeadersByRoot.lookup r = some header) ∧
    ∀ r envelope, m'.engine7732EnvelopesByRoot.lookup r = some envelope →
      s.engine7732EnvelopesByRoot.lookup r = some envelope := by
  obtain ⟨m'', hstep, hpost⟩ := Run.exec_split hs hm
  obtain rfl : m'' = m' := by
    obtain ⟨answer', h'⟩ := step_eq_some.mp hstep
    cases h.symm.trans h'
    rfl
  refine Run.invariant (I := fun t => (∀ r header, m''.engine7732HeadersByRoot.lookup r = some header →
      t.engine7732HeadersByRoot.lookup r = some header) ∧ ∀ r envelope,
      m''.engine7732EnvelopesByRoot.lookup r = some envelope → t.engine7732EnvelopesByRoot.lookup r = some envelope)
    ⟨fun _ _ h => h, fun _ _ h => h⟩ (fun t l t' hI hl => ?_) hpost
  obtain ⟨hheaders, henvelopes⟩ := lookup_step hl
  exact ⟨fun r header hr => hheaders r header (hI.1 r header hr),
    fun r envelope hr => henvelopes r envelope (hI.2 r envelope hr)⟩

/-- An accepted header is on file from then on, up to the time it was received. -/
theorem AcceptedHeader.exists_filed {s₀ : NodeState Db} {run : List (EngineEnv × Registration)}
    (h : AcceptedHeader s₀ run header) (hs : Run.exec step s₀ run = some s) :
    ∃ existing, s.engine7732HeadersByRoot.lookup header.payloadHeaderRoot = some existing ∧
      headerConflicts existing header = false := by
  obtain ⟨pre, env, req, post, m, answer, m', rfl, hm, hparse, hrespond, hacc⟩ := h
  obtain ⟨hfiled, -⟩ := lookup_of_respond hs hm hrespond
  rw [respond_header hparse] at hrespond
  have hcases := registerHeader_cases m header
  rw [Except.ok.inj hrespond] at hcases
  rcases hcases with ⟨-, -, -, hinvalid, -⟩ | ⟨existing, hlookup, hno, -, -, rfl⟩ | ⟨-, -, rfl⟩
  · exact absurd hacc (not_accepted_of_invalid hinvalid)
  · exact ⟨existing, hfiled _ _ hlookup, hno⟩
  · exact ⟨header, hfiled _ _ (AList.lookup_insert ..), headerConflicts_self header⟩

theorem AcceptedEnvelope.exists_filed {s₀ : NodeState Db} {run : List (EngineEnv × Registration)}
    (h : AcceptedEnvelope s₀ run envelope) (hs : Run.exec step s₀ run = some s) :
    ∃ existing, s.engine7732EnvelopesByRoot.lookup envelope.payloadHeaderRoot = some existing ∧
      envelopeConflicts existing envelope = false := by
  obtain ⟨pre, env, req, post, m, answer, m', rfl, hm, hparse, hrespond, hacc⟩ := h
  obtain ⟨-, hfiled⟩ := lookup_of_respond hs hm hrespond
  rw [respond_envelope hparse] at hrespond
  have hcases := registerEnvelope_cases m envelope
  rw [Except.ok.inj hrespond] at hcases
  rcases hcases with ⟨-, hinvalid, -⟩ | ⟨-, hno, -, hm'⟩
  · exact absurd hacc (not_accepted_of_invalid hinvalid)
  · dsimp only at hm'
    split_ifs at hm' with hmem
    · subst hm'
      obtain ⟨existing, hlookup⟩ := mem_iff_exists_lookup.mp hmem
      refine ⟨existing, hfiled _ _ hlookup, ?_⟩
      by_contra hconflict
      exact hno ⟨existing, hlookup, by simpa using hconflict⟩
    · subst hm'
      exact ⟨envelope, hfiled _ _ (AList.lookup_insert ..), envelopeConflicts_self envelope⟩

/-! ### The status of a slot -/

/-- Exactly one of three tests holds of every element. -/
def ExactlyOne {α : Type} (p q r : α → Bool) : Prop :=
  ∀ a, (p a = true ∧ q a = false ∧ r a = false) ∨ (p a = false ∧ q a = true ∧ r a = false) ∨
    (p a = false ∧ q a = false ∧ r a = true)

theorem ExactlyOne.perm {α : Type} [DecidableEq α] {p q r : α → Bool} (h : ExactlyOne p q r) (l : List α) :
    (l.filter p ++ l.filter q ++ l.filter r).Perm l := by
  rw [List.perm_iff_count]
  intro a
  have hcount : ∀ f : α → Bool, (l.filter f).count a = if f a then l.count a else 0 := by
    intro f
    split_ifs with hf
    · exact List.count_filter hf
    · exact List.count_eq_zero.mpr fun hmem => hf (List.mem_filter.mp hmem).2
  rw [List.count_append, List.count_append, hcount, hcount, hcount]
  rcases h a with ⟨hp, hq, hr⟩ | ⟨hp, hq, hr⟩ | ⟨hp, hq, hr⟩ <;> simp [hp, hq, hr]

theorem ExactlyOne.disjoint {α : Type} {p q r : α → Bool} (h : ExactlyOne p q r) (l : List α) :
    [l.filter p, l.filter q, l.filter r].Pairwise List.Disjoint := by
  have hdisjoint : ∀ {f g : α → Bool}, (∀ a, f a = true → g a = false) → (l.filter f).Disjoint (l.filter g) := by
    intro f g hfg a hf hg
    have := hfg a (List.mem_filter.mp hf).2
    rw [(List.mem_filter.mp hg).2] at this
    cases this
  simp only [List.pairwise_cons, List.mem_cons, List.not_mem_nil, or_false]
  refine ⟨?_, ?_, ?_⟩
  · rintro _ (rfl | rfl)
    · exact hdisjoint fun a ha => by rcases h a with h | h | h <;> simp_all
    · exact hdisjoint fun a ha => by rcases h a with h | h | h <;> simp_all
  · rintro _ rfl
    exact hdisjoint fun a ha => by rcases h a with h | h | h <;> simp_all
  · simp

/-- The headers of a slot are on time, late or pending, each in the order of the list. -/
def SlotStatus.Partitioned (status : SlotStatus) : Prop :=
  (status.revealedOnTime ++ status.lateReveals ++ status.pendingReveals).Perm status.headerRoots ∧
    status.revealedOnTime.Sublist status.headerRoots ∧ status.lateReveals.Sublist status.headerRoots ∧
    status.pendingReveals.Sublist status.headerRoots ∧
    [status.revealedOnTime, status.lateReveals, status.pendingReveals].Pairwise List.Disjoint

theorem slotStatus_partitioned (env : EngineEnv) (s : NodeState Db) (slot currentUnixS : UInt64) :
    (slotStatus env s slot currentUnixS).Partitioned := by
  have hone : ExactlyOne
      (fun root => (s.engine7732EnvelopesByRoot.lookup root).any fun env =>
        env.revealedAtUnixS ≤ slotDeadlineUnixS s slot)
      (fun root => (s.engine7732EnvelopesByRoot.lookup root).any fun env =>
        slotDeadlineUnixS s slot < env.revealedAtUnixS)
      (fun root => (s.engine7732EnvelopesByRoot.lookup root).isNone) := by
    intro root
    cases hlookup : s.engine7732EnvelopesByRoot.lookup root with
    | none => exact .inr (.inr (by simp [hlookup]))
    | some envelope =>
      by_cases hle : envelope.revealedAtUnixS ≤ slotDeadlineUnixS s slot
      · exact .inl (by simp [hlookup, hle])
      · exact .inr (.inl (by simp [hlookup, UInt64.not_le.mp hle]))
  exact ⟨hone.perm _, List.filter_sublist, List.filter_sublist, List.filter_sublist, hone.disjoint _⟩

def EmptyRegistry (s : NodeState Db) : Prop :=
  s.engine7732HeadersBySlot = ∅ ∧ s.engine7732HeadersByRoot = ∅ ∧ s.engine7732EnvelopesByRoot = ∅

theorem EmptyRegistry.registryInv (h : EmptyRegistry s) : RegistryInv s := by
  obtain ⟨h1, h2, h3⟩ := h
  refine ⟨fun r header h => ?_, fun r slot _ => ?_, fun r envelope h => ?_⟩
  · rw [h2] at h
    cases h
  · rw [h1]
    rfl
  · rw [h3] at h
    cases h

/-- The registry after any sequence of registrations. -/
theorem registry_invariant {Db : Type} (s₀ : NodeState Db) (h₀ : EmptyRegistry s₀)
    (run : List (EngineEnv × Registration)) (s : NodeState Db) (h : Run.exec step s₀ run = some s) :
    RegistryInv s ∧
    (∀ x answer s', respond s x = .ok (answer, s') → HasStatus answer "INVALID" → SameRegistry s s') ∧
    (∀ env req header header', AcceptedHeader s₀ run header →
      parseHeaderRecord env req (fallbackSlot s) = .ok (.ok header') →
      { header' with receivedAtUnixS := header.receivedAtUnixS } = header →
      ∃ answer s', respond s (env, .header req) = .ok (answer, s') ∧ HasStatus answer "ACCEPTED" ∧
        HasReplayStatus answer "DUPLICATE" ∧ SameRegistry s s') ∧
    (∀ env req envelope envelope', AcceptedEnvelope s₀ run envelope →
      parseEnvelopeRecord env req (fallbackSlot s) = .ok envelope' →
      { envelope' with revealedAtUnixS := envelope.revealedAtUnixS } = envelope →
      ∃ answer s', respond s (env, .envelope req) = .ok (answer, s') ∧ SameRegistry s s') ∧
    ∀ env slot currentUnixS, (slotStatus env s slot currentUnixS).Partitioned := by
  have hinv : RegistryInv s := Run.invariant h₀.registryInv (fun _ _ _ hI hl => registryInv_step hI hl) h
  refine ⟨hinv, fun x answer s' hx hinvalid => sameRegistry_of_invalid hx hinvalid, ?_, ?_,
    fun env slot now => slotStatus_partitioned env s slot now⟩
  · intro env req header header' hacc hparse hsame
    obtain ⟨existing, hlookup, hno⟩ := hacc.exists_filed h
    rw [← hsame] at hlookup hno
    dsimp only at hlookup
    refine ⟨(registerHeader s header').1, (registerHeader s header').2, respond_header hparse, ?_⟩
    rcases registerHeader_cases s header' with
      ⟨existing', hlookup', hconflict, -⟩ | ⟨existing', hlookup', -, hstatus, hreplay, heq⟩ | ⟨hnone, -⟩
    · cases hlookup.symm.trans hlookup'
      cases hconflict.symm.trans hno
    · refine ⟨hstatus, hreplay, ?_⟩
      rw [heq, pushRoot_of_mem (hinv.mem_roots hlookup')]
      exact .refl s
    · cases hlookup.symm.trans hnone
  · intro env req envelope envelope' hacc hparse hsame
    obtain ⟨existing, hlookup, -⟩ := hacc.exists_filed h
    rw [← hsame] at hlookup
    dsimp only at hlookup
    refine ⟨(registerEnvelope s envelope').1, (registerEnvelope s envelope').2, respond_envelope hparse, ?_⟩
    rcases registerEnvelope_cases s envelope' with ⟨-, -, heq⟩ | ⟨-, -, -, heq⟩
    · rw [heq]
      exact .refl s
    · rw [heq, if_pos (mem_iff_exists_lookup.mpr ⟨_, hlookup⟩)]
      exact .refl s

/-- A request about one root, with the keys a builder uses. -/
def rootRequest (key root : String) (slot : Int) : Json :=
  .object [(key, .object [("slot", .number slot), ("payloadHeaderRoot", .string root)])]

def someRoot : String := "0xabababababababababababababababababababababababababababababababab"

/-- Nothing is hashed for a request that names its root. -/
def namedRootEnv : EngineEnv := ⟨fun _ => FixedBytes.zero, fun _ => none, 1772409700, .stored⟩

def headerOfSlot (slot : Int) : EngineEnv × Registration := (namedRootEnv, .header (rootRequest "payloadHeader" someRoot slot))

def envelopeOfSlot (slot : Int) : EngineEnv × Registration :=
  (namedRootEnv, .envelope (rootRequest "payloadEnvelope" someRoot slot))

def emptyNode : NodeState Unit where
  chainId := 2077001
  startedAtUnixS := 1772409600
  currentHeight := 0
  finalizedHeight := 0
  pendingTxs := []
  txs := ∅
  nonceByAddress := ∅
  pendingNonceAddressHint := none
  txCounter := 0
  evmDb := ()
  txReceipts := ∅

def otherRoot : String := "0xcdcdcdcdcdcdcdcdcdcdcdcdcdcdcdcdcdcdcdcdcdcdcdcdcdcdcdcdcdcdcdcd"

/-- A header and its envelope, a second header of the slot, and the first one again for another slot. -/
def registryRun : List (EngineEnv × Registration) :=
  [headerOfSlot 5, envelopeOfSlot 5, (namedRootEnv, .header (rootRequest "payloadHeader" otherRoot 5)), headerOfSlot 6]

/-- A minute later. -/
def laterEnv : EngineEnv := { namedRootEnv with now := 1772409760 }

theorem registry_invariant_header_and_envelope :
    ∃ s, Run.exec step emptyNode registryRun = some s ∧
      (s.engine7732HeadersBySlot.lookup 5).getD [] = [someRoot, otherRoot] ∧ RegistryInv s ∧
      (∃ answer s', respond s (headerOfSlot 6) = .ok (answer, s') ∧ HasStatus answer "INVALID" ∧ SameRegistry s s') ∧
      (∃ answer s', respond s (laterEnv, (headerOfSlot 5).2) = .ok (answer, s') ∧
        HasReplayStatus answer "DUPLICATE" ∧ SameRegistry s s') ∧
      (∃ answer s', respond s (laterEnv, (envelopeOfSlot 5).2) = .ok (answer, s') ∧ SameRegistry s s') ∧
      (slotStatus laterEnv s 5 laterEnv.now).lateReveals = [someRoot] ∧
      (slotStatus laterEnv s 5 laterEnv.now).pendingReveals = [otherRoot] ∧
      (slotStatus laterEnv s 5 laterEnv.now).Partitioned := by
  obtain ⟨s, hs⟩ : ∃ s, Run.exec step emptyNode registryRun = some s := ⟨_, rfl⟩
  obtain ⟨hinv, hinvalid, hheader, henvelope, hstatus⟩ := registry_invariant emptyNode ⟨rfl, rfl, rfl⟩ registryRun s hs
  have hfirst : AcceptedHeader emptyNode registryRun ⟨5, someRoot, none, none, none, none, none, 1772409700⟩ :=
    ⟨[], namedRootEnv, rootRequest "payloadHeader" someRoot 5, _, _, _, _, rfl, rfl, rfl, rfl, rfl⟩
  have hsecond : AcceptedEnvelope emptyNode registryRun ⟨5, someRoot, none, none, none, true, 1772409700⟩ :=
    ⟨[headerOfSlot 5], namedRootEnv, rootRequest "payloadEnvelope" someRoot 5, _, _, _, _, rfl, rfl, rfl, rfl, rfl⟩
  refine ⟨s, hs, ?_, hinv, ?_, ?_, ?_, ?_, ?_, hstatus laterEnv 5 _⟩
  all_goals obtain rfl := Option.some_inj.mp hs.symm
  · decide
  · exact ⟨_, _, rfl, rfl, hinvalid (headerOfSlot 6) _ _ rfl rfl⟩
  · obtain ⟨answer, s', hrespond, -, hreplay, hsame⟩ := hheader laterEnv (rootRequest "payloadHeader" someRoot 5) _
      ⟨5, someRoot, none, none, none, none, none, 1772409760⟩ hfirst rfl rfl
    exact ⟨answer, s', hrespond, hreplay, hsame⟩
  · exact henvelope laterEnv (rootRequest "payloadEnvelope" someRoot 5) _
      ⟨5, someRoot, none, none, none, true, 1772409760⟩ hsecond rfl rfl
  · decide
  · decide

/-! ### The order of a header and its envelope -/

/-- In both orders the same requests are accepted and the same registry comes out. -/
def Commutes (s : NodeState Db) (x y : EngineEnv × Registration) : Prop :=
  ∃ a₁ s₁ b₁ t₁ b₂ s₂ a₂ t₂, respond s x = .ok (a₁, s₁) ∧ respond s₁ y = .ok (b₁, t₁) ∧
    respond s y = .ok (b₂, s₂) ∧ respond s₂ x = .ok (a₂, t₂) ∧
    (HasStatus a₁ "ACCEPTED" ↔ HasStatus a₂ "ACCEPTED") ∧ (HasStatus b₁ "ACCEPTED" ↔ HasStatus b₂ "ACCEPTED") ∧
    SameRegistry t₁ t₂

/-- A header takes no notice of the envelopes. -/
theorem registerHeader_envelopes (s : NodeState Db) (header : Engine7732HeaderRecord)
    (envelopes : HashMap String Engine7732EnvelopeRecord) :
    registerHeader { s with engine7732EnvelopesByRoot := envelopes } header =
      ((registerHeader s header).1, { (registerHeader s header).2 with engine7732EnvelopesByRoot := envelopes }) := by
  unfold registerHeader
  dsimp only
  cases s.engine7732HeadersByRoot.lookup header.payloadHeaderRoot with
  | none => rfl
  | some existing =>
    dsimp only
    split_ifs
    · rfl
    · rfl

theorem envelopes_registerHeader (s : NodeState Db) (header : Engine7732HeaderRecord) :
    (registerHeader s header).2.engine7732EnvelopesByRoot = s.engine7732EnvelopesByRoot := by
  rcases registerHeader_cases s header with
    ⟨_, -, -, -, heq⟩ | ⟨_, -, -, -, -, heq⟩ | ⟨-, -, heq⟩ <;> rw [heq]

theorem currentHeight_registerHeader (s : NodeState Db) (header : Engine7732HeaderRecord) :
    (registerHeader s header).2.currentHeight = s.currentHeight := by
  rcases registerHeader_cases s header with
    ⟨_, -, -, -, heq⟩ | ⟨_, -, -, -, -, heq⟩ | ⟨-, -, heq⟩ <;> rw [heq]

theorem registerEnvelope_accepted :
    HasStatus (registerEnvelope s envelope).1 "ACCEPTED" ↔
      ¬ SlotMismatch s envelope ∧ ¬ EnvelopeConflict s envelope := by
  rcases registerEnvelope_cases s envelope with ⟨hbad, hinvalid, -⟩ | ⟨hslot, hno, hacc, -⟩
  · refine iff_of_false (not_accepted_of_invalid hinvalid) ?_
    rintro ⟨hslot, hno⟩
    exact hbad.elim hslot hno
  · exact iff_of_true hacc ⟨hslot, hno⟩

/-- An envelope changes nothing but the envelopes. -/
theorem registerEnvelope_snd (s : NodeState Db) (envelope : Engine7732EnvelopeRecord) :
    (registerEnvelope s envelope).2 =
      { s with engine7732EnvelopesByRoot := (registerEnvelope s envelope).2.engine7732EnvelopesByRoot } := by
  rcases registerEnvelope_cases s envelope with ⟨-, -, heq⟩ | ⟨-, -, -, heq⟩
  · rw [heq]
  · rw [heq]
    split_ifs
    · rfl
    · rfl

/-- An envelope sees of the headers only whether one contradicts its slot. -/
theorem envelopes_registerEnvelope {t : NodeState Db}
    (henvelopes : t.engine7732EnvelopesByRoot = s.engine7732EnvelopesByRoot)
    (hslot : ¬ EnvelopeConflict s envelope → (SlotMismatch t envelope ↔ SlotMismatch s envelope)) :
    (HasStatus (registerEnvelope t envelope).1 "ACCEPTED" ↔ HasStatus (registerEnvelope s envelope).1 "ACCEPTED") ∧
      (registerEnvelope t envelope).2.engine7732EnvelopesByRoot =
        (registerEnvelope s envelope).2.engine7732EnvelopesByRoot := by
  have hconflict : EnvelopeConflict t envelope ↔ EnvelopeConflict s envelope := by
    unfold EnvelopeConflict
    rw [henvelopes]
  have hgood : ¬ SlotMismatch t envelope ∧ ¬ EnvelopeConflict t envelope ↔
      ¬ SlotMismatch s envelope ∧ ¬ EnvelopeConflict s envelope := by
    rw [hconflict]
    exact and_congr_left fun hno => not_congr (hslot hno)
  refine ⟨by rw [registerEnvelope_accepted, registerEnvelope_accepted, hgood], ?_⟩
  rcases registerEnvelope_cases t envelope with ⟨hbad, -, ht⟩ | ⟨hslot', hno', -, ht⟩
  · rcases registerEnvelope_cases s envelope with ⟨-, -, hs⟩ | ⟨hslot', hno', -⟩
    · rw [ht, hs, henvelopes]
    · obtain ⟨h1, h2⟩ := hgood.mpr ⟨hslot', hno'⟩
      exact absurd hbad (not_or.mpr ⟨h1, h2⟩)
  · rcases registerEnvelope_cases s envelope with ⟨hbad, -, -⟩ | ⟨-, -, -, hs⟩
    · obtain ⟨h1, h2⟩ := hgood.mp ⟨hslot', hno'⟩
      exact absurd hbad (not_or.mpr ⟨h1, h2⟩)
    · rw [ht, hs, henvelopes]
      split_ifs
      · exact henvelopes
      · rfl

/-- What decides whether a header and an envelope of one root can be swapped. -/
def OrderFree (s : NodeState Db) (header : Engine7732HeaderRecord) (envelope : Engine7732EnvelopeRecord) : Prop :=
  header.payloadHeaderRoot ∈ s.engine7732HeadersByRoot ∨ header.slot = envelope.slot ∨ EnvelopeConflict s envelope

theorem slotMismatch_registerHeader (hroot : header.payloadHeaderRoot = envelope.payloadHeaderRoot)
    (hfree : OrderFree s header envelope) (hno : ¬ EnvelopeConflict s envelope) :
    SlotMismatch (registerHeader s header).2 envelope ↔ SlotMismatch s envelope := by
  unfold SlotMismatch
  rcases registerHeader_cases s header with
    ⟨_, -, -, -, heq⟩ | ⟨_, -, -, -, -, heq⟩ | ⟨hnone, -, heq⟩
  · rw [heq]
  · rw [heq]
  · have hslot : header.slot = envelope.slot :=
      (hfree.resolve_left (AList.lookup_eq_none.mp hnone)).resolve_right hno
    rw [heq, ← hroot]
    simp only [AList.lookup_insert, hnone]
    simp [hslot]

theorem commutes_iff {envH envE : EngineEnv} {reqH reqE : Json}
    (hH : parseHeaderRecord envH reqH (fallbackSlot s) = .ok (.ok header))
    (hE : parseEnvelopeRecord envE reqE (fallbackSlot s) = .ok envelope)
    (hroot : header.payloadHeaderRoot = envelope.payloadHeaderRoot) :
    Commutes s (envH, .header reqH) (envE, .envelope reqE) ↔ OrderFree s header envelope := by
  have hE' : parseEnvelopeRecord envE reqE (fallbackSlot (registerHeader s header).2) = .ok envelope := by
    rwa [fallbackSlot, currentHeight_registerHeader]
  have hH' : parseHeaderRecord envH reqH (fallbackSlot (registerEnvelope s envelope).2) = .ok (.ok header) := by
    rw [registerEnvelope_snd]
    exact hH
  constructor
  · rintro ⟨a₁, s₁, b₁, t₁, b₂, s₂, a₂, t₂, h1, h2, h3, -, -, hb, -⟩
    by_contra hfree
    rw [OrderFree, not_or, not_or] at hfree
    obtain ⟨hnone, hslot, hno⟩ := hfree
    obtain ⟨-, rfl⟩ := Prod.ext_iff.mp (Except.ok.inj ((respond_header hH).symm.trans h1))
    obtain ⟨rfl, -⟩ := Prod.ext_iff.mp (Except.ok.inj ((respond_envelope hE').symm.trans h2))
    obtain ⟨rfl, -⟩ := Prod.ext_iff.mp (Except.ok.inj ((respond_envelope hE).symm.trans h3))
    have hlookup := AList.lookup_eq_none.mpr hnone
    have hfits : ¬ SlotMismatch s envelope := by
      rintro ⟨header', hlookup', -⟩
      rw [← hroot] at hlookup'
      cases hlookup.symm.trans hlookup'
    rw [registerEnvelope_accepted, registerEnvelope_accepted] at hb
    refine (hb.mpr ⟨hfits, hno⟩).1 ⟨header, ?_, hslot⟩
    rcases registerHeader_cases s header with
      ⟨_, hlookup', -⟩ | ⟨_, hlookup', -⟩ | ⟨-, -, heq⟩
    · cases hlookup.symm.trans hlookup'
    · cases hlookup.symm.trans hlookup'
    · rw [heq, ← hroot]
      exact AList.lookup_insert ..
  · intro hfree
    obtain ⟨hb, henvelopes⟩ := envelopes_registerEnvelope (envelopes_registerHeader s header)
      (slotMismatch_registerHeader hroot hfree)
    have hswap : registerHeader (registerEnvelope s envelope).2 header = ((registerHeader s header).1,
        { (registerHeader s header).2 with
          engine7732EnvelopesByRoot := (registerEnvelope s envelope).2.engine7732EnvelopesByRoot }) := by
      rw [registerEnvelope_snd s]
      exact registerHeader_envelopes s header _
    refine ⟨(registerHeader s header).1, (registerHeader s header).2,
      (registerEnvelope (registerHeader s header).2 envelope).1,
      (registerEnvelope (registerHeader s header).2 envelope).2, (registerEnvelope s envelope).1,
      (registerEnvelope s envelope).2, (registerHeader (registerEnvelope s envelope).2 header).1,
      (registerHeader (registerEnvelope s envelope).2 header).2, respond_header hH, respond_envelope hE',
      respond_envelope hE, respond_header hH', ?_, hb, ?_⟩
    · rw [hswap]
    · rw [hswap, registerEnvelope_snd (registerHeader s header).2]
      exact ⟨rfl, rfl, henvelopes.symm⟩

/-! ### Slots of headers and envelopes -/

/-- A header and an envelope of one root have one slot. -/
def SlotsAgree (s : NodeState Db) : Prop :=
  ∀ r header envelope, s.engine7732HeadersByRoot.lookup r = some header →
    s.engine7732EnvelopesByRoot.lookup r = some envelope → envelope.slot = header.slot

/-- A header that is the first of its root finds no envelope of another slot. -/
def NoLateHeader (s : NodeState Db) (x : EngineEnv × Registration) : Prop :=
  ∀ req header envelope, x.2 = .header req → parseHeaderRecord x.1 req (fallbackSlot s) = .ok (.ok header) →
    s.engine7732HeadersByRoot.lookup header.payloadHeaderRoot = none →
    s.engine7732EnvelopesByRoot.lookup header.payloadHeaderRoot = some envelope → envelope.slot = header.slot

theorem slotsAgree_step (hs : SlotsAgree s) (hx : NoLateHeader s x) (h : step s x = some s') : SlotsAgree s' := by
  obtain ⟨answer, h⟩ := step_eq_some.mp h
  rcases respond_cases h with ⟨req, header, hreq, hparse, heq⟩ | ⟨-, envelope, -, -, heq⟩ | ⟨-, rfl⟩
  · have hcases := registerHeader_cases s header
    rw [heq] at hcases
    rcases hcases with ⟨_, -, -, -, rfl⟩ | ⟨_, -, -, -, -, rfl⟩ | ⟨hnone, -, rfl⟩
    · exact hs
    · exact hs
    · intro r header' envelope hheader henvelope
      by_cases hr : r = header.payloadHeaderRoot
      · subst hr
        simp only [AList.lookup_insert, Option.some_inj] at hheader
        subst hheader
        exact hx req header envelope hreq hparse hnone henvelope
      · simp only [AList.lookup_insert_ne hr] at hheader
        exact hs r header' envelope hheader henvelope
  · have hcases := registerEnvelope_cases s envelope
    rw [heq] at hcases
    rcases hcases with ⟨-, -, rfl⟩ | ⟨hslot, -, -, hs'⟩
    · exact hs
    · dsimp only at hs'
      split_ifs at hs' with hmem
      · subst hs'
        exact hs
      · subst hs'
        intro r header' envelope' hheader henvelope
        by_cases hr : r = envelope.payloadHeaderRoot
        · subst hr
          simp only [AList.lookup_insert, Option.some_inj] at henvelope
          subst henvelope
          by_contra hne
          exact hslot ⟨header', hheader, Ne.symm hne⟩
        · simp only [AList.lookup_insert_ne hr] at henvelope
          exact hs r header' envelope' hheader henvelope
  · exact hs

theorem noLateHeader_of_slotsAgree (h : step s x = some s') (hs' : SlotsAgree s') : NoLateHeader s x := by
  obtain ⟨env, registration⟩ := x
  rintro req header envelope ⟨⟩ hparse hnone henvelope
  obtain ⟨answer, h⟩ := step_eq_some.mp h
  obtain ⟨-, rfl⟩ := Prod.ext_iff.mp (Except.ok.inj ((respond_header hparse).symm.trans h))
  rcases registerHeader_cases s header with ⟨_, hlookup, -⟩ | ⟨_, hlookup, -⟩ | ⟨-, -, heq⟩
  · cases hnone.symm.trans hlookup
  · cases hnone.symm.trans hlookup
  · rw [heq] at hs'
    exact hs' header.payloadHeaderRoot header envelope (AList.lookup_insert ..) henvelope

/-- When the order of a header and an envelope of one root does not matter, for two requests and for
whole runs. -/
theorem header_envelope_order_iff (Db : Type) :
    (∀ (s : NodeState Db) envH envE reqH reqE header envelope,
      parseHeaderRecord envH reqH (fallbackSlot s) = .ok (.ok header) →
      parseEnvelopeRecord envE reqE (fallbackSlot s) = .ok envelope →
      header.payloadHeaderRoot = envelope.payloadHeaderRoot →
      (Commutes s (envH, .header reqH) (envE, .envelope reqE) ↔ OrderFree s header envelope)) ∧
    ∀ (s₀ : NodeState Db) run, EmptyRegistry s₀ → (Run.exec step s₀ run).isSome →
      (Run.Throughout step SlotsAgree s₀ run ↔ Run.Along step NoLateHeader s₀ run) := by
  refine ⟨fun s envH envE reqH reqE header envelope hH hE hroot => commutes_iff hH hE hroot, ?_⟩
  intro s₀ run h₀ hrun
  have hempty : SlotsAgree s₀ := by
    intro r header envelope hheader
    rw [h₀.2.1] at hheader
    cases hheader
  exact Run.throughout_iff_along (A := fun _ => True) hrun hempty
    (fun _ _ _ hI hx hl => slotsAgree_step hI hx hl) (fun _ hI => hI) trivial (fun _ _ _ _ _ => trivial)
    (fun _ _ _ _ _ hl hs' => noLateHeader_of_slotsAgree hl hs')

def someHeader (slot : UInt64) : Engine7732HeaderRecord := ⟨slot, someRoot, none, none, none, none, none, 1772409700⟩

def someEnvelope (slot : UInt64) : Engine7732EnvelopeRecord := ⟨slot, someRoot, none, none, none, true, 1772409700⟩

theorem parse_headerOfSlot :
    parseHeaderRecord namedRootEnv (rootRequest "payloadHeader" someRoot 5) (fallbackSlot emptyNode) =
      .ok (.ok (someHeader 5)) := by
  rfl

theorem header_envelope_order_iff_same_slot : Commutes emptyNode (headerOfSlot 5) (envelopeOfSlot 5) :=
  ((header_envelope_order_iff Unit).1 emptyNode namedRootEnv namedRootEnv _ _ (someHeader 5) (someEnvelope 5)
    parse_headerOfSlot rfl rfl).mpr (.inr (.inl rfl))

/-- The envelope names slot 6 and the header slot 5: whichever comes first is accepted, the header also
after the envelope. -/
theorem header_after_envelope_of_other_slot :
    ¬ Commutes emptyNode (headerOfSlot 5) (envelopeOfSlot 6) ∧
      ∃ s, Run.exec step emptyNode [envelopeOfSlot 6, headerOfSlot 5] = some s ∧ ¬ SlotsAgree s := by
  constructor
  · have hparse : parseEnvelopeRecord namedRootEnv (rootRequest "payloadEnvelope" someRoot 6) (fallbackSlot emptyNode) =
        .ok (someEnvelope 6) := rfl
    refine fun h => absurd ((commutes_iff parse_headerOfSlot hparse rfl).mp h) ?_
    rintro (h | h | ⟨existing, h, -⟩)
    · exact absurd h (by decide)
    · exact absurd h (by decide)
    · cases h
  · refine ⟨_, rfl, fun h => ?_⟩
    have := h someRoot (someHeader 5) (someEnvelope 6) (by decide) (by decide)
    exact absurd this (by decide)

end Engine7732

end Eth2077
