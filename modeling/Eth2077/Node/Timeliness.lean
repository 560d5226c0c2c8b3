import Eth2077.Node.Registry7732

/-!
# Timeliness (`node/src/bin/eth2077-devnetd.rs`, `types/src/epbs.rs`)

A slot is in violation when its deadline has passed and one of its headers has not been revealed in time.
The verdict of the node is a cascade over three lists; here it is brought down to that sentence, and
compared with the verdict that `epbs::determine_timeliness` gives for one header and one envelope.
-/

namespace Eth2077

namespace Engine7732

variable {Db : Type}

section Verdict
variable (s : NodeState Db) (slot now : UInt64)

def headerRoots : List String := (s.engine7732HeadersBySlot.lookup slot).getD []

/-- The envelope of the root was revealed at or before the deadline of the slot. -/
def OnTime (root : String) : Prop :=
  ∃ envelope, s.engine7732EnvelopesByRoot.lookup root = some envelope ∧
    envelope.revealedAtUnixS ≤ slotDeadlineUnixS s slot

/-- The deadline has passed, and a header of the slot has no envelope on time. -/
def Overdue : Prop := slotDeadlineUnixS s slot < now ∧ ∃ root ∈ headerRoots s slot, ¬ OnTime s slot root

/-- The node's verdict. -/
def Violation (env : EngineEnv) : Prop := (slotStatus env s slot now).aggregateStatus.isViolation = true

/-- Nothing has been revealed that is still to come. -/
def NoFutureReveals : Prop :=
  ∀ root envelope, s.engine7732EnvelopesByRoot.lookup root = some envelope → envelope.revealedAtUnixS ≤ now

end Verdict

variable {env : EngineEnv} {s s' : NodeState Db} {slot now : UInt64} {root : String}

/-! ### The cascade -/

theorem violation_iff_lists : Violation s slot now env ↔
    ((slotStatus env s slot now).pendingReveals = [] ∧ (slotStatus env s slot now).lateReveals ≠ []) ∨
    ((slotStatus env s slot now).pendingReveals ≠ [] ∧ slotDeadlineUnixS s slot < now) := by
  have hnil : (slotStatus env s slot now).headerRoots = [] →
      (slotStatus env s slot now).pendingReveals = [] ∧ (slotStatus env s slot now).lateReveals = [] := by
    obtain ⟨-, -, hlate, hpending, -⟩ := slotStatus_partitioned env s slot now
    intro h
    rw [h] at hlate hpending
    exact ⟨List.sublist_nil.mp hpending, List.sublist_nil.mp hlate⟩
  -- the eight branches, with the lists as they are
  unfold Violation
  simp only [slotStatus, decide_eq_true_eq] at hnil ⊢
  split_ifs with h1 h2 h3 h4 h5 h6 h7
  · simp [TimelinessStatus.isViolation, hnil h1.1]
  · simp [TimelinessStatus.isViolation, hnil h2.1]
  · exact iff_of_true rfl (.inl h3)
  · have hlate := not_not.mp fun hlate => h3 ⟨h4, hlate⟩
    simp [TimelinessStatus.isViolation, h4, hlate]
  · exact iff_of_true rfl (.inr ⟨h4, h5.1⟩)
  · exact iff_of_true rfl (.inr ⟨h4, h6⟩)
  · exact iff_of_false (by simp [TimelinessStatus.isViolation]) (by simp [h4, h6])
  · exact iff_of_false (by simp [TimelinessStatus.isViolation]) (by simp [h4, h6])

theorem pendingReveals_eq_nil : (slotStatus env s slot now).pendingReveals = [] ↔
    ∀ root ∈ headerRoots s slot, (s.engine7732EnvelopesByRoot.lookup root).isSome := by
  simp [slotStatus, headerRoots, List.filter_eq_nil_iff, Option.isSome_iff_ne_none]

theorem lateReveals_ne_nil : (slotStatus env s slot now).lateReveals ≠ [] ↔
    ∃ root ∈ headerRoots s slot, ∃ envelope, s.engine7732EnvelopesByRoot.lookup root = some envelope ∧
      slotDeadlineUnixS s slot < envelope.revealedAtUnixS := by
  simp [slotStatus, headerRoots, List.filter_eq_nil_iff, Option.any_eq_true]

/-- A header that is not on time has no envelope or a late one. -/
theorem not_onTime : ¬ OnTime s slot root ↔ s.engine7732EnvelopesByRoot.lookup root = none ∨
    ∃ envelope, s.engine7732EnvelopesByRoot.lookup root = some envelope ∧
      slotDeadlineUnixS s slot < envelope.revealedAtUnixS := by
  unfold OnTime
  cases s.engine7732EnvelopesByRoot.lookup root with
  | none => simp
  | some envelope => simp

/-- What is overdue is a violation, whatever else has been revealed. -/
theorem Overdue.violation (h : Overdue s slot now) (env : EngineEnv) : Violation s slot now env := by
  obtain ⟨hdeadline, root, hroot, hlate⟩ := h
  rw [violation_iff_lists]
  by_cases hpending : (slotStatus env s slot now).pendingReveals = []
  · refine .inl ⟨hpending, lateReveals_ne_nil.mpr ⟨root, hroot, ?_⟩⟩
    rcases not_onTime.mp hlate with hnone | hlate
    · have hsome := pendingReveals_eq_nil.mp hpending root hroot
      rw [hnone] at hsome
      cases hsome
    · exact hlate
  · exact .inr ⟨hpending, hdeadline⟩

theorem violation_iff_overdue (hreveals : NoFutureReveals s now) : Violation s slot now env ↔ Overdue s slot now := by
  refine ⟨fun h => ?_, fun h => h.violation env⟩
  rcases violation_iff_lists.mp h with ⟨-, hlate⟩ | ⟨hpending, hdeadline⟩
  · obtain ⟨root, hroot, envelope, hlookup, hlate⟩ := lateReveals_ne_nil.mp hlate
    exact ⟨UInt64.lt_of_lt_of_le hlate (hreveals root envelope hlookup), root, hroot,
      not_onTime.mpr (.inr ⟨envelope, hlookup, hlate⟩)⟩
  · rw [ne_eq, pendingReveals_eq_nil] at hpending
    push Not at hpending
    obtain ⟨root, hroot, hnone⟩ := hpending
    exact ⟨hdeadline, root, hroot, not_onTime.mpr (.inl (by simpa using hnone))⟩

/-! ### What later registrations leave -/

theorem mem_pushRoot {roots : HashMap UInt64 (List String)} {slot' : UInt64} {root' : String}
    (h : root ∈ (roots.lookup slot).getD []) : root ∈ ((pushRoot roots slot' root').lookup slot).getD [] := by
  rw [← List.count_pos_iff] at h ⊢
  rw [count_pushRoot]
  split_ifs
  · exact Nat.succ_pos _
  · exact h

/-- A registration keeps the headers of every slot and the deadlines, and any new envelope is the one it
brings. -/
theorem step_keeps {x : EngineEnv × Registration} (h : step s x = some s') :
    s'.startedAtUnixS = s.startedAtUnixS ∧ (∀ slot, headerRoots s slot ⊆ headerRoots s' slot) ∧
      ∀ root envelope, s'.engine7732EnvelopesByRoot.lookup root = some envelope →
        s.engine7732EnvelopesByRoot.lookup root = some envelope ∨
        ∃ req, x.2 = .envelope req ∧ parseEnvelopeRecord x.1 req (fallbackSlot s) = .ok envelope := by
  obtain ⟨answer, h⟩ := step_eq_some.mp h
  rcases respond_effect h with
    rfl | ⟨-, slot, root, rfl⟩ | ⟨-, header, -, rfl⟩ | ⟨-, req, envelope, hreq, hparse, -, rfl⟩
  · exact ⟨rfl, fun _ => List.Subset.refl _, fun _ _ h => .inl h⟩
  · exact ⟨rfl, fun _ _ hmem => mem_pushRoot hmem, fun _ _ h => .inl h⟩
  · exact ⟨rfl, fun _ _ hmem => mem_pushRoot hmem, fun _ _ h => .inl h⟩
  · refine ⟨rfl, fun _ => List.Subset.refl _, fun root existing hroot => ?_⟩
    by_cases hr : root = envelope.payloadHeaderRoot
    · subst hr
      simp only [AList.lookup_insert, Option.some_inj] at hroot
      exact .inr ⟨req, hreq, hroot ▸ hparse⟩
    · simp only [AList.lookup_insert_ne hr] at hroot
      exact .inl hroot

/-- An envelope that the request brings is revealed after `deadline`. -/
def RevealsAfter (deadline : UInt64) (s : NodeState Db) (x : EngineEnv × Registration) : Prop :=
  ∀ req envelope, x.2 = .envelope req → parseEnvelopeRecord x.1 req (fallbackSlot s) = .ok envelope →
    deadline < envelope.revealedAtUnixS

theorem Overdue.step {x : EngineEnv × Registration} (h : Overdue s slot now) (hstep : Engine7732.step s x = some s')
    (hx : RevealsAfter (slotDeadlineUnixS s slot) s x) : Overdue s' slot now := by
  obtain ⟨hstarted, hroots, henvelopes⟩ := step_keeps hstep
  have hdeadline : slotDeadlineUnixS s' slot = slotDeadlineUnixS s slot := by
    rw [slotDeadlineUnixS, slotDeadlineUnixS, hstarted]
  obtain ⟨hlt, root, hroot, hlate⟩ := h
  refine ⟨hdeadline ▸ hlt, root, hroots slot hroot, ?_⟩
  rintro ⟨envelope, hlookup, hle⟩
  rw [hdeadline] at hle
  rcases henvelopes root envelope hlookup with hold | ⟨req, hreq, hparse⟩
  · exact hlate ⟨envelope, hold, hle⟩
  · exact absurd hle (UInt64.not_le.mpr (hx req envelope hreq hparse))

theorem Overdue.run {xs : List (EngineEnv × Registration)} (h : Overdue s slot now)
    (hrun : Run.exec Engine7732.step s xs = some s')
    (hxs : Run.Along Engine7732.step (RevealsAfter (slotDeadlineUnixS s slot)) s xs) : Overdue s' slot now := by
  refine (Run.invariant_along (I := fun m => Overdue m slot now ∧ slotDeadlineUnixS m slot = slotDeadlineUnixS s slot)
    ⟨h, rfl⟩ ?_ hxs hrun).1
  rintro m x m' ⟨hm, hdeadline⟩ hx hstep
  refine ⟨hm.step hstep (hdeadline ▸ hx), ?_⟩
  rw [← hdeadline, slotDeadlineUnixS, slotDeadlineUnixS, (step_keeps hstep).1]

/-- The verdict is what it should be, and a violation stays one: later, and whatever else is registered,
unless an envelope claims to have been revealed in time after all. -/
theorem timeliness_verdict (env : EngineEnv) (s : NodeState Db) (slot now : UInt64) (hreveals : NoFutureReveals s now) :
    (Violation s slot now env ↔ Overdue s slot now) ∧
      (Violation s slot now env → ∀ xs s' env' now', Run.exec Engine7732.step s xs = some s' →
        Run.Along Engine7732.step (RevealsAfter (slotDeadlineUnixS s slot)) s xs → now ≤ now' →
        Violation s' slot now' env') := by
  refine ⟨violation_iff_overdue hreveals, fun h xs s' env' now' hrun hxs hle => ?_⟩
  obtain ⟨hdeadline, hroot⟩ := ((violation_iff_overdue hreveals).mp h).run hrun hxs
  exact Overdue.violation ⟨UInt64.lt_of_lt_of_le hdeadline hle, hroot⟩ env'

/-- A header without an envelope, and then with a late one. -/
theorem timeliness_verdict_late_envelope :
    ∃ s s', Run.exec Engine7732.step emptyNode [headerOfSlot 5] = some s ∧
      Run.exec Engine7732.step s [envelopeOfSlot 5] = some s' ∧
      Violation s 5 1772409690 namedRootEnv ∧ Violation s' 5 1772409700 namedRootEnv := by
  have hreveals : NoFutureReveals (registerHeader emptyNode
      ⟨5, someRoot, none, none, none, none, none, 1772409700⟩).2 1772409690 := by
    intro root envelope h
    cases h
  have hviolation : Violation (registerHeader emptyNode
      ⟨5, someRoot, none, none, none, none, none, 1772409700⟩).2 5 1772409690 namedRootEnv := by
    rw [violation_iff_overdue hreveals]
    refine ⟨by decide, someRoot, by decide, ?_⟩
    rintro ⟨envelope, h, -⟩
    cases h
  refine ⟨_, _, rfl, rfl, hviolation, ?_⟩
  refine (timeliness_verdict namedRootEnv _ 5 1772409690 hreveals).2 hviolation [envelopeOfSlot 5] _ namedRootEnv
    1772409700 rfl (.cons ?_ rfl Run.along_nil) (by decide)
  intro req envelope hreq hparse
  cases hreq
  cases hparse
  decide

end Engine7732

/-! ### The verdict of the library -/

namespace Epbs

inductive PayloadTimeliness where
  | unknown
  | headerOnly
  | partialReveal
  | revealed
  | lateReveal
  | withheld
  | partialWithhold
  | orphanEnvelope
deriving DecidableEq

structure PayloadHeader where
  slot : UInt64
  payloadHeaderRoot : String
  parentBeaconBlockRoot : Option String
  executionBlockHash : Option String
  proposer : Option String
  bidValueWei : BitVec 128
  viewId : Option UInt64
  receivedAtUnixS : UInt64

structure PayloadEnvelope where
  slot : UInt64
  payloadHeaderRoot : String
  executionBlockHash : Option String
  payloadBodyHash : Option String
  signer : Option String
  dataAvailable : Bool
  revealedAtUnixS : UInt64

def determineTimeliness (header : Option PayloadHeader) (envelope : Option PayloadEnvelope)
    (slotDeadlineUnixS : UInt64) : PayloadTimeliness :=
  match header, envelope with
  | none, none => .unknown
  | some _, none => .headerOnly
  | none, some _ => .orphanEnvelope
  | some _, some envelope =>
    let isLate := decide (slotDeadlineUnixS < envelope.revealedAtUnixS)
    if envelope.dataAvailable then
      if isLate then .lateReveal else .revealed
    else if isLate then .withheld
    else .partialReveal

/-- The node's word for it. -/
def PayloadTimeliness.status : PayloadTimeliness → TimelinessStatus
  | unknown => .unknown
  | headerOnly => .headerOnly
  | partialReveal => .partialReveal
  | revealed => .revealed
  | lateReveal => .lateReveal
  | withheld => .withheld
  | partialWithhold => .partialWithhold
  | orphanEnvelope => .orphanEnvelope

/-- The node's header, with the bid in the library's type. -/
def PayloadHeader.ofRecord (bidValueWei : BitVec 128) (record : Engine7732HeaderRecord) : PayloadHeader where
  slot := record.slot
  payloadHeaderRoot := record.payloadHeaderRoot
  parentBeaconBlockRoot := record.parentBeaconBlockRoot
  executionBlockHash := record.executionBlockHash
  proposer := record.proposer
  bidValueWei := bidValueWei
  viewId := record.viewId
  receivedAtUnixS := record.receivedAtUnixS

def PayloadEnvelope.ofRecord (record : Engine7732EnvelopeRecord) : PayloadEnvelope where
  slot := record.slot
  payloadHeaderRoot := record.payloadHeaderRoot
  executionBlockHash := record.executionBlockHash
  payloadBodyHash := record.payloadBodyHash
  signer := record.signer
  dataAvailable := record.dataAvailable
  revealedAtUnixS := record.revealedAtUnixS

end Epbs

namespace Engine7732

open Epbs

variable {Db : Type} {env : EngineEnv} {s : NodeState Db} {slot now : UInt64}
  {header : Option Engine7732HeaderRecord} {envelope : Option Engine7732EnvelopeRecord}

/-- An envelope of the slot whose root is no header's. -/
def Orphan (s : NodeState Db) (slot : UInt64) (root : String) (envelope : Engine7732EnvelopeRecord) : Prop :=
  s.engine7732EnvelopesByRoot.lookup root = some envelope ∧ envelope.slot = slot ∧
    s.engine7732HeadersByRoot.lookup envelope.payloadHeaderRoot = none

/-- The slot has at most one header, with at most one envelope for its root; without a header, at most one
orphan. -/
def Registered (s : NodeState Db) (slot : UInt64) :
    Option Engine7732HeaderRecord → Option Engine7732EnvelopeRecord → Prop
  | some header, envelope => headerRoots s slot = [header.payloadHeaderRoot] ∧
      s.engine7732HeadersByRoot.lookup header.payloadHeaderRoot = some header ∧
      s.engine7732EnvelopesByRoot.lookup header.payloadHeaderRoot = envelope
  | none, envelope => headerRoots s slot = [] ∧
      ∀ root orphan, Orphan s slot root orphan ↔ envelope = some orphan ∧ root = orphan.payloadHeaderRoot

/-- The node reports what the library says of the same header, envelope and deadline. -/
def VerdictsAgree (env : EngineEnv) (s : NodeState Db) (slot now : UInt64) (bidValueWei : BitVec 128)
    (header : Option Engine7732HeaderRecord) (envelope : Option Engine7732EnvelopeRecord) : Prop :=
  (slotStatus env s slot now).aggregateStatus =
    (determineTimeliness (header.map (.ofRecord bidValueWei)) (envelope.map .ofRecord)
      (slotDeadlineUnixS s slot)).status

/-- The payload of the header has been revealed without its data. -/
def RevealedWithoutData (header : Option Engine7732HeaderRecord) (envelope : Option Engine7732EnvelopeRecord) : Prop :=
  header.isSome ∧ ∃ revealed, envelope = some revealed ∧ revealed.dataAvailable = false

theorem orphanEnvelopes_eq_nil : (slotStatus env s slot now).orphanEnvelopes = [] ↔
    ∀ root orphan, ¬ Orphan s slot root orphan := by
  simp only [slotStatus, List.filter_eq_nil_iff, IterOrder.mem_order, Option.any_eq_true, decide_eq_true_eq]
  refine ⟨fun h root orphan horphan => ?_, fun h root _ => ?_⟩
  · obtain ⟨hlookup, hslot, hnone⟩ := horphan
    refine h root (mem_iff_exists_lookup.mpr ⟨_, hlookup⟩) ⟨orphan, hlookup, hslot, ?_⟩
    rw [hnone]
    rfl
  · rintro ⟨orphan, hlookup, hslot, hnone⟩
    exact h root orphan ⟨hlookup, hslot, Option.isNone_iff_eq_none.mp hnone⟩

/-- One header: what is reported depends on its envelope alone. -/
theorem aggregateStatus_of_header {record : Engine7732HeaderRecord} (h : Registered s slot (some record) envelope)
    (htime : now ≤ slotDeadlineUnixS s slot ∨ envelope.isSome) : (slotStatus env s slot now).aggregateStatus =
      match envelope with
      | none => .headerOnly
      | some revealed => if slotDeadlineUnixS s slot < revealed.revealedAtUnixS then .lateReveal else .revealed := by
  obtain ⟨hroots, -, henvelope⟩ := h
  rw [headerRoots] at hroots
  cases envelope with
  | none =>
    have hnow : ¬ slotDeadlineUnixS s slot < now := by simpa using htime
    simp [slotStatus, hroots, henvelope, hnow]
  | some revealed =>
    by_cases hlate : slotDeadlineUnixS s slot < revealed.revealedAtUnixS
    · simp [slotStatus, hroots, henvelope, hlate]
    · simp [slotStatus, hroots, henvelope, hlate]

theorem aggregateStatus_of_no_header (h : Registered s slot none envelope) :
    (slotStatus env s slot now).aggregateStatus = if envelope.isSome then .orphanEnvelope else .unknown := by
  obtain ⟨hroots, horphans⟩ := h
  have horphan : (slotStatus env s slot now).orphanEnvelopes = [] ↔ envelope = none := by
    rw [orphanEnvelopes_eq_nil]
    simp only [horphans]
    cases envelope with
    | none => simp
    | some orphan => simp
  rw [headerRoots] at hroots
  cases envelope with
  | none =>
    have hnil := horphan.mpr rfl
    simp only [slotStatus] at hnil ⊢
    rw [if_pos ⟨hroots, hnil⟩]
    rfl
  | some orphan =>
    have hne := mt horphan.mp (by simp)
    simp only [slotStatus] at hne ⊢
    rw [if_neg fun h => hne h.2, if_pos ⟨hroots, hne⟩]
    rfl

/-- The two verdicts agree unless a payload was revealed without its data, which the node does not look at. -/
theorem verdicts_agree_iff (env : EngineEnv) (s : NodeState Db) (slot now : UInt64) (bidValueWei : BitVec 128)
    (header : Option Engine7732HeaderRecord) (envelope : Option Engine7732EnvelopeRecord)
    (h : Registered s slot header envelope) (htime : now ≤ slotDeadlineUnixS s slot ∨ envelope.isSome) :
    VerdictsAgree env s slot now bidValueWei header envelope ↔ ¬ RevealedWithoutData header envelope := by
  unfold VerdictsAgree RevealedWithoutData
  cases header with
  | none =>
    rw [aggregateStatus_of_no_header h]
    cases envelope with
    | none => simp [determineTimeliness, PayloadTimeliness.status]
    | some orphan => simp [determineTimeliness, PayloadTimeliness.status]
  | some record =>
    rw [aggregateStatus_of_header h htime]
    cases envelope with
    | none => simp [determineTimeliness, PayloadTimeliness.status]
    | some revealed =>
      -- late or not, the data tell the two apart
      by_cases hlate : slotDeadlineUnixS s slot < revealed.revealedAtUnixS
      · cases hdata : revealed.dataAvailable <;>
          simp [determineTimeliness, PayloadEnvelope.ofRecord, PayloadTimeliness.status, hlate, hdata]
      · cases hdata : revealed.dataAvailable <;>
          simp [determineTimeliness, PayloadEnvelope.ofRecord, PayloadTimeliness.status, hlate, hdata]

def fullHeader : Engine7732HeaderRecord := ⟨5, someRoot, none, none, none, none, none, 1772409650⟩

def revealedEnvelope (dataAvailable : Bool) : Engine7732EnvelopeRecord :=
  ⟨5, someRoot, none, none, none, dataAvailable, 1772409660⟩

/-- A header and its envelope, revealed on time. -/
def revealedNode (dataAvailable : Bool) : NodeState Unit :=
  (registerEnvelope (registerHeader emptyNode fullHeader).2 (revealedEnvelope dataAvailable)).2

theorem registered_revealedNode (dataAvailable : Bool) :
    Registered (revealedNode dataAvailable) 5 (some fullHeader) (some (revealedEnvelope dataAvailable)) := by
  cases dataAvailable
  · exact ⟨by decide, by decide, by decide⟩
  · exact ⟨by decide, by decide, by decide⟩

theorem verdicts_agree_iff_with_data :
    VerdictsAgree namedRootEnv (revealedNode true) 5 1772409700 0 (some fullHeader) (some (revealedEnvelope true)) := by
  rw [verdicts_agree_iff _ _ _ _ _ _ _ (registered_revealedNode true) (.inr rfl)]
  rintro ⟨-, revealed, h, hdata⟩
  cases h
  cases hdata

/-- Without its data the payload counts as revealed for the node, as partly revealed for the library. -/
theorem verdicts_differ_without_data :
    Registered (revealedNode false) 5 (some fullHeader) (some (revealedEnvelope false)) ∧
      1772409660 ≤ slotDeadlineUnixS (revealedNode false) 5 ∧
      (slotStatus namedRootEnv (revealedNode false) 5 1772409660).aggregateStatus = .revealed ∧
      determineTimeliness (some (.ofRecord 0 fullHeader)) (some (.ofRecord (revealedEnvelope false)))
        (slotDeadlineUnixS (revealedNode false) 5) = .partialReveal ∧
      ¬ VerdictsAgree namedRootEnv (revealedNode false) 5 1772409660 0 (some fullHeader)
        (some (revealedEnvelope false)) :=
  ⟨registered_revealedNode false, by decide, by decide, by decide, by unfold VerdictsAgree; decide⟩

end Engine7732

end Eth2077
