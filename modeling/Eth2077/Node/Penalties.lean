import Eth2077.Node.FocilFreeze

/-!
# Penalties

`engine_forkchoiceUpdatedV3` and `engine_newPayloadV3` evaluate the timeliness of a slot and bring its penalty
up to date. Over a run of requests the record of a slot follows from the history of its evaluations alone: it
is activated by the first violation of a streak and recovers with the first evaluation after it.
-/

namespace Eth2077

namespace Focil

/-- That a request had the timeliness of a slot evaluated. -/
structure Evaluation where
  slot : UInt64
  now : UInt64
  violation : Bool
deriving DecidableEq

section Defs
variable {Db : Type} (R : Revm) (env : EngineEnv)

def evaluate (s : NodeState Db) (slot now : UInt64) : Evaluation :=
  ⟨slot, now, (Engine7732.slotStatus env s slot now).aggregateStatus.isViolation⟩

/-- The evaluation a request makes in the state it finds. -/
def evaluationOf (s : NodeState R.Db) (c : EngineCall) : Option Evaluation :=
  match c.request with
  | .forkchoiceUpdated req => some (evaluate (c.env env) s (fcSlot s req) ((currentUnixS req).getD c.now))
  | .newPayload req => some (evaluate (c.env env) s (npSlot R s req) ((currentUnixS req).getD c.now))
  | _ => none

/-- The evaluations of a run, first to last. -/
def evaluations : NodeState R.Db → List EngineCall → List Evaluation
  | _, [] => []
  | s, c :: calls => (evaluationOf R env s c).toList ++ (step R env s c).elim [] fun s' => evaluations s' calls

/-- The evaluations of one slot. -/
def historyOf (s : NodeState R.Db) (calls : List EngineCall) (slot : UInt64) : List Evaluation :=
  (evaluations R env s calls).filter fun e => e.slot = slot

end Defs

/-- The last evaluation, if there was one, was no violation. -/
def Quiet (history : List Evaluation) : Prop := ∀ e ∈ history.getLast?, e.violation = false

/-- The violations from `first` on are the latest streak of `history`; `after` has come since. -/
structure Streak (history : List Evaluation) (first : Evaluation) (after : List Evaluation) : Prop where
  split : ∃ before later, history = before ++ first :: later ++ after ∧ Quiet before ∧
    ∀ e ∈ first :: later, e.violation = true
  after : ∀ e ∈ after, e.violation = false

/-- What the record of a slot should be after its evaluations. -/
structure Lifecycle (history : List Evaluation) (record : Option Engine7732PenaltyRecord) : Prop where
  exists_iff : record.isSome ↔ ∃ e ∈ history, e.violation = true
  active_iff : ∀ r, record = some r → (r.state = .active ↔ ∃ e, history.getLast? = some e ∧ e.violation = true)
  active : ∀ r, record = some r → r.state = .active →
    r.recoveredAtUnixS = none ∧ ∃ first, Streak history first [] ∧ r.activatedAtUnixS = first.now
  recovered : ∀ r, record = some r → r.state = .recovered →
    ∃ first close rest, Streak history first (close :: rest) ∧ r.activatedAtUnixS = first.now ∧
      r.recoveredAtUnixS = some close.now

/-! ### The life of one record -/

section Record
variable {history : List Evaluation} {first e : Evaluation} {after : List Evaluation}

theorem quiet_of_forall (h : ∀ e ∈ history, e.violation = false) : Quiet history :=
  fun e he => h e (List.mem_of_getLast? he)

theorem Streak.quiet (h : Streak history first after) (hafter : after ≠ []) : Quiet history := by
  obtain ⟨⟨before, later, rfl, -, -⟩, hquiet⟩ := h
  intro e he
  rw [List.getLast?_append_of_ne_nil _ hafter] at he
  exact hquiet e (List.mem_of_getLast? he)

theorem Streak.exists_violation (h : Streak history first after) : ∃ e ∈ history, e.violation = true := by
  obtain ⟨⟨before, later, rfl, -, hstreak⟩, -⟩ := h
  exact ⟨first, by simp, hstreak first List.mem_cons_self⟩

theorem Streak.last (h : Streak history first []) : ∃ e, history.getLast? = some e ∧ e.violation = true := by
  obtain ⟨⟨before, later, rfl, -, hstreak⟩, -⟩ := h
  obtain ⟨e, he⟩ := Option.isSome_iff_exists.mp (List.getLast?_isSome.mpr (List.cons_ne_nil first later))
  refine ⟨e, ?_, hstreak e (List.mem_of_getLast? he)⟩
  rw [List.append_nil, List.getLast?_append_of_ne_nil _ (List.cons_ne_nil _ _), he]

theorem Streak.start (hquiet : Quiet history) (he : e.violation = true) : Streak (history ++ [e]) e [] :=
  ⟨⟨history, [], by simp, hquiet, by simpa using he⟩, by simp⟩

theorem Streak.goOn (h : Streak history first []) (he : e.violation = true) : Streak (history ++ [e]) first [] := by
  obtain ⟨⟨before, later, rfl, hquiet, hstreak⟩, -⟩ := h
  refine ⟨⟨before, later ++ [e], by simp, hquiet, ?_⟩, by simp⟩
  intro e' he'
  rcases List.mem_append.mp (List.cons_append ▸ he' : e' ∈ (first :: later) ++ [e]) with he' | he'
  · exact hstreak e' he'
  · rwa [List.mem_singleton.mp he']

theorem Streak.cease (h : Streak history first after) (he : e.violation = false) :
    Streak (history ++ [e]) first (after ++ [e]) := by
  obtain ⟨⟨before, later, rfl, hquiet, hstreak⟩, hafter⟩ := h
  refine ⟨⟨before, later, by simp, hquiet, hstreak⟩, ?_⟩
  intro e' he'
  rcases List.mem_append.mp he' with he' | he'
  · exact hafter e' he'
  · rwa [List.mem_singleton.mp he']

/-- The three things a record can be. -/
inductive Follows (history : List Evaluation) : Option Engine7732PenaltyRecord → Prop where
  | clean (h : ∀ e ∈ history, e.violation = false) : Follows history none
  | active {record : Engine7732PenaltyRecord} (first : Evaluation) (hstreak : Streak history first [])
    (hstate : record.state = .active) (hactivated : record.activatedAtUnixS = first.now)
    (hrecovered : record.recoveredAtUnixS = none) : Follows history (some record)
  | recovered {record : Engine7732PenaltyRecord} (first close : Evaluation) (rest : List Evaluation)
    (hstreak : Streak history first (close :: rest)) (hstate : record.state = .recovered)
    (hactivated : record.activatedAtUnixS = first.now) (hrecovered : record.recoveredAtUnixS = some close.now) :
    Follows history (some record)

theorem Follows.lifecycle {record : Option Engine7732PenaltyRecord} (h : Follows history record) :
    Lifecycle history record := by
  cases h with
  | clean h =>
    refine ⟨iff_of_false (by simp) ?_, nofun, nofun, nofun⟩
    rintro ⟨e, he, hviolation⟩
    cases (h e he).symm.trans hviolation
  | active first hstreak hstate hactivated hrecovered =>
    refine ⟨iff_of_true rfl hstreak.exists_violation, ?_, ?_, ?_⟩
    · rintro _ ⟨rfl⟩
      exact iff_of_true hstate hstreak.last
    · rintro _ ⟨rfl⟩ -
      exact ⟨hrecovered, first, hstreak, hactivated⟩
    · rintro _ ⟨rfl⟩ hstate'
      cases hstate.symm.trans hstate'
  | recovered first close rest hstreak hstate hactivated hrecovered =>
    refine ⟨iff_of_true rfl hstreak.exists_violation, ?_, ?_, ?_⟩
    · rintro _ ⟨rfl⟩
      refine iff_of_false (by simp [hstate]) ?_
      rintro ⟨e, he, hviolation⟩
      cases (hstreak.quiet (List.cons_ne_nil _ _) e he).symm.trans hviolation
    · rintro _ ⟨rfl⟩ hstate'
      cases hstate.symm.trans hstate'
    · rintro _ ⟨rfl⟩ -
      exact ⟨first, close, rest, hstreak, hactivated, hrecovered⟩

end Record

/-! ### One evaluation -/

section Update
variable {Db : Type} {s : NodeState Db} {slot now : UInt64} {status : TimelinessStatus} {reason : String}

theorem lookup_updatePenaltyState :
    (Engine7732.updatePenaltyState s slot status reason now).2.engine7732PenaltiesBySlot.lookup slot =
      (Engine7732.updatePenaltyState s slot status reason now).1 := by
  unfold Engine7732.updatePenaltyState
  split_ifs
  · simp
  · split
    · assumption
    · simp

theorem lookup_updatePenaltyState_ne {slot' : UInt64} (h : slot' ≠ slot) :
    (Engine7732.updatePenaltyState s slot status reason now).2.engine7732PenaltiesBySlot.lookup slot' =
      s.engine7732PenaltiesBySlot.lookup slot' := by
  unfold Engine7732.updatePenaltyState
  split_ifs
  · exact AList.lookup_insert_ne h
  · split
    · rfl
    · exact AList.lookup_insert_ne h

theorem Follows.updatePenaltyState {history : List Evaluation}
    (h : Follows history (s.engine7732PenaltiesBySlot.lookup slot)) :
    Follows (history ++ [⟨slot, now, status.isViolation⟩])
      (Engine7732.updatePenaltyState s slot status reason now).1 := by
  unfold Engine7732.updatePenaltyState
  generalize s.engine7732PenaltiesBySlot.lookup slot = record at h
  cases hviolation : status.isViolation with
  | true =>
    rw [if_pos rfl]
    cases h with
    | clean h => exact .active _ (.start (quiet_of_forall h) rfl) rfl rfl rfl
    | active first hstreak hstate hactivated hrecovered =>
      refine .active first (hstreak.goOn rfl) rfl ?_ ?_
      · simpa [hstate] using hactivated
      · simpa [hstate] using hrecovered
    | recovered first close rest hstreak hstate =>
      refine .active _ (.start (hstreak.quiet (List.cons_ne_nil _ _)) rfl) rfl ?_ ?_
      · simp [hstate]
      · simp [hstate]
  | false =>
    rw [if_neg Bool.false_ne_true]
    cases h with
    | clean h =>
      refine .clean fun e he => ?_
      rcases List.mem_append.mp he with he | he
      · exact h e he
      · rw [List.mem_singleton.mp he]
    | active first hstreak hstate hactivated hrecovered =>
      refine .recovered first _ [] (hstreak.cease rfl) ?_ ?_ ?_
      all_goals simp [hstate, hactivated]
    | recovered first close rest hstreak hstate hactivated hrecovered =>
      refine .recovered first close _ (hstreak.cease rfl) ?_ ?_ ?_
      all_goals simp [hstate, hactivated, hrecovered]

end Update

/-! ### Requests -/

theorem penalties_acceptUpdate {Db : Type} (env : EngineEnv) (s : NodeState Db) (req : Json) (slot : UInt64)
    (entries : Option (List EngineTxMeta)) :
    (acceptUpdate env s req slot entries).engine7732PenaltiesBySlot = s.engine7732PenaltiesBySlot := by
  unfold acceptUpdate unfreezeOther
  cases entries with
  | none => dsimp only; split_ifs <;> rfl
  | some entries => dsimp only [replaceList]; split_ifs <;> rfl

theorem penalties_forkchoiceUpdated {Db : Type} {env : EngineEnv} {s s' : NodeState Db} {req answer : Json}
    (h : forkchoiceUpdatedResponse env s req = .ok (answer, s')) : s'.engine7732PenaltiesBySlot =
      (judge env s (fcSlot s req) ((currentUnixS req).getD env.now)).state.engine7732PenaltiesBySlot := by
  rcases forkchoiceUpdated_cases h with ⟨-, -, rfl⟩ | ⟨-, entries, -, rfl⟩
  · rfl
  · exact penalties_acceptUpdate ..

variable {R : Revm} {env : EngineEnv} {s s' : NodeState R.Db} {c : EngineCall} {calls : List EngineCall}

theorem penalties_newPayload {req answer : Json} (h : newPayloadResponse env R s req = .ok (answer, s')) :
    s'.engine7732PenaltiesBySlot =
      (judge env s (npSlot R s req) ((currentUnixS req).getD env.now)).state.engine7732PenaltiesBySlot := by
  obtain ⟨db, rfl⟩ := newPayload_state h
  rfl

theorem penalties_register {Db : Type} {s s' : NodeState Db} {x : EngineEnv × Engine7732.Registration} {answer : Json}
    (h : Engine7732.respond s x = .ok (answer, s')) : s'.engine7732PenaltiesBySlot = s.engine7732PenaltiesBySlot := by
  rcases Engine7732.respond_effect h with
    rfl | ⟨-, slot, root, rfl⟩ | ⟨-, header, -, rfl⟩ | ⟨-, -, envelope, -, -, -, rfl⟩
  all_goals rfl

/-- A request evaluates one slot and updates its penalty, or it leaves the penalties. -/
theorem penalties_step (h : step R env s c = some s') :
    (∃ slot now, evaluationOf R env s c = some (evaluate (c.env env) s slot now) ∧
      s'.engine7732PenaltiesBySlot = (judge (c.env env) s slot now).state.engine7732PenaltiesBySlot) ∨
    evaluationOf R env s c = none ∧ s'.engine7732PenaltiesBySlot = s.engine7732PenaltiesBySlot := by
  obtain ⟨answer, h⟩ := step_eq_some.mp h
  obtain ⟨request, now, envelopeOrder⟩ := c
  cases request with
  | getInclusionList req =>
    obtain ⟨-, rfl⟩ := Prod.mk.inj (Except.ok.inj h)
    refine .inr ⟨rfl, ?_⟩
    split_ifs <;> rfl
  | forkchoiceUpdated req => exact .inl ⟨_, _, rfl, penalties_forkchoiceUpdated h⟩
  | newPayload req => exact .inl ⟨_, _, rfl, penalties_newPayload h⟩
  | register registration => exact .inr ⟨rfl, penalties_register h⟩
  | tick =>
    obtain ⟨-, rfl⟩ := Prod.mk.inj (Except.ok.inj h)
    exact .inr ⟨rfl, rfl⟩

/-- The records of the slots that are not evaluated stay. -/
theorem lookup_penalties_step (h : step R env s c = some s') {slot : UInt64}
    (hslot : ∀ e, evaluationOf R env s c = some e → e.slot ≠ slot) :
    s'.engine7732PenaltiesBySlot.lookup slot = s.engine7732PenaltiesBySlot.lookup slot := by
  rcases penalties_step h with ⟨slot', now, heval, hs'⟩ | ⟨-, hs'⟩
  · rw [hs']
    exact lookup_updatePenaltyState_ne (hslot _ heval).symm
  · rw [hs']

theorem Follows.step {history : List Evaluation} {slot : UInt64}
    (hs : Follows history (s.engine7732PenaltiesBySlot.lookup slot)) (h : Focil.step R env s c = some s') :
    Follows (history ++ ((evaluationOf R env s c).toList.filter fun e => e.slot = slot))
      (s'.engine7732PenaltiesBySlot.lookup slot) := by
  by_cases hslot : ∀ e, evaluationOf R env s c = some e → e.slot ≠ slot
  · have hnil : (evaluationOf R env s c).toList.filter (fun e => e.slot = slot) = [] := by
      simpa [List.filter_eq_nil_iff] using hslot
    rw [hnil, List.append_nil, lookup_penalties_step h hslot]
    exact hs
  · push Not at hslot
    obtain ⟨e, he, rfl⟩ := hslot
    rcases penalties_step h with ⟨slot', now, heval, hs'⟩ | ⟨hnone, -⟩
    · obtain rfl := Option.some_inj.mp (he.symm.trans heval)
      rw [hs', heval]
      simpa [evaluate, judge, lookup_updatePenaltyState] using hs.updatePenaltyState
    · cases hnone.symm.trans he

/-! ### Runs -/

theorem evaluations_concat {s₀ : NodeState R.Db} (h : Run.exec (step R env) s₀ calls = some s) :
    evaluations R env s₀ (calls ++ [c]) = evaluations R env s₀ calls ++ (evaluationOf R env s c).toList := by
  induction calls generalizing s₀ with
  | nil =>
    obtain rfl := Option.some_inj.mp h
    cases hstep : step R env s₀ c <;> simp [evaluations, hstep]
  | cons c' calls ih =>
    obtain ⟨m, hstep, hrest⟩ := Option.bind_eq_some_iff.mp h
    simp [evaluations, hstep, ih hrest]

theorem follows_run {s₀ : NodeState R.Db} (h₀ : s₀.engine7732PenaltiesBySlot = ∅)
    (h : Run.exec (step R env) s₀ calls = some s) (slot : UInt64) :
    Follows (historyOf R env s₀ calls slot) (s.engine7732PenaltiesBySlot.lookup slot) := by
  -- from the last request backwards, since a record follows from what came before it
  induction calls using List.reverseRecOn generalizing s with
  | nil =>
    obtain rfl := Option.some_inj.mp h
    rw [h₀]
    exact .clean nofun
  | append_singleton calls c ih =>
    obtain ⟨m, hm, hstep⟩ := Run.exec_concat.mp h
    have hnext := (ih hm).step hstep
    rwa [historyOf, evaluations_concat hm, List.filter_append]

/-- The record of every slot, after any requests. -/
theorem penalty_lifecycle (R : Revm) (env : EngineEnv) (chainId startedAtUnixS : UInt64) (calls : List EngineCall)
    (s : NodeState R.Db) (h : Run.exec (step R env) (buildState R chainId startedAtUnixS) calls = some s) :
    (∀ slot, Lifecycle (historyOf R env (buildState R chainId startedAtUnixS) calls slot)
      (s.engine7732PenaltiesBySlot.lookup slot)) ∧
    ∀ c s', step R env s c = some s' → ∀ slot, (∀ e, evaluationOf R env s c = some e → e.slot ≠ slot) →
      s'.engine7732PenaltiesBySlot.lookup slot = s.engine7732PenaltiesBySlot.lookup slot :=
  ⟨fun slot => (follows_run rfl h slot).lifecycle, fun _ _ hstep _ hslot => lookup_penalties_step hstep hslot⟩

/-- A header of slot 5 that is not revealed: the update after the deadline activates the penalty of the slot. -/
theorem penalty_lifecycle_unrevealed :
    ∃ s, Run.exec (step accountsOnly oneListEnv) (buildState accountsOnly 2077001 1772409600)
        [⟨.register (Engine7732.headerOfSlot 5).2, 1772409650, .stored⟩, submit 5 []] = some s ∧
      ∃ record, s.engine7732PenaltiesBySlot.lookup 5 = some record ∧ record.state = .active ∧
        record.recoveredAtUnixS = none := by
  refine ⟨_, rfl, _, rfl, rfl, ?_⟩
  obtain ⟨hlife, -⟩ := penalty_lifecycle accountsOnly oneListEnv 2077001 1772409600
    [⟨.register (Engine7732.headerOfSlot 5).2, 1772409650, .stored⟩, submit 5 []] _ rfl
  exact ((hlife 5).active _ rfl rfl).1

end Focil

end Eth2077
