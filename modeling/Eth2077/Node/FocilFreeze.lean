import Eth2077.Node.Daemon
import Eth2077.Node.FailedRun
import Eth2077.Node.Focil
import Eth2077.Node.Registry7732

/-!
# The frozen view

Runs of the engine's requests. A view that is frozen is frozen for the slot of the list, with the root of
the list, and until another slot is taken up no request changes its hashes. The details beside the hashes
are not in the root: they stay only as long as nobody submits the same hashes with others.
-/

namespace Eth2077

namespace Focil

inductive EngineRequest where
  | getInclusionList (req : Json)
  | forkchoiceUpdated (req : Json)
  | newPayload (req : Json)
  | register (registration : Engine7732.Registration)
  /-- The ticker between two requests. -/
  | tick

/-- A request, the clock when it is served and the order the envelopes are traversed in. -/
structure EngineCall where
  request : EngineRequest
  now : UInt64
  envelopeOrder : IterOrder String

def EngineCall.env (c : EngineCall) (env : EngineEnv) : EngineEnv :=
  { env with now := c.now, envelopeOrder := c.envelopeOrder }

section Defs
variable (R : Revm) (env : EngineEnv)

def respond (s : NodeState R.Db) (c : EngineCall) : Except Panic (Json × NodeState R.Db) :=
  match c.request with
  | .getInclusionList req => .ok (getInclusionListResponse (c.env env) s req)
  | .forkchoiceUpdated req => forkchoiceUpdatedResponse (c.env env) s req
  | .newPayload req => newPayloadResponse (c.env env) R s req
  | .register registration => Engine7732.respond s (c.env env, registration)
  | .tick => .ok (.null, blockTick s c.now)

def step (s : NodeState R.Db) (c : EngineCall) : Option (NodeState R.Db) :=
  (respond R env s c).toOption.map Prod.snd

end Defs

/-- `engine_forkchoiceUpdatedV3` has its status one level down. -/
def Answered (answer : Json) (status : String) : Prop :=
  Engine7732.HasStatus ((answer.get "payloadStatus").getD answer) status

/-- The fields `engine_required_il_*` and `engine_focil_*` of the node. -/
structure View where
  requiredIlTxs : List String
  requiredIlMeta : HashMap String EngineTxMeta
  requiredIlSlot : Option UInt64
  requiredIlUpdatedAtUnixS : Option UInt64
  committee : List String
  viewFrozen : Bool
  frozenSlot : Option UInt64
  frozenIlRoot : Option String
  viewId : Option UInt64

def view {Db : Type} (s : NodeState Db) : View :=
  ⟨s.engineRequiredIlTxs, s.engineRequiredIlMeta, s.engineRequiredIlSlot, s.engineRequiredIlUpdatedAtUnixS,
    s.engineFocilCommittee, s.engineFocilViewFrozen, s.engineFocilFrozenSlot, s.engineFocilFrozenIlRoot,
    s.engineFocilViewId⟩

variable {Db : Type} {R : Revm} {env : EngineEnv} {answer : Json} {req : Json} {c : EngineCall}

/-! ### What a request does to the view -/

theorem updatePenaltyState_snd (s : NodeState Db) (slot : UInt64) (status : TimelinessStatus) (reason : String)
    (now : UInt64) :
    ∃ penalties, (Engine7732.updatePenaltyState s slot status reason now).2 =
      { s with engine7732PenaltiesBySlot := penalties } := by
  by_cases hviolation : status.isViolation = true
  · simp only [Engine7732.updatePenaltyState, hviolation, if_true]
    exact ⟨_, rfl⟩
  · simp only [Engine7732.updatePenaltyState, hviolation, Bool.false_eq_true, if_false]
    split
    · exact ⟨_, rfl⟩
    · exact ⟨_, rfl⟩

theorem judge_state (env : EngineEnv) (s : NodeState Db) (slot now : UInt64) :
    ∃ penalties, (judge env s slot now).state = { s with engine7732PenaltiesBySlot := penalties } :=
  updatePenaltyState_snd s slot _ _ now

/-- The update is not held back by the timeliness of its slot or by the freeze. -/
def Accepts (env : EngineEnv) (s : NodeState Db) (req : Json) (entries : Option (List EngineTxMeta)) : Prop :=
  (judge env s (fcSlot s req) ((currentUnixS req).getD env.now)).status.isViolation = false ∧
    submittedEntries req = .ok entries ∧ refusesList env s (fcSlot s req) entries = false

theorem answered_payloadStatus (status : String) (validationError : Json) (fields : List (String × Json)) :
    Answered (.object (("payloadStatus", payloadStatus status validationError) :: fields)) status := by
  simp [Answered, Engine7732.HasStatus, payloadStatus, Json.get, Json.asObject]

/-- An update is held back, and leaves what the judgement of its slot leaves, or it is accepted on top of that. -/
theorem forkchoiceUpdated_cases {s s' : NodeState Db} (h : forkchoiceUpdatedResponse env s req = .ok (answer, s')) :
    (Answered answer "INVALID" ∧ (∀ entries, ¬ Accepts env s req entries) ∧
      s' = (judge env s (fcSlot s req) ((currentUnixS req).getD env.now)).state) ∨
    (Answered answer "VALID" ∧ ∃ entries, Accepts env s req entries ∧
      s' = acceptUpdate env (judge env s (fcSlot s req) ((currentUnixS req).getD env.now)).state req (fcSlot s req)
        entries) := by
  unfold forkchoiceUpdatedResponse at h
  dsimp only at h
  obtain ⟨penalties, hstate⟩ := judge_state env s (fcSlot s req) ((currentUnixS req).getD env.now)
  split_ifs at h with hviolation
  · obtain ⟨rfl, rfl⟩ := Prod.mk.inj (Except.ok.inj h)
    refine .inl ⟨answered_payloadStatus .., ?_, rfl⟩
    rintro entries ⟨hno, -⟩
    exact Bool.noConfusion (hno.symm.trans hviolation)
  · obtain ⟨entries, hentries, h⟩ := except_bind_eq_ok.mp h
    split_ifs at h with hrefuses
    · obtain ⟨rfl, rfl⟩ := Prod.mk.inj (Except.ok.inj h)
      refine .inl ⟨answered_payloadStatus .., ?_, rfl⟩
      rintro entries' ⟨-, hentries', hno⟩
      obtain rfl := Except.ok.inj (hentries.symm.trans hentries')
      rw [hstate] at hrefuses
      exact Bool.noConfusion (hno.symm.trans hrefuses)
    · obtain ⟨rfl, rfl⟩ := Prod.mk.inj (Except.ok.inj h)
      refine .inr ⟨answered_payloadStatus .., entries, ?_, rfl⟩
      rw [hstate] at hrefuses
      exact ⟨by simpa using hviolation, hentries, Bool.eq_false_iff.mpr hrefuses⟩

theorem view_judge (s : NodeState Db) (slot now : UInt64) : view (judge env s slot now).state = view s := by
  obtain ⟨penalties, hstate⟩ := judge_state env s slot now
  rw [hstate]
  rfl

/-- The view after an update does not depend on the penalties. -/
theorem view_acceptUpdate_judge (s : NodeState Db) (slot slot' now : UInt64) (entries : Option (List EngineTxMeta)) :
    view (acceptUpdate env (judge env s slot' now).state req slot entries) = view (acceptUpdate env s req slot entries) := by
  obtain ⟨penalties, hstate⟩ := judge_state env s slot' now
  rw [hstate]
  unfold acceptUpdate unfreezeOther
  cases entries <;> dsimp only <;> split_ifs <;> rfl

theorem view_of_accepts {s s' : NodeState Db} {entries : Option (List EngineTxMeta)} (haccepts : Accepts env s req entries)
    (h : forkchoiceUpdatedResponse env s req = .ok (answer, s')) :
    view s' = view (acceptUpdate env s req (fcSlot s req) entries) := by
  rcases forkchoiceUpdated_cases h with ⟨-, hno, -⟩ | ⟨-, entries', haccepts', hs'⟩
  · exact absurd haccepts (hno entries)
  · obtain rfl := Except.ok.inj (haccepts.2.1.symm.trans haccepts'.2.1)
    rw [hs', view_acceptUpdate_judge]

/-- Judging a payload leaves what the judgement of its slot leaves, but for the database, which may cache. -/
theorem newPayload_state {s s' : NodeState R.Db} (h : newPayloadResponse env R s req = .ok (answer, s')) :
    ∃ db, s' = { (judge env s (npSlot R s req) ((currentUnixS req).getD env.now)).state with evmDb := db } := by
  unfold newPayloadResponse at h
  obtain ⟨entries, -, h⟩ := except_bind_eq_ok.mp h
  dsimp only at h
  split at h
  · exact ⟨_, (Prod.mk.inj (Except.ok.inj h)).2.symm⟩
  split at h
  · exact ⟨_, (Prod.mk.inj (Except.ok.inj h)).2.symm⟩
  split at h
  · exact ⟨_, (Prod.mk.inj (Except.ok.inj h)).2.symm⟩
  split at h
  · exact ⟨_, (Prod.mk.inj (Except.ok.inj h)).2.symm⟩
  · exact ⟨_, (Prod.mk.inj (Except.ok.inj h)).2.symm⟩

theorem view_newPayload {s s' : NodeState R.Db} (h : newPayloadResponse env R s req = .ok (answer, s')) :
    view s' = view s := by
  obtain ⟨db, rfl⟩ := newPayload_state h
  exact view_judge s (npSlot R s req) ((currentUnixS req).getD env.now)

theorem view_register {s s' : NodeState Db} {x : EngineEnv × Engine7732.Registration}
    (h : Engine7732.respond s x = .ok (answer, s')) : view s' = view s := by
  rcases Engine7732.respond_effect h with
    rfl | ⟨-, slot, root, rfl⟩ | ⟨-, header, -, rfl⟩ | ⟨-, -, envelope, -, -, -, rfl⟩
  all_goals rfl

variable {s s' : NodeState R.Db}

theorem step_eq_some : step R env s c = some s' ↔ ∃ answer, respond R env s c = .ok (answer, s') := toOption_map_snd

/-- A request leaves the view, freezes it or updates it. -/
theorem respond_cases (h : respond R env s c = .ok (answer, s')) :
    view s' = view s ∨
    (∃ req slot, c.request = .getInclusionList req ∧ s.engineRequiredIlSlot = some slot ∧
      s' = freezeView (c.env env) s slot ∧ answer.get "payloadStatus" = none ∧ answer.get "status" = none) ∨
    (∃ req entries, c.request = .forkchoiceUpdated req ∧ Answered answer "VALID" ∧
      Accepts (c.env env) s req entries ∧ view s' = view (acceptUpdate (c.env env) s req (fcSlot s req) entries)) := by
  obtain ⟨request, now, envelopeOrder⟩ := c
  cases request with
  | getInclusionList req =>
    obtain ⟨hanswer, hs'⟩ := Prod.mk.inj (Except.ok.inj h)
    split_ifs at hs' with hslot
    · refine .inr (.inl ⟨req, requestedSlot s req, rfl, hslot, hs'.symm, ?_, ?_⟩)
      all_goals
        rw [← hanswer]
        simp [Json.get, Json.asObject, List.lookup_cons]
    · exact .inl (by rw [hs'])
  | forkchoiceUpdated req =>
    rcases forkchoiceUpdated_cases h with ⟨-, -, hs'⟩ | ⟨hvalid, entries, haccepts, hs'⟩
    · exact .inl (by rw [hs', view_judge])
    · exact .inr (.inr ⟨req, entries, rfl, hvalid, haccepts, by rw [hs', view_acceptUpdate_judge]⟩)
  | newPayload req => exact .inl (view_newPayload h)
  | register registration => exact .inl (view_register h)
  | tick =>
    obtain ⟨-, rfl⟩ := Prod.mk.inj (Except.ok.inj h)
    exact .inl rfl

/-- A request that is refused leaves the view. -/
theorem view_of_refused (h : respond R env s c = .ok (answer, s'))
    (hrefused : Answered answer "INVALID" ∨ Answered answer "INCLUSION_LIST_UNSATISFIED") : view s' = view s := by
  rcases respond_cases h with hview | ⟨-, -, -, -, -, hnone, hnone'⟩ | ⟨-, -, -, hvalid, -⟩
  · exact hview
  · simp [Answered, Engine7732.HasStatus, hnone, hnone'] at hrefused
  · simp only [Answered, Engine7732.HasStatus] at hvalid hrefused
    simp [hvalid] at hrefused

/-! ### The invariant -/

/-- The list is one that was submitted, and a frozen view is frozen for it. -/
structure ViewInv (env : EngineEnv) (v : View) : Prop where
  list : ∃ entries, WellFormed entries ∧ v.requiredIlTxs = entries.map EngineTxMeta.hash ∧
    v.requiredIlMeta = metaByHash entries
  frozen : v.viewFrozen = true → ∃ slot, v.frozenSlot = some slot ∧ v.requiredIlSlot = some slot ∧
    v.frozenIlRoot = some (inclusionListRoot env v.requiredIlTxs)

theorem ViewInv.hashes {v : View} (hv : ViewInv env v) : ∀ hash ∈ v.requiredIlTxs, IsHash32 hash := by
  obtain ⟨entries, hentries, htxs, -⟩ := hv.list
  intro hash hhash
  rw [htxs] at hhash
  obtain ⟨entry, hentry, rfl⟩ := List.mem_map.mp hhash
  exact hentries.hash entry hentry

theorem viewInv_buildState (chainId startedAtUnixS : UInt64) :
    ViewInv env (view (buildState R chainId startedAtUnixS)) :=
  ⟨⟨[], WellFormed.nil, rfl, rfl⟩, fun h => Bool.noConfusion h⟩

theorem ViewInv.freezeView {s : NodeState Db} (hs : ViewInv env (view s)) {slot : UInt64}
    (hslot : s.engineRequiredIlSlot = some slot) : ViewInv env (view (Focil.freezeView (c.env env) s slot)) :=
  ⟨hs.list, fun _ => ⟨slot, rfl, hslot, rfl⟩⟩

/-- A list that is not refused in a view frozen for its slot has the frozen root. -/
theorem root_of_not_refuses {s : NodeState Db} {slot : UInt64} {entries : List EngineTxMeta}
    (h : refusesList (c.env env) s slot (some entries) = false) (hfrozen : s.engineFocilViewFrozen = true)
    (hslot : s.engineFocilFrozenSlot = some slot) :
    s.engineFocilFrozenIlRoot = some (inclusionListRoot env (entries.map EngineTxMeta.hash)) := by
  simp only [refusesList, hfrozen, hslot, beq_self_eq_true, Bool.and_self, Bool.true_and, Option.any_some,
    bne_eq_false_iff_eq] at h
  exact h.symm

theorem unfreezeOther_of_frozen {s : NodeState Db} {slot : UInt64}
    (h : (unfreezeOther s slot).engineFocilViewFrozen = true) :
    unfreezeOther s slot = s ∧ s.engineFocilFrozenSlot = some slot := by
  unfold unfreezeOther at h ⊢
  split_ifs at h ⊢ with hother
  refine ⟨rfl, ?_⟩
  by_contra hne
  exact hother ⟨h, hne⟩

theorem ViewInv.acceptUpdate {s : NodeState Db} (hs : ViewInv env (view s)) {slot : UInt64}
    {entries : Option (List EngineTxMeta)} (hentries : submittedEntries req = .ok entries)
    (hlist : refusesList (c.env env) s slot entries = false) :
    ViewInv env (view (Focil.acceptUpdate (c.env env) s req slot entries)) := by
  cases entries with
  | none =>
    refine ⟨?_, fun hfrozen => ?_⟩
    · simp only [view, Focil.acceptUpdate, unfreezeOther]
      split_ifs <;> exact hs.list
    · have hstill : (unfreezeOther s slot).engineFocilViewFrozen = true := hfrozen
      obtain ⟨hsame, -⟩ := unfreezeOther_of_frozen hstill
      simp only [view, Focil.acceptUpdate, hsame] at hfrozen ⊢
      exact hs.frozen hfrozen
  | some entries =>
    refine ⟨⟨entries, wellFormed_submittedEntries hentries, rfl, rfl⟩, fun hfrozen => ?_⟩
    have hstill : (unfreezeOther s slot).engineFocilViewFrozen = true := hfrozen
    obtain ⟨hsame, hslot⟩ := unfreezeOther_of_frozen hstill
    simp only [view, Focil.acceptUpdate, replaceList, hsame] at hfrozen ⊢
    exact ⟨slot, hslot, rfl, root_of_not_refuses hlist hfrozen hslot⟩

theorem viewInv_step (hs : ViewInv env (view s)) (h : step R env s c = some s') : ViewInv env (view s') := by
  obtain ⟨answer, h⟩ := step_eq_some.mp h
  rcases respond_cases h with hview | ⟨-, slot, -, hslot, rfl, -⟩ | ⟨req, entries, -, -, ⟨-, hentries, hlist⟩, hview⟩
  · rwa [hview]
  · exact hs.freezeView hslot
  · rw [hview]
    exact hs.acceptUpdate hentries hlist

theorem viewInv_run {chainId startedAtUnixS : UInt64} {calls : List EngineCall}
    (h : Run.exec (step R env) (buildState R chainId startedAtUnixS) calls = some s) : ViewInv env (view s) :=
  Run.invariant (I := fun m : NodeState R.Db => ViewInv env (view m)) (viewInv_buildState chainId startedAtUnixS)
    (fun _ _ _ hm hstep => viewInv_step hm hstep) h

/-! ### A frozen list keeps its hashes -/

/-- What the root of a list is the hash of. -/
def listText (hashes : List String) : List UInt8 := asBytes (String.intercalate "," hashes)

/-- What is hashed when lists are submitted to the node: its own list, and those of the requests. -/
def hashedTexts (s : NodeState Db) (calls : List EngineCall) : Set (List UInt8) :=
  {text | text = listText s.engineRequiredIlTxs ∨ ∃ c ∈ calls, ∃ req entries, c.request = .forkchoiceUpdated req ∧
    submittedEntries req = .ok (some entries) ∧ text = listText (entries.map EngineTxMeta.hash)}

/-- The request is a `forkchoiceUpdated` for another slot, and it is answered `VALID`. -/
def TakesUpOther (R : Revm) (env : EngineEnv) (slot : UInt64) (s : NodeState R.Db) (c : EngineCall) : Prop :=
  ∃ req answer s', c.request = .forkchoiceUpdated req ∧ fcSlot s req ≠ slot ∧
    respond R env s c = .ok (answer, s') ∧ Answered answer "VALID"

theorem eq_of_inclusionListRoot_eq {l l' : List String} (hl : ∀ h ∈ l, IsHash32 h) (hl' : ∀ h ∈ l', IsHash32 h)
    {texts : Set (List UInt8)} (hinj : Set.InjOn env.keccak256 texts) (hmem : listText l ∈ texts)
    (hmem' : listText l' ∈ texts) (h : inclusionListRoot env l = inclusionListRoot env l') : l = l' := by
  have hdigest : env.keccak256 (listText l) = env.keccak256 (listText l') :=
    List.Vector.toList_injective (bytesToHex_injective h)
  exact eq_of_joined_eq hl hl' (asBytes_injective (hinj hmem hmem' hdigest))

/-- The view is frozen for `slot` with the hashes `txs`. -/
structure FrozenWith (env : EngineEnv) (slot : UInt64) (txs : List String) (v : View) : Prop where
  inv : ViewInv env v
  frozen : v.viewFrozen = true
  slot : v.frozenSlot = some slot
  txs : v.requiredIlTxs = txs

theorem FrozenWith.root {slot : UInt64} {txs : List String} {v : View} (h : FrozenWith env slot txs v) :
    v.requiredIlSlot = some slot ∧ v.frozenIlRoot = some (inclusionListRoot env txs) := by
  obtain ⟨slot', hslot', hrequired, hroot⟩ := h.inv.frozen h.frozen
  obtain rfl := Option.some_inj.mp (hslot'.symm.trans h.slot)
  rw [h.txs] at hroot
  exact ⟨hrequired, hroot⟩

theorem FrozenWith.step {slot : UInt64} {txs : List String} {texts : Set (List UInt8)}
    (hs : FrozenWith env slot txs (view s)) (hinj : Set.InjOn env.keccak256 texts) (htxs : listText txs ∈ texts)
    (hc : ∀ req entries, c.request = .forkchoiceUpdated req → submittedEntries req = .ok (some entries) →
      listText (entries.map EngineTxMeta.hash) ∈ texts)
    (hother : ¬ TakesUpOther R env slot s c) (h : Focil.step R env s c = some s') :
    FrozenWith env slot txs (view s') := by
  have hinv := viewInv_step hs.inv h
  obtain ⟨answer, h⟩ := step_eq_some.mp h
  rcases respond_cases h with hview | ⟨-, slot', -, hslot', rfl, -⟩ | ⟨req, entries, hreq, hvalid, haccepts, hview⟩
  · rwa [hview]
  · have hslot : some slot' = some slot := hslot'.symm.trans hs.root.1
    exact ⟨hinv, rfl, hslot, hs.txs⟩
  · obtain ⟨-, hentries, hlist⟩ := haccepts
    -- the update is for the frozen slot, so the view stays frozen and the list was compared
    have hslot : fcSlot s req = slot := by
      by_contra hne
      exact hother ⟨req, answer, s', hreq, hne, h, hvalid⟩
    rw [hslot] at hlist hview
    have hsame : unfreezeOther s slot = s := if_neg fun hne => hne.2 hs.slot
    cases entries with
    | none =>
      simp only [view, acceptUpdate, hsame, View.mk.injEq] at hview
      obtain ⟨htxs', -, -, -, -, hfrozen', hslot', -⟩ := hview
      exact ⟨hinv, hfrozen'.trans hs.frozen, hslot'.trans hs.slot, htxs'.trans hs.txs⟩
    | some entries =>
      have hroot : inclusionListRoot env txs = inclusionListRoot env (entries.map EngineTxMeta.hash) :=
        Option.some_inj.mp (hs.root.2.symm.trans (root_of_not_refuses hlist hs.frozen hs.slot))
      have heq : txs = entries.map EngineTxMeta.hash := by
        refine eq_of_inclusionListRoot_eq (hs.txs ▸ hs.inv.hashes) ?_ hinj htxs (hc req entries hreq hentries) hroot
        intro hash hhash
        obtain ⟨entry, hentry, rfl⟩ := List.mem_map.mp hhash
        exact (wellFormed_submittedEntries hentries).hash entry hentry
      simp only [view, acceptUpdate, replaceList, hsame, View.mk.injEq] at hview
      obtain ⟨htxs', -, -, -, -, hfrozen', hslot', -⟩ := hview
      exact ⟨hinv, hfrozen'.trans hs.frozen, hslot'.trans hs.slot, htxs'.trans heq.symm⟩

theorem FrozenWith.run {slot : UInt64} {more : List EngineCall} (hs : FrozenWith env slot s.engineRequiredIlTxs (view s))
    (hinj : Set.InjOn env.keccak256 (hashedTexts s more))
    (hother : Run.Along (Focil.step R env) (fun m c => ¬ TakesUpOther R env slot m c) s more)
    (h : Run.exec (Focil.step R env) s more = some s') : FrozenWith env slot s.engineRequiredIlTxs (view s') := by
  refine Run.invariant_along (C := fun m c => c ∈ more ∧ ¬ TakesUpOther R env slot m c)
    (I := fun m : NodeState R.Db => FrozenWith env slot s.engineRequiredIlTxs (view m)) hs ?_ ?_ h
  · rintro m c m' hm ⟨hc, hother⟩ hstep
    refine hm.step hinj (.inl rfl) ?_ hother hstep
    intro req entries hreq hentries
    exact .inr ⟨c, hc, req, entries, hreq, hentries, rfl⟩
  · rintro pre c post rfl m hm
    exact ⟨by simp, hother pre c post rfl m hm⟩

theorem view_freeze_invariant (R : Revm) (env : EngineEnv) (chainId startedAtUnixS : UInt64) (calls : List EngineCall)
    (s : NodeState R.Db) (h : Run.exec (step R env) (buildState R chainId startedAtUnixS) calls = some s) :
    (s.engineFocilViewFrozen = true →
      ∃ slot, s.engineFocilFrozenSlot = some slot ∧ s.engineRequiredIlSlot = some slot ∧
        s.engineFocilFrozenIlRoot = some (inclusionListRoot env s.engineRequiredIlTxs)) ∧
    (∀ slot more s', s.engineFocilViewFrozen = true → s.engineFocilFrozenSlot = some slot →
      Set.InjOn env.keccak256 (hashedTexts s more) →
      Run.Along (step R env) (fun m c => ¬ TakesUpOther R env slot m c) s more →
      Run.exec (step R env) s more = some s' → s'.engineRequiredIlTxs = s.engineRequiredIlTxs) ∧
    (∀ c answer s', respond R env s c = .ok (answer, s') →
      Answered answer "INVALID" ∨ Answered answer "INCLUSION_LIST_UNSATISFIED" → view s' = view s) := by
  have hinv := viewInv_run h
  refine ⟨hinv.frozen, ?_, fun c answer s' => view_of_refused⟩
  intro slot more s' hfrozen hslot hinj hother hmore
  exact (FrozenWith.run ⟨hinv, hfrozen, hslot, rfl⟩ hinj hother hmore).txs

/-- The digest of the one list that is hashed below. -/
def oneListEnv : EngineEnv :=
  ⟨fun _ => .ofNat 32 0x558f2ebac318c8ff6b2c77a8f9d4e90ef4241c8b772d8e53cf065e8a2ac4307b, fun _ => none, 1772409700,
    .stored⟩

def submit (slot : Int) (items : List Json) : EngineCall :=
  ⟨.forkchoiceUpdated (.object [("payloadAttributes", .object [("slot", .number slot),
    ("inclusionListTransactions", .array items)])]), 1772409700, .stored⟩

def serve (slot : Int) : EngineCall := ⟨.getInclusionList (.object [("slot", .number slot)]), 1772409700, .stored⟩

def someTx : String := "0xabababababababababababababababababababababababababababababababab"

/-- A list is handed in, served and handed in again: it stays. -/
theorem view_freeze_invariant_resubmitted :
    ∃ s s', Run.exec (step accountsOnly oneListEnv) (buildState accountsOnly 2077001 1772409600)
        [submit 42 [.string someTx], serve 42] = some s ∧
      s.engineFocilFrozenIlRoot = some (inclusionListRoot oneListEnv [someTx]) ∧
      Run.exec (step accountsOnly oneListEnv) s [submit 42 [.string someTx]] = some s' ∧
      s'.engineRequiredIlTxs = [someTx] := by
  obtain ⟨hfrozen, hkeeps, -⟩ := view_freeze_invariant accountsOnly oneListEnv 2077001 1772409600
    [submit 42 [.string someTx], serve 42] _ rfl
  obtain ⟨slot, -, -, hroot⟩ := hfrozen rfl
  refine ⟨_, _, rfl, hroot, rfl, hkeeps 42 [submit 42 [.string someTx]] _ rfl rfl ?_ ?_ rfl⟩
  · refine (Set.injOn_singleton _ (listText [someTx])).mono ?_
    rintro text (rfl | ⟨c, hc, req, entries, hreq, hentries, rfl⟩)
    · rfl
    · obtain rfl := List.mem_singleton.mp hc
      cases hreq
      cases hentries
      rfl
  · refine .cons ?_ rfl Run.along_nil
    rintro ⟨req, answer, s', hreq, hne, -⟩
    cases hreq
    exact hne rfl

/-! ### The details of a served list -/

/-- What is served, and what a payload is checked against: the hashes, each with its details. -/
def servedList (s : NodeState Db) : List (String × Option EngineTxMeta) :=
  s.engineRequiredIlTxs.map fun hash => (hash, s.engineRequiredIlMeta.lookup hash)

/-- In `m` the request uses for `slot` the list that was served in `m₀` with `answer₀`. -/
def UsesServedList (env : EngineEnv) (slot : UInt64) (m₀ : NodeState Db) (answer₀ : Json) (m : NodeState Db)
    (c : EngineCall) : Prop :=
  match c.request with
  | .getInclusionList req =>
    m.engineRequiredIlSlot = some slot → requestedSlot m req = slot →
      servedList m = servedList m₀ ∧
        ((getInclusionListResponse (c.env env) m req).1.get "transactions" = answer₀.get "transactions" ∧
          (getInclusionListResponse (c.env env) m req).1.get "transactionDetails" = answer₀.get "transactionDetails")
  | .newPayload _ =>
    m.engineFocilViewFrozen = true → m.engineFocilFrozenSlot = some slot → servedList m = servedList m₀
  | _ => True

/-- A list the node accepts for `slot` repeats the served one, details included. -/
def RepeatsList (env : EngineEnv) (slot : UInt64) (served : List (String × Option EngineTxMeta)) (s : NodeState Db)
    (c : EngineCall) : Prop :=
  ∀ req entries, c.request = .forkchoiceUpdated req → fcSlot s req = slot →
    Accepts (c.env env) s req (some entries) → entries.map (fun entry => (entry.hash, some entry)) = served

theorem servedList_of_entries {s : NodeState Db} {entries : List EngineTxMeta} (hentries : WellFormed entries)
    (htxs : s.engineRequiredIlTxs = entries.map EngineTxMeta.hash) (hmeta : s.engineRequiredIlMeta = metaByHash entries) :
    servedList s = entries.map fun entry => (entry.hash, some entry) := by
  unfold servedList
  rw [htxs, hmeta, List.map_map]
  refine List.map_congr_left fun entry hentry => ?_
  simp only [Function.comp_apply, Prod.mk.injEq, true_and]
  exact (lookup_metaByHash hentries.nodup).mpr ⟨hentry, rfl⟩

theorem transactionDetails_eq (s : NodeState Db) : transactionDetails s = (servedList s).filterMap Prod.snd := by
  simp [transactionDetails, servedList, List.filterMap_map]

theorem txs_eq (s : NodeState Db) : s.engineRequiredIlTxs = (servedList s).map Prod.fst := by
  simp [servedList, Function.comp_def]

theorem getInclusionList_transactions (env : EngineEnv) (s : NodeState Db) (req : Json) :
    (getInclusionListResponse env s req).1.get "transactions" =
        some (.array (((servedList s).map Prod.fst).map .string)) ∧
      (getInclusionListResponse env s req).1.get "transactionDetails" =
        some (.array (((servedList s).filterMap Prod.snd).map txMetaToJson)) := by
  rw [← txs_eq, ← transactionDetails_eq]
  unfold getInclusionListResponse
  dsimp only
  split_ifs <;> simp [Json.get, Json.asObject, List.lookup_cons, freezeView, transactionDetails]

/-- The list of `slot`, whenever the node holds it, is the served one. -/
def HoldsServed (slot : UInt64) (served : List (String × Option EngineTxMeta)) (s : NodeState Db) : Prop :=
  s.engineRequiredIlSlot = some slot → servedList s = served

theorem HoldsServed.of_view {slot : UInt64} {served : List (String × Option EngineTxMeta)} {s s' : NodeState Db}
    (h : HoldsServed slot served s) (hview : view s' = view s) : HoldsServed slot served s' := by
  simp only [view, View.mk.injEq] at hview
  obtain ⟨htxs, hmeta, hslot, -⟩ := hview
  intro hrequired
  rw [hslot] at hrequired
  unfold servedList
  rw [htxs, hmeta]
  exact h hrequired

theorem holdsServed_acceptUpdate {slot slot' : UInt64} {served : List (String × Option EngineTxMeta)}
    {s : NodeState Db} {entries : List EngineTxMeta} (hentries : submittedEntries req = .ok (some entries)) :
    HoldsServed slot served (acceptUpdate (c.env env) s req slot' (some entries)) ↔
      (slot' = slot → entries.map (fun entry => (entry.hash, some entry)) = served) := by
  have hlist : servedList (acceptUpdate (c.env env) s req slot' (some entries)) =
      entries.map fun entry => (entry.hash, some entry) :=
    servedList_of_entries (wellFormed_submittedEntries hentries) rfl rfl
  have hslot : (acceptUpdate (c.env env) s req slot' (some entries)).engineRequiredIlSlot = some slot' := rfl
  rw [HoldsServed, hlist, hslot, Option.some_inj]

theorem holdsServed_step {slot : UInt64} {served : List (String × Option EngineTxMeta)}
    (hs : HoldsServed slot served s) (hc : RepeatsList env slot served s c) (h : step R env s c = some s') :
    HoldsServed slot served s' := by
  obtain ⟨answer, h⟩ := step_eq_some.mp h
  rcases respond_cases h with hview | ⟨-, slot', -, -, rfl, -⟩ | ⟨req, entries, hreq, -, haccepts, hview⟩
  · exact hs.of_view hview
  · exact hs
  · cases entries with
    | none =>
      have hkept : HoldsServed slot served (acceptUpdate (c.env env) s req (fcSlot s req) none) := by
        unfold HoldsServed servedList acceptUpdate unfreezeOther
        dsimp only
        split_ifs <;> exact hs
      exact hkept.of_view hview
    | some entries =>
      refine HoldsServed.of_view ((holdsServed_acceptUpdate haccepts.2.1).mpr ?_) hview
      intro hslot
      exact hc req entries hreq hslot haccepts

/-- An accepted list that differs is held for the slot. -/
theorem repeatsList_of_step {slot : UInt64} {served : List (String × Option EngineTxMeta)}
    (h : step R env s c = some s') (hs' : HoldsServed slot served s') : RepeatsList env slot served s c := by
  intro req entries hreq hslot haccepts
  obtain ⟨answer, h⟩ := step_eq_some.mp h
  have hresponse : forkchoiceUpdatedResponse (c.env env) s req = .ok (answer, s') := by
    simpa [respond, hreq] using h
  have hheld := hs'.of_view (view_of_accepts haccepts hresponse).symm
  exact (holdsServed_acceptUpdate haccepts.2.1).mp hheld hslot

/-- Asking for the list of the slot shows what the node holds for it. -/
theorem holdsServed_iff {slot : UInt64} {m₀ m : NodeState Db} {answer₀ : Json}
    (hanswer : answer₀.get "transactions" = some (.array (((servedList m₀).map Prod.fst).map .string)) ∧
      answer₀.get "transactionDetails" = some (.array (((servedList m₀).filterMap Prod.snd).map txMetaToJson)))
    (hm : ViewInv env (view m)) :
    HoldsServed slot (servedList m₀) m ↔ ∀ c, UsesServedList env slot m₀ answer₀ m c := by
  constructor
  · rintro h ⟨request, now, order⟩
    cases request with
    | getInclusionList req =>
      intro hrequired _
      have hlist := h hrequired
      obtain ⟨htxs, hdetails⟩ := getInclusionList_transactions
        (EngineCall.env ⟨.getInclusionList req, now, order⟩ env) m req
      rw [hlist] at htxs hdetails
      exact ⟨hlist, htxs.trans hanswer.1.symm, hdetails.trans hanswer.2.symm⟩
    | newPayload req =>
      intro hfrozen hslot
      obtain ⟨slot', hslot', hrequired, -⟩ := hm.frozen hfrozen
      exact h (hrequired.trans (hslot'.symm.trans hslot))
    | forkchoiceUpdated req => trivial
    | register registration => trivial
    | tick => trivial
  · intro h hrequired
    -- a request that names no slot is about the slot of the list
    have hask : requestedSlot m (.object []) = slot := by
      simp [requestedSlot, requestParam, defaultSlot, Json.get, Json.asObject, hrequired]
    exact (h ⟨.getInclusionList (.object []), 0, .stored⟩ hrequired hask).1

theorem served_list_final_iff (R : Revm) (env : EngineEnv) (chainId startedAtUnixS : UInt64) (before : List EngineCall)
    (m₀ m₁ : NodeState R.Db) (hm₀ : Run.exec (step R env) (buildState R chainId startedAtUnixS) before = some m₀)
    (c₀ : EngineCall) (req : Json) (hc₀ : c₀.request = .getInclusionList req) (slot : UInt64)
    (hslot : m₀.engineRequiredIlSlot = some slot) (hreq : requestedSlot m₀ req = slot) (answer₀ : Json)
    (hserved : respond R env m₀ c₀ = .ok (answer₀, m₁)) (after : List EngineCall)
    (hafter : (Run.exec (step R env) m₁ after).isSome) :
    Run.Throughout (step R env) (fun m => ∀ c, UsesServedList env slot m₀ answer₀ m c) m₁ after ↔
      Run.Along (step R env) (RepeatsList env slot (servedList m₀)) m₁ after := by
  have hinv₀ := viewInv_run hm₀
  have hinv₁ := viewInv_step hinv₀ (step_eq_some.mpr ⟨answer₀, hserved⟩)
  have hresponse : getInclusionListResponse (c₀.env env) m₀ req = (answer₀, m₁) := by
    simpa [respond, hc₀] using hserved
  have hanswer := getInclusionList_transactions (c₀.env env) m₀ req
  rw [hresponse] at hanswer
  have hheld : HoldsServed slot (servedList m₀) m₁ := by
    obtain rfl : freezeView (c₀.env env) m₀ slot = m₁ := by
      have := congrArg Prod.snd hresponse
      simpa [getInclusionListResponse, hreq, hslot] using this
    exact fun _ => rfl
  refine Run.throughout_iff_along (I := fun m => ViewInv env (view m) ∧ HoldsServed slot (servedList m₀) m)
    (A := fun m => ViewInv env (view m)) hafter ⟨hinv₁, hheld⟩ ?_ ?_ hinv₁ (fun _ _ _ hm h => viewInv_step hm h) ?_
  · rintro m c m' ⟨hm, hholds⟩ hc h
    exact ⟨viewInv_step hm h, holdsServed_step hholds hc h⟩
  · rintro m ⟨hm, hholds⟩
    exact (holdsServed_iff hanswer hm).mp hholds
  · intro m c m' hm _ h hm'
    exact repeatsList_of_step h ((holdsServed_iff hanswer (viewInv_step hm h)).mpr hm')

/-- The list of slot 42 is served, handed in once more and served again. -/
theorem served_list_final_iff_resubmitted :
    ∃ m₀ m₁ answer₀,
      Run.exec (step accountsOnly oneListEnv) (buildState accountsOnly 2077001 1772409600)
        [submit 42 [.string someTx]] = some m₀ ∧
      respond accountsOnly oneListEnv m₀ (serve 42) = .ok (answer₀, m₁) ∧
      Run.Throughout (step accountsOnly oneListEnv) (fun m => ∀ c, UsesServedList oneListEnv 42 m₀ answer₀ m c) m₁
        [submit 42 [.string someTx], serve 42] := by
  refine ⟨_, _, _, rfl, rfl, (served_list_final_iff accountsOnly oneListEnv 2077001 1772409600
    [submit 42 [.string someTx]] _ _ rfl (serve 42) _ rfl 42 rfl rfl _ rfl
    [submit 42 [.string someTx], serve 42] rfl).mpr ?_⟩
  refine .cons ?_ rfl (.cons ?_ rfl Run.along_nil)
  · rintro req entries hreq - ⟨-, hentries, -⟩
    cases hreq
    cases hentries
    rfl
  · rintro req entries hreq
    cases hreq

/-- The same hash with a nonce: the root is the same, so the frozen view takes it, and the next answer and
the next payload are about a nonce nobody was told. -/
theorem served_details_replaced :
    ∃ m₀ m₁ m₂ answer₀,
      Run.exec (step accountsOnly oneListEnv) (buildState accountsOnly 2077001 1772409600)
        [submit 42 [.string someTx]] = some m₀ ∧
      respond accountsOnly oneListEnv m₀ (serve 42) = .ok (answer₀, m₁) ∧
      Run.exec (step accountsOnly oneListEnv) m₁
        [submit 42 [.object [("hash", .string someTx), ("nonce", .number 7)]]] = some m₂ ∧
      m₁.engineFocilViewFrozen = true ∧ m₂.engineFocilViewFrozen = true ∧ m₂.engineFocilFrozenSlot = some 42 ∧
      transactionDetails m₀ = [{ hash := someTx }] ∧ transactionDetails m₂ = [{ hash := someTx, nonce := some 7 }] ∧
      ¬ UsesServedList oneListEnv 42 m₀ answer₀ m₂ (serve 42) ∧
      ¬ UsesServedList oneListEnv 42 m₀ answer₀ m₂ ⟨.newPayload (.object []), 1772409700, .stored⟩ := by
  refine ⟨_, _, _, _, rfl, rfl, rfl, rfl, rfl, rfl, rfl, rfl, fun h => ?_, fun h => ?_⟩
  · exact absurd (h rfl rfl).1 (by decide)
  · exact absurd (h rfl rfl) (by decide)

end Focil

end Eth2077
