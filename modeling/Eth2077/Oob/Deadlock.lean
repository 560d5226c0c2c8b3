import Eth2077.Oob.Liveness

/-!
# Locks that no quorum can follow

An engine that is locked prevotes its lock whatever is proposed, and a proposal does not say why the engine
should let go of it. So a block gets the prevotes of the members that are locked on it, of the unlocked ones
if a leader proposes it, and of whoever does not follow the protocol. If no block can get a quorum that way when
a round starts, the height is stuck: no message and no timeout ever leads to a lock or to a finalised block
again (`hung_never_finalizes`). A single early timeout is enough for that, with nobody faulty and everything
delivered afterwards.
-/

namespace Eth2077
open ConsensusEngine

namespace Network
variable (N : Network) (fresh : B256 → Prop) (r : UInt32)

/-- Votes of `v` come from outside. -/
def Outside (v : UInt64) : Prop := ∃ msg, N.external msg = true ∧ voter? msg = some v

/-- Member `v`, with the lock it has in `s`, may prevote `b`, if only `fresh` blocks are proposed. -/
def Backs (s : Net) (b : B256) (v : UInt64) : Prop :=
  N.Outside v ∨ v ∈ N.honest ∧
    ((s.nodes v).engine.state.lockedHash = some b ∨ (s.nodes v).engine.state.lockedHash = none ∧ fresh b)

/-- Round `r` starts, and no block has enough members that may vote for it. -/
structure Hung (s : Net) : Prop where
  sent : ∀ msg ∈ s.sent, msg.round < r
  round : ∀ i ∈ N.honest, r ≤ (s.nodes i).engine.state.round
  step : ∀ i ∈ N.honest, (s.nodes i).engine.state.step ≠ .committed
  events : ∀ i ∈ N.honest, ∀ ev ∈ (s.nodes i).events, Inert ev
  quorum : ∀ b A, (∀ v ∈ A, N.Backs fresh s b v) →
    N.validatorSet.weights.of A < N.validatorSet.quorumWeight.toNat
  fast : 0 < N.fastPathConfig.optimisticThreshold → ∀ b (A : Finset UInt64), (∀ v ∈ A, N.Backs fresh s b v) →
    A.card < N.fastPathConfig.optimisticThreshold

/-- From round `r` on the leaders propose `fresh` blocks only. -/
def ProposesFresh : Prop :=
  ∀ ρ b, r ≤ ρ → N.external (.proposal N.height ρ b (N.leader ρ)) = true → fresh b

/-- What may be broadcast when the network hangs in `s`. -/
def Cast (s : Net) : ConsensusMessage → Prop
  | .proposal _ _ _ _ => False
  | .prevote _ _ b v => ∀ h, b = some h → N.Backs fresh s h v
  | .precommit _ _ b v => ∀ h, b = some h → N.Outside v

/-- A node of the network that hangs since `s`. -/
structure Hanging (s : Net) (sent : List ConsensusMessage) (i : UInt64) (n : Node) : Prop where
  ok : EngineOk N sent n.engine
  round : r ≤ n.engine.state.round
  step : n.engine.state.step ≠ .committed
  lockedHash : n.engine.state.lockedHash = (s.nodes i).engine.state.lockedHash
  events : ∀ ev ∈ n.events, Inert ev ∨ ∃ ρ b, ev = .sendPrevote N.height ρ (some b) ∧ N.Backs fresh s b i

/-- The network hangs since `s₀`. -/
structure HangInv (s₀ s : Net) : Prop where
  sent : ∀ msg ∈ s.sent, r ≤ msg.round → N.Cast fresh s₀ msg
  nodes : ∀ i ∈ N.honest, N.Hanging fresh r s₀ s.sent i (s.nodes i)
  log : ∀ entry ∈ s.log, entry ∈ s₀.log ∨ ∀ ev ∈ entry.events, isFinalized ev = false

variable {N} {fresh} {r} {s₀ s s' : Net} {sent : List ConsensusMessage} {i : UInt64} {n : Node}
  {e e' : ConsensusEngine} {msg : ConsensusMessage} {c : Call} {evs : List ConsensusEvent} {b : B256} {ρ : UInt32}

/-! ### One step of the network -/

/-- What a node broadcasts for an event. -/
def voteFor (i : UInt64) : ConsensusEvent → Option ConsensusMessage
  | .sendPrevote height round b => some (.prevote height round b i)
  | .sendPrecommit height round b => some (.precommit height round b i)
  | _ => none

/-- Everything one step can do. -/
inductive NetStep (N : Network) (s : Net) : Net → Prop
  | call (i : UInt64) (c : Call) (hi : i ∈ N.honest) (hn : c.isStart = false)
      (hmsg : ∀ ord msg, c = .onMessage ord msg → N.Deliverable s.sent msg) : NetStep N s (s.run i c)
  | drop (i : UInt64) (hi : i ∈ N.honest) : NetStep N s (s.pop i)
  | say (i : UInt64) (ord : TallyOrder) (ev : ConsensusEvent) (msg : ConsensusMessage) (hi : i ∈ N.honest)
      (hev : ev ∈ (s.nodes i).events) (hvote : voteFor i ev = some msg) : NetStep N s ((s.pop i).say i ord msg)

theorem netStep {l : Label} (hstep : N.step? s l = some s') : NetStep N s s' := by
  cases l with
  | deliver i ord msg =>
    simp only [step?] at hstep
    split_ifs at hstep with hcan
    cases hstep
    refine .call i _ hcan.1 rfl fun ord' msg' heq => ?_
    cases heq
    exact hcan.2.2
  | timeout i =>
    simp only [step?] at hstep
    split_ifs at hstep with hcan
    cases hstep
    exact .call i _ hcan.1 rfl fun ord msg heq => by cases heq
  | process i ord =>
    simp only [step?] at hstep
    split_ifs at hstep with hi
    cases hlast : (s.nodes i).events.getLast? with
    | none =>
      rw [hlast] at hstep
      cases hstep
    | some ev =>
      rw [hlast] at hstep
      have hev := List.mem_of_getLast? hlast
      cases ev with
      | sendPrevote height round b | sendPrecommit height round b =>
        cases hstep
        exact .say i ord _ _ hi hev rfl
      | _ =>
        cases hstep
        exact .drop i hi

/-! ### Reachable engines -/

theorem engineOk_step (hok : ∀ i ∈ N.honest, EngineOk N s.sent (s.nodes i).engine) (hstep : NetStep N s s') :
    ∀ i ∈ N.honest, EngineOk N s'.sent (s'.nodes i).engine := by
  intro j hj
  cases hstep with
  | call i c hi hn hmsg =>
    by_cases hij : j = i
    · subst hij
      simpa [Net.run] using (hok j hj).call hn hmsg
    · simpa [Net.run, Function.update_of_ne hij] using hok j hj
  | drop i hi =>
    by_cases hij : j = i
    · subst hij
      simpa [Net.pop] using hok j hj
    · simpa [Net.pop, Function.update_of_ne hij] using hok j hj
  | say i ord ev msg hi hev hvote =>
    have hj' : EngineOk N (msg :: s.sent) (s.nodes j).engine := (hok j hj).mono (List.subset_cons_self ..)
    by_cases hij : j = i
    · subst hij
      have hcall : EngineOk N (msg :: s.sent) ((s.nodes j).engine.call (.onMessage ord msg)).1 :=
        hj'.call rfl fun ord' msg' heq => by
          cases heq
          exact .inl (List.mem_cons_self ..)
      simpa [Net.say, Net.run, Net.pop] using hcall
    · simpa [Net.say, Net.run, Net.pop, Function.update_of_ne hij] using hj'

/-- The engines of the members hold only votes that were delivered. -/
theorem engineOk_of_exec {ls : List Label} (hrun : Run.exec N.step? N.init ls = some s) :
    ∀ i ∈ N.honest, EngineOk N s.sent (s.nodes i).engine :=
  Run.invariant (I := fun s : Net => ∀ i ∈ N.honest, EngineOk N s.sent (s.nodes i).engine)
    (fun _ _ => ⟨inv_startHeight _ _, rfl, rfl, rfl, .of_empty rfl rfl⟩)
    (fun _ _ _ hok hstep => engineOk_step hok (netStep hstep)) hrun

/-! ### No block has a quorum -/

theorem Outside.backs {v : UInt64} (h : N.Outside v) (b : B256) : N.Backs fresh s₀ b v := .inl h

section Votes
variable (hsent : ∀ msg ∈ sent, r ≤ msg.round → N.Cast fresh s₀ msg) (hok : EngineOk N sent e) (hρ : r ≤ ρ)
include hsent hok hρ

theorem backs_of_prevote {v : UInt64} (hl : e.state.prevotes.lookup (ρ, v) = some (some b)) :
    N.Backs fresh s₀ b v := by
  rcases hok.stored.prevotes ρ v _ hl with hmem | hext
  · exact hsent _ hmem hρ b rfl
  · exact .inl ⟨_, hext, rfl⟩

theorem outside_of_precommit {v : UInt64} (hl : e.state.precommits.lookup (ρ, v) = some (some b)) : N.Outside v := by
  rcases hok.stored.precommits ρ v _ hl with hmem | hext
  · exact hsent _ hmem hρ b rfl
  · exact ⟨_, hext, rfl⟩

theorem not_prevotesReach (hung : N.Hung fresh r s₀) : ¬ e.PrevotesReach ρ b := by
  rw [PrevotesReach, hok.validatorSet, not_le]
  exact hung.quorum b _ fun v hv => backs_of_prevote hsent hok hρ (Votes.mem_voters.mp hv)

theorem not_precommitsReach (hung : N.Hung fresh r s₀) : ¬ e.PrecommitsReach ρ b := by
  rw [PrecommitsReach, hok.validatorSet, not_le]
  exact hung.quorum b _ fun v hv => (outside_of_precommit hsent hok hρ (Votes.mem_voters.mp hv)).backs b

end Votes

/-! ### One step of a hanging node -/

/-- What a hanging engine may do: it stays in its round or goes on to the next, and prevotes what it backs. -/
structure Idles (N : Network) (fresh : B256 → Prop) (r : UInt32) (s₀ : Net) (i : UInt64) (e e' : ConsensusEngine)
    (evs : List ConsensusEvent) : Prop where
  round : r ≤ e'.state.round
  step : e'.state.step ≠ .committed
  lockedHash : e'.state.lockedHash = e.state.lockedHash
  events : ∀ ev ∈ evs, isFinalized ev = false ∧
    (Inert ev ∨ ∃ ρ b, ev = .sendPrevote N.height ρ (some b) ∧ N.Backs fresh s₀ b i)

section Node
variable (h : N.Hanging fresh r s₀ sent i n) (hung : N.Hung fresh r s₀) (hfresh : N.ProposesFresh fresh r)
  (hsent : ∀ msg ∈ sent, r ≤ msg.round → N.Cast fresh s₀ msg) (hi : i ∈ N.honest)
include h hung hfresh hsent hi

theorem Hanging.idles_message (hmsg : N.Deliverable sent msg) (hok : EngineOk N sent e')
    (hstep : MessageStep n.engine msg e' evs) : N.Idles fresh r s₀ i n.engine e' evs := by
  cases hstep with
  | ignored => exact ⟨h.round, h.step, rfl, List.forall_mem_nil _⟩
  | prevote b v | precommit b v => exact ⟨h.round, h.step, rfl, List.forall_mem_nil _⟩
  | lock b v q _ _ quorum | relock b v q _ _ quorum =>
    exact (not_prevotesReach hsent hok h.round hung quorum).elim
  | commit b v q _ _ quorum => exact (not_precommitsReach hsent hok h.round hung quorum).elim
  | fastFinalize b v p _ hnew fast =>
    obtain ⟨hpos, A, hcard, hA⟩ := h.ok.inv.fast_quorum hnew fast
    rw [h.ok.config] at hpos hcard
    have hlt := hung.fast hpos b A fun v hv => backs_of_prevote hsent hok h.round (hA v hv)
    omega
  | proposal b hprop =>
    refine ⟨h.round, nofun, rfl, fun ev hev => ?_⟩
    obtain rfl := List.mem_singleton.mp hev
    refine ⟨rfl, .inr ⟨_, _, by rw [h.ok.height], .inr ⟨hi, ?_⟩⟩⟩
    rw [← h.lockedHash]
    cases hlock : n.engine.state.lockedHash with
    | some b' => exact .inl rfl
    | none =>
      refine .inr ⟨rfl, hfresh n.engine.state.round b h.round ?_⟩
      rw [leader, ← h.ok.height, ← h.ok.validatorSet, ← hprop]
      rcases hmsg with hmem | hext
      · have hcast := hsent msg hmem (by rw [hprop]; exact h.round)
        rw [hprop] at hcast
        exact hcast.elim
      · exact hext

theorem Hanging.idles (hn : c.isStart = false) (hmsg : ∀ ord msg, c = .onMessage ord msg → N.Deliverable sent msg)
    (hok : EngineOk N sent e') (hstep : CallStep n.engine c e' evs) : N.Idles fresh r s₀ i n.engine e' evs := by
  cases hstep with
  | start height => cases hn
  | message ord msg step => exact h.idles_message hung hfresh hsent hi (hmsg ord msg rfl) hok step
  | late hc => exact absurd hc h.step
  | timeout hc =>
    refine ⟨UInt32.le_trans h.round ?_, nofun, rfl, ?_⟩
    · rw [UInt32.le_iff_toNat_le]
      exact UInt32.le_toNat_saturatingAdd _ _
    · rintro ev (_ | ⟨_, _ | ⟨_, ⟨⟩⟩⟩)
      · exact ⟨rfl, .inl trivial⟩
      · exact ⟨rfl, .inl trivial⟩

/-- A call leaves a hanging node hanging. -/
theorem Hanging.call (hn : c.isStart = false)
    (hmsg : ∀ ord msg, c = .onMessage ord msg → N.Deliverable sent msg) :
    N.Hanging fresh r s₀ sent i ⟨(n.engine.call c).1, n.events ++ (n.engine.call c).2⟩ ∧
      ∀ ev ∈ (n.engine.call c).2, isFinalized ev = false := by
  have hok := h.ok.call hn hmsg
  have hidles := h.idles hung hfresh hsent hi hn hmsg hok (n.engine.call_step c)
  refine ⟨⟨hok, hidles.round, hidles.step, hidles.lockedHash.trans h.lockedHash, fun ev hev => ?_⟩,
    fun ev hev => (hidles.events ev hev).1⟩
  rcases List.mem_append.mp hev with hev | hev
  · exact h.events ev hev
  · exact (hidles.events ev hev).2

end Node

/-! ### The network hangs -/

section Hang
variable (hung : N.Hung fresh r s₀) (hfresh : N.ProposesFresh fresh r)
include hung hfresh

theorem HangInv.run (hinv : N.HangInv fresh r s₀ s) (hi : i ∈ N.honest) (hn : c.isStart = false)
    (hmsg : ∀ ord msg, c = .onMessage ord msg → N.Deliverable s.sent msg) : N.HangInv fresh r s₀ (s.run i c) := by
  obtain ⟨hnode, hquiet⟩ := (hinv.nodes i hi).call hung hfresh hinv.sent hi hn hmsg
  refine ⟨hinv.sent, fun j hj => ?_, fun entry hentry => ?_⟩
  · by_cases hij : j = i
    · subst hij
      simpa [Net.run] using hnode
    · simpa [Net.run, Function.update_of_ne hij] using hinv.nodes j hj
  · rcases List.mem_cons.mp hentry with rfl | hentry
    · exact .inr hquiet
    · exact hinv.log entry hentry

omit hung hfresh in
theorem HangInv.pop (hinv : N.HangInv fresh r s₀ s) (i : UInt64) : N.HangInv fresh r s₀ (s.pop i) := by
  refine ⟨hinv.sent, fun j hj => ?_, hinv.log⟩
  have hnode := hinv.nodes j hj
  by_cases hij : j = i
  · subst hij
    have hpop : (s.pop j).nodes j = ⟨(s.nodes j).engine, (s.nodes j).events.dropLast⟩ := by simp [Net.pop]
    rw [hpop]
    exact ⟨hnode.ok, hnode.round, hnode.step, hnode.lockedHash, fun ev hev =>
      hnode.events ev (List.mem_of_mem_dropLast hev)⟩
  · simpa [Net.pop, Function.update_of_ne hij] using hnode

omit hung hfresh in
theorem HangInv.said (hinv : N.HangInv fresh r s₀ s) (hcast : N.Cast fresh s₀ msg) :
    N.HangInv fresh r s₀ { s with sent := msg :: s.sent } := by
  refine ⟨fun m hm => ?_, fun j hj => ?_, hinv.log⟩
  · rcases List.mem_cons.mp hm with rfl | hm
    · exact fun _ => hcast
    · exact hinv.sent m hm
  · have hnode := hinv.nodes j hj
    exact ⟨hnode.ok.mono (List.subset_cons_self ..), hnode.round, hnode.step, hnode.lockedHash, hnode.events⟩

theorem HangInv.step (hinv : N.HangInv fresh r s₀ s) (hstep : NetStep N s s') : N.HangInv fresh r s₀ s' := by
  cases hstep with
  | call i c hi hn hmsg => exact hinv.run hung hfresh hi hn hmsg
  | drop i hi => exact hinv.pop i
  | say i ord ev msg hi hev hvote =>
    have hcast : N.Cast fresh s₀ msg := by
      rcases (hinv.nodes i hi).events ev hev with hinert | ⟨ρ, b, rfl, hbacks⟩
      · cases ev with
        | sendPrevote | sendPrecommit => exact hinert.elim
        | _ => cases hvote
      · cases hvote
        intro h heq
        cases heq
        exact hbacks
    refine ((hinv.pop i).said hcast).run hung hfresh hi rfl fun ord' msg' heq => ?_
    cases heq
    exact .inl (List.mem_cons_self ..)

end Hang

theorem HangInv.start (hung : N.Hung fresh r s₀)
    (hok : ∀ i ∈ N.honest, EngineOk N s₀.sent (s₀.nodes i).engine) :
    N.HangInv fresh r s₀ s₀ where
  sent msg hmem hr := absurd hr (UInt32.not_le.mpr (hung.sent msg hmem))
  nodes i hi := ⟨hok i hi, hung.round i hi, hung.step i hi, rfl, fun ev hev => .inl (hung.events i hi ev hev)⟩
  log _ hentry := .inl hentry

/-- Once no block can get a quorum, no member ever finalises one or changes its lock, in whatever order messages and
timeouts come. -/
theorem hung_never_finalizes (N : Network) (fresh : B256 → Prop) (r : UInt32) (s₀ s : Net) (pre ls : List Label)
    (hpre : Run.exec N.step? N.init pre = some s₀) (hung : N.Hung fresh r s₀) (hfresh : N.ProposesFresh fresh r)
    (hrun : Run.exec N.step? s₀ ls = some s) :
    (∀ i ∈ N.honest, (s.nodes i).engine.state.step ≠ .committed ∧
      (s.nodes i).engine.state.lockedHash = (s₀.nodes i).engine.state.lockedHash) ∧
    ∀ i height b ρ, s.Finalized i height b ρ → s₀.Finalized i height b ρ := by
  have hinv : N.HangInv fresh r s₀ s :=
    Run.invariant (I := N.HangInv fresh r s₀) (.start hung (engineOk_of_exec hpre))
      (fun _ _ _ h hstep => h.step hung hfresh (netStep hstep)) hrun
  refine ⟨fun i hi => ⟨(hinv.nodes i hi).step, (hinv.nodes i hi).lockedHash⟩, ?_⟩
  rintro i height b ρ ⟨entry, hentry, hnode, hfin⟩
  rcases hinv.log entry hentry with hold | hquiet
  · exact ⟨entry, hold, hnode, hfin⟩
  · cases hquiet _ hfin

/-! ### A height that hangs -/

/-- Four unit validators, all of them correct; each round has one proposal, which everybody hears. -/
def fourCorrect : Network where
  validatorSet := .unitSet 4
  fastPathConfig := ⟨3, 5000, 4⟩
  height := 1
  byzantine := ∅
  external msg := msg == .proposal 1 0 (.repeatByte 1) 1 || msg == .proposal 1 1 (.repeatByte 2) 2

/-- Members 0 and 1 hear three prevotes before they time out, and 2 and 3 only their own. -/
def earlyTimeouts : List Label :=
  let members : List UInt64 := [0, 1, 2, 3]
  let process (i : UInt64) := Label.process i .stored
  let prevote (j : UInt64) : ConsensusMessage := .prevote 1 0 (some (.repeatByte 1)) j
  members.map process ++
  members.flatMap (fun i => [.deliver i .stored (.proposal 1 0 (.repeatByte 1) 1), process i]) ++
  [.deliver 0 .stored (prevote 1), .deliver 0 .stored (prevote 2), process 0] ++
  [.deliver 1 .stored (prevote 0), .deliver 1 .stored (prevote 2), process 1] ++
  members.flatMap fun i => [.timeout i, process i, process i]

/-- The next round, in which everything is delivered to everybody. -/
def fullRound : List Label :=
  let members : List UInt64 := [0, 1, 2, 3]
  members.flatMap (fun i => [.deliver i .stored (.proposal 1 1 (.repeatByte 2) 2), .process i .stored]) ++
  members.flatMap fun i => members.filterMap fun j =>
    if j = i then none
    else some (.deliver j .stored (.prevote 1 1 (some (.repeatByte (if i < 2 then 1 else 2))) i))

/-- The state after `earlyTimeouts`, as far as `Hung` asks. -/
def splitLock (s : Net) : Bool :=
  s.sent.all (fun msg => msg.round < 1) && [0, 1, 2, 3].all fun i =>
    let node := s.nodes i
    decide (node.engine.state.round = 1) && decide (node.engine.state.step ≠ .committed) && node.events.isEmpty &&
      decide (node.engine.state.lockedHash = if i < 2 then some (.repeatByte 1) else none)

theorem hung_of_splitLock (h : splitLock s = true) : fourCorrect.Hung (· ≠ .repeatByte 1) 1 s := by
  simp only [splitLock, Bool.and_eq_true, List.all_eq_true, decide_eq_true_eq] at h
  obtain ⟨hsent, hnodes⟩ := h
  have hmembers : fourCorrect.honest = [0, 1, 2, 3].toFinset := by decide
  have hnode : ∀ i ∈ fourCorrect.honest, _ := fun i hi => hnodes i (List.mem_toFinset.mp (hmembers ▸ hi))
  -- those that may vote for a block are locked on it, or not locked at all
  have hbacks : ∀ b (A : Finset UInt64), (∀ v ∈ A, fourCorrect.Backs (· ≠ .repeatByte 1) s b v) →
      A ⊆ {0, 1} ∨ A ⊆ {2, 3} := by
    intro b A hA
    have hmember : ∀ v ∈ A, v ∈ fourCorrect.honest ∧ (v < 2 ↔ b = .repeatByte 1) := by
      intro v hv
      rcases hA v hv with ⟨msg, hext, hvoter⟩ | ⟨hmem, hlock⟩
      · rcases Bool.or_eq_true_iff.mp hext with heq | heq
        · rw [eq_of_beq heq] at hvoter
          cases hvoter
        · rw [eq_of_beq heq] at hvoter
          cases hvoter
      · refine ⟨hmem, ?_⟩
        rw [(hnode v hmem).2] at hlock
        split_ifs at hlock with hlt
        · simpa [hlt, eq_comm] using hlock
        · simpa [hlt] using hlock
    have hrange : ∀ v ∈ A, v = 0 ∨ v = 1 ∨ v = 2 ∨ v = 3 := fun v hv => by
      simpa [hmembers] using (hmember v hv).1
    by_cases hb : b = .repeatByte 1
    · refine .inl fun v hv => ?_
      have hlt := (hmember v hv).2.mpr hb
      rcases hrange v hv with rfl | rfl | rfl | rfl
      · simp
      · simp
      · exact absurd hlt (by decide)
      · exact absurd hlt (by decide)
    · refine .inr fun v hv => ?_
      have hge : ¬ v < 2 := fun hlt => hb ((hmember v hv).2.mp hlt)
      rcases hrange v hv with rfl | rfl | rfl | rfl
      · exact absurd (by decide) hge
      · exact absurd (by decide) hge
      · simp
      · simp
  refine ⟨hsent, fun i hi => ?_, fun i hi => (hnode i hi).1.1.2, fun i hi ev hev => ?_, fun b A hA => ?_,
    fun _ b A hA => ?_⟩
  · rw [(hnode i hi).1.1.1]
    exact UInt32.le_refl _
  · rw [List.isEmpty_iff.mp (hnode i hi).1.2] at hev
    cases hev
  · rcases hbacks b A hA with hsub | hsub
    · exact (fourCorrect.validatorSet.weights.of_mono hsub).trans_lt (by decide)
    · exact (fourCorrect.validatorSet.weights.of_mono hsub).trans_lt (by decide)
  · rcases hbacks b A hA with hsub | hsub
    · exact (Finset.card_le_card hsub).trans_lt (by decide)
    · exact (Finset.card_le_card hsub).trans_lt (by decide)

theorem hung_never_finalizes_fourCorrect :
    ∃ s₀ s, Run.exec fourCorrect.step? fourCorrect.init earlyTimeouts = some s₀ ∧
      Run.exec fourCorrect.step? s₀ fullRound = some s ∧
      ∀ i ∈ fourCorrect.honest, (s.nodes i).engine.state.step ≠ .committed := by
  have hsplit : ((Run.exec fourCorrect.step? fourCorrect.init earlyTimeouts).any fun s₀ => splitLock s₀ &&
      (Run.exec fourCorrect.step? s₀ fullRound).isSome) = true := by
    decide +kernel
  cases hs₀ : Run.exec fourCorrect.step? fourCorrect.init earlyTimeouts with
  | none =>
    rw [hs₀] at hsplit
    cases hsplit
  | some s₀ =>
    rw [hs₀, Option.any_some, Bool.and_eq_true] at hsplit
    obtain ⟨s, hs⟩ := Option.isSome_iff_exists.mp hsplit.2
    have hfresh : fourCorrect.ProposesFresh (· ≠ .repeatByte 1) 1 := by
      intro ρ b hρ hext
      rcases Bool.or_eq_true_iff.mp hext with heq | heq
      · cases eq_of_beq heq
        exact absurd hρ (by decide)
      · cases eq_of_beq heq
        decide
    have hstuck := hung_never_finalizes fourCorrect _ 1 s₀ s _ fullRound hs₀ (hung_of_splitLock hsplit.1) hfresh hs
    exact ⟨s₀, s, rfl, hs, fun i hi => (hstuck.1 i hi).1⟩

end Network
end Eth2077
