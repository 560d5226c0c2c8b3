import Eth2077.Lib.Runs
import Eth2077.Oob.Agreement
import Eth2077.Oob.Finality
import Eth2077.Oob.OpenRound

/-!
# A network of engines over many heights

As in `process_consensus_events` of the devnet binary, a node that finalises a block starts the next height
with the same engine. Seen from one height, a run of this network is a run of the network at that height
alone (`Simulates`): a node below it has not moved yet, a node above it has stopped. So agreement at one
height carries over to the chains that the nodes finalise (`chains_agree`).
-/

namespace Eth2077
open ConsensusEngine

/-! ### What the nodes finalise -/

def ConsensusEvent.finalized? : ConsensusEvent → Option (UInt64 × B256)
  | .blockFinalized height h _ => some (height, h)
  | _ => none

namespace Net

/-- The blocks that node `i` has finalised, with their heights, oldest first. -/
def chain (s : Net) (i : UInt64) : List (UInt64 × B256) :=
  (s.log.reverse.filter fun entry => entry.node = i).flatMap fun entry =>
    entry.events.filterMap ConsensusEvent.finalized?

theorem chain_run (s : Net) (i j : UInt64) (c : Call) : (s.run i c).chain j = s.chain j ++
    if i = j then ((s.nodes i).engine.call c).2.filterMap ConsensusEvent.finalized? else [] := by
  unfold chain run
  rw [List.reverse_cons, List.filter_append, List.flatMap_append]
  split_ifs with hij <;> simp [hij]

theorem mem_chain {s : Net} {i height : UInt64} {h : B256} :
    (height, h) ∈ s.chain i ↔ ∃ r, s.Finalized i height h r := by
  simp only [chain, List.mem_flatMap, List.mem_filter, List.mem_reverse, List.mem_filterMap, decide_eq_true_eq]
  constructor
  · rintro ⟨entry, ⟨hmem, hi⟩, ev, hev, hfin⟩
    cases ev with
    | blockFinalized height' h' r =>
      cases hfin
      exact ⟨r, entry, hmem, hi, hev⟩
    | _ => cases hfin
  · rintro ⟨r, entry, hmem, hi, hev⟩
    exact ⟨entry, ⟨hmem, hi⟩, _, hev, rfl⟩

end Net

/-! ### What is pending in a node -/

namespace ConsensusEngine
variable {e e' : ConsensusEngine} {c : Call} {evs : List ConsensusEvent}

/-- The events that a node has not processed yet speak of the height its engine is at. -/
inductive Agenda (e : ConsensusEngine) : List ConsensusEvent → Prop
  | notices {evs : List ConsensusEvent} (h : ∀ ev ∈ evs, isNotice ev = true) : Agenda e evs
  | prevote (r : UInt32) (b : Option B256) : Agenda e [.sendPrevote e.state.height r b]
  | precommit (r : UInt32) (b : Option B256) : Agenda e [.sendPrecommit e.state.height r b]
  | finalized (h : B256) (r : UInt32) (hc : e.state.step = .committed) :
      Agenda e [.blockFinalized e.state.height h r]

theorem CallStep.agenda (hs : CallStep e c e' evs) : Agenda e' evs := by
  cases hs with
  | start height => exact .notices fun ev hev => by rw [List.mem_singleton.mp hev]; rfl
  | late => exact .notices nofun
  | timeout =>
    refine .notices fun ev hev => ?_
    rcases List.mem_cons.mp hev with rfl | hev
    · rfl
    · rw [List.mem_singleton.mp hev]
      rfl
  | message ord msg step =>
    cases step with
    | ignored | prevote | relock | precommit => exact .notices nofun
    | proposal b => exact .prevote (e := e.acceptProposal b) _ _
    | lock b v q => exact .precommit (e := (e.storePrevote b v).lockOn q) _ _
    | fastFinalize b v => exact .finalized (e := (e.storePrevote (some b) v).commit) _ _ rfl
    | commit b v => exact .finalized (e := (e.storePrecommit b v).commit) _ _ rfl

theorem CallStep.finalized_of_committed (hs : CallStep e c e' evs) (hc : e'.state.step = .committed) :
    e.state.step = .committed ∨ ∃ b r, .blockFinalized e.state.height b r ∈ evs := by
  cases hs with
  | start | timeout => cases hc
  | late hlate => exact .inl hlate
  | message ord msg step =>
    cases step with
    | ignored | prevote | precommit => exact .inl hc
    | proposal | lock | relock => cases hc
    | fastFinalize b v | commit _ v b => exact .inr ⟨_, _, List.mem_singleton_self _⟩

theorem Agenda.dropLast (h : Agenda e evs) : Agenda e evs.dropLast := by
  cases h with
  | notices h => exact .notices fun ev hev => h ev (List.mem_of_mem_dropLast hev)
  | prevote | precommit | finalized => exact .notices nofun

end ConsensusEngine

namespace Network
variable (N : Network)

/-- One step of the network; a node that has finalised a block goes on to the next height. -/
def chainStep? (s : Net) (l : Label) : Option Net :=
  match l with
  | .process i ord =>
    if i ∈ N.honest then
      match (s.nodes i).events.getLast? with
      | some (.blockFinalized height _ _) => some ((s.pop i).run i (.startHeight (height.saturatingAdd 1)))
      | _ => N.step? s (.process i ord)
    else none
  | l => N.step? s l

/-- The same members, at another height. -/
def atHeight (height : UInt64) : Network := { N with height := height }

/-- What is true of a node at any height. -/
structure Sane (n : Node) : Prop where
  validatorSet : n.engine.validatorSet = N.validatorSet
  config : n.engine.fastPath.config = N.fastPathConfig
  agenda : n.engine.Agenda n.events

/-- A step of node `i` seen in the terms of calls: it makes a call with nothing pending, or it drops the last of
its events, having sent and told itself the vote that the event asks for or having started the next height. -/
inductive ChainStep (s : Net) : Net → Prop
  | call (i : UInt64) (c : Call) (hi : i ∈ N.honest) (hidle : (s.nodes i).events = []) (hc : c.isStart = false)
      (hmsg : ∀ ord msg, c = .onMessage ord msg → N.Deliverable s.sent msg) : ChainStep s (s.run i c)
  | drop (i : UInt64) (hi : i ∈ N.honest) (ev : ConsensusEvent) (hlast : (s.nodes i).events.getLast? = some ev)
      (hev : isNotice ev = true) : ChainStep s (s.pop i)
  | say (i : UInt64) (ord : TallyOrder) (msg : ConsensusMessage) (hi : i ∈ N.honest) (r : UInt32) (b : Option B256)
      (hev : (s.nodes i).events = [.sendPrevote (s.nodes i).engine.state.height r b] ∧
          msg = .prevote (s.nodes i).engine.state.height r b i ∨
        (s.nodes i).events = [.sendPrecommit (s.nodes i).engine.state.height r b] ∧
          msg = .precommit (s.nodes i).engine.state.height r b i) : ChainStep s ((s.pop i).say i ord msg)
  | next (i : UInt64) (hi : i ∈ N.honest) (h : B256) (r : UInt32)
      (hev : (s.nodes i).events = [.blockFinalized (s.nodes i).engine.state.height h r])
      (hc : (s.nodes i).engine.state.step = .committed) :
      ChainStep s ((s.pop i).run i (.startHeight ((s.nodes i).engine.state.height.saturatingAdd 1)))

variable {N} {s s' t : Net} {l : Label} {i : UInt64} {c : Call}

theorem chainStep_cases (hsane : ∀ i ∈ N.honest, N.Sane (s.nodes i)) (hstep : N.chainStep? s l = some s') :
    N.ChainStep s s' := by
  cases l with
  | deliver i ord msg =>
    simp only [chainStep?, step?] at hstep
    split_ifs at hstep with hcan
    cases hstep
    refine .call i _ hcan.1 hcan.2.1 rfl fun ord' m heq => ?_
    cases heq
    exact hcan.2.2
  | timeout i =>
    simp only [chainStep?, step?] at hstep
    split_ifs at hstep with hcan
    cases hstep
    exact .call i _ hcan.1 hcan.2 rfl fun _ _ heq => by cases heq
  | process i ord =>
    simp only [chainStep?, step?] at hstep
    split_ifs at hstep with hi
    have hagenda := (hsane i hi).agenda
    cases hlast : (s.nodes i).events.getLast? with
    | none =>
      rw [hlast] at hstep
      cases hstep
    | some ev =>
      rw [hlast] at hstep
      generalize hevs : (s.nodes i).events = evs at hagenda hlast
      cases hagenda with
      | notices h =>
        have hev := h ev (List.mem_of_getLast? hlast)
        cases ev with
        | roundTimeout | needProposal =>
          cases hstep
          exact .drop i hi _ (hevs ▸ hlast) hev
        | _ => cases hev
      | prevote r b =>
        cases hlast
        cases hstep
        exact .say i ord _ hi r b (.inl ⟨hevs, rfl⟩)
      | precommit r b =>
        cases hlast
        cases hstep
        exact .say i ord _ hi r b (.inr ⟨hevs, rfl⟩)
      | finalized h r hc =>
        cases hlast
        cases hstep
        exact .next i hi h r hevs hc

/-! ### Every step keeps the nodes sane -/

theorem Sane.call {n : Node} (h : N.Sane n) (c : Call) (hidle : n.events = []) :
    N.Sane ⟨(n.engine.call c).1, n.events ++ (n.engine.call c).2⟩ where
  validatorSet := (call_validatorSet _ _).trans h.validatorSet
  config := (n.engine.call_step c).config_eq.trans h.config
  agenda := by
    rw [hidle, List.nil_append]
    exact (n.engine.call_step c).agenda

theorem sane_run (h : ∀ j ∈ N.honest, N.Sane (s.nodes j)) (hi : i ∈ N.honest) (hidle : (s.nodes i).events = [])
    (c : Call) : ∀ j ∈ N.honest, N.Sane ((s.run i c).nodes j) := by
  intro j hj
  by_cases hij : j = i
  · subst hij
    simpa only [Net.run, Function.update_self] using (h j hi).call c hidle
  · simpa only [Net.run, Function.update_of_ne hij] using h j hj

theorem sane_pop (h : ∀ j ∈ N.honest, N.Sane (s.nodes j)) (i : UInt64) :
    ∀ j ∈ N.honest, N.Sane ((s.pop i).nodes j) := by
  intro j hj
  by_cases hij : j = i
  · subst hij
    simp only [Net.pop, Function.update_self]
    exact ⟨(h j hj).validatorSet, (h j hj).config, (h j hj).agenda.dropLast⟩
  · simpa only [Net.pop, Function.update_of_ne hij] using h j hj

theorem events_pop {ev : ConsensusEvent} (h : (s.nodes i).events = [ev]) : ((s.pop i).nodes i).events = [] := by
  simp only [Net.pop, Function.update_self, h, List.dropLast_singleton]

theorem ChainStep.sane (hstep : N.ChainStep s s') (h : ∀ j ∈ N.honest, N.Sane (s.nodes j)) :
    ∀ j ∈ N.honest, N.Sane (s'.nodes j) := by
  cases hstep with
  | call i c hi hidle => exact sane_run h hi hidle c
  | drop i => exact sane_pop h i
  | say i ord msg hi r b hev =>
    have hidle : ((s.pop i).nodes i).events = [] := by
      rcases hev with ⟨hev, -⟩ | ⟨hev, -⟩ <;> exact events_pop hev
    exact sane_run (s := { s.pop i with sent := msg :: s.sent }) (sane_pop h i) hi hidle _
  | next i hi b r hev => exact sane_run (sane_pop h i) hi (events_pop hev) _

theorem sane_init (j : UInt64) : N.Sane (N.init.nodes j) :=
  ⟨rfl, rfl, .notices fun ev hev => by rw [List.mem_singleton.mp hev]; rfl⟩

/-! ### One height of the run -/

/-- The run up to `s`, seen from height `H`: `t` is reached at that height alone. -/
structure Simulates (N : Network) (H : UInt64) (s t : Net) : Prop where
  reachable : (N.atHeight H).Reachable t
  sent : ∀ msg ∈ s.sent, msg.height = H → msg ∈ t.sent
  below : ∀ i ∈ N.honest, (s.nodes i).engine.state.height < H → t.nodes i = (N.atHeight H).init.nodes i
  now : ∀ i ∈ N.honest, (s.nodes i).engine.state.height = H → t.nodes i = s.nodes i
  finalized : ∀ i h r, s.Finalized i H h r → t.Finalized i H h r

variable {H : UInt64}

theorem simulates_init (N : Network) (H : UInt64) : N.Simulates H N.init (N.atHeight H).init where
  reachable := .init
  sent := nofun
  below _ _ _ := rfl
  now i _ hnow := by
    have hH : N.height = H := hnow
    rw [← hH]
    rfl
  finalized := by
    rintro i h r ⟨entry, hmem, -⟩
    cases hmem

/-- A node starts every height as a new engine would. -/
theorem startHeight_eq_init {n : Node} (h : N.Sane n) (H : UInt64) (i : UInt64) :
    ⟨(n.engine.startHeight H).1, (n.engine.startHeight H).2⟩ = (N.atHeight H).init.nodes i := by
  obtain ⟨e, evs⟩ := n
  obtain ⟨vs, st, acc⟩ := e
  obtain rfl : vs = N.validatorSet := h.validatorSet
  have hacc : acc.reset = (FastPathAccumulator.new N.fastPathConfig).reset := by
    rw [← show acc.config = N.fastPathConfig from h.config]
    rfl
  show (⟨⟨N.validatorSet, _, acc.reset⟩, _⟩ : Node) = _
  rw [hacc]
  rfl

theorem finalized_run {j H' : UInt64} {h : B256} {r : UInt32} {c : Call} (hfin : (s.run i c).Finalized j H' h r) :
    (i = j ∧ .blockFinalized H' h r ∈ ((s.nodes i).engine.call c).2) ∨ s.Finalized j H' h r := by
  obtain ⟨entry, hmem, hj, hev⟩ := hfin
  rcases List.mem_cons.mp hmem with rfl | hmem
  · exact .inl ⟨hj, hev⟩
  · exact .inr ⟨entry, hmem, hj, hev⟩

/-- A step that does nothing at height `H` is no step there. -/
theorem Simulates.skip (hsim : N.Simulates H s t) (hsent : ∀ msg ∈ s'.sent, msg.height = H → msg ∈ s.sent)
    (hother : ∀ j, j ≠ i → s'.nodes j = s.nodes j)
    (hbelow : (s'.nodes i).engine.state.height < H → (s.nodes i).engine.state.height < H)
    (hnow : i ∈ N.honest → (s'.nodes i).engine.state.height = H → t.nodes i = s'.nodes i)
    (hfin : ∀ j h r, s'.Finalized j H h r → s.Finalized j H h r) : N.Simulates H s' t where
  reachable := hsim.reachable
  sent msg hmem hH := hsim.sent msg (hsent msg hmem hH) hH
  below j hj hlt := by
    by_cases hij : j = i
    · subst hij
      exact hsim.below j hj (hbelow hlt)
    · rw [hother j hij] at hlt
      exact hsim.below j hj hlt
  now j hj heq := by
    by_cases hij : j = i
    · subst hij
      exact hnow hj heq
    · rw [hother j hij] at heq ⊢
      exact hsim.now j hj heq
  finalized j h r hf := hsim.finalized j h r (hfin j h r hf)

/-- The same call, made at height `H` on both sides. -/
theorem Simulates.run (hsim : N.Simulates H s t) (s₁ t₁ : Net) (hi : i ∈ N.honest)
    (hreach : (N.atHeight H).Reachable (t₁.run i c)) (hlog : s₁.log = s.log ∧ t₁.log = t.log)
    (hsent : ∀ msg ∈ s₁.sent, msg.height = H → msg ∈ t₁.sent)
    (hother : ∀ j, j ≠ i → s₁.nodes j = s.nodes j ∧ t₁.nodes j = t.nodes j) (hsame : t₁.nodes i = s₁.nodes i)
    (hH : (s₁.nodes i).engine.state.height = H) (hc : c.isStart = false) :
    N.Simulates H (s₁.run i c) (t₁.run i c) where
  reachable := hreach
  sent := hsent
  below j hj hlt := by
    by_cases hij : j = i
    · subst hij
      simp only [Net.run, Function.update_self, ((s₁.nodes j).engine.call_step c).height_eq hc] at hlt
      rw [hH] at hlt
      exact absurd hlt (UInt64.lt_irrefl H)
    · simp only [Net.run, Function.update_of_ne hij, (hother j hij).1] at hlt
      simp only [Net.run, Function.update_of_ne hij, (hother j hij).2]
      exact hsim.below j hj hlt
  now j hj heq := by
    by_cases hij : j = i
    · subst hij
      simp only [Net.run, Function.update_self, hsame]
    · simp only [Net.run, Function.update_of_ne hij, (hother j hij).1] at heq
      simp only [Net.run, Function.update_of_ne hij, (hother j hij).1, (hother j hij).2]
      exact hsim.now j hj heq
  finalized j h r hfin := by
    rcases finalized_run hfin with ⟨rfl, hev⟩ | ⟨entry, hmem, hentry⟩
    · exact ⟨_, List.mem_cons_self .., rfl, by rwa [← hsame] at hev⟩
    · obtain ⟨entry, hmem, hentry⟩ := hsim.finalized j h r ⟨entry, hlog.1 ▸ hmem, hentry⟩
      exact ⟨entry, List.mem_cons_of_mem _ (hlog.2 ▸ hmem), hentry⟩

/-- A call that is not made at height `H` finalises nothing there. -/
theorem not_finalized_run {j : UInt64} {h : B256} {r : UInt32} (hH : (s.nodes i).engine.state.height ≠ H)
    (hfin : (s.run i c).Finalized j H h r) : s.Finalized j H h r := by
  rcases finalized_run hfin with ⟨-, hev⟩ | hfin
  · obtain ⟨ord, msg, -, hs⟩ := ((s.nodes i).engine.call_step c).of_mem hev rfl
    exact absurd (hs.finalized hev).1.symm hH
  · exact hfin

theorem Simulates.call (hsim : N.Simulates H s t) (hi : i ∈ N.honest) (hidle : (s.nodes i).events = [])
    (hc : c.isStart = false) (hmsg : ∀ ord msg, c = .onMessage ord msg → N.Deliverable s.sent msg) :
    ∃ t', N.Simulates H (s.run i c) t' := by
  have hheight := ((s.nodes i).engine.call_step c).height_eq hc
  by_cases hH : (s.nodes i).engine.state.height = H
  · have hnode := hsim.now i hi hH
    have hidle' : (t.nodes i).events = [] := by rw [hnode, hidle]
    by_cases hmove : ∀ ord msg, c = .onMessage ord msg → msg.height = H
    · refine ⟨t.run i c, hsim.run s t hi ?_ ⟨rfl, rfl⟩ hsim.sent (fun _ _ => ⟨rfl, rfl⟩) hnode hH hc⟩
      cases c with
      | startHeight => cases hc
      | onTimeout => exact hsim.reachable.step (.timeout i) (if_pos ⟨hi, hidle'⟩)
      | onMessage ord msg =>
        refine hsim.reachable.step (.deliver i ord msg) (if_pos ⟨hi, hidle', ?_⟩)
        exact (hmsg ord msg rfl).imp_left fun hmem => hsim.sent msg hmem (hmove ord msg rfl)
    · -- a message of another height changes nothing
      push Not at hmove
      obtain ⟨ord, msg, rfl, hne⟩ := hmove
      have hsame : (s.nodes i).engine.call (.onMessage ord msg) = ((s.nodes i).engine, []) :=
        onMessage_of_elsewhere fun hboth => hne (hboth.1.trans hH)
      refine ⟨t, hsim.skip (i := i) (fun msg hmem _ => hmem) (fun j hij => Function.update_of_ne hij ..) ?_ ?_ ?_⟩
      · simp only [Net.run, Function.update_self, hsame, imp_self]
      · intro _ _
        simp only [Net.run, Function.update_self, hsame, List.append_nil]
        exact hnode
      · intro j h r hfin
        rcases finalized_run hfin with ⟨-, hev⟩ | hfin
        · rw [hsame] at hev
          cases hev
        · exact hfin
  · refine ⟨t, hsim.skip (i := i) (fun msg hmem _ => hmem) (fun j hij => Function.update_of_ne hij ..) ?_ ?_
      fun j h r hfin => not_finalized_run hH hfin⟩
    · simp only [Net.run, Function.update_self, hheight, imp_self]
    · intro _ heq
      simp only [Net.run, Function.update_self, hheight] at heq
      exact absurd heq hH

theorem Simulates.drop (hsim : N.Simulates H s t) (hi : i ∈ N.honest) {ev : ConsensusEvent}
    (hlast : (s.nodes i).events.getLast? = some ev) (hev : isNotice ev = true) :
    ∃ t', N.Simulates H (s.pop i) t' := by
  have hheight : ((s.pop i).nodes i).engine = (s.nodes i).engine := by simp only [Net.pop, Function.update_self]
  by_cases hH : (s.nodes i).engine.state.height = H
  · have hnode := hsim.now i hi hH
    have hstep : (N.atHeight H).step? t (.process i .stored) = some (t.pop i) := by
      rw [step?, if_pos (show i ∈ (N.atHeight H).honest from hi), hnode, hlast]
      cases ev with
      | roundTimeout | needProposal => rfl
      | _ => cases hev
    refine ⟨t.pop i, hsim.reachable.step _ hstep, hsim.sent, fun j hj hlt => ?_, fun j hj heq => ?_, hsim.finalized⟩
    · by_cases hij : j = i
      · subst hij
        rw [hheight, hH] at hlt
        exact absurd hlt (UInt64.lt_irrefl H)
      · simp only [Net.pop, Function.update_of_ne hij] at hlt ⊢
        exact hsim.below j hj hlt
    · by_cases hij : j = i
      · subst hij
        simp only [Net.pop, Function.update_self, hnode]
      · simp only [Net.pop, Function.update_of_ne hij] at heq ⊢
        exact hsim.now j hj heq
  · refine ⟨t, hsim.skip (i := i) (fun msg hmem _ => hmem) (fun j hij => Function.update_of_ne hij ..) ?_ ?_
      fun j h r hfin => hfin⟩
    · rw [hheight]
      exact id
    · intro _ heq
      rw [hheight] at heq
      exact absurd heq hH

theorem Simulates.say (hsim : N.Simulates H s t) (hi : i ∈ N.honest) {ord : TallyOrder} {msg : ConsensusMessage}
    {r : UInt32} {b : Option B256}
    (hev : (s.nodes i).events = [.sendPrevote (s.nodes i).engine.state.height r b] ∧
          msg = .prevote (s.nodes i).engine.state.height r b i ∨
        (s.nodes i).events = [.sendPrecommit (s.nodes i).engine.state.height r b] ∧
          msg = .precommit (s.nodes i).engine.state.height r b i) :
    ∃ t', N.Simulates H ((s.pop i).say i ord msg) t' := by
  have hmsg : msg.height = (s.nodes i).engine.state.height := by
    rcases hev with ⟨-, rfl⟩ | ⟨-, rfl⟩ <;> rfl
  have hheight : ((s.pop i).nodes i).engine = (s.nodes i).engine := by simp only [Net.pop, Function.update_self]
  by_cases hH : (s.nodes i).engine.state.height = H
  · have hnode := hsim.now i hi hH
    have hstep : (N.atHeight H).step? t (.process i ord) = some ((t.pop i).say i ord msg) := by
      rw [step?, if_pos (show i ∈ (N.atHeight H).honest from hi), hnode]
      rcases hev with ⟨hev, rfl⟩ | ⟨hev, rfl⟩ <;> rw [hev] <;> rfl
    have hreach := hsim.reachable.step _ hstep
    refine ⟨_, hsim.run { s.pop i with sent := msg :: s.sent } { t.pop i with sent := msg :: t.sent }
      hi hreach ⟨rfl, rfl⟩ ?_ ?_ ?_ ?_ rfl⟩
    · intro m hmem hm
      rcases List.mem_cons.mp hmem with rfl | hmem
      · exact List.mem_cons_self ..
      · exact List.mem_cons_of_mem _ (hsim.sent m hmem hm)
    · intro j hij
      simp only [Net.pop, Function.update_of_ne hij, and_self]
    · simp only [Net.pop, Function.update_self, hnode]
    · rw [hheight, hH]
  · have hsame : (((s.pop i).say i ord msg).nodes i).engine.state.height = (s.nodes i).engine.state.height := by
      simp only [Net.say, Net.run, Function.update_self]
      rw [(call_step _ _).height_eq rfl, hheight]
    refine ⟨t, hsim.skip (i := i) ?_ ?_ ?_ ?_ ?_⟩
    · intro m hmem hm
      rcases List.mem_cons.mp hmem with rfl | hmem
      · exact absurd (hmsg.symm.trans hm) hH
      · exact hmem
    · intro j hij
      simp only [Net.say, Net.run, Net.pop, Function.update_of_ne hij]
    · rw [hsame]
      exact id
    · intro _ heq
      rw [hsame] at heq
      exact absurd heq hH
    · intro j h r' hfin
      refine not_finalized_run (s := { s.pop i with sent := msg :: s.sent }) ?_ hfin
      rw [hheight]
      exact hH

theorem toNat_next {height : UInt64} (hlast : height.toNat < UInt64.maxNat) :
    (height.saturatingAdd 1).toNat = height.toNat + 1 := by
  rw [UInt64.toNat_saturatingAdd, show (1 : UInt64).toNat = 1 from rfl]
  omega

theorem Simulates.next (hsim : N.Simulates H s t) (hsane : N.Sane ((s.pop i).nodes i))
    (hidle : ((s.pop i).nodes i).events = []) (hi : i ∈ N.honest) (hlast : H.toNat < UInt64.maxNat) :
    N.Simulates H ((s.pop i).run i (.startHeight ((s.nodes i).engine.state.height.saturatingAdd 1))) t := by
  have hmax := (s.nodes i).engine.state.height.toNat_le_maxNat
  have hafter : (((s.pop i).run i (.startHeight ((s.nodes i).engine.state.height.saturatingAdd 1))).nodes i) =
      (N.atHeight ((s.nodes i).engine.state.height.saturatingAdd 1)).init.nodes i := by
    rw [← startHeight_eq_init hsane]
    simp only [Net.run, Function.update_self, hidle, List.nil_append]
    rfl
  refine hsim.skip (i := i) (fun msg hmem _ => hmem) ?_ ?_ ?_ ?_
  · intro j hij
    simp only [Net.run, Net.pop, Function.update_of_ne hij]
  · rw [hafter]
    intro hlt
    have hlt : ((s.nodes i).engine.state.height.saturatingAdd 1).toNat < H.toNat := hlt
    rw [UInt64.toNat_saturatingAdd, show (1 : UInt64).toNat = 1 from rfl] at hlt
    exact UInt64.lt_iff_toNat_lt.mpr (by omega)
  · rw [hafter]
    intro _ heq
    have heq : (s.nodes i).engine.state.height.saturatingAdd 1 = H := heq
    rw [heq]
    -- the node was one height below, so it has not moved at `H` yet
    refine hsim.below i hi (UInt64.lt_iff_toNat_lt.mpr ?_)
    rw [← heq, UInt64.toNat_saturatingAdd, show (1 : UInt64).toNat = 1 from rfl] at hlast ⊢
    omega
  · intro j h r hfin
    rcases finalized_run hfin with ⟨-, hev⟩ | hfin
    · cases List.mem_singleton.mp hev
    · exact hfin

theorem ChainStep.simulates (hstep : N.ChainStep s s') (hsane : ∀ j ∈ N.honest, N.Sane (s.nodes j))
    (hsim : N.Simulates H s t) (hlast : H.toNat < UInt64.maxNat) : ∃ t', N.Simulates H s' t' := by
  cases hstep with
  | call i c hi hidle hc hmsg => exact hsim.call hi hidle hc hmsg
  | drop i hi ev hl hev => exact hsim.drop hi hl hev
  | say i ord msg hi r b hev => exact hsim.say hi hev
  | next i hi b r hev => exact ⟨t, hsim.next (sane_pop hsane i i hi) (events_pop hev) hi hlast⟩

/-! ### The chains -/

/-- Node `i` has finalised one block for each height from the first to the one its engine is at, the last of them
only if the engine has stopped. -/
structure ChainInv (N : Network) (s : Net) (i : UInt64) : Prop where
  heights : (s.chain i).map (·.1.toNat) = List.range' N.height.toNat (s.chain i).length
  length : N.height.toNat + (s.chain i).length =
    (s.nodes i).engine.state.height.toNat + if (s.nodes i).engine.state.step = .committed then 1 else 0

theorem range'_concat (a n : ℕ) : List.range' a n ++ [a + n] = List.range' a (n + 1) := by
  rw [List.range'_concat, Nat.one_mul]

/-- A call that is not a start adds the block it finalises, which stops the engine. -/
theorem ChainInv.run (h : N.ChainInv s i) (hc : c.isStart = false) : N.ChainInv (s.run i c) i := by
  have hstep := (s.nodes i).engine.call_step c
  have hheight := hstep.height_eq hc
  have hchain : (s.run i c).chain i =
      s.chain i ++ ((s.nodes i).engine.call c).2.filterMap ConsensusEvent.finalized? := by
    rw [Net.chain_run, if_pos rfl]
  have hnode : ((s.run i c).nodes i).engine = ((s.nodes i).engine.call c).1 := by
    simp only [Net.run, Function.update_self]
  by_cases hdone : (s.nodes i).engine.state.step = .committed
  · rw [call_of_committed hdone hc] at hchain hnode
    have hsame : (s.run i c).chain i = s.chain i := by rw [hchain, List.filterMap_nil, List.append_nil]
    exact ⟨by rw [hsame, h.heights], by rw [hsame, hnode, h.length]⟩
  · have hlen := h.length
    rw [if_neg hdone, Nat.add_zero] at hlen
    by_cases hfin : ∃ b r, .blockFinalized (s.nodes i).engine.state.height b r ∈ ((s.nodes i).engine.call c).2
    · obtain ⟨b, r, hev⟩ := hfin
      obtain ⟨hcommitted, hevs⟩ := call_finalized hev
      have hone : (s.run i c).chain i = s.chain i ++ [((s.nodes i).engine.state.height, b)] := by
        rw [hchain, hevs]
        rfl
      refine ⟨?_, ?_⟩
      · rw [hone, List.map_append, h.heights, List.map_singleton, ← hlen, List.length_append, List.length_singleton,
          range'_concat]
      · rw [hone, hnode, if_pos hcommitted, hheight, List.length_append, List.length_singleton]
        omega
    · have hnone : ((s.nodes i).engine.call c).2.filterMap ConsensusEvent.finalized? = [] := by
        rw [List.filterMap_eq_nil_iff]
        intro ev hev
        cases ev with
        | blockFinalized height b r =>
          obtain ⟨ord, msg, -, hs⟩ := hstep.of_mem hev rfl
          obtain rfl := (hs.finalized hev).1
          exact absurd ⟨b, r, hev⟩ hfin
        | _ => rfl
      have hopen : ((s.nodes i).engine.call c).1.state.step ≠ .committed := fun hcommitted =>
        (hstep.finalized_of_committed hcommitted).elim hdone hfin
      have hsame : (s.run i c).chain i = s.chain i := by rw [hchain, hnone, List.append_nil]
      refine ⟨by rw [hsame, h.heights], ?_⟩
      rw [hsame, hnode, if_neg hopen, hheight, hlen, Nat.add_zero]

theorem ChainInv.other {j : UInt64} (h : N.ChainInv s j) (hij : j ≠ i) (c : Call) : N.ChainInv (s.run i c) j := by
  have hchain : (s.run i c).chain j = s.chain j := by
    rw [Net.chain_run, if_neg hij.symm, List.append_nil]
  have hnode : (s.run i c).nodes j = s.nodes j := Function.update_of_ne hij ..
  exact ⟨by rw [hchain, h.heights], by rw [hchain, hnode, h.length]⟩

theorem ChainInv.pop {j : UInt64} (h : N.ChainInv s j) (i : UInt64) : N.ChainInv (s.pop i) j := by
  have hnode : ((s.pop i).nodes j).engine = (s.nodes j).engine := by
    by_cases hij : j = i
    · subst hij
      simp only [Net.pop, Function.update_self]
    · simp only [Net.pop, Function.update_of_ne hij]
  exact ⟨h.heights, by rw [hnode]; exact h.length⟩

theorem ChainInv.next (h : N.ChainInv s i) (hc : (s.nodes i).engine.state.step = .committed)
    (hlast : (s.nodes i).engine.state.height.toNat < UInt64.maxNat) :
    N.ChainInv (s.run i (.startHeight ((s.nodes i).engine.state.height.saturatingAdd 1))) i := by
  have hchain : (s.run i (.startHeight ((s.nodes i).engine.state.height.saturatingAdd 1))).chain i = s.chain i := by
    rw [Net.chain_run, if_pos rfl]
    exact List.append_nil _
  refine ⟨by rw [hchain, h.heights], ?_⟩
  have hlen := h.length
  rw [if_pos hc] at hlen
  rw [hchain, hlen]
  simp only [Net.run, Function.update_self]
  exact (toNat_next hlast).symm

/-- Where the engine has stopped, its chain ends with the height it is at. -/
theorem ChainInv.height_mem (h : N.ChainInv s i) (hc : (s.nodes i).engine.state.step = .committed)
    (hle : N.height.toNat ≤ (s.nodes i).engine.state.height.toNat) :
    (s.nodes i).engine.state.height.toNat ∈ (s.chain i).map (·.1.toNat) := by
  have hlen := h.length
  rw [if_pos hc] at hlen
  rw [h.heights, List.mem_range'_1]
  omega

theorem ChainStep.chainInv (hstep : N.ChainStep s s')
    (hbelow : ∀ i ∈ N.honest, ∀ x ∈ s.chain i, x.1.toNat < UInt64.maxNat)
    (hle : ∀ i ∈ N.honest, N.height.toNat ≤ (s.nodes i).engine.state.height.toNat)
    (hinv : ∀ i ∈ N.honest, N.ChainInv s i) : ∀ i ∈ N.honest, N.ChainInv s' i := by
  have hrun : ∀ (s : Net) i c, c.isStart = false → (∀ j ∈ N.honest, N.ChainInv s j) →
      ∀ j ∈ N.honest, N.ChainInv (s.run i c) j := by
    intro s i c hc hinv j hj
    by_cases hij : j = i
    · subst hij
      exact (hinv j hj).run hc
    · exact (hinv j hj).other hij c
  cases hstep with
  | call i c hi hidle hc => exact hrun s i c hc hinv
  | drop i => exact fun j hj => (hinv j hj).pop i
  | say i ord msg =>
    refine hrun { s.pop i with sent := msg :: s.sent } i _ rfl fun j hj => ?_
    have hpop := (hinv j hj).pop i
    exact ⟨hpop.heights, hpop.length⟩
  | next i hi b r hev hc =>
    intro j hj
    have hpop := (hinv j hj).pop i
    have hnode : ((s.pop i).nodes i).engine = (s.nodes i).engine := by simp only [Net.pop, Function.update_self]
    by_cases hij : j = i
    · subst hij
      obtain ⟨x, hx, heq⟩ := List.mem_map.mp ((hinv j hj).height_mem hc (hle j hj))
      have hlast := heq ▸ hbelow j hj x hx
      rw [← hnode] at hc hlast ⊢
      exact hpop.next hc hlast
    · exact hpop.other hij _

theorem ChainStep.height_le (hstep : N.ChainStep s s') (j : UInt64) :
    (s.nodes j).engine.state.height.toNat ≤ (s'.nodes j).engine.state.height.toNat := by
  have hpop : ∀ i, ((s.pop i).nodes j).engine = (s.nodes j).engine := by
    intro i
    by_cases hij : j = i
    · subst hij
      simp only [Net.pop, Function.update_self]
    · simp only [Net.pop, Function.update_of_ne hij]
  have hrun : ∀ (s : Net) i c, c.isStart = false →
      ((s.run i c).nodes j).engine.state.height = (s.nodes j).engine.state.height := by
    intro s i c hc
    by_cases hij : j = i
    · subst hij
      simp only [Net.run, Function.update_self]
      exact (call_step _ _).height_eq hc
    · simp only [Net.run, Function.update_of_ne hij]
  cases hstep with
  | call i c hi hidle hc => rw [hrun s i c hc]
  | drop i => rw [hpop]
  | say i ord msg =>
    have hsame := hrun { s.pop i with sent := msg :: s.sent } i (.onMessage ord msg) rfl
    have hheight : ((s.pop i).nodes j).engine.state.height = (s.nodes j).engine.state.height := by rw [hpop]
    exact le_of_eq (congrArg UInt64.toNat (hsame.trans hheight)).symm
  | next i =>
    by_cases hij : j = i
    · subst hij
      simp only [Net.run, Function.update_self]
      show _ ≤ ((s.nodes j).engine.state.height.saturatingAdd 1).toNat
      have hmax := (s.nodes j).engine.state.height.toNat_le_maxNat
      rw [UInt64.toNat_saturatingAdd]
      omega
    · simp only [Net.run, Function.update_of_ne hij, hpop, le_refl]

theorem chain_subset (hstep : N.ChainStep s s') (j : UInt64) : s.chain j ⊆ s'.chain j := by
  have hrun : ∀ (s : Net) i c, s.chain j ⊆ (s.run i c).chain j := fun s i c => by
    rw [Net.chain_run]
    exact List.subset_append_left _ _
  cases hstep with
  | call i c => exact hrun s i c
  | drop => exact fun x hx => hx
  | say i ord msg => exact hrun { s.pop i with sent := msg :: s.sent } i _
  | next i => exact hrun (s.pop i) i _

/-- What holds in every state of a run in which no node finalises the last height there is. -/
structure RunInv (N : Network) (s : Net) : Prop where
  sane : ∀ i ∈ N.honest, N.Sane (s.nodes i)
  height : ∀ i ∈ N.honest, N.height.toNat ≤ (s.nodes i).engine.state.height.toNat
  chains : ∀ i ∈ N.honest, N.ChainInv s i
  simulates : ∀ H : UInt64, H.toNat < UInt64.maxNat → ∃ t, N.Simulates H s t

theorem sane_exec {ls : List Label} (hrun : Run.exec N.chainStep? N.init ls = some s) :
    ∀ i ∈ N.honest, N.Sane (s.nodes i) :=
  Run.invariant (I := fun s => ∀ i ∈ N.honest, N.Sane (s.nodes i)) (fun i _ => sane_init i)
    (fun _ _ _ hsane hl => (chainStep_cases hsane hl).sane hsane) hrun

theorem runInv {ls : List Label} (hrun : Run.exec N.chainStep? N.init ls = some s)
    (hbelow : ∀ i ∈ N.honest, ∀ x ∈ s.chain i, x.1.toNat < UInt64.maxNat) : N.RunInv s := by
  induction ls using List.reverseRecOn generalizing s with
  | nil =>
    obtain rfl := Option.some_inj.mp hrun
    exact ⟨fun i _ => sane_init i, fun i _ => le_rfl, fun i _ => ⟨rfl, rfl⟩, fun H _ => ⟨_, simulates_init N H⟩⟩
  | append_singleton ls l ih =>
    obtain ⟨m, hm, hl⟩ := Run.exec_concat.mp hrun
    have hsane := sane_exec hm
    have hstep := chainStep_cases hsane hl
    -- the chains only grow, so the bound held before the step
    have hbefore : ∀ i ∈ N.honest, ∀ x ∈ m.chain i, x.1.toNat < UInt64.maxNat := fun i hi x hx =>
      hbelow i hi x (chain_subset hstep i hx)
    have hinv := ih hm hbefore
    refine ⟨hstep.sane hsane, fun i hi => (hinv.height i hi).trans (hstep.height_le i),
      hstep.chainInv hbefore hinv.height hinv.chains, fun H hH => ?_⟩
    obtain ⟨t, hsim⟩ := hinv.simulates H hH
    exact hstep.simulates hsane hsim hH

/-- Two chains that begin at one height and agree at every height are parts of one chain. -/
theorem prefix_of_agree {l₁ l₂ : List (UInt64 × B256)} {a : ℕ}
    (h₁ : l₁.map (·.1.toNat) = List.range' a l₁.length) (h₂ : l₂.map (·.1.toNat) = List.range' a l₂.length)
    (hagree : ∀ height h h', (height, h) ∈ l₁ → (height, h') ∈ l₂ → h = h') (hle : l₁.length ≤ l₂.length) :
    l₁ <+: l₂ := by
  refine List.prefix_iff_getElem.mpr ⟨hle, fun n hn => ?_⟩
  have hat : ∀ (l : List (UInt64 × B256)) (hn : n < l.length), l.map (·.1.toNat) = List.range' a l.length →
      (l[n]).1.toNat = a + n := by
    intro l hn hl
    have := congrArg (fun l => l[n]?) hl
    simpa [hn] using this
  have hheight : (l₁[n]).1 = (l₂[n]).1 :=
    UInt64.toNat_inj.mp ((hat l₁ hn h₁).trans (hat l₂ (hn.trans_le hle) h₂).symm)
  refine Prod.ext hheight (hagree (l₁[n]).1 _ _ (List.getElem_mem hn) ?_)
  rw [hheight]
  exact List.getElem_mem (hn.trans_le hle)

/-- Agreement on the whole chain: with the fast path off and Byzantine members of weight at most `f`, every correct
node finalises one block for each height in turn, and of any two such chains one is the beginning of the other. -/
theorem chains_agree (vs : ValidatorSet) (cfg : FastPathConfig) (height : UInt64) (byz : Finset UInt64) (f : ℕ)
    (hd : vs.DistinctIndices) (hW : vs.weightSum = 3 * f + 1) (hsat : vs.weightSum ≤ UInt64.maxNat)
    (hbyz : vs.weights.of byz ≤ f) (hoff : cfg.optimisticThreshold = 0) (ls : List Label) (s : Net)
    (hrun : Run.exec (withByzantine vs cfg height byz).chainStep? (withByzantine vs cfg height byz).init ls = some s)
    (hbelow : ∀ i ∈ vs.indices \ byz, ∀ x ∈ s.chain i, x.1.toNat < UInt64.maxNat)
    (i j : UInt64) (hi : i ∈ vs.indices \ byz) (hj : j ∈ vs.indices \ byz) :
    (s.chain i).map (·.1.toNat) = List.range' height.toNat (s.chain i).length ∧
      (s.chain i <+: s.chain j ∨ s.chain j <+: s.chain i) := by
  have hinv : (withByzantine vs cfg height byz).RunInv s := runInv hrun hbelow
  have hagree : ∀ i ∈ vs.indices \ byz, ∀ j, ∀ H h h', (H, h) ∈ s.chain i → (H, h') ∈ s.chain j → h = h' := by
    intro i hi j H h h' hh hh'
    obtain ⟨t, hsim⟩ := hinv.simulates H (hbelow i hi _ hh)
    have hm : (withByzantine vs cfg H byz).QuorumsMeet := ValidatorSet.total_add_lt_quorums hd hW hsat hbyz
    have ht : NetInv hm t := Reachable.netInv authentic_withByzantine hm hsim.reachable
    have hquorum : ∀ k b, (H, b) ∈ s.chain k → ∃ r : UInt32,
        ((withByzantine vs cfg H byz).setting hm).PrecommitQuorum (history t.sent) r.toNat b := by
      intro k b hb
      obtain ⟨r, hfin⟩ := Net.mem_chain.mp hb
      obtain ⟨entry, hmem, -, hev⟩ := hsim.finalized k b r hfin
      rcases (ht.log entry hmem).finalized authentic_withByzantine hev with hq | ⟨_, _, _, _, hpos, _⟩
      · exact ⟨r, hq⟩
      · exact absurd hoff hpos.ne'
    obtain ⟨r, hq⟩ := hquorum i h hh
    obtain ⟨r', hq'⟩ := hquorum j h' hh'
    exact ht.justified.agreement hq hq'
  have hheights : ∀ i ∈ vs.indices \ byz, (s.chain i).map (·.1.toNat) =
      List.range' height.toNat (s.chain i).length := fun i hi => (hinv.chains i hi).heights
  refine ⟨hheights i hi, ?_⟩
  rcases Nat.le_total (s.chain i).length (s.chain j).length with hle | hle
  · exact .inl (prefix_of_agree (hheights i hi) (hheights j hj) (hagree i hi j) hle)
  · exact .inr (prefix_of_agree (hheights j hj) (hheights i hi) (hagree j hj i) hle)

/-- Three of four members, as far as their precommits for the block that `leader` proposes at `height`. -/
def voteRun (height leader : UInt64) (h : B256) : List Label :=
  let members : List UInt64 := [0, 1, 2]
  members.flatMap (fun i => [.process i .stored, .deliver i .stored (.proposal height 0 h leader), .process i .stored]) ++
  members.flatMap (fun i =>
    (members.filter (· ≠ i)).map (fun j => .deliver i .stored (.prevote height 0 (some h) j)) ++ [.process i .stored])

/-- Node `i` hears the precommits and starts the next height. -/
def finishRun (height : UInt64) (h : B256) (i : UInt64) : List Label :=
  (([0, 1, 2] : List UInt64).filter (· ≠ i)).map (fun j => .deliver i .stored (.precommit height 0 (some h) j)) ++
    [.process i .stored]

/-- All three finalise height 1, and node 0 height 2 as well. -/
def twoHeights : List Label :=
  voteRun 1 1 (.repeatByte 1) ++ ([0, 1, 2] : List UInt64).flatMap (finishRun 1 (.repeatByte 1)) ++
  voteRun 2 2 (.repeatByte 2) ++ finishRun 2 (.repeatByte 2) 0

theorem chains_agree_twoHeights :
    let N := withByzantine (.unitSet 4) ⟨3, 5000, 0⟩ 1 {3}
    ∃ s, Run.exec N.chainStep? N.init twoHeights = some s ∧
      s.chain 0 = [(1, .repeatByte 1), (2, .repeatByte 2)] ∧ s.chain 1 = [(1, .repeatByte 1)] ∧
      (s.chain 0).map (·.1.toNat) = List.range' 1 (s.chain 0).length ∧
      (s.chain 0 <+: s.chain 1 ∨ s.chain 1 <+: s.chain 0) := by
  intro N
  have hsome : ((Run.exec N.chainStep? N.init twoHeights).any fun s =>
      s.chain 0 == [(1, .repeatByte 1), (2, .repeatByte 2)] && s.chain 1 == [(1, .repeatByte 1)] &&
        [0, 1, 2].all fun i => (s.chain i).all fun x => x.1.toNat < UInt64.maxNat) = true := by
    decide +kernel
  have hmembers : (ValidatorSet.unitSet 4).indices \ {3} = [0, 1, 2].toFinset := by decide
  cases hs : Run.exec N.chainStep? N.init twoHeights with
  | none =>
    rw [hs] at hsome
    cases hsome
  | some s =>
    rw [hs] at hsome
    simp only [Option.any_some, Bool.and_eq_true, beq_iff_eq, List.all_eq_true, decide_eq_true_eq] at hsome
    obtain ⟨⟨h0, h1⟩, hbelow⟩ := hsome
    have hbelow : ∀ i ∈ (ValidatorSet.unitSet 4).indices \ {3}, ∀ x ∈ s.chain i, x.1.toNat < UInt64.maxNat := by
      rw [hmembers]
      exact fun i hi => hbelow i (List.mem_toFinset.mp hi)
    exact ⟨s, rfl, h0, h1, chains_agree (.unitSet 4) ⟨3, 5000, 0⟩ 1 {3} 1 (by decide) (by decide) (by decide) (by decide)
      rfl twoHeights s hs hbelow 0 1 (by decide) (by decide)⟩

end Network

end Eth2077
