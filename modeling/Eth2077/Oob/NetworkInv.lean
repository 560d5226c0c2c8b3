import Eth2077.Oob.Network

/-!
# The invariant of the network

`NetInv` ties the engines to the abstract protocol: the votes broadcast so far are a justified
history, and the lock of every engine is the one that history gives it, except while a precommit is
still to be sent. `Reachable.netInv` is the run lemma; `EntryOk.finalized` reads off what a finalised
block rests on.
-/

namespace Eth2077
namespace Network
open LockedVoting ConsensusEngine

variable {N : Network} {hm : N.QuorumsMeet}

/-! ### The invariant of one node -/

def Inert : ConsensusEvent → Prop
  | .sendPrevote _ _ _ => False
  | .sendPrecommit _ _ _ => False
  | _ => True

/-- What node `i` is about to do, given its votes in the history `l`: nothing, send a prevote that
respects its lock, or send the precommit it has just locked for. -/
inductive Pending (N : Network) (l : List (Vote UInt64 B256)) (i : UInt64) (e : ConsensusEngine) :
    List ConsensusEvent → Prop
  | quiet {evs : List ConsensusEvent} (inert : ∀ ev ∈ evs, Inert ev) (lock : lock i l = e.lockPair) :
      Pending N l i e evs
  | prevote (h : B256) (lock : lock i l = e.lockPair)
      (unlocked : e.state.lockedHash = none → N.Proposed e.state.round.toNat h)
      (locked : ∀ h', e.state.lockedHash = some h' → h = h') :
      Pending N l i e [.sendPrevote e.state.height e.state.round (some h)]
  | precommit (h : B256) (locked : e.LockedOn e.state.round h) (reach : e.PrevotesReach e.state.round h) :
      Pending N l i e [.sendPrecommit e.state.height e.state.round (some h)]

/-- Node `i` timed out of round `r`, holding a lock only if it had precommitted it. -/
def LeftRound (sent : List ConsensusMessage) (log : List LogEntry) (i : UInt64) (r : UInt32) : Prop :=
  ∃ entry ∈ log, entry.node = i ∧ entry.call = .onTimeout ∧ entry.before.state.round = r ∧
    entry.before.state.step ≠ .committed ∧
    ∀ r' h, entry.before.LockedOn r' h → r'.toNat ≤ r.toNat ∧ .precommit i r'.toNat h ∈ history sent

/-- The part of the invariant that a recorded call keeps as well. -/
structure EngineOk (N : Network) (sent : List ConsensusMessage) (e : ConsensusEngine) : Prop where
  inv : Inv e
  height : e.state.height = N.height
  validatorSet : e.validatorSet = N.validatorSet
  config : e.fastPath.config = N.fastPathConfig
  stored : Stored e (N.Deliverable sent)

structure NodeInv (N : Network) (sent : List ConsensusMessage) (log : List LogEntry) (i : UInt64) (n : Node) :
    Prop where
  ok : EngineOk N sent n.engine
  rounds : ∀ e ∈ history sent, e.voter = i → e.round ≤ n.engine.state.round.toNat
  precommits : ∀ r h, .precommit i r h ∈ history sent →
    ∃ r' : UInt32, r'.toNat = r ∧ n.engine.PrevotesReach r' h
  pending : Pending N (history sent) i n.engine n.events
  left : ∀ r : UInt32, r.toNat < n.engine.state.round.toNat → LeftRound sent log i r

structure EntryOk (N : Network) (sent : List ConsensusMessage) (entry : LogEntry) : Prop where
  ok : EngineOk N sent entry.before
  message : ∀ ord msg, entry.call = .onMessage ord msg → N.Deliverable sent msg
  noStart : entry.call.isStart = false
  events : entry.events = (entry.before.call entry.call).2

structure NetInv (hm : N.QuorumsMeet) (s : Net) : Prop where
  justified : (N.setting hm).Justified (history s.sent)
  votes : ∀ msg ∈ s.sent, ∃ v ∈ N.honest, voter? msg = some v
  nodes : ∀ i ∈ N.honest, NodeInv N s.sent s.log i (s.nodes i)
  log : ∀ entry ∈ s.log, EntryOk N s.sent entry

/-! ### Growing histories -/

variable {sent sent' : List ConsensusMessage} {log : List LogEntry} {i : UInt64} {e e' : ConsensusEngine}
  {msg : ConsensusMessage} {evs : List ConsensusEvent} {c : Call}

theorem Deliverable.mono (hs : sent ⊆ sent') (h : N.Deliverable sent msg) : N.Deliverable sent' msg :=
  h.imp_left fun hm => hs hm

theorem history_subset (hs : sent ⊆ sent') : history sent ⊆ history sent' := List.filterMap_subset _ hs

theorem EngineOk.mono (hs : sent ⊆ sent') (h : EngineOk N sent e) : EngineOk N sent' e :=
  { h with stored := h.stored.mono fun _ hm => hm.mono hs }

theorem EntryOk.mono {entry : LogEntry} (hs : sent ⊆ sent') (h : EntryOk N sent entry) :
    EntryOk N sent' entry :=
  { h with ok := h.ok.mono hs, message := fun ord msg hc => (h.message ord msg hc).mono hs }

theorem LeftRound.mono {r : UInt32} {log' : List LogEntry} (hs : sent ⊆ sent') (hl : log ⊆ log')
    (h : LeftRound sent log i r) : LeftRound sent' log' i r := by
  obtain ⟨entry, hmem, h1, h2, h3, h4, h5⟩ := h
  exact ⟨entry, hl hmem, h1, h2, h3, h4, fun r' b hb => ⟨(h5 r' b hb).1, history_subset hs (h5 r' b hb).2⟩⟩

theorem history_cons_of_ne (sent : List ConsensusMessage) (hv : voter? msg ≠ some i) :
    lock i (history (msg :: sent)) = lock i (history sent) ∧
      ∀ x ∈ history (msg :: sent), x.voter = i → x ∈ history sent := by
  have hcons : history (msg :: sent) = (voteOf msg).toList ++ history sent := by
    unfold history
    rw [List.filterMap_cons]
    cases voteOf msg <;> rfl
  rw [hcons]
  cases hvote : voteOf msg with
  | none => exact ⟨rfl, fun x hx _ => hx⟩
  | some x =>
    have hx : x.voter ≠ i := by
      rintro rfl
      apply hv
      unfold voteOf at hvote
      split at hvote <;> cases hvote <;> rfl
    refine ⟨?_, fun y hy hyi => ?_⟩
    · cases x with
      | prevote => rfl
      | precommit u r h => exact if_neg hx
    · rcases List.mem_cons.mp hy with rfl | hy
      · exact absurd hyi hx
      · exact hy

theorem Pending.congr {l l' : List (Vote UInt64 B256)} (hl : lock i l' = lock i l)
    (h : Pending N l i e evs) : Pending N l' i e evs := by
  cases h with
  | quiet inert lock => exact .quiet inert (hl.trans lock)
  | prevote b lock unlocked locked => exact .prevote b (hl.trans lock) unlocked locked
  | precommit b locked reach => exact .precommit b locked reach

theorem NodeInv.log_mono {n : Node} {log' : List LogEntry} (hl : log ⊆ log') (h : NodeInv N sent log i n) :
    NodeInv N sent log' i n :=
  { h with left := fun r hr => (h.left r hr).mono (List.Subset.refl _) hl }

theorem NodeInv.other {n : Node} (hv : voter? msg ≠ some i) (h : NodeInv N sent log i n) :
    NodeInv N (msg :: sent) log i n := by
  obtain ⟨hlock, hmem⟩ := history_cons_of_ne sent hv
  have hs : sent ⊆ msg :: sent := List.subset_cons_self ..
  exact
    { ok := h.ok.mono hs
      rounds := fun x hx hxi => h.rounds x (hmem x hx hxi) hxi
      precommits := fun r b hb => h.precommits r b (hmem _ hb rfl)
      pending := h.pending.congr hlock
      left := fun r hr => (h.left r hr).mono hs (List.Subset.refl _) }

/-! ### One call of one node -/

theorem EngineOk.call (h : EngineOk N sent e) (hn : c.isStart = false)
    (hmsg : ∀ ord msg, c = .onMessage ord msg → N.Deliverable sent msg) :
    EngineOk N sent (e.call c).1 where
  inv := inv_call h.inv c
  height := ((e.call_step c).height_eq hn).trans h.height
  validatorSet := (e.call_step c).validatorSet_eq.trans h.validatorSet
  config := (e.call_step c).config_eq.trans h.config
  stored := h.stored.call (e.call_step c) hmsg

/-- A node with nothing to send: its lock is the one the history gives it. -/
structure Ready (N : Network) (sent : List ConsensusMessage) (log : List LogEntry) (i : UInt64)
    (e : ConsensusEngine) : Prop where
  ok : EngineOk N sent e
  rounds : ∀ x ∈ history sent, x.voter = i → x.round ≤ e.state.round.toNat
  precommits : ∀ r h, .precommit i r h ∈ history sent → ∃ r' : UInt32, r'.toNat = r ∧ e.PrevotesReach r' h
  lock : lock i (history sent) = e.lockPair
  left : ∀ r : UInt32, r.toNat < e.state.round.toNat → LeftRound sent log i r

theorem pending_step {l : List (Vote UInt64 B256)} (hs : MessageStep e msg e' evs)
    (hl : lock i l = e.lockPair)
    (hprop : ∀ height h proposer, msg = .proposal height e.state.round h proposer →
      N.Proposed e.state.round.toNat h) : Pending N l i e' evs := by
  cases hs with
  | ignored | prevote | precommit => exact .quiet (fun ev hev => absurd hev List.not_mem_nil) hl
  | proposal h hmsg =>
    refine .prevote (e := e.acceptProposal h) _ hl (fun hn => ?_) fun h' hh' => ?_
    · rw [show e.state.lockedHash = none from hn]
      exact hprop _ h _ hmsg
    · rw [show e.state.lockedHash = some h' from hh']; rfl
  | lock b v q hmsg fresh quorum => exact .precommit (e := (e.storePrevote b v).lockOn q) q ⟨rfl, rfl⟩ quorum
  | relock b v q hmsg fresh quorum locked =>
    refine .quiet (fun ev hev => absurd hev List.not_mem_nil) ?_
    rw [hl, locked.lockPair]; rfl
  | fastFinalize | commit =>
    refine .quiet (fun ev hev => ?_) hl
    rw [List.mem_singleton.mp hev]; trivial

theorem pending_call {l : List (Vote UInt64 B256)} (hs : CallStep e c e' evs) (hn : c.isStart = false)
    (hl : lock i l = e.lockPair)
    (hprop : ∀ ord height h proposer, c = .onMessage ord (.proposal height e.state.round h proposer) →
      N.Proposed e.state.round.toNat h) : Pending N l i e' evs := by
  cases hs with
  | start => cases hn
  | message ord msg step =>
    exact pending_step step hl fun height h p hmsg => hprop ord height h p (by rw [hmsg])
  | late => exact .quiet (fun ev hev => absurd hev List.not_mem_nil) hl
  | timeout =>
    refine .quiet (fun ev hev => ?_) hl
    rcases List.mem_cons.mp hev with rfl | hev
    · trivial
    · rw [List.mem_singleton.mp hev]; trivial

/-- A call that raises the round is a timeout of the round before. -/
theorem call_round_lt (hs : CallStep e c e' evs) (hn : c.isStart = false) {r : UInt32}
    (hr : r.toNat < e'.state.round.toNat) : r.toNat < e.state.round.toNat ∨
      (c = .onTimeout ∧ e.state.step ≠ .committed ∧ e.state.round = r) := by
  cases hs with
  | start => cases hn
  | message ord msg step =>
    rw [step.round_eq] at hr
    exact .inl hr
  | late => exact .inl hr
  | timeout hc =>
    simp only [nextRound, RoundState.advanceRound, UInt32.toNat_saturatingAdd,
      show (1 : UInt32).toNat = 1 from rfl] at hr
    rcases Nat.lt_or_ge r.toNat e.state.round.toNat with hlt | hge
    · exact .inl hlt
    · exact .inr ⟨rfl, hc, UInt32.toNat_inj.mp (by omega)⟩

theorem Ready.call (h : Ready N sent log i e) (hn : c.isStart = false)
    (hmsg : ∀ ord msg, c = .onMessage ord msg → N.Deliverable sent msg)
    (hvotes : ∀ msg ∈ sent, ∃ v ∈ N.honest, voter? msg = some v) :
    NodeInv N sent (⟨i, e, c, (e.call c).2⟩ :: log) i ⟨(e.call c).1, (e.call c).2⟩ where
  ok := h.ok.call hn hmsg
  rounds x hx hxi := (h.rounds x hx hxi).trans ((e.call_step c).later hn).round
  precommits r b hb := by
    obtain ⟨r', hr', hq⟩ := h.precommits r b hb
    exact ⟨r', hr', (e.call_step c).prevotesReach hn hq⟩
  pending := by
    refine pending_call (e.call_step c) hn h.lock fun ord height b proposer hc => ?_
    rcases hmsg _ _ hc with hsent | hext
    · obtain ⟨v, -, hv⟩ := hvotes _ hsent
      cases hv
    · exact ⟨height, _, proposer, rfl, hext⟩
  left r hr := by
    rcases call_round_lt (e.call_step c) hn hr with hlt | ⟨rfl, hnc, rfl⟩
    · exact (h.left r hlt).mono (List.Subset.refl _) (List.subset_cons_self ..)
    · refine ⟨_, List.mem_cons_self .., rfl, rfl, rfl, hnc, fun r' b hb => ⟨h.ok.inv.le_round r' hb.1, ?_⟩⟩
      exact mem_of_lock (h.lock.trans hb.lockPair)

/-! ### Sending a vote -/

theorem NodeInv.ready {n : Node} (h : NodeInv N sent log i n) (hl : lock i (history sent) = n.engine.lockPair) :
    Ready N sent log i n.engine :=
  ⟨h.ok, h.rounds, h.precommits, hl, h.left⟩

theorem EngineOk.prevoteQuorum (hA : N.Authentic) (h : EngineOk N sent e) {r : UInt32} {b : B256}
    (hq : e.PrevotesReach r b) : (N.setting hm).PrevoteQuorum (history sent) r.toNat b := by
  rw [PrevotesReach, h.validatorSet] at hq
  refine ⟨e.state.prevotes.voters r b, hq, fun v hv hc => ?_⟩
  rcases h.stored.prevotes r v _ (Votes.mem_voters.mp hv) with hsent | hext
  · exact mem_history_of_prevote hsent
  · exact absurd (correct_iff.mp hc) (hA _ v hext rfl)

theorem EngineOk.precommitQuorum (hA : N.Authentic) (h : EngineOk N sent e) {r : UInt32} {b : B256}
    (hq : e.PrecommitsReach r b) : (N.setting hm).PrecommitQuorum (history sent) r.toNat b := by
  rw [PrecommitsReach, h.validatorSet] at hq
  refine ⟨e.state.precommits.voters r b, hq, fun v hv hc => ?_⟩
  rcases h.stored.precommits r v _ (Votes.mem_voters.mp hv) with hsent | hext
  · exact mem_history_of_precommit hsent
  · exact absurd (correct_iff.mp hc) (hA _ v hext rfl)

theorem EngineOk.oneQuorum (hm : N.QuorumsMeet) (h : EngineOk N sent e) : OneQuorum e := by
  refine oneQuorum_of_total ?_
  rw [h.validatorSet]
  exact lt_of_le_of_lt (Nat.le_add_right _ _) hm

section Say
variable {b : B256} (h : NodeInv N sent log i ⟨e, evs⟩)
include h

theorem NodeInv.say_prevote (hl : lock i (history sent) = e.lockPair) :
    Ready N (.prevote e.state.height e.state.round (some b) i :: sent) log i e where
  ok := h.ok.mono (List.subset_cons_self ..)
  rounds x hx hxi := by
    rcases List.mem_cons.mp hx with rfl | hx
    · exact le_rfl
    · exact h.rounds x hx hxi
  precommits r b' hb := h.precommits r b' ((List.mem_cons.mp hb).resolve_left nofun)
  lock := hl
  left r hr := (h.left r hr).mono (List.subset_cons_self ..) (List.Subset.refl _)

theorem NodeInv.justified_prevote (hj : (N.setting hm).Justified (history sent))
    (hl : lock i (history sent) = e.lockPair)
    (unlocked : e.state.lockedHash = none → N.Proposed e.state.round.toNat b)
    (locked : ∀ h', e.state.lockedHash = some h' → b = h') :
    (N.setting hm).Justified (history (.prevote e.state.height e.state.round (some b) i :: sent)) := by
  refine .prevote hj (fun x hx hxi => h.rounds x hx hxi) (fun hn => ?_) fun r' h' hs => ?_
  · exact unlocked (h.ok.inv.lockedHash_of_lockPair (hl.symm.trans hn))
  · obtain ⟨r₁, -, hlo⟩ := lockedOn_of_lockPair (hl.symm.trans hs)
    exact locked h' hlo.2

theorem NodeInv.say_precommit (locked : e.LockedOn e.state.round b)
    (reach : e.PrevotesReach e.state.round b) :
    Ready N (.precommit e.state.height e.state.round (some b) i :: sent) log i e where
  ok := h.ok.mono (List.subset_cons_self ..)
  rounds x hx hxi := by
    rcases List.mem_cons.mp hx with rfl | hx
    · exact le_rfl
    · exact h.rounds x hx hxi
  precommits r b' hb := by
    rcases List.mem_cons.mp hb with hb | hb
    · cases hb; exact ⟨_, rfl, reach⟩
    · exact h.precommits r b' hb
  lock := (if_pos rfl).trans locked.lockPair.symm
  left r hr := (h.left r hr).mono (List.subset_cons_self ..) (List.Subset.refl _)

theorem NodeInv.justified_precommit (hA : N.Authentic) (hj : (N.setting hm).Justified (history sent))
    (reach : e.PrevotesReach e.state.round b) :
    (N.setting hm).Justified (history (.precommit e.state.height e.state.round (some b) i :: sent)) := by
  refine .precommit hj (fun x hx hxi => h.rounds x hx hxi) (h.ok.prevoteQuorum hA reach) fun h' hh' => ?_
  obtain ⟨r', hr', hq⟩ := h.precommits _ _ hh'
  obtain rfl := UInt32.toNat_inj.mp hr'
  exact h.ok.oneQuorum hm _ _ _ hq reach

end Say

/-! ### One step of the network -/

variable {s s' : Net}

theorem netInv_run (hj : (N.setting hm).Justified (history s.sent))
    (hv : ∀ msg ∈ s.sent, ∃ v ∈ N.honest, voter? msg = some v)
    (hother : ∀ j ∈ N.honest, j ≠ i → NodeInv N s.sent s.log j (s.nodes j))
    (hlog : ∀ entry ∈ s.log, EntryOk N s.sent entry) (hr : Ready N s.sent s.log i (s.nodes i).engine)
    (hev : (s.nodes i).events = []) (hn : c.isStart = false)
    (hmsg : ∀ ord msg, c = .onMessage ord msg → N.Deliverable s.sent msg) : NetInv hm (s.run i c) where
  justified := hj
  votes := hv
  nodes j hjh := by
    by_cases hij : j = i
    · subst hij
      have := hr.call hn hmsg hv
      simpa only [Net.run, Function.update_self, hev, List.nil_append] using this
    · have := (hother j hjh hij).log_mono (List.subset_cons_self ⟨i, (s.nodes i).engine, c,
        ((s.nodes i).engine.call c).2⟩ _)
      simpa only [Net.run, Function.update_of_ne hij] using this
  log entry he := by
    rcases List.mem_cons.mp he with rfl | he
    · exact ⟨hr.ok, hmsg, hn, rfl⟩
    · exact hlog entry he

theorem netInv_say (h : NetInv hm s) (hi : i ∈ N.honest) (hvoter : voter? msg = some i)
    (hj : (N.setting hm).Justified (history (msg :: s.sent)))
    (hr : Ready N (msg :: s.sent) s.log i (s.nodes i).engine) (hev : ∃ ev, (s.nodes i).events = [ev])
    (ord : TallyOrder) : NetInv hm ((s.pop i).say i ord msg) := by
  obtain ⟨ev, hev⟩ := hev
  have hnode : (s.pop i).nodes i = ⟨(s.nodes i).engine, []⟩ := by
    simp only [Net.pop, Function.update_self, hev, List.dropLast_singleton]
  refine netInv_run (s := { s.pop i with sent := msg :: s.sent }) hj ?_ ?_ ?_ ?_ ?_ rfl ?_
  · intro m hmem
    rcases List.mem_cons.mp hmem with rfl | hmem
    · exact ⟨i, hi, hvoter⟩
    · exact h.votes m hmem
  · intro j hjh hij
    have hne : voter? msg ≠ some j := by rw [hvoter]; exact fun heq => hij (Option.some.inj heq).symm
    have := (h.nodes j hjh).other hne
    simpa only [Net.pop, Function.update_of_ne hij] using this
  · intro entry he
    exact (h.log entry he).mono (List.subset_cons_self ..)
  · simp only [hnode]; exact hr
  · simp only [hnode]
  · rintro ord' m hc
    cases hc
    exact .inl (List.mem_cons_self ..)

theorem netInv_pop (h : NetInv hm s) (hp : Pending N (history s.sent) i (s.nodes i).engine (s.nodes i).events.dropLast) :
    NetInv hm (s.pop i) where
  justified := h.justified
  votes := h.votes
  nodes j hj := by
    by_cases hij : j = i
    · subst hij
      have hn := h.nodes j hj
      simp only [Net.pop, Function.update_self]
      exact ⟨hn.ok, hn.rounds, hn.precommits, hp, hn.left⟩
    · simpa only [Net.pop, Function.update_of_ne hij] using h.nodes j hj
  log := h.log

theorem NodeInv.lock_of_quiet {n : Node} (h : NodeInv N sent log i n) (hev : n.events = []) :
    lock i (history sent) = n.engine.lockPair := by
  have := h.pending
  rw [hev] at this
  cases this with
  | quiet _ lock => exact lock

theorem Pending.process {l : List (Vote UInt64 B256)} (h : Pending N l i e evs) {ev : ConsensusEvent}
    (hlast : evs.getLast? = some ev) :
    (Inert ev ∧ Pending N l i e evs.dropLast) ∨
    (∃ b, ev = .sendPrevote e.state.height e.state.round (some b) ∧ evs = [ev] ∧ lock i l = e.lockPair ∧
      (e.state.lockedHash = none → N.Proposed e.state.round.toNat b) ∧
      ∀ h', e.state.lockedHash = some h' → b = h') ∨
    ∃ b, ev = .sendPrecommit e.state.height e.state.round (some b) ∧ evs = [ev] ∧
      e.LockedOn e.state.round b ∧ e.PrevotesReach e.state.round b := by
  cases h with
  | quiet inert lock =>
    refine .inl ⟨inert ev (List.mem_of_getLast? hlast), .quiet (fun x hx => ?_) lock⟩
    exact inert x (List.mem_of_mem_dropLast hx)
  | prevote b lock unlocked locked =>
    cases hlast
    exact .inr (.inl ⟨b, rfl, rfl, lock, unlocked, locked⟩)
  | precommit b locked reach =>
    cases hlast
    exact .inr (.inr ⟨b, rfl, rfl, locked, reach⟩)

theorem netInv_process (hA : N.Authentic) (h : NetInv hm s) (hi : i ∈ N.honest) {ord : TallyOrder}
    (hs : N.step? s (.process i ord) = some s') : NetInv hm s' := by
  have hn := h.nodes i hi
  have hnode : NodeInv N s.sent s.log i ⟨(s.nodes i).engine, (s.nodes i).events⟩ := hn
  simp only [step?, hi, if_true] at hs
  cases hlast : (s.nodes i).events.getLast? with
  | none => rw [hlast] at hs; cases hs
  | some ev =>
    rw [hlast] at hs
    rcases hn.pending.process hlast with ⟨hin, hp⟩ | ⟨b, rfl, hev, hl, hu, hk⟩ | ⟨b, rfl, hev, hk, hq⟩
    · have hpop : s' = s.pop i := by
        cases ev with
        | sendPrevote | sendPrecommit => exact hin.elim
        | _ => exact (Option.some.inj hs).symm
      rw [hpop]
      exact netInv_pop h hp
    · cases hs
      exact netInv_say h hi rfl (hnode.justified_prevote h.justified hl hu hk) (hnode.say_prevote hl) ⟨_, hev⟩ ord
    · cases hs
      exact netInv_say h hi rfl (hnode.justified_precommit hA h.justified hq) (hnode.say_precommit hk hq)
        ⟨_, hev⟩ ord

theorem netInv_step (hA : N.Authentic) (h : NetInv hm s) (l : Label) (hs : N.step? s l = some s') :
    NetInv hm s' := by
  have hrun : ∀ i c, i ∈ N.honest → (s.nodes i).events = [] → c.isStart = false →
      (∀ ord msg, c = .onMessage ord msg → N.Deliverable s.sent msg) → NetInv hm (s.run i c) := by
    intro i c hi hev hn hmsg
    have hni := h.nodes i hi
    exact netInv_run h.justified h.votes (fun j hj _ => h.nodes j hj) h.log
      (hni.ready (hni.lock_of_quiet hev)) hev hn hmsg
  cases l with
  | deliver i ord msg =>
    simp only [step?] at hs
    split_ifs at hs with hc
    cases hs
    refine hrun i _ hc.1 hc.2.1 rfl fun ord' m heq => ?_
    cases heq
    exact hc.2.2
  | timeout i =>
    simp only [step?] at hs
    split_ifs at hs with hc
    cases hs
    exact hrun i _ hc.1 hc.2 rfl fun ord' m heq => by cases heq
  | process i ord =>
    have hi : i ∈ N.honest := by
      by_contra hi
      simp [step?, hi] at hs
    exact netInv_process hA h hi hs

theorem netInv_init (hm : N.QuorumsMeet) : NetInv hm N.init where
  justified := .nil
  votes msg hmem := by cases hmem
  nodes i _ :=
    { ok := ⟨inv_startHeight _ _, rfl, rfl, rfl, .of_empty rfl rfl⟩
      rounds := fun x hx => by cases hx
      precommits := fun r b hb => by cases hb
      pending := .quiet (fun ev hev => by rw [List.mem_singleton.mp hev]; trivial) rfl
      left := fun r hr => absurd hr (Nat.not_lt_zero _) }
  log entry he := by cases he

theorem Reachable.netInv (hA : N.Authentic) (hm : N.QuorumsMeet) (hs : N.Reachable s) : NetInv hm s := by
  induction hs with
  | init => exact netInv_init hm
  | step l _ hstep ih => exact netInv_step hA ih l hstep

/-! ### Finalised blocks -/

/-- What a finalised block rests on: a precommit quorum, or enough prevotes of one round for the fast
path, the last of them just delivered. -/
theorem EntryOk.finalized (hA : N.Authentic) {entry : LogEntry} (h : EntryOk N sent entry) {height : UInt64}
    {b : B256} {r : UInt32} (hfin : .blockFinalized height b r ∈ entry.events) :
    (N.setting hm).PrecommitQuorum (history sent) r.toNat b ∨
    ∃ ord v, entry.call = .onMessage ord (.prevote N.height r (some b) v) ∧ entry.before.state.round = r ∧
      0 < N.fastPathConfig.optimisticThreshold ∧ ∃ A : Finset UInt64,
        N.fastPathConfig.optimisticThreshold ≤ A.card ∧
        ∀ u ∈ A, (entry.before.storePrevote (some b) v).HasPrevote u b := by
  obtain ⟨i, e, c, evs⟩ := entry
  have hok : EngineOk N sent e := h.ok
  have hev : evs = (e.call c).2 := h.events
  subst hev
  have hok' : EngineOk N sent (e.call c).1 := hok.call h.noStart h.message
  obtain ⟨ord, msg, rfl, hs⟩ := (e.call_step c).of_mem hfin rfl
  obtain ⟨rfl, rfl, hq | ⟨v, p, rfl, fresh, fast, -⟩⟩ := hs.finalized hfin
  · exact .inl (hok'.precommitQuorum hA hq)
  · have hfast := hok.inv.fast_quorum fresh fast
    rw [hok.config] at hfast
    exact .inr ⟨ord, v, by rw [hok.height], rfl, hfast⟩

end Network

end Eth2077
