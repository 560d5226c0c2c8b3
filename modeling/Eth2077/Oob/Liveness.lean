import Eth2077.Lib.Runs
import Eth2077.Oob.Finality
import Eth2077.Oob.NetworkInv
import Eth2077.Oob.OpenRound

/-!
# A round that is not timed out finalises

The faulty members have stopped, the leader of a round proposes one block, and all correct members are in
that round. If they stay in it until everything that was sent has reached everybody, in whatever order, then
every one of them has finalised the block (`round_finalizes`): on the fast path or on precommits, and also if
some finalise before they have sent a precommit of their own.
-/

namespace Eth2077
open ConsensusEngine

namespace Network
variable (N : Network) (r : UInt32) (h : B256)

def leader : UInt64 := N.validatorSet.leaderForRound N.height r

/-- The members that are not correct are silent, and the leader of the round proposes nothing but `h`. -/
structure CrashFaults : Prop where
  votes : ∀ msg, N.external msg = true → voter? msg = none
  proposal : ∀ h', N.external (.proposal N.height r h' (N.leader r)) = true → h' = h

/-- The engine runs at the height of the network and is in round `r`. -/
structure At (e : ConsensusEngine) : Prop where
  height : e.state.height = N.height
  round : e.state.round = r
  validatorSet : e.validatorSet = N.validatorSet
  config : e.fastPath.config = N.fastPathConfig

/-- Everybody has entered the round, unlocked or locked on `h`, and nobody has voted in it. -/
structure Synced (s : Net) : Prop where
  sent : ∀ msg ∈ s.sent, voter? msg ≠ none ∧ ¬ (msg.height = N.height ∧ msg.round = r)
  engines : ∀ i ∈ N.honest, N.At r (s.nodes i).engine ∧ (s.nodes i).engine.Entered h
  events : ∀ i ∈ N.honest, ∀ ev ∈ (s.nodes i).events, Inert ev

/-! ### The votes of the round -/

/-- The votes that have been sent are enough to finalise `h`. -/
def Certified (sent : List ConsensusMessage) : Prop :=
  (∃ A, N.validatorSet.quorumWeight.toNat ≤ N.validatorSet.weights.of A ∧
    ∀ v ∈ A, .precommit N.height r (some h) v ∈ sent) ∨
  ∃ A : Finset UInt64, 0 < N.fastPathConfig.optimisticThreshold ∧ N.fastPathConfig.optimisticThreshold ≤ A.card ∧
    ∀ v ∈ A, .prevote N.height r (some h) v ∈ sent

/-- A node that has not finalised: it has stored the votes it has heard, has prevoted if it has heard the
proposal, and has precommitted if it is locked, or is about to. -/
structure Voting (sent : List ConsensusMessage) (heard : ConsensusMessage → Prop) (i : UInt64) (n : Node) :
    Prop where
  at_ : N.At r n.engine
  isOpen : n.engine.Open h
  prevotes : ∀ v, (r, v) ∈ n.engine.state.prevotes → .prevote N.height r (some h) v ∈ sent
  precommits : ∀ v, (r, v) ∈ n.engine.state.precommits → .precommit N.height r (some h) v ∈ sent
  heardPrevote : ∀ b v, heard (.prevote N.height r b v) → (r, v) ∈ n.engine.state.prevotes
  heardPrecommit : ∀ b v, heard (.precommit N.height r b v) → (r, v) ∈ n.engine.state.precommits
  heardProposal : heard (.proposal N.height r h (N.leader r)) →
    .prevote N.height r (some h) i ∈ sent ∨ .sendPrevote N.height r (some h) ∈ n.events
  locked : n.engine.LockedOn r h →
    .precommit N.height r (some h) i ∈ sent ∨ .sendPrecommit N.height r (some h) ∈ n.events

/-- The node has finalised `h`, on votes that everybody can hear. -/
structure Done (s : Net) (i : UInt64) : Prop where
  step : (s.nodes i).engine.state.step = .committed
  finalized : s.Finalized i N.height h r
  certified : N.Certified r h s.sent

/-- What a node may have to do in the round. -/
def Task (ev : ConsensusEvent) : Prop :=
  Inert ev ∨ ev = .sendPrevote N.height r (some h) ∨ ev = .sendPrecommit N.height r (some h)

/-- What may reach a node in the round: votes that were sent, and the leader's proposal. -/
def Sound (sent : List ConsensusMessage) (msg : ConsensusMessage) : Prop :=
  (∃ v, msg = .prevote N.height r (some h) v ∧ msg ∈ sent) ∨
  (∃ v, msg = .precommit N.height r (some h) v ∧ msg ∈ sent) ∨
  ∃ h' p, msg = .proposal N.height r h' p ∧ (p = N.leader r → h' = h)

variable {N} {r} {h} {sent sent' : List ConsensusMessage} {heard heard' : ConsensusMessage → Prop} {i v : UInt64}
  {n : Node} {e : ConsensusEngine} {msg : ConsensusMessage} {ord : TallyOrder}

theorem Certified.mono (hc : N.Certified r h sent) (hsub : sent ⊆ sent') : N.Certified r h sent' := by
  rcases hc with ⟨A, hA, hall⟩ | ⟨A, hpos, hA, hall⟩
  · exact .inl ⟨A, hA, fun v hv => hsub (hall v hv)⟩
  · exact .inr ⟨A, hpos, hA, fun v hv => hsub (hall v hv)⟩

theorem At.onMessage (ha : N.At r e) (ord : TallyOrder) (msg : ConsensusMessage) : N.At r (e.onMessage ord msg).1 := by
  have hs := e.onMessage_step ord msg
  exact ⟨hs.height_eq.trans ha.height, hs.round_eq.trans ha.round, hs.validatorSet_eq.trans ha.validatorSet,
    hs.config_eq.trans ha.config⟩

theorem Voting.mono (hv : N.Voting r h sent heard i n) (hsub : sent ⊆ sent') (hheard : ∀ m, heard' m → heard m) :
    N.Voting r h sent' heard' i n where
  at_ := hv.at_
  isOpen := hv.isOpen
  prevotes v hm := hsub (hv.prevotes v hm)
  precommits v hm := hsub (hv.precommits v hm)
  heardPrevote b v hb := hv.heardPrevote b v (hheard _ hb)
  heardPrecommit b v hb := hv.heardPrecommit b v (hheard _ hb)
  heardProposal hp := (hv.heardProposal (hheard _ hp)).imp_left fun hm => hsub hm
  locked hl := (hv.locked hl).imp_left fun hm => hsub hm

/-- A message that leaves the engine as it is: what it says is known already. -/
theorem Voting.hear (hv : N.Voting r h sent heard i n)
    (hprevote : ∀ b v, msg = .prevote N.height r b v → (r, v) ∈ n.engine.state.prevotes)
    (hprecommit : ∀ b v, msg = .precommit N.height r b v → (r, v) ∈ n.engine.state.precommits)
    (hproposal : msg ≠ .proposal N.height r h (N.leader r)) :
    N.Voting r h sent (fun m => heard m ∨ m = msg) i n where
  at_ := hv.at_
  isOpen := hv.isOpen
  prevotes := hv.prevotes
  precommits := hv.precommits
  heardPrevote b v hb := hb.elim (hv.heardPrevote b v) fun heq => hprevote b v heq.symm
  heardPrecommit b v hb := hb.elim (hv.heardPrecommit b v) fun heq => hprecommit b v heq.symm
  heardProposal hp := hp.elim hv.heardProposal fun heq => absurd heq.symm hproposal
  locked := hv.locked

/-! ### A node hears a message -/

/-- The node has nothing new to do and stays as it is. -/
theorem Voting.idle (hv : N.Voting r h sent heard i n) (evs : List ConsensusEvent) :
    N.Voting r h sent heard i ⟨n.engine, n.events ++ evs⟩ where
  at_ := hv.at_
  isOpen := hv.isOpen
  prevotes := hv.prevotes
  precommits := hv.precommits
  heardPrevote := hv.heardPrevote
  heardPrecommit := hv.heardPrecommit
  heardProposal hp := (hv.heardProposal hp).imp_right (List.mem_append_left _)
  locked hl := (hv.locked hl).imp_right (List.mem_append_left _)

/-- What may come of a message: the node goes on voting, or it finalises on votes that have been sent. -/
structure Heard (N : Network) (r : UInt32) (h : B256) (sent : List ConsensusMessage)
    (heard : ConsensusMessage → Prop) (i : UInt64) (n : Node) (res : ConsensusEngine × List ConsensusEvent) :
    Prop where
  tasks : ∀ ev ∈ res.2, N.Task r h ev
  outcome : N.Voting r h sent heard i ⟨res.1, n.events ++ res.2⟩ ∨
    res.1.state.step = .committed ∧ .blockFinalized N.height h r ∈ res.2 ∧ N.Certified r h sent

theorem Voting.hear_elsewhere (hv : N.Voting r h sent heard i n) (hmsg : ¬ (msg.height = N.height ∧ msg.round = r)) :
    N.Heard r h sent (fun m => heard m ∨ m = msg) i n (n.engine.onMessage ord msg) := by
  rw [onMessage_of_elsewhere (by rwa [hv.at_.height, hv.at_.round])]
  refine ⟨nofun, .inl ((hv.hear ?_ ?_ ?_).idle [])⟩
  · rintro b v rfl
    exact absurd ⟨rfl, rfl⟩ hmsg
  · rintro b v rfl
    exact absurd ⟨rfl, rfl⟩ hmsg
  · rintro rfl
    exact hmsg ⟨rfl, rfl⟩

theorem Voting.hear_proposal (hv : N.Voting r h sent heard i n) {b : B256} {p : UInt64}
    (hb : p = N.leader r → b = h) (hmsg : msg = .proposal N.height r b p) :
    N.Heard r h sent (fun m => heard m ∨ m = msg) i n (n.engine.onMessage ord msg) := by
  have hleader : N.leader r = n.engine.validatorSet.leaderForRound n.engine.state.height n.engine.state.round := by
    rw [leader, hv.at_.validatorSet, hv.at_.height, hv.at_.round]
  by_cases hp : p = N.leader r
  · obtain rfl := hb hp
    have hmsg' : msg = .proposal n.engine.state.height n.engine.state.round b
        (n.engine.validatorSet.leaderForRound n.engine.state.height n.engine.state.round) := by
      rw [hmsg, hp, hleader, hv.at_.height, hv.at_.round]
    obtain ⟨heq, hopen⟩ := hv.isOpen.onProposal ord
    rw [hmsg', heq, hv.at_.height, hv.at_.round]
    refine ⟨fun ev hev => .inr (.inl (List.mem_singleton.mp hev)), .inl ?_⟩
    exact
      { at_ := ⟨hv.at_.height, hv.at_.round, hv.at_.validatorSet, hv.at_.config⟩
        isOpen := hopen
        prevotes := hv.prevotes
        precommits := hv.precommits
        heardPrevote := fun b v hb => hb.elim (hv.heardPrevote b v) fun heq => by cases heq
        heardPrecommit := fun b v hb => hb.elim (hv.heardPrecommit b v) fun heq => by cases heq
        heardProposal := fun _ => .inr (List.mem_append_right _ (List.mem_singleton_self _))
        locked := fun hl => (hv.locked hl).imp_right (List.mem_append_left _) }
  · have hstray : n.engine.onMessage ord msg = (n.engine, []) := by
      rw [hmsg, onMessage, if_neg hv.isOpen.step]
      have hp' : p ≠ n.engine.validatorSet.leaderForRound N.height r := by
        rwa [hleader, hv.at_.height, hv.at_.round] at hp
      simp only [onProposal, hv.at_.height, hv.at_.round, ne_eq, not_true_eq_false, or_self, if_false]
      exact if_pos hp'
    rw [hstray]
    refine ⟨List.forall_mem_nil _, .inl ((hv.hear ?_ ?_ ?_).idle [])⟩
    · rintro b v rfl
      cases hmsg
    · rintro b v rfl
      cases hmsg
    · rintro rfl
      cases hmsg
      exact hp rfl

theorem Voting.hear_prevote (hv : N.Voting r h sent heard i n) (hmsg : msg = .prevote N.height r (some h) v)
    (hsent : msg ∈ sent) : N.Heard r h sent (fun m => heard m ∨ m = msg) i n (n.engine.onMessage ord msg) := by
  subst hmsg
  by_cases hold : (r, v) ∈ n.engine.state.prevotes
  · have hdup : n.engine.onMessage ord (.prevote N.height r (some h) v) = (n.engine, []) := by
      rw [onMessage, if_neg hv.isOpen.step]
      simp only [onPrevote, hv.at_.height, hv.at_.round, ne_eq, not_true_eq_false, or_self, if_false,
        RoundState.insertPrevote, Votes.insertVote_of_mem hold]
    rw [hdup]
    refine ⟨List.forall_mem_nil _, .inl ((hv.hear ?_ (fun b u heq => ?_) fun heq => ?_).idle [])⟩
    · rintro b u heq
      cases heq
      exact hold
    · cases heq
    · cases heq
  · have hfresh : (n.engine.state.round, v) ∉ n.engine.state.prevotes := by rwa [hv.at_.round]
    have hat := hv.at_.onMessage ord (.prevote N.height r (some h) v)
    have hstored : ∀ u, (r, u) ∈ AList.insert (r, v) (some h) n.engine.state.prevotes →
        .prevote N.height r (some h) u ∈ sent := by
      intro u hu
      rcases AList.mem_insert _ |>.mp hu with heq | hu
      · cases heq
        exact hsent
      · exact hv.prevotes u hu
    have hstep := hv.isOpen.onPrevote ord hfresh rfl
    rw [hv.at_.height, hv.at_.round] at hstep
    rcases hstep with ⟨hcommit, hevs, hpos, hreach⟩ | ⟨hopen, hprev, hprec, hevs⟩
    · refine ⟨fun ev hev => ?_, .inr ⟨hcommit, by rw [hevs]; exact List.mem_singleton_self _, .inr ?_⟩⟩
      · rw [hevs] at hev
        exact .inl (by rw [List.mem_singleton.mp hev]; trivial)
      · have hconfig : (n.engine.storePrevote (some h) v).fastPath.config = N.fastPathConfig :=
          (FastPathAccumulator.addAttestation_config _ _).trans hv.at_.config
        rw [hconfig] at hpos hreach
        refine ⟨_, hpos, hreach, fun u hu => hstored u ?_⟩
        have hu := Votes.mem_voters.mp hu
        rw [storePrevote, hv.at_.round] at hu
        exact mem_iff_exists_lookup.mpr ⟨_, hu⟩
    · refine ⟨fun ev hev => ?_, .inl ⟨hat, hopen, ?_, ?_, ?_, ?_, ?_, ?_⟩⟩
      · rcases hevs with ⟨hevs, -⟩ | hevs <;> rw [hevs] at hev
        · cases hev
        · exact .inr (.inr (List.mem_singleton.mp hev))
      · rw [hprev]
        exact hstored
      · rw [hprec]
        exact hv.precommits
      · rintro b u (hu | heq)
        · rw [hprev]
          exact AList.mem_insert _ |>.mpr (.inr (hv.heardPrevote b u hu))
        · cases heq
          rw [hprev]
          exact AList.mem_insert _ |>.mpr (.inl rfl)
      · rintro b u (hu | heq)
        · rw [hprec]
          exact hv.heardPrecommit b u hu
        · cases heq
      · rintro (hp | heq)
        · exact (hv.heardProposal hp).imp_right (List.mem_append_left _)
        · cases heq
      · intro hl
        rcases hevs with ⟨-, hold⟩ | hevs
        · exact (hv.locked (hold hl)).imp_right (List.mem_append_left _)
        · exact .inr (List.mem_append_right _ (by rw [hevs]; exact List.mem_singleton_self _))

theorem Voting.hear_precommit (hv : N.Voting r h sent heard i n) (hmsg : msg = .precommit N.height r (some h) v)
    (hsent : msg ∈ sent) : N.Heard r h sent (fun m => heard m ∨ m = msg) i n (n.engine.onMessage ord msg) := by
  subst hmsg
  by_cases hold : (r, v) ∈ n.engine.state.precommits
  · have hdup : n.engine.onMessage ord (.precommit N.height r (some h) v) = (n.engine, []) := by
      rw [onMessage, if_neg hv.isOpen.step]
      simp only [onPrecommit, hv.at_.height, hv.at_.round, ne_eq, not_true_eq_false, or_self, if_false,
        RoundState.insertPrecommit, Votes.insertVote_of_mem hold]
    rw [hdup]
    refine ⟨List.forall_mem_nil _, .inl ((hv.hear (fun b u heq => ?_) ?_ fun heq => ?_).idle [])⟩
    · cases heq
    · rintro b u heq
      cases heq
      exact hold
    · cases heq
  · have hfresh : (n.engine.state.round, v) ∉ n.engine.state.precommits := by rwa [hv.at_.round]
    have hat := hv.at_.onMessage ord (.precommit N.height r (some h) v)
    have hstored : ∀ u, (r, u) ∈ AList.insert (r, v) (some h) n.engine.state.precommits →
        .precommit N.height r (some h) u ∈ sent := by
      intro u hu
      rcases AList.mem_insert _ |>.mp hu with heq | hu
      · cases heq
        exact hsent
      · exact hv.precommits u hu
    have hstep := hv.isOpen.onPrecommit ord hfresh rfl
    rw [hv.at_.height, hv.at_.round] at hstep
    rcases hstep with ⟨hcommit, hevs, hreach⟩ | ⟨heq, hopen, hevs⟩
    · refine ⟨fun ev hev => ?_, .inr ⟨hcommit, by rw [hevs]; exact List.mem_singleton_self _, .inl ?_⟩⟩
      · rw [hevs] at hev
        exact .inl (by rw [List.mem_singleton.mp hev]; trivial)
      · rw [PrecommitsReach, show (n.engine.storePrecommit (some h) v).validatorSet = N.validatorSet from
          hv.at_.validatorSet] at hreach
        refine ⟨_, hreach, fun u hu => hstored u ?_⟩
        have hu := Votes.mem_voters.mp hu
        rw [storePrecommit, hv.at_.round] at hu
        exact mem_iff_exists_lookup.mpr ⟨_, hu⟩
    · have hprec : (n.engine.onMessage ord (.precommit N.height r (some h) v)).1.state.precommits =
          AList.insert (r, v) (some h) n.engine.state.precommits := by
        rw [heq, storePrecommit, hv.at_.round]
      refine ⟨by rw [hevs]; exact List.forall_mem_nil _, .inl ⟨hat, hopen, ?_, ?_, ?_, ?_, ?_, ?_⟩⟩
      · rw [heq]
        exact hv.prevotes
      · rw [hprec]
        exact hstored
      · rintro b u (hu | hu)
        · rw [heq]
          exact hv.heardPrevote b u hu
        · cases hu
      · rintro b u (hu | hu)
        · rw [hprec]
          exact AList.mem_insert _ |>.mpr (.inr (hv.heardPrecommit b u hu))
        · cases hu
          rw [hprec]
          exact AList.mem_insert _ |>.mpr (.inl rfl)
      · rintro (hp | hp)
        · exact (hv.heardProposal hp).imp_right (List.mem_append_left _)
        · cases hp
      · intro hl
        rw [heq] at hl
        exact (hv.locked hl).imp_right (List.mem_append_left _)

theorem Voting.onMessage (hv : N.Voting r h sent heard i n) (ord : TallyOrder)
    (hmsg : msg.height = N.height ∧ msg.round = r → N.Sound r h sent msg) :
    N.Heard r h sent (fun m => heard m ∨ m = msg) i n (n.engine.onMessage ord msg) := by
  by_cases helse : msg.height = N.height ∧ msg.round = r
  · rcases hmsg helse with ⟨v, heq, hsent⟩ | ⟨v, heq, hsent⟩ | ⟨b, p, heq, hb⟩
    · exact hv.hear_prevote heq hsent
    · exact hv.hear_precommit heq hsent
    · exact hv.hear_proposal hb heq
  · exact hv.hear_elsewhere helse

/-! ### One step of the network -/

/-- The invariant of the round; `G i` are the messages that node `i` has got. -/
structure RoundInv (N : Network) (r : UInt32) (h : B256) (G : UInt64 → ConsensusMessage → Prop) (s : Net) :
    Prop where
  sent : ∀ msg ∈ s.sent, voter? msg ≠ none ∧ (msg.height = N.height ∧ msg.round = r →
    ∃ v, msg = .prevote N.height r (some h) v ∨ msg = .precommit N.height r (some h) v)
  tasks : ∀ i ∈ N.honest, ∀ ev ∈ (s.nodes i).events, N.Task r h ev
  nodes : ∀ i ∈ N.honest, N.Voting r h s.sent (G i) i (s.nodes i) ∨ N.Done r h s i

variable {G G' : UInt64 → ConsensusMessage → Prop} {s s' : Net} {ls : List Label}

theorem RoundInv.mono (hinv : N.RoundInv r h G s) (hG : ∀ i m, G' i m → G i m) : N.RoundInv r h G' s where
  sent := hinv.sent
  tasks := hinv.tasks
  nodes i hi := (hinv.nodes i hi).imp_left fun hv => hv.mono (List.Subset.refl _) (hG i)

theorem RoundInv.sound (hinv : N.RoundInv r h G s) (hc : N.CrashFaults r h) (hmsg : N.Deliverable s.sent msg)
    (hround : msg.height = N.height ∧ msg.round = r) : N.Sound r h s.sent msg := by
  rcases hmsg with hsent | hext
  · obtain ⟨v, rfl | rfl⟩ := (hinv.sent msg hsent).2 hround
    · exact .inl ⟨v, rfl, hsent⟩
    · exact .inr (.inl ⟨v, rfl, hsent⟩)
  · have hvoter := hc.votes msg hext
    cases msg with
    | proposal height round b p =>
      obtain ⟨rfl, rfl⟩ := hround
      refine .inr (.inr ⟨b, p, rfl, fun hp => hc.proposal b ?_⟩)
      rw [← hp]
      exact hext
    | prevote | precommit => cases hvoter

theorem Done.run (hd : N.Done r h s i) (j : UInt64) (ord : TallyOrder) (msg : ConsensusMessage) :
    N.Done r h (s.run j (.onMessage ord msg)) i where
  step := by
    by_cases hij : i = j
    · subst hij
      simp only [Net.run, Function.update_self, call, onMessage_of_committed hd.step]
      exact hd.step
    · simpa only [Net.run, Function.update_of_ne hij] using hd.step
  finalized := by
    obtain ⟨entry, hmem, hentry⟩ := hd.finalized
    exact ⟨entry, List.mem_cons_of_mem _ hmem, hentry⟩
  certified := hd.certified

/-- Node `i` gets a message. -/
theorem RoundInv.run (hinv : N.RoundInv r h G s) (i : UInt64) (ord : TallyOrder)
    (msg : ConsensusMessage) (hmsg : msg.height = N.height ∧ msg.round = r → N.Sound r h s.sent msg) :
    N.RoundInv r h (fun j m => G j m ∨ (j = i ∧ m = msg)) (s.run i (.onMessage ord msg)) where
  sent := hinv.sent
  tasks j hj ev hev := by
    by_cases hij : j = i
    · subst hij
      simp only [Net.run, Function.update_self, call, List.mem_append] at hev
      rcases hev with hev | hev
      · exact hinv.tasks j hj ev hev
      · rcases hinv.nodes j hj with hv | hd
        · exact (hv.onMessage ord hmsg).tasks ev hev
        · rw [onMessage_of_committed hd.step] at hev
          cases hev
    · simp only [Net.run, Function.update_of_ne hij] at hev
      exact hinv.tasks j hj ev hev
  nodes j hj := by
    rcases hinv.nodes j hj with hv | hd
    · by_cases hij : j = i
      · subst hij
        rcases (hv.onMessage ord hmsg).outcome with hv' | ⟨hstep, hev, hcert⟩
        · left
          simp only [Net.run, Function.update_self]
          refine hv'.mono (List.Subset.refl _) fun m hm => hm.imp_right And.right
        · refine .inr ⟨by simpa only [Net.run, Function.update_self, call] using hstep, ?_, hcert⟩
          exact ⟨_, List.mem_cons_self .., rfl, hev⟩
      · left
        simp only [Net.run, Function.update_of_ne hij]
        exact hv.mono (List.Subset.refl _) fun m hm => hm.resolve_right fun heq => hij heq.1
    · exact .inr (hd.run i ord msg)

/-- Node `i` takes the last of its events away, having sent what it asks for. -/
theorem RoundInv.pop (hinv : N.RoundInv r h G s) {ev : ConsensusEvent} (hi : i ∈ N.honest)
    (hlast : (s.nodes i).events.getLast? = some ev) (more : List ConsensusMessage)
    (hmore : ∀ msg ∈ more, msg = .prevote N.height r (some h) i ∨ msg = .precommit N.height r (some h) i)
    (hprevote : ev = .sendPrevote N.height r (some h) → .prevote N.height r (some h) i ∈ more)
    (hprecommit : ev = .sendPrecommit N.height r (some h) → .precommit N.height r (some h) i ∈ more) :
    N.RoundInv r h G { s.pop i with sent := more ++ s.sent } where
  sent msg hmem := by
    rcases List.mem_append.mp hmem with hmem | hmem
    · rcases hmore msg hmem with rfl | rfl
      · exact ⟨nofun, fun _ => ⟨i, .inl rfl⟩⟩
      · exact ⟨nofun, fun _ => ⟨i, .inr rfl⟩⟩
    · exact hinv.sent msg hmem
  tasks j hj x hx := by
    by_cases hij : j = i
    · subst hij
      simp only [Net.pop, Function.update_self] at hx
      exact hinv.tasks j hj x (List.mem_of_mem_dropLast hx)
    · simp only [Net.pop, Function.update_of_ne hij] at hx
      exact hinv.tasks j hj x hx
  nodes j hj := by
    have hsub : s.sent ⊆ more ++ s.sent := List.subset_append_right _ _
    have hkeep : ∀ x ∈ (s.nodes i).events, x = ev ∨ x ∈ (s.nodes i).events.dropLast := by
      intro x hx
      obtain ⟨evs, hevs⟩ := List.getLast?_eq_some_iff.mp hlast
      rw [hevs, List.mem_append, List.mem_singleton] at hx
      rw [hevs, List.dropLast_concat]
      exact hx.symm
    rcases hinv.nodes j hj with hv | hd
    · left
      have hv := hv.mono hsub fun m hm => hm
      by_cases hij : j = i
      · subst hij
        simp only [Net.pop, Function.update_self]
        refine ⟨hv.at_, hv.isOpen, hv.prevotes, hv.precommits, hv.heardPrevote, hv.heardPrecommit, ?_, ?_⟩
        · intro hp
          rcases hv.heardProposal hp with hm | hx
          · exact .inl hm
          · exact (hkeep _ hx).imp (fun heq => List.mem_append_left _ (hprevote heq.symm)) fun hx => hx
        · intro hl
          rcases hv.locked hl with hm | hx
          · exact .inl hm
          · exact (hkeep _ hx).imp (fun heq => List.mem_append_left _ (hprecommit heq.symm)) fun hx => hx
      · simpa only [Net.pop, Function.update_of_ne hij] using hv
    · refine .inr ⟨?_, hd.finalized, hd.certified.mono hsub⟩
      by_cases hij : j = i
      · subst hij
        simpa only [Net.pop, Function.update_self] using hd.step
      · simpa only [Net.pop, Function.update_of_ne hij] using hd.step

/-- What has come to node `i`: what the run has delivered to it and what it has said itself. -/
def Got (sent : List ConsensusMessage) (ls : List Label) (i : UInt64) (msg : ConsensusMessage) : Prop :=
  (msg ∈ sent ∧ voter? msg = some i) ∨ ∃ ord, .deliver i ord msg ∈ ls

theorem RoundInv.say (hinv : N.RoundInv r h (Got s.sent ls) s) (hi : i ∈ N.honest) {ev : ConsensusEvent}
    (hlast : (s.nodes i).events.getLast? = some ev)
    (hmsg : msg = .prevote N.height r (some h) i ∨ msg = .precommit N.height r (some h) i)
    (hprevote : ev = .sendPrevote N.height r (some h) → msg = .prevote N.height r (some h) i)
    (hprecommit : ev = .sendPrecommit N.height r (some h) → msg = .precommit N.height r (some h) i) :
    N.RoundInv r h (Got (msg :: s.sent) ls) ((s.pop i).say i ord msg) := by
  have hpop := hinv.pop hi hlast [msg] (fun m hm => by rw [List.mem_singleton.mp hm]; exact hmsg)
    (fun heq => by rw [hprevote heq]; exact List.mem_singleton_self _)
    (fun heq => by rw [hprecommit heq]; exact List.mem_singleton_self _)
  have hrun := hpop.run i ord msg fun _ => by
    rcases hmsg with rfl | rfl
    · exact .inl ⟨i, rfl, List.mem_cons_self ..⟩
    · exact .inr (.inl ⟨i, rfl, List.mem_cons_self ..⟩)
  refine hrun.mono fun j m hgot => ?_
  rcases hgot with ⟨hmem, hvoter⟩ | hdel
  · rcases List.mem_cons.mp hmem with rfl | hmem
    · refine .inr ⟨?_, rfl⟩
      rcases hmsg with rfl | rfl <;> exact (Option.some_inj.mp hvoter).symm
    · exact .inl (.inl ⟨hmem, hvoter⟩)
  · exact .inl (.inr hdel)

theorem RoundInv.step (hc : N.CrashFaults r h) (hinv : N.RoundInv r h (Got s.sent ls) s) {l : Label}
    (hl : ∀ i, l ≠ .timeout i) (hstep : N.step? s l = some s') :
    N.RoundInv r h (Got s'.sent (ls ++ [l])) s' := by
  cases l with
  | deliver i ord msg =>
    simp only [step?] at hstep
    split_ifs at hstep with hcan
    cases hstep
    refine (hinv.run i ord msg (hinv.sound hc hcan.2.2)).mono fun j m hgot => ?_
    rcases hgot with hown | ⟨ord', hdel⟩
    · exact .inl (.inl hown)
    · rcases List.mem_append.mp hdel with hdel | hdel
      · exact .inl (.inr ⟨ord', hdel⟩)
      · cases List.mem_singleton.mp hdel
        exact .inr ⟨rfl, rfl⟩
  | timeout i => exact absurd rfl (hl i)
  | process i ord =>
    have hgot : ∀ sent j m, Got sent (ls ++ [.process i ord]) j m → Got sent ls j m := by
      rintro sent j m (hown | ⟨ord', hdel⟩)
      · exact .inl hown
      · rcases List.mem_append.mp hdel with hdel | hdel
        · exact .inr ⟨ord', hdel⟩
        · cases List.mem_singleton.mp hdel
    by_cases hi : i ∈ N.honest
    · simp only [step?, hi, if_true] at hstep
      cases hlast : (s.nodes i).events.getLast? with
      | none =>
        rw [hlast] at hstep
        cases hstep
      | some ev =>
        rw [hlast] at hstep
        rcases hinv.tasks i hi ev (List.mem_of_getLast? hlast) with hinert | rfl | rfl
        · have hpop : s' = s.pop i := by
            cases ev with
            | sendPrevote | sendPrecommit => exact hinert.elim
            | _ => exact (Option.some_inj.mp hstep).symm
          rw [hpop]
          refine (hinv.pop hi hlast [] (List.forall_mem_nil _) ?_ ?_).mono (hgot _)
          · rintro rfl
            exact hinert.elim
          · rintro rfl
            exact hinert.elim
        · cases hstep
          exact (hinv.say hi hlast (.inl rfl) (fun _ => rfl) fun heq => by cases heq).mono (hgot _)
        · cases hstep
          exact (hinv.say hi hlast (.inr rfl) (fun heq => by cases heq) fun _ => rfl).mono (hgot _)
    · simp only [step?, hi, if_false] at hstep
      cases hstep

theorem RoundInv.start (hs : N.Synced r h s) : N.RoundInv r h (Got s.sent []) s where
  sent msg hmem := ⟨(hs.sent msg hmem).1, fun hround => absurd hround (hs.sent msg hmem).2⟩
  tasks i hi ev hev := .inl (hs.events i hi ev hev)
  nodes i hi := by
    obtain ⟨hat, hent⟩ := hs.engines i hi
    have hround := hat.round
    have hnone : ∀ msg, Got s.sent [] i msg → ¬ (msg.height = N.height ∧ msg.round = r) := by
      rintro msg (⟨hmem, -⟩ | ⟨ord, hdel⟩)
      · exact (hs.sent msg hmem).2
      · cases hdel
    refine .inl ⟨hat, hent.open, fun v hv => ?_, fun v hv => ?_, fun b v hg => absurd ⟨rfl, rfl⟩ (hnone _ hg),
      fun b v hg => absurd ⟨rfl, rfl⟩ (hnone _ hg), fun hg => absurd ⟨rfl, rfl⟩ (hnone _ hg), fun hl => ?_⟩
    · exact absurd hv (hround ▸ hent.prevotes v)
    · exact absurd hv (hround ▸ hent.precommits v)
    · exact absurd (hround ▸ hl.1) hent.lockedRound

theorem RoundInv.exec (hc : N.CrashFaults r h) (hs : N.Synced r h s) (hpatient : ∀ i, .timeout i ∉ ls)
    (hrun : Run.exec N.step? s ls = some s') : N.RoundInv r h (Got s'.sent ls) s' := by
  induction ls using List.reverseRecOn generalizing s' with
  | nil =>
    obtain rfl := Option.some_inj.mp hrun
    exact .start hs
  | append_singleton ls l ih =>
    obtain ⟨m, hm, hl⟩ := Run.exec_concat.mp hrun
    refine (ih (fun i hi => hpatient i (List.mem_append_left _ hi)) hm).step hc (fun i hli => ?_) hl
    exact hpatient i (List.mem_append_right _ (by rw [hli]; exact List.mem_singleton_self _))

/-! ### The end of the round -/

/-- Everything has reached everybody, and nobody has anything left to do. -/
structure Settled (N : Network) (r : UInt32) (h : B256) (ls : List Label) (s : Net) : Prop where
  idle : ∀ i ∈ N.honest, (s.nodes i).events = []
  proposal : ∀ i ∈ N.honest, ∃ ord, .deliver i ord (.proposal N.height r h (N.leader r)) ∈ ls
  votes : ∀ i ∈ N.honest, ∀ msg ∈ s.sent, voter? msg ≠ some i → ∃ ord, .deliver i ord msg ∈ ls

theorem Settled.got (hs : N.Settled r h ls s) (hi : i ∈ N.honest) (hmem : msg ∈ s.sent) :
    Got s.sent ls i msg := by
  by_cases hown : voter? msg = some i
  · exact .inl ⟨hmem, hown⟩
  · exact .inr (hs.votes i hi msg hmem hown)

/-- A node that is still voting has heard no votes that would let it finalise. -/
theorem Voting.not_certified (hv : N.Voting r h s.sent (Got s.sent ls i) i n) (hs : N.Settled r h ls s)
    (hi : i ∈ N.honest) : ¬ N.Certified r h s.sent := by
  rintro (⟨A, hA, hall⟩ | ⟨A, hpos, hA, hall⟩)
  · refine hv.isOpen.uncommitted ?_
    rw [PrecommitsReach, hv.at_.validatorSet, hv.at_.round]
    refine hA.trans (N.validatorSet.weights.of_mono fun v hv' => ?_)
    have hstored := hv.heardPrecommit _ v (hs.got hi (hall v hv'))
    obtain ⟨b, hb⟩ := mem_iff_exists_lookup.mp hstored
    rw [← hv.at_.round] at hb ⊢
    rw [Votes.mem_voters, hb, hv.isOpen.precommits v b hb]
  · refine hv.isOpen.slow ?_
    rw [FastReach, hv.at_.config, hv.at_.round]
    refine ⟨hpos, hA.trans (Finset.card_le_card fun v hv' => ?_)⟩
    have hstored := hv.heardPrevote _ v (hs.got hi (hall v hv'))
    obtain ⟨b, hb⟩ := mem_iff_exists_lookup.mp hstored
    rw [← hv.at_.round] at hb ⊢
    rw [Votes.mem_voters, hb, hv.isOpen.prevotes v b hb]

theorem Voting.prevoted (hv : N.Voting r h s.sent (Got s.sent ls i) i (s.nodes i)) (hs : N.Settled r h ls s)
    (hi : i ∈ N.honest) : .prevote N.height r (some h) i ∈ s.sent := by
  rcases hv.heardProposal (.inr (hs.proposal i hi)) with hsent | htask
  · exact hsent
  · rw [hs.idle i hi] at htask
    cases htask

theorem Voting.precommitted (hv : N.Voting r h s.sent (Got s.sent ls i) i (s.nodes i)) (hs : N.Settled r h ls s)
    (hi : i ∈ N.honest) (hq : N.validatorSet.quorumWeight.toNat ≤ N.validatorSet.weights.of N.honest)
    (hall : ∀ v ∈ N.honest, .prevote N.height r (some h) v ∈ s.sent) :
    .precommit N.height r (some h) i ∈ s.sent := by
  have hreach : (s.nodes i).engine.PrevotesReach (s.nodes i).engine.state.round h := by
    rw [PrevotesReach, hv.at_.validatorSet]
    refine hq.trans (N.validatorSet.weights.of_mono fun v hv' => ?_)
    have hstored := hv.heardPrevote _ v (hs.got hi (hall v hv'))
    obtain ⟨b, hb⟩ := mem_iff_exists_lookup.mp hstored
    rw [← hv.at_.round] at hb
    rw [Votes.mem_voters, hb, hv.isOpen.prevotes v b hb]
  have hlocked := hv.isOpen.locked hreach
  rw [hv.at_.round] at hlocked
  rcases hv.locked hlocked with hsent | htask
  · exact hsent
  · rw [hs.idle i hi] at htask
    cases htask

/-- The engines enter the first round of the height together. -/
theorem synced_init (N : Network) (h : B256) : N.Synced 0 h N.init where
  sent := nofun
  engines i _ := by
    refine ⟨⟨rfl, rfl, rfl, rfl⟩, ⟨nofun, nofun, nofun, ?_, ?_, rfl⟩⟩
    · exact fun _ => AList.notMem_empty _
    · exact fun _ => AList.notMem_empty _
  events i _ ev hev := by
    obtain rfl := List.mem_singleton.mp hev
    trivial

/-- In a round with a quorum of correct members, one proposal and no timeouts, everybody finalises the proposal
by the time everything has been delivered, whatever the order of the steps. -/
theorem round_finalizes (N : Network) (r : UInt32) (h : B256) (s₀ s : Net) (ls : List Label)
    (hc : N.CrashFaults r h) (hq : N.validatorSet.quorumWeight.toNat ≤ N.validatorSet.weights.of N.honest)
    (hs₀ : N.Synced r h s₀) (hrun : Run.exec N.step? s₀ ls = some s) (hpatient : ∀ i, .timeout i ∉ ls)
    (hs : N.Settled r h ls s) (i : UInt64) (hi : i ∈ N.honest) : s.Finalized i N.height h r := by
  have hinv : N.RoundInv r h (Got s.sent ls) s := .exec hc hs₀ hpatient hrun
  rcases hinv.nodes i hi with hv | hd
  · exfalso
    -- nobody is done, or `i` would have heard the votes that did it
    have hvoting : ∀ j ∈ N.honest, N.Voting r h s.sent (Got s.sent ls j) j (s.nodes j) := fun j hj =>
      (hinv.nodes j hj).resolve_right fun hd => hv.not_certified hs hi hd.certified
    have hprevoted : ∀ j ∈ N.honest, .prevote N.height r (some h) j ∈ s.sent := fun j hj =>
      (hvoting j hj).prevoted hs hj
    have hprecommitted : ∀ j ∈ N.honest, .precommit N.height r (some h) j ∈ s.sent := fun j hj =>
      (hvoting j hj).precommitted hs hj hq hprevoted
    exact hv.not_certified hs hi (.inl ⟨N.honest, hq, hprecommitted⟩)
  · exact hd.finalized

/-- Four unit validators, the last one stopped; the fast path waits for all four. -/
def oneStopped : Network where
  validatorSet := .unitSet 4
  fastPathConfig := ⟨3, 5000, 4⟩
  height := 1
  byzantine := {3}
  external msg := msg == .proposal 1 0 (.repeatByte 1) 1

def deliveries (ls : List Label) : List (UInt64 × ConsensusMessage) :=
  ls.filterMap fun l => match l with
    | .deliver i _ msg => some (i, msg)
    | _ => none

theorem exists_of_deliveries (h : (i, msg) ∈ deliveries ls) : ∃ ord, .deliver i ord msg ∈ ls := by
  obtain ⟨l, hl, heq⟩ := List.mem_filterMap.mp h
  cases l with
  | deliver j ord m =>
    cases heq
    exact ⟨ord, hl⟩
  | _ => cases heq

/-- The proposal, the prevotes and the precommits, each to the three that are left. -/
def promptRun : List Label :=
  let members : List UInt64 := [0, 1, 2]
  let process (i : UInt64) := Label.process i .stored
  let hear (vote : UInt64 → ConsensusMessage) (i : UInt64) :=
    (members.filter (· ≠ i)).map (fun j => Label.deliver i .stored (vote j)) ++ [process i]
  members.map process ++
  members.flatMap (fun i => [.deliver i .stored (.proposal 1 0 (.repeatByte 1) 1), process i]) ++
  members.flatMap (hear fun j => .prevote 1 0 (some (.repeatByte 1)) j) ++
  members.flatMap (hear fun j => .precommit 1 0 (some (.repeatByte 1)) j)

theorem round_finalizes_prompt :
    ∃ s, Run.exec oneStopped.step? oneStopped.init promptRun = some s ∧
      ∀ i ∈ oneStopped.honest, s.Finalized i 1 (.repeatByte 1) 0 := by
  have hsome : ((Run.exec oneStopped.step? oneStopped.init promptRun).any fun s =>
      [0, 1, 2].all fun i => (s.nodes i).events.isEmpty &&
        (decide ((i, .proposal 1 0 (.repeatByte 1) 1) ∈ deliveries promptRun) &&
          s.sent.all fun msg => voter? msg ≠ some i → (i, msg) ∈ deliveries promptRun)) = true := by
    decide +kernel
  have hmembers : oneStopped.honest = [0, 1, 2].toFinset := by decide
  cases hs : Run.exec oneStopped.step? oneStopped.init promptRun with
  | none =>
    rw [hs] at hsome
    cases hsome
  | some s =>
    rw [hs] at hsome
    simp only [Option.any_some, List.all_eq_true, Bool.and_eq_true, decide_eq_true_eq] at hsome
    have hall : ∀ i ∈ oneStopped.honest, (s.nodes i).events.isEmpty = true ∧
        (i, .proposal 1 0 (.repeatByte 1) 1) ∈ deliveries promptRun ∧
          ∀ msg ∈ s.sent, voter? msg ≠ some i → (i, msg) ∈ deliveries promptRun := by
      rw [hmembers]
      exact fun i hi => hsome i (List.mem_toFinset.mp hi)
    have hfaults : oneStopped.CrashFaults 0 (.repeatByte 1) := by
      refine ⟨fun msg hext => ?_, fun h' hext => ?_⟩
      · rw [eq_of_beq hext]
        rfl
      · cases eq_of_beq hext
        rfl
    have hpatient : ∀ i, .timeout i ∉ promptRun := by
      intro i hi
      have hnone : promptRun.all (fun l => match l with | .timeout _ => false | _ => true) = true := by decide
      exact absurd (List.all_eq_true.mp hnone _ hi) nofun
    have hsettled : oneStopped.Settled 0 (.repeatByte 1) promptRun s :=
      ⟨fun i hi => List.isEmpty_iff.mp (hall i hi).1, fun i hi => exists_of_deliveries (hall i hi).2.1,
        fun i hi msg hmem hother => exists_of_deliveries ((hall i hi).2.2 msg hmem hother)⟩
    exact ⟨s, rfl, round_finalizes oneStopped 0 (.repeatByte 1) oneStopped.init s promptRun hfaults (by decide)
      (synced_init _ _) hs hpatient hsettled⟩

end Network

end Eth2077
