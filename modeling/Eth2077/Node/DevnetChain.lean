import Mathlib.Data.List.Chain
import Eth2077.Node.Devnet

/-!
# The chain of the devnet node

Left alone, the node extends a hash-linked chain by one block a tick and its engine stays one height
ahead. Peers can break this in two ways: `BlockReceived` appends any block and never tells the
engine (`received_block_stalls`), and a vote for the current round finalises whatever it names,
since nobody checks whose vote it is. `devnet_keeps_chain` is about runs in which a peer's message
finalises at most a cached child of the last block.
-/

namespace Eth2077
open ConsensusEngine

def IsChild (keccak256 : List UInt8 → B256) (parent b : Block) : Prop :=
  b.number.toNat = parent.number.toNat + 1 ∧ b.header.parentHash = parent.hash keccak256

instance (keccak256 : List UInt8 → B256) (parent b : Block) : Decidable (IsChild keccak256 parent b) :=
  inferInstanceAs (Decidable (_ ∧ _))

namespace DevNode

variable {cfg : DevnetConfig} {s s' : DevNode} {e e' : ConsensusEngine} {msg : ConsensusMessage}
  {evs : List ConsensusEvent} {ord : TallyOrder} {h : B256} {v : UInt64} {b : Option B256}

/-- The chain is linked, the latest number names the last block, and between two rounds of the main
loop the engine works on the next height. -/
structure ChainOk (cfg : DevnetConfig) (s : DevNode) : Prop where
  linked : s.rpcState.blocks.IsChain (IsChild cfg.keccak256)
  latest : ∃ last, s.rpcState.blocks.getLast? = some last ∧
    s.rpcState.getBlockByNumber s.rpcState.latestBlockNumber = some last ∧
    (s.events = [] → s.consensus.currentHeight.toNat = last.number.toNat + 1)

/-- Finalising `h` now appends a child of the last block and leaves room for the next height. -/
def finalizable (cfg : DevnetConfig) (s : DevNode) (h : B256) : Bool :=
  decide (s.consensus.currentHeight.toNat < UInt64.maxNat) &&
    match s.proposedBlocks.lookup h, s.rpcState.blocks.getLast? with
    | some built, some last => decide (IsChild cfg.keccak256 last built.block)
    | _, _ => false

/-- The messages a peer may send: those for another height or round, proposals under another index
than the leader's, votes without a block, repeated votes, precommits of others, and whatever names a
block that may be finalised. -/
def messageOk (cfg : DevnetConfig) (s : DevNode) : ConsensusMessage → Bool
  | .proposal height round h proposer =>
    height != s.consensus.currentHeight || round != s.consensus.currentRound || proposer != cfg.peerId ||
      decide ((round, cfg.peerId) ∈ s.consensus.state.prevotes) || s.finalizable cfg h
  | .prevote height round b voter =>
    height != s.consensus.currentHeight || round != s.consensus.currentRound ||
      decide ((round, voter) ∈ s.consensus.state.prevotes) || b.all fun h => s.finalizable cfg h
  | .precommit height round b voter =>
    height != s.consensus.currentHeight || round != s.consensus.currentRound || voter != cfg.peerId ||
      decide ((round, voter) ∈ s.consensus.state.precommits) || b.all fun h => s.finalizable cfg h

/-- No blocks from peers, only the messages above, and ticks while there is a next height. -/
def harmless (cfg : DevnetConfig) (s : DevNode) : DevLabel → Bool
  | .tick => decide (s.consensus.currentHeight.toNat < UInt64.maxNat)
  | .blockReceived _ => false
  | .messageReceived _ msg => s.messageOk cfg msg
  | .process _ => true

inductive HarmlessRun (cfg : DevnetConfig) : DevNode → Prop
  | start : HarmlessRun cfg (start cfg)
  | step {s s' : DevNode} (l : DevLabel) (hs : HarmlessRun cfg s) (hl : s.harmless cfg l = true)
      (h : s.step? cfg l = some s') : HarmlessRun cfg s'

/-! ### The engine while nothing is decided -/

theorem leaderForRound_devnet (peerId height : UInt64) (round : UInt32) :
    (devnetValidatorSet peerId).leaderForRound height round = peerId := by
  unfold ValidatorSet.leaderForRound devnetValidatorSet ValidatorSet.new
  simp [Nat.mod_one]

theorem quorumWeight_devnet (peerId : UInt64) : (devnetValidatorSet peerId).quorumWeight.toNat = 1 := by
  rw [ValidatorSet.toNat_quorumWeight, ValidatorSet.toNat_totalWeight]
  simp [devnetValidatorSet, ValidatorSet.new, ValidatorSet.weightSum, UInt64.maxNat]

theorem mem_of_quorum_devnet {peerId : UInt64} {A : Finset UInt64}
    (hq : (devnetValidatorSet peerId).quorumWeight.toNat ≤ (devnetValidatorSet peerId).weights.of A) :
    peerId ∈ A := by
  by_contra hn
  have h0 : (devnetValidatorSet peerId).weights.of A = 0 := by
    refine Finset.sum_eq_zero fun v hv => (devnetValidatorSet peerId).weights.supp v fun hm => ?_
    have : v = peerId := by
      simpa [ValidatorSet.weights, ValidatorSet.indices, devnetValidatorSet, ValidatorSet.new] using hm
    exact hn (this ▸ hv)
  rw [quorumWeight_devnet, h0] at hq
  omega

theorem quorum_devnet {peerId : UInt64} {A : Finset UInt64} (hA : peerId ∈ A) :
    (devnetValidatorSet peerId).quorumWeight.toNat ≤ (devnetValidatorSet peerId).weights.of A := by
  rw [quorumWeight_devnet]
  have hw : (devnetValidatorSet peerId).weights.weight peerId = 1 := by
    simp [ValidatorSet.weights, ValidatorSet.weightOf, ValidatorSet.get, devnetValidatorSet, ValidatorSet.new]
  exact hw ▸ Finset.single_le_sum (fun _ _ => Nat.zero_le _) hA

/-- No vote for a block is stored that could have decided anything. -/
structure Rest (cfg : DevnetConfig) (e : ConsensusEngine) : Prop where
  validatorSet : e.validatorSet = devnetValidatorSet cfg.peerId
  fastPath : e.fastPath = .new devnetFastPathConfig
  active : e.state.step ≠ .committed
  unlocked : e.state.lockedHash = none
  prevotes : ∀ r v h, e.state.prevotes.lookup (r, v) ≠ some (some h)
  precommits : ∀ r h, e.state.precommits.lookup (r, cfg.peerId) ≠ some (some h)

theorem rest_startHeight (hvs : e.validatorSet = devnetValidatorSet cfg.peerId)
    (hfp : e.fastPath.config = devnetFastPathConfig) (height : UInt64) : Rest cfg (e.startHeight height).1 where
  validatorSet := hvs
  fastPath := by
    show e.fastPath.reset = _
    rw [← hfp]; rfl
  active := nofun
  unlocked := rfl
  prevotes r v h hl := by cases hl
  precommits r h hl := by cases hl

theorem addAttestation_devnet (a : FastPathAttestation) :
    ∃ acc p, (FastPathAccumulator.new devnetFastPathConfig).addAttestation a = (acc, some (.fastFinalized p)) := by
  simp [FastPathAccumulator.addAttestation, FastPathAccumulator.new, FastPathAccumulator.noteStart,
    FastPathAccumulator.isTimedOut, UInt64.saturatingSub_self, FastPathAccumulator.outcome,
    FastPathAccumulator.agreementCount, devnetFastPathConfig]

/-- A first prevote for a block finalises it, whoever casts it. -/
theorem Rest.onMessage_prevote (hr : Rest cfg e) (fresh : (e.state.round, v) ∉ e.state.prevotes) :
    (e.onMessage ord (.prevote e.state.height e.state.round (some h) v)).2 =
      [.blockFinalized e.state.height h e.state.round] := by
  obtain ⟨acc, p, hacc⟩ := addAttestation_devnet (e.attestation h v)
  simp only [← hr.fastPath, attestation] at hacc
  simp only [onMessage, if_neg hr.active, onPrevote, RoundState.insertPrevote, Votes.insertVote_of_notMem fresh,
    ne_eq, not_true_eq_false, or_self, if_false, attestation]
  rw [hacc]

theorem Rest.onMessage_precommit (hr : Rest cfg e) (fresh : (e.state.round, cfg.peerId) ∉ e.state.precommits) :
    (e.onMessage ord (.precommit e.state.height e.state.round (some h) cfg.peerId)).2 ≠ [] := by
  have hvoter : cfg.peerId ∈
      Votes.voters (AList.insert (e.state.round, cfg.peerId) (some h) e.state.precommits) e.state.round h :=
    Votes.mem_voters.mpr (AList.lookup_insert _)
  have hq := quorum_devnet hvoter
  rw [← hr.validatorSet] at hq
  obtain ⟨q, hq⟩ := Votes.exists_quorumHash ord ValidatorSet.quorumWeight_pos hq
  simp only [onMessage, if_neg hr.active, onPrecommit, RoundState.insertPrecommit,
    Votes.insertVote_of_notMem fresh, ne_eq, not_true_eq_false, or_self, if_false, RoundState.tallyPrecommits]
  rw [hq]
  simp

theorem Rest.not_prevotesReach (hr : Rest cfg e) {r : UInt32} {q : B256}
    (hq : (e.storePrevote none v).PrevotesReach r q) : False := by
  rw [PrevotesReach, show (e.storePrevote none v).validatorSet = _ from hr.validatorSet] at hq
  have hmem := Votes.mem_voters.mp (mem_of_quorum_devnet hq)
  rcases Votes.lookup_insert_cases hmem with ⟨-, hb⟩ | hold
  · cases hb
  · exact hr.prevotes _ _ _ hold

theorem Rest.storePrevote_none (hr : Rest cfg e) : Rest cfg (e.storePrevote none v) where
  validatorSet := hr.validatorSet
  fastPath := hr.fastPath
  active := hr.active
  unlocked := hr.unlocked
  prevotes r u q hl := by
    rcases Votes.lookup_insert_cases hl with ⟨-, hb⟩ | hold
    · cases hb
    · exact hr.prevotes _ _ _ hold
  precommits := hr.precommits

theorem Rest.storePrecommit (hr : Rest cfg e) (hb : v = cfg.peerId → b = none) :
    Rest cfg (e.storePrecommit b v) where
  validatorSet := hr.validatorSet
  fastPath := hr.fastPath
  active := hr.active
  unlocked := hr.unlocked
  prevotes := hr.prevotes
  precommits r q hl := by
    rcases Votes.lookup_insert_cases hl with ⟨hk, hbq⟩ | hold
    · rw [hb (congrArg Prod.snd hk).symm] at hbq
      cases hbq
    · exact hr.precommits _ _ hold

theorem Rest.eq_of_precommitsReach (hr : Rest cfg e) {r : UInt32} {q : B256}
    (hq : (e.storePrecommit b v).PrecommitsReach r q) : v = cfg.peerId ∧ b = some q := by
  rw [PrecommitsReach, show (e.storePrecommit b v).validatorSet = _ from hr.validatorSet] at hq
  have hmem := Votes.mem_voters.mp (mem_of_quorum_devnet hq)
  rcases Votes.lookup_insert_cases hmem with ⟨hk, hb⟩ | hold
  · exact ⟨(congrArg Prod.snd hk).symm, hb.symm⟩
  · exact absurd hold (hr.precommits _ _)

/-! ### The invariant -/

/-- Where the node is between two pops: nothing to send, about to cast a vote that finalises nothing
else, or about to append the finalised block. -/
inductive Phase (cfg : DevnetConfig) (s : DevNode) : Prop
  | quiet (rest : Rest cfg s.consensus) (inert : ∀ ev ∈ s.events, ∃ height round leader,
      ev = .needProposal height round leader)
  | voting (h : B256) (rest : Rest cfg s.consensus)
      (events : s.events = [.sendPrevote s.consensus.state.height s.consensus.state.round (some h)])
      (ok : (s.consensus.state.round, cfg.peerId) ∈ s.consensus.state.prevotes ∨ s.finalizable cfg h = true)
  | final (h : B256) (validatorSet : s.consensus.validatorSet = devnetValidatorSet cfg.peerId)
      (config : s.consensus.fastPath.config = devnetFastPathConfig)
      (events : ∃ round, s.events = [.blockFinalized s.consensus.state.height h round])
      (ok : s.finalizable cfg h = true)

structure DevInv (cfg : DevnetConfig) (s : DevNode) : Prop where
  linked : s.rpcState.blocks.IsChain (IsChild cfg.keccak256)
  tip : ∃ last, s.rpcState.blocks.getLast? = some last ∧
    s.consensus.state.height.toNat = last.number.toNat + 1
  phase : Phase cfg s

theorem finalizable_iff : s.finalizable cfg h = true ↔ s.consensus.state.height.toNat < UInt64.maxNat ∧
    ∃ built last, s.proposedBlocks.lookup h = some built ∧ s.rpcState.blocks.getLast? = some last ∧
      IsChild cfg.keccak256 last built.block := by
  unfold finalizable
  rw [Bool.and_eq_true, decide_eq_true_eq]
  refine and_congr Iff.rfl ?_
  constructor
  · intro hm
    split at hm
    · rename_i built last hb hl
      exact ⟨built, last, hb, hl, of_decide_eq_true hm⟩
    · cases hm
  · rintro ⟨built, last, hb, hl, hc⟩
    rw [hb, hl]
    exact decide_eq_true hc

theorem inv_start (cfg : DevnetConfig) : DevInv cfg (start cfg) where
  linked := .singleton _
  tip := ⟨_, rfl, rfl⟩
  phase := by
    refine .quiet (rest_startHeight rfl rfl _) fun ev hev => ?_
    exact ⟨_, _, _, List.mem_singleton.mp hev⟩

theorem finalizable_congr (hh : e'.state.height = s.consensus.state.height) :
    ({ s with consensus := e', events := evs } : DevNode).finalizable cfg h = s.finalizable cfg h := by
  unfold finalizable currentHeight
  rw [hh]

theorem phase_of_step (hr : Rest cfg s.consensus) (hs : MessageStep s.consensus msg e' evs)
    (hok : s.messageOk cfg msg = true)
    (hprevote : ∀ v h, msg = .prevote s.consensus.state.height s.consensus.state.round (some h) v →
      (s.consensus.state.round, v) ∉ s.consensus.state.prevotes →
        evs = [.blockFinalized s.consensus.state.height h s.consensus.state.round])
    (hprecommit : ∀ h, msg = .precommit s.consensus.state.height s.consensus.state.round (some h) cfg.peerId →
      (s.consensus.state.round, cfg.peerId) ∉ s.consensus.state.precommits → evs ≠ []) :
    Phase cfg { s with consensus := e', events := evs } := by
  have hcfg : e'.fastPath.config = devnetFastPathConfig := by rw [hs.config_eq, hr.fastPath]; rfl
  have hvs : e'.validatorSet = devnetValidatorSet cfg.peerId := hs.validatorSet_eq.trans hr.validatorSet
  have hheight := hs.height_eq
  cases hs with
  | ignored => exact .quiet hr fun ev hev => absurd hev List.not_mem_nil
  | proposal h hmsg =>
    rw [hr.validatorSet, leaderForRound_devnet] at hmsg
    subst hmsg
    simp only [messageOk, currentHeight, currentRound, bne_self_eq_false, Bool.false_or, Bool.or_eq_true,
      decide_eq_true_eq] at hok
    refine .voting h ⟨hvs, hr.fastPath, nofun, hr.unlocked, hr.prevotes, hr.precommits⟩ ?_ ?_
    · simp [hr.unlocked, acceptProposal]
    · rwa [finalizable_congr hheight]
  | prevote b v hmsg fresh =>
    cases b with
    | none => exact .quiet hr.storePrevote_none fun ev hev => absurd hev List.not_mem_nil
    | some h => exact absurd (hprevote v h hmsg fresh) nofun
  | lock b v q hmsg fresh quorum =>
    cases b with
    | none => exact (hr.not_prevotesReach quorum).elim
    | some h => exact absurd (hprevote v h hmsg fresh) (by simp)
  | relock b v q hmsg fresh quorum =>
    cases b with
    | none => exact (hr.not_prevotesReach quorum).elim
    | some h => exact absurd (hprevote v h hmsg fresh) nofun
  | fastFinalize h v p hmsg fresh =>
    subst hmsg
    simp only [messageOk, currentHeight, currentRound, bne_self_eq_false, Bool.false_or, fresh,
      decide_false, Option.all_some] at hok
    exact .final h hvs hcfg ⟨_, rfl⟩ (by rwa [finalizable_congr hheight])
  | precommit b v hmsg fresh =>
    refine .quiet (hr.storePrecommit fun hv => ?_) fun ev hev => absurd hev List.not_mem_nil
    subst hv
    cases b with
    | none => rfl
    | some h => exact absurd rfl (hprecommit h hmsg fresh)
  | commit b v q hmsg fresh quorum =>
    obtain ⟨rfl, rfl⟩ := hr.eq_of_precommitsReach quorum
    subst hmsg
    simp only [messageOk, currentHeight, currentRound, bne_self_eq_false, Bool.false_or, fresh,
      decide_false, Option.all_some] at hok
    exact .final q hvs hcfg ⟨_, rfl⟩ (by rwa [finalizable_congr hheight])

theorem deliver_phase (hr : Rest cfg s.consensus) (hev : s.events = [])
    (hok : s.messageOk cfg msg = true) : Phase cfg (s.deliver ord msg) := by
  have hs := s.consensus.onMessage_step ord msg
  unfold deliver
  rw [hev, List.nil_append]
  refine phase_of_step hr hs hok ?_ ?_
  · rintro v h rfl fresh
    exact hr.onMessage_prevote fresh
  · rintro h rfl fresh
    exact hr.onMessage_precommit fresh

theorem DevInv.deliver (hi : DevInv cfg s) (hr : Rest cfg s.consensus) (hev : s.events = [])
    (hok : s.messageOk cfg msg = true) : DevInv cfg (s.deliver ord msg) where
  linked := hi.linked
  tip := by
    obtain ⟨last, hlast, hheight⟩ := hi.tip
    refine ⟨last, hlast, ?_⟩
    rw [← hheight, show (s.deliver ord msg).consensus.state.height = s.consensus.state.height from
      (s.consensus.onMessage_step ord msg).height_eq]
  phase := deliver_phase hr hev hok

/-! ### Ticks and pops -/

theorem buildBlock_isChild {config : BlockBuilderConfig} {parent : Block} {txs : List Transaction}
    {state : InMemoryStateDB} {built : BuiltBlock}
    (hb : BlockBuilder.buildBlock cfg.keccak256 cfg.execute config parent.header txs state = .ok built)
    (hlt : parent.number.toNat < UInt64.maxNat) : IsChild cfg.keccak256 parent built.block := by
  obtain ⟨ex, -, rfl⟩ := BlockBuilder.buildBlock_eq_ok.mp hb
  refine ⟨?_, rfl⟩
  show (parent.header.number.saturatingAdd 1).toNat = parent.header.number.toNat + 1
  have : parent.header.number.toNat < UInt64.maxNat := hlt
  rw [UInt64.toNat_saturatingAdd, show (1 : UInt64).toNat = 1 from rfl]
  omega

theorem DevInv.tick (hi : DevInv cfg s) (hr : Rest cfg s.consensus) (hev : s.events = [])
    (hlt : s.consensus.state.height.toNat < UInt64.maxNat) : DevInv cfg (s.tick cfg) := by
  obtain ⟨last, hlast, hheight⟩ := hi.tip
  have hleader : s.consensus.validatorSet.leaderForRound s.consensus.currentHeight s.consensus.currentRound =
      cfg.peerId := by rw [hr.validatorSet, leaderForRound_devnet]
  have hlatest : s.rpcState.latestBlock = some last := hlast
  have hquiet : ∀ ev ∈ s.events, ∃ height round leader, ev = ConsensusEvent.needProposal height round leader := by
    rw [hev]; exact fun ev h => absurd h List.not_mem_nil
  unfold DevNode.tick
  simp only [hleader, ne_eq, not_true_eq_false, if_false, hlatest, propose, EthRpcState.takePendingTxs]
  split
  · exact ⟨hi.linked, hi.tip, .quiet hr hquiet⟩
  · rename_i built hb
    have hchild := buildBlock_isChild hb (by omega)
    refine DevInv.deliver ⟨hi.linked, hi.tip, .quiet hr hquiet⟩ hr hev ?_
    have hfin : DevNode.finalizable cfg { s with
        rpcState := { s.rpcState with pendingTxs := [] }
        proposedBlocks := AList.insert (built.block.hash cfg.keccak256) built s.proposedBlocks }
        (built.block.hash cfg.keccak256) = true :=
      finalizable_iff.mpr ⟨hlt, built, last, AList.lookup_insert _, hlast, hchild⟩
    simp only [messageOk, hfin, Bool.or_true]

theorem finalize_inv (hlinked : s.rpcState.blocks.IsChain (IsChild cfg.keccak256))
    (htip : ∃ last, s.rpcState.blocks.getLast? = some last ∧
      s.consensus.state.height.toNat = last.number.toNat + 1) (hvs : s.consensus.validatorSet = devnetValidatorSet cfg.peerId)
    (hcfg : s.consensus.fastPath.config = devnetFastPathConfig) (hev : s.events = [])
    (hok : s.finalizable cfg h = true) : DevInv cfg (s.finalize s.consensus.state.height h) := by
  obtain ⟨hlt, built, last, hb, hlast, hchild⟩ := finalizable_iff.mp hok
  obtain ⟨last', hlast', hheight⟩ := htip
  obtain rfl : last = last' := Option.some.inj (hlast.symm.trans hlast')
  unfold DevNode.finalize
  rw [hb]
  refine ⟨?_, ⟨built.block, List.getLast?_concat, ?_⟩, .quiet (rest_startHeight hvs hcfg _) fun ev hev' => ?_⟩
  · refine List.isChain_append.mpr ⟨hlinked, .singleton _, ?_⟩
    intro x hx y hy
    rw [hlast] at hx
    cases hx; cases hy
    exact hchild
  · show (s.consensus.state.height.saturatingAdd 1).toNat = _
    rw [UInt64.toNat_saturatingAdd, show (1 : UInt64).toNat = 1 from rfl, hchild.1]
    omega
  · simp only [hev, List.nil_append] at hev'
    exact ⟨_, _, _, List.mem_singleton.mp hev'⟩

theorem DevInv.processEvent (hi : DevInv cfg s) {ev : ConsensusEvent} (hlast : s.events.getLast? = some ev) :
    DevInv cfg (s.processEvent cfg ord ev) := by
  cases hi.phase with
  | quiet hr inert =>
    obtain ⟨height, round, leader, rfl⟩ := inert ev (List.mem_of_getLast? hlast)
    exact ⟨hi.linked, hi.tip, .quiet hr fun x hx => inert x (List.mem_of_mem_dropLast hx)⟩
  | voting h hr events ok =>
    rw [events] at hlast
    cases hlast
    simp only [DevNode.processEvent, events, List.dropLast_singleton]
    refine DevInv.deliver ⟨hi.linked, hi.tip, .quiet hr fun x hx => absurd hx List.not_mem_nil⟩ hr rfl ?_
    have hfin : DevNode.finalizable cfg { s with events := [] } h = s.finalizable cfg h := rfl
    simp only [messageOk, hfin, Option.all_some, Bool.or_eq_true, decide_eq_true_eq]
    exact ok.imp_left .inr
  | final h hvs hcfg events ok =>
    obtain ⟨round, events⟩ := events
    rw [events] at hlast
    cases hlast
    simp only [DevNode.processEvent, events, List.dropLast_singleton]
    exact finalize_inv (s := { s with events := [] }) hi.linked hi.tip hvs hcfg rfl ok

theorem DevInv.rest (hi : DevInv cfg s) (hev : s.events = []) : Rest cfg s.consensus := by
  cases hi.phase with
  | quiet rest => exact rest
  | voting h rest => exact rest
  | final h _ _ events =>
    obtain ⟨round, events⟩ := events
    rw [hev] at events
    cases events

theorem DevInv.step (hi : DevInv cfg s) (l : DevLabel) (hl : s.harmless cfg l = true)
    (h : s.step? cfg l = some s') : DevInv cfg s' := by
  cases l with
  | tick =>
    simp only [step?] at h
    split_ifs at h with hev
    cases h
    exact hi.tick (hi.rest hev) hev (of_decide_eq_true hl)
  | blockReceived block => cases hl
  | messageReceived ord msg =>
    simp only [step?] at h
    split_ifs at h with hev
    cases h
    exact hi.deliver (hi.rest hev) hev hl
  | process ord =>
    obtain ⟨ev, hlast, rfl⟩ := Option.map_eq_some_iff.mp h
    exact hi.processEvent hlast

theorem HarmlessRun.inv (hs : HarmlessRun cfg s) : DevInv cfg s := by
  induction hs with
  | start => exact inv_start cfg
  | step l _ hl h ih => exact ih.step l hl h

/-! ### The chain -/

theorem find?_getLast {blocks : List Block} (hp : blocks.Pairwise fun a b => a.number.toNat < b.number.toNat)
    {last : Block} (hlast : blocks.getLast? = some last) :
    (blocks.find? fun block => block.number == last.number) = some last := by
  induction blocks with
  | nil => cases hlast
  | cons a blocks ih =>
    obtain ⟨ha, hp⟩ := List.pairwise_cons.mp hp
    cases blocks with
    | nil => cases hlast; simp
    | cons b blocks =>
      rw [List.getLast?_cons_cons] at hlast
      have hne : a.number ≠ last.number := by
        intro heq
        have := ha last (List.mem_of_getLast? hlast)
        rw [heq] at this
        exact absurd this (lt_irrefl _)
      rw [List.find?_cons_of_neg (by simpa using hne)]
      exact ih hp hlast

theorem DevInv.chainOk (hi : DevInv cfg s) : ChainOk cfg s where
  linked := hi.linked
  latest := by
    obtain ⟨last, hlast, hheight⟩ := hi.tip
    refine ⟨last, hlast, ?_, fun _ => hheight⟩
    have hchain : s.rpcState.blocks.IsChain fun a b => a.number.toNat < b.number.toNat :=
      hi.linked.imp fun a b hab => by rw [hab.1]; exact Nat.lt_succ_self _
    have : Trans (fun a b : Block => a.number.toNat < b.number.toNat)
        (fun a b : Block => a.number.toNat < b.number.toNat) fun a b : Block => a.number.toNat < b.number.toNat :=
      ⟨fun h1 h2 => h1.trans h2⟩
    have hnumber : s.rpcState.latestBlockNumber = last.number := by
      unfold EthRpcState.latestBlockNumber EthRpcState.latestBlock
      rw [hlast]; rfl
    rw [EthRpcState.getBlockByNumber, hnumber]
    exact find?_getLast (List.isChain_iff_pairwise.mp hchain) hlast

/-- The node keeps a chain in every run in which no block is received and peers' messages finalise at
most a cached child of the last block. -/
theorem devnet_keeps_chain (cfg : DevnetConfig) (s : DevNode) (hs : HarmlessRun cfg s) : ChainOk cfg s :=
  hs.inv.chainOk

/-- Whatever block a peer sends, appending it breaks the chain or leaves the engine behind: a child of
the last block has the number of the height the engine still works on. -/
theorem ChainOk.not_receiveBlock (hok : ChainOk cfg s) (hev : s.events = []) (block : Block) :
    ¬ ChainOk cfg (s.receiveBlock cfg block) := by
  intro hok'
  obtain ⟨last, hlast, -, hheight⟩ := hok.latest
  obtain ⟨last', hlast', -, hheight'⟩ := hok'.latest
  obtain rfl : block = last' := Option.some.inj (List.getLast?_concat.symm.trans hlast')
  have hchild : IsChild cfg.keccak256 last block :=
    (List.isChain_append.mp hok'.linked).2.2 last (by rw [hlast]; rfl) block rfl
  have h1 : s.consensus.currentHeight.toNat = last.number.toNat + 1 := hheight hev
  have h2 : s.consensus.currentHeight.toNat = block.number.toNat + 1 := hheight' hev
  have h3 : block.number.toNat = last.number.toNat + 1 := hchild.1
  omega

/-! ### Two runs of a fresh node -/

/-- `keccak256` on what the runs below hash; the five strings differ in length. -/
def keccakOnRun (bs : List UInt8) : B256 :=
  if bs.length = 1 then .ofNat 32 0x1dcc4de8dec75d7aab85b567b6ccd41ad312451b948a7413f0a142fd40d49347
  else if bs.length = 8 then .ofNat 32 0x011b4d03dd8c01f1049143cf9c4c817e4b167f1d1b83e5c6f0f10d89ba1e7bce
  else if bs.length = 194 then .ofNat 32 0xa683cc0e4e86012941aac308cc0d73f971f219a26085bdc92aeac8d8a4fa2671
  else if bs.length = 499 then .ofNat 32 0x1fdad2628a84f821d990d00b71afadc28949817ab7d194d3e31aefc74a8d862f
  else if bs.length = 497 then .ofNat 32 0xa61fb606c5509cf598a8d99543ce1411cbc677614c43c10e52113d24195371fe
  else FixedBytes.zero

/-- The allocations and default settings of the binary; no transaction is ever pending. -/
def freshConfig : DevnetConfig where
  peerId := 0
  chainId := 2077
  allocs := [(.repeatByte 0x11, 1000000000000000000000), (.repeatByte 0x22, 1000000000000000000000)]
  keccak256 := keccakOnRun
  execute _ _ := .error (.evmError "unused")

def execHarmless (cfg : DevnetConfig) (s : DevNode) : List DevLabel → Option DevNode
  | [] => some s
  | l :: ls => if s.harmless cfg l then (s.step? cfg l).bind fun s' => execHarmless cfg s' ls else none

theorem HarmlessRun.exec {ls : List DevLabel} (hs : HarmlessRun cfg s) (h : execHarmless cfg s ls = some s') :
    HarmlessRun cfg s' := by
  induction ls generalizing s with
  | nil => cases h; exact hs
  | cons l ls ih =>
    simp only [execHarmless] at h
    split_ifs at h with hl
    obtain ⟨s₁, h1, h2⟩ := Option.bind_eq_some_iff.mp h
    exact ih (hs.step l hl h1) h2

theorem exists_of_execHarmless (cfg : DevnetConfig) {p : DevNode → Prop} [DecidablePred p] (ls : List DevLabel)
    (h : ((execHarmless cfg (start cfg) ls).any fun s => decide (p s)) = true) : ∃ s, HarmlessRun cfg s ∧ p s := by
  cases hs : execHarmless cfg (start cfg) ls with
  | none => rw [hs] at h; cases h
  | some s =>
    rw [hs] at h
    exact ⟨s, HarmlessRun.start.exec hs, of_decide_eq_true h⟩

def oneTick : List DevLabel :=
  [.process .stored, .messageReceived .stored (.prevote 1 0 none 7), .tick, .process .stored, .process .stored,
    .process .stored]

theorem devnet_keeps_chain_oneTick : ∃ s, HarmlessRun freshConfig s ∧ s.rpcState.blocks.length = 2 ∧
    s.consensus.currentHeight = 2 ∧ s.events = [] ∧ ChainOk freshConfig s := by
  obtain ⟨s, hs, h1, h2, h3⟩ := exists_of_execHarmless freshConfig oneTick
    (p := fun s => s.rpcState.blocks.length = 2 ∧ s.consensus.currentHeight = 2 ∧ s.events = [])
    (by decide +kernel)
  exact ⟨s, hs, h1, h2, h3, devnet_keeps_chain freshConfig s hs⟩

def peerBlock : Block :=
  let genesis := (createGenesisBlock keccakOnRun freshConfig.allocs).1
  { genesis with header := { genesis.header with number := 1, parentHash := genesis.hash keccakOnRun } }

/-- A well-formed next block arrives: the chain grows, the engine does not follow. -/
theorem received_block_stalls : ∃ s s', HarmlessRun freshConfig s ∧
    s.step? freshConfig (.blockReceived peerBlock) = some s' ∧ ¬ ChainOk freshConfig s' := by
  have hs : HarmlessRun freshConfig { start freshConfig with events := [] } := .step (.process .stored) .start rfl rfl
  refine ⟨_, DevNode.receiveBlock freshConfig { start freshConfig with events := [] } peerBlock, hs, rfl, ?_⟩
  exact hs.inv.chainOk.not_receiveBlock rfl peerBlock

end DevNode

end Eth2077
