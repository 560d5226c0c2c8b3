import Eth2077.Lib.Worklist
import Eth2077.Node.Devnet

/-!
# The event loop ends (`node/src/bin/devnet.rs`)

`process_consensus_events` pops an event and appends what the engine emits on it. A vote that is sent brings a precommit or
a finalisation at most, a precommit a finalisation, and a finalisation the call for a proposal, on which nothing follows.
That needs nothing of the engine, neither of its state nor of its validators.
-/

namespace Eth2077
open ConsensusEngine

/-- How many events can follow on one, with itself. -/
def ConsensusEvent.weight : ConsensusEvent → ℕ
  | needProposal _ _ _ => 1
  | roundTimeout _ _ => 1
  | blockFinalized _ _ _ => 2
  | sendPrecommit _ _ _ => 3
  | sendPrevote _ _ _ => 4

def eventsWeight (events : List ConsensusEvent) : ℕ := (events.map ConsensusEvent.weight).sum

namespace ConsensusEngine
variable {e e' : ConsensusEngine} {events : List ConsensusEvent} {height : UInt64} {round : UInt32}
  {blockHash : Option B256} {voter : UInt64}

theorem MessageStep.weight_of_prevote (h : MessageStep e (.prevote height round blockHash voter) e' events) :
    eventsWeight events < 4 := by
  cases h with
  | proposal h hmsg => cases hmsg
  | precommit b v hmsg fresh => cases hmsg
  | commit b v q hmsg fresh quorum => cases hmsg
  | ignored => simp [eventsWeight]
  | prevote => simp [eventsWeight]
  | relock => simp [eventsWeight]
  | lock => simp [eventsWeight, ConsensusEvent.weight]
  | fastFinalize => simp [eventsWeight, ConsensusEvent.weight]

theorem MessageStep.weight_of_precommit (h : MessageStep e (.precommit height round blockHash voter) e' events) :
    eventsWeight events < 3 := by
  cases h with
  | proposal h hmsg => cases hmsg
  | prevote b v hmsg fresh => cases hmsg
  | lock b v q hmsg fresh quorum => cases hmsg
  | relock b v q hmsg fresh quorum locked step => cases hmsg
  | fastFinalize h v p hmsg fresh fast => cases hmsg
  | ignored => simp [eventsWeight]
  | precommit => simp [eventsWeight]
  | commit => simp [eventsWeight, ConsensusEvent.weight]

end ConsensusEngine

namespace DevNode
variable (cfg : DevnetConfig)

/-- The loop, for at most `rounds` rounds; `none` if it has not ended by then. Every round visits its tally in an order of
its own. -/
def processConsensusEvents : (ℕ → TallyOrder) → ℕ → DevNode → Option DevNode :=
  Worklist.loop DevNode.events fun ord s event => s.processEvent cfg ord event

theorem lightens_processEvent :
    Worklist.Lightens DevNode.events (fun ord s event => s.processEvent cfg ord event) ConsensusEvent.weight := by
  intro ord s event _
  cases event with
  | needProposal height round leader => exact ⟨[], (List.append_nil _).symm, Nat.one_pos⟩
  | roundTimeout height round => exact ⟨[], (List.append_nil _).symm, Nat.one_pos⟩
  | sendPrevote height round blockHash =>
    exact ⟨_, rfl, (s.consensus.onMessage_step ord (.prevote height round blockHash cfg.peerId)).weight_of_prevote⟩
  | sendPrecommit height round blockHash =>
    exact ⟨_, rfl, (s.consensus.onMessage_step ord (.precommit height round blockHash cfg.peerId)).weight_of_precommit⟩
  | blockFinalized height blockHash round =>
    let leader := s.consensus.validatorSet.leaderForRound (height.saturatingAdd 1) 0
    refine ⟨[.needProposal (height.saturatingAdd 1) 0 leader], ?_, by simp [ConsensusEvent.weight]⟩
    simp only [processEvent, finalize]
    split <;> rfl

/-- The loop ends from every engine and every list of events, within four rounds for each. -/
theorem event_processing_ends (ords : ℕ → TallyOrder) (s : DevNode) :
    ∃ t : DevNode, t.events = [] ∧
      ∀ rounds ≥ 4 * s.events.length, processConsensusEvents cfg ords rounds s = some t := by
  obtain ⟨t, ht, hrounds⟩ := (lightens_processEvent cfg).loop_ends ords s
  have hweight : ∀ event : ConsensusEvent, event.weight ≤ 4 := by
    intro event
    cases event <;> simp [ConsensusEvent.weight]
  exact ⟨t, ht, fun rounds hle => hrounds rounds ((Worklist.load_le hweight s).trans hle)⟩

end DevNode
end Eth2077
