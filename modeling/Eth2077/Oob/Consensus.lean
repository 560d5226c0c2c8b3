import Eth2077.Oob.Validator
import Eth2077.Oob.FastPath

/-!
# The consensus engine (`oob-consensus/src/consensus.rs`)

`ConsensusEngine` and its three entry points `startHeight`, `onMessage`, `onTimeout`, each returning
the new engine with the events it emits. `find_map` over the tally visits a `HashMap`, so the
handlers of votes take the order of that visit as an argument.
-/

namespace Eth2077

inductive Step where
  | propose
  | prevote
  | precommit
  | committed
deriving DecidableEq

inductive ConsensusMessage where
  | proposal (height : UInt64) (round : UInt32) (blockHash : B256) (proposer : UInt64)
  | prevote (height : UInt64) (round : UInt32) (blockHash : Option B256) (voter : UInt64)
  | precommit (height : UInt64) (round : UInt32) (blockHash : Option B256) (voter : UInt64)
deriving DecidableEq

inductive ConsensusEvent where
  | blockFinalized (height : UInt64) (blockHash : B256) (round : UInt32)
  | roundTimeout (height : UInt64) (round : UInt32)
  | needProposal (height : UInt64) (round : UInt32) (leader : UInt64)
  | sendPrevote (height : UInt64) (round : UInt32) (blockHash : Option B256)
  | sendPrecommit (height : UInt64) (round : UInt32) (blockHash : Option B256)
deriving DecidableEq

abbrev Votes := HashMap (UInt32 × UInt64) (Option B256)

abbrev Tally := HashMap B256 UInt64

/-- The order in which one call visits the tally it has just built. -/
abbrev TallyOrder := IterOrder (Sigma fun _ : B256 => UInt64)

namespace Votes

/-- The common body of `insert_prevote` and `insert_precommit`: only the first vote counts. -/
def insertVote (votes : Votes) (round : UInt32) (voter : UInt64) (blockHash : Option B256) : Votes × Bool :=
  if (round, voter) ∈ votes then (votes, false)
  else (AList.insert (round, voter) blockHash votes, true)

/-- One iteration of the tally loop. -/
def tallyVote (round : UInt32) (vs : ValidatorSet) (tally : Tally)
    (vote : Sigma fun _ : UInt32 × UInt64 => Option B256) : Tally :=
  if vote.1.1 ≠ round then tally
  else
    match vote.2 with
    | none => tally
    | some hash =>
      let weight := vs.weightOf vote.1.2
      if weight = 0 then tally
      else AList.insert hash (((tally.lookup hash).getD 0).saturatingAdd weight) tally

/-- The common body of `tally_prevotes` and `tally_precommits`. -/
def tally (votes : Votes) (round : UInt32) (vs : ValidatorSet) : Tally :=
  votes.entries.foldl (tallyVote round vs) ∅

end Votes

structure RoundState where
  height : UInt64
  round : UInt32
  step : Step
  proposals : HashMap UInt32 B256
  prevotes : Votes
  precommits : Votes
  lockedRound : Option UInt32
  lockedHash : Option B256

namespace RoundState

def new : RoundState where
  height := 0
  round := 0
  step := .propose
  proposals := ∅
  prevotes := ∅
  precommits := ∅
  lockedRound := none
  lockedHash := none

def resetForHeight (_s : RoundState) (height : UInt64) : RoundState where
  height := height
  round := 0
  step := .propose
  proposals := ∅
  prevotes := ∅
  precommits := ∅
  lockedRound := none
  lockedHash := none

def advanceRound (s : RoundState) : RoundState :=
  { s with round := s.round.saturatingAdd 1, step := .propose }

def insertPrevote (s : RoundState) (round : UInt32) (voter : UInt64) (blockHash : Option B256) :
    RoundState × Bool :=
  let (votes, fresh) := s.prevotes.insertVote round voter blockHash
  ({ s with prevotes := votes }, fresh)

def insertPrecommit (s : RoundState) (round : UInt32) (voter : UInt64) (blockHash : Option B256) :
    RoundState × Bool :=
  let (votes, fresh) := s.precommits.insertVote round voter blockHash
  ({ s with precommits := votes }, fresh)

def tallyPrevotes (s : RoundState) (round : UInt32) (vs : ValidatorSet) : Tally := s.prevotes.tally round vs

def tallyPrecommits (s : RoundState) (round : UInt32) (vs : ValidatorSet) : Tally := s.precommits.tally round vs

/-- The first hash, in the order of the visit, whose weight reaches the quorum. -/
def quorumHash (ord : TallyOrder) (tally : Tally) (quorumWeight : UInt64) : Option B256 :=
  (ord.order tally.entries).findSome? fun entry => if quorumWeight ≤ entry.2 then some entry.1 else none

end RoundState

structure ConsensusEngine where
  validatorSet : ValidatorSet
  state : RoundState
  fastPath : FastPathAccumulator

namespace ConsensusEngine

def new (validatorSet : ValidatorSet) (fastPathConfig : FastPathConfig) : ConsensusEngine where
  validatorSet := validatorSet
  state := .new
  fastPath := .new fastPathConfig

def startHeight (e : ConsensusEngine) (height : UInt64) : ConsensusEngine × List ConsensusEvent :=
  ({ e with state := e.state.resetForHeight height, fastPath := e.fastPath.reset },
    [.needProposal height 0 (e.validatorSet.leaderForRound height 0)])

def currentHeight (e : ConsensusEngine) : UInt64 := e.state.height

def currentRound (e : ConsensusEngine) : UInt32 := e.state.round

def onProposal (e : ConsensusEngine) (height : UInt64) (round : UInt32) (blockHash : B256)
    (proposer : UInt64) : ConsensusEngine × List ConsensusEvent :=
  if height ≠ e.state.height ∨ round ≠ e.state.round then (e, [])
  else if proposer ≠ e.validatorSet.leaderForRound height round then (e, [])
  else
    let state := { e.state with
      proposals := AList.insert round blockHash e.state.proposals, step := .prevote }
    let voteHash := state.lockedHash.or (some blockHash)
    ({ e with state := state }, [.sendPrevote height round voteHash])

/-- The attestation `on_prevote` derives from a prevote; its clock is the height and round. -/
def attestation (e : ConsensusEngine) (hash : B256) (voter : UInt64) : FastPathAttestation where
  blockHash := hash
  attesterIndex := voter
  signature := []
  receivedAtMs := (e.state.height.saturatingMul 1000).saturatingAdd e.state.round.toUInt64

/-- The second half of `on_prevote`: lock and precommit when a hash has a quorum of prevotes. -/
def lockOnQuorum (ord : TallyOrder) (e : ConsensusEngine) (height : UInt64) (round : UInt32) :
    ConsensusEngine × List ConsensusEvent :=
  let tally := e.state.tallyPrevotes round e.validatorSet
  match RoundState.quorumHash ord tally e.validatorSet.quorumWeight with
  | none => (e, [])
  | some quorumHash =>
    let shouldEmit := e.state.step ≠ .precommit ∨ e.state.lockedHash ≠ some quorumHash ∨
      e.state.lockedRound ≠ some round
    let state := { e.state with
      lockedRound := some round, lockedHash := some quorumHash, step := .precommit }
    ({ e with state := state }, if shouldEmit then [.sendPrecommit height round (some quorumHash)] else [])

def onPrevote (ord : TallyOrder) (e : ConsensusEngine) (height : UInt64) (round : UInt32)
    (blockHash : Option B256) (voter : UInt64) : ConsensusEngine × List ConsensusEvent :=
  if height ≠ e.state.height ∨ round ≠ e.state.round then (e, [])
  else
    match e.state.insertPrevote round voter blockHash with
    | (_, false) => (e, [])
    | (state, true) =>
      let e := { e with state := state }
      match blockHash with
      | none => e.lockOnQuorum ord height round
      | some hash =>
        match e.fastPath.addAttestation (e.attestation hash voter) with
        | (fastPath, some (.fastFinalized _)) =>
          ({ e with state := { e.state with step := .committed }, fastPath := fastPath },
            [.blockFinalized height hash round])
        | (fastPath, _) => { e with fastPath := fastPath }.lockOnQuorum ord height round

def onPrecommit (ord : TallyOrder) (e : ConsensusEngine) (height : UInt64) (round : UInt32)
    (blockHash : Option B256) (voter : UInt64) : ConsensusEngine × List ConsensusEvent :=
  if height ≠ e.state.height ∨ round ≠ e.state.round then (e, [])
  else
    match e.state.insertPrecommit round voter blockHash with
    | (_, false) => (e, [])
    | (state, true) =>
      let tally := state.tallyPrecommits round e.validatorSet
      match RoundState.quorumHash ord tally e.validatorSet.quorumWeight with
      | none => ({ e with state := state }, [])
      | some quorumHash =>
        ({ e with state := { state with step := .committed } }, [.blockFinalized height quorumHash round])

def onMessage (ord : TallyOrder) (e : ConsensusEngine) (msg : ConsensusMessage) :
    ConsensusEngine × List ConsensusEvent :=
  if e.state.step = .committed then (e, [])
  else
    match msg with
    | .proposal height round blockHash proposer => e.onProposal height round blockHash proposer
    | .prevote height round blockHash voter => e.onPrevote ord height round blockHash voter
    | .precommit height round blockHash voter => e.onPrecommit ord height round blockHash voter

def onTimeout (e : ConsensusEngine) : ConsensusEngine × List ConsensusEvent :=
  if e.state.step = .committed then (e, [])
  else
    let timedOutRound := e.state.round
    let state := e.state.advanceRound
    ({ e with state := state, fastPath := e.fastPath.reset },
      [.roundTimeout state.height timedOutRound,
       .needProposal state.height state.round (e.validatorSet.leaderForRound state.height state.round)])

/-! ### Sequences of calls -/

inductive Call where
  | startHeight (height : UInt64)
  | onMessage (ord : TallyOrder) (msg : ConsensusMessage)
  | onTimeout

def call (e : ConsensusEngine) : Call → ConsensusEngine × List ConsensusEvent
  | .startHeight height => e.startHeight height
  | .onMessage ord msg => e.onMessage ord msg
  | .onTimeout => e.onTimeout

def after (e : ConsensusEngine) (calls : List Call) : ConsensusEngine :=
  calls.foldl (fun e c => (e.call c).1) e

def emitted (e : ConsensusEngine) : List Call → List ConsensusEvent
  | [] => []
  | c :: calls => (e.call c).2 ++ (e.call c).1.emitted calls

theorem after_append (e : ConsensusEngine) (cs cs' : List Call) :
    e.after (cs ++ cs') = (e.after cs).after cs' := List.foldl_append

@[simp] theorem after_nil (e : ConsensusEngine) : e.after [] = e := rfl

@[simp] theorem after_cons (e : ConsensusEngine) (c : Call) (cs : List Call) :
    e.after (c :: cs) = (e.call c).1.after cs := rfl

theorem after_concat (e : ConsensusEngine) (cs : List Call) (c : Call) :
    e.after (cs ++ [c]) = ((e.after cs).call c).1 := after_append e cs [c]

theorem mem_emitted {e : ConsensusEngine} {cs : List Call} {ev : ConsensusEvent} :
    ev ∈ e.emitted cs ↔ ∃ cs₁ c cs₂, cs = cs₁ ++ c :: cs₂ ∧ ev ∈ ((e.after cs₁).call c).2 := by
  induction cs generalizing e with
  | nil => simp [emitted]
  | cons c cs ih =>
    simp only [emitted, List.mem_append, ih]
    constructor
    · rintro (h | ⟨cs₁, c', cs₂, rfl, h⟩)
      · exact ⟨[], c, cs, rfl, h⟩
      · exact ⟨c :: cs₁, c', cs₂, rfl, h⟩
    · rintro ⟨cs₁, c', cs₂, heq, h⟩
      cases cs₁ with
      | nil => cases heq; exact .inl h
      | cons d cs₁ => cases heq; exact .inr ⟨cs₁, c', cs₂, rfl, h⟩

end ConsensusEngine

end Eth2077
