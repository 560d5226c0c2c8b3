import Eth2077.Oob.Equivocation
import Eth2077.Oob.Finality
import Eth2077.Lib.LockedVoting

/-!
# A network of engines at one height

Every correct member runs an engine that was started once. `process_consensus_events` pops the
pending events of a node from the end, broadcasts the vote an event asks for and delivers it to the
node's own engine; here each pop is a step of its own. Messages that were broadcast stay available,
so they can be delivered late, twice or never; what Byzantine members send, and all proposals, come
from outside (`Network.external`). The votes broadcast so far, read as a history of the abstract
protocol, are `history`.
-/

namespace Eth2077
open LockedVoting ConsensusEngine

structure Node where
  engine : ConsensusEngine
  events : List ConsensusEvent

/-- A call made by a node, the state it was made in and what it emitted. -/
structure LogEntry where
  node : UInt64
  before : ConsensusEngine
  call : Call
  events : List ConsensusEvent

/-- The nodes, the messages broadcast so far and the calls made so far, both newest first. -/
structure Net where
  nodes : UInt64 → Node
  sent : List ConsensusMessage
  log : List LogEntry

inductive Label where
  | deliver (i : UInt64) (ord : TallyOrder) (msg : ConsensusMessage)
  | timeout (i : UInt64)
  | process (i : UInt64) (ord : TallyOrder)

namespace Net

def run (s : Net) (i : UInt64) (c : Call) : Net :=
  let n := s.nodes i
  { s with
    nodes := Function.update s.nodes i ⟨(n.engine.call c).1, n.events ++ (n.engine.call c).2⟩
    log := ⟨i, n.engine, c, (n.engine.call c).2⟩ :: s.log }

def pop (s : Net) (i : UInt64) : Net :=
  { s with nodes := Function.update s.nodes i { s.nodes i with events := (s.nodes i).events.dropLast } }

def say (s : Net) (i : UInt64) (ord : TallyOrder) (msg : ConsensusMessage) : Net :=
  { s with sent := msg :: s.sent }.run i (.onMessage ord msg)

/-- The block node `i` has finalised, as its engine reported it. -/
def Finalized (s : Net) (i height : UInt64) (h : B256) (r : UInt32) : Prop :=
  ∃ entry ∈ s.log, entry.node = i ∧ .blockFinalized height h r ∈ entry.events

end Net

structure Network where
  validatorSet : ValidatorSet
  fastPathConfig : FastPathConfig
  height : UInt64
  byzantine : Finset UInt64
  external : ConsensusMessage → Bool

namespace Network

variable (N : Network)

def honest : Finset UInt64 := N.validatorSet.indices \ N.byzantine

def init : Net :=
  let (engine, events) := (ConsensusEngine.new N.validatorSet N.fastPathConfig).startHeight N.height
  { nodes := fun _ => ⟨engine, events⟩, sent := [], log := [] }

def Deliverable (sent : List ConsensusMessage) (msg : ConsensusMessage) : Prop :=
  msg ∈ sent ∨ N.external msg = true

instance (sent : List ConsensusMessage) (msg : ConsensusMessage) : Decidable (N.Deliverable sent msg) :=
  inferInstanceAs (Decidable (_ ∨ _))

/-- One step of the network, if it is possible. A node takes a message or a timeout only when it has
processed its events. -/
def step? (s : Net) : Label → Option Net
  | .deliver i ord msg =>
    if i ∈ N.honest ∧ (s.nodes i).events = [] ∧ N.Deliverable s.sent msg then
      some (s.run i (.onMessage ord msg))
    else none
  | .timeout i =>
    if i ∈ N.honest ∧ (s.nodes i).events = [] then some (s.run i .onTimeout) else none
  | .process i ord =>
    if i ∈ N.honest then
      match (s.nodes i).events.getLast? with
      | none => none
      | some (.sendPrevote height round blockHash) =>
        some ((s.pop i).say i ord (.prevote height round blockHash i))
      | some (.sendPrecommit height round blockHash) =>
        some ((s.pop i).say i ord (.precommit height round blockHash i))
      -- a finalised block would start the next height; here every engine is started once
      | some _ => some (s.pop i)
    else none

inductive Reachable : Net → Prop
  | init : Reachable N.init
  | step {s s' : Net} (l : Label) (hs : Reachable s) (h : N.step? s l = some s') : Reachable s'

def exec (s : Net) : List Label → Option Net
  | [] => some s
  | l :: ls => (N.step? s l).bind fun s' => exec s' ls

instance (s : Net) (i height : UInt64) (h : B256) (r : UInt32) : Decidable (s.Finalized i height h r) :=
  inferInstanceAs (Decidable (∃ entry ∈ s.log, _))

variable {N}

theorem Reachable.exec {s s' : Net} {ls : List Label} (hs : N.Reachable s) (h : N.exec s ls = some s') :
    N.Reachable s' := by
  induction ls generalizing s with
  | nil => cases h; exact hs
  | cons l ls ih =>
    obtain ⟨s₁, h1, h2⟩ := Option.bind_eq_some_iff.mp h
    exact ih (hs.step l h1) h2

theorem exists_of_exec {p : Net → Prop} [DecidablePred p] (ls : List Label)
    (h : ((N.exec N.init ls).any fun s => decide (p s)) = true) : ∃ s, N.Reachable s ∧ p s := by
  cases hs : N.exec N.init ls with
  | none => rw [hs] at h; cases h
  | some s =>
    rw [hs] at h
    exact ⟨s, Reachable.init.exec hs, of_decide_eq_true h⟩

end Network

/-! ### The abstract history -/

def voteOf : ConsensusMessage → Option (Vote UInt64 B256)
  | .prevote _ r (some h) v => some (.prevote v r.toNat h)
  | .precommit _ r (some h) v => some (.precommit v r.toNat h)
  | _ => none

def history (sent : List ConsensusMessage) : List (Vote UInt64 B256) := sent.filterMap voteOf

theorem mem_history_of_prevote {sent : List ConsensusMessage} {height : UInt64} {r : UInt32} {h : B256}
    {v : UInt64} (hm : .prevote height r (some h) v ∈ sent) : .prevote v r.toNat h ∈ history sent :=
  List.mem_filterMap.mpr ⟨_, hm, rfl⟩

theorem mem_history_of_precommit {sent : List ConsensusMessage} {height : UInt64} {r : UInt32} {h : B256}
    {v : UInt64} (hm : .precommit height r (some h) v ∈ sent) : .precommit v r.toNat h ∈ history sent :=
  List.mem_filterMap.mpr ⟨_, hm, rfl⟩

def voter? : ConsensusMessage → Option UInt64
  | .proposal _ _ _ _ => none
  | .prevote _ _ _ v => some v
  | .precommit _ _ _ v => some v

namespace ConsensusEngine

/-- The lock of an engine in the terms of the abstract protocol. -/
def lockPair (e : ConsensusEngine) : Option (ℕ × B256) :=
  match e.state.lockedRound, e.state.lockedHash with
  | some r, some h => some (r.toNat, h)
  | _, _ => none

theorem Inv.lockedHash_of_lockPair {e : ConsensusEngine} (hi : Inv e) (hp : e.lockPair = none) :
    e.state.lockedHash = none := by
  have hpair := hi.pair
  unfold lockPair at hp
  cases hr : e.state.lockedRound with
  | none => rwa [hr, Option.isSome_none, Option.isSome_eq_false_iff, Option.isNone_iff_eq_none] at hpair
  | some r =>
    cases hh : e.state.lockedHash with
    | none => rfl
    | some h => simp [hr, hh] at hp

theorem lockedOn_of_lockPair {e : ConsensusEngine} {r : ℕ} {h : B256} (hp : e.lockPair = some (r, h)) :
    ∃ r' : UInt32, r'.toNat = r ∧ e.LockedOn r' h := by
  unfold lockPair at hp
  cases hr : e.state.lockedRound with
  | none => simp [hr] at hp
  | some r' =>
    cases hh : e.state.lockedHash with
    | none => simp [hr, hh] at hp
    | some h' =>
      simp only [hr, hh, Option.some.injEq, Prod.mk.injEq] at hp
      obtain ⟨rfl, rfl⟩ := hp
      exact ⟨r', rfl, hr, hh⟩

theorem LockedOn.lockPair {e : ConsensusEngine} {r : UInt32} {h : B256} (hl : e.LockedOn r h) :
    e.lockPair = some (r.toNat, h) := by
  unfold ConsensusEngine.lockPair
  rw [hl.1, hl.2]

end ConsensusEngine

namespace Network

variable (N : Network)

def Proposed (r : ℕ) (h : B256) : Prop :=
  ∃ height round proposer, round.toNat = r ∧ N.external (.proposal height round h proposer) = true

def QuorumsMeet : Prop :=
  N.validatorSet.weights.total + N.validatorSet.weights.of N.byzantine <
    2 * N.validatorSet.quorumWeight.toNat

/-- Nobody votes under the index of a correct member but that member. -/
def Authentic : Prop := ∀ msg v, N.external msg = true → voter? msg = some v → v ∉ N.honest

def setting (hm : N.QuorumsMeet) : Setting UInt64 B256 where
  W := N.validatorSet.weights
  byz := N.byzantine
  q := N.validatorSet.quorumWeight.toNat
  inter := hm
  Proposed := N.Proposed

variable {N} {hm : N.QuorumsMeet}

theorem correct_iff {v : UInt64} : (N.setting hm).Correct v ↔ v ∈ N.honest := by
  rw [honest, Finset.mem_sdiff]; exact Iff.rfl

end Network

end Eth2077
