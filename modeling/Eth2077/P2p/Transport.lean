import Mathlib.Data.Finset.Card
import Eth2077.Lib.Runs
import Eth2077.Lib.Tally
import Eth2077.P2p.Peer

/-!
# The transport (`p2p/src/transport.rs`)

`GossipTransport` keeps the addresses of its peers in a set and takes up no more connections than the set leaves
room for. The calls `accept` and `connect` are suspended at every await, so between the look at the set and
the insertion any other call may run; and a disconnection takes its address out of the set even if another
connection has it too.
-/

namespace Eth2077

namespace P2p

inductive TransportEvent where
  | peerConnected (addr : SocketAddr)
  | peerDisconnected (addr : SocketAddr)
deriving DecidableEq

structure GossipTransport where
  maxPeers : ℕ
  activePeers : Finset SocketAddr
  events : List TransportEvent

namespace GossipTransport
variable (t : GossipTransport)

def hasCapacity : Bool := t.activePeers.card < t.maxPeers

/-- The end of `accept` and of `connect`. -/
def insertPeer (peerAddr : SocketAddr) : GossipTransport :=
  { t with
    activePeers := insert peerAddr t.activePeers
    events := t.events ++ [.peerConnected peerAddr] }

def disconnect (addr : SocketAddr) : GossipTransport :=
  { t with
    activePeers := t.activePeers.erase addr
    events := t.events ++ [.peerDisconnected addr] }

end GossipTransport

/-- Where a call is suspended, or the connection it has returned. -/
inductive Task where
  /-- `accept` has a socket. -/
  | accepted (peerAddr : SocketAddr)
  /-- `accept` has found capacity. -/
  | admitted (peerAddr : SocketAddr)
  /-- `connect` has found capacity. -/
  | dialing (addr : SocketAddr)
  /-- `connect` has a socket. -/
  | dialed (peerAddr : SocketAddr)
  | connected (peerAddr : SocketAddr)
deriving DecidableEq

/-- The address of an open connection. -/
def Task.openAddr : Task → Option SocketAddr
  | connected peerAddr => some peerAddr
  | _ => none

/-- The transport with the calls made of it. -/
structure Calls where
  transport : GossipTransport
  tasks : HashMap ℕ Task

inductive CallStep where
  | acceptSocket (call : ℕ) (peerAddr : SocketAddr)
  | acceptCheck (call : ℕ)
  | acceptInsert (call : ℕ)
  | connectCheck (call : ℕ) (addr : SocketAddr)
  | connectSocket (call : ℕ) (peerAddr : SocketAddr)
  | connectFailed (call : ℕ)
  | connectInsert (call : ℕ)
  /-- The connection that the call has returned ends. -/
  | disconnect (call : ℕ)

namespace Calls

def init (maxPeers : ℕ) : Calls := ⟨⟨maxPeers, ∅, []⟩, ∅⟩

def step (s : Calls) : CallStep → Option Calls
  | .acceptSocket call peerAddr =>
    if call ∈ s.tasks then none else some { s with tasks := AList.insert call (.accepted peerAddr) s.tasks }
  | .acceptCheck call =>
    match s.tasks.lookup call with
    | some (.accepted peerAddr) =>
      if s.transport.hasCapacity then some { s with tasks := AList.insert call (.admitted peerAddr) s.tasks }
      -- rejected: the loop waits for the next socket
      else some { s with tasks := s.tasks.erase call }
    | _ => none
  | .acceptInsert call =>
    match s.tasks.lookup call with
    | some (.admitted peerAddr) =>
      some ⟨s.transport.insertPeer peerAddr, AList.insert call (.connected peerAddr) s.tasks⟩
    | _ => none
  | .connectCheck call addr =>
    if call ∈ s.tasks then none
    else if s.transport.hasCapacity then some { s with tasks := AList.insert call (.dialing addr) s.tasks }
    else some s
  | .connectSocket call peerAddr =>
    match s.tasks.lookup call with
    | some (.dialing _) => some { s with tasks := AList.insert call (.dialed peerAddr) s.tasks }
    | _ => none
  | .connectFailed call =>
    match s.tasks.lookup call with
    | some (.dialing _) => some { s with tasks := s.tasks.erase call }
    | _ => none
  | .connectInsert call =>
    match s.tasks.lookup call with
    | some (.dialed peerAddr) =>
      some ⟨s.transport.insertPeer peerAddr, AList.insert call (.connected peerAddr) s.tasks⟩
    | _ => none
  | .disconnect call =>
    match s.tasks.lookup call with
    | some (.connected peerAddr) => some ⟨s.transport.disconnect peerAddr, s.tasks.erase call⟩
    | _ => none

/-! ### Open connections -/

def openAddrs (tasks : HashMap ℕ Task) : List SocketAddr := tasks.values.filterMap Task.openAddr

/-- The set has the addresses of the open connections, and there are not too many of them. -/
structure Admission (s : Calls) : Prop where
  active : ∀ addr, addr ∈ s.transport.activePeers ↔ addr ∈ openAddrs s.tasks
  limit : (openAddrs s.tasks).length ≤ s.transport.maxPeers

/-- There is room for a connection when it is inserted, and only sole connections of their address end. -/
def InOrder (s : Calls) : CallStep → Prop
  | .acceptInsert _ | .connectInsert _ => (openAddrs s.tasks).length < s.transport.maxPeers
  | .disconnect call => ∀ addr, s.tasks.lookup call = some (.connected addr) → (openAddrs s.tasks).count addr = 1
  | _ => True

variable {s s' : Calls} {tasks : HashMap ℕ Task} {call : ℕ} {task task' : Task} {x : CallStep}

theorem openAddrs_insert : openAddrs (AList.insert call task' tasks) = task'.openAddr.toList ++ openAddrs (tasks.erase call) := by
  show ((task' :: (tasks.erase call).values).filterMap Task.openAddr) = _
  cases h : task'.openAddr <;> simp [h, openAddrs]

theorem openAddrs_erase (h : tasks.lookup call = some task) :
    (openAddrs tasks).Perm (task.openAddr.toList ++ openAddrs (tasks.erase call)) := by
  refine ((AList.values_erase h).filterMap _).trans (.of_eq ?_)
  cases h : task.openAddr <;> simp [h, openAddrs]

/-- A call goes on from one suspension to the next. -/
theorem openAddrs_replace (h : tasks.lookup call = some task) (htask : task.openAddr = none) :
    (openAddrs (AList.insert call task' tasks)).Perm (task'.openAddr.toList ++ openAddrs tasks) := by
  rw [openAddrs_insert]
  have herase := openAddrs_erase h
  rw [htask] at herase
  exact herase.symm.append_left _

theorem openAddrs_fresh (h : call ∉ tasks) :
    openAddrs (AList.insert call task' tasks) = task'.openAddr.toList ++ openAddrs tasks := by
  unfold openAddrs
  rw [AList.values_insert h]
  cases h : task'.openAddr <;> simp [h]

/-- A step leaves the connections and the transport, or adds one connection, or ends one. -/
theorem step_cases (h : s.step x = some s') :
    (s'.transport = s.transport ∧ (openAddrs s'.tasks).Perm (openAddrs s.tasks) ∧ ∀ s'', InOrder s'' x) ∨
    (∃ addr, s'.transport = s.transport.insertPeer addr ∧ (openAddrs s'.tasks).Perm (addr :: openAddrs s.tasks) ∧
      (InOrder s x ↔ (openAddrs s.tasks).length < s.transport.maxPeers)) ∨
    (∃ addr, s'.transport = s.transport.disconnect addr ∧ (openAddrs s.tasks).Perm (addr :: openAddrs s'.tasks) ∧
      (InOrder s x ↔ (openAddrs s.tasks).count addr = 1)) := by
  cases x with
  | acceptSocket call peerAddr =>
    simp only [step] at h
    split_ifs at h with hcall
    cases h
    exact .inl ⟨rfl, .of_eq (openAddrs_fresh hcall), fun _ => trivial⟩
  | acceptCheck call =>
    simp only [step] at h
    split at h
    · rename_i peerAddr hlookup
      split_ifs at h
      · cases h
        exact .inl ⟨rfl, openAddrs_replace hlookup rfl, fun _ => trivial⟩
      · cases h
        exact .inl ⟨rfl, (openAddrs_erase hlookup).symm, fun _ => trivial⟩
    · cases h
  | acceptInsert call =>
    simp only [step] at h
    split at h
    · rename_i peerAddr hlookup
      cases h
      exact .inr (.inl ⟨peerAddr, rfl, openAddrs_replace hlookup rfl, Iff.rfl⟩)
    · cases h
  | connectCheck call addr =>
    simp only [step] at h
    split_ifs at h with hcall hcap
    · cases h
      exact .inl ⟨rfl, .of_eq (openAddrs_fresh hcall), fun _ => trivial⟩
    · cases h
      exact .inl ⟨rfl, .refl _, fun _ => trivial⟩
  | connectSocket call peerAddr =>
    simp only [step] at h
    split at h
    · rename_i addr hlookup
      cases h
      exact .inl ⟨rfl, openAddrs_replace hlookup rfl, fun _ => trivial⟩
    · cases h
  | connectFailed call =>
    simp only [step] at h
    split at h
    · rename_i addr hlookup
      cases h
      exact .inl ⟨rfl, (openAddrs_erase hlookup).symm, fun _ => trivial⟩
    · cases h
  | connectInsert call =>
    simp only [step] at h
    split at h
    · rename_i peerAddr hlookup
      cases h
      exact .inr (.inl ⟨peerAddr, rfl, openAddrs_replace hlookup rfl, Iff.rfl⟩)
    · cases h
  | disconnect call =>
    simp only [step] at h
    split at h
    · rename_i peerAddr hlookup
      cases h
      refine .inr (.inr ⟨peerAddr, rfl, openAddrs_erase hlookup, ?_⟩)
      simp [InOrder, hlookup]
    · cases h

theorem admission_init (maxPeers : ℕ) : Admission (init maxPeers) :=
  ⟨fun _ => iff_of_false (by simp [init]) (by simp [init, openAddrs, AList.values]), Nat.zero_le _⟩

/-- After a step the admission is as it should be exactly if the step was in order. -/
theorem admission_step (hs : Admission s) (h : s.step x = some s') : Admission s' ↔ InOrder s x := by
  rcases step_cases h with ⟨htransport, hperm, horder⟩ | ⟨addr, htransport, hperm, horder⟩ |
    ⟨addr, htransport, hperm, horder⟩
  · refine iff_of_true ⟨fun addr => ?_, ?_⟩ (horder s)
    · rw [htransport, hs.active, hperm.mem_iff]
    · rw [htransport, hperm.length_eq]
      exact hs.limit
  · rw [horder]
    refine ⟨fun hs' => ?_, fun hroom => ⟨fun addr' => ?_, ?_⟩⟩
    · have hlimit := hs'.limit
      rwa [htransport, hperm.length_eq] at hlimit
    · rw [htransport, hperm.mem_iff, List.mem_cons, ← hs.active]
      exact Finset.mem_insert
    · rw [htransport, hperm.length_eq]
      exact hroom
  · have hcount : (openAddrs s.tasks).count addr = (openAddrs s'.tasks).count addr + 1 := by
      rw [hperm.count_eq, List.count_cons_self]
    rw [horder, hcount]
    refine ⟨fun hs' => ?_, fun hone => ⟨fun addr' => ?_, ?_⟩⟩
    · -- the address has left the set, so no open connection may have it
      have hgone : addr ∉ openAddrs s'.tasks := by
        rw [← hs'.active, htransport]
        exact Finset.notMem_erase addr _
      rw [List.count_eq_zero.mpr hgone]
    · have hgone : addr ∉ openAddrs s'.tasks := List.count_eq_zero.mp (by omega)
      have hmem : addr' ∈ s'.transport.activePeers ↔ addr' ≠ addr ∧ addr' ∈ s.transport.activePeers := by
        rw [htransport]
        exact Finset.mem_erase
      rw [hmem, hs.active, hperm.mem_iff, List.mem_cons]
      refine ⟨fun ⟨hne, h⟩ => h.resolve_left hne, fun h => ⟨?_, .inr h⟩⟩
      rintro rfl
      exact hgone h
    · have hlimit := hs.limit
      rw [hperm.length_eq, List.length_cons] at hlimit
      rw [htransport]
      exact Nat.le_of_succ_le hlimit

/-- Admission works throughout a run of calls exactly if every insertion finds room and every disconnection is of the only
connection to its address. -/
theorem admission_iff (maxPeers : ℕ) (steps : List CallStep) (h : (Run.exec step (init maxPeers) steps).isSome) :
    Run.Throughout step Admission (init maxPeers) steps ↔ Run.Along step InOrder (init maxPeers) steps :=
  Run.throughout_iff_along (A := fun _ => True) h (admission_init maxPeers)
    (fun _ _ _ hs hx hstep => (admission_step hs hstep).mpr hx) (fun _ hs => hs) trivial (fun _ _ _ _ _ => trivial)
    (fun _ _ _ _ hs hstep hs' => (admission_step hs hstep).mp hs')

def localAddr (port : UInt16) : SocketAddr := ([127, 0, 0, 1], port)

/-- One connection at a time is in order. -/
theorem admission_iff_one_connection :
    Run.Throughout step Admission (init 1)
      [.connectCheck 0 (localAddr 1), .connectSocket 0 (localAddr 1), .connectInsert 0, .disconnect 0] := by
  refine (admission_iff 1 _ rfl).mpr ?_
  refine .cons trivial rfl (.cons trivial rfl (.cons ?_ rfl (.cons ?_ rfl Run.along_nil)))
  · show 0 < 1
    decide
  · intro addr h
    obtain rfl : localAddr 1 = addr := Task.connected.inj (Option.some_inj.mp h)
    decide

/-- Two calls look at the set before either inserts; and of two connections to one address one ends. -/
theorem admission_fails :
    (∃ s, Run.exec step (init 1)
        [.connectCheck 0 (localAddr 1), .connectCheck 1 (localAddr 2), .connectSocket 0 (localAddr 1),
          .connectSocket 1 (localAddr 2), .connectInsert 0, .connectInsert 1] = some s ∧
      s.transport.maxPeers < (openAddrs s.tasks).length ∧ ¬ Admission s) ∧
    ∃ s, Run.exec step (init 2)
        [.connectCheck 0 (localAddr 1), .connectSocket 0 (localAddr 1), .connectInsert 0,
          .connectCheck 1 (localAddr 1), .connectSocket 1 (localAddr 1), .connectInsert 1, .disconnect 0] = some s ∧
      localAddr 1 ∈ openAddrs s.tasks ∧ localAddr 1 ∉ s.transport.activePeers ∧ ¬ Admission s := by
  refine ⟨⟨_, rfl, by decide, fun h => ?_⟩, _, rfl, by decide, by decide, fun h => ?_⟩
  · exact absurd h.limit (by decide)
  · exact absurd ((h.active (localAddr 1)).mpr (by decide)) (by decide)

end Calls

end P2p

end Eth2077
