import Eth2077.P2p.Node
import Eth2077.Lib.Runs

/-!
# The peer table and the connections

Connections announce a peer id once, send messages and end; the notices of all of them reach the
dispatch loop in any order. `Tracks` says that the table holds the ids of the connections that were
accepted and are open. A notice of disconnection removes its id from the table whichever connection it
comes from, so the table is right as long as only sole connections of their peer end.
-/

namespace Eth2077

namespace P2p

/-- A connection as the dispatch loop has seen it. -/
inductive ConnState where
  | fresh
  | live (peerId : UInt64) (accepted : Bool)
  | closed
deriving DecidableEq

/-- The node, the connections and the events emitted so far, oldest first. -/
structure Peers where
  node : P2pNode
  conns : ℕ → ConnState
  events : List P2pEvent

/-- A notice of connection `conn`. -/
inductive Notice where
  | connect (conn : ℕ) (peerId : UInt64) (addr : SocketAddr) (bestHeight : UInt64) (bestHash : B256)
  | message (conn : ℕ) (message : WireMessage)
  | disconnect (conn : ℕ)

namespace Peers

def init (maxPeers : ℕ) : Peers := ⟨.new maxPeers, fun _ => .fresh, []⟩

/-- The loop takes one notice from the queue. A connection announces its peer before it sends
anything else, and ends once. -/
def step (s : Peers) (x : DispatchEnv × Notice) : Option Peers :=
  match x.2 with
  | .connect conn peerId addr bestHeight bestHash =>
    if s.conns conn = .fresh then
      let (node, out) := s.node.dispatch x.1 (.peerConnected peerId addr bestHeight bestHash conn)
      let accepted := decide (.peerConnected peerId ∈ out.events)
      some ⟨node, Function.update s.conns conn (.live peerId accepted), s.events ++ out.events⟩
    else none
  | .message conn message =>
    match s.conns conn with
    | .live peerId _ =>
      let (node, out) := s.node.dispatch x.1 (.message peerId message)
      some ⟨node, s.conns, s.events ++ out.events⟩
    | _ => none
  | .disconnect conn =>
    match s.conns conn with
    | .live peerId _ =>
      let (node, out) := s.node.dispatch x.1 (.peerDisconnected peerId)
      some ⟨node, Function.update s.conns conn .closed, s.events ++ out.events⟩
    | _ => none

/-- A connection of `p` was announced, and none since was announced to be gone. -/
def Announced (p : UInt64) (events : List P2pEvent) : Prop :=
  ∃ pre post, events = pre ++ .peerConnected p :: post ∧ .peerDisconnected p ∉ post

/-- The table tracks the live connections. -/
structure Tracks (s : Peers) : Prop where
  keys : ∀ p, p ∈ s.node.peerManager.peers ↔ p ∈ s.node.peerSenders
  bound : s.node.peerManager.peers.keys.length ≤ s.node.peerManager.maxPeers
  live : ∀ p, p ∈ s.node.peerManager.peers ↔ ∃ conn, s.conns conn = .live p true
  sender : ∀ p conn, s.node.peerSenders.lookup p = some conn → ∃ q accepted, s.conns conn = .live q accepted
  events : ∀ pre p post, s.events = pre ++ .peerDisconnected p :: post → Announced p pre

/-- The connection was accepted and is the only accepted one of its peer. -/
def Sole (s : Peers) (conn : ℕ) : Prop :=
  ∃ p, s.conns conn = .live p true ∧ ∀ conn', s.conns conn' = .live p true → conn' = conn

/-- Only sole connections end. -/
def SoleEnds (s : Peers) (x : DispatchEnv × Notice) : Prop :=
  ∀ conn, x.2 = .disconnect conn → s.Sole conn

/-! ### Announcements -/

variable {p q : UInt64} {events es : List P2pEvent} {e : P2pEvent}

theorem concat_eq_append_cons {pre post : List P2pEvent} {e' : P2pEvent}
    (h : events ++ [e] = pre ++ e' :: post) :
    pre = events ∧ e' = e ∧ post = [] ∨ ∃ post', post = post' ++ [e] ∧ events = pre ++ e' :: post' := by
  induction post using List.reverseRecOn with
  | nil =>
    obtain ⟨hpre, hlast⟩ := List.append_inj' h rfl
    exact .inl ⟨hpre.symm, (List.singleton_inj.mp hlast).symm, rfl⟩
  | append_singleton post last _ =>
    rw [← List.cons_append, ← List.append_assoc] at h
    obtain ⟨hpre, hlast⟩ := List.append_inj' h rfl
    exact .inr ⟨post, by rw [List.singleton_inj.mp hlast], hpre⟩

theorem announced_concat :
    Announced p (events ++ [e]) ↔ e = .peerConnected p ∨ e ≠ .peerDisconnected p ∧ Announced p events := by
  constructor
  · rintro ⟨pre, post, heq, hpost⟩
    rcases concat_eq_append_cons heq with ⟨-, he, -⟩ | ⟨post', rfl, rfl⟩
    · exact .inl he.symm
    · rw [List.mem_append, not_or, List.mem_singleton] at hpost
      exact .inr ⟨Ne.symm hpost.2, pre, post', rfl, hpost.1⟩
  · rintro (rfl | ⟨he, pre, post, rfl, hpost⟩)
    · exact ⟨events, [], rfl, List.not_mem_nil⟩
    · refine ⟨pre, post ++ [e], by simp, ?_⟩
      rw [List.mem_append, not_or, List.mem_singleton]
      exact ⟨hpost, Ne.symm he⟩

theorem announced_append (h : ∀ e ∈ es, e.isPeerNotice = false) :
    Announced p (events ++ es) ↔ Announced p events := by
  induction es using List.reverseRecOn with
  | nil => rw [List.append_nil]
  | append_singleton es e ih =>
    have he := h e (by simp)
    rw [← List.append_assoc, announced_concat, ih fun e' he' => h e' (by simp [he'])]
    constructor
    · rintro (rfl | ⟨-, hann⟩)
      · cases he
      · exact hann
    · intro hann
      exact .inr ⟨(by rintro rfl; cases he), hann⟩

/-- Every notice that a peer is gone takes back an announcement. -/
def Matched (events : List P2pEvent) : Prop :=
  ∀ pre p post, events = pre ++ .peerDisconnected p :: post → Announced p pre

theorem matched_concat :
    Matched (events ++ [e]) ↔ Matched events ∧ ∀ p, e = .peerDisconnected p → Announced p events := by
  constructor
  · intro h
    constructor
    · rintro pre p post rfl
      exact h pre p (post ++ [e]) (by simp)
    · rintro p rfl
      exact h events p [] rfl
  · rintro ⟨hm, he⟩ pre p post heq
    rcases concat_eq_append_cons heq with ⟨rfl, hlast, -⟩ | ⟨post', -, hevents⟩
    · exact he p hlast.symm
    · exact hm pre p post' hevents

theorem matched_append (h : ∀ e ∈ es, e.isPeerNotice = false) (hm : Matched events) : Matched (events ++ es) := by
  induction es using List.reverseRecOn with
  | nil => rwa [List.append_nil]
  | append_singleton es e ih =>
    have he := h e (by simp)
    rw [← List.append_assoc, matched_concat]
    exact ⟨ih fun e' he' => h e' (by simp [he']), by rintro p rfl; cases he⟩

/-! ### What one notice does -/

/-- All that the handling of one notice can do. -/
inductive Effect (s : Peers) : DispatchEnv × Notice → Peers → Prop
  | refused {x s'} (conn : ℕ) (p : UInt64) (fresh : s.conns conn = .fresh) (full : p ∉ s.node.peerManager.peers)
      (manager : s'.node.peerManager = s.node.peerManager) (senders : s'.node.peerSenders = s.node.peerSenders)
      (conns : s'.conns = Function.update s.conns conn (.live p false)) (events : s'.events = s.events)
      (notice : ∀ conn, x.2 ≠ .disconnect conn) : Effect s x s'
  | accepted {x s'} (conn : ℕ) (p : UInt64) (info : PeerInfo) (fresh : s.conns conn = .fresh)
      (room : p ∈ s.node.peerManager.peers ∨ s.node.peerManager.peers.keys.length < s.node.peerManager.maxPeers)
      (manager : s'.node.peerManager =
        { s.node.peerManager with peers := AList.insert p info s.node.peerManager.peers })
      (senders : s'.node.peerSenders = AList.insert p conn s.node.peerSenders)
      (conns : s'.conns = Function.update s.conns conn (.live p true))
      (events : s'.events = s.events ++ [.peerConnected p])
      (notice : ∀ conn, x.2 ≠ .disconnect conn) : Effect s x s'
  | message {x s'} (es : List P2pEvent)
      (keys : s'.node.peerManager.peers.keys = s.node.peerManager.peers.keys)
      (max : s'.node.peerManager.maxPeers = s.node.peerManager.maxPeers)
      (senders : s'.node.peerSenders = s.node.peerSenders) (conns : s'.conns = s.conns)
      (events : s'.events = s.events ++ es) (quiet : ∀ e ∈ es, e.isPeerNotice = false)
      (notice : ∀ conn, x.2 ≠ .disconnect conn) : Effect s x s'
  | ended {x s'} (conn : ℕ) (p : UInt64) (accepted : Bool) (live : s.conns conn = .live p accepted)
      (manager : s'.node.peerManager =
        { s.node.peerManager with peers := s.node.peerManager.peers.erase p })
      (senders : s'.node.peerSenders = s.node.peerSenders.erase p)
      (conns : s'.conns = Function.update s.conns conn .closed)
      (events : s'.events = s.events ++ [.peerDisconnected p])
      (notice : x.2 = .disconnect conn) : Effect s x s'

theorem effect_of_step {s s' : Peers} {x : DispatchEnv × Notice} (h : s.step x = some s') : s.Effect x s' := by
  obtain ⟨env, notice⟩ := x
  cases notice with
  | connect conn peerId addr bestHeight bestHash =>
    simp only [step] at h
    split_ifs at h with hfresh
    cases h
    simp only [P2pNode.dispatch, P2pNode.onPeerConnected]
    rcases s.node.peerManager.addPeer_cases
        { PeerInfo.new env.now peerId addr .connected with bestHeight, bestHash } with
      ⟨hadd, hnew⟩ | ⟨hadd, hroom⟩
    · rw [hadd]
      exact .refused conn peerId hfresh hnew rfl rfl (by simp) (by simp) (by simp)
    · rw [hadd]
      exact .accepted conn peerId _ hfresh hroom rfl rfl (by simp) rfl (by simp)
  | message conn message =>
    simp only [step] at h
    split at h
    · rename_i peerId accepted hlive
      cases h
      obtain ⟨hkeys, hmax, hsenders, hquiet⟩ : s.node.KeepsTable (s.node.onMessage env peerId message) :=
        P2pNode.keepsTable_onMessage message
      exact .message _ hkeys hmax hsenders rfl rfl hquiet (by simp)
    · cases h
  | disconnect conn =>
    simp only [step] at h
    split at h
    · rename_i peerId accepted hlive
      cases h
      exact .ended conn peerId accepted hlive rfl rfl rfl rfl rfl
    · cases h

/-! ### What runs keep -/

variable {s s' : Peers} {x : DispatchEnv × Notice}

/-- In every run, the table holds the peers that were announced and not taken back. -/
def TableAnnounced (s : Peers) : Prop := ∀ p, Announced p s.events ↔ p ∈ s.node.peerManager.peers

theorem tableAnnounced_step (hs : s.TableAnnounced) (h : s.step x = some s') : s'.TableAnnounced := by
  intro q
  cases effect_of_step h with
  | refused conn p fresh full manager senders conns events notice =>
    rw [events, manager]
    exact hs q
  | accepted conn p info fresh room manager senders conns events notice =>
    rw [events, manager, announced_concat, hs q]
    simp [AList.mem_insert, eq_comm]
  | message es keys max senders conns events quiet notice =>
    rw [events, announced_append quiet, hs q, AList.mem_keys, AList.mem_keys, keys]
  | ended conn p accepted live manager senders conns events notice =>
    rw [events, manager, announced_concat, hs q]
    simp [AList.mem_erase, eq_comm]

/-- `Tracks`, and that the sender of a peer is an accepted connection of it. -/
structure Inv (s : Peers) : Prop where
  keys : ∀ p, p ∈ s.node.peerManager.peers ↔ p ∈ s.node.peerSenders
  bound : s.node.peerManager.peers.keys.length ≤ s.node.peerManager.maxPeers
  live : ∀ p conn, s.conns conn = .live p true → p ∈ s.node.peerManager.peers
  sender : ∀ p conn, s.node.peerSenders.lookup p = some conn → s.conns conn = .live p true
  announced : s.TableAnnounced
  matched : Matched s.events

theorem Inv.tracks (hs : s.Inv) : s.Tracks where
  keys := hs.keys
  bound := hs.bound
  live p := by
    constructor
    · intro hp
      obtain ⟨conn, hconn⟩ := mem_iff_exists_lookup.mp ((hs.keys p).mp hp)
      exact ⟨conn, hs.sender p conn hconn⟩
    · rintro ⟨conn, hconn⟩
      exact hs.live p conn hconn
  sender p conn hconn := ⟨p, true, hs.sender p conn hconn⟩
  events := hs.matched

theorem inv_init (maxPeers : ℕ) : (init maxPeers).Inv where
  keys p := by simp [init, P2pNode.new, PeerManager.new]
  bound := Nat.zero_le _
  live p conn h := by cases h
  sender p conn h := by cases h
  announced p := by
    constructor
    · rintro ⟨pre, post, h, -⟩
      simp [init] at h
    · intro h
      cases h
  matched := by
    intro pre p post h
    simp [init] at h

theorem inv_step (hs : s.Inv) (hx : s.SoleEnds x) (h : s.step x = some s') : s'.Inv := by
  have hannounced := tableAnnounced_step hs.announced h
  cases effect_of_step h with
  | refused conn p fresh full manager senders conns events notice =>
    refine ⟨?_, ?_, fun q conn' hlive => ?_, fun q conn' hlookup => ?_, hannounced, ?_⟩
    · rw [manager, senders]
      exact hs.keys
    · rw [manager]
      exact hs.bound
    · rw [manager]
      rw [conns, Function.update_apply] at hlive
      split_ifs at hlive
      · cases hlive
      · exact hs.live q conn' hlive
    · rw [senders] at hlookup
      have hlive := hs.sender q conn' hlookup
      have hne : conn' ≠ conn := by
        rintro rfl
        cases fresh.symm.trans hlive
      rwa [conns, Function.update_of_ne hne]
    · rw [events]
      exact hs.matched
  | accepted conn p info fresh room manager senders conns events notice =>
    refine ⟨fun q => ?_, ?_, fun q conn' hlive => ?_, fun q conn' hlookup => ?_, hannounced, ?_⟩
    · rw [manager, senders, AList.mem_insert, AList.mem_insert, hs.keys]
    · rw [manager, AList.keys_insert, List.length_cons]
      show _ ≤ s.node.peerManager.maxPeers
      have hbound := hs.bound
      by_cases hp : p ∈ s.node.peerManager.peers
      · have := List.length_erase_of_mem (AList.mem_keys.mp hp)
        have := List.length_pos_of_mem (AList.mem_keys.mp hp)
        omega
      · have hroom := room.resolve_left hp
        rw [List.erase_of_not_mem (mt AList.mem_keys.mpr hp)]
        omega
    · rw [manager, AList.mem_insert]
      rw [conns, Function.update_apply] at hlive
      split_ifs at hlive
      · cases hlive
        exact .inl rfl
      · exact .inr (hs.live q conn' hlive)
    · rw [senders] at hlookup
      by_cases hq : q = p
      · subst hq
        rw [AList.lookup_insert] at hlookup
        cases hlookup
        rw [conns, Function.update_self]
      · rw [AList.lookup_insert_ne hq] at hlookup
        have hlive := hs.sender q conn' hlookup
        have hne : conn' ≠ conn := by
          rintro rfl
          cases fresh.symm.trans hlive
        rwa [conns, Function.update_of_ne hne]
    · rw [events, matched_concat]
      exact ⟨hs.matched, by simp⟩
  | message es keys max senders conns events quiet notice =>
    have hmem : ∀ q, q ∈ s'.node.peerManager.peers ↔ q ∈ s.node.peerManager.peers := by
      intro q
      rw [AList.mem_keys, AList.mem_keys, keys]
    refine ⟨fun q => ?_, ?_, fun q conn' hlive => ?_, fun q conn' hlookup => ?_, hannounced, ?_⟩
    · rw [hmem, senders, hs.keys]
    · rw [keys, max]
      exact hs.bound
    · rw [hmem]
      rw [conns] at hlive
      exact hs.live q conn' hlive
    · rw [senders] at hlookup
      rw [conns]
      exact hs.sender q conn' hlookup
    · rw [events]
      exact matched_append quiet hs.matched
  | ended conn p accepted live manager senders conns events notice =>
    obtain ⟨p', hlive', hsole⟩ := hx conn notice
    obtain ⟨rfl, rfl⟩ : p = p' ∧ accepted = true := by
      cases live.symm.trans hlive'
      exact ⟨rfl, rfl⟩
    refine ⟨fun q => ?_, ?_, fun q conn' hlive => ?_, fun q conn' hlookup => ?_, hannounced, ?_⟩
    · rw [manager, senders, AList.mem_erase, AList.mem_erase, hs.keys]
    · rw [manager, AList.keys_erase]
      exact List.length_erase_le.trans hs.bound
    · rw [manager, AList.mem_erase]
      rw [conns, Function.update_apply] at hlive
      split_ifs at hlive with hconn
      refine ⟨?_, hs.live q conn' hlive⟩
      rintro rfl
      exact hconn (hsole conn' hlive)
    · rw [senders] at hlookup
      by_cases hq : q = p
      · subst hq
        rw [AList.lookup_erase] at hlookup
        cases hlookup
      · rw [AList.lookup_erase_ne hq] at hlookup
        have hlive := hs.sender q conn' hlookup
        have hne : conn' ≠ conn := by
          rintro rfl
          cases hlive.symm.trans live
          exact hq rfl
        rwa [conns, Function.update_of_ne hne]
    · rw [events, matched_concat]
      refine ⟨hs.matched, ?_⟩
      rintro q hq
      cases hq
      exact (hs.announced p).mpr (hs.live p conn live)

/-- A connection that ends without being the sole one of its peer leaves the table wrong, or takes back
an announcement that was never made. -/
theorem soleEnds_of_tracks (ha : s.TableAnnounced) (hs : s.Tracks) (h : s.step x = some s') (hs' : s'.Tracks) :
    s.SoleEnds x := by
  intro conn hx
  cases effect_of_step h with
  | refused conn' p fresh full manager senders conns events notice => exact absurd hx (notice conn)
  | accepted conn' p info fresh room manager senders conns events notice => exact absurd hx (notice conn)
  | message es keys max senders conns events quiet notice => exact absurd hx (notice conn)
  | ended conn' p accepted live manager senders conns events notice =>
    obtain rfl : conn = conn' := by
      cases hx.symm.trans notice
      rfl
    have hgone : ∀ conn', s'.conns conn' ≠ .live p true := by
      intro conn' hlive
      have := (hs'.live p).mpr ⟨conn', hlive⟩
      rw [manager, AList.mem_erase] at this
      exact this.1 rfl
    have hsole : ∀ conn', s.conns conn' = .live p true → conn' = conn := by
      intro conn' hlive
      by_contra hne
      exact hgone conn' (by rwa [conns, Function.update_of_ne hne])
    have hannounced : Announced p s.events := hs'.events s.events p [] events
    obtain ⟨conn', hlive⟩ := (hs.live p).mp ((ha p).mp hannounced)
    obtain rfl := hsole conn' hlive
    exact ⟨p, hlive, hsole⟩

/-- The table tracks the live connections throughout a run exactly if every connection that ends in it
was accepted and is then the only accepted one of its peer. -/
theorem peer_table_tracks_iff (maxPeers : ℕ) (notices : List (DispatchEnv × Notice))
    (h : (Run.exec step (init maxPeers) notices).isSome) :
    Run.Throughout step Tracks (init maxPeers) notices ↔ Run.Along step SoleEnds (init maxPeers) notices :=
  Run.throughout_iff_along h (inv_init maxPeers) (fun _ _ _ hs hx hstep => inv_step hs hx hstep)
    (fun _ hs => hs.tracks) (inv_init maxPeers).announced (fun _ _ _ hs hstep => tableAnnounced_step hs hstep)
    (fun _ _ _ ha hs hstep hs' => soleEnds_of_tracks ha hs hstep hs')

/-- No payload is decoded, so nothing is hashed. -/
def quietEnv : DispatchEnv where
  now := 0
  keccak256 _ := FixedBytes.zero
  sha256 _ := FixedBytes.zero
  json := ⟨fun _ => .error "", fun _ => .error "", fun _ => .error "", fun _ => .error "", fun _ => .error ""⟩
  senders := .stored

def connectNotice (conn : ℕ) (peerId : UInt64) : DispatchEnv × Notice :=
  (quietEnv, .connect conn peerId ([127, 0, 0, 1], 30303) 0 FixedBytes.zero)

/-- A peer connects, sends a ping, disconnects and comes back. -/
theorem peer_table_tracks_iff_reconnect :
    Run.Throughout step Tracks (init 50)
      [connectNotice 0 7, (quietEnv, .message 0 (.ping 1)), (quietEnv, .disconnect 0), connectNotice 1 7] := by
  refine (peer_table_tracks_iff 50 _ rfl).mpr ?_
  refine .cons nofun rfl (.cons nofun rfl (.cons ?_ rfl (.cons nofun rfl Run.along_nil)))
  rintro conn ⟨⟩
  refine ⟨7, rfl, fun conn' hlive => ?_⟩
  by_contra hne
  have hfresh : Function.update (fun _ => ConnState.fresh) 0 (.live 7 true) conn' = .fresh :=
    Function.update_of_ne hne ..
  cases hfresh.symm.trans hlive

/-- A peer connects a second time before its first connection ends: its entry goes with the first. -/
theorem peer_table_loses_second_connection :
    ∃ s, Run.exec step (init 50) [connectNotice 0 7, connectNotice 1 7, (quietEnv, .disconnect 0)] = some s ∧
      s.conns 1 = .live 7 true ∧ 7 ∉ s.node.peerManager.peers ∧ ¬ s.Tracks := by
  refine ⟨_, rfl, rfl, by decide, fun h => ?_⟩
  have : 7 ∈ (_ : HashMap UInt64 PeerInfo) := (h.live 7).mpr ⟨1, rfl⟩
  exact absurd this (by decide)

end Peers

end P2p

end Eth2077
