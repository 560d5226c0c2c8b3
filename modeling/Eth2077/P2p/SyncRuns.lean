import Eth2077.P2p.Node
import Eth2077.Types.HeaderCodec
import Eth2077.Lib.Runs

/-!
# Runs of the sync engine

The engine asks for the blocks after its height, and takes the highest block of any batch for its new
height. Nothing is left out exactly as long as every batch that goes beyond the height has all the
blocks in between.
-/

namespace Eth2077

namespace P2p

namespace SyncEngine

inductive Call where
  | startSync (targetHeight : UInt64)
  | onBlocksReceived (blocks : List Block)

def call (e : SyncEngine) : Call → SyncEngine
  | .startSync targetHeight => e.startSync targetHeight
  | .onBlocksReceived blocks => e.onBlocksReceived blocks

/-- What a call brings in. -/
def Call.numbers : Call → List UInt64
  | .startSync _ => []
  | .onBlocksReceived blocks => blocks.map Block.number

theorem max_cases (a b : UInt64) : a ≤ max a b ∧ b ≤ max a b ∧ (max a b = a ∨ max a b = b) := by
  have hmax : max a b = if a ≤ b then b else a := rfl
  rw [hmax]
  split_ifs with h
  · exact ⟨h, UInt64.le_refl b, .inr rfl⟩
  · exact ⟨UInt64.le_refl a, UInt64.le_of_lt (UInt64.not_le.mp h), .inl rfl⟩

theorem foldl_max (n : UInt64) (ns : List UInt64) :
    ns.foldl max n ∈ n :: ns ∧ ∀ m ∈ n :: ns, m ≤ ns.foldl max n := by
  induction ns generalizing n with
  | nil => simp
  | cons n' ns ih =>
    obtain ⟨hmem, hle⟩ := ih (max n n')
    obtain ⟨hn, hn', hmax⟩ := max_cases n n'
    have hbest := hle _ (List.mem_cons_self ..)
    constructor
    · rcases List.mem_cons.mp hmem with heq | hmem
      · rw [List.foldl_cons, heq]
        rcases hmax with hmax | hmax
        · simp [hmax]
        · simp [hmax]
      · exact List.mem_cons_of_mem _ (List.mem_cons_of_mem _ hmem)
    · intro m hm
      rcases List.mem_cons.mp hm with rfl | hm
      · exact UInt64.le_trans hn hbest
      · rcases List.mem_cons.mp hm with rfl | hm
        · exact UInt64.le_trans hn' hbest
        · exact hle m (List.mem_cons_of_mem _ hm)

/-- What a call does to the height and to the state: the height becomes the highest number there is. -/
theorem call_spec (e : SyncEngine) (c : Call)
    (h : ∀ target current, e.state = .syncing target current → current = e.localHeight ∧ current < target) :
    e.localHeight ≤ (e.call c).localHeight ∧ (∀ n ∈ c.numbers, n ≤ (e.call c).localHeight) ∧
      ((e.call c).localHeight = e.localHeight ∨ (e.call c).localHeight ∈ c.numbers) ∧
      ∀ target current, (e.call c).state = .syncing target current →
        current = (e.call c).localHeight ∧ current < target := by
  cases c with
  | startSync targetHeight =>
    simp only [call, startSync, Call.numbers]
    split_ifs with hle
    · exact ⟨UInt64.le_refl _, by simp, .inl rfl, nofun⟩
    · refine ⟨UInt64.le_refl _, by simp, .inl rfl, ?_⟩
      rintro target current ⟨⟩
      exact ⟨rfl, UInt64.not_le.mp hle⟩
  | onBlocksReceived blocks =>
    simp only [call, onBlocksReceived, Call.numbers]
    split
    · rename_i hnil
      rw [hnil]
      exact ⟨UInt64.le_refl _, by simp, .inl rfl, h⟩
    · rename_i n ns hcons
      obtain ⟨hmem, hbest⟩ := foldl_max n ns
      obtain ⟨hlocal, hfold, hmax⟩ := max_cases e.localHeight (ns.foldl max n)
      have hnumbers : ∀ m ∈ n :: ns, m ≤ max e.localHeight (ns.foldl max n) := fun m hm =>
        UInt64.le_trans (hbest m hm) hfold
      have hor : max e.localHeight (ns.foldl max n) = e.localHeight ∨
          max e.localHeight (ns.foldl max n) ∈ n :: ns := by
        rcases hmax with heq | heq
        · exact .inl heq
        · exact .inr (by rw [heq]; exact hmem)
      rw [hcons]
      split
      · split_ifs with hle
        · exact ⟨hlocal, hnumbers, hor, nofun⟩
        · refine ⟨hlocal, hnumbers, hor, ?_⟩
          rintro target current ⟨⟩
          exact ⟨rfl, UInt64.not_le.mp hle⟩
      · rename_i hstate
        refine ⟨hlocal, hnumbers, hor, ?_⟩
        intro target current hsyncing
        exact absurd hsyncing (hstate target current)

/-- The engine, and the numbers of all blocks it has been given. -/
structure Tracked where
  engine : SyncEngine
  received : List UInt64

def Tracked.start (localHeight : UInt64) : Tracked := ⟨.new localHeight, []⟩

def Tracked.step (r : Tracked) (c : Call) : Option Tracked := some ⟨r.engine.call c, r.received ++ c.numbers⟩

variable {initial : UInt64} {r : Tracked}

/-- Every height the engine has got over has been given to it. -/
def NoneSkipped (initial : UInt64) (r : Tracked) : Prop :=
  ∀ h, initial < h → h ≤ r.engine.localHeight → h ∈ r.received

/-- A sync that goes on is on its way from the local height to its target. -/
def OnItsWay (r : Tracked) : Prop :=
  ∀ target current, r.engine.state = .syncing target current → current = r.engine.localHeight ∧ current < target

/-- A batch that goes beyond the local height has all the heights in between. -/
def FillsIn (r : Tracked) (c : Call) : Prop :=
  ∀ n ∈ c.numbers, ∀ h, r.engine.localHeight < h → h ≤ n → h ∈ c.numbers

/-- The local height is the highest there has been. -/
structure Inv (initial : UInt64) (r : Tracked) : Prop where
  initial_le : initial ≤ r.engine.localHeight
  received_le : ∀ n ∈ r.received, n ≤ r.engine.localHeight
  onItsWay : OnItsWay r

theorem inv_start (initial : UInt64) : Inv initial (Tracked.start initial) :=
  ⟨UInt64.le_refl _, by simp [Tracked.start], nofun⟩

theorem inv_step (h : Inv initial r) (c : Call) : Inv initial ⟨r.engine.call c, r.received ++ c.numbers⟩ := by
  obtain ⟨hle, hnumbers, -, hsyncing⟩ := call_spec r.engine c h.onItsWay
  refine ⟨UInt64.le_trans h.initial_le hle, ?_, hsyncing⟩
  intro n hn
  rcases List.mem_append.mp hn with hn | hn
  · exact UInt64.le_trans (h.received_le n hn) hle
  · exact hnumbers n hn

theorem noneSkipped_step (h : Inv initial r) (hr : NoneSkipped initial r) {c : Call} (hc : FillsIn r c) :
    NoneSkipped initial ⟨r.engine.call c, r.received ++ c.numbers⟩ := by
  obtain ⟨-, -, hheight, -⟩ := call_spec r.engine c h.onItsWay
  intro n hn hle
  rcases UInt64.lt_or_le r.engine.localHeight n with hlt | hold
  · rcases hheight with hsame | hmem
    · rw [show (Tracked.mk (r.engine.call c) (r.received ++ c.numbers)).engine.localHeight = r.engine.localHeight
        from hsame] at hle
      exact absurd hlt (UInt64.not_lt.mpr hle)
    · exact List.mem_append_right _ (hc _ hmem n hlt hle)
  · exact List.mem_append_left _ (hr n hn hold)

/-- Heights above the local height have not been received before, so the batch itself must have them. -/
theorem fillsIn_of_noneSkipped (h : Inv initial r) {c : Call}
    (hr : NoneSkipped initial ⟨r.engine.call c, r.received ++ c.numbers⟩) : FillsIn r c := by
  obtain ⟨-, hnumbers, -, -⟩ := call_spec r.engine c h.onItsWay
  intro n hn m hlt hle
  have hmem := hr m (UInt64.lt_of_le_of_lt h.initial_le hlt) (UInt64.le_trans hle (hnumbers n hn))
  rcases List.mem_append.mp hmem with hmem | hmem
  · exact absurd hlt (UInt64.not_lt.mpr (h.received_le m hmem))
  · exact hmem

/-- In any run of the engine no height is skipped, and a sync is where it says it is, exactly if every batch
fills in what lies between the local height and its blocks. -/
theorem sync_skips_none_iff (initial : UInt64) (calls : List Call) :
    Run.Throughout Tracked.step (fun r => NoneSkipped initial r ∧ OnItsWay r) (Tracked.start initial) calls ↔
      Run.Along Tracked.step FillsIn (Tracked.start initial) calls := by
  have htotal : (Run.exec Tracked.step (Tracked.start initial) calls).isSome := by
    generalize Tracked.start initial = r
    induction calls generalizing r with
    | nil => rfl
    | cons c calls ih => exact ih _
  have hstart : NoneSkipped initial (Tracked.start initial) := fun h hlt hle => absurd hlt (UInt64.not_lt.mpr hle)
  refine Run.throughout_iff_along (I := fun r => Inv initial r ∧ NoneSkipped initial r) (A := Inv initial) htotal
    ⟨inv_start initial, hstart⟩ ?_ (fun r hr => ⟨hr.2, hr.1.onItsWay⟩) (inv_start initial) ?_ ?_
  · rintro r c r' ⟨hinv, hr⟩ hc hstep
    obtain rfl := Option.some_inj.mp hstep
    exact ⟨inv_step hinv c, noneSkipped_step hinv hr hc⟩
  · rintro r c r' hinv hstep
    obtain rfl := Option.some_inj.mp hstep
    exact inv_step hinv c
  · rintro r c r' hinv - hstep ⟨hr', -⟩
    obtain rfl := Option.some_inj.mp hstep
    exact fillsIn_of_noneSkipped hinv hr'

def blockOfNumber (number : UInt64) : Block := ⟨{ Header.genesis with number := number }, [], []⟩

/-- One block at the target ends the sync, without the blocks before it. -/
theorem sync_skips_heights :
    ∃ r, Run.exec Tracked.step (Tracked.start 0) [.startSync 5, .onBlocksReceived [blockOfNumber 5]] = some r ∧
      r.engine.state = .synced ∧ r.engine.localHeight = 5 ∧ ¬ NoneSkipped 0 r := by
  refine ⟨_, rfl, rfl, rfl, fun h => ?_⟩
  exact absurd (h 1 (by decide) (by decide)) (by decide)

/-! ### The engine in the dispatch loop -/

section Dispatch
variable (env : DispatchEnv) (node : P2pNode)

theorem syncWith_call (e : SyncEngine) (bestHeight : UInt64) :
    (P2pNode.syncWith e bestHeight).1 = e ∨ (P2pNode.syncWith e bestHeight).1 = e.call (.startSync bestHeight) := by
  unfold P2pNode.syncWith
  split_ifs
  · dsimp only
    split
    · exact .inr rfl
    · exact .inr rfl
    · split_ifs
      · exact .inr rfl
      · exact .inl rfl
  · exact .inl rfl

/-- A notice starts a sync, hands over a batch or leaves the engine alone. -/
theorem dispatch_call (inbound : NodeInbound) :
    (node.dispatch env inbound).1.syncEngine = node.syncEngine ∨
      ∃ c, (node.dispatch env inbound).1.syncEngine = node.syncEngine.call c := by
  cases inbound with
  | peerConnected peerId addr bestHeight bestHash sender =>
    simp only [P2pNode.dispatch, P2pNode.onPeerConnected]
    split
    · exact .inl rfl
    · exact (syncWith_call node.syncEngine bestHeight).imp_right fun heq => ⟨_, heq⟩
  | peerDisconnected peerId => exact .inl rfl
  | message fromPeer message =>
    cases message with
    | newBlock height blockData =>
      simp only [P2pNode.dispatch, P2pNode.onMessage, P2pNode.onNewBlock]
      split
      · exact .inl rfl
      · exact .inl rfl
    | newTransaction txData =>
      simp only [P2pNode.dispatch, P2pNode.onMessage, P2pNode.onNewTransaction]
      split
      · exact .inl rfl
      · exact .inl rfl
    | blocks blocks => exact .inr ⟨.onBlocksReceived _, rfl⟩
    | consensusMsg | hello | getBlocks | ping | pong => exact .inl rfl

/-- Whatever the loop is given, the engine in it goes through a run of its own. -/
theorem dispatch_calls (inputs : List (DispatchEnv × NodeInbound)) :
    ∃ calls : List Call, (inputs.foldl (fun node x => (node.dispatch x.1 x.2).1) node).syncEngine =
      calls.foldl call node.syncEngine := by
  induction inputs generalizing node with
  | nil => exact ⟨[], rfl⟩
  | cons x inputs ih =>
    obtain ⟨calls, hcalls⟩ := ih (node.dispatch x.1 x.2).1
    rcases dispatch_call x.1 node x.2 with heq | ⟨c, heq⟩
    · exact ⟨calls, by rw [List.foldl_cons, hcalls, heq]⟩
    · exact ⟨c :: calls, by rw [List.foldl_cons, hcalls, heq, List.foldl_cons]⟩

end Dispatch

end SyncEngine

end P2p

end Eth2077
