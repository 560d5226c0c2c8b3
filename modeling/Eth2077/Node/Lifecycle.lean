import Eth2077.Node.DaemonRuns
import Eth2077.Node.Sealing

/-!
# The life of a transaction (`node/src/bin/eth2077-devnetd.rs`, `handle_jsonrpc` and `main`)

A request that records a transaction puts it among the pending ones; the next tick mines it; and from then on its
block, its record and its receipt are what they are, whatever requests and ticks follow, as long as none records its
hash again (`mined_for_good`).
-/

namespace Eth2077

open Sealing

namespace Daemon

open Rpc

def Event.isTick : Event → Bool
  | .tick _ => true
  | _ => false

/-- The event does not record the transaction again. -/
def NotAgain (R : Revm) (hash : String) (node : DaemonState R.Db) (e : Event) : Prop := e.recorded R node ≠ some hash

/-! ### Between two ticks -/

/-- Nothing has happened to the transaction, and no block has been mined. -/
structure SameFor (hash : String) (l l' : Ledger) : Prop where
  height : l'.currentHeight = l.currentHeight
  blocks : l'.blockTxs = l.blockTxs
  pending : hash ∈ l'.pendingTxs ↔ hash ∈ l.pendingTxs
  tx : l'.txs.lookup hash = l.txs.lookup hash
  receipt : l'.txReceipts.lookup hash = l.txReceipts.lookup hash

theorem SameFor.refl (hash : String) (l : Ledger) : SameFor hash l l := ⟨rfl, rfl, .rfl, rfl, rfl⟩

theorem SameFor.trans {hash : String} {l l' l'' : Ledger} (h : SameFor hash l l') (h' : SameFor hash l' l'') :
    SameFor hash l l'' where
  height := h'.height.trans h.height
  blocks := h'.blocks.trans h.blocks
  pending := h'.pending.trans h.pending
  tx := h'.tx.trans h.tx
  receipt := h'.receipt.trans h.receipt

section Runs
variable {R : Revm} {node node' : DaemonState R.Db} {e : Event} {hash : String} {run : List Event}

theorem sameFor_step (h : step R node e = some node') (hnew : NotAgain R hash node e) (htick : e.isTick = false) :
    SameFor hash (ledger node) (ledger node') := by
  rcases step_cases h with ⟨now, rfl, -⟩ | ⟨-, hsame⟩ | ⟨other, tx, receipts, hrecorded, hreceipts, hledger⟩ |
    ⟨receipts, hledger⟩ | ⟨env, req, header, -, hledger⟩
  · cases htick
  · rw [hsame]
    exact .refl hash _
  · have hne : hash ≠ other := by
      rintro rfl
      exact hnew hrecorded
    rw [hledger]
    refine ⟨rfl, rfl, ?_, AList.lookup_insert_ne hne, ?_⟩
    · show hash ∈ node.pendingTxs ++ [other] ↔ hash ∈ node.pendingTxs
      simp [hne]
    · rcases hreceipts with rfl | ⟨receipt, rfl⟩
      · rfl
      · exact AList.lookup_insert_ne hne
  · rw [hledger]
    exact ⟨rfl, rfl, .rfl, rfl, rfl⟩
  · rw [hledger]
    exact ⟨rfl, rfl, .rfl, rfl, rfl⟩

theorem sameFor_run (hrun : Run.exec (step R) node run = some node') (hticks : ∀ e ∈ run, e.isTick = false)
    (hnew : Run.Along (step R) (NotAgain R hash) node run) : SameFor hash (ledger node) (ledger node') := by
  refine Run.invariant_along (C := fun m e => NotAgain R hash m e ∧ e.isTick = false)
    (I := fun m => SameFor hash (ledger node) (ledger m)) (.refl hash _) ?_ ?_ hrun
  · rintro m e m' hm ⟨hnew, htick⟩ hstep
    exact hm.trans (sameFor_step hstep hnew htick)
  · rintro pre e post rfl m hm
    exact ⟨hnew pre e post rfl m hm, hticks e (by simp)⟩

/-! ### After the block -/

/-- The blocks up to `height` are as they were, and so is a transaction that does not wait. -/
structure Settled (hash : String) (height : UInt64) (l l' : Ledger) : Prop where
  height_le : height ≤ l'.currentHeight
  blocks : ∀ b ≤ height, b.toNat < UInt64.maxNat → l'.blockTxs.lookup b = l.blockTxs.lookup b
  pending : hash ∉ l'.pendingTxs
  tx : l'.txs.lookup hash = l.txs.lookup hash
  receipt : l'.txReceipts.lookup hash = l.txReceipts.lookup hash

/-- The number after a height is one no block up to it has, unless it is the last number. -/
theorem ne_saturatingAdd_one_of_lt {height b : UInt64} (hb : b ≤ height) (hlast : b.toNat < UInt64.maxNat) :
    b ≠ height.saturatingAdd 1 := by
  rintro rfl
  have hle := UInt64.le_iff_toNat_le.mp hb
  rw [UInt64.toNat_saturatingAdd, UInt64.toNat_one] at hle hlast
  omega

theorem le_saturatingAdd (height d : UInt64) : height ≤ height.saturatingAdd d := by
  rw [UInt64.le_iff_toNat_le, UInt64.toNat_saturatingAdd]
  have := UInt64.toNat_le_maxNat height
  omega

theorem Settled.step {height : UInt64} {l : Ledger} (hs : Settled hash height l (ledger node))
    (hnew : NotAgain R hash node e) (h : step R node e = some node') : Settled hash height l (ledger node') := by
  cases htick : e.isTick with
  | false =>
    have hsame := sameFor_step h hnew htick
    refine ⟨by rw [hsame.height]; exact hs.height_le, fun b hb hlast => ?_, fun hmem => ?_, ?_, ?_⟩
    · rw [hsame.blocks]
      exact hs.blocks b hb hlast
    · exact hs.pending (hsame.pending.mp hmem)
    · exact hsame.tx.trans hs.tx
    · exact hsame.receipt.trans hs.receipt
  | true =>
    cases e with
    | rpc env req => cases htick
    | engine env route req => cases htick
    | tick now =>
      obtain rfl : { node with toNodeState := blockTick node.toNodeState now } = node' := Option.some_inj.mp h
      obtain ⟨htx, hreceipt⟩ := Inclusion.foldl_of_notMem (node.currentHeight.saturatingAdd 1)
        ⟨node.txs, node.txReceipts, 0, 0⟩ hs.pending
      refine ⟨UInt64.le_trans hs.height_le (le_saturatingAdd _ 1), fun b hb hlast => ?_, List.not_mem_nil, ?_, ?_⟩
      · have hne := ne_saturatingAdd_one_of_lt (UInt64.le_trans hb hs.height_le) hlast
        exact (lookup_blockTxs_blockTick_of_ne now hne).trans (hs.blocks b hb hlast)
      · exact htx.trans hs.tx
      · exact hreceipt.trans hs.receipt

/-- What is mined stays as it is. -/
theorem settled_run (hpending : hash ∉ node.pendingTxs) (hrun : Run.exec (step R) node run = some node')
    (hnew : Run.Along (step R) (NotAgain R hash) node run) :
    Settled hash node.currentHeight (ledger node) (ledger node') :=
  Run.invariant_along (I := fun m => Settled hash node.currentHeight (ledger node) (ledger m))
    ⟨UInt64.le_refl _, fun _ _ _ => rfl, hpending, rfl, rfl⟩ (fun _ _ _ hs hnew h => hs.step hnew h) hnew hrun

/-! ### The tick -/

/-- The transaction is at place `i` of the block in the stores `acc'`, and is otherwise what it was in `acc`. -/
structure PlacedFrom (hash : String) (block : UInt64) (i : ℕ) (acc acc' : Sealing) : Prop where
  tx : acc'.txs.lookup hash = (acc.txs.lookup hash).map (Place.tx ⟨block, .ofNat i⟩)
  receipt : ∀ receipt, acc.txReceipts.lookup hash = some receipt → ∃ cumulativeGasUsed nextLogIndex logs,
    logs.map logContent = receipt.logs.map logContent ∧ acc'.txReceipts.lookup hash = some
      (Place.receipt ⟨block, .ofNat i⟩ hash cumulativeGasUsed nextLogIndex { receipt with logs := logs })

theorem placedFrom_place (block : UInt64) (acc : Sealing) (i : ℕ) :
    PlacedFrom hash block i acc (place block acc (hash, i)) where
  tx := place_txs block acc hash i
  receipt receipt hreceipt := by
    refine ⟨acc.cumulativeGasUsed.saturatingAdd receipt.gasUsed, acc.nextLogIndex, receipt.logs, rfl, ?_⟩
    rw [place_receipts, hreceipt, Option.map_some]

/-- A place that is given later takes the place of an earlier one. -/
theorem PlacedFrom.trans {block : UInt64} {i j : ℕ} {acc acc' acc'' : Sealing} (h : PlacedFrom hash block i acc acc')
    (h' : PlacedFrom hash block j acc' acc'') : PlacedFrom hash block j acc acc'' where
  tx := by
    rw [h'.tx, h.tx, Option.map_map]
    rfl
  receipt receipt hreceipt := by
    obtain ⟨_, _, _, hlogs, hmid⟩ := h.receipt receipt hreceipt
    obtain ⟨cumulativeGasUsed, nextLogIndex, logs, hlogs', hlast⟩ := h'.receipt _ hmid
    exact ⟨cumulativeGasUsed, nextLogIndex, logs, (hlogs'.trans (map_logContent_logs ..)).trans hlogs, hlast⟩

/-- The loop of the tick gives a transaction its last place among the pending ones. -/
theorem placedFrom_foldl (block : UInt64) (acc : Sealing) {pending : List String} (h : hash ∈ pending) :
    ∃ i, pending[i]? = some hash ∧ PlacedFrom hash block i acc (pending.zipIdx.foldl (place block) acc) := by
  induction pending using List.reverseRecOn with
  | nil => cases h
  | append_singleton pending last ih =>
    rw [Inclusion.foldl_concat]
    by_cases hlast : hash = last
    · subst hlast
      refine ⟨pending.length, by simp, ?_⟩
      have hplaced : PlacedFrom hash block pending.length (pending.zipIdx.foldl (place block) acc) _ :=
        placedFrom_place block _ pending.length
      by_cases hmem : hash ∈ pending
      · obtain ⟨i, -, hearlier⟩ := ih hmem
        exact hearlier.trans hplaced
      · obtain ⟨htx, hreceipt⟩ := Inclusion.foldl_of_notMem block acc hmem
        exact ⟨by rw [hplaced.tx, htx], fun receipt hr => hplaced.receipt receipt (hreceipt.trans hr)⟩
    · have hmem : hash ∈ pending := by
        rcases List.mem_append.mp h with hmem | hmem
        · exact hmem
        · exact absurd (List.mem_singleton.mp hmem) hlast
      obtain ⟨i, hi, hplaced⟩ := ih hmem
      obtain ⟨htx, hreceipt⟩ := Inclusion.place_of_ne block (pending.zipIdx.foldl (place block) acc)
        (last, pending.length) hlast
      refine ⟨i, by rw [List.getElem?_append_left (List.getElem?_eq_some_iff.mp hi).1, hi], ?_⟩
      exact ⟨htx.trans hplaced.tx, fun receipt hr => by rw [hreceipt]; exact hplaced.receipt receipt hr⟩

/-- From a tick on, the block lists what waited before it, and a transaction of the block stays as the tick left it. -/
theorem settled_after_tick {now : UInt64} (hpending : hash ∈ node.pendingTxs)
    (hlast : (node.currentHeight.saturatingAdd 1).toNat < UInt64.maxNat)
    (hrun : Run.exec (step R) node (.tick now :: run) = some node')
    (hnew : Run.Along (step R) (NotAgain R hash) node (.tick now :: run)) :
    hash ∉ node'.pendingTxs ∧ node'.txs.lookup hash = (sealing node.toNodeState).txs.lookup hash ∧
      node'.txReceipts.lookup hash = (sealing node.toNodeState).txReceipts.lookup hash ∧
      blockTxHashes node'.toNodeState (node.currentHeight.saturatingAdd 1) = node.pendingTxs := by
  let mined : DaemonState R.Db := { node with toNodeState := blockTick node.toNodeState now }
  have hticked : Run.Along (step R) (NotAgain R hash) node ([.tick now] ++ run) := hnew
  have hmined : Run.Along (step R) (NotAgain R hash) mined run := hticked.after rfl
  have hsettled : Settled hash mined.currentHeight (ledger mined) (ledger node') :=
    settled_run List.not_mem_nil hrun hmined
  have hblock : blockTxHashes mined.toNodeState (node.currentHeight.saturatingAdd 1) = node.pendingTxs :=
    blockTxHashes_blockTick now fun hempty => by
      rw [hempty] at hpending
      cases hpending
  refine ⟨hsettled.pending, hsettled.tx, hsettled.receipt, ?_⟩
  rw [← hblock]
  exact congrArg (Option.getD · []) (hsettled.blocks _ (UInt64.le_refl _) hlast)

/-! ### A request that records a transaction -/

/-- What is recorded waits, with its record. -/
theorem pending_of_recorded (hstep : step R node e = some node') (haccept : e.recorded R node = some hash) :
    hash ∈ node'.pendingTxs ∧ (∃ tx, node'.txs.lookup hash = some tx) ∧ node'.currentHeight = node.currentHeight := by
  have hmethod : ∀ env req method, e.method = some (env, req, method) →
      recordedHash R env node (requestParams req) method = some hash := by
    intro env req method hmethod
    rw [Event.recorded, hmethod] at haccept
    exact haccept
  rcases step_method hstep with ⟨now, rfl, -⟩ | ⟨hnone, -⟩ | ⟨env, req, method, response, hm, hrespond⟩
  · cases haccept
  · rw [Event.recorded, hnone] at haccept
    cases haccept
  · have hrecorded := hmethod env req method hm
    rcases respond_cases hrespond with ⟨hnone, -⟩ | ⟨other, tx, receipts, hother, -, hledger⟩ | ⟨rfl, -⟩ | ⟨rfl, -⟩
    · cases hnone.symm.trans hrecorded
    · obtain rfl := Option.some_inj.mp (hother.symm.trans hrecorded)
      refine ⟨?_, ⟨tx, ?_⟩, congrArg Ledger.currentHeight hledger⟩
      · rw [show node'.pendingTxs = node.pendingTxs ++ [other] from congrArg Ledger.pendingTxs hledger]
        simp
      · rw [show node'.txs = AList.insert other tx node.txs from congrArg Ledger.txs hledger]
        exact AList.lookup_insert _
    · cases hrecorded
    · cases hrecorded

end Runs

/-- A transaction that a request records is mined by the next tick, in the block after the height at the time of the
request; and from that tick on the block, the record and the receipt stay the same and the transaction does not wait
again, whatever requests and ticks follow, as long as none records its hash again. -/
theorem mined_for_good (R : Revm) (node₀ node₁ node₂ node₃ : DaemonState R.Db) (e : Event) (quiet run : List Event)
    (now : UInt64) (hash : String) (haccept : e.recorded R node₀ = some hash) (hstep : step R node₀ e = some node₁)
    (hquiet : Run.exec (step R) node₁ quiet = some node₂) (hticks : ∀ e ∈ quiet, e.isTick = false)
    (hrun : Run.exec (step R) node₂ (.tick now :: run) = some node₃)
    (honce : Run.Along (step R) (NotAgain R hash) node₁ (quiet ++ .tick now :: run))
    (hheight : node₀.currentHeight.toNat + 1 < UInt64.maxNat) :
    (∃ tx i, node₁.txs.lookup hash = some tx ∧
      (blockTxHashes node₃.toNodeState (node₀.currentHeight.saturatingAdd 1))[i]? = some hash ∧
      node₃.txs.lookup hash = some (Place.tx ⟨node₀.currentHeight.saturatingAdd 1, .ofNat i⟩ tx) ∧
      ∀ receipt, node₁.txReceipts.lookup hash = some receipt → ∃ cumulativeGasUsed nextLogIndex logs,
        logs.map logContent = receipt.logs.map logContent ∧
        node₃.txReceipts.lookup hash = some (Place.receipt ⟨node₀.currentHeight.saturatingAdd 1, .ofNat i⟩ hash
          cumulativeGasUsed nextLogIndex { receipt with logs := logs })) ∧
    ∀ pre post m, run = pre ++ post → Run.exec (step R) node₂ (.tick now :: pre) = some m →
      hash ∉ m.pendingTxs ∧ m.txs.lookup hash = node₃.txs.lookup hash ∧
      m.txReceipts.lookup hash = node₃.txReceipts.lookup hash ∧
      blockTxHashes m.toNodeState (node₀.currentHeight.saturatingAdd 1) =
        blockTxHashes node₃.toNodeState (node₀.currentHeight.saturatingAdd 1) := by
  obtain ⟨hpending₁, ⟨tx, htx⟩, hheight₁⟩ := pending_of_recorded hstep haccept
  have hsame := sameFor_run hquiet hticks honce.of_append
  have hpending₂ : hash ∈ node₂.pendingTxs := hsame.pending.mpr hpending₁
  have hheight₂ : node₂.currentHeight = node₀.currentHeight := hsame.height.trans hheight₁
  rw [← hheight₂] at hheight ⊢
  have hlast : (node₂.currentHeight.saturatingAdd 1).toNat < UInt64.maxNat := by
    rw [UInt64.toNat_saturatingAdd, UInt64.toNat_one]
    omega
  have honce₂ : Run.Along (step R) (NotAgain R hash) node₂ (.tick now :: run) := honce.after hquiet
  obtain ⟨-, htx₃, hreceipt₃, hlist₃⟩ := settled_after_tick hpending₂ hlast hrun honce₂
  obtain ⟨i, hi, hplaced⟩ := placedFrom_foldl (node₂.currentHeight.saturatingAdd 1)
    ⟨node₂.txs, node₂.txReceipts, 0, 0⟩ hpending₂
  refine ⟨⟨tx, i, htx, by rw [hlist₃]; exact hi, ?_, fun receipt hreceipt => ?_⟩, ?_⟩
  · have htx₂ : node₂.txs.lookup hash = some tx := hsame.tx.trans htx
    exact htx₃.trans (hplaced.tx.trans (congrArg (Option.map _) htx₂))
  · obtain ⟨cumulativeGasUsed, nextLogIndex, logs, hlogs, hlookup⟩ :=
      hplaced.receipt receipt (hsame.receipt.trans hreceipt)
    exact ⟨cumulativeGasUsed, nextLogIndex, logs, hlogs, hreceipt₃.trans hlookup⟩
  · rintro pre post m rfl hm
    have hsplit : Run.Along (step R) (NotAgain R hash) node₂ ((.tick now :: pre) ++ post) := honce₂
    obtain ⟨hpending, htx', hreceipt', hlist⟩ := settled_after_tick hpending₂ hlast hm hsplit.of_append
    exact ⟨hpending, htx'.trans htx₃.symm, hreceipt'.trans hreceipt₃.symm, hlist.trans hlist₃.symm⟩

/-- A transfer is sent, its sender asks for the nonce before and after the tick, and it is in block 1. -/
theorem mined_for_good_transfer : ∃ node₀ node₃ hash,
    Run.exec (step Inclusion.transfersOnly) (startedNode Inclusion.transfersOnly) [askNonce] = some node₀ ∧
      Run.exec (step Inclusion.transfersOnly) node₀ [sendSomeTx, askNonce, .tick 1772409712, askNonce] = some node₃ ∧
      sendSomeTx.recorded Inclusion.transfersOnly node₀ = some hash ∧
      ∃ i : ℕ, (blockTxHashes node₃.toNodeState (node₀.currentHeight.saturatingAdd 1))[i]? = some hash := by
  have hsent : ∃ node₀ node₁ node₂ node₃ hash,
      Run.exec (step Inclusion.transfersOnly) (startedNode Inclusion.transfersOnly) [askNonce] = some node₀ ∧
      sendSomeTx.recorded Inclusion.transfersOnly node₀ = some hash ∧
      step Inclusion.transfersOnly node₀ sendSomeTx = some node₁ ∧
      Run.exec (step Inclusion.transfersOnly) node₁ [askNonce] = some node₂ ∧
      Run.exec (step Inclusion.transfersOnly) node₂ [.tick 1772409712, askNonce] = some node₃ ∧
      node₀.currentHeight.toNat + 1 < UInt64.maxNat :=
    ⟨_, _, _, _, _, rfl, rfl, rfl, rfl, rfl, by decide⟩
  obtain ⟨node₀, node₁, node₂, node₃, hash, hask, haccept, hstep, hquiet, hrun, hheight⟩ := hsent
  have honce : Run.Along (step Inclusion.transfersOnly) (NotAgain Inclusion.transfersOnly hash) node₁
      ([askNonce] ++ [.tick 1772409712, askNonce]) := by
    rintro pre e post hsplit m -
    have hmem : e ∈ [askNonce, .tick 1772409712, askNonce] := by
      show e ∈ [askNonce] ++ [.tick 1772409712, askNonce]
      rw [hsplit]
      simp
    have hnone : e.recorded Inclusion.transfersOnly m = none := by
      simp only [List.mem_cons, List.not_mem_nil, or_false] at hmem
      rcases hmem with rfl | rfl | rfl <;> rfl
    rw [NotAgain, hnone]
    exact Option.some_ne_none hash |>.symm
  obtain ⟨⟨tx, i, -, hi, -⟩, -⟩ := mined_for_good Inclusion.transfersOnly node₀ node₁ node₂ node₃ sendSomeTx [askNonce]
    [askNonce] 1772409712 hash haccept hstep hquiet (by simp [Event.isTick, askNonce]) hrun honce hheight
  refine ⟨node₀, node₃, hash, hask, ?_, haccept, i, hi⟩
  calc Run.exec (step Inclusion.transfersOnly) node₀ [sendSomeTx, askNonce, .tick 1772409712, askNonce]
    _ = Run.exec (step Inclusion.transfersOnly) node₁ ([askNonce] ++ [.tick 1772409712, askNonce]) := by
      rw [Run.exec, hstep, Option.bind_some]
      rfl
    _ = some node₃ := by rw [Run.exec_append, hquiet, Option.bind_some, hrun]

end Daemon
end Eth2077
