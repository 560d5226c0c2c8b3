import Eth2077.Node.BlockLookup
import Eth2077.Node.DaemonRuns
import Eth2077.Node.Sealing

/-!
# The gas of a block

`eth_getBlockByNumber` counts 21000 gas for each transaction of a block, `eth_getBlockReceipts` gives what each of
them used. A mint has no receipt and a call uses what it uses, so the two agree only where the receipts happen to add
up; `gas_agrees_along` says so for whole runs.
-/

namespace Eth2077

namespace BlockGas

open Sealing

/-! ### What the answers say -/

/-- The two answers about block `n` give the same gas, and so does the last receipt. -/
def GasAgrees {Db : Type} (s : NodeState Db) (n : UInt64) : Prop :=
  ∀ overflowChecks rest rest', ∃ block receipts, ∃ gas : List ℕ,
    ethGetBlockByNumber s overflowChecks (.array (.string (hexNat n.toNat) :: rest)) = .ok block ∧
    ethGetBlockReceipts s (.array (.string (hexNat n.toNat) :: rest')) = .array receipts ∧
    receipts.map (·.get "gasUsed") = gas.map (fun g => some (.string (hexNat g))) ∧
    block.get "gasUsed" = some (.string (hexNat gas.sum)) ∧
    ∀ last ∈ receipts.getLast?, last.get "cumulativeGasUsed" = some (.string (hexNat gas.sum))

/-- The receipts of the block are placed and use 21000 gas for each transaction. -/
structure Counted (txReceipts : HashMap String TxReceiptRecord) (hashes : List String) : Prop where
  placed : ∀ receipt ∈ receiptsOf txReceipts hashes, receipt.blockNumber.isSome ∧ receipt.blockHash.isSome
  gas : gasOf (receiptsOf txReceipts hashes) = hashes.length * 21000
  fits : hashes.length * 21000 < 2 ^ 64
  last : ∀ receipt ∈ (receiptsOf txReceipts hashes).getLast?,
    receipt.cumulativeGasUsed.toNat = gasOf (receiptsOf txReceipts hashes)

theorem counted_nil (txReceipts : HashMap String TxReceiptRecord) : Counted txReceipts [] :=
  ⟨nofun, rfl, by decide, nofun⟩

theorem Counted.congr {txReceipts txReceipts' : HashMap String TxReceiptRecord} {hashes : List String}
    (h : Counted txReceipts hashes) (hsame : ∀ hash ∈ hashes, txReceipts'.lookup hash = txReceipts.lookup hash) :
    Counted txReceipts' hashes := by
  obtain ⟨hplaced, hgas, hfits, hlast⟩ := h
  rw [← receiptsOf_congr hsame] at hplaced hgas hlast
  exact ⟨hplaced, hgas, hfits, hlast⟩

theorem txReceiptJson_of_placed {receipt : TxReceiptRecord}
    (h : receipt.blockNumber.isSome ∧ receipt.blockHash.isSome) :
    ∃ json, txReceiptJson receipt = some json ∧ json.get "gasUsed" = some (hexU64 receipt.gasUsed) ∧
      json.get "cumulativeGasUsed" = some (hexU64 receipt.cumulativeGasUsed) := by
  obtain ⟨blockNumber, hnumber⟩ := Option.isSome_iff_exists.mp h.1
  obtain ⟨blockHash, hhash⟩ := Option.isSome_iff_exists.mp h.2
  refine ⟨_, by rw [txReceiptJson, hnumber, hhash]; rfl, rfl, rfl⟩

section State
variable {Db : Type} {s : NodeState Db} {n : UInt64}

theorem buildBlockResponse_gasUsed (overflowChecks full : Bool)
    (h : (blockTxHashes s n).length * 21000 < 2 ^ 64) :
    ∃ block, buildBlockResponse s overflowChecks n full = .ok block ∧
      block.get "gasUsed" = some (.string (hexNat ((blockTxHashes s n).length * 21000))) := by
  have hperTx : (blockTxHashes s n).length * 128 < 2 ^ 64 := by omega
  have hsize : 120 + (UInt64.ofNat ((blockTxHashes s n).length * 128)).toNat < 2 ^ 64 := by
    rw [UInt64.toNat_ofNat_of_lt' hperTx]
    omega
  unfold buildBlockResponse
  dsimp only
  rw [checkedOp_of_lt overflowChecks _ h, except_ok_bind, checkedOp_of_lt overflowChecks _ hperTx, except_ok_bind,
    checkedOp_of_lt overflowChecks _ hsize, except_ok_bind]
  refine ⟨_, rfl, ?_⟩
  show some (Json.string (hexNat (UInt64.ofNat ((blockTxHashes s n).length * 21000)).toNat)) = _
  rw [UInt64.toNat_ofNat_of_lt' h]

theorem ethGetBlockReceipts_hexNat (rest : List Json) :
    ethGetBlockReceipts s (.array (.string (hexNat n.toNat) :: rest)) =
      .array ((receiptsOf s.txReceipts (blockTxHashes s n)).filterMap txReceiptJson) := by
  have htag : tagParam (.array (.string (hexNat n.toNat) :: rest)) = hexNat n.toNat := rfl
  have hhash : blockNumberFromHash (hexNat n.toNat) = none := by
    have hshort : (Nat.toDigits 16 n.toNat).length ≤ 16 := Nat.toDigits_length 16 _ 16 (by decide) n.toNat_lt
    rw [blockNumberFromHash, strip0x_hexNat]
    exact if_pos (.inl (by omega))
  simp only [ethGetBlockReceipts, htag, hhash, Option.none_or, BlockLookup.blockNumberByTag_hexNat, Option.bind_some]
  rfl

theorem gasAgrees_of_counted (h : Counted s.txReceipts (blockTxHashes s n)) : GasAgrees s n := by
  intro overflowChecks rest rest'
  obtain ⟨block, hblock, hgasUsed⟩ := buildBlockResponse_gasUsed overflowChecks
    (fullTxs (.array (.string (hexNat n.toNat) :: rest))) h.fits
  have hjson : (receiptsOf s.txReceipts (blockTxHashes s n)).filterMap txReceiptJson =
      (receiptsOf s.txReceipts (blockTxHashes s n)).map fun receipt => (txReceiptJson receipt).getD .null := by
    rw [← List.filterMap_eq_map]
    refine List.filterMap_congr fun receipt hreceipt => ?_
    obtain ⟨json, hjson, -⟩ := txReceiptJson_of_placed (h.placed receipt hreceipt)
    simp [hjson]
  refine ⟨block, _, (receiptsOf s.txReceipts (blockTxHashes s n)).map fun receipt => receipt.gasUsed.toNat, ?_,
    ethGetBlockReceipts_hexNat rest', ?_, ?_, ?_⟩
  · exact (BlockLookup.byNumber_eq n).trans hblock
  · rw [hjson, List.map_map, List.map_map]
    refine List.map_congr_left fun receipt hreceipt => ?_
    obtain ⟨json, hjson, hgas, -⟩ := txReceiptJson_of_placed (h.placed receipt hreceipt)
    simp only [Function.comp_apply, hjson, Option.getD_some, hgas]
    rfl
  · rw [hgasUsed, ← h.gas]
    rfl
  · rw [hjson, List.getLast?_map]
    intro last hlast
    obtain ⟨receipt, hreceipt, rfl⟩ := Option.map_eq_some_iff.mp hlast
    obtain ⟨json, hjson, -, hcumulative⟩ :=
      txReceiptJson_of_placed (h.placed receipt (List.mem_of_getLast? hreceipt))
    rw [hjson, Option.getD_some, hcumulative, hexU64, h.last receipt hreceipt]
    rfl

end State

/-! ### A tick -/

/-- The loop without the assumption that no hash waits twice: the receipts that are left are placed, and the last one
carries the gas of the block. -/
structure Summed (block : UInt64) (txReceipts : HashMap String TxReceiptRecord) (pending : List String)
    (acc : Sealing) : Prop where
  gas : acc.cumulativeGasUsed = .saturate (gasOf (receiptsOf txReceipts pending))
  placed : ∀ hash ∈ pending, ∀ receipt, acc.txReceipts.lookup hash = some receipt →
    receipt.blockNumber.isSome ∧ receipt.blockHash.isSome
  last : ∀ receipt ∈ (receiptsOf acc.txReceipts pending).getLast?,
    receipt.cumulativeGasUsed = acc.cumulativeGasUsed

theorem place_of_none {acc : Sealing} {hash : String} (block : UInt64) (i : ℕ)
    (h : acc.txReceipts.lookup hash = none) :
    (place block acc (hash, i)).txReceipts = acc.txReceipts ∧
      (place block acc (hash, i)).cumulativeGasUsed = acc.cumulativeGasUsed := by
  simp only [place, h, and_self]

theorem place_of_some {acc : Sealing} {hash : String} {receipt : TxReceiptRecord} (block : UInt64) (i : ℕ)
    (h : acc.txReceipts.lookup hash = some receipt) :
    (place block acc (hash, i)).cumulativeGasUsed = acc.cumulativeGasUsed.saturatingAdd receipt.gasUsed := by
  simp only [place, h]

theorem summed_foldl (block : UInt64) (txs : HashMap String TxRecord) (txReceipts : HashMap String TxReceiptRecord)
    (pending : List String) :
    Summed block txReceipts pending (pending.zipIdx.foldl (place block) ⟨txs, txReceipts, 0, 0⟩) := by
  induction pending using List.reverseRecOn with
  | nil => exact ⟨rfl, nofun, nofun⟩
  | append_singleton pending hash ih =>
    have hgasUsed := foldl_gasUsed block ⟨txs, txReceipts, 0, 0⟩ pending
    rw [Inclusion.foldl_concat]
    generalize pending.zipIdx.foldl (place block) ⟨txs, txReceipts, 0, 0⟩ = acc at ih hgasUsed
    refine ⟨?_, ?_, ?_⟩
    · rw [place_gas block hash _ ih.gas, receiptsOf_append, gasOf_append]
      rw [gasOf_congr fun other _ => hgasUsed other]
    · intro other hother receipt hreceipt
      by_cases heq : other = hash
      · subst heq
        rw [place_receipts] at hreceipt
        obtain ⟨old, -, rfl⟩ := Option.map_eq_some_iff.mp hreceipt
        exact ⟨rfl, rfl⟩
      · rw [(Inclusion.place_of_ne block acc (hash, pending.length) heq).2] at hreceipt
        rw [List.mem_append, List.mem_singleton, or_iff_left heq] at hother
        exact ih.placed other hother receipt hreceipt
    · intro receipt hreceipt
      cases hlookup : acc.txReceipts.lookup hash with
      | none =>
        -- without a receipt the transaction changes neither the receipts nor the sum
        obtain ⟨hsame, hsum⟩ := place_of_none block pending.length hlookup
        rw [receiptsOf_append, receiptsOf_singleton, hsame, hlookup, Option.toList_none, List.append_nil] at hreceipt
        rw [hsum]
        exact ih.last receipt hreceipt
      | some old =>
        rw [receiptsOf_append, receiptsOf_singleton, place_receipts, hlookup, Option.map_some, Option.toList_some,
          List.getLast?_concat] at hreceipt
        obtain rfl := Option.some_inj.mp hreceipt
        exact (place_of_some block pending.length hlookup).symm

/-- A block whose receipts add up is counted right. -/
theorem counted_blockTick {Db : Type} {s : NodeState Db}
    (hgas : gasOf (receiptsOf s.txReceipts s.pendingTxs) = s.pendingTxs.length * 21000)
    (hfits : s.pendingTxs.length * 21000 < 2 ^ 64) : Counted (sealing s).txReceipts s.pendingTxs := by
  have hsum := summed_foldl (s.currentHeight.saturatingAdd 1) s.txs s.txReceipts s.pendingTxs
  have hsame : gasOf (receiptsOf (sealing s).txReceipts s.pendingTxs) = s.pendingTxs.length * 21000 :=
    (gasOf_congr fun hash _ => foldl_gasUsed _ _ _ hash).trans hgas
  refine ⟨?_, hsame, hfits, ?_⟩
  · intro receipt hreceipt
    obtain ⟨hash, hhash, hlookup⟩ := List.mem_filterMap.mp hreceipt
    exact hsum.placed hash hhash receipt hlookup
  · intro receipt hreceipt
    rw [hsum.last receipt hreceipt, hsum.gas, hgas, UInt64.toNat_saturate_of_lt hfits, hsame]

/-! ### Runs -/

open Daemon

/-- Every block adds up, and what waits is in none. -/
structure Inv (l : Ledger) : Prop where
  counted : ∀ block hashes, l.blockTxs.lookup block = some hashes → Counted l.txReceipts hashes
  fresh : ∀ block hashes, l.blockTxs.lookup block = some hashes → ∀ hash ∈ hashes, hash ∉ l.pendingTxs

/-- A transaction is recorded only while no block lists it, and a block is sealed only when the receipts of the
pending transactions add up to 21000 gas for each. -/
def AddsUp (R : Revm) (node : DaemonState R.Db) (e : Event) : Prop :=
  (∀ hash, e.recorded R node = some hash → ∀ block, hash ∉ blockTxHashes node.toNodeState block) ∧
  ∀ now, e = .tick now →
    gasOf (receiptsOf node.txReceipts node.pendingTxs) = node.pendingTxs.length * 21000 ∧
      node.pendingTxs.length * 21000 < 2 ^ 64

section Runs
variable {R : Revm} {node node' : DaemonState R.Db} {e : Event}

theorem inv_tick (hinv : Inv (ledger node)) (now : UInt64)
    (hgas : gasOf (receiptsOf node.txReceipts node.pendingTxs) = node.pendingTxs.length * 21000)
    (hfits : node.pendingTxs.length * 21000 < 2 ^ 64) :
    Inv (ledger { node with toNodeState := blockTick node.toNodeState now }) := by
  refine ⟨?_, fun _ _ _ _ _ => List.not_mem_nil⟩
  have hold : ∀ block hashes, node.blockTxs.lookup block = some hashes →
      Counted (sealing node.toNodeState).txReceipts hashes := by
    intro block hashes hblock
    refine (hinv.counted block hashes hblock).congr fun hash hhash => ?_
    exact (Inclusion.foldl_of_notMem _ _ (hinv.fresh block hashes hblock hash hhash)).2
  intro block hashes hblock
  simp only [ledger, ledgerOf, blockTick] at hblock
  split_ifs at hblock with hempty
  · exact hold block hashes hblock
  · by_cases hnew : block = node.currentHeight.saturatingAdd 1
    · subst hnew
      rw [AList.lookup_insert] at hblock
      obtain rfl := Option.some_inj.mp hblock
      exact counted_blockTick hgas hfits
    · rw [AList.lookup_insert_ne hnew] at hblock
      exact hold block hashes hblock

theorem inv_step (hinv : Inv (ledger node)) (hC : AddsUp R node e) (h : step R node e = some node') :
    Inv (ledger node') := by
  rcases step_cases h with ⟨now, rfl, rfl⟩ | ⟨-, heq⟩ | ⟨hash, tx, receipts, hrecorded, hreceipts, heq⟩ |
    ⟨receipts, heq⟩ | ⟨env, req, header, -, heq⟩
  · obtain ⟨hgas, hfits⟩ := hC.2 now rfl
    exact inv_tick hinv now hgas hfits
  · rw [heq]
    exact hinv
  · have hnew := hC.1 hash hrecorded
    rw [heq]
    have hne : ∀ block hashes, node.blockTxs.lookup block = some hashes → ∀ other ∈ hashes, other ≠ hash := by
      rintro block hashes hblock other hother rfl
      refine hnew block ?_
      rwa [blockTxHashes, hblock]
    refine ⟨fun block hashes hblock => ?_, fun block hashes hblock other hother => ?_⟩
    · refine (hinv.counted block hashes hblock).congr fun other hother => ?_
      rcases hreceipts with rfl | ⟨receipt, rfl⟩
      · rfl
      · exact AList.lookup_insert_ne (hne block hashes hblock other hother)
    · rw [List.mem_append, List.mem_singleton, not_or]
      exact ⟨hinv.fresh block hashes hblock other hother, hne block hashes hblock other hother⟩
  · rw [heq]
    exact ⟨hinv.counted, hinv.fresh⟩
  · rw [heq]
    exact ⟨hinv.counted, hinv.fresh⟩

theorem gas_agrees_along (R : Revm) {start : DaemonState R.Db} (hstart : Started R start) {events : List Event}
    (hrun : Run.Along (step R) (AddsUp R) start events) :
    Run.Throughout (step R) (fun node => ∀ n ≤ node.currentHeight, GasAgrees node.toNodeState n) start events := by
  have hinit : Inv (ledger start) := by
    rw [hstart.ledger_eq]
    exact ⟨nofun, nofun⟩
  refine Run.throughout_along (I := fun m => Inv (ledger m)) hinit (fun m e m' hm hC hm' => inv_step hm hC hm') ?_ hrun
  intro node hinv n _
  refine gasAgrees_of_counted ?_
  unfold blockTxHashes
  cases hlookup : node.blockTxs.lookup n with
  | none => exact counted_nil _
  | some hashes => exact hinv.counted n hashes hlookup

end Runs

/-- A transfer, and its block. -/
theorem gas_agrees_along_transfer : ∃ node,
    Run.exec (step Inclusion.transfersOnly) (startedNode Inclusion.transfersOnly)
      [askNonce, sendSomeTx, .tick 1772409712] = some node ∧
    (blockTxHashes node.toNodeState 1).length = 1 ∧ GasAgrees node.toNodeState 1 := by
  have hrun : Run.Along (step Inclusion.transfersOnly) (AddsUp Inclusion.transfersOnly)
      (startedNode Inclusion.transfersOnly) [askNonce, sendSomeTx, .tick 1772409712] :=
    .cons ⟨nofun, nofun⟩ rfl (.cons ⟨fun _ _ _ => List.not_mem_nil, nofun⟩ rfl
      (.cons ⟨nofun, fun _ _ => ⟨rfl, by decide⟩⟩ rfl Run.along_nil))
  exact ⟨_, rfl, rfl, gas_agrees_along Inclusion.transfersOnly (started_startedNode _) hrun _ []
    (List.append_nil _).symm _ rfl 1 (by decide)⟩

/-- A block with one receipt, and another gas than it. -/
theorem not_gasAgrees {Db : Type} {s : NodeState Db} {n : UInt64} {block receipt : Json}
    (hblock : ethGetBlockByNumber s false (.array [.string (hexNat n.toNat)]) = .ok block)
    (hreceipts : ethGetBlockReceipts s (.array [.string (hexNat n.toNat)]) = .array [receipt])
    (hdiffers : block.get "gasUsed" ≠ receipt.get "gasUsed") : ¬ GasAgrees s n := by
  intro h
  obtain ⟨block', receipts', gas, hblock', hreceipts', hgas, hsum, -⟩ := h false [] []
  obtain rfl := Except.ok.inj (hblock.symm.trans hblock')
  obtain rfl := Json.array.inj (hreceipts.symm.trans hreceipts')
  cases gas with
  | nil => simp at hgas
  | cons g gas =>
    obtain ⟨hg, hnil⟩ := List.cons.inj hgas
    obtain rfl := List.map_eq_nil_iff.mp hnil.symm
    exact hdiffers (hsum.trans hg.symm)

/-- A transfer and a mint: the block has 42000 gas, the one receipt 21000. -/
theorem mint_gas_differs : ∃ node,
    Run.exec (step Inclusion.transfersOnly) (startedNode Inclusion.transfersOnly)
      [askNonce, sendSomeTx, mintToken, .tick 1772409712] = some node ∧
    (1 : UInt64) ≤ node.currentHeight ∧ ¬ GasAgrees node.toNodeState 1 := by
  refine ⟨_, rfl, by decide, not_gasAgrees rfl rfl ?_⟩
  intro h
  have htexts : ("0xa410" : String) = "0x5208" := Json.string.inj (Option.some_inj.mp h)
  exact absurd htexts (by decide)

end BlockGas

end Eth2077
