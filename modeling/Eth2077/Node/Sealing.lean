import Mathlib.Algebra.GroupWithZero.Nat
import Eth2077.Node.Inclusion
import Eth2077.Node.Queries

/-!
# Sealing a block (`node/src/bin/eth2077-devnetd.rs`, `main`)

The loop of the ticker carries two counters over the pending transactions: the gas used so far and the number of the
next log. A transaction without a receipt, such as a mint, takes a place and moves neither.
-/

namespace Eth2077

namespace Sealing

/-! ### The receipts of a block -/

def receiptsOf (txReceipts : HashMap String TxReceiptRecord) (hashes : List String) : List TxReceiptRecord :=
  hashes.filterMap txReceipts.lookup

def gasOf (receipts : List TxReceiptRecord) : ℕ := (receipts.map fun receipt => receipt.gasUsed.toNat).sum

def logsOf (receipts : List TxReceiptRecord) : List TxLogRecord := receipts.flatMap TxReceiptRecord.logs

section Lists
variable {txReceipts txReceipts' : HashMap String TxReceiptRecord} {hashes hashes' : List String} {hash : String}
  {receipts receipts' : List TxReceiptRecord}

@[simp] theorem receiptsOf_nil : receiptsOf txReceipts [] = [] := rfl

theorem receiptsOf_append :
    receiptsOf txReceipts (hashes ++ hashes') = receiptsOf txReceipts hashes ++ receiptsOf txReceipts hashes' :=
  List.filterMap_append

theorem receiptsOf_singleton : receiptsOf txReceipts [hash] = (txReceipts.lookup hash).toList := by
  unfold receiptsOf
  cases h : txReceipts.lookup hash with
  | none => simp [h]
  | some receipt => simp [h]

theorem receiptsOf_congr (h : ∀ hash ∈ hashes, txReceipts'.lookup hash = txReceipts.lookup hash) :
    receiptsOf txReceipts' hashes = receiptsOf txReceipts hashes :=
  List.filterMap_congr h

@[simp] theorem gasOf_nil : gasOf [] = 0 := rfl

@[simp] theorem gasOf_append : gasOf (receipts ++ receipts') = gasOf receipts + gasOf receipts' := by
  simp [gasOf]

@[simp] theorem logsOf_nil : logsOf [] = [] := rfl

@[simp] theorem logsOf_append : logsOf (receipts ++ receipts') = logsOf receipts ++ logsOf receipts' :=
  List.flatMap_append

@[simp] theorem logsOf_singleton {receipt : TxReceiptRecord} : logsOf [receipt] = receipt.logs := by
  simp [logsOf]

@[simp] theorem gasOf_singleton {receipt : TxReceiptRecord} : gasOf [receipt] = receipt.gasUsed.toNat := by
  simp [gasOf]

end Lists

/-! ### One turn of the loop -/

section Place
variable (p : Place) (block : UInt64) (acc : Sealing) (hash : String) (i : ℕ)

theorem logs_saturate (n : ℕ) (logs : List TxLogRecord) :
    p.logs hash (.saturate n) logs =
      (logs.mapIdx fun j log => p.log hash (.saturate (n + j)) log, .saturate (n + logs.length)) := by
  induction logs generalizing n with
  | nil => rfl
  | cons log logs ih =>
    rw [Place.logs, UInt64.saturate_saturatingAdd, UInt64.toNat_one, ih (n + 1), List.mapIdx_cons]
    simp only [Nat.add_zero, List.length_cons, Nat.add_comm, Nat.add_left_comm]

theorem place_txs : (place block acc (hash, i)).txs.lookup hash =
    (acc.txs.lookup hash).map (Place.tx ⟨block, .ofNat i⟩) := by
  have hmodify : (acc.txs.modify hash (Place.tx ⟨block, .ofNat i⟩)).lookup hash =
      (acc.txs.lookup hash).map (Place.tx ⟨block, .ofNat i⟩) := by
    unfold HashMap.modify
    cases htx : acc.txs.lookup hash with
    | none => exact htx
    | some tx => exact AList.lookup_insert _
  unfold place
  dsimp only
  split <;> exact hmodify

theorem place_receipts : (place block acc (hash, i)).txReceipts.lookup hash =
    (acc.txReceipts.lookup hash).map fun receipt => Place.receipt ⟨block, .ofNat i⟩ hash
      (acc.cumulativeGasUsed.saturatingAdd receipt.gasUsed) acc.nextLogIndex receipt := by
  unfold place
  dsimp only
  split
  · rename_i hnone
    simp only [hnone, Option.map_none]
  · rename_i receipt hsome
    rw [hsome]
    exact AList.lookup_insert _

variable {acc}

theorem place_gas {gas : ℕ} (h : acc.cumulativeGasUsed = .saturate gas) :
    (place block acc (hash, i)).cumulativeGasUsed = .saturate (gas + gasOf (receiptsOf acc.txReceipts [hash])) := by
  rw [receiptsOf_singleton]
  unfold place
  dsimp only
  split
  · rename_i hnone
    rw [hnone]
    exact h
  · rename_i receipt hsome
    rw [hsome, h, UInt64.saturate_saturatingAdd, Option.toList_some, gasOf_singleton]

theorem place_logs {count : ℕ} (h : acc.nextLogIndex = .saturate count) :
    (place block acc (hash, i)).nextLogIndex =
      .saturate (count + (logsOf (receiptsOf acc.txReceipts [hash])).length) := by
  rw [receiptsOf_singleton]
  unfold place
  dsimp only
  split
  · rename_i hnone
    rw [hnone]
    exact h
  · rename_i receipt hsome
    rw [hsome, h, logs_saturate, Option.toList_some, logsOf_singleton]

end Place

/-! ### The loop -/

/-- What each transaction used stays what it was, also where a hash waits twice. -/
theorem foldl_gasUsed (block : UInt64) (acc : Sealing) (pending : List String) (hash : String) :
    ((pending.zipIdx.foldl (place block) acc).txReceipts.lookup hash).map TxReceiptRecord.gasUsed =
      (acc.txReceipts.lookup hash).map TxReceiptRecord.gasUsed := by
  induction pending using List.reverseRecOn with
  | nil => rfl
  | append_singleton pending last ih =>
    rw [Inclusion.foldl_concat, ← ih]
    by_cases heq : hash = last
    · rw [heq, place_receipts, Option.map_map]
      rfl
    · rw [(Inclusion.place_of_ne block _ (last, pending.length) heq).2]

theorem gasOf_congr {txReceipts txReceipts' : HashMap String TxReceiptRecord} {hashes : List String}
    (h : ∀ hash ∈ hashes, (txReceipts'.lookup hash).map TxReceiptRecord.gasUsed =
      (txReceipts.lookup hash).map TxReceiptRecord.gasUsed) :
    gasOf (receiptsOf txReceipts' hashes) = gasOf (receiptsOf txReceipts hashes) := by
  have hmap : ∀ receipts : HashMap String TxReceiptRecord, (receiptsOf receipts hashes).map (fun r => r.gasUsed.toNat) =
      hashes.filterMap fun hash => ((receipts.lookup hash).map TxReceiptRecord.gasUsed).map UInt64.toNat := by
    intro receipts
    simp only [receiptsOf, List.map_filterMap, Option.map_map, Function.comp_def]
  unfold gasOf
  rw [hmap, hmap]
  congr 1
  refine List.filterMap_congr fun hash hhash => ?_
  rw [h hash hhash]

/-- What the loop over `pending` has made of the records and the receipts it started with. -/
structure Done (block : UInt64) (txs : HashMap String TxRecord) (txReceipts : HashMap String TxReceiptRecord)
    (pending : List String) (acc : Sealing) : Prop where
  gas : acc.cumulativeGasUsed = .saturate (gasOf (receiptsOf txReceipts pending))
  count : acc.nextLogIndex = .saturate (logsOf (receiptsOf txReceipts pending)).length
  other : ∀ hash ∉ pending,
    acc.txs.lookup hash = txs.lookup hash ∧ acc.txReceipts.lookup hash = txReceipts.lookup hash
  txs : ∀ i hash, pending[i]? = some hash →
    acc.txs.lookup hash = (txs.lookup hash).map (Place.tx ⟨block, .ofNat i⟩)
  receipts : ∀ i hash, pending[i]? = some hash →
    acc.txReceipts.lookup hash = (txReceipts.lookup hash).map (Place.receipt ⟨block, .ofNat i⟩ hash
      (.saturate (gasOf (receiptsOf txReceipts (pending.take (i + 1)))))
      (.saturate (logsOf (receiptsOf txReceipts (pending.take i))).length))

variable {block : UInt64} {txs : HashMap String TxRecord} {txReceipts : HashMap String TxReceiptRecord}
  {pending : List String} {acc : Sealing}

theorem Done.concat {hash : String} (h : Done block txs txReceipts pending acc) (hhash : hash ∉ pending) :
    Done block txs txReceipts (pending ++ [hash]) (place block acc (hash, pending.length)) := by
  have hsame : receiptsOf acc.txReceipts [hash] = receiptsOf txReceipts [hash] := by
    rw [receiptsOf_singleton, receiptsOf_singleton, (h.other hash hhash).2]
  refine ⟨?_, ?_, ?_, ?_, ?_⟩
  · rw [place_gas block hash _ h.gas, hsame, receiptsOf_append, gasOf_append]
  · rw [place_logs block hash _ h.count, hsame, receiptsOf_append, logsOf_append, List.length_append]
  · intro other hother
    simp only [List.mem_append, List.mem_singleton, not_or] at hother
    obtain ⟨htxs, hreceipts⟩ := Inclusion.place_of_ne block acc (hash, pending.length) hother.2
    rw [htxs, hreceipts]
    exact h.other other hother.1
  · intro i other hi
    rcases Inclusion.getElem?_concat_cases hi with ⟨-, hi⟩ | ⟨rfl, rfl⟩
    · have hne : other ≠ hash := fun heq => hhash (heq ▸ List.mem_of_getElem? hi)
      rw [(Inclusion.place_of_ne block acc (hash, pending.length) hne).1]
      exact h.txs i other hi
    · rw [place_txs, (h.other other hhash).1]
  · intro i other hi
    rcases Inclusion.getElem?_concat_cases hi with ⟨hlt, hi⟩ | ⟨rfl, rfl⟩
    · have hne : other ≠ hash := fun heq => hhash (heq ▸ List.mem_of_getElem? hi)
      rw [(Inclusion.place_of_ne block acc (hash, pending.length) hne).2, List.take_append_of_le_length hlt,
        List.take_append_of_le_length hlt.le]
      exact h.receipts i other hi
    · -- the receipt is the last one so far, so the sum up to it is the whole sum
      rw [place_receipts, (h.other other hhash).2, h.gas, h.count, List.take_left, List.take_of_length_le (by simp)]
      refine Option.map_congr fun receipt hreceipt => ?_
      rw [UInt64.saturate_saturatingAdd, receiptsOf_append, gasOf_append, receiptsOf_singleton, hreceipt,
        Option.toList_some, gasOf_singleton]

theorem done_foldl (block : UInt64) (txs : HashMap String TxRecord) (txReceipts : HashMap String TxReceiptRecord)
    (hnodup : pending.Nodup) :
    Done block txs txReceipts pending (pending.zipIdx.foldl (place block) ⟨txs, txReceipts, 0, 0⟩) := by
  induction pending using List.reverseRecOn with
  | nil => exact ⟨rfl, rfl, fun _ _ => ⟨rfl, rfl⟩, fun _ _ hi => by simp at hi, fun _ _ hi => by simp at hi⟩
  | append_singleton pending hash ih =>
    obtain ⟨hpending, -, hdisjoint⟩ := List.nodup_append'.mp hnodup
    have hhash : hash ∉ pending := fun hmem => hdisjoint hmem (List.mem_singleton_self hash)
    rw [Inclusion.foldl_concat]
    exact (ih hpending).concat hhash

/-! ### The logs of the block -/

/-- The receipt at place `n`, if the transaction there has one, comes last among the first `n + 1`. -/
theorem receiptsOf_take_succ {hash : String} {n : ℕ} (hn : pending[n]? = some hash) :
    receiptsOf txReceipts (pending.take (n + 1)) =
      receiptsOf txReceipts (pending.take n) ++ (txReceipts.lookup hash).toList := by
  rw [List.take_add_one, hn, Option.toList_some, receiptsOf_append, receiptsOf_singleton]

theorem map_logIndex_logs (p : Place) (hash : String) (m : ℕ) (logs : List TxLogRecord) :
    (p.logs hash (.saturate m) logs).1.map TxLogRecord.logIndex =
      (List.range logs.length).map fun j => some (.saturate (m + j)) := by
  rw [logs_saturate]
  apply List.ext_getElem
  · simp
  · simp [Place.log]

theorem Done.logIndices (h : Done block txs txReceipts pending acc) (n : ℕ) :
    (logsOf (receiptsOf acc.txReceipts (pending.take n))).map TxLogRecord.logIndex =
      (List.range (logsOf (receiptsOf txReceipts (pending.take n))).length).map fun k => some (.saturate k) := by
  induction n with
  | zero => rfl
  | succ n ih =>
    cases hn : pending[n]? with
    | none =>
      have hlen : pending.length ≤ n := List.getElem?_eq_none_iff.mp hn
      rw [List.take_of_length_le (by omega)]
      rwa [List.take_of_length_le hlen] at ih
    | some hash =>
      rw [receiptsOf_take_succ hn, receiptsOf_take_succ hn, logsOf_append, logsOf_append, List.map_append, ih,
        h.receipts n hash hn]
      cases txReceipts.lookup hash with
      | none => simp
      | some receipt =>
        simp only [Option.map_some, Option.toList_some, logsOf_singleton, Place.receipt, map_logIndex_logs,
          List.length_append, List.range_add, List.map_append, List.map_map, Function.comp_def]

end Sealing

/-! ### A tick -/

open Sealing

section Tick
variable {Db : Type} (s s' : NodeState Db)

/-- The pending transactions can be sealed: they are recorded, in no block yet, and few enough for the counters. That
there are fewer of them and of their logs than `2 ^ 64` is not a matter of the node: a vector holds no more. -/
structure Sealable : Prop where
  nodup : s.pendingTxs.Nodup
  recorded : ∀ hash ∈ s.pendingTxs, hash ∈ s.txs
  earlier : ∀ block ≤ s.currentHeight, ∀ hash ∈ blockTxHashes s block, hash ∉ s.pendingTxs
  gas : gasOf (receiptsOf s.txReceipts s.pendingTxs) < 2 ^ 64
  count : s.pendingTxs.length < 2 ^ 64 ∧ (logsOf (receiptsOf s.txReceipts s.pendingTxs)).length < 2 ^ 64

/-- A log without its place. -/
def logContent (log : TxLogRecord) : String × List String × String := (log.address, log.topics, log.data)

/-- What was pending in `s` is block `block` of `s'`, and what was in the blocks of `s` is as it was. -/
structure SealedInto (block : UInt64) : Prop where
  height : s'.currentHeight = block
  list : blockTxHashes s' block = s.pendingTxs
  pending : s'.pendingTxs = []
  records : ∀ i hash, s.pendingTxs[i]? = some hash → ∃ tx index, s.txs.lookup hash = some tx ∧ index.toNat = i ∧
    s'.txs.lookup hash = some
      { tx with blockNumber := some block, blockHash := some (blockHash block), transactionIndex := some index }
  receipts : ∀ i hash, s.pendingTxs[i]? = some hash → ∀ receipt, s.txReceipts.lookup hash = some receipt →
    ∃ index cumulativeGasUsed logs, index.toNat = i ∧
      cumulativeGasUsed.toNat = gasOf (receiptsOf s'.txReceipts (s.pendingTxs.take (i + 1))) ∧
      logs.map logContent = receipt.logs.map logContent ∧
      s'.txReceipts.lookup hash = some
        { receipt with
          cumulativeGasUsed := cumulativeGasUsed, blockNumber := some block, blockHash := some (blockHash block)
          transactionIndex := some index, logs := logs }
  noReceipt : ∀ hash, s.txReceipts.lookup hash = none → s'.txReceipts.lookup hash = none
  logIndices : (logsOf (receiptsOf s'.txReceipts s.pendingTxs)).map (fun log => log.logIndex.map UInt64.toNat) =
    (List.range (logsOf (receiptsOf s'.txReceipts s.pendingTxs)).length).map some
  earlier : ∀ b ≤ s.currentHeight, s'.blockTxs.lookup b = s.blockTxs.lookup b ∧
    ∀ hash ∈ blockTxHashes s b,
      s'.txs.lookup hash = s.txs.lookup hash ∧ s'.txReceipts.lookup hash = s.txReceipts.lookup hash

variable {s}

theorem map_logContent_logs (p : Place) (hash : String) (next : UInt64) (logs : List TxLogRecord) :
    (p.logs hash next logs).1.map logContent = logs.map logContent := by
  induction logs generalizing next with
  | nil => rfl
  | cons log logs ih => exact congrArg (logContent log :: ·) (ih _)

variable (s) in
/-- The stores as the loop of a tick leaves them. -/
def sealing : Sealing :=
  s.pendingTxs.zipIdx.foldl (place (s.currentHeight.saturatingAdd 1)) ⟨s.txs, s.txReceipts, 0, 0⟩

@[simp] theorem txs_blockTick (now : UInt64) : (blockTick s now).txs = (sealing s).txs := rfl

@[simp] theorem txReceipts_blockTick (now : UInt64) : (blockTick s now).txReceipts = (sealing s).txReceipts := rfl

theorem lookup_blockTxs_blockTick_of_ne {b : UInt64} (now : UInt64) (hb : b ≠ s.currentHeight.saturatingAdd 1) :
    (blockTick s now).blockTxs.lookup b = s.blockTxs.lookup b := by
  unfold blockTick
  dsimp only
  split_ifs with hempty
  · rfl
  · exact AList.lookup_insert_ne hb

theorem blockTxHashes_blockTick (now : UInt64)
    (hnew : s.pendingTxs = [] → blockTxHashes s (s.currentHeight.saturatingAdd 1) = []) :
    blockTxHashes (blockTick s now) (s.currentHeight.saturatingAdd 1) = s.pendingTxs := by
  unfold blockTick blockTxHashes
  dsimp only
  split_ifs with hempty
  · rw [hempty]
    exact hnew hempty
  · rw [AList.lookup_insert, Option.getD_some]

/-- The gas used up to a place fits if all of it does. -/
theorem gasOf_take_le (txReceipts : HashMap String TxReceiptRecord) (hashes : List String) (n : ℕ) :
    gasOf (receiptsOf txReceipts (hashes.take n)) ≤ gasOf (receiptsOf txReceipts hashes) := by
  conv_rhs => rw [← List.take_append_drop n hashes, receiptsOf_append, gasOf_append]
  exact Nat.le_add_right _ _

theorem logIndices_blockTick (hs : Sealable s) :
    (logsOf (receiptsOf (sealing s).txReceipts s.pendingTxs)).map (fun log => log.logIndex.map UInt64.toNat) =
      (List.range (logsOf (receiptsOf (sealing s).txReceipts s.pendingTxs)).length).map some := by
  have hindices := (done_foldl (s.currentHeight.saturatingAdd 1) s.txs s.txReceipts hs.nodup).logIndices
    s.pendingTxs.length
  rw [List.take_length] at hindices
  have hlen := congrArg List.length hindices
  rw [List.length_map, List.length_map, List.length_range] at hlen
  calc (logsOf (receiptsOf (sealing s).txReceipts s.pendingTxs)).map (fun log => log.logIndex.map UInt64.toNat)
    _ = ((logsOf (receiptsOf (sealing s).txReceipts s.pendingTxs)).map TxLogRecord.logIndex).map
          (Option.map UInt64.toNat) := by rw [List.map_map]; rfl
    _ = (List.range (logsOf (receiptsOf s.txReceipts s.pendingTxs)).length).map
          (fun k => some (UInt64.saturate k).toNat) := by rw [sealing, hindices, List.map_map]; rfl
    _ = (List.range (logsOf (receiptsOf s.txReceipts s.pendingTxs)).length).map some := by
          refine List.map_congr_left fun k hk => ?_
          rw [UInt64.toNat_saturate_of_lt (Nat.lt_trans (List.mem_range.mp hk) hs.count.2)]
    _ = _ := by rw [sealing, hlen]

theorem ne_saturatingAdd_one {height b : UInt64} (hheight : height.toNat < UInt64.maxNat) (hb : b ≤ height) :
    b ≠ height.saturatingAdd 1 := by
  rintro rfl
  have hle := UInt64.le_iff_toNat_le.mp hb
  rw [UInt64.toNat_saturatingAdd, UInt64.toNat_one] at hle
  omega

/-- A tick seals what is pending, as long as there is a number left for the new block, and nothing is filed under it
that an empty block would not replace. -/
theorem tick_seals_pending (now : UInt64) (hs : Sealable s) (hheight : s.currentHeight.toNat < UInt64.maxNat)
    (hnew : s.pendingTxs = [] → blockTxHashes s (s.currentHeight.saturatingAdd 1) = []) :
    SealedInto s (blockTick s now) (s.currentHeight.saturatingAdd 1) := by
  have hdone : Done _ s.txs s.txReceipts s.pendingTxs (sealing s) := done_foldl _ s.txs s.txReceipts hs.nodup
  have hgasUsed := foldl_gasUsed (s.currentHeight.saturatingAdd 1) ⟨s.txs, s.txReceipts, 0, 0⟩ s.pendingTxs
  have hindex : ∀ i hash, s.pendingTxs[i]? = some hash → (UInt64.ofNat i).toNat = i := by
    intro i hash hi
    exact UInt64.toNat_ofNat_of_lt' (Nat.lt_trans (List.getElem?_eq_some_iff.mp hi).1 hs.count.1)
  refine ⟨rfl, blockTxHashes_blockTick now hnew, rfl, ?_, ?_, ?_, logIndices_blockTick hs, ?_⟩
  · intro i hash hi
    obtain ⟨tx, htx⟩ := Option.isSome_iff_exists.mp
      (AList.lookup_isSome.mpr (hs.recorded hash (List.mem_of_getElem? hi)))
    have hsealed := hdone.txs i hash hi
    rw [htx] at hsealed
    exact ⟨tx, .ofNat i, htx, hindex i hash hi, hsealed⟩
  · intro i hash hi receipt hreceipt
    have hsealed := hdone.receipts i hash hi
    rw [hreceipt] at hsealed
    refine ⟨.ofNat i, _, _, hindex i hash hi, ?_, map_logContent_logs _ hash _ _, hsealed⟩
    rw [UInt64.toNat_saturate_of_lt (Nat.lt_of_le_of_lt (gasOf_take_le _ _ _) hs.gas)]
    exact (gasOf_congr fun other _ => hgasUsed other).symm
  · intro hash hnone
    have hsame := hgasUsed hash
    rw [hnone] at hsame
    exact Option.map_eq_none_iff.mp hsame
  · intro b hb
    refine ⟨lookup_blockTxs_blockTick_of_ne now (ne_saturatingAdd_one hheight hb), fun hash hhash => ?_⟩
    exact hdone.other hash (hs.earlier b hb hash hhash)

end Tick

/-- The node with a transfer and a mint waiting. -/
def transferAndMint : NodeState Inclusion.transfersOnly.Db :=
  [Inclusion.askNonce poorSender, Inclusion.sendSomeTx, Inclusion.mintFor poorSender].foldl
    (Inclusion.next Inclusion.transfersOnly Inclusion.walletDecoders Inclusion.someHasher)
    (buildState Inclusion.transfersOnly 2077001 1772409600)

theorem tick_seals_transfer_and_mint :
    transferAndMint.pendingTxs.length = 2 ∧
      SealedInto transferAndMint (blockTick transferAndMint 1772409712) 1 := by
  refine ⟨rfl, tick_seals_pending 1772409712 ⟨by decide, by decide, ?_, by decide, by decide⟩ (by decide) nofun⟩
  intro block _ hash hhash
  exact absurd hhash List.not_mem_nil

/-- A node that has given out the last block number, with a block of one transaction under it. -/
def lastBlockNode : NodeState Inclusion.transfersOnly.Db :=
  { buildState Inclusion.transfersOnly 2077001 1772409600 with
    currentHeight := 0xffffffffffffffff
    blockTxs := AList.insert 0xffffffffffffffff [bytesToHex (List.replicate 32 0xaa)] ∅ }

/-- The next tick seals nothing, and what it seals it into is the block before. -/
theorem last_block_sealed_again :
    Sealable lastBlockNode ∧ lastBlockNode.pendingTxs = [] ∧
      ¬ SealedInto lastBlockNode (blockTick lastBlockNode 1772409712) (lastBlockNode.currentHeight.saturatingAdd 1) := by
  refine ⟨⟨List.nodup_nil, nofun, fun _ _ _ _ => List.not_mem_nil, by decide, by decide⟩, rfl, fun h => ?_⟩
  exact absurd h.list (by decide)

end Eth2077
