import Mathlib.Data.Prod.Lex
import Eth2077.Node.BlockLookup
import Eth2077.Node.DaemonRuns
import Eth2077.Node.Sealing

/-!
# Logs (`node/src/bin/eth2077-devnetd.rs`, `eth_getLogs`)

A filter asks for the logs of some blocks, of some addresses and with some topics. What it cannot read of a block it
takes for not asked, so such a filter is answered as if it were wider. `logs_exact_along` says when the answer is what
was asked for: the log fields are right on every run that records no transaction twice.
-/

namespace Eth2077

namespace Logs

open Sealing

/-! ### What a filter asks for -/

section Filter
variable (filter : List (String × Json))

/-- The value under `key`; `null` is no value. -/
def given (key : String) : Option Json :=
  match filter.lookup key with
  | some .null => none
  | value => value

/-- The texts of a value that is a text or a list of them. -/
def alternatives : Json → List String
  | .string one => [one]
  | .array many => many.filterMap Json.asStr
  | _ => []

/-- The addresses the filter names. -/
def addresses : List String := ((filter.lookup "address").map alternatives).getD []

/-- What the filter says about each place of a log's topics. -/
def topicEntries : List Json := ((filter.lookup "topics").bind Json.asArray).getD []

/-- The log has one of the addresses, if any are given, and at each place with topics one of those. -/
structure Matches (log : TxLogRecord) : Prop where
  address : addresses filter ≠ [] → ∃ address ∈ addresses filter, canonicalAddress address = some log.address
  topics : ∀ (i : ℕ) entry, (topicEntries filter)[i]? = some entry → alternatives entry ≠ [] →
    ∃ topic, log.topics[i]? = some topic ∧ ∃ option ∈ alternatives entry, asciiLowercase option = asciiLowercase topic

variable {Db : Type} (state : NodeState Db)

/-- The block an end of the range names; `default` where it is left open. -/
def rangeEnd (key : String) (default : UInt64) : Option UInt64 :=
  match given filter key with
  | none => some default
  | some value => value.asStr.bind (blockNumberByTag state)

/-- The block of the chain that has the hash, or the blocks between the two ends. -/
def Requested (block : UInt64) : Prop :=
  match given filter "blockHash" with
  | some value => block ≤ state.currentHeight ∧ ∃ text, value = .string text ∧ asciiLowercase text = blockHash block
  | none =>
    ∃ first last, rangeEnd filter state "fromBlock" 0 = some first ∧
      rangeEnd filter state "toBlock" state.currentHeight = some last ∧ min first last ≤ block ∧ block ≤ max first last

/-- The hash decodes, and if to a block of the chain then in the form the node writes it in; or else the ends can be
read. A list of addresses has some. -/
structure WellAsked : Prop where
  blocks : match given filter "blockHash" with
    | some value => ∃ text number, value = .string text ∧ blockNumberFromHash text = some number ∧
        (number ≤ state.currentHeight → BlockLookup.Canonical text)
    | none => (rangeEnd filter state "fromBlock" 0).isSome ∧
        (rangeEnd filter state "toBlock" state.currentHeight).isSome
  address : ¬ ∃ value, filter.lookup "address" = some value ∧ value.asArray = some []

/-! ### The answer -/

/-- A log of the transaction at place `i` of a block. -/
def SealedIn (block : UInt64) (i : ℕ) (log : TxLogRecord) : Prop :=
  block ≤ state.currentHeight ∧ ∃ hash receipt, (blockTxHashes state block)[i]? = some hash ∧
    state.txReceipts.lookup hash = some receipt ∧ log ∈ receipt.logs

/-- The block, the transaction and the log, as the log has them. -/
def logPlace (log : TxLogRecord) : Option (ℕ ×ₗ ℕ ×ₗ ℕ) := do
  let block ← log.blockNumber
  let transaction ← log.transactionIndex
  let index ← log.logIndex
  return toLex (block.toNat, toLex (transaction.toNat, index.toNat))

def Before (a b : TxLogRecord) : Prop := ∃ p q, logPlace a = some p ∧ logPlace b = some q ∧ p < q

/-- The logs are those the filter asks for, each once and in the order of their places. -/
structure Exact (logs : List TxLogRecord) : Prop where
  mem : ∀ log, log ∈ logs ↔ ∃ block i, SealedIn state block i log ∧ Requested filter state block ∧ Matches filter log
  ordered : logs.Pairwise Before
  own : ∀ log ∈ logs, ∀ block i, SealedIn state block i log →
    log.blockNumber = some block ∧ log.transactionIndex.map UInt64.toNat = some i

end Filter

/-! ### Reading the filter -/

theorem map_of_mapM {α β : Type} {f : α → Option β} {l : List α} {l' : List β} (h : l.mapM f = some l') :
    l.map f = l'.map some := by
  induction l generalizing l' with
  | nil =>
    cases h
    rfl
  | cons a l ih =>
    rw [List.mapM_cons] at h
    obtain ⟨b, hb, h⟩ := Option.bind_eq_some_iff.mp h
    obtain ⟨rest, hrest, h⟩ := Option.bind_eq_some_iff.mp h
    cases h
    rw [List.map_cons, List.map_cons, hb, ih hrest]

section Read
variable {filter : List (String × Json)} {log : TxLogRecord}

/-- A list of texts that could all be read. -/
theorem alternatives_of_mapM {f : String → Option String} {many : List Json} {read : List String}
    (h : many.mapM (fun entry => entry.asStr.bind f) = some read) :
    (many.filterMap Json.asStr).map f = read.map some := by
  induction many generalizing read with
  | nil =>
    cases h
    rfl
  | cons entry many ih =>
    rw [List.mapM_cons] at h
    obtain ⟨one, hone, h⟩ := Option.bind_eq_some_iff.mp h
    obtain ⟨rest, hrest, h⟩ := Option.bind_eq_some_iff.mp h
    cases h
    obtain ⟨text, htext, hone⟩ := Option.bind_eq_some_iff.mp hone
    rw [List.filterMap_cons_some htext, List.map_cons, List.map_cons, hone, ih hrest]

theorem mem_read_iff {f : String → Option String} {texts read : List String} {one : String}
    (h : texts.map f = read.map some) : one ∈ read ↔ ∃ text ∈ texts, f text = some one := by
  rw [← List.mem_map, h, List.mem_map]
  simp

theorem address_iff (haccepted : ¬ ((filter.lookup "address").isSome ∧ (addressFilter filter).isNone))
    (hsome : ¬ ∃ value, filter.lookup "address" = some value ∧ value.asArray = some []) :
    (addressFilter filter).all (fun addrs => decide (log.address ∈ addrs)) = true ↔
      (addresses filter ≠ [] → ∃ address ∈ addresses filter, canonicalAddress address = some log.address) := by
  unfold addressFilter addresses at *
  cases hlookup : filter.lookup "address" with
  | none => simp
  | some value =>
    rw [hlookup] at haccepted hsome
    cases value with
    | string one =>
      cases hone : canonicalAddress one with
      | none => simp [hone] at haccepted
      | some address => simp [alternatives, hone, eq_comm]
    | array many =>
      cases hmany : many.mapM (fun entry => entry.asStr.bind canonicalAddress) with
      | none => simp [hmany] at haccepted
      | some read =>
        have hread := alternatives_of_mapM hmany
        have hlen := (congrArg List.length hread).trans (congrArg List.length (map_of_mapM hmany)).symm
        rw [List.length_map, List.length_map] at hlen
        have hne : many.filterMap Json.asStr ≠ [] := by
          intro hnil
          rw [hnil, List.length_nil, eq_comm, List.length_eq_zero_iff] at hlen
          exact hsome ⟨_, rfl, congrArg some hlen⟩
        simp [alternatives, hmany, hne, mem_read_iff hread]
    | null | bool b | number n | float text | object fields => simp at haccepted

/-- The topics of an entry that could be read are its texts in lower case. -/
theorem topicOptions_eq {entry : Json} {options : List String} (h : topicOptions entry = some options) :
    options = (alternatives entry).map asciiLowercase := by
  cases entry with
  | null =>
    cases h
    rfl
  | string one =>
    cases h
    rfl
  | array any =>
    have hmany : any.mapM (fun topic => topic.asStr.bind fun text => some (asciiLowercase text)) = some options := by
      rw [← h]
      simp only [topicOptions, Option.map_eq_bind, Function.comp_def]
    have hread : ((any.filterMap Json.asStr).map asciiLowercase).map some = options.map some := by
      rw [List.map_map]
      exact alternatives_of_mapM hmany
    exact (List.map_injective_iff.mpr (Option.some_injective _) hread).symm
  | bool b | number n | float text | object fields => cases h

theorem map_topicOptions {topics : List (List String)} (h : topicFilters filter = .ok topics) :
    (topicEntries filter).map topicOptions = topics.map some := by
  unfold topicFilters topicEntries at *
  cases hlookup : filter.lookup "topics" with
  | none =>
    rw [hlookup] at h
    cases h
    rfl
  | some value =>
    rw [hlookup] at h
    cases value with
    | array entries =>
      dsimp only at h
      split at h
      · rename_i parsed hparsed
        cases h
        exact map_of_mapM hparsed
      · cases h
    | null | bool b | number n | float text | string text | object fields => cases h

/-- The filter of a place is what its entry says, in lower case. -/
theorem getElem?_topicFilters {topics : List (List String)} (h : topicFilters filter = .ok topics) (i : ℕ) :
    topics[i]? = (topicEntries filter)[i]?.map fun entry => (alternatives entry).map asciiLowercase := by
  have hi := congrArg (fun l => l[i]?) (map_topicOptions h)
  simp only [List.getElem?_map] at hi
  cases hentry : (topicEntries filter)[i]? with
  | none =>
    rw [hentry] at hi
    cases htopic : topics[i]? with
    | none => rfl
    | some options => simp [htopic] at hi
  | some entry =>
    rw [hentry] at hi
    obtain ⟨options, hoptions, hentry⟩ := Option.map_eq_some_iff.mp hi.symm
    rw [hoptions, Option.map_some, topicOptions_eq hentry.symm]

theorem topics_iff {topics : List (List String)} (h : topicFilters filter = .ok topics) :
    topicsMatch topics log.topics = true ↔
      ∀ (i : ℕ) entry, (topicEntries filter)[i]? = some entry → alternatives entry ≠ [] →
        ∃ topic, log.topics[i]? = some topic ∧
          ∃ option ∈ alternatives entry, asciiLowercase option = asciiLowercase topic := by
  rw [topicsMatch, List.all_eq_true]
  constructor
  · intro hall i entry hentry hne
    have hmem : ((alternatives entry).map asciiLowercase, i) ∈ topics.zipIdx := by
      rw [List.mk_mem_zipIdx_iff_getElem?, getElem?_topicFilters h, hentry, Option.map_some]
    simpa [hne, Option.any_eq_true] using hall _ hmem
  · rintro hall ⟨options, i⟩ hmem
    rw [List.mk_mem_zipIdx_iff_getElem?, getElem?_topicFilters h] at hmem
    obtain ⟨entry, hentry, rfl⟩ := Option.map_eq_some_iff.mp hmem
    by_cases hne : alternatives entry = []
    · simp [hne]
    · simpa [hne, Option.any_eq_true] using hall i entry hentry hne

theorem toNat_rangeInclusive {start stop : UInt64} {i : ℕ} (h : i < stop.toNat + 1 - start.toNat) :
    (start + UInt64.ofNat i).toNat = start.toNat + i := by
  have hstop := stop.toNat_lt
  rw [UInt64.toNat_add, UInt64.toNat_ofNat_of_lt' (show i < 2 ^ 64 by omega), Nat.mod_eq_of_lt (by omega)]

theorem mem_rangeInclusive {start stop b : UInt64} : b ∈ rangeInclusive start stop ↔ start ≤ b ∧ b ≤ stop := by
  simp only [rangeInclusive, List.mem_map, List.mem_range, UInt64.le_iff_toNat_le]
  constructor
  · rintro ⟨i, hi, rfl⟩
    rw [toNat_rangeInclusive hi]
    omega
  · rintro ⟨hstart, hstop⟩
    have hi : b.toNat - start.toNat < stop.toNat + 1 - start.toNat := by omega
    refine ⟨b.toNat - start.toNat, hi, UInt64.toNat_inj.mp ?_⟩
    rw [toNat_rangeInclusive hi]
    omega

theorem pairwise_rangeInclusive (start stop : UInt64) : (rangeInclusive start stop).Pairwise (· < ·) := by
  rw [rangeInclusive, List.pairwise_map, List.pairwise_iff_getElem]
  intro i j hi hj hij
  rw [List.length_range] at hi hj
  rw [List.getElem_range, List.getElem_range, UInt64.lt_iff_toNat_lt, toNat_rangeInclusive hi, toNat_rangeInclusive hj]
  omega

variable {Db : Type} {state : NodeState Db}

theorem asStr_of_given_none {key : String} (h : given filter key = none) :
    (filter.lookup key).bind Json.asStr = none := by
  unfold given at h
  split at h
  · rename_i hnull
    rw [hnull]
    rfl
  · rw [h]
    rfl

theorem lookup_of_given {key : String} {value : Json} (h : given filter key = some value) :
    filter.lookup key = some value := by
  unfold given at h
  split at h
  · cases h
  · exact h

/-- An end that can be read is the one the node takes. -/
theorem getD_of_rangeEnd {key : String} {default block : UInt64}
    (h : rangeEnd filter state key default = some block) :
    (((filter.lookup key).bind Json.asStr).bind (blockNumberByTag state)).getD default = block := by
  unfold rangeEnd at h
  split at h
  · rename_i hnone
    rw [asStr_of_given_none hnone]
    exact Option.some_inj.mp h
  · rename_i value hvalue
    rw [lookup_of_given hvalue, Option.bind_some, h, Option.getD_some]

/-- The node looks through the blocks the filter asks for. -/
theorem mem_blockRange_iff (hasked : WellAsked filter state) {block : UInt64} (hblock : block ≤ state.currentHeight)
    (hlow : state.currentHeight.toNat < UInt64.maxNat) :
    block ∈ rangeInclusive (blockRange state filter).1 (blockRange state filter).2 ↔ Requested filter state block := by
  have hblocks := hasked.blocks
  rw [mem_rangeInclusive]
  unfold Requested blockRange
  cases hhash : given filter "blockHash" with
  | some value =>
    rw [hhash] at hblocks
    obtain ⟨text, number, rfl, hnumber, hcanonical⟩ := hblocks
    have hlookup : ((filter.lookup "blockHash").bind Json.asStr).bind blockNumberFromHash = some number := by
      rw [lookup_of_given hhash]
      exact hnumber
    simp only [hlookup, Json.string.injEq, exists_eq_left']
    constructor
    · rintro ⟨hle, hge⟩
      obtain rfl := UInt64.le_antisymm hle hge
      exact ⟨hblock, (BlockLookup.lowercase_eq_blockHash_iff hnumber).mpr (hcanonical hblock)⟩
    · rintro ⟨-, htext⟩
      have hdecoded := BlockLookup.blockNumberFromHash_lowercase hnumber
      have hself := BlockLookup.blockNumberFromHash_blockHash_self.mpr
        (Nat.lt_of_le_of_lt (UInt64.le_iff_toNat_le.mp hblock) hlow)
      rw [htext, hself] at hdecoded
      obtain rfl := Option.some_inj.mp hdecoded
      exact ⟨UInt64.le_refl _, UInt64.le_refl _⟩
  | none =>
    rw [hhash] at hblocks
    obtain ⟨first, hfirst⟩ := Option.isSome_iff_exists.mp hblocks.1
    obtain ⟨last, hlast⟩ := Option.isSome_iff_exists.mp hblocks.2
    simp only [asStr_of_given_none hhash, Option.bind_none, getD_of_rangeEnd hfirst, getD_of_rangeEnd hlast, hfirst, hlast,
      Option.some_inj]
    constructor
    · exact fun h => ⟨first, last, rfl, rfl, h⟩
    · rintro ⟨first, last, rfl, rfl, h⟩
      exact h

end Read

/-! ### The logs of a block -/

/-- The logs of the transactions know their places, and come in order. -/
structure BlockLogs (txReceipts : HashMap String TxReceiptRecord) (block : UInt64) (hashes : List String) : Prop where
  own : ∀ i hash receipt log, hashes[i]? = some hash → txReceipts.lookup hash = some receipt → log ∈ receipt.logs →
    log.blockNumber = some block ∧ log.transactionIndex.map UInt64.toNat = some i ∧ log.logIndex.isSome
  ordered : (logsOf (receiptsOf txReceipts hashes)).Pairwise Before

section Block
variable {txReceipts txReceipts' : HashMap String TxReceiptRecord} {block : UInt64} {hashes : List String}

theorem BlockLogs.congr (h : BlockLogs txReceipts block hashes)
    (hsame : ∀ hash ∈ hashes, txReceipts'.lookup hash = txReceipts.lookup hash) :
    BlockLogs txReceipts' block hashes := by
  refine ⟨fun i hash receipt log hi hreceipt hlog => ?_, ?_⟩
  · rw [hsame hash (List.mem_of_getElem? hi)] at hreceipt
    exact h.own i hash receipt log hi hreceipt hlog
  · rw [receiptsOf_congr hsame]
    exact h.ordered

theorem mem_logsOf {log : TxLogRecord} : log ∈ logsOf (receiptsOf txReceipts hashes) ↔
    ∃ (i : ℕ) (hash : String) (receipt : TxReceiptRecord), hashes[i]? = some hash ∧
      txReceipts.lookup hash = some receipt ∧ log ∈ receipt.logs := by
  simp only [logsOf, receiptsOf, List.mem_flatMap, List.mem_filterMap]
  constructor
  · rintro ⟨receipt, ⟨hash, hhash, hreceipt⟩, hlog⟩
    obtain ⟨i, hi⟩ := List.getElem?_of_mem hhash
    exact ⟨i, hash, receipt, hi, hreceipt, hlog⟩
  · rintro ⟨i, hash, receipt, hi, hreceipt, hlog⟩
    exact ⟨receipt, ⟨hash, List.mem_of_getElem? hi, hreceipt⟩, hlog⟩

theorem logPlace_of_own {log : TxLogRecord} {i : ℕ} (hblock : log.blockNumber = some block)
    (hi : log.transactionIndex.map UInt64.toNat = some i) (hindex : log.logIndex.isSome) :
    ∃ k, logPlace log = some (toLex (block.toNat, toLex (i, k))) := by
  obtain ⟨index, hindex⟩ := Option.isSome_iff_exists.mp hindex
  obtain ⟨transaction, htransaction, rfl⟩ := Option.map_eq_some_iff.mp hi
  exact ⟨index.toNat, by simp [logPlace, hblock, htransaction, hindex]⟩

theorem before_of_lt {a b : TxLogRecord} {p q : ℕ ×ₗ ℕ ×ₗ ℕ} (ha : logPlace a = some p) (hb : logPlace b = some q)
    (h : p < q) : Before a b := ⟨p, q, ha, hb, h⟩

theorem BlockLogs.logPlace (h : BlockLogs txReceipts block hashes) {log : TxLogRecord}
    (hlog : log ∈ logsOf (receiptsOf txReceipts hashes)) : ∃ p, logPlace log = some (toLex (block.toNat, p)) := by
  obtain ⟨i, hash, receipt, hi, hreceipt, hlog⟩ := mem_logsOf.mp hlog
  obtain ⟨hblock, htransaction, hindex⟩ := h.own i hash receipt log hi hreceipt hlog
  obtain ⟨k, hk⟩ := logPlace_of_own hblock htransaction hindex
  exact ⟨_, hk⟩

end Block

section Seal
variable {txs : HashMap String TxRecord} {txReceipts : HashMap String TxReceiptRecord} {block : UInt64}
  {pending : List String} {acc : Sealing}

theorem exists_of_mem_logs {p : Place} {hash : String} {next : UInt64} {logs : List TxLogRecord} {log : TxLogRecord}
    (h : log ∈ (p.logs hash next logs).1) : ∃ old index, log = p.log hash index old := by
  induction logs generalizing next with
  | nil => cases h
  | cons old logs ih =>
    rcases List.mem_cons.mp h with rfl | h
    · exact ⟨old, next, rfl⟩
    · exact ih h

/-- A log of a sealed receipt knows its place. -/
theorem own_sealed (h : Done block txs txReceipts pending acc) (hcount : pending.length < 2 ^ 64) {i : ℕ}
    {hash : String} {receipt : TxReceiptRecord} {log : TxLogRecord} (hi : pending[i]? = some hash)
    (hreceipt : acc.txReceipts.lookup hash = some receipt) (hlog : log ∈ receipt.logs) :
    log.blockNumber = some block ∧ log.transactionIndex.map UInt64.toNat = some i ∧ log.logIndex.isSome := by
  rw [h.receipts i hash hi] at hreceipt
  obtain ⟨old, -, rfl⟩ := Option.map_eq_some_iff.mp hreceipt
  obtain ⟨old, index, rfl⟩ := exists_of_mem_logs hlog
  have hlt : i < 2 ^ 64 := Nat.lt_trans (List.getElem?_eq_some_iff.mp hi).1 hcount
  exact ⟨rfl, congrArg some (UInt64.toNat_ofNat_of_lt' hlt), rfl⟩

/-- The logs of one receipt are numbered on, so they are in order. -/
theorem pairwise_logs (p : Place) (hash : String) {m : ℕ} {logs : List TxLogRecord} (hm : m + logs.length < 2 ^ 64) :
    (p.logs hash (.saturate m) logs).1.Pairwise Before := by
  rw [logs_saturate, List.pairwise_iff_getElem]
  intro i j hi hj hij
  rw [List.length_mapIdx] at hi hj
  rw [List.getElem_mapIdx, List.getElem_mapIdx]
  refine before_of_lt rfl rfl ?_
  have hi' := UInt64.toNat_saturate_of_lt (n := m + i) (by omega)
  have hj' := UInt64.toNat_saturate_of_lt (n := m + j) (by omega)
  refine Prod.Lex.toLex_lt_toLex.mpr (.inr ⟨rfl, Prod.Lex.toLex_lt_toLex.mpr (.inr ⟨rfl, ?_⟩)⟩)
  rw [hi', hj']
  omega

theorem length_logsOf_take_le (txReceipts : HashMap String TxReceiptRecord) (hashes : List String) (n : ℕ) :
    (logsOf (receiptsOf txReceipts (hashes.take n))).length ≤ (logsOf (receiptsOf txReceipts hashes)).length := by
  conv_rhs => rw [← List.take_append_drop n hashes, receiptsOf_append, logsOf_append, List.length_append]
  exact Nat.le_add_right _ _

theorem pairwise_sealed (h : Done block txs txReceipts pending acc) (hcount : pending.length < 2 ^ 64)
    (hlogs : (logsOf (receiptsOf txReceipts pending)).length < 2 ^ 64) (n : ℕ) :
    (logsOf (receiptsOf acc.txReceipts (pending.take n))).Pairwise Before := by
  induction n with
  | zero => exact .nil
  | succ n ih =>
    cases hn : pending[n]? with
    | none =>
      have hlen : pending.length ≤ n := List.getElem?_eq_none_iff.mp hn
      rw [List.take_of_length_le (by omega)]
      rwa [List.take_of_length_le hlen] at ih
    | some hash =>
      have hfits := length_logsOf_take_le txReceipts pending (n + 1)
      rw [receiptsOf_take_succ hn] at hfits ⊢
      cases hlookup : txReceipts.lookup hash with
      | none =>
        rw [h.receipts n hash hn, hlookup]
        simpa using ih
      | some receipt =>
        have hsealed := h.receipts n hash hn
        rw [hlookup, Option.map_some] at hsealed
        rw [hlookup, Option.toList_some, logsOf_append, logsOf_singleton, List.length_append] at hfits
        rw [hsealed, Option.toList_some, logsOf_append, logsOf_singleton, List.pairwise_append]
        refine ⟨ih, pairwise_logs _ hash (by omega), ?_⟩
        -- the logs before are of transactions before this one
        intro a ha b hb
        obtain ⟨i, other, receipt', hi, hreceipt', ha⟩ := mem_logsOf.mp ha
        rw [List.getElem?_take] at hi
        split_ifs at hi with hlt
        obtain ⟨ha₁, ha₂, ha₃⟩ := own_sealed h hcount hi hreceipt' ha
        obtain ⟨hb₁, hb₂, hb₃⟩ := own_sealed h hcount hn hsealed hb
        obtain ⟨k, hk⟩ := logPlace_of_own ha₁ ha₂ ha₃
        obtain ⟨l, hl⟩ := logPlace_of_own hb₁ hb₂ hb₃
        refine before_of_lt hk hl (Prod.Lex.toLex_lt_toLex.mpr (.inr ⟨rfl, ?_⟩))
        exact Prod.Lex.toLex_lt_toLex.mpr (.inl hlt)

theorem blockLogs_sealed (h : Done block txs txReceipts pending acc) (hcount : pending.length < 2 ^ 64)
    (hlogs : (logsOf (receiptsOf txReceipts pending)).length < 2 ^ 64) : BlockLogs acc.txReceipts block pending := by
  refine ⟨fun i hash receipt log hi hreceipt hlog => own_sealed h hcount hi hreceipt hlog, ?_⟩
  have hordered := pairwise_sealed h hcount hlogs pending.length
  rwa [List.take_length] at hordered

end Seal

/-! ### Runs -/

open Daemon

/-- What waits waits once and is in no block, and the blocks up to the head have their logs in order. -/
structure Inv (l : Ledger) : Prop where
  low : l.currentHeight.toNat < UInt64.maxNat
  height : ∀ block hashes, l.blockTxs.lookup block = some hashes → block ≤ l.currentHeight
  nodup : l.pendingTxs.Nodup
  fresh : ∀ block hashes, l.blockTxs.lookup block = some hashes → ∀ hash ∈ hashes, hash ∉ l.pendingTxs
  logs : ∀ block hashes, l.blockTxs.lookup block = some hashes → BlockLogs l.txReceipts block hashes

/-- A transaction is recorded only while its hash neither waits nor is in a block, and a block is sealed only below
the last height; the numbers of its transactions and logs are those of vectors. -/
def RecordsNew (R : Revm) (node : DaemonState R.Db) (e : Event) : Prop :=
  (∀ hash, e.recorded R node = some hash → hash ∉ Inclusion.listed node.toNodeState) ∧
  ∀ now, e = .tick now → node.currentHeight.toNat + 1 < UInt64.maxNat ∧ node.pendingTxs.length < 2 ^ 64 ∧
    (logsOf (receiptsOf node.txReceipts node.pendingTxs)).length < 2 ^ 64

section Runs
variable {R : Revm} {node node' : DaemonState R.Db} {e : Event}

theorem inv_tick (hinv : Inv (ledger node)) (now : UInt64) (hlow : node.currentHeight.toNat + 1 < UInt64.maxNat)
    (hcount : node.pendingTxs.length < 2 ^ 64)
    (hlogs : (logsOf (receiptsOf node.txReceipts node.pendingTxs)).length < 2 ^ 64) :
    Inv (ledger { node with toNodeState := blockTick node.toNodeState now }) := by
  have hheight : (node.currentHeight.saturatingAdd 1).toNat = node.currentHeight.toNat + 1 := by
    rw [UInt64.toNat_saturatingAdd, UInt64.toNat_one]
    omega
  have hhigher : ∀ block ≤ node.currentHeight, block ≤ node.currentHeight.saturatingAdd 1 := by
    intro block hblock
    rw [UInt64.le_iff_toNat_le] at hblock ⊢
    omega
  have hold : ∀ block hashes, node.blockTxs.lookup block = some hashes →
      BlockLogs (sealing node.toNodeState).txReceipts block hashes := by
    intro block hashes hblock
    refine (hinv.logs block hashes hblock).congr fun hash hhash => ?_
    exact (Inclusion.foldl_of_notMem _ _ (hinv.fresh block hashes hblock hash hhash)).2
  have hnew : BlockLogs (sealing node.toNodeState).txReceipts (node.currentHeight.saturatingAdd 1) node.pendingTxs :=
    blockLogs_sealed (done_foldl _ node.txs node.txReceipts hinv.nodup) hcount hlogs
  -- a list of the new node is a list of the old one, or the one just sealed
  have hlists : ∀ block hashes, (blockTick node.toNodeState now).blockTxs.lookup block = some hashes →
      block ≤ node.currentHeight.saturatingAdd 1 ∧ BlockLogs (sealing node.toNodeState).txReceipts block hashes := by
    intro block hashes hblock
    by_cases hself : block = node.currentHeight.saturatingAdd 1
    · subst hself
      simp only [blockTick] at hblock
      split_ifs at hblock with hempty
      · exact ⟨UInt64.le_refl _, hold _ hashes hblock⟩
      · rw [AList.lookup_insert] at hblock
        obtain rfl := Option.some_inj.mp hblock
        exact ⟨UInt64.le_refl _, hnew⟩
    · rw [lookup_blockTxs_blockTick_of_ne now hself] at hblock
      exact ⟨hhigher block (hinv.height block hashes hblock), hold block hashes hblock⟩
  refine ⟨?_, fun block hashes h => (hlists block hashes h).1, List.nodup_nil, fun _ _ _ _ _ => List.not_mem_nil,
    fun block hashes h => (hlists block hashes h).2⟩
  show (node.currentHeight.saturatingAdd 1).toNat < _
  omega

theorem inv_step (hinv : Inv (ledger node)) (hC : RecordsNew R node e) (h : step R node e = some node') :
    Inv (ledger node') := by
  rcases step_cases h with ⟨now, rfl, rfl⟩ | ⟨-, heq⟩ | ⟨hash, tx, receipts, hrecorded, hreceipts, heq⟩ |
    ⟨receipts, heq⟩ | ⟨env, req, header, -, heq⟩
  · obtain ⟨hlow, hcount, hlogs⟩ := hC.2 now rfl
    exact inv_tick hinv now hlow hcount hlogs
  · rw [heq]
    exact hinv
  · have hnew := hC.1 hash hrecorded
    rw [Inclusion.mem_listed, not_or] at hnew
    rw [heq]
    have hne : ∀ block hashes, node.blockTxs.lookup block = some hashes → ∀ other ∈ hashes, other ≠ hash := by
      rintro block hashes hblock other hother rfl
      exact hnew.2 ⟨block, hashes, hblock, hother⟩
    refine ⟨hinv.low, hinv.height, ?_, fun block hashes hblock other hother => ?_, fun block hashes hblock => ?_⟩
    · exact List.nodup_append'.mpr ⟨hinv.nodup, List.nodup_singleton hash, by simpa using hnew.1⟩
    · rw [List.mem_append, List.mem_singleton, not_or]
      exact ⟨hinv.fresh block hashes hblock other hother, hne block hashes hblock other hother⟩
    · refine (hinv.logs block hashes hblock).congr fun other hother => ?_
      rcases hreceipts with rfl | ⟨receipt, rfl⟩
      · rfl
      · exact AList.lookup_insert_ne (hne block hashes hblock other hother)
  · rw [heq]
    exact ⟨hinv.low, hinv.height, hinv.nodup, hinv.fresh, hinv.logs⟩
  · rw [heq]
    exact ⟨hinv.low, hinv.height, hinv.nodup, hinv.fresh, hinv.logs⟩

/-- The list of a block that has none is empty. -/
theorem Inv.blockLogs (hinv : Inv (ledger node)) (block : UInt64) :
    BlockLogs node.txReceipts block (blockTxHashes node.toNodeState block) := by
  unfold blockTxHashes
  cases hlookup : node.blockTxs.lookup block with
  | none => exact ⟨fun i hash receipt log hi => by simp at hi, .nil⟩
  | some hashes => exact hinv.logs block hashes hlookup

theorem Inv.sealedIn_iff (hinv : Inv (ledger node)) {block : UInt64} {log : TxLogRecord} :
    (∃ i, SealedIn node.toNodeState block i log) ↔
      log ∈ logsOf (receiptsOf node.txReceipts (blockTxHashes node.toNodeState block)) := by
  rw [mem_logsOf]
  constructor
  · rintro ⟨i, -, hash, receipt, h⟩
    exact ⟨i, hash, receipt, h⟩
  · rintro ⟨i, hash, receipt, hi, h⟩
    refine ⟨i, ?_, hash, receipt, hi, h⟩
    unfold blockTxHashes at hi
    cases hlookup : node.blockTxs.lookup block with
    | none => simp [hlookup] at hi
    | some hashes => exact hinv.height block hashes hlookup

theorem logsOf_flatMap (txReceipts : HashMap String TxReceiptRecord) (blocks : List UInt64) (f : UInt64 → List String) :
    logsOf (receiptsOf txReceipts (blocks.flatMap f)) =
      blocks.flatMap fun block => logsOf (receiptsOf txReceipts (f block)) := by
  rw [logsOf, receiptsOf, List.filterMap_flatMap, List.flatMap_assoc]
  rfl

/-- The logs of several blocks, one after the other, are in order. -/
theorem Inv.pairwise (hinv : Inv (ledger node)) {blocks : List UInt64} (hblocks : blocks.Pairwise (· < ·)) :
    (logsOf (receiptsOf node.txReceipts (blocks.flatMap (blockTxHashes node.toNodeState)))).Pairwise Before := by
  rw [logsOf_flatMap, List.pairwise_flatMap]
  refine ⟨fun block _ => (hinv.blockLogs block).ordered, hblocks.imp fun {m n} hlt a ha b hb => ?_⟩
  obtain ⟨p, hp⟩ := (hinv.blockLogs m).logPlace ha
  obtain ⟨q, hq⟩ := (hinv.blockLogs n).logPlace hb
  exact before_of_lt hp hq (Prod.Lex.toLex_lt_toLex.mpr (.inl (UInt64.lt_iff_toNat_lt.mp hlt)))

theorem Inv.exact (hinv : Inv (ledger node)) {filter : List (String × Json)} {rest : List Json} {value : Json}
    (hasked : WellAsked filter node.toNodeState)
    (h : ethGetLogs node.toNodeState (.array (.object filter :: rest)) = .result value) :
    ∃ logs, value = .array (logs.map txLogToJson) ∧ Exact filter node.toNodeState logs := by
  unfold ethGetLogs at h
  have hfilter : callObject (.array (.object filter :: rest)) = some filter := rfl
  simp only [hfilter] at h
  split_ifs at h with haccepted
  split at h
  · cases h
  rename_i topics htopics
  obtain rfl := Response.result.inj h
  refine ⟨_, rfl, ?_, (hinv.pairwise (pairwise_rangeInclusive _ _)).filter _, ?_⟩
  · intro log
    rw [List.mem_filter, Bool.and_eq_true, address_iff haccepted hasked.address, topics_iff htopics]
    show log ∈ logsOf (receiptsOf _ _) ∧ _ ↔ _
    rw [logsOf_flatMap, List.mem_flatMap]
    constructor
    · rintro ⟨⟨block, hblock, hlog⟩, haddress, htopic⟩
      obtain ⟨i, hi⟩ := hinv.sealedIn_iff.mpr hlog
      exact ⟨block, i, hi, (mem_blockRange_iff hasked hi.1 hinv.low).mp hblock, haddress, htopic⟩
    · rintro ⟨block, i, hi, hrequested, haddress, htopic⟩
      exact ⟨⟨block, (mem_blockRange_iff hasked hi.1 hinv.low).mpr hrequested, hinv.sealedIn_iff.mp ⟨i, hi⟩⟩,
        haddress, htopic⟩
  · rintro log - block i ⟨-, hash, receipt, hi, hreceipt, hlog⟩
    obtain ⟨hblock, htransaction, -⟩ := (hinv.blockLogs block).own i hash receipt log hi hreceipt hlog
    exact ⟨hblock, htransaction⟩

/-- On a run that records no transaction twice, a filter that can be read as it is meant is answered exactly. -/
theorem logs_exact_along (R : Revm) {start : DaemonState R.Db} (hstart : Started R start) {events : List Event}
    (hrun : Run.Along (step R) (RecordsNew R) start events) :
    Run.Throughout (step R) (fun node => ∀ filter rest, WellAsked filter node.toNodeState →
      ∀ value, ethGetLogs node.toNodeState (.array (.object filter :: rest)) = .result value →
        ∃ logs, value = .array (logs.map txLogToJson) ∧ Exact filter node.toNodeState logs) start events := by
  have hinit : Inv (ledger start) := by
    rw [hstart.ledger_eq]
    exact ⟨(by decide : (0 : UInt64).toNat < UInt64.maxNat), nofun, List.nodup_nil, nofun, nofun⟩
  refine Run.throughout_along (I := fun m => Inv (ledger m)) hinit (fun m e m' hm hC hm' => inv_step hm hC hm') ?_ hrun
  intro node hinv filter rest hasked value hvalue
  exact hinv.exact hasked hvalue

end Runs

/-! ### A constructor that logs -/

/-- The address of the first contract of `poorSender`. -/
def createdAddress : Address := .ofNat 20 0x659b375d76a8e9a2c68da8818022d6561aa60845

/-- The EVM, for the creation of a contract by code that only logs: `PUSH1 0`, `PUSH1 0`, `LOG0`. -/
def logsOnce : Revm :=
  { accountsOnly with
    transactCommit := fun _ db tx =>
      let info := (db.lookup tx.caller).getD accountsOnly.defaultInfo
      .ok (⟨53439, true, [], some createdAddress, [⟨createdAddress, [], .default⟩]⟩,
        (tx.caller, { info with nonce := info.nonce + 1 }) :: db) }

def createTx : String := "0xd0808082ea6080808560006000a01b0101"

/-- As `walletEnv`, for a request that carries `createTx`. -/
def createEnv : RpcEnv :=
  { walletEnv with
    engine := { Engine7732.namedRootEnv with
      keccak256 := fun _ => .ofNat 32 0x75642917ba5a45e941dbdc91615921662c23b8024e6b8f1d4b6e156a8eaf3db0 } }

def createRun : List Event :=
  [askNonce, .rpc createEnv (request "eth_sendRawTransaction" [.string createTx]), .tick 1772409712]

theorem logs_exact_along_create : ∃ node logs,
    Run.exec (step logsOnce) (startedNode logsOnce) createRun = some node ∧
    ethGetLogs node.toNodeState (.array [.object [("fromBlock", .string "0x1")]]) =
      .result (.array (logs.map txLogToJson)) ∧
    logs ≠ [] ∧ Exact [("fromBlock", .string "0x1")] node.toNodeState logs := by
  have hrun : Run.Along (step logsOnce) (RecordsNew logsOnce) (startedNode logsOnce) createRun :=
    .cons ⟨nofun, nofun⟩ rfl (.cons ⟨fun _ _ => List.not_mem_nil, nofun⟩ rfl
      (.cons ⟨nofun, fun _ _ => by decide⟩ rfl Run.along_nil))
  have hasked : ∀ node : DaemonState logsOnce.Db, WellAsked [("fromBlock", .string "0x1")] node.toNodeState := by
    intro node
    exact ⟨⟨rfl, rfl⟩, nofun⟩
  obtain ⟨logs, hvalue, hexact⟩ := logs_exact_along logsOnce (started_startedNode _) hrun createRun []
    (List.append_nil _).symm _ rfl [("fromBlock", .string "0x1")] [] (hasked _) _ rfl
  refine ⟨_, logs, rfl, congrArg Response.result hvalue, ?_, hexact⟩
  rintro rfl
  cases hvalue

/-- The hash of zeros is that of no block, and yet the log comes back. -/
theorem zero_hash_widens : ∃ node, Run.exec (step logsOnce) (startedNode logsOnce) createRun = some node ∧
    ∃ value, ethGetLogs node.toNodeState (.array [.object [("blockHash", .string zeroWord)]]) = .result value ∧
      ¬ ∃ logs, value = .array (logs.map txLogToJson) ∧
        Exact [("blockHash", .string zeroWord)] node.toNodeState logs := by
  refine ⟨_, rfl, _, rfl, ?_⟩
  rintro ⟨logs, hvalue, hexact⟩
  obtain _ | ⟨log, logs⟩ := logs
  · cases hvalue
  · obtain ⟨block, i, -, ⟨hblock, text, htext, hhash⟩, -⟩ := (hexact.mem log).mp (List.mem_cons_self ..)
    obtain rfl := Json.string.inj htext
    have hself := BlockLookup.blockNumberFromHash_blockHash_self.mpr
      (Nat.lt_of_le_of_lt (UInt64.le_iff_toNat_le.mp hblock) (by decide))
    have hnone : blockNumberFromHash (asciiLowercase zeroWord) = none := by decide
    rw [← hhash, hnone] at hself
    cases hself

end Logs

end Eth2077
