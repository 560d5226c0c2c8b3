import Mathlib.Data.Finset.Card
import Mathlib.Algebra.Group.Nat.Defs
import Eth2077.Lib.Runs
import Eth2077.Lib.Tally
import Eth2077.Prim

/-!
# The mempool (`execution/src/ingress.rs`)

The pooled transactions by hash, and for every sender how many there are and which nonces they have. The
three maps stay in step through insertion, removal, eviction to make room, and draining; an insertion that
fails does so before it has changed anything.
-/

namespace Eth2077

namespace Ingress

/-- `std::collections::BTreeMap`; every traversal here is followed by a sort. -/
abbrev BTreeMap (K V : Type) := AList fun _ : K => V

structure Transaction where
  hash : B256
  «from» : Address
  «to» : Address
  nonce : UInt64
  gasLimit : UInt64
  gasPrice : UInt64
  value : UInt64
  data : Bytes
deriving DecidableEq

inductive IngressError where
  | duplicateTransaction
  | invalidNonce
  | insufficientGas
  | mempoolFull
  | validationFailed (message : String)
deriving DecidableEq

structure MempoolConfig where
  maxSize : UInt64
  maxPerAccount : UInt64
  minGasPrice : UInt64
  evictionThresholdPercent : UInt64

structure Mempool where
  config : MempoolConfig
  transactions : BTreeMap B256 Transaction
  accountCounts : BTreeMap Address ℕ
  accountNonces : BTreeMap Address (Finset UInt64)

/-- Hash, gas price and nonce of a transaction that may be evicted. -/
abbrev Candidate := B256 × UInt64 × UInt64

/-- Cheapest first, and the later nonce before the earlier. -/
def Candidate.le (a b : Candidate) : Bool := a.2.1 < b.2.1 ∨ (a.2.1 = b.2.1 ∧ b.2.2 ≤ a.2.2)

/-- Dearest first, then by nonce, then by hash. -/
def Transaction.le (a b : Transaction) : Bool :=
  b.gasPrice < a.gasPrice ∨ (a.gasPrice = b.gasPrice ∧
    (a.nonce < b.nonce ∨ (a.nonce = b.nonce ∧ a.hash.toList ≤ b.hash.toList)))

namespace Mempool

def new (config : MempoolConfig) : Mempool := ⟨config, ∅, ∅, ∅⟩

section Ops
variable (m : Mempool)

def len : ℕ := m.transactions.values.length

def isFull : Bool := m.config.maxSize.toNat ≤ m.len

def clear : Mempool := { m with transactions := ∅, accountCounts := ∅, accountNonces := ∅ }

def peekBest (count : ℕ) : List Transaction := (m.transactions.values.mergeSort Transaction.le).take count

/-- The first half of `decrement_account_state`: no entry is left with a count of zero. -/
def decrementCount (counts : BTreeMap Address ℕ) (sender : Address) : BTreeMap Address ℕ :=
  match counts.lookup sender with
  | none => counts
  | some count =>
    let count := count - 1
    if count = 0 then counts.erase sender else AList.insert sender count counts

/-- The second half. -/
def removeNonce (accountNonces : BTreeMap Address (Finset UInt64)) (sender : Address) (nonce : UInt64) :
    BTreeMap Address (Finset UInt64) :=
  match accountNonces.lookup sender with
  | none => accountNonces
  | some nonces =>
    let nonces := nonces.erase nonce
    if nonces = ∅ then accountNonces.erase sender else AList.insert sender nonces accountNonces

def decrementAccountState (tx : Transaction) : Mempool :=
  { m with
    accountCounts := decrementCount m.accountCounts tx.from
    accountNonces := removeNonce m.accountNonces tx.from tx.nonce }

def remove (txHash : B256) : Option Transaction × Mempool :=
  match m.transactions.lookup txHash with
  | none => (none, m)
  | some tx => (some tx, { m with transactions := m.transactions.erase txHash }.decrementAccountState tx)

def validateCandidate (tx : Transaction) : Except IngressError Unit :=
  if tx.hash ∈ m.transactions then .error .duplicateTransaction
  else if tx.gasLimit = 0 ∨ tx.gasPrice < m.config.minGasPrice then .error .insufficientGas
  else if (m.accountNonces.lookup tx.from).any fun nonces => tx.nonce ∈ nonces then .error .invalidNonce
  else if m.config.maxPerAccount.toNat ≤ (m.accountCounts.lookup tx.from).getD 0 then
    .error (.validationFailed "account mempool limit reached")
  else .ok ()

/-- The product wraps. -/
def suggestedEvictionCount : UInt64 :=
  let percent := min m.config.evictionThresholdPercent 100
  if percent = 0 then 0
  else
    let maxSize := max m.config.maxSize 1
    max ((maxSize * percent) / 100) 1

end Ops

def evict : List Candidate → UInt64 → Mempool → Mempool
  | [], _, m => m
  | (hash, _, _) :: candidates, toEvict, m =>
    if ¬ m.isFull ∨ toEvict = 0 then m else evict candidates (toEvict - 1) (m.remove hash).2

/-- `sort_unstable_by` may leave equal candidates in any order: they come in the order `order`. -/
def evictLowestGas (order : IterOrder Candidate) (toEvict : UInt64) (m : Mempool) : Mempool :=
  if toEvict = 0 ∨ m.transactions.values = [] then m
  else
    let candidates := m.transactions.values.map fun tx => (tx.hash, tx.gasPrice, tx.nonce)
    evict ((order.order candidates).mergeSort Candidate.le) toEvict m

section Insert
variable (m : Mempool) (tx : Transaction)

/-- The three maps with one more transaction. -/
def add : Mempool :=
  { m with
    accountCounts := AList.insert tx.from (((m.accountCounts.lookup tx.from).map (· + 1)).getD 1) m.accountCounts
    accountNonces := AList.insert tx.from (insert tx.nonce ((m.accountNonces.lookup tx.from).getD ∅)) m.accountNonces
    transactions := AList.insert tx.hash tx m.transactions }

def insert (order : IterOrder Candidate) : Except IngressError Unit × Mempool :=
  match m.validateCandidate tx with
  | .error err => (.error err, m)
  | .ok () =>
    if m.isFull ∧ m.suggestedEvictionCount = 0 then (.error .mempoolFull, m)
    else
      let m := if m.isFull then evictLowestGas order m.suggestedEvictionCount m else m
      if m.isFull then (.error .mempoolFull, m) else (.ok (), m.add tx)

end Insert

end Mempool

/-! ### The pipeline around it -/

structure IngressPipeline where
  mempool : Mempool

namespace IngressPipeline
variable (p : IngressPipeline)

def validateTransaction (tx : Transaction) : Except IngressError Unit := p.mempool.validateCandidate tx

def submit (tx : Transaction) (order : IterOrder Candidate) : Except IngressError Unit × IngressPipeline :=
  match p.validateTransaction tx with
  | .error err => (.error err, p)
  | .ok () =>
    let (result, mempool) := p.mempool.insert tx order
    (result, ⟨mempool⟩)

/-- `filter_map` with a removal: what was there, and the pool without it. -/
def removeAll : List B256 → Mempool → List Transaction × Mempool
  | [], m => ([], m)
  | hash :: hashes, m =>
    let (tx, m) := m.remove hash
    let (txs, m) := removeAll hashes m
    (tx.toList ++ txs, m)

def drainBatch (maxCount : ℕ) : List Transaction × IngressPipeline :=
  let bestHashes := (p.mempool.peekBest maxCount).map (·.hash)
  let (txs, mempool) := removeAll bestHashes p.mempool
  (txs, ⟨mempool⟩)

end IngressPipeline

/-! ### The books -/

/-- The nonces of some transactions. -/
def nonceSet (txs : List Transaction) : Finset UInt64 := (txs.map Transaction.nonce).toFinset

theorem nonceSet_perm (l l' : List Transaction) (h : l.Perm l') : nonceSet l = nonceSet l' :=
  List.toFinset_eq_of_perm _ _ (h.map _)

def Mempool.pooledFrom (m : Mempool) (sender : Address) : List Transaction :=
  m.transactions.values.filter fun tx => tx.from = sender

/-- Everything is as it should be in the pool. -/
structure Books (m : Mempool) : Prop where
  /-- The counts, with no entry for a sender of nothing. -/
  counts : Tally Transaction.from List.length m.accountCounts m.transactions.values
  nonces : Tally Transaction.from nonceSet m.accountNonces m.transactions.values
  distinct : ∀ sender, ((m.pooledFrom sender).map Transaction.nonce).Nodup
  perAccount : ∀ sender, (m.pooledFrom sender).length ≤ m.config.maxPerAccount.toNat
  size : m.len ≤ m.config.maxSize.toNat
  hash : ∀ hash tx, m.transactions.lookup hash = some tx → tx.hash = hash
  gas : ∀ hash tx, m.transactions.lookup hash = some tx → 0 < tx.gasLimit ∧ m.config.minGasPrice ≤ tx.gasPrice

theorem books_empty {m : Mempool} (htxs : m.transactions = ∅) (hcounts : m.accountCounts = ∅)
    (hnonces : m.accountNonces = ∅) : Books m := by
  have hvalues : m.transactions.values = [] := by
    rw [htxs]
    rfl
  refine ⟨by rw [hcounts, hvalues]; exact .nil, by rw [hnonces, hvalues]; exact .nil, fun sender => ?_,
    fun sender => ?_, ?_, fun hash tx h => ?_, fun hash tx h => ?_⟩
  · simp [Mempool.pooledFrom, hvalues]
  · simp [Mempool.pooledFrom, hvalues]
  · simp [Mempool.len, hvalues]
  · rw [htxs] at h
    cases h
  · rw [htxs] at h
    cases h

/-! ### One transaction less -/

variable {m : Mempool} {tx : Transaction} {items : List Transaction}

theorem tally_decrementCount {counts : BTreeMap Address ℕ} (h : Tally Transaction.from List.length counts (tx :: items)) :
    Tally Transaction.from List.length (Mempool.decrementCount counts tx.from) items := by
  have hlookup : counts.lookup tx.from = some ((items.filter fun a => a.from = tx.from).length + 1) := by
    rw [h tx.from]
    simp
  unfold Mempool.decrementCount
  rw [hlookup]
  dsimp only
  rw [Nat.add_sub_cancel]
  split_ifs with hzero
  · exact h.erase (List.length_eq_zero_iff.mp hzero)
  · exact h.uncons rfl fun hnil => hzero (List.length_eq_zero_iff.mpr hnil)

theorem tally_removeNonce {nonces : BTreeMap Address (Finset UInt64)}
    (h : Tally Transaction.from nonceSet nonces (tx :: items))
    (hdistinct : (((tx :: items).filter fun a => a.from = tx.from).map Transaction.nonce).Nodup) :
    Tally Transaction.from nonceSet (Mempool.removeNonce nonces tx.from tx.nonce) items := by
  rw [List.filter_cons_of_pos (by simp), List.map_cons, List.nodup_cons] at hdistinct
  have hlookup : nonces.lookup tx.from = some (insert tx.nonce (nonceSet (items.filter fun a => a.from = tx.from))) := by
    rw [h tx.from]
    simp [nonceSet]
  have herase : (insert tx.nonce (nonceSet (items.filter fun a => a.from = tx.from))).erase tx.nonce =
      nonceSet (items.filter fun a => a.from = tx.from) :=
    Finset.erase_insert fun hmem => hdistinct.1 (List.mem_toFinset.mp hmem)
  unfold Mempool.removeNonce
  rw [hlookup]
  dsimp only
  rw [herase]
  split_ifs with hempty
  · refine h.erase ?_
    simpa [nonceSet] using hempty
  · refine h.uncons rfl fun hnil => hempty ?_
    rw [hnil]
    rfl

/-- A pool with fewer transactions under the same configuration. -/
structure Shrinks (m m' : Mempool) : Prop where
  config : m'.config = m.config
  values : m'.transactions.values.Subperm m.transactions.values

theorem Shrinks.refl (m : Mempool) : Shrinks m m := ⟨rfl, List.Subperm.refl _⟩

theorem Shrinks.trans {m m' m'' : Mempool} (h : Shrinks m m') (h' : Shrinks m' m'') : Shrinks m m'' :=
  ⟨h'.config.trans h.config, h'.values.trans h.values⟩

variable {hash : B256}

theorem values_remove (h : m.transactions.lookup hash = some tx) :
    m.transactions.values.Perm (tx :: (m.remove hash).2.transactions.values) := by
  simp only [Mempool.remove, h]
  exact AList.values_erase h

theorem remove_of_none (h : m.transactions.lookup hash = none) : m.remove hash = (none, m) := by
  simp only [Mempool.remove, h]

theorem lookup_remove {hash' : B256} {tx' : Transaction}
    (h : (m.remove hash).2.transactions.lookup hash' = some tx') : m.transactions.lookup hash' = some tx' := by
  cases hlookup : m.transactions.lookup hash with
  | none => rwa [remove_of_none hlookup] at h
  | some tx =>
    simp only [Mempool.remove, hlookup] at h
    have hne : hash' ≠ hash := by
      rintro rfl
      cases (AList.lookup_erase ..).symm.trans h
    exact (AList.lookup_erase_ne hne).symm.trans h

theorem shrinks_remove : Shrinks m (m.remove hash).2 := by
  cases hlookup : m.transactions.lookup hash with
  | none =>
    rw [remove_of_none hlookup]
    exact .refl m
  | some tx =>
    refine ⟨by simp only [Mempool.remove, hlookup]; rfl, ?_⟩
    exact (List.sublist_cons_self ..).subperm.trans (values_remove hlookup).symm.subperm

theorem Shrinks.pooledFrom {m' : Mempool} (h : Shrinks m m') (sender : Address) :
    (m'.pooledFrom sender).Subperm (m.pooledFrom sender) := h.values.filter _

theorem Books.remove (h : Books m) (hash : B256) : Books (m.remove hash).2 := by
  cases hlookup : m.transactions.lookup hash with
  | none =>
    rw [remove_of_none hlookup]
    exact h
  | some tx =>
    have hperm := values_remove hlookup
    have hshrinks : Shrinks m (m.remove hash).2 := shrinks_remove
    have hdistinct : (((tx :: (m.remove hash).2.transactions.values).filter fun a => a.from = tx.from).map
        Transaction.nonce).Nodup := ((hperm.filter _).map _).nodup_iff.mp (h.distinct tx.from)
    have hcounts : (m.remove hash).2.accountCounts = Mempool.decrementCount m.accountCounts tx.from := by
      simp only [Mempool.remove, hlookup]
      rfl
    have hnonces : (m.remove hash).2.accountNonces = Mempool.removeNonce m.accountNonces tx.from tx.nonce := by
      simp only [Mempool.remove, hlookup]
      rfl
    refine ⟨?_, ?_, fun sender => ?_, fun sender => ?_, ?_, fun hash' tx' h' => h.hash hash' tx' (lookup_remove h'),
      fun hash' tx' h' => ?_⟩
    · rw [hcounts]
      exact tally_decrementCount (h.counts.perm hperm fun _ _ => List.Perm.length_eq)
    · rw [hnonces]
      exact tally_removeNonce (h.nonces.perm hperm nonceSet_perm) hdistinct
    · obtain ⟨l, hl, hsub⟩ := hshrinks.pooledFrom sender
      exact (hl.map _).nodup_iff.mp ((hsub.map _).nodup (h.distinct sender))
    · rw [hshrinks.config]
      exact (hshrinks.pooledFrom sender).length_le.trans (h.perAccount sender)
    · rw [hshrinks.config]
      exact hshrinks.values.length_le.trans h.size
    · rw [hshrinks.config]
      exact h.gas hash' tx' (lookup_remove h')

/-! ### Making room -/

variable {order : IterOrder Candidate} {toEvict : UInt64} {candidates : List Candidate}

theorem shrinks_evict : Shrinks m (Mempool.evict candidates toEvict m) := by
  induction candidates generalizing toEvict m with
  | nil => exact .refl m
  | cons c candidates ih =>
    unfold Mempool.evict
    split_ifs
    · exact .refl m
    · exact shrinks_remove.trans ih

theorem Books.evict (h : Books m) : Books (Mempool.evict candidates toEvict m) := by
  induction candidates generalizing toEvict m with
  | nil => exact h
  | cons c candidates ih =>
    unfold Mempool.evict
    split_ifs
    · exact h
    · exact ih (h.remove c.1)

theorem shrinks_evictLowestGas : Shrinks m (Mempool.evictLowestGas order toEvict m) := by
  unfold Mempool.evictLowestGas
  split_ifs
  · exact .refl m
  · exact shrinks_evict

theorem Books.evictLowestGas (h : Books m) : Books (Mempool.evictLowestGas order toEvict m) := by
  unfold Mempool.evictLowestGas
  split_ifs
  · exact h
  · exact h.evict

theorem evict_of_not_full (h : m.isFull = false) :
    Mempool.evict candidates toEvict m = m := by
  cases candidates with
  | nil => rfl
  | cons c candidates =>
    unfold Mempool.evict
    rw [if_pos (.inl (by simp [h]))]

/-- The pool has one transaction less, so it has room. -/
theorem not_full_remove (h : Books m) (hlookup : m.transactions.lookup hash = some tx) :
    (m.remove hash).2.isFull = false := by
  have hlength := (values_remove hlookup).length_eq
  have hsize := h.size
  rw [Mempool.isFull, decide_eq_false_iff_not, shrinks_remove.config]
  simp only [Mempool.len] at hsize ⊢
  rw [List.length_cons] at hlength
  omega

theorem Candidate.le_total (a b : Candidate) : (Candidate.le a b || Candidate.le b a) = true := by
  unfold Candidate.le
  grind

theorem Candidate.le_trans (a b c : Candidate) (hab : Candidate.le a b = true) (hbc : Candidate.le b c = true) :
    Candidate.le a c = true := by
  unfold Candidate.le at *
  grind

def Transaction.candidate (tx : Transaction) : Candidate := (tx.hash, tx.gasPrice, tx.nonce)

/-- One transaction is evicted from a full pool, and no candidate comes before it. -/
theorem evictLowestGas_full (order : IterOrder Candidate) (h : Books m) (hfull : m.isFull = true) (hvalues : m.transactions.values ≠ [])
    (hevict : toEvict ≠ 0) : ∃ tx ∈ m.transactions.values,
      (∀ a ∈ m.transactions.values, Candidate.le tx.candidate a.candidate = true) ∧
      Mempool.evictLowestGas order toEvict m = (m.remove tx.hash).2 ∧
      m.transactions.lookup tx.hash = some tx := by
  unfold Mempool.evictLowestGas
  rw [if_neg (by simp [hvalues, hevict])]
  dsimp only
  have hmem : ∀ c, c ∈ (order.order (m.transactions.values.map Transaction.candidate)).mergeSort Candidate.le ↔
      c ∈ m.transactions.values.map Transaction.candidate := by
    intro c
    rw [List.mem_mergeSort, IterOrder.mem_order]
  have hsorted := List.pairwise_mergeSort Candidate.le_trans Candidate.le_total
    (order.order (m.transactions.values.map Transaction.candidate))
  show ∃ tx ∈ m.transactions.values, _ ∧ Mempool.evict
    ((order.order (m.transactions.values.map Transaction.candidate)).mergeSort Candidate.le) toEvict m = _ ∧ _
  generalize (order.order (m.transactions.values.map Transaction.candidate)).mergeSort Candidate.le = sorted at *
  cases sorted with
  | nil =>
    obtain ⟨tx, values, hcons⟩ := List.exists_cons_of_ne_nil hvalues
    cases (hmem tx.candidate).mpr (List.mem_map_of_mem (by rw [hcons]; exact List.mem_cons_self))
  | cons c candidates =>
    obtain ⟨tx, htx, rfl⟩ := List.mem_map.mp ((hmem c).mp List.mem_cons_self)
    obtain ⟨hash, hlookup⟩ := AList.mem_values.mp htx
    obtain rfl := h.hash hash tx hlookup
    refine ⟨tx, htx, fun a ha => ?_, ?_, hlookup⟩
    · rcases List.mem_cons.mp ((hmem a.candidate).mpr (List.mem_map_of_mem ha)) with heq | htail
      · rw [heq]
        exact (Bool.or_self _).symm.trans (Candidate.le_total tx.candidate tx.candidate)
      · exact (List.pairwise_cons.mp hsorted).1 a.candidate htail
    · show Mempool.evict ((tx.hash, tx.gasPrice, tx.nonce) :: candidates) toEvict m = _
      unfold Mempool.evict
      rw [if_neg (by simp [hfull, hevict])]
      exact evict_of_not_full (not_full_remove h hlookup)

/-- A pool that is not empty has room after an eviction: one transaction is enough. -/
theorem not_full_evictLowestGas (order : IterOrder Candidate) (h : Books m)
    (hvalues : m.transactions.values ≠ []) (hevict : toEvict ≠ 0) :
    (Mempool.evictLowestGas order toEvict m).isFull = false := by
  cases hfull : m.isFull with
  | true =>
    obtain ⟨tx, -, -, hremoved, hlookup⟩ := evictLowestGas_full order h hfull hvalues hevict
    rw [hremoved]
    exact not_full_remove h hlookup
  | false =>
    unfold Mempool.evictLowestGas
    rw [if_neg (by simp [hvalues, hevict])]
    dsimp only
    rw [evict_of_not_full hfull, hfull]

/-! ### One transaction more -/

/-- What `validate_candidate` finds out. -/
structure Admissible (m : Mempool) (tx : Transaction) : Prop where
  fresh : ∀ tx' ∈ m.transactions.values, tx'.hash ≠ tx.hash
  gas : 0 < tx.gasLimit ∧ m.config.minGasPrice ≤ tx.gasPrice
  nonce : tx.nonce ∉ (m.pooledFrom tx.from).map Transaction.nonce
  room : (m.pooledFrom tx.from).length < m.config.maxPerAccount.toNat

theorem Books.admissible (h : Books m) (hvalid : m.validateCandidate tx = .ok ()) : Admissible m tx := by
  unfold Mempool.validateCandidate at hvalid
  split_ifs at hvalid with hhash hgas hnonce hcount
  refine ⟨fun tx' htx' heq => ?_, ?_, fun hmem => hnonce ?_, ?_⟩
  · obtain ⟨hash, hlookup⟩ := AList.mem_values.mp htx'
    rw [← heq, h.hash hash tx' hlookup] at hhash
    exact hhash (mem_iff_exists_lookup.mpr ⟨_, hlookup⟩)
  · obtain ⟨hlimit, hprice⟩ := not_or.mp hgas
    exact ⟨UInt64.pos_iff_ne_zero.mpr hlimit, UInt64.not_lt.mp hprice⟩
  · have hne : m.pooledFrom tx.from ≠ [] := by
      intro hnil
      rw [hnil] at hmem
      cases hmem
    have hlookup : m.accountNonces.lookup tx.from = some (nonceSet (m.pooledFrom tx.from)) :=
      (h.nonces tx.from).trans (if_neg hne)
    rw [hlookup, Option.any_some, decide_eq_true_eq]
    exact List.mem_toFinset.mpr hmem
  · have hlength : (m.accountCounts.lookup tx.from).getD 0 = (m.pooledFrom tx.from).length := by
      rw [h.counts tx.from, Mempool.pooledFrom]
      split_ifs with hnil
      · rw [hnil]
        rfl
      · rfl
    exact hlength ▸ Nat.not_le.mp hcount

theorem Admissible.shrinks {m' : Mempool} (h : Admissible m tx) (hshrinks : Shrinks m m') : Admissible m' tx := by
  refine ⟨fun tx' htx' => h.fresh tx' (hshrinks.values.subset htx'), ?_, fun hmem => h.nonce ?_, ?_⟩
  · rw [hshrinks.config]
    exact h.gas
  · exact List.map_subset _ (hshrinks.pooledFrom tx.from).subset hmem
  · rw [hshrinks.config]
    exact (hshrinks.pooledFrom tx.from).length_le.trans_lt h.room

theorem Books.add (h : Books m) (htx : Admissible m tx) (hroom : m.isFull = false) : Books (m.add tx) := by
  have hnotMem : tx.hash ∉ m.transactions := by
    intro hmem
    obtain ⟨tx', hlookup⟩ := mem_iff_exists_lookup.mp hmem
    exact htx.fresh tx' (AList.mem_values.mpr ⟨tx.hash, hlookup⟩) (h.hash _ _ hlookup)
  have hvalues : (m.add tx).transactions.values = tx :: m.transactions.values := AList.values_insert hnotMem
  have hlen : m.len < m.config.maxSize.toNat := by simpa [Mempool.isFull] using hroom
  have hpooled : ∀ sender, (m.add tx).pooledFrom sender =
      if tx.from = sender then tx :: m.pooledFrom sender else m.pooledFrom sender := by
    intro sender
    rw [Mempool.pooledFrom, hvalues, List.filter_cons]
    simp [Mempool.pooledFrom]
  have hlookup : ∀ hash tx', (m.add tx).transactions.lookup hash = some tx' →
      (hash = tx.hash ∧ tx' = tx) ∨ m.transactions.lookup hash = some tx' := by
    intro hash tx' h'
    by_cases hhash : hash = tx.hash
    · subst hhash
      exact .inl ⟨rfl, Option.some_inj.mp (h'.symm.trans (AList.lookup_insert ..))⟩
    · exact .inr ((AList.lookup_insert_ne hhash).symm.trans h')
  refine ⟨?_, ?_, fun sender => ?_, fun sender => ?_, ?_, fun hash tx' h' => ?_, fun hash tx' h' => ?_⟩
  · rw [hvalues]
    refine h.counts.cons ?_
    rw [h.counts tx.from]
    split_ifs with hnil
    · simp [hnil]
    · simp
  · rw [hvalues]
    refine h.nonces.cons ?_
    rw [h.nonces tx.from]
    split_ifs with hnil
    · simp [hnil, nonceSet]
    · simp [nonceSet]
  · rw [hpooled]
    split_ifs with hsender
    · subst hsender
      exact List.nodup_cons.mpr ⟨htx.nonce, h.distinct tx.from⟩
    · exact h.distinct sender
  · rw [hpooled]
    split_ifs with hsender
    · subst hsender
      exact htx.room
    · exact h.perAccount sender
  · rw [Mempool.len, hvalues]
    exact hlen
  · rcases hlookup hash tx' h' with ⟨rfl, rfl⟩ | hold
    · rfl
    · exact h.hash hash tx' hold
  · rcases hlookup hash tx' h' with ⟨rfl, rfl⟩ | hold
    · exact htx.gas
    · exact h.gas hash tx' hold

/-- An insertion fails and leaves the pool, or succeeds and keeps the books. -/
theorem Books.insert (h : Books m) (tx : Transaction) (order : IterOrder Candidate) :
    (∃ err, m.insert tx order = (.error err, m)) ∨ ((m.insert tx order).1 = .ok () ∧ Books (m.insert tx order).2) := by
  unfold Mempool.insert
  cases hvalid : m.validateCandidate tx with
  | error err => exact .inl ⟨err, rfl⟩
  | ok =>
    have hadm := h.admissible hvalid
    dsimp only
    split_ifs with hrefuse hfull hstill
    · exact .inl ⟨_, rfl⟩
    · -- still full: there was nothing to evict
      have hevict : m.suggestedEvictionCount ≠ 0 := fun hzero => hrefuse ⟨hfull, hzero⟩
      have hvalues : m.transactions.values = [] := by
        by_contra hne
        rw [not_full_evictLowestGas order h hne hevict] at hstill
        cases hstill
      have hsame : Mempool.evictLowestGas order m.suggestedEvictionCount m = m := if_pos (.inr hvalues)
      rw [hsame]
      exact .inl ⟨_, rfl⟩
    · exact .inr ⟨rfl, h.evictLowestGas.add (hadm.shrinks shrinks_evictLowestGas) (by simpa using hstill)⟩
    · exact .inr ⟨rfl, h.add hadm (by simpa using hfull)⟩

theorem config_insert : (m.insert tx order).2.config = m.config := by
  have hevicted : (if m.isFull then Mempool.evictLowestGas order m.suggestedEvictionCount m else m).config =
      m.config := by
    split_ifs
    · exact shrinks_evictLowestGas.config
    · rfl
  unfold Mempool.insert
  split
  · rfl
  · dsimp only
    generalize (if m.isFull then Mempool.evictLowestGas order m.suggestedEvictionCount m else m) = evicted at hevicted ⊢
    split_ifs
    · rfl
    · exact hevicted
    · exact hevicted

/-! ### Runs -/

/-- A submission is an insertion: the candidate is checked twice. -/
theorem submit_eq (p : IngressPipeline) (tx : Transaction) (order : IterOrder Candidate) :
    p.submit tx order = ((p.mempool.insert tx order).1, ⟨(p.mempool.insert tx order).2⟩) := by
  unfold IngressPipeline.submit IngressPipeline.validateTransaction
  cases hvalid : p.mempool.validateCandidate tx with
  | error err => simp [Mempool.insert, hvalid]
  | ok => rfl

theorem books_removeAll {hashes : List B256} (h : Books m) : Books (IngressPipeline.removeAll hashes m).2 := by
  induction hashes generalizing m with
  | nil => exact h
  | cons hash hashes ih => exact ih (h.remove hash)

theorem config_removeAll {hashes : List B256} : (IngressPipeline.removeAll hashes m).2.config = m.config := by
  induction hashes generalizing m with
  | nil => rfl
  | cons hash hashes ih => exact ih.trans shrinks_remove.config

/-- What can be done to a pool, by itself or in a pipeline. -/
inductive Call where
  | insert (tx : Transaction) (order : IterOrder Candidate)
  | remove (hash : B256)
  | clear
  | submit (tx : Transaction) (order : IterOrder Candidate)
  | drainBatch (maxCount : ℕ)

def Mempool.call (m : Mempool) : Call → Mempool
  | .insert tx order => (m.insert tx order).2
  | .remove hash => (m.remove hash).2
  | .clear => m.clear
  | .submit tx order => ((IngressPipeline.mk m).submit tx order).2.mempool
  | .drainBatch maxCount => ((IngressPipeline.mk m).drainBatch maxCount).2.mempool

theorem Books.insert_snd (h : Books m) (tx : Transaction) (order : IterOrder Candidate) :
    Books (m.insert tx order).2 := by
  rcases h.insert tx order with ⟨err, heq⟩ | ⟨-, hbooks⟩
  · rwa [heq]
  · exact hbooks

theorem Books.call (h : Books m) (c : Call) : Books (m.call c) := by
  cases c with
  | insert tx order => exact h.insert_snd tx order
  | remove hash => exact h.remove hash
  | clear => exact books_empty rfl rfl rfl
  | submit tx order =>
    rw [Mempool.call, submit_eq]
    exact h.insert_snd tx order
  | drainBatch maxCount => exact books_removeAll h

theorem config_call (c : Call) : (m.call c).config = m.config := by
  cases c with
  | insert tx order => exact config_insert
  | remove hash => exact shrinks_remove.config
  | clear => rfl
  | submit tx order =>
    rw [Mempool.call, submit_eq]
    exact config_insert
  | drainBatch maxCount => exact config_removeAll

theorem books_run (h : Books m) (calls : List Call) :
    Books (calls.foldl Mempool.call m) ∧ (calls.foldl Mempool.call m).config = m.config := by
  induction calls generalizing m with
  | nil => exact ⟨h, rfl⟩
  | cons c calls ih =>
    obtain ⟨hbooks, hconfig⟩ := ih (h.call c)
    exact ⟨hbooks, hconfig.trans (config_call c)⟩

theorem Books.insert_error (h : Books m) {err : IngressError} (herr : (m.insert tx order).1 = .error err) :
    (m.insert tx order).2 = m := by
  rcases h.insert tx order with ⟨err', heq⟩ | ⟨hok, -⟩
  · rw [heq]
  · cases hok.symm.trans herr

/-- The books of the pool after any calls, and a refusal changes nothing. -/
theorem mempool_books (config : MempoolConfig) (calls : List Call) :
    Books (calls.foldl Mempool.call (.new config)) ∧ (calls.foldl Mempool.call (.new config)).config = config ∧
    ∀ tx order err,
      (((calls.foldl Mempool.call (.new config)).insert tx order).1 = .error err →
        ((calls.foldl Mempool.call (.new config)).insert tx order).2 = calls.foldl Mempool.call (.new config)) ∧
      (((IngressPipeline.mk (calls.foldl Mempool.call (.new config))).submit tx order).1 = .error err →
        ((IngressPipeline.mk (calls.foldl Mempool.call (.new config))).submit tx order).2 =
          ⟨calls.foldl Mempool.call (.new config)⟩) := by
  obtain ⟨hbooks, hconfig⟩ := books_run (books_empty rfl rfl rfl : Books (.new config)) calls
  refine ⟨hbooks, hconfig, fun tx order err => ⟨hbooks.insert_error, fun herr => ?_⟩⟩
  rw [submit_eq] at herr ⊢
  exact congrArg IngressPipeline.mk (hbooks.insert_error herr)

end Ingress

end Eth2077
