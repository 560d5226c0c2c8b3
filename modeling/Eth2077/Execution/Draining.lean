import Eth2077.Execution.Ingress

/-!
# What is drained and what is evicted

`drain_batch` takes a front piece of the pool, sorted by price, nonce and hash; as no two pooled transactions share a
hash, there is one way to sort them. The order is by price across the senders, so a sender who prices a later nonce
above an earlier one has them drained the wrong way round. An insertion into a full pool evicts one transaction, the
cheapest, without a look at the price of the new one.
-/

namespace Eth2077
namespace Ingress

/-! ### The order of the pool -/

/-- Dearer, or as dear with the smaller nonce, or that also the same and the smaller hash. -/
def Transaction.Before (a b : Transaction) : Prop :=
  b.gasPrice < a.gasPrice ∨ (a.gasPrice = b.gasPrice ∧
    (a.nonce < b.nonce ∨ (a.nonce = b.nonce ∧ a.hash.toList < b.hash.toList)))

namespace Transaction
variable {a b c : Transaction}

theorem le_total (a b : Transaction) : (a.le b || b.le a) = true := by
  unfold le
  grind

theorem le_trans (a b c : Transaction) (hab : a.le b = true) (hbc : b.le c = true) : a.le c = true := by
  unfold le at *
  grind

theorem hash_eq_of_le (hab : a.le b = true) (hba : b.le a = true) : a.hash = b.hash := by
  refine List.Vector.toList_injective ?_
  unfold le at hab hba
  grind

theorem before_of_le (hab : a.le b = true) (hne : a.hash ≠ b.hash) : a.Before b := by
  have hne' : a.hash.toList ≠ b.hash.toList := fun h => hne (List.Vector.toList_injective h)
  unfold le at hab
  unfold Before
  grind

end Transaction

/-! ### Draining -/

variable {m : Mempool} {k : ℕ} {a b : Transaction}

/-- The pool from the best transaction to the worst. -/
def Mempool.ranked (m : Mempool) : List Transaction := m.transactions.values.mergeSort Transaction.le

theorem ranked_perm (m : Mempool) : m.ranked.Perm m.transactions.values := List.mergeSort_perm _ _

theorem ranked_le (m : Mempool) : m.ranked.Pairwise fun a b => a.le b = true :=
  List.pairwise_mergeSort Transaction.le_trans Transaction.le_total _

theorem Books.lookup (h : Books m) (ha : a ∈ m.transactions.values) : m.transactions.lookup a.hash = some a := by
  obtain ⟨hash, hlookup⟩ := AList.mem_values.mp ha
  rw [h.hash hash a hlookup]
  exact hlookup

theorem Books.eq_of_hash (h : Books m) (ha : a ∈ m.transactions.values) (hb : b ∈ m.transactions.values)
    (hab : a.hash = b.hash) : a = b :=
  Option.some_inj.mp ((h.lookup ha).symm.trans (hab ▸ h.lookup hb))

theorem Books.hashes_nodup (h : Books m) : (m.transactions.values.map Transaction.hash).Nodup := by
  have hkeys : m.transactions.values.map Transaction.hash = m.transactions.keys := by
    unfold AList.values
    rw [List.map_map]
    refine List.map_congr_left fun e he => ?_
    exact h.hash e.1 e.2 (AList.mem_lookup_iff.mpr he)
  rw [hkeys]
  exact m.transactions.nodupKeys

/-- Removing pooled transactions one by one yields them and leaves the others. -/
theorem removeAll_pooled {txs rest : List Transaction} (h : Books m) (hperm : m.transactions.values.Perm (txs ++ rest)) :
    (IngressPipeline.removeAll (txs.map Transaction.hash) m).1 = txs ∧
    (IngressPipeline.removeAll (txs.map Transaction.hash) m).2.transactions.values.Perm rest := by
  induction txs generalizing m with
  | nil => exact ⟨rfl, hperm⟩
  | cons tx txs ih =>
    have hlookup := h.lookup (hperm.mem_iff.mpr (List.mem_append_left rest List.mem_cons_self))
    have hrest : (m.remove tx.hash).2.transactions.values.Perm (txs ++ rest) :=
      List.Perm.cons_inv ((values_remove hlookup).symm.trans hperm)
    obtain ⟨htxs, hleft⟩ := ih (h.remove tx.hash) hrest
    have hfst : (m.remove tx.hash).1 = some tx := by simp only [Mempool.remove, hlookup]
    refine ⟨?_, hleft⟩
    show (m.remove tx.hash).1.toList ++
      (IngressPipeline.removeAll (txs.map Transaction.hash) (m.remove tx.hash).2).1 = tx :: txs
    rw [hfst, htxs]
    rfl

/-- A drain cuts the ranked pool in two. -/
theorem drainBatch_ranked (h : Books m) (k : ℕ) :
    ((IngressPipeline.mk m).drainBatch k).1 = m.ranked.take k ∧
    ((IngressPipeline.mk m).drainBatch k).2.mempool.ranked = m.ranked.drop k := by
  have hperm : m.transactions.values.Perm (m.ranked.take k ++ m.ranked.drop k) := by
    rw [List.take_append_drop]
    exact (ranked_perm m).symm
  obtain ⟨htxs, hleft⟩ := removeAll_pooled h hperm
  refine ⟨htxs, ?_⟩
  -- both are sorted, and the order tells pooled transactions apart
  refine List.Perm.eq_of_pairwise (fun a b ha hb hab hba => ?_) (ranked_le _)
    ((ranked_le m).sublist (List.drop_sublist k _)) ((ranked_perm _).trans hleft)
  have ha' : a ∈ m.ranked.drop k := hleft.mem_iff.mp ((ranked_perm _).mem_iff.mp ha)
  have hmem : ∀ c ∈ m.ranked.drop k, c ∈ m.transactions.values := fun c hc =>
    (ranked_perm m).mem_iff.mp (List.mem_of_mem_drop hc)
  exact h.eq_of_hash (hmem a ha') (hmem b hb) (Transaction.hash_eq_of_le hab hba)

theorem Books.ranked_before (h : Books m) : m.ranked.Pairwise Transaction.Before := by
  have hne : m.ranked.Pairwise fun a b => a.hash ≠ b.hash :=
    List.pairwise_map.mp (((ranked_perm m).map Transaction.hash).nodup_iff.mpr h.hashes_nodup)
  exact (ranked_le m).imp₂ (fun _ _ => Transaction.before_of_le) hne

theorem Books.drainBatch (h : Books m) (k : ℕ) : Books ((IngressPipeline.mk m).drainBatch k).2.mempool :=
  h.call (.drainBatch k)

/-- A drained batch is the best of the pool, in order; with what is left it makes up the former pool; and two batches
are one. -/
theorem drain_takes_best (config : MempoolConfig) (calls : List Call) :
    let m := calls.foldl Mempool.call (.new config)
    let drain (m : Mempool) (k : ℕ) := (IngressPipeline.mk m).drainBatch k
    ∀ k,
      ((drain m k).1.length = min k m.len ∧ (drain m k).1.Pairwise Transaction.Before ∧
        ∀ a ∈ (drain m k).1, ∀ b ∈ (drain m k).2.mempool.transactions.values, a.Before b) ∧
      (((drain m k).1 ++ (drain m k).2.mempool.transactions.values).Perm m.transactions.values ∧
        ((drain m k).1 ++ (drain m k).2.mempool.transactions.values).Nodup) ∧
      ∀ k', (drain m k).1 ++ (drain (drain m k).2.mempool k').1 = (drain m (k + k')).1 := by
  intro m drain k
  have hbooks : Books m := (books_run (books_empty rfl rfl rfl) calls).1
  have hleft := ranked_perm (drain m k).2.mempool
  obtain ⟨htxs, hrest⟩ := drainBatch_ranked hbooks k
  have hsplit := hbooks.ranked_before
  rw [← List.take_append_drop k m.ranked, List.pairwise_append] at hsplit
  have hperm : ((drain m k).1 ++ (drain m k).2.mempool.transactions.values).Perm m.transactions.values := by
    refine (hleft.symm.append_left _).trans ?_
    show (((IngressPipeline.mk m).drainBatch k).1 ++ ((IngressPipeline.mk m).drainBatch k).2.mempool.ranked).Perm _
    rw [htxs, hrest, List.take_append_drop]
    exact ranked_perm m
  refine ⟨⟨?_, ?_, fun a ha b hb => ?_⟩, ⟨hperm, ?_⟩, fun k' => ?_⟩
  · show ((IngressPipeline.mk m).drainBatch k).1.length = _
    rw [htxs, List.length_take, (ranked_perm m).length_eq]
    rfl
  · show ((IngressPipeline.mk m).drainBatch k).1.Pairwise _
    rw [htxs]
    exact hsplit.1
  · refine hsplit.2.2 a (htxs ▸ ha) b ?_
    rw [← hrest]
    exact hleft.mem_iff.mpr hb
  · exact hperm.nodup_iff.mpr (List.Nodup.of_map _ hbooks.hashes_nodup)
  · show ((IngressPipeline.mk m).drainBatch k).1 ++ _ = ((IngressPipeline.mk m).drainBatch (k + k')).1
    rw [(drainBatch_ranked hbooks (k + k')).1, List.take_add, htxs]
    show _ ++ ((IngressPipeline.mk (drain m k).2.mempool).drainBatch k').1 = _
    rw [(drainBatch_ranked (hbooks.drainBatch k) k').1]
    exact congrArg _ (congrArg (List.take k') hrest)

/-! ### The nonces of one sender -/

variable {sender : Address} {txs left : List Transaction}

/-- The sender's transactions come by nonce, and none is ahead of one that is left. -/
structure NonceOrder (sender : Address) (txs left : List Transaction) : Prop where
  drained : (txs.filter fun tx => tx.from = sender).Pairwise fun a b => a.nonce < b.nonce
  left : ∀ a ∈ txs, ∀ b ∈ left, a.from = sender → b.from = sender → ¬ b.nonce < a.nonce

/-- The sender has priced none of `txs` above one of `pool` with a smaller nonce. -/
def PricedByNonce (sender : Address) (txs pool : List Transaction) : Prop :=
  ∀ b ∈ txs, ∀ a ∈ pool, a.from = sender → b.from = sender → a.nonce < b.nonce → b.gasPrice ≤ a.gasPrice

theorem Transaction.Before.price_le (h : a.Before b) : b.gasPrice ≤ a.gasPrice := by
  unfold Transaction.Before at h
  grind

/-- A transaction comes before one with a smaller nonce only if it is dearer. -/
theorem Transaction.Before.not_nonce_lt (h : a.Before b) (hprice : b.nonce < a.nonce → a.gasPrice ≤ b.gasPrice) :
    ¬ b.nonce < a.nonce := by
  intro hlt
  have := hprice hlt
  unfold Transaction.Before at h
  grind

theorem nonceOrder_iff (hranked : (txs ++ left).Pairwise Transaction.Before)
    (hdistinct : (((txs ++ left).filter fun tx => tx.from = sender).map Transaction.nonce).Nodup) :
    NonceOrder sender txs left ↔ PricedByNonce sender txs (txs ++ left) := by
  have hdrained := (List.pairwise_append.mp hranked).1
  have hleft := (List.pairwise_append.mp hranked).2.2
  constructor
  · intro h b hb a ha hfrom hfrom' hlt
    rcases List.mem_append.mp ha with ha | ha
    · -- both were drained, whichever comes first
      have hmem : ∀ {x}, x ∈ txs → x.from = sender → x ∈ txs.filter fun tx => tx.from = sender := fun hx hs =>
        List.mem_filter.mpr ⟨hx, by simpa using hs⟩
      have hfirst : (txs.filter fun tx => tx.from = sender).Pairwise fun x y =>
          x.nonce < y.nonce → y.gasPrice ≤ x.gasPrice := (hdrained.filter _).imp fun hxy _ => hxy.price_le
      have hsecond : (txs.filter fun tx => tx.from = sender).Pairwise fun x y =>
          y.nonce < x.nonce → x.gasPrice ≤ y.gasPrice :=
        h.drained.imp fun hxy hyx => absurd hxy (UInt64.lt_asymm hyx)
      exact hfirst.forall_of_forall_of_flip (fun x _ _ => UInt64.le_refl _) hsecond (hmem ha hfrom) (hmem hb hfrom') hlt
    · exact absurd hlt (h.left b hb a ha hfrom' hfrom)
  · intro h
    refine ⟨?_, fun a ha b hb hfrom hfrom' => ?_⟩
    · have hne : (txs.filter fun tx => tx.from = sender).Pairwise fun a b => a.nonce ≠ b.nonce := by
        rw [List.filter_append, List.map_append] at hdistinct
        exact List.pairwise_map.mp (List.nodup_append.mp hdistinct).1
      have hmem := fun x (hx : x ∈ txs.filter fun tx => tx.from = sender) => List.mem_filter.mp hx
      refine ((hdrained.filter _).and hne).imp_of_mem fun {a b} ha hb hab => ?_
      have hle := UInt64.not_lt.mp (hab.1.not_nonce_lt fun hlt => h a (hmem a ha).1 b
        (List.mem_append_left _ (hmem b hb).1) (by simpa using (hmem b hb).2) (by simpa using (hmem a ha).2) hlt)
      exact UInt64.lt_of_le_of_ne hle hab.2
    · exact (hleft a ha b hb).not_nonce_lt fun hlt => h a ha b (List.mem_append_right _ hb) hfrom' hfrom hlt

theorem nonceOrder_perm {left' : List Transaction} (h : left.Perm left') :
    NonceOrder sender txs left ↔ NonceOrder sender txs left' :=
  ⟨fun ho => ⟨ho.drained, fun a ha b hb => ho.left a ha b (h.mem_iff.mpr hb)⟩,
    fun ho => ⟨ho.drained, fun a ha b hb => ho.left a ha b (h.mem_iff.mp hb)⟩⟩

theorem Books.nonceOrder_iff (h : Books m) (sender : Address) (k : ℕ) :
    NonceOrder sender ((IngressPipeline.mk m).drainBatch k).1
        ((IngressPipeline.mk m).drainBatch k).2.mempool.transactions.values ↔
      PricedByNonce sender ((IngressPipeline.mk m).drainBatch k).1 m.transactions.values := by
  obtain ⟨htxs, hrest⟩ := drainBatch_ranked h k
  have hdistinct : ((m.ranked.filter fun tx => tx.from = sender).map Transaction.nonce).Nodup :=
    (((ranked_perm m).filter _).map _).nodup_iff.mpr (h.distinct sender)
  rw [nonceOrder_perm (ranked_perm _).symm, htxs, hrest,
    Ingress.nonceOrder_iff (by rw [List.take_append_drop]; exact h.ranked_before)
      (by rw [List.take_append_drop]; exact hdistinct), List.take_append_drop]
  unfold PricedByNonce
  simp only [(ranked_perm m).mem_iff]

/-- The transactions of a sender are drained in the order of their nonces if and only if none of those drained is
priced above one with a smaller nonce; for batches of every size, if none that is pooled is. -/
theorem drain_nonce_order (config : MempoolConfig) (calls : List Call) (sender : Address) :
    let m := calls.foldl Mempool.call (.new config)
    let drain (k : ℕ) := (IngressPipeline.mk m).drainBatch k
    (∀ k, NonceOrder sender (drain k).1 (drain k).2.mempool.transactions.values ↔
      PricedByNonce sender (drain k).1 m.transactions.values) ∧
    ((∀ k, NonceOrder sender (drain k).1 (drain k).2.mempool.transactions.values) ↔
      PricedByNonce sender m.transactions.values m.transactions.values) := by
  intro m drain
  have hbooks : Books m := (books_run (books_empty rfl rfl rfl) calls).1
  have hiff := hbooks.nonceOrder_iff sender
  refine ⟨hiff, fun h b hb => ?_, fun h k => (hiff k).mpr fun b hb => h b ?_⟩
  · refine (hiff m.ranked.length).mp (h m.ranked.length) b ?_
    rw [(drainBatch_ranked hbooks _).1, List.take_length]
    exact (ranked_perm m).mem_iff.mpr hb
  · rw [(drainBatch_ranked hbooks k).1] at hb
    exact (ranked_perm m).mem_iff.mp (List.mem_of_mem_take hb)

/-- A transaction of a given hash, sender, nonce and price. -/
def plainTx (hash sender : UInt8) (nonce gasPrice : UInt64) : Transaction :=
  ⟨.repeatByte hash, .repeatByte sender, .repeatByte 9, nonce, 21000, gasPrice, 0, .default⟩

/-- Two transactions of one sender, the second dearer. -/
def repriced : Mempool :=
  [.insert (plainTx 1 1 0 1) .stored, .insert (plainTx 2 1 1 2) .stored].foldl Mempool.call (.new ⟨10, 10, 0, 10⟩)

theorem repriced_ranked : repriced.ranked = [plainTx 2 1 1 2, plainTx 1 1 0 1] := by
  show [plainTx 2 1 1 2, plainTx 1 1 0 1].mergeSort Transaction.le = _
  exact List.mergeSort_of_pairwise (by decide)

/-- The second is drained while the first stays. -/
theorem later_nonce_drained_first :
    ((IngressPipeline.mk repriced).drainBatch 1).1 = [plainTx 2 1 1 2] ∧
    ¬ NonceOrder (.repeatByte 1) ((IngressPipeline.mk repriced).drainBatch 1).1
      ((IngressPipeline.mk repriced).drainBatch 1).2.mempool.transactions.values ∧
    ¬ NonceOrder (.repeatByte 1) ((IngressPipeline.mk repriced).drainBatch 2).1
      ((IngressPipeline.mk repriced).drainBatch 2).2.mempool.transactions.values := by
  have hbooks : Books repriced := (books_run (books_empty rfl rfl rfl) _).1
  obtain ⟨hone, hrest⟩ := drainBatch_ranked hbooks 1
  have htwo := (drainBatch_ranked hbooks 2).1
  rw [repriced_ranked] at hone hrest htwo
  refine ⟨hone, fun h => ?_, fun h => ?_⟩
  · refine h.left (plainTx 2 1 1 2) ?_ (plainTx 1 1 0 1) ?_ rfl rfl (by decide)
    · rw [hone]
      exact List.mem_singleton_self _
    · refine (ranked_perm _).mem_iff.mp ?_
      rw [hrest]
      exact List.mem_singleton_self _
  · have := h.drained
    rw [htwo] at this
    exact absurd this (by decide)

/-! ### Making room -/

variable {order : IterOrder Candidate} {tx : Transaction}

/-- An insertion into a full pool takes out one transaction, and none is cheaper, nor as cheap with a later nonce. -/
theorem insert_full (h : Books m) (hfull : m.isFull = true) (hok : (m.insert tx order).1 = .ok ()) :
    ∃ victim ∈ m.transactions.values,
      (∀ a ∈ m.transactions.values, Candidate.le victim.candidate a.candidate = true) ∧
      m.transactions.values.Perm (victim :: (m.remove victim.hash).2.transactions.values) ∧
      (m.insert tx order).2.transactions.values = tx :: (m.remove victim.hash).2.transactions.values := by
  unfold Mempool.insert at hok ⊢
  cases hvalid : m.validateCandidate tx with
  | error err =>
    rw [hvalid] at hok
    cases hok
  | ok =>
    have hadm := h.admissible hvalid
    simp only [hvalid, hfull, true_and, if_true] at hok ⊢
    split_ifs at hok ⊢ with hrefuse hstill
    have hvalues : m.transactions.values ≠ [] := by
      intro hnil
      have hsame : Mempool.evictLowestGas order m.suggestedEvictionCount m = m := if_pos (.inr hnil)
      rw [hsame] at hstill
      exact hstill hfull
    obtain ⟨victim, hvictim, hcheapest, hevicted, hlookup⟩ :=
      evictLowestGas_full order h hfull hvalues hrefuse
    refine ⟨victim, hvictim, hcheapest, values_remove hlookup, ?_⟩
    rw [hevicted]
    refine AList.values_insert fun hmem => ?_
    -- no pooled transaction has the new hash
    obtain ⟨tx', htx'⟩ := mem_iff_exists_lookup.mp hmem
    have hold := lookup_remove htx'
    exact hadm.fresh tx' (AList.mem_values.mpr ⟨tx.hash, hold⟩) (h.hash _ _ hold)

/-- An insertion into a full pool evicts one transaction, which no other in the pool is cheaper than; so it is not
dearer than the new one if and only if some pooled transaction is not. -/
theorem insert_evicts_cheapest (config : MempoolConfig) (calls : List Call) (tx : Transaction)
    (order : IterOrder Candidate) :
    let m := calls.foldl Mempool.call (.new config)
    m.isFull = true → (m.insert tx order).1 = .ok () →
    ∃ victim kept, m.transactions.values.Perm (victim :: kept) ∧
      (m.insert tx order).2.transactions.values.Perm (tx :: kept) ∧
      (∀ a ∈ kept, victim.gasPrice ≤ a.gasPrice) ∧
      (victim.gasPrice ≤ tx.gasPrice ↔ ∃ a ∈ m.transactions.values, a.gasPrice ≤ tx.gasPrice) := by
  intro m hfull hok
  have hbooks : Books m := (books_run (books_empty rfl rfl rfl) calls).1
  obtain ⟨victim, hvictim, hcheapest, hformer, hnow⟩ := insert_full hbooks hfull hok
  have hprice : ∀ a ∈ m.transactions.values, victim.gasPrice ≤ a.gasPrice := by
    intro a ha
    rcases of_decide_eq_true (hcheapest a ha) with hlt | ⟨heq, -⟩
    · exact UInt64.le_of_lt hlt
    · exact UInt64.le_of_eq heq
  refine ⟨victim, (m.remove victim.hash).2.transactions.values, hformer, hnow ▸ List.Perm.refl _, fun a ha => ?_,
    fun hle => ⟨victim, hvictim, hle⟩, ?_⟩
  · exact hprice a (hformer.mem_iff.mpr (List.mem_cons_of_mem _ ha))
  · rintro ⟨a, ha, hle⟩
    exact UInt64.le_trans (hprice a ha) hle

/-- Room for one, taken by a transaction of price 100. -/
def fullPool : Mempool := [.insert (plainTx 1 1 0 100) .stored].foldl Mempool.call (.new ⟨1, 10, 0, 10⟩)

theorem books_fullPool : Books fullPool := (books_run (books_empty rfl rfl rfl) _).1

theorem insert_fullPool : (fullPool.insert (plainTx 2 2 0 1) .stored).1 = .ok () := by
  have hvalid : fullPool.validateCandidate (plainTx 2 2 0 1) = .ok () := rfl
  have hfull : fullPool.isFull = true := rfl
  have hroom := not_full_evictLowestGas .stored books_fullPool (List.cons_ne_nil _ _)
    (show fullPool.suggestedEvictionCount ≠ 0 by decide)
  unfold Mempool.insert
  simp only [hvalid, hfull, hroom, true_and, if_true, Bool.false_eq_true, if_false]
  rfl

theorem insert_evicts_cheapest_of_fullPool : ∃ victim kept, [plainTx 1 1 0 100].Perm (victim :: kept) ∧
    (fullPool.insert (plainTx 2 2 0 1) .stored).2.transactions.values.Perm (plainTx 2 2 0 1 :: kept) := by
  obtain ⟨victim, kept, hformer, hnow, -⟩ := insert_evicts_cheapest ⟨1, 10, 0, 10⟩ [.insert (plainTx 1 1 0 100) .stored]
    (plainTx 2 2 0 1) .stored rfl insert_fullPool
  exact ⟨victim, kept, hformer, hnow⟩

/-- A transaction of price 1 takes the place of one of price 100. -/
theorem cheap_flood_evicts : fullPool.isFull = true ∧ fullPool.transactions.values = [plainTx 1 1 0 100] ∧
    (fullPool.insert (plainTx 2 2 0 1) .stored).1 = .ok () ∧
    (fullPool.insert (plainTx 2 2 0 1) .stored).2.transactions.values = [plainTx 2 2 0 1] := by
  refine ⟨rfl, rfl, insert_fullPool, ?_⟩
  obtain ⟨victim, -, -, hformer, hnow⟩ := insert_full books_fullPool rfl insert_fullPool
  have hone := hformer.length_eq
  rw [hnow, List.length_eq_zero_iff.mp (Nat.succ.inj hone).symm]

end Ingress
end Eth2077
