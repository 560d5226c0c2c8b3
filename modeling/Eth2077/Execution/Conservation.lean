import Eth2077.Execution.Draining

/-!
# What becomes of a submitted transaction (`execution/src/ingress.rs`)

A transaction that is accepted stays in the pool until it is handed out, by `remove` or in a drained batch, unless it
is evicted or the pool is cleared. So no transaction is handed out more often than it was accepted, and in a run
without evictions and clears none is lost (`pool_conserves`).
-/

namespace Eth2077
namespace Ingress

variable {m : Mempool} {tx : Transaction} {c : Call} {calls : List Call} {order : IterOrder Candidate}

/-- What a call puts into the pool. -/
def Mempool.accepts (m : Mempool) : Call → List Transaction
  | .insert tx order => if (m.insert tx order).1.isOk then [tx] else []
  | .submit tx order => if ((IngressPipeline.mk m).submit tx order).1.isOk then [tx] else []
  | _ => []

/-- What the caller gets out of the pool. -/
def Mempool.handsOut (m : Mempool) : Call → List Transaction
  | .remove hash => (m.remove hash).1.toList
  | .drainBatch maxCount => ((IngressPipeline.mk m).drainBatch maxCount).1
  | _ => []

/-- The transactions of all calls of a run, one after the other. -/
def Mempool.inRun (f : Mempool → Call → List Transaction) (m : Mempool) : List Call → List Transaction
  | [] => []
  | c :: calls => f m c ++ inRun f (m.call c) calls

/-- The call has no reason to drop a transaction. -/
def Mempool.Spares (m : Mempool) (c : Call) : Prop := c ≠ .clear ∧ (m.isFull = true → m.accepts c = [])

/-- Every call of the run spares the pool it finds. -/
def Mempool.SparesAll (m : Mempool) : List Call → Prop
  | [] => True
  | c :: calls => m.Spares c ∧ (m.call c).SparesAll calls

/-! ### One call -/

/-- An insertion into a pool with room adds the transaction and takes nothing out. -/
theorem insert_room (h : Books m) (hroom : m.isFull = false) (hok : (m.insert tx order).1 = .ok ()) :
    (m.insert tx order).2.transactions.values = tx :: m.transactions.values := by
  unfold Mempool.insert at hok ⊢
  cases hvalid : m.validateCandidate tx with
  | error err =>
    rw [hvalid] at hok
    cases hok
  | ok =>
    have hadm := h.admissible hvalid
    simp only [hroom, Bool.false_eq_true, false_and, if_false]
    refine AList.values_insert fun hmem => ?_
    obtain ⟨tx', hlookup⟩ := mem_iff_exists_lookup.mp hmem
    exact hadm.fresh tx' (AList.mem_values.mpr ⟨tx.hash, hlookup⟩) (h.hash _ _ hlookup)

theorem Books.conserves_insert (h : Books m) (tx : Transaction) (order : IterOrder Candidate) :
    ∃ lost, ((if (m.insert tx order).1.isOk then [tx] else []) ++ m.transactions.values).Perm
        ((m.insert tx order).2.transactions.values ++ lost) ∧
      (lost ≠ [] → m.isFull = true ∧ (m.insert tx order).1.isOk = true) := by
  rcases h.insert tx order with ⟨err, heq⟩ | ⟨hok, -⟩
  · refine ⟨[], ?_, fun hne => absurd rfl hne⟩
    rw [heq]
    simp [Except.isOk, Except.toBool]
  · cases hfull : m.isFull with
    | true =>
      obtain ⟨victim, -, -, hformer, hnow⟩ := insert_full h hfull hok
      refine ⟨[victim], ?_, fun _ => ⟨rfl, by rw [hok]; rfl⟩⟩
      rw [hnow, hok]
      show (tx :: m.transactions.values).Perm _
      rw [List.cons_append]
      exact (hformer.trans (List.perm_append_singleton victim _).symm).cons tx
    | false =>
      refine ⟨[], ?_, fun hne => absurd rfl hne⟩
      rw [insert_room h hfull hok, hok, List.append_nil]
      exact List.Perm.refl _

/-- What a call accepts and what was in the pool are in the pool afterwards, handed out, or lost to an eviction or a
clear. -/
theorem Books.conserves (h : Books m) (c : Call) :
    ∃ lost, (m.accepts c ++ m.transactions.values).Perm
        ((m.call c).transactions.values ++ m.handsOut c ++ lost) ∧ (m.Spares c → lost = []) := by
  cases c with
  | insert tx order =>
    obtain ⟨lost, hperm, hlost⟩ := h.conserves_insert tx order
    refine ⟨lost, by simpa [Mempool.accepts, Mempool.handsOut, Mempool.call] using hperm, fun hspares => ?_⟩
    by_contra hne
    obtain ⟨hfull, hok⟩ := hlost hne
    have := hspares.2 hfull
    simp [Mempool.accepts, hok] at this
  | submit tx order =>
    obtain ⟨lost, hperm, hlost⟩ := h.conserves_insert tx order
    refine ⟨lost, by simpa [Mempool.accepts, Mempool.handsOut, Mempool.call, submit_eq] using hperm,
      fun hspares => ?_⟩
    by_contra hne
    obtain ⟨hfull, hok⟩ := hlost hne
    have := hspares.2 hfull
    simp [Mempool.accepts, submit_eq, hok] at this
  | clear => exact ⟨m.transactions.values, List.Perm.refl _, fun hspares => absurd rfl hspares.1⟩
  | remove hash =>
    refine ⟨[], ?_, fun _ => rfl⟩
    simp only [Mempool.accepts, Mempool.handsOut, Mempool.call, List.nil_append, List.append_nil]
    cases hlookup : m.transactions.lookup hash with
    | none =>
      rw [remove_of_none hlookup]
      exact List.append_nil _ ▸ List.Perm.refl _
    | some tx =>
      have hfst : (m.remove hash).1 = some tx := by simp only [Mempool.remove, hlookup]
      rw [hfst]
      exact (values_remove hlookup).trans (List.perm_append_singleton tx _).symm
  | drainBatch maxCount =>
    refine ⟨[], ?_, fun _ => rfl⟩
    obtain ⟨htxs, hrest⟩ := drainBatch_ranked h maxCount
    have hleft := ranked_perm ((IngressPipeline.mk m).drainBatch maxCount).2.mempool
    simp only [Mempool.accepts, Mempool.handsOut, Mempool.call, List.nil_append, List.append_nil]
    rw [hrest] at hleft
    rw [htxs]
    have hcut : m.ranked.Perm (m.ranked.drop maxCount ++ m.ranked.take maxCount) := by
      conv_lhs => rw [← List.take_append_drop maxCount m.ranked]
      exact List.perm_append_comm
    exact (ranked_perm m).symm.trans (hcut.trans (hleft.append_right _))

/-! ### Runs -/

theorem Books.conserves_run (h : Books m) (calls : List Call) :
    ∃ lost, (m.inRun Mempool.accepts calls ++ m.transactions.values).Perm
        ((calls.foldl Mempool.call m).transactions.values ++ m.inRun Mempool.handsOut calls ++ lost) ∧
      (m.SparesAll calls → lost = []) := by
  induction calls generalizing m with
  | nil => exact ⟨[], by simp [Mempool.inRun], fun _ => rfl⟩
  | cons c calls ih =>
    obtain ⟨lost, hperm, hlost⟩ := h.conserves c
    obtain ⟨lost', hperm', hlost'⟩ := ih (h.call c)
    refine ⟨lost' ++ lost, ?_, fun hspares => by rw [hlost hspares.1, hlost' hspares.2, List.append_nil]⟩
    simp only [Mempool.inRun, List.foldl_cons]
    rw [List.perm_iff_count] at hperm hperm' ⊢
    intro a
    have hfirst := hperm a
    have hrest := hperm' a
    simp only [List.count_append] at hfirst hrest ⊢
    omega

/-- What was accepted in a run is at least what is pooled and what was handed out, and no more than that if no call
evicts or clears. -/
theorem pool_conserves (config : MempoolConfig) (calls : List Call) :
    let m := Mempool.new config
    let kept := (calls.foldl Mempool.call m).transactions.values ++ m.inRun Mempool.handsOut calls
    kept.Subperm (m.inRun Mempool.accepts calls) ∧
      (m.SparesAll calls → kept.Perm (m.inRun Mempool.accepts calls)) := by
  intro m kept
  obtain ⟨lost, hperm, hlost⟩ := (books_empty rfl rfl rfl : Books m).conserves_run calls
  have hempty : m.transactions.values = [] := rfl
  rw [hempty, List.append_nil] at hperm
  refine ⟨(List.sublist_append_left kept lost).subperm.trans hperm.symm.subperm, fun hspares => ?_⟩
  rw [hlost hspares, List.append_nil] at hperm
  exact hperm.symm

/-- Three transactions in a pool for two: the third submission is refused, and everything else is drained. -/
theorem pool_conserves_drained :
    let m := Mempool.new ⟨2, 10, 0, 0⟩
    let calls : List Call := [.submit (plainTx 1 1 0 5) .stored, .submit (plainTx 2 2 0 7) .stored,
      .submit (plainTx 3 3 0 9) .stored, .drainBatch 2]
    ((calls.foldl Mempool.call m).transactions.values ++ m.inRun Mempool.handsOut calls).Perm
      (m.inRun Mempool.accepts calls) :=
  (pool_conserves ⟨2, 10, 0, 0⟩ _).2
    ⟨⟨by rintro ⟨⟩, by decide⟩, ⟨by rintro ⟨⟩, by decide⟩, ⟨by rintro ⟨⟩, by decide⟩, ⟨by rintro ⟨⟩, fun _ => rfl⟩,
      trivial⟩

end Ingress
end Eth2077
