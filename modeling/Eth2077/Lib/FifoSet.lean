import Mathlib.Data.Finset.Card
import Mathlib.Data.List.DropRight

/-!
# Sets that forget their oldest elements

A set of bounded size, with a queue of its elements in the order of their arrival. An insertion puts a new element into
both, and then takes the oldest ones out of both while the set is too large. The two are kept separately, so the loop
would not end if the queue ran dry before the set had shrunk; it does end, since the queue holds what the set holds.
What is remembered in the end are the last elements that were new when they came.
-/

namespace FifoSet
variable {α : Type*}

/-! ### The last elements of a list -/

theorem rtake_tail {n : ℕ} {l : List α} (h : n < l.length) : l.tail.rtake n = l.rtake n := by
  unfold List.rtake
  rw [List.length_tail, List.drop_tail]
  congr 1
  omega

theorem length_rtake_le (n : ℕ) (l : List α) : (l.rtake n).length ≤ n := by
  rw [List.rtake, List.length_drop]
  omega

theorem rtake_of_length_le {n : ℕ} {l : List α} (h : l.length ≤ n) : l.rtake n = l := by
  rw [List.rtake, Nat.sub_eq_zero_of_le h, List.drop_zero]

/-- The last ones of a list that has grown are among the last ones before and the new one. -/
theorem rtake_rtake_concat (n : ℕ) (l : List α) (a : α) : (l.rtake n ++ [a]).rtake n = (l ++ [a]).rtake n := by
  cases n with
  | zero => simp
  | succ n =>
    rw [List.rtake_concat_succ, List.rtake_concat_succ]
    congr 1
    unfold List.rtake
    rw [List.drop_drop, List.length_drop]
    congr 1
    omega

/-! ### What was new -/

section Transcript
variable {t : List (α × Bool)} {a : α} {bound : ℕ}

/-- The elements that were new, in the order of their arrival. -/
def accepted (t : List (α × Bool)) : List α := (t.filter Prod.snd).map Prod.fst

theorem accepted_concat (t : List (α × Bool)) (a : α) (isNew : Bool) :
    accepted (t ++ [(a, isNew)]) = accepted t ++ if isNew then [a] else [] := by
  unfold accepted
  rw [List.filter_append, List.map_append]
  cases isNew <;> rfl

/-- An element is old if and only if it is one of the last `bound` that were new. -/
def Answers (bound : ℕ) (t : List (α × Bool)) : Prop :=
  ∀ before a isNew after, t = before ++ (a, isNew) :: after → (isNew = false ↔ a ∈ (accepted before).rtake bound)

theorem Answers.concat {isNew : Bool} (h : Answers bound t)
    (hlast : isNew = false ↔ a ∈ (accepted t).rtake bound) : Answers bound (t ++ [(a, isNew)]) := by
  intro before b isNew' after heq
  rcases List.eq_nil_or_concat after with rfl | ⟨after, last, rfl⟩
  · obtain ⟨rfl, hlast'⟩ := List.append_inj' heq rfl
    obtain ⟨rfl, rfl⟩ := Prod.mk.inj (List.singleton_inj.mp hlast')
    exact hlast
  · rw [List.concat_eq_append, ← List.cons_append, ← List.append_assoc] at heq
    exact h before b isNew' after (List.append_inj' heq rfl).1

end Transcript

end FifoSet

/-! ### The loop -/

structure FifoSet (α : Type*) where
  seen : Finset α
  order : List α

namespace FifoSet
variable {α : Type*}

def empty : FifoSet α := ⟨∅, []⟩

variable [DecidableEq α]

/-- One turn of the loop: the oldest element, if there is one, leaves both. -/
def pop (s : FifoSet α) : FifoSet α :=
  match s.order with
  | [] => s
  | oldest :: order => ⟨s.seen.erase oldest, order⟩

/-- The loop, if it ends within `fuel` turns. -/
def evict (bound : ℕ) : ℕ → FifoSet α → Option (FifoSet α)
  | 0, s => if bound < s.seen.card then none else some s
  | fuel + 1, s => if bound < s.seen.card then evict bound fuel s.pop else some s

/-- Whether the element is new, and the set with it. -/
def offer (bound fuel : ℕ) (s : FifoSet α) (a : α) : Option (Bool × FifoSet α) :=
  if a ∈ s.seen then some (false, s)
  else (evict bound fuel ⟨insert a s.seen, s.order ++ [a]⟩).map fun s => (true, s)

/-- The set is what is in the queue. -/
def ofList (order : List α) : FifoSet α := ⟨order.toFinset, order⟩

variable {bound fuel : ℕ} {s : FifoSet α} {order : List α} {a : α} {t : List (α × Bool)}

theorem pop_ofList (h : order.Nodup) : (ofList order).pop = ofList order.tail := by
  cases order with
  | nil => rfl
  | cons oldest order =>
    have hnew : oldest ∉ order.toFinset := by simpa using (List.nodup_cons.mp h).1
    show FifoSet.mk ((oldest :: order).toFinset.erase oldest) order = ofList order
    rw [List.toFinset_cons, Finset.erase_insert hnew]
    rfl

/-- As many turns as there are elements too many end the loop. -/
theorem evict_ofList (h : order.Nodup) (hfuel : order.length ≤ bound + fuel) :
    evict bound fuel (ofList order) = some (ofList (order.rtake bound)) := by
  have hcard : (ofList order).seen.card = order.length := List.toFinset_card_of_nodup h
  induction fuel generalizing order with
  | zero =>
    rw [evict, hcard, if_neg (by omega), rtake_of_length_le (by omega)]
  | succ fuel ih =>
    rw [evict, hcard]
    split_ifs with hfull
    · have htail : order.tail.Nodup := h.tail
      rw [pop_ofList h, ih htail (by rw [List.length_tail]; omega) (List.toFinset_card_of_nodup htail),
        rtake_tail hfull]
    · rw [rtake_of_length_le (by omega)]

/-! ### Offers -/

/-- The state and the answers so far: the queue has the last elements that were new, each once, and the set is what is
in the queue. -/
structure Follows (bound : ℕ) (t : List (α × Bool)) (s : FifoSet α) : Prop where
  order : s.order = (accepted t).rtake bound
  seen : s.seen = s.order.toFinset
  nodup : s.order.Nodup
  length : s.order.length ≤ bound
  answers : Answers bound t

theorem follows_empty : Follows bound [] (empty : FifoSet α) where
  order := (List.rtake_nil bound).symm
  seen := rfl
  nodup := List.nodup_nil
  length := Nat.zero_le bound
  answers := by
    intro before a isNew after h
    simp at h

/-- One turn of the loop is enough for an offer, and the state follows the answers. -/
theorem Follows.offer (h : Follows bound t s) (fuel : ℕ) (a : α) :
    ∃ isNew s', s.offer bound (fuel + 1) a = some (isNew, s') ∧ Follows bound (t ++ [(a, isNew)]) s' := by
  have hmem : a ∈ s.seen ↔ a ∈ (accepted t).rtake bound := by rw [h.seen, List.mem_toFinset, h.order]
  unfold FifoSet.offer
  split_ifs with hold
  · refine ⟨false, s, rfl, ?_, h.seen, h.nodup, h.length, h.answers.concat (by simpa using hmem.mp hold)⟩
    rw [accepted_concat, h.order]
    simp
  · have hnew : a ∉ s.order := by rwa [h.order, ← hmem]
    have hnodup : (s.order ++ [a]).Nodup := by
      rw [List.nodup_append_comm]
      exact List.nodup_cons.mpr ⟨hnew, h.nodup⟩
    have hstart : (⟨insert a s.seen, s.order ++ [a]⟩ : FifoSet α) = ofList (s.order ++ [a]) := by
      rw [ofList, List.toFinset_append, ← h.seen, Finset.union_comm]
      rfl
    have hlen : (s.order ++ [a]).length ≤ bound + (fuel + 1) := by
      have := h.length
      rw [List.length_append, List.length_singleton]
      omega
    refine ⟨true, ofList ((s.order ++ [a]).rtake bound), ?_, ?_, rfl, ?_, length_rtake_le _ _, h.answers.concat ?_⟩
    · rw [hstart, evict_ofList hnodup hlen]
      rfl
    · show (s.order ++ [a]).rtake bound = _
      rw [accepted_concat, h.order, rtake_rtake_concat]
      rfl
    · exact hnodup.sublist (List.drop_sublist _ _)
    · simpa using mt hmem.mpr hold

end FifoSet
