import Mathlib.Algebra.BigOperators.Group.Multiset.Basic
import Mathlib.Algebra.Order.BigOperators.Group.Multiset
import Mathlib.Algebra.Order.BigOperators.Group.List
import Mathlib.Algebra.BigOperators.Fin
import Mathlib.Data.List.MinMax
import Mathlib.Data.List.Induction
import Mathlib.Tactic.Linarith

/-!
# List scheduling

Jobs go one after the other to the machine with the least load. If the jobs come in descending order, no load is
larger than `4/3 - 1/(3m)` times the best that any distribution over the `m` machines can do (`schedule_le`). The
step is a count: were a job of more than a third of the optimum placed too high, there would be more jobs, with
the big ones counted twice, than any distribution has room for.
-/

namespace ListScheduling

/-- The job goes to the first of the machines with the least load. -/
def place (loads : List ℕ) (job : ℕ) : List ℕ :=
  match loads.zipIdx.argmin Prod.fst with
  | some (load, index) => loads.set index (load + job)
  | none => loads

def schedule (machines : ℕ) (jobs : List ℕ) : List ℕ := jobs.foldl place (List.replicate machines 0)

variable {loads jobs : List ℕ} {job load cap machines : ℕ} {bins contents : List (Multiset ℕ)}
  {c b rest : Multiset ℕ}

theorem place_cases (job : ℕ) (h : loads ≠ []) : ∃ pre load post, loads = pre ++ load :: post ∧
    (∀ x ∈ loads, load ≤ x) ∧ place loads job = pre ++ (load + job) :: post := by
  unfold place
  cases hmin : loads.zipIdx.argmin Prod.fst with
  | none =>
    rw [List.argmin_eq_none, List.zipIdx_eq_nil_iff] at hmin
    exact absurd hmin h
  | some found =>
    obtain ⟨load, index⟩ := found
    have hget : loads[index]? = some load := by simpa using List.mem_zipIdx_iff_getElem?.mp (List.argmin_mem hmin)
    obtain ⟨hlt, rfl⟩ := List.getElem?_eq_some_iff.mp hget
    refine ⟨loads.take index, loads[index], loads.drop (index + 1), ?_, fun x hx => ?_, ?_⟩
    · rw [List.getElem_cons_drop, List.take_append_drop]
    · obtain ⟨k, hk⟩ := List.getElem?_of_mem hx
      have hmem : (x, k) ∈ loads.zipIdx := List.mem_zipIdx_iff_getElem?.mpr hk
      exact List.le_of_mem_argmin hmem hmin
    · show loads.set index (loads[index] + job) = _
      rw [List.set_eq_take_append_cons_drop, if_pos hlt]

theorem length_place (loads : List ℕ) (job : ℕ) : (place loads job).length = loads.length := by
  unfold place
  split
  · exact List.length_set ..
  · rfl

theorem length_schedule (machines : ℕ) (jobs : List ℕ) : (schedule machines jobs).length = machines := by
  unfold schedule
  induction jobs using List.reverseRecOn with
  | nil => exact List.length_replicate ..
  | append_singleton jobs job ih => rw [List.foldl_concat, length_place, ih]

theorem schedule_concat : schedule machines (jobs ++ [job]) = place (schedule machines jobs) job := List.foldl_concat ..

theorem schedule_ne_nil (jobs : List ℕ) (hm : 0 < machines) : schedule machines jobs ≠ [] := by
  rw [← List.length_pos_iff, length_schedule]
  exact hm

/-! ### Distributions -/

/-- The bins hold the jobs, and none is fuller than `cap`. -/
structure Distributes (jobs : Multiset ℕ) (cap : ℕ) (bins : List (Multiset ℕ)) : Prop where
  sum : bins.sum = jobs
  le : ∀ b ∈ bins, b.sum ≤ cap

theorem sum_sum (bins : List (Multiset ℕ)) : bins.sum.sum = (bins.map Multiset.sum).sum :=
  map_list_sum Multiset.sumAddMonoidHom bins

theorem Distributes.total_le {total : Multiset ℕ} (h : Distributes total cap bins) : total.sum ≤ bins.length * cap := by
  rw [← h.sum, sum_sum]
  refine (List.sum_le_card_nsmul _ cap fun x hx => ?_).trans (by simp)
  obtain ⟨b, hb, rfl⟩ := List.mem_map.mp hx
  exact h.le b hb

theorem mem_sum (hb : b ∈ bins) (h : job ∈ b) : job ∈ bins.sum := by
  obtain ⟨pre, post, rfl⟩ := List.append_of_mem hb
  simp [h]

theorem exists_of_mem_sum (h : job ∈ bins.sum) : ∃ pre b post, bins = pre ++ (job ::ₘ b) :: post := by
  induction bins with
  | nil => exact absurd h (Multiset.notMem_zero job)
  | cons b bins ih =>
    rw [List.sum_cons] at h
    rcases Multiset.mem_add.mp h with h | h
    · obtain ⟨b, rfl⟩ := Multiset.exists_cons_of_mem h
      exact ⟨[], b, bins, rfl⟩
    · obtain ⟨pre, b', post, rfl⟩ := ih h
      exact ⟨b :: pre, b', post, rfl⟩

/-- One job fewer. -/
theorem Distributes.erase (h : Distributes (job ::ₘ rest) cap bins) :
    ∃ bins', bins'.length = bins.length ∧ Distributes rest cap bins' := by
  obtain ⟨pre, b, post, rfl⟩ := exists_of_mem_sum (h.sum ▸ Multiset.mem_cons_self job rest)
  refine ⟨pre ++ b :: post, by simp, ?_, fun x hx => ?_⟩
  · have hsum := h.sum
    rw [List.sum_append, List.sum_cons, Multiset.cons_add, Multiset.add_cons] at hsum
    rw [List.sum_append, List.sum_cons]
    exact (Multiset.cons_inj_right job).mp hsum
  · rw [List.mem_append, List.mem_cons] at hx
    rcases hx with hx | rfl | hx
    · exact h.le x (by simp [hx])
    · have := h.le (job ::ₘ x) (by simp)
      rw [Multiset.sum_cons] at this
      omega
    · exact h.le x (by simp [hx])

theorem Distributes.le_cap (h : Distributes (job ::ₘ rest) cap bins) : job ≤ cap := by
  obtain ⟨pre, b, post, rfl⟩ := exists_of_mem_sum (h.sum ▸ Multiset.mem_cons_self job rest)
  have := h.le (job ::ₘ b) (by simp)
  rw [Multiset.sum_cons] at this
  omega

/-- Items given to machines by `f`. -/
theorem distributes_ofFn {α : Type*} (items : List α) (size : α → ℕ) (f : α → Fin machines)
    (h : ∀ w, ((items.filter fun a => f a = w).map size).sum ≤ cap) : Distributes (items.map size) cap
      (List.ofFn fun w => (((items.filter fun a => f a = w).map size : List ℕ) : Multiset ℕ)) where
  sum := by
    rw [List.sum_ofFn]
    clear h
    induction items with
    | nil => simp
    | cons a items ih =>
      have hsplit : ∀ w, ((((a :: items).filter fun a => f a = w).map size : List ℕ) : Multiset ℕ) =
          (if f a = w then {size a} else 0) + (((items.filter fun a => f a = w).map size : List ℕ) : Multiset ℕ) := by
        intro w
        rw [List.filter_cons]
        by_cases hw : f a = w
        · simp [hw]
        · simp [hw]
      simp only [hsplit]
      rw [Finset.sum_add_distrib, ih, Finset.sum_ite_eq, if_pos (Finset.mem_univ _)]
      rfl
  le := by
    rintro b hb
    obtain ⟨w, rfl⟩ := List.mem_ofFn.mp hb
    exact h w

/-! ### Big jobs -/

/-- The jobs of a bin, the big ones counted twice. -/
def crowd (big : ℕ) : Multiset ℕ →+ ℕ := Multiset.cardHom + Multiset.countPAddMonoidHom fun x => big < x

theorem crowd_apply (big : ℕ) (c : Multiset ℕ) : crowd big c = c.card + c.countP fun x => big < x := rfl

theorem crowd_le_two (hcap : cap < 3 * job) (hb : b.sum ≤ cap) (hjobs : ∀ x ∈ b, job ≤ x) :
    crowd (cap - job) b ≤ 2 := by
  rw [crowd_apply]
  have hcard : b.card * job ≤ b.sum := by simpa using Multiset.card_nsmul_le_sum hjobs
  by_cases hbig : ∃ x ∈ b, cap - job < x
  · -- a big job leaves no room for another
    obtain ⟨x, hx, hlt⟩ := hbig
    obtain ⟨b, rfl⟩ := Multiset.exists_cons_of_mem hx
    rw [Multiset.sum_cons] at hb
    have hnil : b = 0 := by
      refine Multiset.eq_zero_of_forall_notMem fun y hy => ?_
      have hle : y ≤ b.sum := Multiset.le_sum_of_mem hy
      have hjob := hjobs y (Multiset.mem_cons_of_mem hy)
      omega
    subst hnil
    have := Multiset.countP_le_card (fun x => cap - job < x) (x ::ₘ 0)
    simp only [Multiset.card_cons, Multiset.card_zero] at this ⊢
    omega
  · have hnone : (b.countP fun x => cap - job < x) = 0 := by
      rw [Multiset.countP_eq_zero]
      exact fun x hx hlt => hbig ⟨x, hx, hlt⟩
    have hlt : b.card < 3 := Nat.lt_of_mul_lt_mul_right (a := job) (by omega)
    omega

theorem two_le_crowd (hjob : job ≤ cap) (hc : cap < c.sum + job) : 2 ≤ crowd (cap - job) c := by
  rw [crowd_apply]
  rcases Nat.lt_trichotomy c.card 1 with h | h | h
  · have hnil : c = 0 := Multiset.card_eq_zero.mp (by omega)
    rw [hnil, Multiset.sum_zero] at hc
    omega
  · obtain ⟨x, rfl⟩ := Multiset.card_eq_one.mp h
    rw [Multiset.sum_singleton] at hc
    have hbig : (({x} : Multiset ℕ).countP fun y => cap - job < y) = 1 := by
      rw [← Multiset.cons_zero, Multiset.countP_cons_of_pos _ (by omega), Multiset.countP_zero]
    omega
  · omega

/-! ### The bound -/

/-- A job no larger than those already there goes to a machine that has at most `load`. -/
theorem Distributes.bound (hbins : Distributes (job ::ₘ contents.sum) cap bins) (hlen : bins.length = contents.length)
    (hm : 0 < contents.length) (hload : ∀ c ∈ contents, load ≤ c.sum) (hjobs : ∀ x ∈ contents.sum, job ≤ x) :
    3 * contents.length * (load + job) + cap ≤ 4 * contents.length * cap := by
  obtain ⟨m, hm⟩ : ∃ m, contents.length = m + 1 := ⟨contents.length - 1, by omega⟩
  have htotal := hbins.total_le
  have hloads : contents.length * load ≤ contents.sum.sum := by
    rw [sum_sum]
    refine le_trans (by simp) (List.card_nsmul_le_sum (contents.map Multiset.sum) load fun x hx => ?_)
    obtain ⟨c, hc, rfl⟩ := List.mem_map.mp hx
    exact hload c hc
  rw [Multiset.sum_cons, hlen] at htotal
  rw [hm] at htotal hloads ⊢
  by_cases hsmall : 3 * job ≤ cap
  · nlinarith
  · -- the job fits, or both countings of the jobs contradict each other
    have hfits : load + job ≤ cap := by
      by_contra hover
      have hlow : 2 * contents.length ≤ crowd (cap - job) contents.sum := by
        rw [map_list_sum]
        refine le_trans (by simp [mul_comm]) (List.card_nsmul_le_sum (contents.map (crowd (cap - job))) 2 fun x hx => ?_)
        obtain ⟨c, hc, rfl⟩ := List.mem_map.mp hx
        have := hload c hc
        exact two_le_crowd hbins.le_cap (by omega)
      have hhigh : crowd (cap - job) bins.sum ≤ 2 * bins.length := by
        rw [map_list_sum]
        refine (List.sum_le_card_nsmul (bins.map (crowd (cap - job))) 2 fun x hx => ?_).trans (by simp [mul_comm])
        obtain ⟨b, hb, rfl⟩ := List.mem_map.mp hx
        refine crowd_le_two (by omega) (hbins.le b hb) fun x hxb => ?_
        have hmem : x ∈ bins.sum := mem_sum hb hxb
        rw [hbins.sum, Multiset.mem_cons] at hmem
        rcases hmem with rfl | hmem
        · exact le_rfl
        · exact hjobs x hmem
      rw [hbins.sum, ← Multiset.singleton_add, map_add, hlen] at hhigh
      have hone : 1 ≤ crowd (cap - job) {job} := by rw [crowd_apply, Multiset.card_singleton]; omega
      omega
    nlinarith

/-- What stands on the machines. -/
theorem exists_contents (hm : 0 < machines) (jobs : List ℕ) : ∃ contents : List (Multiset ℕ),
    contents.map Multiset.sum = schedule machines jobs ∧ contents.sum = (jobs : Multiset ℕ) := by
  induction jobs using List.reverseRecOn with
  | nil => exact ⟨List.replicate machines 0, by simp [schedule], by simp⟩
  | append_singleton jobs job ih =>
    obtain ⟨contents, hloads, hsum⟩ := ih
    obtain ⟨pre, load, post, hsplit, -, hplace⟩ := place_cases job (schedule_ne_nil jobs hm)
    rw [hsplit] at hloads
    obtain ⟨pre', rest', rfl, rfl, hrest⟩ := List.map_eq_append_iff.mp hloads
    obtain ⟨c, post', rfl, rfl, rfl⟩ := List.map_eq_cons_iff.mp hrest
    refine ⟨pre' ++ (job ::ₘ c) :: post', ?_, ?_⟩
    · rw [schedule_concat, hplace, List.map_append, List.map_cons, Multiset.sum_cons, add_comm job]
    · rw [List.sum_append, List.sum_cons] at hsum
      rw [List.sum_append, List.sum_cons, Multiset.cons_add, Multiset.add_cons, hsum]
      exact Multiset.coe_eq_coe.mpr (List.perm_append_singleton job jobs).symm

theorem sum_schedule (hm : 0 < machines) (jobs : List ℕ) : (schedule machines jobs).sum = jobs.sum := by
  obtain ⟨contents, hloads, hsum⟩ := exists_contents hm jobs
  rw [← hloads, ← sum_sum, hsum, Multiset.sum_coe]

/-- Jobs in descending order are spread over the machines at most `4/3 - 1/(3m)` times worse than they could be. -/
theorem schedule_le (hm : 0 < machines) (hjobs : jobs.Pairwise (· ≥ ·)) (hbins : Distributes jobs cap bins)
    (hlen : bins.length = machines) (hload : load ∈ schedule machines jobs) :
    3 * machines * load + cap ≤ 4 * machines * cap := by
  induction jobs using List.reverseRecOn generalizing bins load with
  | nil =>
    have hzero : load = 0 := List.eq_of_mem_replicate hload
    rw [hzero]
    nlinarith
  | append_singleton jobs job ih =>
    have hcons : ((jobs ++ [job] : List ℕ) : Multiset ℕ) = job ::ₘ jobs :=
      Multiset.coe_eq_coe.mpr (List.perm_append_singleton job jobs)
    rw [hcons] at hbins
    rw [List.pairwise_append] at hjobs
    obtain ⟨bins', hlen', hbins'⟩ := hbins.erase
    have hbefore : ∀ load ∈ schedule machines jobs, 3 * machines * load + cap ≤ 4 * machines * cap :=
      fun load => ih hjobs.1 hbins' (hlen'.trans hlen)
    obtain ⟨pre, least, post, hsplit, hmin, hplace⟩ := place_cases job (schedule_ne_nil jobs hm)
    rw [schedule_concat, hplace, List.mem_append, List.mem_cons] at hload
    rw [hsplit] at hbefore
    rcases hload with hload | rfl | hload
    · exact hbefore load (by simp [hload])
    · obtain ⟨contents, hloads, hsum⟩ := exists_contents hm jobs
      have hcontents : contents.length = machines := by
        rw [← length_schedule machines jobs, ← hloads, List.length_map]
      rw [← hsum] at hbins
      rw [← hcontents]
      refine hbins.bound (hlen.trans hcontents.symm) (by omega) (fun c hc => ?_) fun x hx => ?_
      · exact hmin c.sum (hloads ▸ List.mem_map_of_mem hc)
      · rw [hsum, Multiset.mem_coe] at hx
        exact hjobs.2.2 x hx job (by simp)
    · exact hbefore load (by simp [hload])

end ListScheduling
