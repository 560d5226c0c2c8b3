import Mathlib.Data.List.Destutter
import Mathlib.Data.List.Nodup
import Mathlib.Data.List.Perm.Basic
import Mathlib.Order.Lattice

/-!
# Sorting by a comparison

A stable sort by a comparison function gives one list for all arrangements of the same items, if the comparison tells
the items apart; and without its repetitions a sorted list is given by its members. Two increasing lists of keys differ in
a place where one key can be exchanged for the other.
-/

namespace SortBy
open Std

variable {α : Type*} {cmp : α → α → Ordering} {l l' : List α} {a : α}

def sortBy (cmp : α → α → Ordering) (l : List α) : List α := l.mergeSort fun a b => (cmp a b).isLE

theorem sortBy_perm (cmp : α → α → Ordering) (l : List α) : (sortBy cmp l).Perm l := List.mergeSort_perm _ _

theorem perm_of_sortBy_eq (h : sortBy cmp l = sortBy cmp l') : l.Perm l' :=
  (sortBy_perm cmp l).symm.trans (h ▸ sortBy_perm cmp l')

@[simp] theorem mem_sortBy : a ∈ sortBy cmp l ↔ a ∈ l := (sortBy_perm cmp l).mem_iff

@[simp] theorem length_sortBy (cmp : α → α → Ordering) (l : List α) : (sortBy cmp l).length = l.length :=
  (sortBy_perm cmp l).length_eq

theorem pairwise_sortBy (cmp : α → α → Ordering) [TransCmp cmp] (l : List α) :
    (sortBy cmp l).Pairwise fun a b => (cmp a b).isLE = true := by
  refine List.pairwise_mergeSort (fun a b c => TransCmp.isLE_trans) (fun a b => ?_) l
  cases hab : cmp a b with
  | gt => simp [OrientedCmp.lt_of_gt hab]
  | lt => rfl
  | eq => rfl

instance transCmp_on {β : Type*} (cmp : α → α → Ordering) [TransCmp cmp] (f : β → α) :
    TransCmp fun a b => cmp (f a) (f b) where
  eq_swap {a b} := show cmp (f a) (f b) = (cmp (f b) (f a)).swap from OrientedCmp.eq_swap
  isLE_trans {_ _ _} hab hbc := TransCmp.isLE_trans hab hbc

/-- Sorted lists of the same items, told apart by what the comparison looks at, are the same list. -/
theorem eq_of_perm [OrientedCmp cmp] (hcmp : ∀ a ∈ l, ∀ b ∈ l, cmp a b = .eq → a = b)
    (hl : l.Pairwise fun a b => (cmp a b).isLE = true) (hl' : l'.Pairwise fun a b => (cmp a b).isLE = true)
    (h : l.Perm l') : l = l' :=
  List.Perm.eq_of_pairwise (fun a b ha hb hab hba =>
    hcmp a ha b (h.mem_iff.mpr hb) (OrientedCmp.isLE_antisymm hab hba)) hl hl' h

theorem sortBy_congr [TransCmp cmp] (hcmp : ∀ a ∈ l, ∀ b ∈ l, cmp a b = .eq → a = b) (h : l.Perm l') :
    sortBy cmp l = sortBy cmp l' := by
  refine eq_of_perm (fun a ha b hb => ?_) (pairwise_sortBy cmp l) (pairwise_sortBy cmp l')
    (((sortBy_perm cmp l).trans h).trans (sortBy_perm cmp l').symm)
  exact hcmp a (mem_sortBy.mp ha) b (mem_sortBy.mp hb)

/-! ### Items that tie -/

/-- The sort is stable: what ties with an item stays in the order of the list. -/
theorem filter_sortBy [TransCmp cmp] (a : α) (l : List α) :
    (sortBy cmp l).filter (fun b => cmp a b = .eq) = l.filter fun b => cmp a b = .eq := by
  have htrans : ∀ x y z, (cmp x y).isLE = true → (cmp y z).isLE = true → (cmp x z).isLE = true :=
    fun _ _ _ => TransCmp.isLE_trans
  have htotal : ∀ x y, ((cmp x y).isLE || (cmp y x).isLE) = true := by
    intro x y
    cases hxy : cmp x y with
    | gt => simp [OrientedCmp.lt_of_gt hxy]
    | lt => rfl
    | eq => rfl
  have htied : (l.filter fun b => cmp a b = .eq).Pairwise fun x y => (cmp x y).isLE = true := by
    refine List.pairwise_of_forall_mem_list fun x hx y hy => ?_
    have hax : cmp a x = .eq := by simpa using (List.mem_filter.mp hx).2
    have hay : cmp a y = .eq := by simpa using (List.mem_filter.mp hy).2
    rw [← TransCmp.congr_left hax, hay]
    rfl
  have hsub : (l.filter fun b => cmp a b = .eq).Sublist (sortBy cmp l) :=
    List.sublist_mergeSort htrans htotal htied List.filter_sublist
  have hself : ∀ l : List α, (l.filter fun b => cmp a b = .eq).filter (fun b => cmp a b = .eq) =
      l.filter fun b => cmp a b = .eq := by simp
  have hfilter := hsub.filter fun b => decide (cmp a b = .eq)
  rw [hself] at hfilter
  exact (hfilter.eq_of_length ((sortBy_perm cmp l).filter _).length_eq.symm).symm

/-- The sorted list is one for all arrangements, if and only if items that tie are equal. -/
theorem sortBy_filterMap_iff [TransCmp cmp] {β : Type*} {f : β → Option α} {l : List β} :
    (∀ l', l.Perm l' → sortBy cmp (l'.filterMap f) = sortBy cmp (l.filterMap f)) ↔
      ∀ a ∈ l, ∀ b ∈ l, ∀ x y, f a = some x → f b = some y → cmp x y = .eq → x = y := by
  constructor
  · intro h a ha b hb x y hx hy htie
    obtain ⟨s, t, rfl⟩ := List.append_of_mem ha
    rcases List.mem_cons.mp (List.perm_middle.mem_iff.mp hb) with rfl | hb
    · exact Option.some.inj (hx.symm.trans hy)
    -- both to the front, once in either order
    obtain ⟨u, v, huv⟩ := List.append_of_mem hb
    have hfront : (s ++ a :: t).Perm (a :: b :: (u ++ v)) :=
      List.perm_middle.trans (.cons a (huv ▸ List.perm_middle))
    have hsame := (h _ hfront).trans (h _ (hfront.trans (.swap b a _))).symm
    have htied := congrArg (List.filter fun z => decide (cmp x z = .eq)) hsame
    rw [filter_sortBy, filter_sortBy] at htied
    simp only [List.filterMap_cons, hx, hy, List.filter_cons, htie, ReflCmp.compare_self, decide_true, if_true] at htied
    exact (List.cons.inj htied).1
  · intro h l' hl'
    refine (sortBy_congr (fun x hx y hy htie => ?_) (hl'.filterMap f)).symm
    obtain ⟨a, ha, hxa⟩ := List.mem_filterMap.mp hx
    obtain ⟨b, hb, hyb⟩ := List.mem_filterMap.mp hy
    exact h a ha b hb x y hxa hyb htie

theorem sortBy_map_iff [TransCmp cmp] {β : Type*} {f : β → α} {l : List β} :
    (∀ l', l.Perm l' → sortBy cmp (l'.map f) = sortBy cmp (l.map f)) ↔
      ∀ a ∈ l, ∀ b ∈ l, cmp (f a) (f b) = .eq → f a = f b := by
  have h := @sortBy_filterMap_iff _ cmp _ _ (fun b => some (f b)) l
  simpa using h

/-- By a comparison that tells all values apart, the sorted values are the values. -/
theorem sortBy_eq_iff [TransCmp cmp] [LawfulEqCmp cmp] : sortBy cmp l = sortBy cmp l' ↔ l.Perm l' :=
  ⟨perm_of_sortBy_eq, sortBy_congr fun _ _ _ _ => LawfulEqCmp.eq_of_compare⟩

/-- The values are the same up to order, if the items are up to order and to what `f` does not see. -/
theorem perm_map_iff {β : Type*} {f : β → α} {l l' : List β} :
    (l.map f).Perm (l'.map f) ↔ ∃ m, l.Perm m ∧ List.Forall₂ (fun a b => f a = f b) m l' := by
  constructor
  · intro h
    have hcomp : Relation.Comp (List.Forall₂ fun b x => f b = x) List.Perm l (l'.map f) :=
      ⟨l.map f, List.forall₂_map_right_iff.mpr (List.forall₂_same.mpr fun _ _ => rfl), h⟩
    rw [List.forall₂_comp_perm_eq_perm_comp_forall₂] at hcomp
    obtain ⟨m, hm, hvalues⟩ := hcomp
    exact ⟨m, hm, List.forall₂_map_right_iff.mp hvalues⟩
  · rintro ⟨m, hm, hvalues⟩
    have hmap : m.map f = l'.map f := by
      rwa [← List.forall₂_eq_eq_eq, List.forall₂_map_left_iff, List.forall₂_map_right_iff]
    exact hmap ▸ hm.map f

/-- With the other items the same, the values of an item are. -/
theorem eq_of_perm_map {β : Type*} {f : β → α} {pre post : List β} {a b : β}
    (h : ((pre ++ a :: post).map f).Perm ((pre ++ b :: post).map f)) : f a = f b := by
  rw [List.map_append, List.map_append, List.perm_append_left_iff, List.map_cons, List.map_cons] at h
  have hone : [f a].Perm [f b] := (List.perm_append_right_iff _).mp h
  exact List.singleton_perm_singleton.mp hone

theorem forall₂_congr_mem {β γ : Type*} {R S : β → γ → Prop} {l : List β} {l' : List γ}
    (h : ∀ a ∈ l, ∀ b ∈ l', R a b ↔ S a b) : List.Forall₂ R l l' ↔ List.Forall₂ S l l' := by
  induction l generalizing l' with
  | nil => rw [List.forall₂_nil_left_iff, List.forall₂_nil_left_iff]
  | cons a l ih =>
    cases l' with
    | nil => simp
    | cons b l' =>
      rw [List.forall₂_cons, List.forall₂_cons, h a List.mem_cons_self b List.mem_cons_self,
        ih fun c hc d hd => h c (List.mem_cons_of_mem a hc) d (List.mem_cons_of_mem b hd)]

/-! ### Two increasing lists -/

/-- Of two different lists of increasing keys, a key of the first can be exchanged for the one in its place in the second,
and the keys still increase. -/
theorem exists_exchange {κ : Type*} [LinearOrder κ] {key : α → κ} (hl : l.Pairwise fun a b => key a < key b)
    (hl' : l'.Pairwise fun a b => key a < key b) (hlen : l.length = l'.length) (hne : l.map key ≠ l'.map key) :
    ∃ pre a post pre' a' post', l = pre ++ a :: post ∧ l' = pre' ++ a' :: post' ∧ pre.length = pre'.length ∧
      key a ≠ key a' ∧ (∀ b ∈ pre, key b < key a') ∧ ∀ b ∈ post, key a' < key b := by
  induction l generalizing l' with
  | nil =>
    obtain rfl := List.length_eq_zero_iff.mp hlen.symm
    exact absurd rfl hne
  | cons a l ih =>
    cases l' with
    | nil => cases hlen
    | cons a' l' =>
      obtain ⟨ha, hl⟩ := List.pairwise_cons.mp hl
      obtain ⟨ha', hl'⟩ := List.pairwise_cons.mp hl'
      by_cases htail : l.map key = l'.map key
      · -- only the first keys differ, and both come before all others
        have hkey : key a ≠ key a' := fun h => hne (by rw [List.map_cons, List.map_cons, h, htail])
        refine ⟨[], a, l, [], a', l', rfl, rfl, rfl, hkey, by simp, fun b hb => ?_⟩
        have hmem : key b ∈ l'.map key := htail ▸ List.mem_map_of_mem hb
        obtain ⟨b', hb', heq⟩ := List.mem_map.mp hmem
        exact heq ▸ ha' b' hb'
      · obtain ⟨pre, b, post, pre', b', post', rfl, rfl, hpre, hkey, hbefore, hafter⟩ :=
          ih hl hl' (Nat.succ.inj hlen) htail
        by_cases hab : key a < key b'
        · refine ⟨a :: pre, b, post, a' :: pre', b', post', rfl, rfl, congrArg Nat.succ hpre, hkey, ?_, hafter⟩
          exact List.forall_mem_cons.mpr ⟨hab, hbefore⟩
        · -- the key of the second list fits behind nothing, so the first one can be exchanged
          have hlt : key a' < key a := (ha' b' (by simp)).trans_le (le_of_not_gt hab)
          exact ⟨[], a, pre ++ b :: post, [], a', pre' ++ b' :: post', rfl, rfl, rfl, hlt.ne', by simp,
            fun c hc => hlt.trans (ha c hc)⟩

/-! ### Without repetitions -/

theorem nodup_of_lt (cmp : α → α → Ordering) [OrientedCmp cmp] (hl : l.Pairwise fun a b => cmp a b = .lt) : l.Nodup :=
  hl.imp fun {a b} hab heq => by
    subst heq
    cases hab.symm.trans ReflCmp.compare_self

theorem eq_of_mem_iff (cmp : α → α → Ordering) [OrientedCmp cmp] (hl : l.Pairwise fun a b => cmp a b = .lt)
    (hl' : l'.Pairwise fun a b => cmp a b = .lt) (h : ∀ a, a ∈ l ↔ a ∈ l') : l = l' := by
  refine List.Perm.eq_of_pairwise (fun a b _ _ hab hba => ?_) hl hl'
    ((List.perm_ext_iff_of_nodup (nodup_of_lt cmp hl) (nodup_of_lt cmp hl')).mpr h)
  cases hab.symm.trans (OrientedCmp.gt_of_lt hba)

theorem lt_of_isLE {b : α} (hle : (cmp a b).isLE = true) (hne : cmp a b ≠ .eq) : cmp a b = .lt := by
  cases hcmp : cmp a b with
  | lt => rfl
  | eq => exact absurd hcmp hne
  | gt =>
    rw [hcmp] at hle
    cases hle

theorem pairwise_lt_of_isChain [TransCmp cmp] [LawfulEqCmp cmp] (hl : l.Pairwise fun a b => (cmp a b).isLE = true)
    (hne : l.IsChain (· ≠ ·)) : l.Pairwise fun a b => cmp a b = .lt := by
  induction l with
  | nil => exact .nil
  | cons a l ih =>
    obtain ⟨hle, htail⟩ := List.pairwise_cons.mp hl
    cases l with
    | nil => exact List.pairwise_singleton _ a
    | cons c l =>
      obtain ⟨hac, hchain⟩ := List.isChain_cons_cons.mp hne
      have hfirst : cmp a c = .lt := lt_of_isLE (hle c List.mem_cons_self) fun h => hac (LawfulEqCmp.eq_of_compare h)
      have hrest := ih htail hchain
      refine List.pairwise_cons.mpr ⟨fun b hb => ?_, hrest⟩
      rcases List.mem_cons.mp hb with rfl | hb
      · exact hfirst
      · exact TransCmp.lt_trans hfirst ((List.pairwise_cons.mp hrest).1 b hb)

variable [DecidableEq α]

theorem mem_destutter' (b : α) : a ∈ l.destutter' (· ≠ ·) b ↔ a ∈ b :: l := by
  induction l generalizing b with
  | nil => rfl
  | cons c l ih =>
    rw [List.destutter'_cons]
    split_ifs with hbc
    · rw [List.mem_cons, ih c, List.mem_cons (a := a) (b := b)]
    · obtain rfl := not_not.mp hbc
      rw [ih b]
      simp

/-- A repetition is gone, and no item with it. -/
theorem mem_destutter : a ∈ l.destutter (· ≠ ·) ↔ a ∈ l := by
  cases l with
  | nil => rfl
  | cons b l => exact mem_destutter' b

/-- `sort` and then `dedup`. -/
def sortDedup (cmp : α → α → Ordering) (l : List α) : List α := (sortBy cmp l).destutter (· ≠ ·)

theorem mem_sortDedup : a ∈ sortDedup cmp l ↔ a ∈ l := mem_destutter.trans mem_sortBy

theorem pairwise_sortDedup [TransCmp cmp] [LawfulEqCmp cmp] : (sortDedup cmp l).Pairwise fun a b => cmp a b = .lt :=
  pairwise_lt_of_isChain ((pairwise_sortBy cmp l).sublist (List.destutter_sublist (· ≠ ·) _)) (List.isChain_destutter _ _)

theorem sortDedup_congr [TransCmp cmp] [LawfulEqCmp cmp] (h : ∀ a, a ∈ l ↔ a ∈ l') :
    sortDedup cmp l = sortDedup cmp l' :=
  eq_of_mem_iff cmp pairwise_sortDedup pairwise_sortDedup fun a => by rw [mem_sortDedup, mem_sortDedup, h]

theorem sortDedup_eq_iff [TransCmp cmp] [LawfulEqCmp cmp] : sortDedup cmp l = sortDedup cmp l' ↔ ∀ a, a ∈ l ↔ a ∈ l' := by
  refine ⟨fun h a => ?_, sortDedup_congr⟩
  rw [← @mem_sortDedup _ cmp l, h, mem_sortDedup]

end SortBy
