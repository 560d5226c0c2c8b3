import Eth2077.Lib.SortBy
import Eth2077.Prim
import Eth2077.Text

/-!
# Maps in a fixed order

A configuration with a `HashMap` of metadata sorts the entries before it commits to them. The sorted entries are the map:
they do not depend on the order in which it was traversed, and the map can be told from them.
-/

namespace Eth2077
open SortBy

section Metadata
variable {K V : Type} [DecidableEq K] {m m' : HashMap K V} {order order' : IterOrder (K × V)}

/-- `==` of two maps. -/
def SameMap (m m' : HashMap K V) : Prop := ∀ key, m.lookup key = m'.lookup key

theorem traverse_perm_iff : (traverse order m).Perm (traverse order' m') ↔ SameMap m m' := by
  have hentry : ∀ (order : IterOrder (K × V)) {m : HashMap K V} {k : K} {v : V},
      (k, v) ∈ traverse order m ↔ m.lookup k = some v := fun _ _ _ _ => mem_traverse
  constructor
  · intro h k
    exact Option.ext fun v => by rw [← hentry order, ← hentry order', h.mem_iff]
  · intro h
    have hnodup : ∀ (order : IterOrder (K × V)) (m : HashMap K V), (traverse order m).Nodup :=
      fun order m => (nodup_traverse order m).of_map _
    refine (List.perm_ext_iff_of_nodup (hnodup order m) (hnodup order' m')).mpr ?_
    rintro ⟨k, v⟩
    rw [hentry, hentry, h k]

/-- A key comes with one value only. -/
theorem eq_of_mem_traverse {p q : K × V} (hp : p ∈ traverse order m) (hq : q ∈ traverse order m) (h : p.1 = q.1) :
    p = q := by
  have hvalue : some p.2 = some q.2 := by rw [← mem_traverse.mp hp, ← mem_traverse.mp hq, h]
  exact Prod.ext h (Option.some.inj hvalue)

/-- Sorted by a comparison that tells keys apart, the entries are the map. -/
theorem sortBy_traverse_iff {cmp : K × V → K × V → Ordering} [Std.TransCmp cmp]
    (hcmp : ∀ p q, cmp p q = .eq → p.1 = q.1) :
    sortBy cmp (traverse order m) = sortBy cmp (traverse order' m') ↔ SameMap m m' := by
  constructor
  · intro h
    exact traverse_perm_iff.mp (perm_of_sortBy_eq h)
  · intro h
    exact sortBy_congr (fun p hp q hq heq => eq_of_mem_traverse hp hq (hcmp p q heq)) (traverse_perm_iff.mpr h)

/-- The map of entries with distinct keys. -/
def ofPairs (l : List (K × V)) (h : (l.map Prod.fst).Nodup) : HashMap K V :=
  ⟨l.map fun e => ⟨e.1, e.2⟩, by rwa [List.NodupKeys, List.keys, List.map_map]⟩

omit [DecidableEq K] in
theorem traverse_ofPairs {l : List (K × V)} (h : (l.map Prod.fst).Nodup) (order : IterOrder (K × V)) :
    (traverse order (ofPairs l h)).Perm l := by
  refine (order.perm _).trans (List.Perm.of_eq ?_)
  rw [ofPairs, List.map_map]
  exact List.map_id l

end Metadata

theorem nodup_of_pairwise_compare {K V : Type} [Ord K] [Std.TransOrd K] {l : List (K × V)}
    (h : l.Pairwise fun a b => compare a.1 b.1 = .lt) : (l.map Prod.fst).Nodup :=
  nodup_of_lt compare (List.pairwise_map.mpr h)

section Pairs
variable {K V : Type} [Ord K] [Ord V]

/-- By the key, and then by the value. -/
def compareEntries : K × V → K × V → Ordering := compareLex (compareOn Prod.fst) (compareOn Prod.snd)

instance [Std.TransOrd K] [Std.TransOrd V] : Std.TransCmp (compareEntries : K × V → K × V → Ordering) :=
  inferInstanceAs (Std.TransCmp (compareLex _ _))

theorem fst_eq_of_compareEntries [Std.LawfulEqOrd K] {p q : K × V} (h : compareEntries p q = .eq) : p.1 = q.1 := by
  have hkey : compare p.1 q.1 = .eq := (Ordering.then_eq_eq.mp h).1
  exact Std.LawfulEqOrd.eq_of_compare hkey

/-- `iter().collect()` and `sort_unstable_by` on it. -/
def sortedPairs (order : IterOrder (K × V)) (m : HashMap K V) : List (K × V) := sortBy compareEntries (traverse order m)

theorem sortedPairs_iff [DecidableEq K] [Std.TransOrd K] [Std.TransOrd V] [Std.LawfulEqOrd K] {m m' : HashMap K V}
    {order order' : IterOrder (K × V)} : sortedPairs order m = sortedPairs order' m' ↔ SameMap m m' :=
  sortBy_traverse_iff fun _ _ => fst_eq_of_compareEntries

theorem mem_sortedPairs [DecidableEq K] {order : IterOrder (K × V)} {m : HashMap K V} {entry : K × V} :
    entry ∈ sortedPairs order m ↔ m.lookup entry.1 = some entry.2 := mem_sortBy.trans mem_traverse

/-- The keys come in their order, each once. -/
theorem pairwise_sortedPairs [Std.TransOrd K] [Std.TransOrd V] [Std.LawfulEqOrd K] (order : IterOrder (K × V))
    (m : HashMap K V) : (sortedPairs order m).Pairwise fun a b => compare a.1 b.1 = .lt := by
  have hsorted := pairwise_sortBy compareEntries (traverse order m)
  have hnodup : ((sortedPairs order m).map Prod.fst).Nodup :=
    ((sortBy_perm compareEntries _).map Prod.fst).nodup_iff.mpr (nodup_traverse order m)
  refine (hsorted.and (List.pairwise_map.mp hnodup)).imp fun {a b} h => ?_
  obtain ⟨hle, hne⟩ := h
  cases hkey : compare a.1 b.1 with
  | lt => rfl
  | eq => exact absurd (Std.LawfulEqOrd.eq_of_compare hkey) hne
  | gt =>
    have hgt : compareEntries a b = .gt := by
      show (compare a.1 b.1).then (compare a.2 b.2) = .gt
      rw [hkey]
      rfl
    rw [hgt] at hle
    cases hle

/-- What is sorted stays as it is. -/
theorem sortedPairs_ofPairs [Std.TransOrd K] [Std.TransOrd V] [Std.LawfulEqOrd K] {l : List (K × V)}
    (h : l.Pairwise fun a b => compare a.1 b.1 = .lt) (order : IterOrder (K × V)) :
    sortedPairs order (ofPairs l (nodup_of_pairwise_compare h)) = l := by
  refine List.Perm.eq_of_pairwise (fun a b _ _ hab hba => ?_) (pairwise_sortedPairs order _) h
    ((sortBy_perm compareEntries _).trans (traverse_ofPairs _ order))
  cases hab.symm.trans (Std.OrientedCmp.gt_of_lt hba)

end Pairs

section Keys
variable {K V : Type} [Ord K]

/-- `sort_unstable_by` that looks at the keys only. -/
def sortedByKey (order : IterOrder (K × V)) (m : HashMap K V) : List (K × V) :=
  sortBy (compareOn Prod.fst) (traverse order m)

theorem sortedByKey_iff [DecidableEq K] [Std.TransOrd K] [Std.LawfulEqOrd K] {m m' : HashMap K V}
    {order order' : IterOrder (K × V)} : sortedByKey order m = sortedByKey order' m' ↔ SameMap m m' :=
  sortBy_traverse_iff fun _ _ => Std.LawfulEqOrd.eq_of_compare

theorem mem_sortedByKey [DecidableEq K] {order : IterOrder (K × V)} {m : HashMap K V} {key : K} {value : V} :
    (key, value) ∈ sortedByKey order m ↔ m.lookup key = some value := mem_sortBy.trans mem_traverse

theorem sortedByKey_ofPairs [DecidableEq K] [Std.TransOrd K] [Std.LawfulEqOrd K] {l : List (K × V)}
    (h : l.Pairwise fun a b => compare a.1 b.1 = .lt) (order : IterOrder (K × V)) :
    sortedByKey order (ofPairs l (nodup_of_pairwise_compare h)) = l := by
  have htraverse := traverse_ofPairs (nodup_of_pairwise_compare h) order
  refine (eq_of_perm (fun a ha b hb heq => ?_) (h.imp fun hlt => ?_) (pairwise_sortBy _ _)
    (htraverse.symm.trans (sortBy_perm (compareOn Prod.fst) _).symm)).symm
  · exact eq_of_mem_traverse (htraverse.mem_iff.mpr ha) (htraverse.mem_iff.mpr hb) (Std.LawfulEqOrd.eq_of_compare heq)
  · exact Ordering.isLE_of_eq_lt hlt

end Keys

end Eth2077
