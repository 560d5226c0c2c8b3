import Mathlib.Data.List.AList

/-!
# Maps that summarise a list by key

Next to a list of items a program keeps a map from the key of an item to a summary of the items with that key,
and no entry where there are none: a count, a set of numbers. `Tally` says that such a map is up to date.
-/

/-! ### The values of a map -/

namespace AList
variable {K V : Type} [DecidableEq K] {m : AList fun _ : K => V} {k : K} {v : V}

def values (m : AList fun _ : K => V) : List V := m.entries.map Sigma.snd

theorem mem_values : v ∈ m.values ↔ ∃ k, m.lookup k = some v := by
  unfold values
  rw [List.mem_map]
  refine ⟨?_, ?_⟩
  · rintro ⟨⟨k, v⟩, h, rfl⟩
    exact ⟨k, AList.mem_lookup_iff.mpr h⟩
  · rintro ⟨k, h⟩
    exact ⟨⟨k, v⟩, AList.mem_lookup_iff.mp h, rfl⟩

theorem values_insert (h : k ∉ m) : (insert k v m).values = v :: m.values := by
  rw [values, insert_of_notMem h]
  rfl

theorem values_erase (h : m.lookup k = some v) : m.values.Perm (v :: (m.erase k).values) := by
  have hmem : k ∈ m.entries.keys := AList.lookup_isSome.mp (by rw [h]; rfl)
  obtain ⟨v', l₁, l₂, -, hentries, herase⟩ := List.exists_of_kerase hmem
  have hv : v' = v := by
    have : m.lookup k = some v' := AList.mem_lookup_iff.mpr (by rw [hentries]; simp)
    exact Option.some_inj.mp (this.symm.trans h)
  subst hv
  show (m.entries.map Sigma.snd).Perm (_ :: (m.entries.kerase k).map Sigma.snd)
  rw [herase, hentries, List.map_append, List.map_cons, List.map_append]
  exact List.perm_middle

end AList

/-! ### Summaries -/

variable {α K β : Type} [DecidableEq K]

/-- The map has, for every key of an item, the summary of the items with that key. -/
def Tally (key : α → K) (summary : List α → β) (m : AList fun _ : K => β) (items : List α) : Prop :=
  ∀ k, m.lookup k =
    if items.filter (fun a => key a = k) = [] then none else some (summary (items.filter fun a => key a = k))

namespace Tally
variable {key : α → K} {summary : List α → β} {m : AList fun _ : K => β} {items items' : List α} {a : α} {b : β} {k : K}

theorem nil : Tally key summary ∅ [] := fun _ => rfl

theorem perm (h : Tally key summary m items) (hperm : items.Perm items')
    (hsummary : ∀ l l', l.Perm l' → summary l = summary l') : Tally key summary m items' := by
  intro k
  have hk := hperm.filter fun a => key a = k
  rw [h k, hsummary _ _ hk]
  simp only [← List.length_eq_zero_iff, hk.length_eq]

/-- One more item: its key gets a new summary. -/
theorem cons (h : Tally key summary m items) (hb : b = summary (a :: items.filter fun a' => key a' = key a)) :
    Tally key summary (AList.insert (key a) b m) (a :: items) := by
  intro k
  by_cases hk : key a = k
  · subst hk
    rw [AList.lookup_insert, List.filter_cons_of_pos (by simp), if_neg (List.cons_ne_nil _ _), hb]
  · rw [AList.lookup_insert_ne (Ne.symm hk), List.filter_cons_of_neg (by simpa using hk), h k]

theorem lookup_ne (h : Tally key summary m (a :: items)) (hk : k ≠ key a) : m.lookup k =
    if items.filter (fun a => key a = k) = [] then none else some (summary (items.filter fun a => key a = k)) := by
  rw [h k, List.filter_cons_of_neg (by simpa using hk.symm)]

/-- One item less, and others with its key are left. -/
theorem uncons (h : Tally key summary m (a :: items)) (hb : b = summary (items.filter fun a' => key a' = key a))
    (hrest : items.filter (fun a' => key a' = key a) ≠ []) : Tally key summary (AList.insert (key a) b m) items := by
  intro k
  by_cases hk : k = key a
  · subst hk
    rw [AList.lookup_insert, if_neg hrest, hb]
  · rw [AList.lookup_insert_ne hk, h.lookup_ne hk]

/-- One item less, and it was the last with its key. -/
theorem erase (h : Tally key summary m (a :: items)) (hrest : items.filter (fun a' => key a' = key a) = []) :
    Tally key summary (m.erase (key a)) items := by
  intro k
  by_cases hk : k = key a
  · subst hk
    rw [AList.lookup_erase, if_pos hrest]
  · rw [AList.lookup_erase_ne hk, h.lookup_ne hk]

end Tally
