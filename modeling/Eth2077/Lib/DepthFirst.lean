import Mathlib.Data.Finset.Card
import Mathlib.Data.Fintype.Card
import Mathlib.Data.List.Chain
import Mathlib.Logic.Function.Basic
import Mathlib.Logic.Relation

/-!
# Depth-first search for a cycle

A search over a graph marks the nodes of the path it is on, and those it is done with, and stops at an edge back to the
path. The stack is the path, so what it stops with is a cycle. The finished nodes are closed under edges and on no cycle, so
if it never stops there is none. More fuel than nodes is enough.
-/

namespace DepthFirst

inductive Mark where
  | unseen
  | onPath
  | finished
deriving DecidableEq

structure Search (V : Type*) where
  mark : V → Mark
  stack : List V

inductive Outcome (V : Type*) where
  | outOfFuel
  | found (cycle : List V)
  | clear (s : Search V)

def start {V : Type*} : Search V := ⟨fun _ => .unseen, []⟩

/-- A loop over nodes that returns early with a cycle. -/
def visitAll {V : Type*} (visit : V → Search V → Outcome V) : List V → Search V → Outcome V
  | [], s => .clear s
  | v :: vs, s =>
    match visit v s with
    | .clear s => visitAll visit vs s
    | .found cycle => .found cycle
    | .outOfFuel => .outOfFuel

/-- From a node to itself along edges. -/
def IsCycle {V : Type*} (step : V → V → Prop) (cycle : List V) : Prop :=
  ∃ v path, cycle = v :: (path ++ [v]) ∧ cycle.IsChain step

def Cyclic {V : Type*} (step : V → V → Prop) : Prop := ∃ v, Relation.TransGen step v v

theorem IsCycle.cyclic {V : Type*} {step : V → V → Prop} {cycle : List V} (h : IsCycle step cycle) : Cyclic step := by
  obtain ⟨v, path, rfl, hchain⟩ := h
  obtain ⟨w, rest, hrest⟩ := List.exists_cons_of_ne_nil (List.append_ne_nil_of_right_ne_nil path (List.cons_ne_nil v []))
  rw [hrest, List.isChain_cons_cons] at hchain
  refine ⟨v, .head' hchain.1 (List.relationReflTransGen_of_exists_isChain_cons rest hchain.2 ?_)⟩
  simp [← hrest]

/-! ### The search -/

section Search
variable {V : Type*} [DecidableEq V]

namespace Search

def push (s : Search V) (node : V) : Search V := ⟨Function.update s.mark node .onPath, s.stack ++ [node]⟩

def pop (s : Search V) (node : V) : Search V := ⟨Function.update s.mark node .finished, s.stack.dropLast⟩

end Search

/-- The stack from the first entry of a node on. -/
def cycleAt (stack : List V) (node : V) : List V := stack.drop ((stack.findIdx? (· = node)).getD 0) ++ [node]

def dfs (adj : V → List V) : ℕ → V → Search V → Outcome V
  | 0, _, _ => .outOfFuel
  | fuel + 1, node, s =>
    match s.mark node with
    | .onPath => .found (cycleAt s.stack node)
    | .finished => .clear s
    | .unseen =>
      match visitAll (dfs adj fuel) (adj node) (s.push node) with
      | .clear s => .clear (s.pop node)
      | .found cycle => .found cycle
      | .outOfFuel => .outOfFuel

/-- From every node that is not yet seen. -/
def searchAll (adj : V → List V) (fuel : ℕ) : List V → Search V → Outcome V :=
  visitAll fun v s => if s.mark v = .unseen then dfs adj fuel v s else .clear s

end Search

/-! ### The invariant -/

variable {V : Type*} {adj : V → List V} {node v w : V} {s s' s'' : Search V}

/-- The edges of a search. -/
def Step (adj : V → List V) (a b : V) : Prop := b ∈ adj a

structure Inv (adj : V → List V) (s : Search V) : Prop where
  path : s.stack.IsChain (Step adj)
  onPath : ∀ v, s.mark v = .onPath ↔ v ∈ s.stack
  closed : ∀ v, s.mark v = .finished → ∀ w ∈ adj v, s.mark w = .finished
  acyclic : ∀ v, s.mark v = .finished → ¬ Relation.TransGen (Step adj) v v

theorem inv_start : Inv adj start where
  path := .nil
  onPath v := by simp [start]
  closed v h := by simp [start] at h
  acyclic v h := by simp [start] at h

theorem Inv.finished_of_reach (h : Inv adj s) (hv : s.mark v = .finished) (hreach : Relation.ReflTransGen (Step adj) v w) :
    s.mark w = .finished := by
  induction hreach with
  | refl => exact hv
  | tail _ hstep ih => exact h.closed _ ih _ hstep

/-- What is finished stays so, and the path is the same. -/
structure Extends (s s' : Search V) : Prop where
  stack : s'.stack = s.stack
  onPath : ∀ v, s'.mark v = .onPath ↔ s.mark v = .onPath
  finished : ∀ v, s.mark v = .finished → s'.mark v = .finished

theorem Extends.refl (s : Search V) : Extends s s := ⟨rfl, fun _ => .rfl, fun _ => id⟩

theorem Extends.trans (h : Extends s s') (h' : Extends s' s'') : Extends s s'' :=
  ⟨h'.stack.trans h.stack, fun v => (h'.onPath v).trans (h.onPath v), fun v hv => h'.finished v (h.finished v hv)⟩

/-! ### One node -/

section Node
variable [DecidableEq V]

/-- An edge back to the path closes a cycle. -/
theorem isCycle_cycleAt {stack : List V} (hpath : stack.IsChain (Step adj)) (hmem : node ∈ stack)
    (hedge : ∀ parent ∈ stack.getLast?, node ∈ adj parent) : IsCycle (Step adj) (cycleAt stack node) := by
  obtain ⟨i, hi⟩ : ∃ i, stack.findIdx? (· = node) = some i := by
    rw [← Option.isSome_iff_exists, List.findIdx?_isSome, List.any_eq_true]
    exact ⟨node, hmem, decide_eq_true rfl⟩
  obtain ⟨hlt, hnode, -⟩ := List.findIdx?_eq_some_iff_getElem.mp hi
  have hdrop : stack.drop i = node :: stack.drop (i + 1) := by
    rw [List.drop_eq_getElem_cons hlt, of_decide_eq_true hnode]
  rw [cycleAt, hi, Option.getD_some]
  refine ⟨node, stack.drop (i + 1), by rw [hdrop, List.cons_append], ?_⟩
  refine List.isChain_append.mpr ⟨hpath.drop i, List.isChain_singleton node, fun parent hparent y hy => ?_⟩
  rw [List.getLast?_drop, if_neg (Nat.not_le_of_lt hlt)] at hparent
  obtain rfl := Option.some.inj hy
  exact hedge parent hparent

theorem Inv.push (h : Inv adj s) (hnode : s.mark node = .unseen)
    (hedge : ∀ parent ∈ s.stack.getLast?, node ∈ adj parent) : Inv adj (s.push node) := by
  have hfinished : ∀ v, (s.push node).mark v = .finished ↔ s.mark v = .finished := by
    intro v
    by_cases hv : v = node
    · simp [Search.push, hv, hnode]
    · simp [Search.push, hv]
  refine ⟨?_, fun v => ?_, fun v hv w hw => ?_, fun v hv => ?_⟩
  · refine List.isChain_append.mpr ⟨h.path, List.isChain_singleton node, fun parent hparent y hy => ?_⟩
    obtain rfl := Option.some.inj hy
    exact hedge parent hparent
  · by_cases hv : v = node
    · simp [Search.push, hv]
    · simp [Search.push, hv, h.onPath]
  · rw [hfinished] at hv ⊢
    exact h.closed v hv w hw
  · exact h.acyclic v ((hfinished v).mp hv)

/-- When all that a node leads to is finished, so is the node. -/
theorem Inv.pop (h : Inv adj s) (hnode : s.mark node = .unseen) (h' : Inv adj s') (hext : Extends (s.push node) s')
    (hdone : ∀ w ∈ adj node, s'.mark w = .finished) : Inv adj (s'.pop node) ∧ Extends s (s'.pop node) := by
  have hstack : (s'.pop node).stack = s.stack := by
    rw [Search.pop, hext.stack, Search.push, List.dropLast_concat]
  have hmark : s'.mark node = .onPath := (hext.onPath node).mpr (by simp [Search.push])
  have hnotin : node ∉ s.stack := by
    rw [← h.onPath, hnode]
    exact Mark.noConfusion
  have hfinished : ∀ v, (s'.pop node).mark v = .finished ↔ v = node ∨ s'.mark v = .finished := by
    intro v
    by_cases hv : v = node <;> simp [Search.pop, hv]
  have honPath : ∀ v, (s'.pop node).mark v = .onPath ↔ s.mark v = .onPath := by
    intro v
    by_cases hv : v = node
    · simp [Search.pop, hv, hnode]
    · have hsame := hext.onPath v
      simpa [Search.pop, Search.push, hv] using hsame
  refine ⟨⟨?_, fun v => ?_, fun v hv w hw => ?_, fun v hv hcycle => ?_⟩, hstack, honPath, fun v hv => ?_⟩
  · rw [hstack]
    exact h.path
  · rw [hstack, honPath, h.onPath]
  · rw [hfinished]
    rcases (hfinished v).mp hv with rfl | hv
    · exact .inr (hdone w hw)
    · exact .inr (h'.closed v hv w hw)
  · rcases (hfinished v).mp hv with rfl | hv
    · -- a cycle through the node comes back to it from what was finished before
      obtain ⟨w, hstep, hreach⟩ := Relation.TransGen.head'_iff.mp hcycle
      cases hmark.symm.trans (h'.finished_of_reach (hdone w hstep) hreach)
    · exact h'.acyclic v hv hcycle
  · refine (hfinished v).mpr (.inr (hext.finished v ?_))
    have hne : v ≠ node := by
      rintro rfl
      cases hnode.symm.trans hv
    simpa [Search.push, hne] using hv

end Node

/-! ### All nodes -/

variable [Fintype V]

def unseen (s : Search V) : Finset V := Finset.univ.filter fun v => s.mark v = .unseen

theorem mem_unseen : v ∈ unseen s ↔ s.mark v = .unseen := by simp [unseen]

theorem Extends.unseen (h : Extends s s') : (unseen s').card ≤ (unseen s).card := by
  refine Finset.card_le_card fun v hv => ?_
  rw [mem_unseen] at hv ⊢
  cases hmark : s.mark v with
  | unseen => rfl
  | onPath => cases hv.symm.trans ((h.onPath v).mpr hmark)
  | finished => cases hv.symm.trans (h.finished v hmark)

/-- What a visit of some nodes may come to. -/
def Spec (adj : V → List V) (fuel : ℕ) (s : Search V) (nodes : List V) : Outcome V → Prop
  | .outOfFuel => fuel ≤ (unseen s).card
  | .found cycle => IsCycle (Step adj) cycle
  | .clear s' => Inv adj s' ∧ Extends s s' ∧ ∀ v ∈ nodes, s'.mark v = .finished

/-- The visits of a loop one after the other. -/
theorem visitAll_spec {fuel : ℕ} {visit : V → Search V → Outcome V} {nodes : List V} (hinv : Inv adj s)
    (hvisit : ∀ v ∈ nodes, ∀ s', Inv adj s' → s'.stack = s.stack → Spec adj fuel s' [v] (visit v s')) :
    Spec adj fuel s nodes (visitAll visit nodes s) := by
  induction nodes generalizing s with
  | nil => exact ⟨hinv, .refl s, fun v hv => absurd hv List.not_mem_nil⟩
  | cons v vs ih =>
    have hfirst := hvisit v List.mem_cons_self s hinv rfl
    rw [visitAll]
    cases hv : visit v s with
    | outOfFuel =>
      rw [hv] at hfirst
      exact hfirst
    | found cycle =>
      rw [hv] at hfirst
      exact hfirst
    | clear s' =>
      rw [hv] at hfirst
      obtain ⟨hinv', hext, hdone⟩ := hfirst
      have hrest := ih hinv' fun w hw s'' hs'' hstack =>
        hvisit w (List.mem_cons_of_mem _ hw) s'' hs'' (hstack.trans hext.stack)
      dsimp only
      cases hvs : visitAll visit vs s' with
      | outOfFuel =>
        rw [hvs] at hrest
        exact le_trans hrest hext.unseen
      | found cycle =>
        rw [hvs] at hrest
        exact hrest
      | clear s'' =>
        rw [hvs] at hrest
        obtain ⟨hinv'', hext', hdone'⟩ := hrest
        refine ⟨hinv'', hext.trans hext', fun w hw => ?_⟩
        rcases List.mem_cons.mp hw with rfl | hw
        · exact hext'.finished w (hdone w List.mem_cons_self)
        · exact hdone' w hw

variable [DecidableEq V]

theorem unseen_push (h : s.mark node = .unseen) : (unseen s).card = (unseen (s.push node)).card + 1 := by
  have hpush : unseen (s.push node) = (unseen s).erase node := by
    ext v
    rw [Finset.mem_erase, mem_unseen, mem_unseen, Search.push]
    by_cases hv : v = node <;> simp [hv]
  rw [hpush, Finset.card_erase_add_one (mem_unseen.mpr h)]

/-- The search from a node that is reached by an edge from the end of the path. -/
theorem dfs_spec (fuel : ℕ) {node : V} {s : Search V} (hinv : Inv adj s)
    (hedge : ∀ parent ∈ s.stack.getLast?, node ∈ adj parent) : Spec adj fuel s [node] (dfs adj fuel node s) := by
  induction fuel generalizing node s with
  | zero => exact Nat.zero_le _
  | succ fuel ih =>
    rw [dfs]
    cases hnode : s.mark node with
    | onPath => exact isCycle_cycleAt hinv.path ((hinv.onPath node).mp hnode) hedge
    | finished =>
      refine ⟨hinv, .refl s, fun v hv => ?_⟩
      rw [List.mem_singleton.mp hv, hnode]
    | unseen =>
      have hpush := hinv.push hnode hedge
      have hloop : Spec adj fuel (s.push node) (adj node) (visitAll (dfs adj fuel) (adj node) (s.push node)) := by
        refine visitAll_spec hpush fun v hv s' hs' hstack => ih hs' fun parent hparent => ?_
        rw [hstack, Search.push, List.getLast?_concat] at hparent
        rwa [← Option.some.inj hparent]
      dsimp only
      cases hvisit : visitAll (dfs adj fuel) (adj node) (s.push node) with
      | outOfFuel =>
        rw [hvisit] at hloop
        have hcard := unseen_push hnode
        show fuel + 1 ≤ (unseen s).card
        rw [hcard]
        exact Nat.succ_le_succ hloop
      | found cycle =>
        rw [hvisit] at hloop
        exact hloop
      | clear s' =>
        rw [hvisit] at hloop
        obtain ⟨hinv', hext, hdone⟩ := hloop
        obtain ⟨hpop, hext'⟩ := hinv.pop hnode hinv' hext hdone
        refine ⟨hpop, hext', fun v hv => ?_⟩
        simp [List.mem_singleton.mp hv, Search.pop]

/-- With more fuel than nodes the search of all nodes comes to a cycle, or to none where there is none. -/
theorem searchAll_spec (adj : V → List V) {fuel : ℕ} (hfuel : Fintype.card V < fuel) {nodes : List V}
    (hall : ∀ v, v ∈ nodes) :
    (∃ cycle, searchAll adj fuel nodes start = .found cycle ∧ IsCycle (Step adj) cycle) ∨
      (∃ s, searchAll adj fuel nodes start = .clear s) ∧ ¬ Cyclic (Step adj) := by
  have hspec : Spec adj fuel start nodes (searchAll adj fuel nodes start) := by
    refine visitAll_spec inv_start fun v _ s hs hstack => ?_
    split_ifs with hv
    · exact dfs_spec fuel hs (by simp [hstack, start])
    · refine ⟨hs, .refl s, fun w hw => ?_⟩
      obtain rfl := List.mem_singleton.mp hw
      cases hmark : s.mark w with
      | unseen => exact absurd hmark hv
      | onPath =>
        have hmem := (hs.onPath w).mp hmark
        rw [hstack] at hmem
        cases hmem
      | finished => rfl
  cases hsearch : searchAll adj fuel nodes start with
  | outOfFuel =>
    rw [hsearch] at hspec
    have hcard : (unseen (start : Search V)).card ≤ Fintype.card V := Finset.card_le_univ _
    exact absurd (le_trans hspec hcard) (Nat.not_le_of_lt hfuel)
  | found cycle =>
    rw [hsearch] at hspec
    exact .inl ⟨cycle, rfl, hspec⟩
  | clear s =>
    rw [hsearch] at hspec
    obtain ⟨hinv, -, hdone⟩ := hspec
    exact .inr ⟨⟨s, rfl⟩, fun ⟨v, hcycle⟩ => hinv.acyclic v (hdone v (hall v)) hcycle⟩

end DepthFirst
