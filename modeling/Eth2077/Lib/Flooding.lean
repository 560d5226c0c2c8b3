import Mathlib.Algebra.BigOperators.Ring.Finset
import Mathlib.Algebra.Order.BigOperators.Group.Finset
import Mathlib.Data.Multiset.UnionInter
import Mathlib.Data.Finset.Prod
import Mathlib.Data.Set.Insert
import Mathlib.Logic.Function.Basic
import Mathlib.Logic.Relation

/-!
# Flooding

Nodes that pass every item on once: to all their neighbours when they have it themselves, to all but the sender
when they got it. Packets travel for any length of time and overtake each other, but are not lost. Then no packet
is ever sent twice (`Inv.once`), and when none is on its way any more, an item is known wherever links lead from a
node that knows it (`Inv.closed`).
-/

namespace Flooding

variable {ι κ : Type*}

/-- A packet: who sent it, to whom, and the item it carries. -/
abbrev Packet (ι κ : Type*) := ι × ι × κ

structure State (ι κ : Type*) where
  seen : ι → Set κ
  transit : Multiset (Packet ι κ)
  /-- Everything ever sent. -/
  sent : Multiset (Packet ι κ)

/-- What `i` sends when it passes `k` on to `targets`. -/
def packets (i : ι) (k : κ) (targets : Finset ι) : Multiset (Packet ι κ) := targets.val.map fun j => (i, j, k)

theorem mem_packets {i : ι} {k : κ} {targets : Finset ι} {p : Packet ι κ} :
    p ∈ packets i k targets ↔ p.1 = i ∧ p.2.1 ∈ targets ∧ p.2.2 = k := by
  simp only [packets, Multiset.mem_map, Finset.mem_val]
  constructor
  · rintro ⟨j, hj, rfl⟩
    exact ⟨rfl, hj, rfl⟩
  · rintro ⟨rfl, hj, rfl⟩
    exact ⟨p.2.1, hj, rfl⟩

theorem nodup_packets (i : ι) (k : κ) (targets : Finset ι) : (packets i k targets).Nodup := by
  refine targets.nodup.map fun a b h => ?_
  simp only [Prod.mk.injEq, and_true, true_and] at h
  exact h

namespace State
variable [DecidableEq ι]

/-- Node `i` learns `k` and passes it on to `targets`. -/
def learn (s : State ι κ) (i : ι) (k : κ) (targets : Finset ι) : State ι κ where
  seen := Function.update s.seen i (insert k (s.seen i))
  transit := s.transit + packets i k targets
  sent := s.sent + packets i k targets

/-- A packet is taken off the wire. -/
def take [DecidableEq κ] (s : State ι κ) (p : Packet ι κ) : State ι κ := { s with transit := s.transit.erase p }

end State

/-- The steps, where `nbr i` are the nodes that `i` has links to. -/
inductive Step [DecidableEq ι] [DecidableEq κ] (nbr : ι → Finset ι) (s : State ι κ) : State ι κ → Prop
  | announce (i : ι) (k : κ) (fresh : k ∉ s.seen i) : Step nbr s (s.learn i k (nbr i))
  | receive (i j : ι) (k : κ) (h : (i, j, k) ∈ s.transit) (fresh : k ∉ s.seen j) :
      Step nbr s ((s.take (i, j, k)).learn j k ((nbr j).erase i))
  | drop (i j : ι) (k : κ) (h : (i, j, k) ∈ s.transit) (known : k ∈ s.seen j) : Step nbr s (s.take (i, j, k))

structure Inv (nbr : ι → Finset ι) (s : State ι κ) : Prop where
  link : ∀ p ∈ s.sent, p.2.1 ∈ nbr p.1 ∧ p.2.2 ∈ s.seen p.1
  once : s.sent.Nodup
  transit_le : s.transit ≤ s.sent
  passed : ∀ i k, k ∈ s.seen i → ∀ j ∈ nbr i, k ∈ s.seen j ∨ (i, j, k) ∈ s.transit

variable {nbr : ι → Finset ι} {s s' : State ι κ} {i j : ι} {k : κ}

theorem inv_start (nbr : ι → Finset ι) : Inv nbr (⟨fun _ => ∅, 0, 0⟩ : State ι κ) where
  link := by simp
  once := Multiset.nodup_zero
  transit_le := le_rfl
  passed := by simp

/-- When nothing about an item is on its way, everybody who can be reached knows it. -/
theorem Inv.closed (h : Inv nbr s) (hquiet : ∀ p ∈ s.transit, p.2.2 ≠ k) (hi : k ∈ s.seen i)
    (hpath : Relation.ReflTransGen (fun a b => b ∈ nbr a) i j) : k ∈ s.seen j := by
  induction hpath with
  | refl => exact hi
  | tail _ hlink ih => exact (h.passed _ k ih _ hlink).resolve_right fun hpacket => hquiet _ hpacket rfl

variable [DecidableEq ι]

theorem mem_seen_learn {targets : Finset ι} {k' : κ} :
    k' ∈ (s.learn i k targets).seen j ↔ k' ∈ s.seen j ∨ j = i ∧ k' = k := by
  by_cases hij : j = i
  · subst hij
    simp only [State.learn, Function.update_self, Set.mem_insert_iff, true_and]
    exact or_comm
  · simp only [State.learn, Function.update_of_ne hij, hij, false_and, or_false]

/-- The packets are no more than the links times the items. -/
theorem Inv.card_sent_le [DecidableEq κ] (h : Inv nbr s) {V : Finset ι} {K : Finset κ}
    (hV : ∀ i, (nbr i).Nonempty → i ∈ V) (hK : ∀ p ∈ s.sent, p.2.2 ∈ K) :
    s.sent.card ≤ (∑ i ∈ V, (nbr i).card) * K.card := by
  have hsub : (⟨s.sent, h.once⟩ : Finset (Packet ι κ)) ⊆
      V.biUnion fun i => ((nbr i) ×ˢ K).map ⟨fun x => (i, x), fun x y hxy => (Prod.mk.inj hxy).2⟩ := by
    intro p hp
    have hlink := h.link p hp
    rw [Finset.mem_biUnion]
    refine ⟨p.1, hV p.1 ⟨_, hlink.1⟩, Finset.mem_map.mpr ⟨p.2, ?_, rfl⟩⟩
    exact Finset.mem_product.mpr ⟨hlink.1, hK p hp⟩
  calc s.sent.card = (⟨s.sent, h.once⟩ : Finset (Packet ι κ)).card := rfl
    _ ≤ _ := Finset.card_le_card hsub
    _ ≤ ∑ i ∈ V, (((nbr i) ×ˢ K).map _).card := Finset.card_biUnion_le
    _ = ∑ i ∈ V, (nbr i).card * K.card := by simp only [Finset.card_map, Finset.card_product]
    _ = (∑ i ∈ V, (nbr i).card) * K.card := (Finset.sum_mul ..).symm

/-- A node that learns an item sends it to every neighbour that may not know it. -/
theorem Inv.learn (h : Inv nbr s) {targets : Finset ι} (fresh : k ∉ s.seen i) (hsub : targets ⊆ nbr i)
    (hall : ∀ j ∈ nbr i, j ∈ targets ∨ k ∈ s.seen j) : Inv nbr (s.learn i k targets) where
  link p hp := by
    rcases Multiset.mem_add.mp hp with hp | hp
    · exact ⟨(h.link p hp).1, mem_seen_learn.mpr (.inl (h.link p hp).2)⟩
    · obtain ⟨rfl, hj, rfl⟩ := mem_packets.mp hp
      exact ⟨hsub hj, mem_seen_learn.mpr (.inr ⟨rfl, rfl⟩)⟩
  once := by
    refine (Multiset.nodup_add.mpr ⟨h.once, nodup_packets i k targets, ?_⟩)
    rw [Multiset.disjoint_left]
    intro p hp hnew
    -- `i` has sent nothing about an item it did not know
    obtain ⟨rfl, -, rfl⟩ := mem_packets.mp hnew
    exact fresh (h.link p hp).2
  transit_le := Multiset.add_le_add_right h.transit_le
  passed i' k' hk j hj := by
    rcases mem_seen_learn.mp hk with hk | ⟨rfl, rfl⟩
    · exact (h.passed i' k' hk j hj).imp (fun hseen => mem_seen_learn.mpr (.inl hseen))
        fun htransit => Multiset.mem_add.mpr (.inl htransit)
    · rcases hall j hj with hj | hseen
      · exact .inr (Multiset.mem_add.mpr (.inr (mem_packets.mpr ⟨rfl, hj, rfl⟩)))
      · exact .inl (mem_seen_learn.mpr (.inl hseen))

variable [DecidableEq κ]

/-- Taking a packet off the wire leaves only its receiver to be told. -/
theorem mem_take {p q : Packet ι κ} (h : q ∈ s.transit) (hne : q ≠ p) : q ∈ (s.take p).transit :=
  (Multiset.mem_erase_of_ne hne).mpr h

theorem Step.inv (hs : Step nbr s s') (h : Inv nbr s) : Inv nbr s' := by
  cases hs with
  | announce i k fresh => exact h.learn fresh (Finset.Subset.refl _) fun j hj => .inl hj
  | drop i j k htransit known =>
    refine ⟨h.link, h.once, (Multiset.erase_le _ _).trans h.transit_le, fun i' k' hk j' hj' => ?_⟩
    rcases h.passed i' k' hk j' hj' with hseen | hpacket
    · exact .inl hseen
    · by_cases heq : (i', j', k') = (i, j, k)
      · cases heq
        exact .inl known
      · exact .inr (mem_take hpacket heq)
  | receive i j k htransit fresh =>
    have hlink := h.link _ (Multiset.mem_of_le h.transit_le htransit)
    -- the state with the packet gone and the item known, before it is passed on
    have hlearn := h.learn fresh (Finset.erase_subset i _) fun l hl => by
      by_cases hli : l = i
      · rw [hli]
        exact .inr hlink.2
      · exact .inl (Finset.mem_erase.mpr ⟨hli, hl⟩)
    refine ⟨hlearn.link, hlearn.once, ?_, fun i' k' hk l hl => ?_⟩
    · exact Multiset.add_le_add_right ((Multiset.erase_le _ _).trans h.transit_le)
    · rcases hlearn.passed i' k' hk l hl with hseen | hpacket
      · exact .inl hseen
      · by_cases heq : (i', l, k') = (i, j, k)
        · cases heq
          exact .inl (mem_seen_learn.mpr (.inr ⟨rfl, rfl⟩))
        · rcases Multiset.mem_add.mp hpacket with hpacket | hpacket
          · exact .inr (Multiset.mem_add.mpr (.inl (mem_take hpacket heq)))
          · exact .inr (Multiset.mem_add.mpr (.inr hpacket))

end Flooding
