import Eth2077.Lib.WeightedQuorum

/-!
# Two-phase voting with locks

The abstract protocol: in numbered rounds, correct voters cast prevotes and precommits for values.
A precommit for `h` in round `r` needs a quorum of prevotes for `h` in `r` and locks its voter on
`h`; a locked voter prevotes its lock only. `Justified` says this of a whole voting history, newest
vote first, so that the quorum behind a vote is looked for among the earlier votes.

`Justified.agreement`: two values with precommit quorums are equal, whatever rounds they belong to
and however often correct voters repeat their prevotes. When every round has at most one proposed
value, `Justified.unanimous_agreement` adds rounds in which *all* correct voters prevoted one value:
such a value is final too, provided less than a quorum leaves that round without a lock.
-/

namespace LockedVoting
open WeightedQuorum

inductive Vote (V H : Type*) where
  | prevote (v : V) (r : ℕ) (h : H)
  | precommit (v : V) (r : ℕ) (h : H)

variable {V H : Type*}

namespace Vote

def voter : Vote V H → V
  | prevote v _ _ => v
  | precommit v _ _ => v

def round : Vote V H → ℕ
  | prevote _ r _ => r
  | precommit _ r _ => r

end Vote

variable [DecidableEq V]

/-- The lock of `v` after the history `l` (newest first): its latest precommit. -/
def lock (v : V) : List (Vote V H) → Option (ℕ × H)
  | [] => none
  | .prevote _ _ _ :: l => lock v l
  | .precommit u r h :: l => if u = v then some (r, h) else lock v l

theorem mem_of_lock {v : V} {r : ℕ} {h : H} {l : List (Vote V H)} (hl : lock v l = some (r, h)) :
    .precommit v r h ∈ l := by
  induction l with
  | nil => cases hl
  | cons e l ih =>
    cases e with
    | prevote u r' h' => exact List.mem_cons_of_mem _ (ih hl)
    | precommit u r' h' =>
      simp only [lock] at hl
      split_ifs at hl with hu
      · cases hl; subst hu; exact List.mem_cons_self ..
      · exact List.mem_cons_of_mem _ (ih hl)

theorem exists_lock {v : V} {r : ℕ} {h : H} {l : List (Vote V H)} (hm : .precommit v r h ∈ l) :
    ∃ r' h', lock v l = some (r', h') := by
  induction l with
  | nil => cases hm
  | cons e l ih =>
    cases e with
    | prevote u r' h' =>
      rw [List.mem_cons] at hm
      exact ih (hm.resolve_left nofun)
    | precommit u r' h' =>
      by_cases hu : u = v
      · exact ⟨r', h', by simp [lock, hu]⟩
      · rcases List.mem_cons.mp hm with hm | hm
        · cases hm; exact absurd rfl hu
        · obtain ⟨r₁, h₁, h1⟩ := ih hm
          exact ⟨r₁, h₁, by simp [lock, hu, h1]⟩

/-- What a voting history is judged against: the weights, the voters that may misbehave, the weight
of a quorum (two of which share a correct member), and the values proposed in each round. -/
structure Setting (V H : Type*) [DecidableEq V] where
  W : Weights V
  byz : Finset V
  q : ℕ
  inter : W.total + W.of byz < 2 * q
  Proposed : ℕ → H → Prop

namespace Setting
variable (S : Setting V H)

def Correct (v : V) : Prop := v ∈ S.W.members ∧ v ∉ S.byz

/-- A quorum whose correct members all prevoted `h` in `r`. -/
def PrevoteQuorum (l : List (Vote V H)) (r : ℕ) (h : H) : Prop :=
  ∃ A : Finset V, S.q ≤ S.W.of A ∧ ∀ v ∈ A, S.Correct v → .prevote v r h ∈ l

def PrecommitQuorum (l : List (Vote V H)) (r : ℕ) (h : H) : Prop :=
  ∃ A : Finset V, S.q ≤ S.W.of A ∧ ∀ v ∈ A, S.Correct v → .precommit v r h ∈ l

/-- The histories that follow the voting rules. -/
inductive Justified : List (Vote V H) → Prop
  | nil : Justified []
  | prevote {l : List (Vote V H)} {v : V} {r : ℕ} {h : H} (hl : Justified l)
      (mono : ∀ e ∈ l, e.voter = v → e.round ≤ r)
      (unlocked : lock v l = none → S.Proposed r h)
      (locked : ∀ r' h', lock v l = some (r', h') → h = h') : Justified (.prevote v r h :: l)
  | precommit {l : List (Vote V H)} {v : V} {r : ℕ} {h : H} (hl : Justified l)
      (mono : ∀ e ∈ l, e.voter = v → e.round ≤ r)
      (quorum : S.PrevoteQuorum l r h)
      (unique : ∀ h', .precommit v r h' ∈ l → h' = h) : Justified (.precommit v r h :: l)

variable {S} {l l' : List (Vote V H)} {r r' : ℕ} {h h' : H} {v : V}

theorem PrevoteQuorum.mono (hq : S.PrevoteQuorum l r h) (hs : l ⊆ l') : S.PrevoteQuorum l' r h :=
  let ⟨A, hA, hv⟩ := hq; ⟨A, hA, fun v hvA hc => hs (hv v hvA hc)⟩

theorem PrevoteQuorum.exists_correct (hq : S.PrevoteQuorum l r h) :
    ∃ v, S.Correct v ∧ .prevote v r h ∈ l := by
  obtain ⟨A, hA, hv⟩ := hq
  obtain ⟨v, hvA, hm, hb⟩ := S.W.exists_mem hA S.inter
  exact ⟨v, ⟨hm, hb⟩, hv v hvA ⟨hm, hb⟩⟩

theorem PrecommitQuorum.exists_correct (hq : S.PrecommitQuorum l r h) :
    ∃ v, S.Correct v ∧ .precommit v r h ∈ l := by
  obtain ⟨A, hA, hv⟩ := hq
  obtain ⟨v, hvA, hm, hb⟩ := S.W.exists_mem hA S.inter
  exact ⟨v, ⟨hm, hb⟩, hv v hvA ⟨hm, hb⟩⟩

/-- A quorum whose correct members prevoted `h` in `r`, and nothing else. -/
def SteadyQuorum (S : Setting V H) (l : List (Vote V H)) (r : ℕ) (h : H) : Prop :=
  ∃ A : Finset V, S.q ≤ S.W.of A ∧ ∀ v ∈ A, S.Correct v →
    .prevote v r h ∈ l ∧ ∀ h', .prevote v r h' ∈ l → h' = h

theorem SteadyQuorum.prevoteQuorum (hs : S.SteadyQuorum l r h) : S.PrevoteQuorum l r h := by
  obtain ⟨A, hA, hv⟩ := hs
  exact ⟨A, hA, fun v hvA hc => (hv v hvA hc).1⟩

theorem SteadyQuorum.eq (hs : S.SteadyQuorum l r h) (hq : S.PrevoteQuorum l r h') : h' = h := by
  obtain ⟨A, hA, hAv⟩ := hs
  obtain ⟨B, hB, hBv⟩ := hq
  obtain ⟨z, hzA, hzB, hz⟩ := S.W.exists_common hA hB S.inter
  exact (hAv z hzA hz).2 _ (hBv z hzB hz)

theorem SteadyQuorum.cons_precommit (hs : S.SteadyQuorum l r h) :
    S.SteadyQuorum (.precommit v r' h' :: l) r h := by
  obtain ⟨A, hA, hAv⟩ := hs
  refine ⟨A, hA, fun u hu hc => ⟨List.mem_cons_of_mem _ (hAv u hu hc).1, fun b hm => ?_⟩⟩
  rw [List.mem_cons] at hm
  exact (hAv u hu hc).2 b (hm.resolve_left nofun)

namespace Justified

theorem of_append (hj : S.Justified (l ++ l')) : S.Justified l' := by
  induction l with
  | nil => exact hj
  | cons e l ih =>
    cases hj with
    | prevote hl => exact ih hl
    | precommit hl => exact ih hl

theorem mem_of_round_lt {e e' : Vote V H} (hj : S.Justified (l ++ e :: l'))
    (he : e' ∈ l ++ e :: l') (hv : e'.voter = e.voter) (hr : e'.round < e.round) : e' ∈ l' := by
  induction l with
  | nil =>
    rcases List.mem_cons.mp he with rfl | he
    · exact absurd hr (lt_irrefl _)
    · exact he
  | cons x l ih =>
    have hx : ∀ y ∈ l ++ e :: l', y.voter = x.voter → y.round ≤ x.round := by
      cases hj with
      | prevote _ mono => exact mono
      | precommit _ mono => exact mono
    have hl : S.Justified (l ++ e :: l') := of_append (l := [x]) hj
    rcases List.mem_cons.mp he with rfl | he
    · have := hx e (by simp) hv.symm; omega
    · exact ih hl he

theorem precommit_unique (hj : S.Justified l) (h1 : .precommit v r h ∈ l) (h2 : .precommit v r h' ∈ l) :
    h = h' := by
  induction hj with
  | nil => cases h1
  | prevote _ _ _ _ ih =>
    rw [List.mem_cons] at h1 h2
    exact ih (h1.resolve_left nofun) (h2.resolve_left nofun)
  | precommit _ _ _ unique ih =>
    rcases List.mem_cons.mp h1 with h1' | h1' <;> rcases List.mem_cons.mp h2 with h2' | h2'
    · cases h1'; cases h2'; rfl
    · cases h1'; exact (unique h' h2').symm
    · cases h2'; exact unique h h1'
    · exact ih h1' h2'

theorem quorum_of_precommit (hj : S.Justified l) (hm : .precommit v r h ∈ l) : S.PrevoteQuorum l r h := by
  induction hj with
  | nil => cases hm
  | prevote _ _ _ _ ih =>
    rw [List.mem_cons] at hm
    exact (ih (hm.resolve_left nofun)).mono (List.subset_cons_self ..)
  | precommit _ _ quorum _ ih =>
    rcases List.mem_cons.mp hm with hm | hm
    · cases hm; exact quorum.mono (List.subset_cons_self ..)
    · exact (ih hm).mono (List.subset_cons_self ..)

theorem le_lock (hj : S.Justified l) (hm : .precommit v r h ∈ l) (hl : lock v l = some (r', h')) :
    r ≤ r' ∧ (r = r' → h = h') := by
  refine ⟨?_, fun hr => hj.precommit_unique hm (hr ▸ mem_of_lock hl)⟩
  induction hj with
  | nil => cases hm
  | prevote _ _ _ _ ih =>
    rw [List.mem_cons] at hm
    exact ih (hm.resolve_left nofun) hl
  | @precommit l u r₁ h₁ hj mono _ _ ih =>
    simp only [lock] at hl
    split_ifs at hl with hu
    · cases hl; subst hu
      rcases List.mem_cons.mp hm with hm | hm
      · cases hm; exact le_rfl
      · exact mono _ hm rfl
    · rcases List.mem_cons.mp hm with hm | hm
      · cases hm; exact absurd rfl hu
      · exact ih hm hl

/-! ### Agreement of precommit quorums -/

/-- Once `h` has a precommit quorum in `r`, no other value gets a prevote quorum in a later round:
by induction on the length of the history at which the quorum stands. -/
theorem prevoteQuorum_eq {L : List (Vote V H)} (hL : S.Justified L) (hc : S.PrecommitQuorum L r h)
    (hs : ∃ l₀, l₀ ++ l = L) (hr : r < r') (hq : S.PrevoteQuorum l r' h') : h' = h := by
  induction hn : l.length using Nat.strong_induction_on generalizing l r' with
  | _ n ih =>
  subst hn
  obtain ⟨l₀, rfl⟩ := hs
  obtain ⟨A, hA, hAv⟩ := hq
  obtain ⟨B, hB, hBv⟩ := hc
  obtain ⟨v, hvA, hvB, hm, hb⟩ := S.W.exists_common hA hB S.inter
  obtain ⟨l₁, l₂, rfl⟩ := List.append_of_mem (hAv v hvA ⟨hm, hb⟩)
  rw [← List.append_assoc] at hL hBv
  have hpc : .precommit v r h ∈ l₂ := hL.mem_of_round_lt (hBv v hvB ⟨hm, hb⟩) rfl hr
  obtain ⟨r₁, h₁, hlock⟩ := exists_lock hpc
  have hJ : S.Justified (.prevote v r' h' :: l₂) := hL.of_append
  obtain ⟨hl₂, rfl⟩ : S.Justified l₂ ∧ h' = h₁ := by
    cases hJ with
    | prevote hl _ _ locked => exact ⟨hl, locked _ _ hlock⟩
  obtain ⟨hle, heq⟩ := hl₂.le_lock hpc hlock
  rcases Nat.lt_or_eq_of_le hle with hlt | rfl
  · refine ih l₂.length (by simp; omega) ⟨l₀ ++ l₁ ++ [.prevote v r' h'], by simp⟩ hlt ?_ rfl
    exact hl₂.quorum_of_precommit (mem_of_lock hlock)
  · exact (heq rfl).symm

theorem agreement (hj : S.Justified l) (h1 : S.PrecommitQuorum l r h) (h2 : S.PrecommitQuorum l r' h') :
    h = h' := by
  rcases Nat.lt_trichotomy r r' with hr | rfl | hr
  · obtain ⟨v, -, hv⟩ := h2.exists_correct
    exact (hj.prevoteQuorum_eq h1 ⟨[], rfl⟩ hr (hj.quorum_of_precommit hv)).symm
  · obtain ⟨A, hA, hAv⟩ := h1
    obtain ⟨B, hB, hBv⟩ := h2
    obtain ⟨v, hvA, hvB, hc⟩ := S.W.exists_common hA hB S.inter
    exact hj.precommit_unique (hAv v hvA hc) (hBv v hvB hc)
  · obtain ⟨v, -, hv⟩ := h1.exists_correct
    exact hj.prevoteQuorum_eq h2 ⟨[], rfl⟩ hr (hj.quorum_of_precommit hv)

/-! ### One proposal a round -/

/-- A voter's prevotes of rounds above its lock are for the lock; without a lock they are for a
proposed value. -/
theorem prevote_lock (hj : S.Justified l) (hm : .prevote v r h ∈ l) :
    (lock v l = none → S.Proposed r h) ∧
      ∀ r' h', lock v l = some (r', h') → r' < r → h = h' := by
  induction hj with
  | nil => cases hm
  | prevote _ _ unlocked locked ih =>
    rcases List.mem_cons.mp hm with hm | hm
    · cases hm; exact ⟨unlocked, fun r' h' hl _ => locked r' h' hl⟩
    · exact ih hm
  | @precommit l u r₁ h₁ _ mono _ _ ih =>
    rw [List.mem_cons] at hm
    have hm := hm.resolve_left nofun
    by_cases hu : u = v
    · subst hu
      refine ⟨fun hl => by simp [lock] at hl, fun r' h' hl hlt => ?_⟩
      simp only [lock, if_pos, Option.some.injEq, Prod.mk.injEq] at hl
      have := mono _ hm rfl
      simp only [Vote.round] at this; omega
    · simpa only [lock, hu, if_false] using ih hm

section OneProposal
variable (hp : ∀ r h h', S.Proposed r h → S.Proposed r h' → h = h')
include hp

/-- A voter that prevotes a second value in one round has locked on it in that round. -/
theorem precommit_of_double_vote (hj : S.Justified (.prevote v r h :: l)) (hm : .prevote v r h' ∈ l)
    (hne : h ≠ h') : .precommit v r h ∈ l := by
  cases hj with
  | prevote hl mono unlocked locked =>
    obtain ⟨hnone, hsome⟩ := hl.prevote_lock hm
    cases hlock : lock v l with
    | none => exact absurd (hp r h h' (unlocked hlock) (hnone hlock)) hne
    | some p =>
      obtain ⟨r₁, h₁⟩ := p
      obtain rfl := locked _ _ hlock
      have hle : r₁ ≤ r := mono _ (mem_of_lock hlock) rfl
      rcases Nat.lt_or_eq_of_le hle with hlt | rfl
      · exact absurd (hsome _ _ hlock hlt).symm hne
      · exact mem_of_lock hlock

theorem prevote_unique_of_no_precommit (hj : S.Justified l) (hn : ∀ u b, .precommit u r b ∉ l)
    (h1 : .prevote v r h ∈ l) (h2 : .prevote v r h' ∈ l) : h = h' := by
  induction hj with
  | nil => cases h1
  | @prevote l u r₁ x hl mono unlocked locked ih =>
    have hn' : ∀ u b, .precommit u r b ∉ l := fun u b hm => hn u b (List.mem_cons_of_mem _ hm)
    have hj' : S.Justified (.prevote u r₁ x :: l) := .prevote hl mono unlocked locked
    rcases List.mem_cons.mp h1 with h1' | h1' <;> rcases List.mem_cons.mp h2 with h2' | h2'
    · cases h1'; cases h2'; rfl
    · cases h1'
      by_contra hne
      exact hn' _ _ (precommit_of_double_vote hp hj' h2' hne)
    · cases h2'
      by_contra hne
      exact hn' _ _ (precommit_of_double_vote hp hj' h1' (Ne.symm hne))
    · exact ih hn' h1' h2'
  | precommit _ _ _ _ ih =>
    rw [List.mem_cons] at h1 h2
    exact ih (fun u b hm => hn u b (List.mem_cons_of_mem _ hm)) (h1.resolve_left nofun)
      (h2.resolve_left nofun)

theorem steadyQuorum_of_first (hj : S.Justified l) (hn : ∀ u b, .precommit u r b ∉ l)
    (hq : S.PrevoteQuorum l r h) : S.SteadyQuorum l r h := by
  obtain ⟨A, hA, hAv⟩ := hq
  refine ⟨A, hA, fun v hv hc => ⟨hAv v hv hc, fun h' hm => ?_⟩⟩
  exact prevote_unique_of_no_precommit hp hj hn hm (hAv v hv hc)

/-- Every quorum of a round is steady if those of the precommits of the round are. -/
theorem steadyQuorum_of_quorum (hj : S.Justified l)
    (hpc : ∀ u b, .precommit u r b ∈ l → S.SteadyQuorum l r b) (hq : S.PrevoteQuorum l r h) :
    S.SteadyQuorum l r h := by
  by_cases hex : ∃ u b, .precommit u r b ∈ l
  · obtain ⟨u, b, hub⟩ := hex
    have hs := hpc u b hub
    rw [hs.eq hq]
    exact hs
  · exact steadyQuorum_of_first hp hj (fun u b hub => hex ⟨u, b, hub⟩) hq

/-- A member that strays has locked elsewhere, on a steady quorum of its own. -/
theorem steadyQuorum_cons_prevote (hj : S.Justified (.prevote v r' h' :: l))
    (hpc : ∀ u b, .precommit u r b ∈ l → S.SteadyQuorum l r b) (hs : S.SteadyQuorum l r h) :
    S.SteadyQuorum (.prevote v r' h' :: l) r h := by
  have hq := hs.prevoteQuorum
  obtain ⟨A, hA, hAv⟩ := hs
  refine ⟨A, hA, fun u hu hc => ⟨List.mem_cons_of_mem _ (hAv u hu hc).1, fun b hm => ?_⟩⟩
  rcases List.mem_cons.mp hm with hm | hm
  · cases hm
    by_contra hne
    have hstray := precommit_of_double_vote hp hj (hAv _ hu hc).1 hne
    exact hne ((hpc _ _ hstray).eq hq).symm
  · exact (hAv u hu hc).2 b hm

theorem steadyQuorum_of_precommit {u : V} (hj : S.Justified l) (hm : .precommit u r h ∈ l) :
    S.SteadyQuorum l r h := by
  induction hj generalizing u r h with
  | nil => cases hm
  | prevote hl mono unlocked locked ih =>
    rw [List.mem_cons] at hm
    have hs := ih (hm.resolve_left nofun)
    exact steadyQuorum_cons_prevote hp (.prevote hl mono unlocked locked) (fun _ _ => ih) hs
  | precommit hl mono quorum unique ih =>
    rcases List.mem_cons.mp hm with hm | hm
    · cases hm
      exact (steadyQuorum_of_quorum hp hl (fun _ _ => ih) quorum).cons_precommit
    · exact (ih hm).cons_precommit

/-! ### Unanimous rounds -/

/-- A value prevoted in `r` by all correct members is the only one with a prevote quorum in `r`. -/
theorem unanimous_round (hj : S.Justified l) (hu : ∀ v, S.Correct v → .prevote v r h ∈ l)
    (hq : S.PrevoteQuorum l r h') : h' = h := by
  have hs := steadyQuorum_of_quorum hp hj (fun _ _ hm => steadyQuorum_of_precommit hp hj hm) hq
  obtain ⟨A, hA, -⟩ := hq
  exact (hs.eq ⟨A, hA, fun v _ hv => hu v hv⟩).symm

variable {U : Finset V} (hU : S.W.of U + S.W.of S.byz < S.q) (hL : S.Justified l)
  (hu : ∀ v, S.Correct v → .prevote v r h ∈ l)
  (hlock : ∀ v r' h', S.Correct v → v ∉ U → .prevote v r' h' ∈ l → r < r' →
    ∃ r₁ h₁, r₁ ≤ r ∧ .precommit v r₁ h₁ ∈ l)
include hU hL hu hlock

/-- After a unanimous round that less than a quorum leaves without a lock, only its value gets a
prevote quorum. The induction is on the length of the history at which the quorum stands. -/
theorem prevoteQuorum_of_unanimous_lt {l₀ l₁ : List (Vote V H)} (hs : l₀ ++ l₁ = l) (hr : r < r')
    (hq : S.PrevoteQuorum l₁ r' h') : h' = h := by
  induction hn : l₁.length using Nat.strong_induction_on generalizing l₀ l₁ r' with
  | _ n ih =>
  subst hn hs
  obtain ⟨A, hA, hAv⟩ := hq
  obtain ⟨v, hvA, hvU, hv⟩ : ∃ v ∈ A, v ∉ U ∧ S.Correct v := by
    obtain ⟨v, hvA, hvm, hvn⟩ := S.W.exists_mem_of_lt (B := U ∪ S.byz) (by
      have := S.W.of_union_add_of_inter U S.byz
      omega : S.W.of (U ∪ S.byz) < S.W.of A)
    rw [Finset.mem_union, not_or] at hvn
    exact ⟨v, hvA, hvn.1, hvm, hvn.2⟩
  have hvl := hAv v hvA hv
  obtain ⟨l₂, l₃, rfl⟩ := List.append_of_mem hvl
  rw [← List.append_assoc] at hL hu hlock
  obtain ⟨r₁, h₁, hr₁, hpc⟩ := hlock v r' h' hv hvU (by simp) hr
  have hpc' : .precommit v r₁ h₁ ∈ l₃ := hL.mem_of_round_lt hpc rfl (by simp only [Vote.round]; omega)
  obtain ⟨r₂, h₂, hl₂⟩ := exists_lock hpc'
  have hJ : S.Justified (.prevote v r' h' :: l₃) := hL.of_append
  obtain ⟨hl, rfl⟩ : S.Justified l₃ ∧ h' = h₂ := by
    cases hJ with
    | prevote hl _ _ locked => exact ⟨hl, locked _ _ hl₂⟩
  have hvh : .prevote v r h ∈ l₃ := hL.mem_of_round_lt (hu v hv) rfl hr
  rcases Nat.lt_trichotomy r r₂ with hlt | rfl | hlt
  · -- locked after `r`, on an earlier quorum
    have hs : (l₀ ++ l₂ ++ [.prevote v r' h']) ++ l₃ = l₀ ++ (l₂ ++ .prevote v r' h' :: l₃) := by simp
    exact ih l₃.length (by simp; omega) hs hlt (hl.quorum_of_precommit (mem_of_lock hl₂)) rfl
  · have hq := hl.quorum_of_precommit (mem_of_lock hl₂)
    exact unanimous_round hp hL hu (hq.mono fun e he => by simp [he])
  · exact ((hl.prevote_lock hvh).2 _ _ hl₂ hlt).symm

theorem prevoteQuorum_of_unanimous (hr : r ≤ r') (hq : S.PrevoteQuorum l r' h') : h' = h := by
  rcases Nat.lt_or_eq_of_le hr with hlt | rfl
  · exact prevoteQuorum_of_unanimous_lt hp hU hL hu hlock (List.nil_append l) hlt hq
  · exact unanimous_round hp hL hu hq

/-- A unanimous value and a value with a precommit quorum agree, before, in or after that round. -/
theorem unanimous_agreement (hq : S.q ≤ S.W.total) (hc : S.PrecommitQuorum l r' h') : h' = h := by
  rcases Nat.lt_or_ge r' r with hlt | hge
  · exact (hL.prevoteQuorum_eq hc ⟨[], rfl⟩ hlt ⟨S.W.members, hq, fun v _ hv => hu v hv⟩).symm
  · obtain ⟨v, -, hv⟩ := hc.exists_correct
    exact prevoteQuorum_of_unanimous hp hU hL hu hlock hge (hL.quorum_of_precommit hv)

end OneProposal

end Justified

end Setting

end LockedVoting
