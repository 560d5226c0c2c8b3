import Mathlib.Data.List.Basic
import Mathlib.Tactic.SplitIfs

/-!
# Computations that fail or panic

A fallible computation returns, or fails with an error its caller handles, or panics. `ExceptT ε (Except π)` has
both: the error of type `ε` is handed to the caller, the one of type `π` is not. `Safe` says that a computation
does not panic and `Succeeds` that it returns; the rules take both through sequencing and loops.
-/

namespace Fallible

variable {π ε ε' α β : Type}

/-! ### Without errors -/

/-- No panic. -/
def Completes (x : Except π α) : Prop := ∃ a, x = .ok a

@[simp] theorem completes_ok (a : α) : Completes (.ok a : Except π α) := ⟨a, rfl⟩

@[simp] theorem completes_pure (a : α) : Completes (pure a : Except π α) := ⟨a, rfl⟩

@[simp] theorem not_completes_error (p : π) : ¬ Completes (.error p : Except π α) := nofun

theorem completes_bind {x : Except π α} {f : α → Except π β} :
    Completes (x >>= f) ↔ Completes x ∧ ∀ a, x = .ok a → Completes (f a) := by
  cases x with
  | error p => exact iff_of_false (not_completes_error p) fun h => not_completes_error p h.1
  | ok a => simp [bind, Except.bind]

/-- What follows cannot panic. -/
theorem completes_bind_of_forall {x : Except π α} {f : α → Except π β} (h : ∀ a, Completes (f a)) :
    Completes (x >>= f) ↔ Completes x :=
  completes_bind.trans (and_iff_left fun a _ => h a)

theorem completes_mapM {f : α → Except π β} {l : List α} :
    Completes (l.mapM f) ↔ ∀ a ∈ l, Completes (f a) := by
  induction l with
  | nil => simp
  | cons a l ih =>
    rw [List.mapM_cons, completes_bind, List.forall_mem_cons]
    refine and_congr_right fun hf => ?_
    obtain ⟨b, hb⟩ := hf
    simp only [hb, Except.ok.injEq, forall_eq', ← ih]
    exact completes_bind_of_forall fun _ => completes_pure _

/-! ### With errors -/

section Errors
variable {x : ExceptT ε (Except π) α} {f : α → ExceptT ε (Except π) β}

/-- It returns or fails, and does not panic. -/
def Safe (x : ExceptT ε (Except π) α) : Prop := Completes x.run

def Returns (x : ExceptT ε (Except π) α) (a : α) : Prop := x.run = .ok (.ok a)

def Succeeds (x : ExceptT ε (Except π) α) : Prop := ∃ a, Returns x a

/-- `x?` for a result that cannot panic, with `f` of its error. -/
def orFail (f : ε' → ε) : Except ε' α → ExceptT ε (Except π) α
  | .ok a => pure a
  | .error e => throw (f e)

/-- A call that cannot fail but may panic. -/
def orPanic (x : Except π α) : ExceptT ε (Except π) α := ExceptT.mk (x.map .ok)

@[simp] theorem safe_pure (a : α) : Safe (pure a : ExceptT ε (Except π) α) := ⟨_, rfl⟩

@[simp] theorem safe_throw (e : ε) : Safe (throw e : ExceptT ε (Except π) α) := ⟨_, rfl⟩

@[simp] theorem returns_pure {a b : α} : Returns (pure a : ExceptT ε (Except π) α) b ↔ a = b := by
  simp [Returns, pure, ExceptT.pure, ExceptT.run, ExceptT.mk, Except.pure]

@[simp] theorem succeeds_pure (a : α) : Succeeds (pure a : ExceptT ε (Except π) α) := ⟨a, rfl⟩

@[simp] theorem not_returns_throw {e : ε} {a : α} : ¬ Returns (throw e : ExceptT ε (Except π) α) a := nofun

theorem safe_bind : Safe (x >>= f) ↔ Safe x ∧ ∀ a, Returns x a → Safe (f a) := by
  rcases hx : x.run with p | e | a
  · have hpanic : (x >>= f).run = .error p := by rw [ExceptT.run_bind, hx]; rfl
    simp [Safe, hpanic, hx]
  · have hfail : (x >>= f).run = .ok (.error e) := by rw [ExceptT.run_bind, hx]; rfl
    simp [Safe, Returns, hfail, hx]
  · have hreturn : (x >>= f).run = (f a).run := by rw [ExceptT.run_bind, hx]; rfl
    simp [Safe, Returns, hreturn, hx]

theorem returns_bind {b : β} : Returns (x >>= f) b ↔ ∃ a, Returns x a ∧ Returns (f a) b := by
  rcases hx : x.run with p | e | a
  · have hpanic : (x >>= f).run = .error p := by rw [ExceptT.run_bind, hx]; rfl
    simp [Returns, hpanic, hx]
  · have hfail : (x >>= f).run = .ok (.error e) := by rw [ExceptT.run_bind, hx]; rfl
    simp [Returns, hfail, hx]
  · have hreturn : (x >>= f).run = (f a).run := by rw [ExceptT.run_bind, hx]; rfl
    simp [Returns, hreturn, hx]

/-- Whether the rest panics does not depend on what was read first. -/
theorem safe_bind_const {P : Prop} (h : ∀ a, Safe (f a) ↔ P) : Safe (x >>= f) ↔ Safe x ∧ (Succeeds x → P) := by
  simp only [safe_bind, h, Succeeds, forall_exists_index]

theorem succeeds_bind_const {P : Prop} (h : ∀ a, Succeeds (f a) ↔ P) : Succeeds (x >>= f) ↔ Succeeds x ∧ P := by
  constructor
  · rintro ⟨b, hb⟩
    obtain ⟨a, ha, hb⟩ := returns_bind.mp hb
    exact ⟨⟨a, ha⟩, (h a).mp ⟨b, hb⟩⟩
  · rintro ⟨⟨a, ha⟩, hP⟩
    obtain ⟨b, hb⟩ := (h a).mpr hP
    exact ⟨b, returns_bind.mpr ⟨a, ha, hb⟩⟩

/-- A check of what was read first; what the rest does depends on nothing else of it. -/
theorem safe_bind_guard {c : α → Prop} [DecidablePred c] {e : α → ε} {P : Prop}
    (h : ∀ a, ¬ c a → (Safe (f a) ↔ P)) :
    Safe (x >>= fun a => if c a then throw (e a) else f a) ↔ Safe x ∧ ((∃ a, Returns x a ∧ ¬ c a) → P) := by
  rw [safe_bind, and_congr_right_iff]
  intro _
  constructor
  · rintro hrest ⟨a, ha, hc⟩
    have := hrest a ha
    rwa [if_neg hc, h a hc] at this
  · intro hP a ha
    split_ifs with hc
    · exact safe_throw (e a)
    · exact (h a hc).mpr (hP ⟨a, ha, hc⟩)

theorem succeeds_bind_guard {c : α → Prop} [DecidablePred c] {e : α → ε} {P : Prop}
    (h : ∀ a, ¬ c a → (Succeeds (f a) ↔ P)) :
    Succeeds (x >>= fun a => if c a then throw (e a) else f a) ↔ (∃ a, Returns x a ∧ ¬ c a) ∧ P := by
  constructor
  · rintro ⟨b, hb⟩
    obtain ⟨a, ha, hb⟩ := returns_bind.mp hb
    split_ifs at hb with hc
    · cases hb
    · exact ⟨⟨a, ha, hc⟩, (h a hc).mp ⟨b, hb⟩⟩
  · rintro ⟨⟨a, ha, hc⟩, hP⟩
    obtain ⟨b, hb⟩ := (h a hc).mpr hP
    refine ⟨b, returns_bind.mpr ⟨a, ha, ?_⟩⟩
    rwa [if_neg hc]

@[simp] theorem safe_orFail (f : ε' → ε) (y : Except ε' α) : Safe (orFail f y : ExceptT ε (Except π) α) := by
  cases y with
  | error e => exact safe_throw (f e)
  | ok a => exact safe_pure a

@[simp] theorem returns_orFail {f : ε' → ε} {y : Except ε' α} {a : α} :
    Returns (orFail f y : ExceptT ε (Except π) α) a ↔ y = .ok a := by
  cases y with
  | error e => exact iff_of_false not_returns_throw nofun
  | ok b => simp [orFail]

@[simp] theorem safe_orPanic {y : Except π α} : Safe (orPanic y : ExceptT ε (Except π) α) ↔ Completes y := by
  cases y with
  | error p => exact iff_of_false (not_completes_error p) (not_completes_error p)
  | ok a => exact iff_of_true ⟨_, rfl⟩ ⟨_, rfl⟩

@[simp] theorem returns_orPanic {y : Except π α} {a : α} :
    Returns (orPanic y : ExceptT ε (Except π) α) a ↔ y = .ok a := by
  cases y with
  | error p => exact iff_of_false nofun nofun
  | ok b => simp [Returns, orPanic, ExceptT.run, ExceptT.mk, Except.map]

/-- Whatever it returns has the property. -/
def Yields (x : ExceptT ε (Except π) α) (P : α → Prop) : Prop := ∀ a, Returns x a → P a

theorem yields_pure {P : α → Prop} {a : α} (h : P a) : Yields (pure a : ExceptT ε (Except π) α) P := by
  intro b hb
  rw [returns_pure] at hb
  exact hb ▸ h

theorem yields_throw {P : α → Prop} {e : ε} : Yields (throw e : ExceptT ε (Except π) α) P := fun _ h => nomatch h

theorem yields_bind {P : β → Prop} (h : ∀ a, Yields (f a) P) : Yields (x >>= f) P := by
  intro b hb
  obtain ⟨a, -, hb⟩ := returns_bind.mp hb
  exact h a b hb

theorem yields_ite {P : α → Prop} {c : Prop} [Decidable c] {y : ExceptT ε (Except π) α} (hx : Yields x P)
    (hy : Yields y P) : Yields (if c then x else y) P := by
  split_ifs
  · exact hx
  · exact hy

theorem succeeds_mapM {l : List α} : Succeeds (l.mapM f) ↔ ∀ a ∈ l, Succeeds (f a) := by
  induction l with
  | nil => simp
  | cons a l ih =>
    have hrest : ∀ b, Succeeds (l.mapM f >>= fun bs => pure (b :: bs)) ↔ ∀ a ∈ l, Succeeds (f a) := by
      intro b
      rw [succeeds_bind_const fun _ => iff_true_intro (succeeds_pure _), ih, and_true]
    rw [List.mapM_cons, succeeds_bind_const hrest, List.forall_mem_cons]

/-- A loop stops at the first turn that fails, so only the turns up to there can panic. -/
theorem safe_mapM_range {g : ℕ → ExceptT ε (Except π) β} {n : ℕ} : Safe ((List.range n).mapM g) ↔
    ∀ i < n, (∀ j < i, Succeeds (g j)) → Safe (g i) := by
  induction n with
  | zero => simp
  | succ n ih =>
    have hlast : ∀ bs, Safe ([n].mapM g >>= fun bs' => pure (bs ++ bs')) ↔ Safe (g n) := by
      intro bs
      rw [safe_bind_const fun _ => iff_true_intro (safe_pure _), List.mapM_cons, List.mapM_nil]
      simp only [pure_bind]
      rw [safe_bind_const fun _ => iff_true_intro (safe_pure _)]
      simp
    rw [List.range_succ, List.mapM_append, safe_bind_const hlast, ih, succeeds_mapM]
    simp only [List.mem_range, Nat.lt_succ_iff_lt_or_eq]
    constructor
    · rintro ⟨hbefore, hn⟩ i (hi | rfl) hsucceeds
      · exact hbefore i hi hsucceeds
      · exact hn hsucceeds
    · intro h
      exact ⟨fun i hi => h i (.inl hi), h n (.inr rfl)⟩

end Errors

end Fallible
