import Mathlib.Data.List.Induction
import Mathlib.Tactic.Common

/-!
# Runs of a state machine

A machine is a partial step function: a label that is not enabled in a state gives `none`. An invariant
may need a condition on the steps of a run, to be met in the state each step is taken in; the rules
below carry it from one step to whole runs, and say when the condition is not only enough but exact.
-/

namespace Run

variable {S L : Type*} (step : S → L → Option S)

def exec : S → List L → Option S
  | s, [] => some s
  | s, l :: ls => (step s l).bind fun s => exec s ls

/-- Every step of the run from `s` is taken in a state where `C` holds of it. -/
def Along (C : S → L → Prop) (s : S) (ls : List L) : Prop :=
  ∀ pre l post, ls = pre ++ l :: post → ∀ m, exec step s pre = some m → C m l

/-- `P` holds in every state of the run. -/
def Throughout (P : S → Prop) (s : S) (ls : List L) : Prop :=
  ∀ pre post, ls = pre ++ post → ∀ m, exec step s pre = some m → P m

variable {step} {C : S → L → Prop} {P I : S → Prop} {s t : S} {ls ls' : List L} {l : L}

theorem exec_append : exec step s (ls ++ ls') = (exec step s ls).bind fun m => exec step m ls' := by
  induction ls generalizing s with
  | nil => rfl
  | cons l ls ih =>
    simp only [List.cons_append, exec, Option.bind_assoc, ih]

theorem exec_concat : exec step s (ls ++ [l]) = some t ↔ ∃ m, exec step s ls = some m ∧ step m l = some t := by
  rw [exec_append, Option.bind_eq_some_iff]
  simp [exec]

theorem exec_split {pre post : List L} {m : S} (h : exec step s (pre ++ l :: post) = some t)
    (hm : exec step s pre = some m) : ∃ m', step m l = some m' ∧ exec step m' post = some t := by
  rw [exec_append, hm, Option.bind_some, exec, Option.bind_eq_some_iff] at h
  exact h

theorem Along.of_append (h : Along step C s (ls ++ ls')) : Along step C s ls := by
  rintro pre l post rfl m hm
  exact h pre l (post ++ ls') (by simp) m hm

theorem Along.after {m : S} (h : Along step C s (ls ++ ls')) (hm : exec step s ls = some m) : Along step C m ls' := by
  rintro pre l post rfl m' hm'
  refine h (ls ++ pre) l post (by simp) m' ?_
  rw [exec_append, hm, Option.bind_some, hm']

theorem along_nil : Along step C s [] := by
  intro pre l post h
  simp at h

theorem Along.cons {m : S} (h : C s l) (hstep : step s l = some m) (hrest : Along step C m ls) :
    Along step C s (l :: ls) := by
  intro pre l' post heq m' hm'
  rcases List.cons_eq_append_iff.mp heq with ⟨rfl, hcons⟩ | ⟨pre, rfl, hls⟩
  · obtain ⟨rfl, -⟩ := List.cons.inj hcons
    obtain rfl := Option.some_inj.mp hm'
    exact h
  · rw [exec, hstep, Option.bind_some] at hm'
    exact hrest pre l' post hls m' hm'

/-- What each step keeps, as long as `C` holds of it, holds at the end of a run along `C`. -/
theorem invariant_along (h0 : I s) (hstep : ∀ m l m', I m → C m l → step m l = some m' → I m')
    (hC : Along step C s ls) (h : exec step s ls = some t) : I t := by
  induction ls using List.reverseRecOn generalizing t with
  | nil =>
    obtain rfl := Option.some_inj.mp h
    exact h0
  | append_singleton ls l ih =>
    obtain ⟨m, hm, hl⟩ := exec_concat.mp h
    exact hstep m l t (ih hC.of_append hm) (hC ls l [] rfl m hm) hl

theorem invariant (h0 : I s) (hstep : ∀ m l m', I m → step m l = some m' → I m')
    (h : exec step s ls = some t) : I t :=
  invariant_along (C := fun _ _ => True) h0 (fun m l m' hm _ => hstep m l m' hm) (fun _ _ _ _ _ _ => trivial) h

theorem throughout_along (h0 : I s) (hstep : ∀ m l m', I m → C m l → step m l = some m' → I m')
    (hIP : ∀ m, I m → P m) (hC : Along step C s ls) : Throughout step P s ls := by
  rintro pre post rfl m hm
  exact hIP m (invariant_along h0 hstep hC.of_append hm)

/-- A condition is exact for `P` if it carries an invariant that gives `P`, and a step outside it breaks
`P`. What is known of the steps of the run anyway, `D`, may be used. -/
theorem throughout_iff_along_of {A : S → Prop} {D : S → L → Prop} (hD : Along step D s ls)
    (ht : (exec step s ls).isSome) (hI : I s)
    (hIstep : ∀ m l m', I m → D m l → C m l → step m l = some m' → I m') (hIP : ∀ m, I m → P m)
    (hA : A s) (hAstep : ∀ m l m', A m → step m l = some m' → A m')
    (hbad : ∀ m l m', A m → P m → step m l = some m' → P m' → C m l) :
    Throughout step P s ls ↔ Along step C s ls := by
  constructor
  · rintro h pre l post rfl m hm
    obtain ⟨t, ht⟩ := Option.isSome_iff_exists.mp ht
    obtain ⟨m', hm', -⟩ := exec_split ht hm
    refine hbad m l m' (invariant hA hAstep hm) (h pre (l :: post) rfl m hm) hm' ?_
    exact h (pre ++ [l]) post (by simp) m' (exec_concat.mpr ⟨m, hm, hm'⟩)
  · intro h
    refine throughout_along (C := fun m l => D m l ∧ C m l) hI ?_ hIP ?_
    · rintro m l m' hI ⟨hD, hC⟩
      exact hIstep m l m' hI hD hC
    · rintro pre l post rfl m hm
      exact ⟨hD pre l post rfl m hm, h pre l post rfl m hm⟩

theorem throughout_iff_along {A : S → Prop} (ht : (exec step s ls).isSome)
    (hI : I s) (hIstep : ∀ m l m', I m → C m l → step m l = some m' → I m') (hIP : ∀ m, I m → P m)
    (hA : A s) (hAstep : ∀ m l m', A m → step m l = some m' → A m')
    (hbad : ∀ m l m', A m → P m → step m l = some m' → P m' → C m l) :
    Throughout step P s ls ↔ Along step C s ls :=
  throughout_iff_along_of (D := fun _ _ => True) (fun _ _ _ _ _ _ => trivial) ht hI
    (fun m l m' hm _ => hIstep m l m' hm) hIP hA hAstep hbad

end Run
