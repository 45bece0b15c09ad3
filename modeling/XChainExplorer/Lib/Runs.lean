import Mathlib.Data.List.Basic
import Mathlib.Data.List.Induction
import Mathlib.Logic.Basic
import Mathlib.Tactic.Tauto

/-! # Labelled runs

    A machine is a partial step function `σ → ε → Option σ`: a label that is not enabled answers
    `none`. A run is the list of its labels, so a schedule is data and a concrete run is evaluated
    by `decide`. `Meets` says that every step of a run satisfies a condition on the state before
    it; `run_inv` is the induction every invariant below goes through. -/

namespace Runs

variable {σ ε : Type*} (step : σ → ε → Option σ)

/-- The state a list of labels leads to, or `none` when one of them is not enabled. -/
def run : σ → List ε → Option σ
  | s, [] => some s
  | s, e :: es => (step s e).bind fun t => run t es

/-- Every step of the run meets `C`, a condition on its label and the state before it. -/
def Meets (C : σ → ε → Prop) : σ → List ε → Prop
  | _, [] => True
  | s, e :: es => C s e ∧ (match step s e with
      | some t => Meets C t es
      | none => True)

instance Meets.decidable (C : σ → ε → Prop) [∀ s e, Decidable (C s e)] :
    ∀ (s : σ) (es : List ε), Decidable (Meets step C s es)
  | _, [] => isTrue trivial
  | s, e :: es =>
    have : Decidable (match step s e with | some t => Meets step C t es | none => True) :=
      match step s e with
      | some t => Meets.decidable C t es
      | none => isTrue trivial
    inferInstanceAs (Decidable (_ ∧ _))

variable {step}

@[simp] theorem run_nil (s : σ) : run step s [] = some s := rfl

theorem run_cons {s t : σ} {e : ε} {es : List ε} :
    run step s (e :: es) = some t ↔ ∃ u, step s e = some u ∧ run step u es = some t := by
  simp [run, Option.bind_eq_some_iff]

theorem run_append {s t : σ} : ∀ {es fs : List ε},
    run step s (es ++ fs) = some t ↔ ∃ u, run step s es = some u ∧ run step u fs = some t := by
  intro es
  induction es generalizing s with
  | nil => simp
  | cons e es ih =>
    intro fs
    simp only [List.cons_append, run_cons, ih]
    constructor
    · rintro ⟨u, hu, v, hv, ht⟩
      exact ⟨v, ⟨u, hu, hv⟩, ht⟩
    · rintro ⟨v, ⟨u, hu, hv⟩, ht⟩
      exact ⟨u, hu, v, hv, ht⟩

theorem meets_cons {C : σ → ε → Prop} {s t : σ} {e : ε} {es : List ε} (ht : step s e = some t) :
    Meets step C s (e :: es) ↔ C s e ∧ Meets step C t es := by
  simp [Meets, ht]

theorem meets_append {C : σ → ε → Prop} {s t : σ} {es fs : List ε} (hr : run step s es = some t) :
    Meets step C s (es ++ fs) ↔ Meets step C s es ∧ Meets step C t fs := by
  induction es generalizing s with
  | nil => simp only [run_nil, Option.some.injEq] at hr; subst hr; simp [Meets]
  | cons e es ih =>
    obtain ⟨u, hu, hr⟩ := run_cons.mp hr
    rw [List.cons_append, meets_cons hu, meets_cons hu, ih hr, and_assoc]

theorem Meets.mono {C D : σ → ε → Prop} (h : ∀ s e, C s e → D s e) {s : σ} {es : List ε}
    (hm : Meets step C s es) : Meets step D s es := by
  induction es generalizing s with
  | nil => trivial
  | cons e es ih =>
    refine ⟨h _ _ hm.1, ?_⟩
    have hm := hm.2
    cases hs : step s e with
    | none => trivial
    | some t => rw [hs] at hm; exact ih hm

theorem meets_and {C D : σ → ε → Prop} {s : σ} {es : List ε} :
    Meets step (fun s e => C s e ∧ D s e) s es ↔ Meets step C s es ∧ Meets step D s es := by
  induction es generalizing s with
  | nil => simp [Meets]
  | cons e es ih =>
    cases hs : step s e with
    | none => simp [Meets, hs]
    | some t =>
      rw [meets_cons hs, meets_cons hs, meets_cons hs, ih]
      tauto

/-- What every step that meets `C` preserves holds at the end of every run that meets `C`. -/
theorem run_inv {C : σ → ε → Prop} {I : σ → Prop}
    (hI : ∀ s e t, I s → C s e → step s e = some t → I t) {s t : σ} {es : List ε}
    (hs : I s) (hm : Meets step C s es) (hr : run step s es = some t) : I t := by
  induction es generalizing s with
  | nil => simp only [run_nil, Option.some.injEq] at hr; exact hr ▸ hs
  | cons e es ih =>
    obtain ⟨u, hu, hr⟩ := run_cons.mp hr
    rw [meets_cons hu] at hm
    exact ih (hI _ _ _ hs hm.1 hu) hm.2 hr

/-- The same with no condition on the steps. -/
theorem run_inv' {I : σ → Prop} (hI : ∀ s e t, I s → step s e = some t → I t) {s t : σ}
    {es : List ε} (hs : I s) (hr : run step s es = some t) : I t := by
  induction es generalizing s with
  | nil => simp only [run_nil, Option.some.injEq] at hr; exact hr ▸ hs
  | cons e es ih =>
    obtain ⟨u, hu, hr⟩ := run_cons.mp hr
    exact ih (hI _ _ _ hs hu) hr

/-- The same for steps that need only be known to be labels of the run. -/
theorem run_inv_mem {I : σ → Prop} {s t : σ} {es : List ε} (hI : ∀ s e t, e ∈ es → I s → step s e = some t → I t)
    (hs : I s) (hr : run step s es = some t) : I t := by
  induction es generalizing s with
  | nil => exact Option.some.inj hr ▸ hs
  | cons e es ih =>
    obtain ⟨u, hu, hr⟩ := run_cons.mp hr
    refine ih ?_ (hI s e u (by simp) hs hu) hr
    intro s e' t he'
    exact hI s e' t (by simp [he'])

/-- What every step of a run preserves, where it may speak of the labels before it. -/
theorem run_history {I : List ε → σ → Prop} {s : σ} (h0 : I [] s)
    (hI : ∀ es u e t, run step s es = some u → I es u → step u e = some t → I (es ++ [e]) t)
    {es : List ε} {t : σ} (hr : run step s es = some t) : I es t := by
  induction es using List.reverseRecOn generalizing t with
  | nil => exact Option.some.inj hr ▸ h0
  | append_singleton es e ih =>
    obtain ⟨u, hu, hlast⟩ := run_append.mp hr
    obtain ⟨v, hv, hnil⟩ := run_cons.mp hlast
    obtain rfl := Option.some.inj hnil
    exact hI es u e v hu (ih hu) hv

end Runs
