import XChainExplorer.Lib.Runs
import Mathlib.Algebra.Order.Ring.Nat

/-! # Counting along a run

    `tally f s es` adds up what `f` gives for each step of a run. When a potential rises with every
    step that is counted, and falls by at most `B` where a second count goes up, the first total is at
    most `B` for each unit of the second, and the last potential. -/

namespace Runs

variable {σ ε : Type*} (step : σ → ε → Option σ)

/-- What `f` gives for the state before, the label and the state after, added up over the steps. -/
def tally (f : σ → ε → σ → ℕ) : σ → List ε → ℕ
  | _, [] => 0
  | s, e :: es =>
    match step s e with
    | none => 0
    | some t => f s e t + tally f t es

variable {step} {f g : σ → ε → σ → ℕ} {s t u : σ} {e : ε} {es es' : List ε}

@[simp] theorem tally_nil : tally step f s [] = 0 := rfl

theorem tally_cons (hs : step s e = some t) : tally step f s (e :: es) = f s e t + tally step f t es := by
  rw [tally, hs]

theorem tally_append (hr : run step s es = some t) :
    tally step f s (es ++ es') = tally step f s es + tally step f t es' := by
  induction es generalizing s with
  | nil => obtain rfl := Option.some.inj hr; rw [List.nil_append, tally_nil, Nat.zero_add]
  | cons e es ih =>
    obtain ⟨u, hu, hr⟩ := run_cons.mp hr
    rw [List.cons_append, tally_cons hu, tally_cons hu, ih hr, Nat.add_assoc]

/-- The last step of a run. -/
theorem tally_concat (hr : run step s es = some u) (hs : step u e = some t) :
    tally step f s (es ++ [e]) = tally step f s es + f u e t := by
  rw [tally_append hr, tally_cons hs, tally_nil, Nat.add_zero]

/-- The potential rule, with what is known of each step's place in the run. -/
theorem tally_le {φ : σ → ℕ} {B : ℕ} (hr : run step s es = some t)
    (hstep : ∀ es₁ e es₂ u v, es = es₁ ++ e :: es₂ → run step s es₁ = some u → step u e = some v →
      run step v es₂ = some t → f u e v + φ u ≤ φ v + B * g u e v) :
    tally step f s es + φ s ≤ φ t + B * tally step g s es := by
  induction es generalizing s with
  | nil => obtain rfl := Option.some.inj hr; simp
  | cons e es ih =>
    obtain ⟨u, hu, hr⟩ := run_cons.mp hr
    have hfirst := hstep [] e es s u rfl rfl hu hr
    have hrest := ih hr fun es₁ a es₂ v w hes hv hw =>
      hstep (e :: es₁) a es₂ v w (by rw [hes, List.cons_append]) (run_cons.mpr ⟨u, hu, hv⟩) hw
    rw [tally_cons hu, tally_cons hu, Nat.mul_add]
    omega

/-! ### Since -/

/-- Some step of the run was one of `P`'s, and nothing was counted after it. -/
def Since (step : σ → ε → Option σ) (P : σ → ε → Prop) (f : σ → ε → σ → ℕ) (s : σ) (es : List ε) : Prop :=
  ∃ es₁ e es₂ u v, es = es₁ ++ e :: es₂ ∧ run step s es₁ = some u ∧ step u e = some v ∧ P u e ∧
    tally step f v es₂ = 0

variable {P : σ → ε → Prop}

theorem Since.now (hr : run step s es = some u) (hs : step u e = some t) (hP : P u e) :
    Since step P f s (es ++ [e]) :=
  ⟨es, e, [], u, t, rfl, hr, hs, hP, rfl⟩

/-- A step that does not count leaves it so. -/
theorem Since.keep (h : Since step P f s es) (hr : run step s es = some u) (hs : step u e = some t)
    (hf : f u e t = 0) : Since step P f s (es ++ [e]) := by
  obtain ⟨es₁, a, es₂, v, w, rfl, hv, hw, hP, hzero⟩ := h
  obtain ⟨v', hv', hrest⟩ := run_append.mp hr
  obtain rfl := Option.some.inj (hv.symm.trans hv')
  obtain ⟨w', hw', hrest⟩ := run_cons.mp hrest
  obtain rfl := Option.some.inj (hw.symm.trans hw')
  refine ⟨es₁, a, es₂ ++ [e], v, w, by rw [List.append_assoc, List.cons_append], hv, hw, hP, ?_⟩
  rw [tally_concat hrest hs, hzero, hf]

end Runs
