import Mathlib.Data.List.Basic
import Mathlib.Data.List.Induction
import Mathlib.Logic.Function.Iterate

/-! # Loops that fill a map key by key

    A loop over rows that changes a map at each row's own key leaves at a key what the rows of that
    key leave there, in their order. -/

namespace KeyedFold

variable {κ ν ρ : Type*} [DecidableEq κ]

/-- The map changed at one key. -/
def modify (m : κ → ν) (k : κ) (f : ν → ν) : κ → ν := Function.update m k (f (m k))

@[simp] theorem modify_self (m : κ → ν) (k : κ) (f : ν → ν) : modify m k f k = f (m k) := Function.update_self ..

theorem modify_of_ne {m : κ → ν} {k k' : κ} (f : ν → ν) (h : k' ≠ k) : modify m k f k' = m k' :=
  Function.update_of_ne h ..

omit [DecidableEq κ] in
/-- A loop whose rows each do at a key what they do to the value there. -/
theorem foldl_at {step : (κ → ν) → ρ → κ → ν} {k : κ} {f : ν → ρ → ν} (h : ∀ m r, step m r k = f (m k) r)
    (rows : List ρ) (m : κ → ν) : rows.foldl step m k = rows.foldl f (m k) := by
  induction rows generalizing m with
  | nil => rfl
  | cons r rows ih => rw [List.foldl_cons, ih, h, List.foldl_cons]

/-- At a key a loop is the loop over that key's rows. -/
theorem foldl_modify (key : ρ → κ) (f : ρ → ν → ν) (rows : List ρ) (m : κ → ν) (k : κ) :
    rows.foldl (fun m r => modify m (key r) (f r)) m k =
      (rows.filter fun r => key r = k).foldl (fun v r => f r v) (m k) := by
  rw [List.foldl_filter]
  refine foldl_at (fun m r => ?_) rows m
  by_cases hk : key r = k
  · simp [← hk]
  · simp [hk, modify_of_ne _ (Ne.symm hk)]

/-- At a key a loop over keys does as often what it does there as the key stands in the list. -/
theorem foldl_modify_keys (f : κ → ν → ν) (keys : List κ) (m : κ → ν) (k : κ) :
    keys.foldl (fun m k => modify m k (f k)) m k = (f k)^[keys.count k] (m k) := by
  induction keys generalizing m with
  | nil => rfl
  | cons k' keys ih =>
    rw [List.foldl_cons, ih]
    by_cases hk : k' = k
    · rw [hk, List.count_cons_self, modify_self, Function.iterate_succ_apply]
    · rw [List.count_cons_of_ne hk, modify_of_ne _ (Ne.symm hk)]

end KeyedFold
