import XChainExplorer.Lib.Positional
import Mathlib.Data.Nat.Bitwise

/-! # Checksums of a shift register

    A register of `k + 1` words of `w` bits takes in one word a step: the word on top goes out and comes
    back as a mask, all the others move up. The step is linear in what stands below the top word, so the
    last `k + 1` words taken in stand in the register as they are. They are a checksum for what went before
    exactly when they are the words of one number. -/

namespace ShiftRegister

variable (w k : ℕ) (mask : ℕ → ℕ)

/-- One word taken in. -/
def step (x v : ℕ) : ℕ := ((x % 2 ^ (w * k)) <<< w ^^^ v) ^^^ mask (x >>> (w * k))

def run (x : ℕ) (words : List ℕ) : ℕ := words.foldl (step w k mask) x

/-- The words after which the register holds `target`. -/
def checksum (x target : ℕ) : List ℕ :=
  Positional.fixed (2 ^ w) (k + 1) (run w k mask x (List.replicate (k + 1) 0) ^^^ target)

variable {w k mask}

theorem run_append (x : ℕ) (l m : List ℕ) : run w k mask x (l ++ m) = run w k mask (run w k mask x l) m :=
  List.foldl_append

theorem run_concat (x : ℕ) (l : List ℕ) (v : ℕ) : run w k mask x (l ++ [v]) = step w k mask (run w k mask x l) v := by
  rw [run_append, run, List.foldl_cons, List.foldl_nil]

/-- The register is no longer than `k + 1` words. -/
theorem step_lt (hmask : ∀ t, mask t < 2 ^ (w * (k + 1))) {x v : ℕ} (hv : v < 2 ^ (w * (k + 1))) :
    step w k mask x v < 2 ^ (w * (k + 1)) := by
  refine Nat.xor_lt_two_pow (Nat.xor_lt_two_pow ?_ hv) (hmask _)
  have hlow : x % 2 ^ (w * k) < 2 ^ (w * k) := Nat.mod_lt _ (by positivity)
  rw [Nat.shiftLeft_eq, Nat.mul_add_one, pow_add]
  exact Nat.mul_lt_mul_of_pos_right hlow (by positivity)

theorem run_lt (hmask : ∀ t, mask t < 2 ^ (w * (k + 1))) {x : ℕ} (hx : x < 2 ^ (w * (k + 1))) {words : List ℕ}
    (hwords : ∀ v ∈ words, v < 2 ^ (w * (k + 1))) : run w k mask x words < 2 ^ (w * (k + 1)) := by
  induction words using List.reverseRecOn with
  | nil => exact hx
  | append_singleton l v ih =>
    rw [run_concat]
    exact step_lt hmask (hwords v (by simp))

/-- What stands below the top word moves up one word and is otherwise as it was. -/
theorem step_xor {x y : ℕ} (hy : y < 2 ^ (w * k)) (v : ℕ) :
    step w k mask (x ^^^ y) v = step w k mask x 0 ^^^ (y <<< w ^^^ v) := by
  have htop : (x ^^^ y) >>> (w * k) = x >>> (w * k) := by
    rw [Nat.shiftRight_xor_distrib, Nat.shiftRight_eq_div_pow y, Nat.div_eq_of_lt hy, Nat.xor_zero]
  have hlow : (x ^^^ y) % 2 ^ (w * k) = x % 2 ^ (w * k) ^^^ y := by
    rw [Nat.xor_mod_two_pow, Nat.mod_eq_of_lt hy]
  simp only [step, htop, hlow, Nat.shiftLeft_xor_distrib, Nat.xor_zero]
  ac_rfl

theorem shiftLeft_xor {y v : ℕ} (hv : v < 2 ^ w) : y <<< w ^^^ v = y * 2 ^ w + v := by
  have hmod : (y <<< w ^^^ v) % 2 ^ w = v := by
    rw [Nat.xor_mod_two_pow, Nat.shiftLeft_eq, Nat.mul_mod_left, Nat.mod_eq_of_lt hv, Nat.zero_xor]
  have hdiv : (y <<< w ^^^ v) / 2 ^ w = y := by
    rw [← Nat.shiftRight_eq_div_pow, Nat.shiftRight_xor_distrib, Nat.shiftLeft_shiftRight,
      Nat.shiftRight_eq_div_pow, Nat.div_eq_of_lt hv, Nat.xor_zero]
  rw [← Nat.div_add_mod' (y <<< w ^^^ v) (2 ^ w), hmod, hdiv]

/-- Up to `k + 1` words stand in the register as the number they are. -/
theorem run_eq_xor {words : List ℕ} (hlen : words.length ≤ k + 1) (hwords : ∀ v ∈ words, v < 2 ^ w) (x : ℕ) :
    run w k mask x words =
      run w k mask x (List.replicate words.length 0) ^^^ Positional.value (2 ^ w) words := by
  induction words using List.reverseRecOn with
  | nil => simp [run]
  | append_singleton l v ih =>
    rw [List.length_append, List.length_singleton] at hlen
    have hl : ∀ u ∈ l, u < 2 ^ w := fun u hu => hwords u (by simp [hu])
    have hv : v < 2 ^ w := hwords v (by simp)
    have hvalue : Positional.value (2 ^ w) l < 2 ^ (w * k) :=
      calc Positional.value (2 ^ w) l < (2 ^ w) ^ l.length := Positional.value_lt hl
        _ ≤ (2 ^ w) ^ k := Nat.pow_le_pow_right (by positivity) (by omega)
        _ = 2 ^ (w * k) := (pow_mul 2 w k).symm
    rw [run_concat, ih (by omega) hl, step_xor hvalue, List.length_append, List.length_singleton,
      List.replicate_succ', run_concat, shiftLeft_xor hv, Positional.value_concat]

/-- The register ends at `target` behind `k + 1` words exactly when these are the checksum. -/
theorem run_append_iff (hmask : ∀ t, mask t < 2 ^ (w * (k + 1))) {x target : ℕ} (hx : x < 2 ^ (w * (k + 1)))
    (htarget : target < 2 ^ (w * (k + 1))) {check : List ℕ} (hlen : check.length = k + 1)
    (hcheck : ∀ v ∈ check, v < 2 ^ w) :
    run w k mask x check = target ↔ check = checksum w k mask x target := by
  have hzeros : run w k mask x (List.replicate (k + 1) 0) < 2 ^ (w * (k + 1)) :=
    run_lt hmask hx fun v hv => by rw [List.eq_of_mem_replicate hv]; positivity
  have hsum : run w k mask x (List.replicate (k + 1) 0) ^^^ target < (2 ^ w) ^ (k + 1) := by
    rw [← pow_mul]
    exact Nat.xor_lt_two_pow hzeros htarget
  rw [run_eq_xor hlen.le hcheck, hlen, checksum]
  constructor
  · intro h
    rw [← h, ← Nat.xor_assoc, Nat.xor_self, Nat.zero_xor, ← hlen, Positional.fixed_value hcheck]
  · intro h
    rw [h, Positional.value_fixed hsum, ← Nat.xor_assoc, Nat.xor_self, Nat.zero_xor]

end ShiftRegister
