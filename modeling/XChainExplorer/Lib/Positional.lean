import Mathlib.Data.List.TakeWhile
import Mathlib.Data.Nat.Digits.Lemmas
import Mathlib.Tactic.Ring

/-! # Digits, most significant first

    A list of digits in some base as a number, the digits of a number to a given width, and a list of
    digits spelled again in another base with its leading zeros kept one for one. -/

namespace Positional

/-- The number a list of digits stands for. -/
def value (b : ℕ) (l : List ℕ) : ℕ := l.foldl (fun n d => n * b + d) 0

/-- The last `k` digits of a number. -/
def fixed (b : ℕ) : ℕ → ℕ → List ℕ
  | 0, _ => []
  | k + 1, n => fixed b k (n / b) ++ [n % b]

/-- The digits of a number, no zero in front. -/
def minimal (b n : ℕ) : List ℕ := (Nat.digits b n).reverse

def zeros (l : List ℕ) : ℕ := (l.takeWhile (· = 0)).length

/-- The digits in base `c` of a list of digits in base `b`, behind as many zeros as that begins with. -/
def recode (b c : ℕ) (l : List ℕ) : List ℕ := List.replicate (zeros l) 0 ++ minimal c (value b l)

variable {b c : ℕ}

/-! ### Values -/

@[simp] theorem value_nil : value b [] = 0 := rfl

@[simp] theorem value_concat (l : List ℕ) (d : ℕ) : value b (l ++ [d]) = value b l * b + d := by
  simp [value]

theorem value_append (l m : List ℕ) : value b (l ++ m) = value b l * b ^ m.length + value b m := by
  induction m using List.reverseRecOn with
  | nil => simp
  | append_singleton m d ih =>
    rw [← List.append_assoc, value_concat, ih, value_concat, List.length_append, List.length_singleton]
    ring

theorem value_replicate_append (k : ℕ) (l : List ℕ) : value b (List.replicate k 0 ++ l) = value b l := by
  have hzero : value b (List.replicate k 0) = 0 := by
    induction k with
    | zero => rfl
    | succ k ih => rw [List.replicate_succ', value_concat, ih]; simp
  rw [value_append, hzero, Nat.zero_mul, Nat.zero_add]

theorem value_lt {l : List ℕ} (hl : ∀ d ∈ l, d < b) : value b l < b ^ l.length := by
  induction l using List.reverseRecOn with
  | nil => simp
  | append_singleton l d ih =>
    have hd : d < b := hl d (by simp)
    have hlt : value b l + 1 ≤ b ^ l.length := ih fun e he => hl e (by simp [he])
    rw [value_concat, List.length_append, List.length_singleton, pow_succ]
    calc value b l * b + d < value b l * b + b := by omega
      _ = (value b l + 1) * b := by ring
      _ ≤ b ^ l.length * b := Nat.mul_le_mul_right b hlt

theorem value_eq_ofDigits (l : List ℕ) : value b l = Nat.ofDigits b l.reverse := by
  induction l using List.reverseRecOn with
  | nil => simp
  | append_singleton l d ih =>
    rw [value_concat, ih, List.reverse_append, List.reverse_singleton, List.singleton_append,
      Nat.ofDigits_cons]
    ring

/-! ### Digits to a width -/

@[simp] theorem length_fixed (k n : ℕ) : (fixed b k n).length = k := by
  induction k generalizing n with
  | zero => rfl
  | succ k ih => rw [fixed, List.length_append, ih, List.length_singleton]

theorem fixed_lt (hb : 0 < b) (k n : ℕ) : ∀ d ∈ fixed b k n, d < b := by
  induction k generalizing n with
  | zero => simp [fixed]
  | succ k ih =>
    intro d hd
    rw [fixed, List.mem_append, List.mem_singleton] at hd
    rcases hd with hd | rfl
    · exact ih _ d hd
    · exact Nat.mod_lt n hb

theorem value_fixed {k n : ℕ} (hn : n < b ^ k) : value b (fixed b k n) = n := by
  induction k generalizing n with
  | zero => simp_all [fixed]
  | succ k ih =>
    have hdiv : n / b < b ^ k := Nat.div_lt_of_lt_mul (by rwa [pow_succ'] at hn)
    rw [fixed, value_concat, ih hdiv]
    exact Nat.div_add_mod' n b

/-- A number's digits to the width of a list that stands for it are that list. -/
theorem fixed_value {l : List ℕ} (hl : ∀ d ∈ l, d < b) : fixed b l.length (value b l) = l := by
  induction l using List.reverseRecOn with
  | nil => rfl
  | append_singleton l d ih =>
    have hd : d < b := hl d (by simp)
    have hdiv : (value b l * b + d) / b = value b l := by
      rw [Nat.mul_comm, Nat.mul_add_div (by omega), Nat.div_eq_of_lt hd, Nat.add_zero]
    rw [List.length_append, List.length_singleton, value_concat, fixed, hdiv,
      ih fun e he => hl e (by simp [he]), Nat.mul_add_mod_of_lt hd]

theorem value_inj {l m : List ℕ} (hl : ∀ d ∈ l, d < b) (hm : ∀ d ∈ m, d < b) (hlen : l.length = m.length)
    (h : value b l = value b m) : l = m := by
  rw [← fixed_value hl, ← fixed_value hm, hlen, h]

/-! ### Another base -/

theorem minimal_lt (hb : 1 < b) (n : ℕ) : ∀ d ∈ minimal b n, d < b :=
  fun _ hd => Nat.digits_lt_base hb (List.mem_reverse.mp hd)

@[simp] theorem value_minimal (n : ℕ) : value b (minimal b n) = n := by
  rw [value_eq_ofDigits, minimal, List.reverse_reverse, Nat.ofDigits_digits]

theorem minimal_zero : minimal b 0 = [] := by simp [minimal]

/-- A number's digits are those of its quotient by the base, and the remainder. -/
theorem minimal_eq_concat (hb : 1 < b) {n : ℕ} (hn : 0 < n) : minimal b n = minimal b (n / b) ++ [n % b] := by
  rw [minimal, Nat.digits_def' hb hn, List.reverse_cons, minimal]

theorem zeros_minimal (n : ℕ) : zeros (minimal b n) = 0 := by
  rw [zeros, List.length_eq_zero_iff, List.takeWhile_eq_nil_iff]
  intro hlen hzero
  have hn : n ≠ 0 := by
    rintro rfl
    simp [minimal] at hlen
  have hlast := Nat.getLast_digit_ne_zero b hn
  simp only [minimal, List.get_eq_getElem, List.getElem_zero, List.head_reverse, decide_eq_true_eq] at hzero
  exact hlast hzero

theorem zeros_replicate_append (k : ℕ) (l : List ℕ) : zeros (List.replicate k 0 ++ l) = k + zeros l := by
  induction k with
  | zero => simp
  | succ k ih =>
    rw [List.replicate_succ, List.cons_append, zeros, List.takeWhile_cons_of_pos (by simp), List.length_cons,
      ← zeros, ih]
    omega

theorem recode_lt (hc : 1 < c) (l : List ℕ) : ∀ d ∈ recode b c l, d < c := by
  intro d hd
  rw [recode, List.mem_append] at hd
  rcases hd with hd | hd
  · rw [List.eq_of_mem_replicate hd]
    omega
  · exact minimal_lt hc _ d hd

/-- A list of digits is its leading zeros and the digits of its value. -/
theorem recode_self (hb : 1 < b) {l : List ℕ} (hl : ∀ d ∈ l, d < b) : recode b b l = l := by
  induction l with
  | nil => simp [recode, zeros, minimal_zero]
  | cons d l ih =>
    by_cases hd : d = 0
    · subst hd
      have hvalue : value b (0 :: l) = value b l := by simp [value]
      rw [recode, hvalue, zeros, List.takeWhile_cons_of_pos (by simp), List.length_cons, ← zeros,
        List.replicate_succ, List.cons_append, ← recode, ih fun e he => hl e (List.mem_cons_of_mem 0 he)]
    · rw [recode, zeros, List.takeWhile_cons_of_neg (by simpa using hd)]
      have hdigits : Nat.digits b (Nat.ofDigits b (d :: l).reverse) = (d :: l).reverse := by
        refine Nat.digits_ofDigits b hb _ (fun e he => hl e (List.mem_reverse.mp he)) fun _ => ?_
        rwa [List.getLast_reverse, List.head_cons]
      rw [List.length_nil, List.replicate_zero, List.nil_append, minimal, value_eq_ofDigits, hdigits,
        List.reverse_reverse]

/-- Spelled in another base and back, a list of digits is what it was. -/
theorem recode_recode (hb : 1 < b) {l : List ℕ} (hl : ∀ d ∈ l, d < b) :
    recode c b (recode b c l) = l := by
  conv_rhs => rw [← recode_self hb hl]
  rw [recode, recode, zeros_replicate_append, zeros_minimal, value_replicate_append, value_minimal,
    Nat.add_zero, recode]

/-! ### How long -/

/-- Behind the leading zeros a list is at its end or has a digit that is none. -/
theorem exists_of_zeros (l : List ℕ) :
    ∃ m, l = List.replicate (zeros l) 0 ++ m ∧ (∀ d ∈ m.head?, d ≠ 0) := by
  induction l with
  | nil => exact ⟨[], rfl, by simp⟩
  | cons d l ih =>
    by_cases hd : d = 0
    · obtain ⟨m, hl, hm⟩ := ih
      refine ⟨m, ?_, hm⟩
      rw [zeros, List.takeWhile_cons_of_pos (by simpa using hd), List.length_cons, ← zeros, List.replicate_succ,
        List.cons_append, ← hl, hd]
    · refine ⟨d :: l, ?_, by simpa using hd⟩
      rw [zeros, List.takeWhile_cons_of_neg (by simpa using hd)]
      rfl

theorem value_lt_of_zeros {l : List ℕ} (hl : ∀ d ∈ l, d < b) : value b l < b ^ (l.length - zeros l) := by
  obtain ⟨m, hm, -⟩ := exists_of_zeros l
  have hlen : l.length - zeros l = m.length := by
    have := congrArg List.length hm
    rw [List.length_append, List.length_replicate] at this
    omega
  rw [hlen]
  conv_lhs => rw [hm, value_replicate_append]
  exact value_lt fun d hd => hl d (by rw [hm]; exact List.mem_append_right _ hd)

theorem le_value_of_zeros {l : List ℕ} (h : zeros l < l.length) : b ^ (l.length - zeros l - 1) ≤ value b l := by
  obtain ⟨m, hm, hhead⟩ := exists_of_zeros l
  have hlen : l.length = zeros l + m.length := by
    conv_lhs => rw [hm, List.length_append, List.length_replicate]
  cases m with
  | nil => simp at hlen; omega
  | cons d m =>
    have hd : 1 ≤ d := Nat.one_le_iff_ne_zero.mpr (hhead d rfl)
    have hexp : l.length - zeros l - 1 = m.length := by rw [hlen, List.length_cons]; omega
    rw [hexp]
    conv_rhs => rw [hm, value_replicate_append, ← List.singleton_append, value_append]
    calc b ^ m.length ≤ d * b ^ m.length := Nat.le_mul_of_pos_left _ hd
      _ ≤ value b [d] * b ^ m.length + value b m := by simp [value]

theorem length_minimal_le {n k : ℕ} (hb : 1 < b) (hn : n < b ^ k) : (minimal b n).length ≤ k := by
  rw [minimal, List.length_reverse]
  exact (Nat.digits_length_le_iff hb n).mpr hn

theorem lt_length_minimal {n k : ℕ} (hb : 1 < b) (hn : b ^ k ≤ n) : k < (minimal b n).length := by
  rw [minimal, List.length_reverse]
  exact (Nat.lt_digits_length_iff hb n).mpr hn

theorem length_recode (l : List ℕ) : (recode b c l).length = zeros l + (minimal c (value b l)).length := by
  rw [recode, List.length_append, List.length_replicate]

end Positional
