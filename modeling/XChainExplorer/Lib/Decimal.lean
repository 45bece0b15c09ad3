import Mathlib.Algebra.Order.Ring.Nat
import Mathlib.Data.List.TakeWhile
import Mathlib.Tactic.Ring

/-! # Decimal digits

    A list of digits is told by its length and its value, so every way to write a number in digits is the
    shortest one behind as many zeros as its length asks for. -/

namespace Decimal

def Digits (ds : List Char) : Prop := ∀ c ∈ ds, c.isDigit = true

/-- The number a list of digits denotes. -/
abbrev value (ds : List Char) : ℕ := Nat.ofDigitChars 10 ds 0

/-- `n` in at least `k` digits. -/
def padded (k n : ℕ) : List Char := List.replicate (k - (Nat.toDigits 10 n).length) '0' ++ Nat.toDigits 10 n

variable {ds es : List Char} {k n : ℕ}

@[simp] theorem digits_nil : Digits [] := List.forall_mem_nil _

@[simp] theorem digits_cons {c : Char} : Digits (c :: ds) ↔ c.isDigit = true ∧ Digits ds := List.forall_mem_cons

@[simp] theorem digits_append : Digits (ds ++ es) ↔ Digits ds ∧ Digits es := List.forall_mem_append

theorem digits_zeros : Digits (List.replicate k '0') := fun c hc => by
  rw [List.eq_of_mem_replicate hc]
  rfl

theorem digits_toDigits : Digits (Nat.toDigits 10 n) :=
  fun _ hc => Nat.isDigit_of_mem_toDigits (by decide) le_rfl hc

theorem digits_padded : Digits (padded k n) := digits_append.mpr ⟨digits_zeros, digits_toDigits⟩

/-! ### Values -/

theorem value_cons {c : Char} : value (c :: ds) = 10 ^ ds.length * (c.toNat - '0'.toNat) + value ds := by
  rw [value, Nat.ofDigitChars_cons, Nat.ofDigitChars_eq_ofDigitChars_zero, Nat.mul_zero, Nat.zero_add]

theorem value_append : value (ds ++ es) = 10 ^ es.length * value ds + value es := by
  rw [value, Nat.ofDigitChars_append, Nat.ofDigitChars_eq_ofDigitChars_zero]

theorem value_zeros_append : value (List.replicate k '0' ++ ds) = value ds := by
  rw [value_append, value, Nat.ofDigitChars_replicate_zero, Nat.mul_zero, Nat.mul_zero, Nat.zero_add]

theorem value_append_zeros : value (ds ++ List.replicate k '0') = 10 ^ k * value ds := by
  rw [value, Nat.ofDigitChars_append, Nat.ofDigitChars_replicate_zero]

theorem value_toDigits : value (Nat.toDigits 10 n) = n := Nat.ofDigitChars_ten_toDigits

@[simp] theorem value_padded : value (padded k n) = n := value_zeros_append.trans value_toDigits

/-- A digit is a number below ten. -/
theorem digit_bounds {c : Char} (hc : c.isDigit = true) : 48 ≤ c.toNat ∧ c.toNat ≤ 57 := by
  simpa [Char.isDigit, Char.le_def, UInt32.le_iff_toNat_le] using hc

theorem value_lt (hds : Digits ds) : value ds < 10 ^ ds.length := by
  induction ds with
  | nil => decide
  | cons c ds ih =>
    obtain ⟨hc, hds⟩ := digits_cons.mp hds
    have hbound := digit_bounds hc
    have hdigit : c.toNat - '0'.toNat ≤ 9 := by
      have hzero : '0'.toNat = 48 := rfl
      omega
    calc
      value (c :: ds) = 10 ^ ds.length * (c.toNat - '0'.toNat) + value ds := value_cons
      _ < 10 ^ ds.length * 9 + 10 ^ ds.length := Nat.add_lt_add_of_le_of_lt (Nat.mul_le_mul_left _ hdigit) (ih hds)
      _ = 10 ^ (c :: ds).length := by rw [List.length_cons, pow_succ]; ring

/-- Digits of one length are told by their value. -/
theorem value_inj (hds : Digits ds) (hes : Digits es) (hlen : ds.length = es.length)
    (h : value ds = value es) : ds = es := by
  induction ds generalizing es with
  | nil => exact (List.eq_nil_of_length_eq_zero hlen.symm).symm
  | cons c ds ih =>
    cases es with
    | nil => cases hlen
    | cons e es =>
      obtain ⟨hc, hds⟩ := digits_cons.mp hds
      obtain ⟨he, hes⟩ := digits_cons.mp hes
      have hlen : ds.length = es.length := Nat.succ.inj hlen
      rw [value_cons, value_cons, hlen] at h
      have hdlt := hlen ▸ value_lt hds
      have helt := value_lt hes
      have hpos : 0 < 10 ^ es.length := Nat.pow_pos (by decide)
      have hdiv (d v : ℕ) (hv : v < 10 ^ es.length) : (10 ^ es.length * d + v) / 10 ^ es.length = d := by
        rw [Nat.mul_add_div hpos, Nat.div_eq_of_lt hv, Nat.add_zero]
      have hhead : c.toNat - '0'.toNat = e.toNat - '0'.toNat := by
        calc
          c.toNat - '0'.toNat = (10 ^ es.length * (c.toNat - '0'.toNat) + value ds) / 10 ^ es.length :=
            (hdiv _ _ hdlt).symm
          _ = (10 ^ es.length * (e.toNat - '0'.toNat) + value es) / 10 ^ es.length := by rw [h]
          _ = e.toNat - '0'.toNat := hdiv _ _ helt
      rw [hhead] at h
      have hchar : c = e := by
        have hcb := digit_bounds hc
        have heb := digit_bounds he
        have hzero : '0'.toNat = 48 := rfl
        exact Char.toNat_inj.mp (by omega)
      rw [hchar, ih hds hes hlen (Nat.add_left_cancel h)]

theorem length_padded (hk : 0 < k) (hn : n < 10 ^ k) : (padded k n).length = k := by
  have hlen := (Nat.length_toDigits_le_iff (by decide) hk).mpr hn
  rw [padded, List.length_append, List.length_replicate, Nat.sub_add_cancel hlen]

/-- Digits are their number in as many digits. -/
theorem padded_value (hds : Digits ds) (hne : ds ≠ []) : padded ds.length (value ds) = ds :=
  value_inj digits_padded hds (length_padded (List.length_pos_iff.mpr hne) (value_lt hds)) value_padded

/-- Digits without a leading zero are the shortest ones of their number. -/
theorem toDigits_value (hds : Digits ds) (hne : ds ≠ []) (hhead : ds.head? = some '0' → ds.length = 1) :
    Nat.toDigits 10 (value ds) = ds := by
  refine value_inj digits_toDigits hds (le_antisymm ?_ ?_) value_toDigits
  · exact (Nat.length_toDigits_le_iff (by decide) (List.length_pos_iff.mpr hne)).mpr (value_lt hds)
  · by_contra hlt
    push Not at hlt
    cases ds with
    | nil => exact hne rfl
    | cons c ds =>
      obtain ⟨hc, hds⟩ := digits_cons.mp hds
      have hlen : 0 < ds.length := lt_of_lt_of_le Nat.length_toDigits_pos (Nat.le_of_lt_succ hlt)
      have hsmall := (Nat.length_toDigits_le_iff (b := 10) (by decide) hlen).mp (Nat.le_of_lt_succ hlt)
      rw [value_cons] at hsmall
      have hzero : c.toNat - '0'.toNat = 0 := by
        by_contra hpos
        have hle := Nat.le_mul_of_pos_right (10 ^ ds.length) (Nat.pos_of_ne_zero hpos)
        omega
      have hchar : c = '0' := by
        have hcb := digit_bounds hc
        have h48 : '0'.toNat = 48 := rfl
        exact Char.toNat_inj.mp (by omega)
      have hone := hhead (congrArg some hchar)
      rw [List.length_cons] at hone
      omega

end Decimal
