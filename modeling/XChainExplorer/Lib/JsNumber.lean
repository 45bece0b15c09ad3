import Mathlib.Data.Int.Log
import Mathlib.Data.Rat.Floor
import Mathlib.Data.List.TakeWhile

/-! # Number and String of a JSON field

    What JavaScript makes of one field of a parsed JSON object: `String(field)`, and `Number(field)`
    where only finite numbers are told apart, so `none` stands for `NaN` and the infinities. A text
    is read by the grammar of a numeric string and rounded to a double. -/

namespace JsNumber

/-! ### Doubles -/

/-- The nearest integer, ties to even. -/
def roundHalfEven (q : ℚ) : ℤ :=
  if q - ⌊q⌋ < 1 / 2 ∨ q - ⌊q⌋ = 1 / 2 ∧ ⌊q⌋ % 2 = 0 then ⌊q⌋ else ⌊q⌋ + 1

/-- The double nearest to a rational that is not negative. -/
def roundToDouble (q : ℚ) : Option ℚ :=
  let e := max (Int.log 2 q - 52) (-1074)
  let d := roundHalfEven (q / 2 ^ e) * (2 : ℚ) ^ e
  if d < 2 ^ 1024 then some d else none

/-! ### Numeric strings -/

/-- White space and line ends, which a numeric string may begin and end with. -/
def isStrWhite (c : Char) : Bool :=
  c ∈ ['\t', '\n', '\x0b', '\x0c', '\r', ' ', '\u00a0', '\u1680', '\u2000', '\u2001', '\u2002',
    '\u2003', '\u2004', '\u2005', '\u2006', '\u2007', '\u2008', '\u2009', '\u200a', '\u2028',
    '\u2029', '\u202f', '\u205f', '\u3000', '\ufeff']

/-- The text without the white space around it. -/
def trim (cs : List Char) : List Char :=
  ((cs.dropWhile isStrWhite).reverse.dropWhile isStrWhite).reverse

/-- Decimal digits, at least one. -/
def decimalDigits (cs : List Char) : Option ℕ :=
  if cs ≠ [] ∧ cs.all Char.isDigit then some (Nat.ofDigitChars 10 cs 0) else none

/-- Decimal digits under a sign. -/
def signedDigits : List Char → Option ℤ
  | '+' :: ds => (decimalDigits ds).map fun n : ℕ => (n : ℤ)
  | '-' :: ds => (decimalDigits ds).map fun n : ℕ => -(n : ℤ)
  | ds => (decimalDigits ds).map fun n : ℕ => (n : ℤ)

/-- The exponent, if there is one. -/
def exponentPart : List Char → Option ℤ
  | [] => some 0
  | c :: cs => if c = 'e' ∨ c = 'E' then signedDigits cs else none

/-- Digits, a point and digits on at least one side of it, and an exponent. -/
def unsignedDecimal (cs : List Char) : Option ℚ :=
  let whole := cs.takeWhile Char.isDigit
  let (fraction, rest) := match cs.dropWhile Char.isDigit with
    | '.' :: ds => (ds.takeWhile Char.isDigit, ds.dropWhile Char.isDigit)
    | ds => ([], ds)
  if whole = [] ∧ fraction = [] then none
  else (exponentPart rest).map fun e : ℤ =>
    (Nat.ofDigitChars 10 (whole ++ fraction) 0 : ℚ) * 10 ^ (e - fraction.length)

/-- The value of a digit in a radix literal. -/
def digitValue (c : Char) : Option ℕ :=
  if c.isDigit then some (c.toNat - '0'.toNat)
  else if 'a' ≤ c ∧ c ≤ 'f' then some (c.toNat - 'a'.toNat + 10)
  else if 'A' ≤ c ∧ c ≤ 'F' then some (c.toNat - 'A'.toNat + 10)
  else none

/-- Digits to a base, onto a number. -/
def radixDigits (base : ℕ) : ℕ → List Char → Option ℚ
  | n, [] => some n
  | n, c :: cs => match digitValue c with
    | some d => if d < base then radixDigits base (n * base + d) cs else none
    | none => none

/-- At least one of them. -/
def radixLiteral (base : ℕ) (cs : List Char) : Option ℚ :=
  if cs = [] then none else radixDigits base 0 cs

/-- `Number(text)`. -/
def ofText (cs : List Char) : Option ℚ :=
  match trim cs with
  | [] => some 0
  | '0' :: 'x' :: ds | '0' :: 'X' :: ds => (radixLiteral 16 ds).bind roundToDouble
  | '0' :: 'o' :: ds | '0' :: 'O' :: ds => (radixLiteral 8 ds).bind roundToDouble
  | '0' :: 'b' :: ds | '0' :: 'B' :: ds => (radixLiteral 2 ds).bind roundToDouble
  | '+' :: ds => (unsignedDecimal ds).bind roundToDouble
  | '-' :: ds => ((unsignedDecimal ds).bind roundToDouble).map fun q => -q
  | ds => (unsignedDecimal ds).bind roundToDouble

/-! ### Fields -/

/-- The integers JavaScript can hold exactly. -/
abbrev SafeInteger := {n : ℤ // n.natAbs < 2 ^ 53}

/-- A field of a parsed JSON object: not there, null, a string, or an integer. -/
inductive Field where
  | absent
  | null
  | text (s : String)
  | number (n : SafeInteger)
  deriving DecidableEq

/-- `String(field)`. -/
def Field.toString : Field → String
  | absent => "undefined"
  | null => "null"
  | text s => s
  | number n => n.1.repr

/-- `Number(field)` where that is finite. -/
def Field.toNumber : Field → Option ℚ
  | absent => none
  | null => some 0
  | text s => ofText s.toList
  | number n => some n.1

/-- `field !== undefined && field !== null`. -/
def Field.given : Field → Bool
  | absent | null => false
  | text _ | number _ => true

/-- Absent, null, the empty string, a numeric string or a number. -/
def Field.Numeric : Field → Prop
  | text s => (ofText s.toList).isSome
  | _ => True

instance : DecidablePred Field.Numeric
  | .text s => inferInstanceAs (Decidable ((ofText s.toList).isSome = true))
  | .absent | .null | .number _ => inferInstanceAs (Decidable True)

/-! ### The characters of a numeric string -/

/-- White space, digits of every base, signs, points and the letters of the prefixes. -/
def isNumericChar (c : Char) : Bool :=
  isStrWhite c || (digitValue c).isSome || c ∈ ['.', '+', '-', 'x', 'X', 'o', 'O']

theorem isNumericChar_of_isDigit {c : Char} (hc : c.isDigit) : isNumericChar c := by
  simp [isNumericChar, digitValue, hc]

theorem mem_dropWhile {α : Type*} {p : α → Bool} {l : List α} {a : α} (ha : a ∈ l)
    (hp : ¬ p a) : a ∈ l.dropWhile p := by
  have hmem : a ∈ l.takeWhile p ++ l.dropWhile p := by rwa [List.takeWhile_append_dropWhile]
  exact (List.mem_append.mp hmem).resolve_left fun h => hp (List.mem_takeWhile_imp h)

theorem isNumericChar_of_trim {cs : List Char} (h : ∀ c ∈ trim cs, isNumericChar c) :
    ∀ c ∈ cs, isNumericChar c := by
  intro c hc
  by_cases hw : isStrWhite c = true
  · simp [isNumericChar, hw]
  · refine h c (List.mem_reverse.mpr (mem_dropWhile (List.mem_reverse.mpr ?_) hw))
    exact mem_dropWhile hc hw

theorem isNumericChar_of_decimalDigits {cs : List Char} (h : (decimalDigits cs).isSome) :
    ∀ c ∈ cs, isNumericChar c := by
  intro c hc
  unfold decimalDigits at h
  split_ifs at h with hall
  · exact isNumericChar_of_isDigit (List.all_eq_true.mp hall.2 c hc)
  · simp at h

theorem isNumericChar_of_signedDigits {cs : List Char} (h : (signedDigits cs).isSome) :
    ∀ c ∈ cs, isNumericChar c := by
  unfold signedDigits at h
  split at h
  · rw [Option.isSome_map] at h
    exact List.forall_mem_cons.mpr ⟨by decide, isNumericChar_of_decimalDigits h⟩
  · rw [Option.isSome_map] at h
    exact List.forall_mem_cons.mpr ⟨by decide, isNumericChar_of_decimalDigits h⟩
  · rw [Option.isSome_map] at h
    exact isNumericChar_of_decimalDigits h

theorem isNumericChar_of_exponentPart {cs : List Char} (h : (exponentPart cs).isSome) :
    ∀ c ∈ cs, isNumericChar c := by
  cases cs with
  | nil => simp
  | cons e ds =>
    simp only [exponentPart] at h
    split_ifs at h with he
    · refine List.forall_mem_cons.mpr ⟨?_, isNumericChar_of_signedDigits h⟩
      rcases he with rfl | rfl <;> decide
    · simp at h

theorem isNumericChar_of_takeWhile {cs : List Char}
    (h : ∀ c ∈ cs.dropWhile Char.isDigit, isNumericChar c) : ∀ c ∈ cs, isNumericChar c := by
  intro c hc
  by_cases hd : c.isDigit = true
  · exact isNumericChar_of_isDigit hd
  · exact h c (mem_dropWhile hc hd)

theorem isNumericChar_of_unsignedDecimal {cs : List Char} (h : (unsignedDecimal cs).isSome) :
    ∀ c ∈ cs, isNumericChar c := by
  refine isNumericChar_of_takeWhile ?_
  simp only [unsignedDecimal] at h
  split at h
  case _ ds hds =>
    rw [hds]
    split_ifs at h
    · simp at h
    · rw [Option.isSome_map] at h
      exact List.forall_mem_cons.mpr
        ⟨by decide, isNumericChar_of_takeWhile (isNumericChar_of_exponentPart h)⟩
  case _ ds _ =>
    split_ifs at h
    · simp at h
    · rw [Option.isSome_map] at h
      exact isNumericChar_of_exponentPart h

theorem isNumericChar_of_radixDigits {base n : ℕ} {cs : List Char}
    (h : (radixDigits base n cs).isSome) : ∀ c ∈ cs, isNumericChar c := by
  induction cs generalizing n with
  | nil => simp
  | cons c cs ih =>
    simp only [radixDigits] at h
    split at h
    case _ d hd =>
      split_ifs at h
      · refine List.forall_mem_cons.mpr ⟨?_, ih h⟩
        simp [isNumericChar, hd]
      · simp at h
    · simp at h

theorem isNumericChar_of_radixLiteral {base : ℕ} {cs : List Char}
    (h : (radixLiteral base cs).isSome) : ∀ c ∈ cs, isNumericChar c := by
  unfold radixLiteral at h
  split_ifs at h
  · simp at h
  · exact isNumericChar_of_radixDigits h

/-- A numeric string holds numeric characters only. -/
theorem isNumericChar_of_ofText {cs : List Char} (h : (ofText cs).isSome) :
    ∀ c ∈ cs, isNumericChar c := by
  refine isNumericChar_of_trim ?_
  have hcons2 {a b : Char} {ds : List Char} (ha : isNumericChar a) (hb : isNumericChar b)
      (hds : ∀ c ∈ ds, isNumericChar c) : ∀ c ∈ a :: b :: ds, isNumericChar c :=
    List.forall_mem_cons.mpr ⟨ha, List.forall_mem_cons.mpr ⟨hb, hds⟩⟩
  have hradix {base : ℕ} {ds : List Char}
      (h : ((radixLiteral base ds).bind roundToDouble).isSome) : ∀ c ∈ ds, isNumericChar c :=
    isNumericChar_of_radixLiteral (Option.isSome_of_isSome_bind h)
  have hdecimal {ds : List Char} (h : ((unsignedDecimal ds).bind roundToDouble).isSome) :
      ∀ c ∈ ds, isNumericChar c :=
    isNumericChar_of_unsignedDecimal (Option.isSome_of_isSome_bind h)
  unfold ofText at h
  split at h
  case h_1 ht => simp [ht]
  case h_8 ds ht =>
    rw [ht]
    exact List.forall_mem_cons.mpr ⟨by decide, hdecimal h⟩
  case h_9 ds ht =>
    rw [Option.isSome_map] at h
    rw [ht]
    exact List.forall_mem_cons.mpr ⟨by decide, hdecimal h⟩
  case h_10 => exact hdecimal h
  all_goals
    rename_i ds ht
    rw [ht]
    exact hcons2 (by decide) (by decide) (hradix h)

/-! ### A number and its text -/

theorem roundHalfEven_natCast (n : ℕ) : roundHalfEven (n : ℚ) = n := by
  simp [roundHalfEven]

/-- A natural number below `2 ^ 53` is a double. -/
theorem roundToDouble_natCast {n : ℕ} (hn : n < 2 ^ 53) : roundToDouble (n : ℚ) = some (n : ℚ) := by
  have hlog : Nat.log 2 n ≤ 52 := by
    by_contra hlog
    have : 2 ^ 53 ≤ n := (Nat.pow_le_pow_right (by norm_num) (by omega : 53 ≤ Nat.log 2 n)).trans
      (Nat.pow_log_le_self 2 (by rintro rfl; simp at hlog))
    omega
  simp only [roundToDouble, Int.log_natCast]
  obtain ⟨k, hk⟩ : ∃ k : ℕ, max ((Nat.log 2 n : ℤ) - 52) (-1074) = -(k : ℤ) :=
    ⟨(-(max ((Nat.log 2 n : ℤ) - 52) (-1074))).toNat, by omega⟩
  rw [hk]
  have hscaled : (n : ℚ) / 2 ^ (-(k : ℤ)) = ((n * 2 ^ k : ℕ) : ℚ) := by
    rw [zpow_neg, zpow_natCast, div_inv_eq_mul]
    push_cast
    rfl
  have hback : (((n * 2 ^ k : ℕ) : ℤ) : ℚ) * 2 ^ (-(k : ℤ)) = n := by
    rw [zpow_neg, zpow_natCast]
    push_cast
    field_simp
  rw [hscaled, roundHalfEven_natCast, hback, if_pos]
  have hdouble : (n : ℚ) < 2 ^ 53 := by exact_mod_cast hn
  exact hdouble.trans (pow_lt_pow_right₀ (by norm_num) (by norm_num))

theorem floor_le_roundHalfEven (q : ℚ) : ⌊q⌋ ≤ roundHalfEven q := by
  unfold roundHalfEven
  split_ifs <;> omega

/-- Rounding does not bring a number below the integers that are exact. -/
theorem le_roundToDouble {n : ℕ} (hn : 2 ^ 53 ≤ n) {d : ℚ} (h : roundToDouble (n : ℚ) = some d) : 2 ^ 53 ≤ d := by
  have hlog : 53 ≤ Nat.log 2 n := (Nat.le_log_iff_pow_le (by norm_num) (by omega)).mpr hn
  simp only [roundToDouble, Int.log_natCast] at h
  split_ifs at h
  have hmax : max ((Nat.log 2 n : ℤ) - 52) (-1074) = ((Nat.log 2 n - 52 : ℕ) : ℤ) := by omega
  rw [Option.some.injEq, hmax, zpow_natCast] at h
  have hpow : (2 : ℚ) ^ (Nat.log 2 n - 52) * 2 ^ 52 ≤ n := by
    rw [← pow_add, Nat.sub_add_cancel (by omega)]
    exact_mod_cast Nat.pow_log_le_self 2 (by omega)
  have hfloor : (2 ^ 52 : ℤ) ≤ ⌊(n : ℚ) / 2 ^ (Nat.log 2 n - 52)⌋ := by
    rw [Int.le_floor, le_div_iff₀ (by positivity), mul_comm]
    exact_mod_cast hpow
  have hround := hfloor.trans (floor_le_roundHalfEven _)
  have hscale : (2 : ℚ) ≤ 2 ^ (Nat.log 2 n - 52) := by
    calc (2 : ℚ) = 2 ^ 1 := (pow_one 2).symm
      _ ≤ 2 ^ (Nat.log 2 n - 52) := pow_le_pow_right₀ (by norm_num) (by omega)
  rw [← h]
  calc (2 : ℚ) ^ 53 = 2 ^ 52 * 2 := by norm_num
    _ ≤ (roundHalfEven ((n : ℚ) / 2 ^ (Nat.log 2 n - 52)) : ℚ) * 2 ^ (Nat.log 2 n - 52) :=
      mul_le_mul (by exact_mod_cast hround) hscale (by norm_num) (by exact_mod_cast (by positivity : (0 : ℤ) ≤ 2 ^ 52).trans hround)

/-- Only 0 is rounded to 0 among the natural numbers. -/
theorem roundToDouble_natCast_ne_zero {n : ℕ} (hn : n ≠ 0) : roundToDouble (n : ℚ) ≠ some 0 := by
  intro h
  simp only [roundToDouble, Int.log_natCast] at h
  split_ifs at h
  rw [Option.some.injEq, mul_eq_zero, or_iff_left (zpow_ne_zero _ two_ne_zero), Int.cast_eq_zero] at h
  have hexp : max ((Nat.log 2 n : ℤ) - 52) (-1074) ≤ (Nat.log 2 n : ℤ) := by omega
  have hpow : (2 : ℚ) ^ max ((Nat.log 2 n : ℤ) - 52) (-1074) ≤ n :=
    calc (2 : ℚ) ^ max ((Nat.log 2 n : ℤ) - 52) (-1074) ≤ 2 ^ (Nat.log 2 n : ℤ) :=
        zpow_le_zpow_right₀ (by norm_num) hexp
      _ ≤ n := by exact_mod_cast Nat.pow_log_le_self 2 hn
  have hfloor : (1 : ℤ) ≤ ⌊(n : ℚ) / 2 ^ max ((Nat.log 2 n : ℤ) - 52) (-1074)⌋ := by
    rw [Int.le_floor, Int.cast_one]
    exact (one_le_div (zpow_pos two_pos _)).mpr hpow
  have hround := floor_le_roundHalfEven ((n : ℚ) / 2 ^ max ((Nat.log 2 n : ℤ) - 52) (-1074))
  omega

theorem trim_of_forall {cs : List Char} (h : ∀ c ∈ cs, isStrWhite c = false) : trim cs = cs := by
  have hdrop {l : List Char} (h : ∀ c ∈ l, isStrWhite c = false) : l.dropWhile isStrWhite = l := by
    cases l with
    | nil => rfl
    | cons c l => simp [h c]
  rw [trim, hdrop h, hdrop fun c hc => h c (List.mem_reverse.mp hc), List.reverse_reverse]

theorem isStrWhite_of_isDigit {c : Char} (hc : c.isDigit) : isStrWhite c = false := by
  by_contra hw
  simp only [isStrWhite, Bool.not_eq_false, decide_eq_true_eq, List.mem_cons, List.not_mem_nil,
    or_false] at hw
  rcases hw with rfl | rfl | rfl | rfl | rfl | rfl | rfl | rfl | rfl | rfl | rfl | rfl | rfl | rfl |
    rfl | rfl | rfl | rfl | rfl | rfl | rfl | rfl | rfl | rfl | rfl <;> simp [Char.isDigit] at hc

theorem unsignedDecimal_toDigits (n : ℕ) : unsignedDecimal (Nat.toDigits 10 n) = some (n : ℚ) := by
  have hdigit : ∀ c ∈ Nat.toDigits 10 n, c.isDigit :=
    fun c hc => Nat.isDigit_of_mem_toDigits (by norm_num) le_rfl hc
  have htake : (Nat.toDigits 10 n).takeWhile Char.isDigit = Nat.toDigits 10 n :=
    List.takeWhile_eq_self_iff.mpr hdigit
  have hdrop : (Nat.toDigits 10 n).dropWhile Char.isDigit = [] :=
    List.dropWhile_eq_nil_iff.mpr hdigit
  simp [unsignedDecimal, htake, hdrop, Nat.toDigits_ne_nil, exponentPart]

theorem ofText_toDigits {n : ℕ} (hn : n < 2 ^ 53) :
    ofText (Nat.toDigits 10 n) = some (n : ℚ) := by
  have hdigit : ∀ c ∈ Nat.toDigits 10 n, c.isDigit :=
    fun c hc => Nat.isDigit_of_mem_toDigits (by norm_num) le_rfl hc
  have htrim : trim (Nat.toDigits 10 n) = Nat.toDigits 10 n :=
    trim_of_forall fun c hc => isStrWhite_of_isDigit (hdigit c hc)
  have hvalue : (unsignedDecimal (Nat.toDigits 10 n)).bind roundToDouble = some (n : ℚ) := by
    rw [unsignedDecimal_toDigits, Option.bind_some, roundToDouble_natCast hn]
  unfold ofText
  rw [htrim]
  -- a digit is neither a sign nor the letter of a prefix
  split
  case h_1 h => exact absurd h Nat.toDigits_ne_nil
  case h_10 => exact hvalue
  all_goals
    rename_i ds h
    rw [h] at hdigit
    simp [Char.isDigit] at hdigit

theorem ofText_neg_toDigits {n : ℕ} (hn : n < 2 ^ 53) :
    ofText ('-' :: Nat.toDigits 10 n) = some (-(n : ℚ)) := by
  have hdigit : ∀ c ∈ Nat.toDigits 10 n, c.isDigit :=
    fun c hc => Nat.isDigit_of_mem_toDigits (by norm_num) le_rfl hc
  have htrim : trim ('-' :: Nat.toDigits 10 n) = '-' :: Nat.toDigits 10 n :=
    trim_of_forall (List.forall_mem_cons.mpr
      ⟨by decide, fun c hc => isStrWhite_of_isDigit (hdigit c hc)⟩)
  simp only [ofText, htrim, unsignedDecimal_toDigits, Option.bind_some, roundToDouble_natCast hn,
    Option.map_some]

/-- `Number(String(n)) === n`. -/
theorem ofText_repr (n : SafeInteger) : ofText n.1.repr.toList = some (n.1 : ℚ) := by
  obtain ⟨n, hn⟩ := n
  cases n with
  | ofNat m =>
    have hm : m < 2 ^ 53 := hn
    change ofText (Nat.repr m).toList = some ((m : ℤ) : ℚ)
    rw [Nat.toList_repr, ofText_toDigits hm]
    rfl
  | negSucc m =>
    change ofText ("-" ++ Nat.repr (m + 1)).toList = some ((Int.negSucc m : ℤ) : ℚ)
    have hm : m + 1 < 2 ^ 53 := hn
    rw [String.toList_append, Nat.toList_repr]
    refine (ofText_neg_toDigits hm).trans ?_
    rw [Int.cast_negSucc]

/-- `Number` and `String` agree on every field that is there: the text decides the number. -/
theorem Field.toNumber_eq_ofText {f : Field} (hf : f.given) :
    f.toNumber = ofText f.toString.toList := by
  cases f with
  | absent => simp [Field.given] at hf
  | null => simp [Field.given] at hf
  | text s => rfl
  | number n => exact (ofText_repr n).symm

/-- A field with the text of another one that is there, where both are numeric, is there as
    well. -/
theorem Field.text_numeric {f : Field} (hf : f.Numeric) (hgiven : f.given) :
    (ofText f.toString.toList).isSome := by
  cases f with
  | absent => simp [Field.given] at hgiven
  | null => simp [Field.given] at hgiven
  | text s => exact hf
  | number n => exact (ofText_repr n) ▸ rfl

end JsNumber
