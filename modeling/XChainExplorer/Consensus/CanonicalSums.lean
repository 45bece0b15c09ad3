import XChainExplorer.Consensus.SmtKeys
import XChainExplorer.Lib.Decimal
import Mathlib.Algebra.BigOperators.Group.List.Basic
import Mathlib.Algebra.Order.Field.Rat
import Mathlib.Tactic.FieldSimp
import Mathlib.Tactic.Positivity

/-! # Canonical amounts and their sums

    A canonical amount is the text of a whole number of the smallest unit, so it is told by the number it
    denotes, and sums of amounts are sums of these numbers. -/

namespace Merkle

open Decimal (Digits value padded)

/-- Of the smallest unit, in one. -/
def UNITS : ℕ := 10 ^ 18

/-- A number of units, as a decimal with 18 fraction digits. -/
def renderUnits (n : ℕ) : List Char := Nat.toDigits 10 (n / UNITS) ++ '.' :: padded 18 (n % UNITS)

/-- The number a text of an amount denotes. -/
def amountValue (parts : List Char × List Char) : ℚ := value parts.1 + value parts.2 / 10 ^ parts.2.length

/-! ### The parts of an amount -/

/-- The two parts of a decimal amount. -/
structure AmountParts (intPart fracPart : List Char) : Prop where
  intDigits : Digits intPart
  int_ne_nil : intPart ≠ []
  fracDigits : Digits fracPart
  frac_le : fracPart.length ≤ 18

theorem amountParts_spec {s intPart fracPart : List Char} (h : amountParts s = some (intPart, fracPart)) :
    AmountParts intPart fracPart := by
  simp only [amountParts] at h
  split_ifs at h with hnil
  have hint : Digits (s.takeWhile Char.isDigit) := fun c hc => List.mem_takeWhile_imp hc
  split at h
  · cases h
    exact ⟨hint, hnil, Decimal.digits_nil, by decide⟩
  · split_ifs at h with hfrac
    cases h
    exact ⟨hint, hnil, List.all_eq_true.mp hfrac.1, hfrac.2.2⟩
  · cases h

theorem amountParts_append {intPart fracPart : List Char} (hint : Digits intPart) (hne : intPart ≠ [])
    (hfrac : Digits fracPart) (hpos : 1 ≤ fracPart.length) (hle : fracPart.length ≤ 18) :
    amountParts (intPart ++ '.' :: fracPart) = some (intPart, fracPart) := by
  have htake : (intPart ++ '.' :: fracPart).takeWhile Char.isDigit = intPart := by
    rw [List.takeWhile_append_of_pos hint, List.takeWhile_cons_of_neg (by decide), List.append_nil]
  have hdrop : (intPart ++ '.' :: fracPart).dropWhile Char.isDigit = '.' :: fracPart := by
    rw [List.dropWhile_append_of_pos hint, List.dropWhile_cons_of_neg (by decide)]
  rw [amountParts, htake, hdrop]
  simp only [hne, if_false]
  exact if_pos ⟨List.all_eq_true.mpr hfrac, hpos, hle⟩

/-- Off its leading zeros a number is written the shortest way. -/
theorem stripZeros_eq {ds : List Char} (hds : Digits ds) (hne : ds ≠ []) :
    stripZeros ds = Nat.toDigits 10 (value ds) := by
  have hsplit := List.takeWhile_append_dropWhile (p := (· = '0')) (l := ds)
  have hzeros : ds.takeWhile (· = '0') = List.replicate (ds.takeWhile (· = '0')).length '0' :=
    List.eq_replicate_of_mem fun c hc => by simpa using List.mem_takeWhile_imp hc
  rw [stripZeros]
  split_ifs with hall
  · rw [hall, List.append_nil] at hsplit
    rw [hsplit] at hzeros
    have hpos : 0 < ds.length := List.length_pos_iff.mpr hne
    rw [hzeros, List.length_replicate, List.drop_replicate, Nat.sub_sub_self hpos, value,
      Nat.ofDigitChars_replicate_zero, Nat.mul_zero]
    rfl
  · have hrest : Digits (ds.dropWhile (· = '0')) := fun c hc => hds c ((List.dropWhile_suffix _).subset hc)
    have hvalue : value ds = value (ds.dropWhile (· = '0')) := by
      rw [← hsplit, hzeros, Decimal.value_zeros_append, ← hzeros, hsplit]
    rw [hvalue]
    refine (Decimal.toDigits_value hrest hall fun hhead => ?_).symm
    have hfirst := List.head?_dropWhile_not (fun c => decide (c = '0')) ds
    rw [hhead] at hfirst
    simp at hfirst

theorem stripZeros_toDigits (n : ℕ) : stripZeros (Nat.toDigits 10 n) = Nat.toDigits 10 n := by
  rw [stripZeros_eq Decimal.digits_toDigits Nat.toDigits_ne_nil, Decimal.value_toDigits]

theorem take_zeros {fracPart : List Char} (h : fracPart.length ≤ 18) :
    (fracPart ++ List.replicate 18 '0').take 18 = fracPart ++ List.replicate (18 - fracPart.length) '0' := by
  rw [List.take_append, List.take_of_length_le h, List.take_replicate, Nat.min_eq_left (Nat.sub_le _ _)]

/-! ### Amounts -/

/-- A text that `canonicalAmount` accepts. -/
structure Amount where
  text : String
  accepted : (canonicalAmount (some text)).isOk = true

/-- The number it denotes. -/
def Amount.value (a : Amount) : ℚ := (amountParts (JsNumber.trim a.text.toList)).elim 0 amountValue

/-- Its value in units of the last place. -/
def Amount.units (a : Amount) : ℕ :=
  (amountParts (JsNumber.trim a.text.toList)).elim 0 fun parts =>
    Decimal.value parts.1 * UNITS + Decimal.value parts.2 * 10 ^ (18 - parts.2.length)

variable (a b : Amount)

theorem Amount.exists_parts : ∃ intPart fracPart,
    amountParts (JsNumber.trim a.text.toList) = some (intPart, fracPart) ∧ AmountParts intPart fracPart := by
  have haccepted := a.accepted
  cases hparts : amountParts (JsNumber.trim a.text.toList) with
  | none =>
    rw [canonicalAmount, canonicalParts] at haccepted
    simp only [hparts] at haccepted
    cases haccepted
  | some parts => exact ⟨parts.1, parts.2, rfl, amountParts_spec hparts⟩

theorem Amount.value_eq_units : a.value = (a.units : ℚ) / UNITS := by
  obtain ⟨intPart, fracPart, hparts, hspec⟩ := a.exists_parts
  have hscale : (10 : ℚ) ^ (18 - fracPart.length) = 10 ^ 18 / 10 ^ fracPart.length := by
    rw [eq_div_iff (by positivity), ← pow_add, Nat.sub_add_cancel hspec.frac_le]
  rw [Amount.value, Amount.units, hparts, Option.elim_some, Option.elim_some, amountValue, UNITS]
  push_cast
  rw [hscale]
  field_simp
  ring

theorem units_div_mod {q r : ℕ} (hr : r < UNITS) : (q * UNITS + r) / UNITS = q ∧ (q * UNITS + r) % UNITS = r := by
  have hpos : 0 < UNITS := by decide
  rw [Nat.add_comm]
  exact ⟨by rw [Nat.add_mul_div_right _ _ hpos, Nat.div_eq_of_lt hr, Nat.zero_add],
    by rw [Nat.add_mul_mod_self_right, Nat.mod_eq_of_lt hr]⟩

/-- An amount comes down to the digits of its units. -/
theorem canonicalParts_amount :
    canonicalParts (some a.text) = .ok (Nat.toDigits 10 (a.units / UNITS), padded 18 (a.units % UNITS)) := by
  obtain ⟨intPart, fracPart, hparts, hspec⟩ := a.exists_parts
  have hdigits : Digits (fracPart ++ List.replicate (18 - fracPart.length) '0') :=
    Decimal.digits_append.mpr ⟨hspec.fracDigits, Decimal.digits_zeros⟩
  have hlen : (fracPart ++ List.replicate (18 - fracPart.length) '0').length = 18 := by
    rw [List.length_append, List.length_replicate, Nat.add_sub_cancel' hspec.frac_le]
  have hvalue : Decimal.value (fracPart ++ List.replicate (18 - fracPart.length) '0') =
      Decimal.value fracPart * 10 ^ (18 - fracPart.length) := by
    rw [Decimal.value_append_zeros, Nat.mul_comm]
  have hlt := Decimal.value_lt hdigits
  rw [hlen, hvalue] at hlt
  have hunits : a.units = Decimal.value intPart * UNITS + Decimal.value fracPart * 10 ^ (18 - fracPart.length) := by
    rw [Amount.units, hparts, Option.elim_some]
  obtain ⟨hdiv, hmod⟩ := units_div_mod (q := Decimal.value intPart) hlt
  have hpadded := Decimal.padded_value hdigits (List.ne_nil_of_length_pos (by omega))
  rw [hlen, hvalue] at hpadded
  rw [canonicalParts]
  simp only [hparts]
  rw [hunits, hdiv, hmod, stripZeros_eq hspec.intDigits hspec.int_ne_nil, take_zeros hspec.frac_le, hpadded]

theorem canonicalAmount_amount : canonicalAmount (some a.text) = .ok (String.ofList (renderUnits a.units)) := by
  rw [canonicalAmount, canonicalParts_amount]
  rfl

theorem length_fraction (n : ℕ) : (padded 18 (n % UNITS)).length = 18 :=
  Decimal.length_padded (by decide) (Nat.mod_lt n (by decide : 0 < UNITS))

theorem amountParts_render (n : ℕ) :
    amountParts (renderUnits n) = some (Nat.toDigits 10 (n / UNITS), padded 18 (n % UNITS)) := by
  have hlen := length_fraction n
  exact amountParts_append Decimal.digits_toDigits Nat.toDigits_ne_nil Decimal.digits_padded (by omega) (by omega)

theorem trim_render (n : ℕ) : JsNumber.trim (renderUnits n) = renderUnits n := by
  refine JsNumber.trim_of_forall fun c hc => ?_
  rcases List.mem_append.mp hc with hc | hc
  · exact JsNumber.isStrWhite_of_isDigit (Decimal.digits_toDigits c hc)
  · rcases List.mem_cons.mp hc with rfl | hc
    · decide
    · exact JsNumber.isStrWhite_of_isDigit (Decimal.digits_padded c hc)

/-- A canonical amount is its own. -/
theorem canonicalAmount_render (n : ℕ) :
    canonicalAmount (some (String.ofList (renderUnits n))) = .ok (String.ofList (renderUnits n)) := by
  have hlen := length_fraction n
  have hparts : canonicalParts (some (String.ofList (renderUnits n))) =
      .ok (Nat.toDigits 10 (n / UNITS), padded 18 (n % UNITS)) := by
    rw [canonicalParts]
    simp only [String.toList_ofList, trim_render, amountParts_render]
    rw [stripZeros_toDigits, take_zeros hlen.le, hlen, Nat.sub_self, List.replicate_zero, List.append_nil]
  rw [canonicalAmount, hparts]
  rfl

theorem renderUnits_injective : Function.Injective renderUnits := by
  intro n m h
  have hparts := (amountParts_render n).symm.trans ((congrArg amountParts h).trans (amountParts_render m))
  obtain ⟨hint, hfrac⟩ := Prod.mk.inj (Option.some.inj hparts)
  have hdiv : n / UNITS = m / UNITS := by
    rw [← Decimal.value_toDigits (n := n / UNITS), hint, Decimal.value_toDigits]
  have hmod : n % UNITS = m % UNITS := by
    rw [← Decimal.value_padded (k := 18) (n := n % UNITS), hfrac, Decimal.value_padded]
  rw [← Nat.div_add_mod n UNITS, hdiv, hmod, Nat.div_add_mod]

/-! ### Sums -/

/-- The text of a sum is that of its units. -/
theorem render_sum (acc : ℕ) :
    let s := Nat.toDigits 10 acc
    stripZeros (if s.length > 18 then s.take (s.length - 18) else ['0']) ++ '.' ::
      (if s.length > 18 then s.drop (s.length - 18) else List.replicate (18 - s.length) '0' ++ s) =
        renderUnits acc := by
  intro s
  have hdigits : Digits s := Decimal.digits_toDigits
  by_cases hlong : s.length > 18
  · have hsplit : s.take (s.length - 18) ++ s.drop (s.length - 18) = s := List.take_append_drop ..
    obtain ⟨htake, hdrop⟩ := Decimal.digits_append.mp (hsplit.symm ▸ hdigits)
    have hlen : (s.drop (s.length - 18)).length = 18 := by
      rw [List.length_drop]
      omega
    have hlt := Decimal.value_lt hdrop
    rw [hlen] at hlt
    have hacc : acc = Decimal.value (s.take (s.length - 18)) * UNITS + Decimal.value (s.drop (s.length - 18)) := by
      have hvalue : Decimal.value s = acc := Decimal.value_toDigits
      rw [← hvalue, ← hsplit, Decimal.value_append, hsplit, hlen, Nat.mul_comm]
      rfl
    obtain ⟨hdiv, hmod⟩ := units_div_mod (q := Decimal.value (s.take (s.length - 18))) hlt
    have hne : s.take (s.length - 18) ≠ [] := by
      refine List.ne_nil_of_length_pos ?_
      rw [List.length_take]
      omega
    have hpadded := Decimal.padded_value hdrop (List.ne_nil_of_length_pos (by omega))
    rw [hlen] at hpadded
    rw [if_pos hlong, if_pos hlong, stripZeros_eq htake hne, renderUnits, hacc, hdiv, hmod, hpadded]
  · have hsmall : acc < UNITS := (Nat.length_toDigits_le_iff (by decide) (by decide)).mp (not_lt.mp hlong)
    rw [if_neg hlong, if_neg hlong, renderUnits, Nat.div_eq_of_lt hsmall, Nat.mod_eq_of_lt hsmall]
    rfl

theorem sumCanonicalAmounts_amounts (amounts : List Amount) :
    sumCanonicalAmounts (amounts.map Amount.text) =
      .ok (String.ofList (renderUnits (amounts.map Amount.units).sum)) := by
  have hparts : (amounts.map Amount.text).mapM (fun a => canonicalParts (some a)) =
      .ok (amounts.map fun a => (Nat.toDigits 10 (a.units / UNITS), padded 18 (a.units % UNITS))) := by
    induction amounts with
    | nil => rfl
    | cons a amounts ih =>
      rw [List.map_cons, List.mapM_cons, canonicalParts_amount, ih]
      rfl
  have hsum : ((amounts.map fun a => (Nat.toDigits 10 (a.units / UNITS), padded 18 (a.units % UNITS))).map fun p =>
      Nat.ofDigitChars 10 p.1 0 * 1000000000000000000 + Nat.ofDigitChars 10 p.2 0) = amounts.map Amount.units := by
    rw [List.map_map]
    refine List.map_congr_left fun a _ => ?_
    have hint : Decimal.value (Nat.toDigits 10 (a.units / UNITS)) = a.units / UNITS := Decimal.value_toDigits
    have hfrac : Decimal.value (padded 18 (a.units % UNITS)) = a.units % UNITS := Decimal.value_padded
    calc
      _ = a.units / UNITS * UNITS + a.units % UNITS := congrArg₂ (fun q r => q * UNITS + r) hint hfrac
      _ = a.units := Nat.div_add_mod' ..
  rw [sumCanonicalAmounts, hparts]
  change Except.ok _ = Except.ok _
  rw [hsum, render_sum]

/-- The sum of amounts is exact and in its canonical text whatever their order, and two amounts have one
    canonical text when they denote one number. -/
theorem canonical_sums_exact :
    (∀ amounts : List Amount, ∃ n : ℕ, (n : ℚ) / UNITS = (amounts.map Amount.value).sum ∧
      (∀ amounts' : List Amount, amounts'.Perm amounts →
        sumCanonicalAmounts (amounts'.map Amount.text) = .ok (String.ofList (renderUnits n))) ∧
      canonicalAmount (some (String.ofList (renderUnits n))) = .ok (String.ofList (renderUnits n))) ∧
    ∀ a b : Amount, canonicalAmount (some a.text) = canonicalAmount (some b.text) ↔ a.value = b.value := by
  refine ⟨fun amounts => ⟨(amounts.map Amount.units).sum, ?_, fun amounts' hperm => ?_,
    canonicalAmount_render _⟩, fun a b => ?_⟩
  · induction amounts with
    | nil => simp
    | cons a amounts ih =>
      rw [List.map_cons, List.sum_cons, List.map_cons, List.sum_cons, ← ih, a.value_eq_units, Nat.cast_add, add_div]
  · rw [sumCanonicalAmounts_amounts, (hperm.map Amount.units).sum_eq]
  · have hunits : (UNITS : ℚ) ≠ 0 := by
      rw [UNITS]
      positivity
    rw [canonicalAmount_amount, canonicalAmount_amount, a.value_eq_units, b.value_eq_units,
      div_left_inj' hunits, Nat.cast_inj]
    refine ⟨fun h => ?_, fun h => by rw [h]⟩
    exact renderUnits_injective (String.ofList_injective (Except.ok.inj h))

/-- A tenth. -/
def tenth : Amount := ⟨"0.1", by decide +kernel⟩

/-- The same, with zeros around it. -/
def tenthPadded : Amount := ⟨"00.10", by decide +kernel⟩

/-- An amount past the doubles. -/
def large : Amount := ⟨"90071992547409930.000000000000000007", by decide +kernel⟩

/-- Two orders of three amounts have one sum, past the precision of a double, and two spellings of a
    tenth one text. -/
theorem canonical_sums_exact_tenths :
    sumCanonicalAmounts ["0.1", "90071992547409930.000000000000000007", "00.10"] =
        sumCanonicalAmounts ["90071992547409930.000000000000000007", "00.10", "0.1"] ∧
      canonicalAmount (some "0.1") = canonicalAmount (some "00.10") := by
  obtain ⟨n, -, hsum, -⟩ := canonical_sums_exact.1 [tenth, large, tenthPadded]
  have hvalue : tenth.value = tenthPadded.value := by decide +kernel
  refine ⟨?_, (canonical_sums_exact.2 tenth tenthPadded).mpr hvalue⟩
  have hswapped : [large, tenthPadded, tenth].Perm [tenth, large, tenthPadded] :=
    (List.perm_append_singleton tenth [large, tenthPadded])
  exact (hsum _ (List.Perm.refl _)).trans (hsum _ hswapped).symm

end Merkle
