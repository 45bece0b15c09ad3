import XChainExplorer.Explorer.AddressShape
import Mathlib.Data.Bool.AllAny

/-! # Custody addresses

    `C:`, a chain and the index of a contract on it, in the one spelling that the match lets through. -/

namespace AddressShape
open Positional

/-- `String(n)`. -/
def decimal (n : ℕ) : JsString := if n = 0 then [unit '0'] else spelled (units "0123456789") (minimal 10 n)

/-- The custody address of a chain and an index that a number can hold. -/
def IsCustody (s : JsString) : Prop :=
  ∃ (coin : Coin) (n : ℕ), n < 2 ^ 53 ∧ s = units "C:" ++ coin.tick ++ units ":" ++ decimal n

theorem forall_ascii {P : UInt16 → Prop} (h : ∀ n < 128, P (UInt16.ofNat n)) {u : UInt16} (hu : u < 128) : P u := by
  have hlt : u.toNat < 128 := UInt16.lt_iff_toNat_lt.mp hu
  rw [← UInt16.ofNat_toNat (x := u)]
  exact h u.toNat hlt

/-- The text of a match is the groups with what stands between them. -/
theorem contractMatch_eq_some {s chain index : JsString} (h : contractMatch s = some (chain, index)) :
    s = units "C:" ++ chain ++ units ":" ++ index ∧ (∀ u ∈ chain, isUpper u = true) ∧ canonicalDecimal index = true := by
  unfold contractMatch at h
  split at h
  case h_1 c colon rest =>
    dsimp only at h
    split at h
    case h_1 colon' tail hdrop =>
      split_ifs at h with hcond
      obtain ⟨rfl, rfl, -, rfl, hdecimal⟩ := hcond
      obtain ⟨rfl, rfl⟩ := Prod.mk.inj (Option.some.inj h)
      refine ⟨?_, fun u hu => List.mem_takeWhile_imp hu, hdecimal⟩
      conv_lhs => rw [← List.takeWhile_append_dropWhile (p := isUpper) (l := rest), hdrop]
      simp [units]
    case h_2 => simp at h
  case h_2 => simp at h

theorem contractMatch_append {chain index : JsString} (hchain : ∀ u ∈ chain, isUpper u = true) (hne : chain ≠ [])
    (hdecimal : canonicalDecimal index = true) :
    contractMatch (units "C:" ++ chain ++ units ":" ++ index) = some (chain, index) := by
  have hcolon : isUpper (unit ':') = false := by decide
  have htext : units "C:" ++ chain ++ units ":" ++ index = unit 'C' :: unit ':' :: (chain ++ unit ':' :: index) := by
    simp [units]
  have htake : (chain ++ unit ':' :: index).takeWhile isUpper = chain := by
    rw [List.takeWhile_append_of_pos hchain, List.takeWhile_cons_of_neg (by simp [hcolon]), List.append_nil]
  have hdrop : (chain ++ unit ':' :: index).dropWhile isUpper = unit ':' :: index := by
    rw [List.dropWhile_append_of_pos hchain, List.dropWhile_cons_of_neg (by simp [hcolon])]
  rw [htext]
  simp only [contractMatch, htake, hdrop, hne, hdecimal, ne_eq, not_false_eq_true, and_self, if_true]

theorem digitOf_spelled {ds : List ℕ} (hds : ∀ d ∈ ds, d < 10) :
    (spelled (units "0123456789") ds).map (fun u => u.toNat - (unit '0').toNat) = ds := by
  have hall : ∀ d < 10, ((units "0123456789").getD d 0).toNat - (unit '0').toNat = d := by decide
  rw [spelled, List.map_map]
  conv_rhs => rw [← List.map_id ds]
  exact List.map_congr_left fun d hd => hall d (hds d hd)

theorem decimalValue_decimal (n : ℕ) : decimalValue (decimal n) = n := by
  rw [decimal]
  split_ifs with hn
  · rw [hn]
    decide
  · rw [decimalValue, digitOf_spelled (minimal_lt (by norm_num) n), value_minimal]

theorem canonicalDecimal_decimal (n : ℕ) : canonicalDecimal (decimal n) = true := by
  rw [decimal]
  split_ifs with hn
  · decide
  · have hdigit : ∀ d < 10, isDigit ((units "0123456789").getD d 0) = true ∧
        ((units "0123456789").getD d 0 = unit '0' → d = 0) := by decide
    have hlt := minimal_lt (b := 10) (by norm_num) n
    have hzeros := zeros_minimal (b := 10) n
    have hvalue := value_minimal (b := 10) n
    generalize minimal 10 n = ds at hlt hzeros hvalue ⊢
    cases ds with
    | nil => simp at hvalue; omega
    | cons d ds =>
      have hd : d ≠ 0 := by
        rintro rfl
        simp [zeros] at hzeros
      have hhead : (units "0123456789").getD d 0 ≠ unit '0' :=
        fun h => hd ((hdigit d (hlt d List.mem_cons_self)).2 h)
      have hallDigits : (spelled (units "0123456789") (d :: ds)).all isDigit = true := by
        rw [List.all_eq_true]
        intro u hu
        obtain ⟨e, he, rfl⟩ := List.mem_map.mp hu
        exact (hdigit e (hlt e he)).1
      rw [canonicalDecimal, hallDigits, spelled, List.map_cons]
      simp only [List.head?_cons, ne_eq, Option.some.injEq, hhead, not_false_eq_true, decide_true, Bool.and_true,
        reduceCtorEq, Bool.or_true]

theorem decimal_decimalValue {s : JsString} (h : canonicalDecimal s = true) : decimal (decimalValue s) = s := by
  by_cases hzero : s = [unit '0']
  · rw [hzero]
    decide
  · simp only [canonicalDecimal, hzero, decide_false, Bool.false_or, Bool.and_eq_true, decide_eq_true_eq] at h
    obtain ⟨⟨hne, hhead⟩, hall⟩ := h
    have hdigits : ∀ u, isDigit u = true →
        u.toNat - (unit '0').toNat < 10 ∧ (units "0123456789").getD (u.toNat - (unit '0').toNat) 0 = u := by
      intro u hu
      have hascii : u < 128 := by
        simp only [isDigit, Bool.and_eq_true, decide_eq_true_eq] at hu
        exact UInt16.lt_of_le_of_lt hu.2 (by decide)
      exact forall_ascii (P := fun u => isDigit u = true → u.toNat - (unit '0').toNat < 10 ∧
        (units "0123456789").getD (u.toNat - (unit '0').toNat) 0 = u) (by decide) hascii hu
    have hall' : ∀ u ∈ s, isDigit u = true := List.all_eq_true.mp hall
    have hspelled : spelled (units "0123456789") (s.map fun u => u.toNat - (unit '0').toNat) = s := by
      rw [spelled, List.map_map]
      conv_rhs => rw [← List.map_id s]
      exact List.map_congr_left fun u hu => (hdigits u (hall' u hu)).2
    have hlt : ∀ d ∈ s.map (fun u => u.toNat - (unit '0').toNat), d < 10 := by
      intro d hd
      obtain ⟨u, hu, rfl⟩ := List.mem_map.mp hd
      exact (hdigits u (hall' u hu)).1
    have hself := recode_self (b := 10) (by norm_num) hlt
    cases s with
    | nil => simp at hne
    | cons u s =>
      have hu := hdigits u (hall' u List.mem_cons_self)
      have hpos : u.toNat - (unit '0').toNat ≠ 0 := by
        intro h
        rw [h] at hu
        exact hhead (by rw [List.head?_cons, ← hu.2]; rfl)
      rw [recode, List.map_cons, zeros, List.takeWhile_cons_of_neg (by simpa using hpos), List.length_nil,
        List.replicate_zero, List.nil_append, ← List.map_cons (f := fun u : UInt16 => u.toNat - (unit '0').toNat)] at hself
      have hvalue : decimalValue (u :: s) ≠ 0 := by
        intro h
        rw [decimalValue] at h
        rw [h, minimal_zero, List.map_cons] at hself
        simp at hself
      rw [decimal, if_neg hvalue, decimalValue, hself, hspelled]

theorem tick_upper (coin : Coin) : (∀ u ∈ coin.tick, isUpper u = true) ∧ coin.tick ≠ [] := by
  cases coin <;> exact ⟨List.all_iff_forall_prop.mp (by decide), by decide⟩

theorem mem_ticks (coin : Coin) : coin.tick ∈ COIN_NETWORKS.map Coin.tick := by cases coin <;> decide

/-- A match is accepted where it is a custody address. -/
theorem contractVerdict_iff {s chain index t : JsString} (h : contractMatch s = some (chain, index)) :
    contractVerdict s chain index = .canonical t ↔ IsCustody s ∧ t = s := by
  obtain ⟨hs, -, hdecimal⟩ := contractMatch_eq_some h
  have hiff : (chain ∈ COIN_NETWORKS.map Coin.tick ∧ decimalValue index < 2 ^ 53) ↔ IsCustody s := by
    constructor
    · rintro ⟨hchain, hindex⟩
      obtain ⟨coin, -, rfl⟩ := List.mem_map.mp hchain
      exact ⟨coin, decimalValue index, hindex, by rw [decimal_decimalValue hdecimal, hs]⟩
    · rintro ⟨coin, n, hn, hcustody⟩
      rw [hcustody, contractMatch_append (tick_upper coin).1 (tick_upper coin).2 (canonicalDecimal_decimal n),
        Option.some.injEq, Prod.mk.injEq] at h
      rw [← h.1, ← h.2, decimalValue_decimal]
      exact ⟨mem_ticks coin, hn⟩
  rw [contractVerdict, ← hiff]
  split_ifs with hcond
  · simp only [Verdict.canonical.injEq, hcond, true_and, eq_comm]
  · simp only [false_iff]
    exact fun hpos => hcond hpos.1

end AddressShape
