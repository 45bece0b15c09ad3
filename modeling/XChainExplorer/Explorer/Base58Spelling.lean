import XChainExplorer.Explorer.AddressShape
import Mathlib.Tactic.IntervalCases

/-! # Base58Check addresses

    The spelling of a version byte and a payload with their checksum, and that the decoder finds exactly
    the texts spelled so. -/

namespace AddressShape
open Positional

/-- The bytes as one number in base 58, a `1` for every zero byte in front. -/
def base58 (bytes : Bytes) : JsString := spelled BASE58_ALPHABET (recode 256 58 (bytes.map UInt8.toNat))

def checksumOf (body : Bytes) : Bytes := (Sha256.sha256 (Sha256.sha256 body)).take 4

def base58check (version : UInt8) (payload : Bytes) : JsString :=
  base58 (version :: payload ++ checksumOf (version :: payload))

/-- An address of the network: one of its two version bytes and a hash of 20 bytes. -/
def IsBase58Check (params : Params) (s : JsString) : Prop :=
  ∃ version hash, (version = params.p2pkh ∨ version = params.p2sh) ∧ hash.length = 20 ∧ s = base58check version hash

/-! ### The number as hex -/

theorem alphabet58_nodup : BASE58_ALPHABET.Nodup := by decide

theorem length_alphabet58 : BASE58_ALPHABET.length = 58 := by decide

theorem digitChar_eq {n : ℕ} (hn : n < 16) : n.digitChar = Hex.digit n := by
  interval_cases n <;> decide

/-- Two more digits leave a text's length as even or odd as it was. -/
theorem padHex_append (hex : List Char) (a b : Char) : padHex (hex ++ [a, b]) = padHex hex ++ [a, b] := by
  have hparity : (hex ++ [a, b]).length % 2 = hex.length % 2 := by simp
  rw [padHex, padHex, hparity]
  split_ifs <;> rfl

theorem padHex_toDigits {num : ℕ} (hnum : 0 < num) :
    padHex (Nat.toDigits 16 num) = Hex.encodeChars ((minimal 256 num).map UInt8.ofNat) := by
  induction num using Nat.strong_induction_on with
  | _ num ih =>
    have hbyte : Hex.encodeByte (UInt8.ofNat (num % 256)) = [Hex.digit (num / 16 % 16), Hex.digit (num % 16)] := by
      have hval : (UInt8.ofNat (num % 256)).toNat = num % 256 :=
        UInt8.toNat_ofNat_of_lt' (Nat.mod_lt num (by norm_num))
      have hhigh : num % 256 / 16 = num / 16 % 16 := by omega
      have hlow : num % 256 % 16 = num % 16 := by omega
      rw [Hex.encodeByte, hval, hhigh, hlow]
    have hlow : (num % 16).digitChar = Hex.digit (num % 16) := digitChar_eq (Nat.mod_lt num (by norm_num))
    have hhigh : (num / 16 % 16).digitChar = Hex.digit (num / 16 % 16) :=
      digitChar_eq (Nat.mod_lt _ (by norm_num))
    rw [minimal_eq_concat (by norm_num) hnum, List.map_append, List.map_singleton, Hex.encodeChars,
      List.flatMap_append, List.flatMap_singleton, hbyte, ← Hex.encodeChars]
    by_cases hsmall : num < 256
    · have hquot : num / 256 = 0 := Nat.div_eq_of_lt hsmall
      rw [hquot, minimal_zero]
      by_cases hdigit : num < 16
      · have hzero : num / 16 % 16 = 0 := by omega
        rw [Nat.toDigits_of_lt_base hdigit, hzero, Nat.mod_eq_of_lt hdigit, digitChar_eq hdigit]
        rfl
      · have hquot16 : num / 16 < 16 := by omega
        rw [Nat.toDigits_of_base_le (by norm_num) (by omega), Nat.toDigits_of_lt_base hquot16, hlow,
          digitChar_eq hquot16, Nat.mod_eq_of_lt hquot16, padHex, if_neg (by simp)]
        rfl
    · have hquot : num / 16 / 16 = num / 256 := by omega
      rw [Nat.toDigits_of_base_le (by norm_num) (by omega), Nat.toDigits_of_base_le (n := num / 16) (by norm_num) (by omega),
        hlow, hhigh, hquot, List.append_assoc, List.singleton_append, padHex_append,
        ih (num / 256) (by omega) (by omega)]

/-! ### The decoder -/

theorem isOne_iff {d : ℕ} (hd : d < 58) : BASE58_ALPHABET.getD d 0 = unit '1' ↔ d = 0 := by
  have hall : ∀ d < 58, BASE58_ALPHABET.getD d 0 = unit '1' ↔ d = 0 := by decide
  exact hall d hd

theorem leading_spelled {values : List ℕ} (hvalues : ∀ d ∈ values, d < 58) :
    ((spelled BASE58_ALPHABET values).takeWhile (· = unit '1')).length = zeros values := by
  induction values with
  | nil => rfl
  | cons d ds ih =>
    have hd := isOne_iff (hvalues d List.mem_cons_self)
    rw [spelled, List.map_cons, ← spelled, zeros]
    by_cases hzero : d = 0
    · rw [List.takeWhile_cons_of_pos (by simpa using hd.mpr hzero), List.takeWhile_cons_of_pos (by simpa using hzero),
        List.length_cons, List.length_cons, ih fun e he => hvalues e (List.mem_cons_of_mem d he), zeros]
    · rw [List.takeWhile_cons_of_neg (by simpa using fun h => hzero (hd.mp h)),
        List.takeWhile_cons_of_neg (by simpa using hzero)]
      rfl

/-- The bytes read are the digits spelled again in base 256. -/
theorem bytes_eq (values : List ℕ) :
    List.replicate (zeros values) 0 ++
        (if value 58 values ≠ 0 then Hex.decodeChars (padHex (Nat.toDigits 16 (value 58 values))) else []) =
      (recode 58 256 values).map UInt8.ofNat := by
  rw [recode, List.map_append, List.map_replicate]
  by_cases hzero : value 58 values = 0
  · rw [if_neg (by simpa using hzero), hzero, minimal_zero]
    rfl
  · rw [if_pos hzero, padHex_toDigits (Nat.pos_of_ne_zero hzero), Hex.decodeChars_encodeChars]
    rfl

theorem map_toNat_ofNat {l : List ℕ} (hl : ∀ d ∈ l, d < 256) : (l.map UInt8.ofNat).map UInt8.toNat = l := by
  rw [List.map_map]
  conv_rhs => rw [← List.map_id l]
  exact List.map_congr_left fun d hd => UInt8.toNat_ofNat_of_lt' (hl d hd)

theorem toNat_lt (bytes : Bytes) : ∀ d ∈ bytes.map UInt8.toNat, d < 256 := by
  intro d hd
  obtain ⟨byte, -, rfl⟩ := List.mem_map.mp hd
  exact byte.toNat_lt

theorem map_ofNat_toNat (bytes : Bytes) : (bytes.map UInt8.toNat).map UInt8.ofNat = bytes := by
  rw [List.map_map]
  conv_rhs => rw [← List.map_id bytes]
  exact List.map_congr_left fun b _ => UInt8.ofNat_toNat

theorem base58_spelled {values : List ℕ} (hvalues : ∀ d ∈ values, d < 58) :
    base58 ((recode 58 256 values).map UInt8.ofNat) = spelled BASE58_ALPHABET values := by
  rw [base58, map_toNat_ofNat (recode_lt (by norm_num) values), recode_recode (by norm_num) hvalues]

theorem base58Decode_spelled {values : List ℕ} (hvalues : ∀ d ∈ values, d < 58) (hlow : 26 ≤ values.length)
    (hhigh : values.length ≤ 48) :
    base58Decode (spelled BASE58_ALPHABET values) = some ((recode 58 256 values).map UInt8.ofNat) := by
  have hindices : indices BASE58_ALPHABET (spelled BASE58_ALPHABET values) = some values :=
    (indices_eq_some_iff alphabet58_nodup).mpr ⟨by rwa [length_alphabet58], rfl⟩
  rw [base58Decode, if_neg (by rw [length_spelled]; omega), hindices]
  simp only [leading_spelled hvalues]
  rw [← bytes_eq]
  rfl

/-- The decoder reads the texts of 26 to 48 units that spell bytes, and those bytes. -/
theorem base58Decode_eq_some_iff {str : JsString} {bytes : Bytes} :
    base58Decode str = some bytes ↔ 26 ≤ str.length ∧ str.length ≤ 48 ∧ str = base58 bytes := by
  constructor
  · intro h
    by_cases hlen : str.length < 26 ∨ 48 < str.length
    · rw [base58Decode, if_pos hlen] at h
      simp at h
    · cases hindices : indices BASE58_ALPHABET str with
      | none => simp [base58Decode, hlen, hindices] at h
      | some values =>
        obtain ⟨hvalues, rfl⟩ := (indices_eq_some_iff alphabet58_nodup).mp hindices
        rw [length_alphabet58] at hvalues
        rw [length_spelled] at hlen
        rw [base58Decode_spelled hvalues (by omega) (by omega)] at h
        rw [← Option.some.inj h, base58_spelled hvalues, length_spelled]
        exact ⟨by omega, by omega, rfl⟩
  · rintro ⟨hlow, hhigh, rfl⟩
    have hvalues : ∀ d ∈ recode 256 58 (bytes.map UInt8.toNat), d < 58 := recode_lt (by norm_num) _
    rw [base58, length_spelled] at hlow hhigh
    rw [base58, base58Decode_spelled hvalues hlow hhigh, recode_recode (by norm_num) (toNat_lt _), map_ofNat_toNat]

/-! ### How long an address is -/

theorem length_checksumOf (body : Bytes) : (checksumOf body).length = 4 := by
  rw [checksumOf, List.length_take, Sha256.length_sha256]
  rfl

/-- The checksum of 21 zero bytes does not begin with another one. -/
theorem checksumOf_zeros : (checksumOf (List.replicate 21 0)).head? ≠ some 0 := by decide +kernel

theorem zeros_full_le {body : Bytes} (hbody : body.length = 21) :
    zeros ((body ++ checksumOf body).map UInt8.toNat) ≤ 21 := by
  by_contra hzeros
  obtain ⟨m, hm, -⟩ := exists_of_zeros ((body ++ checksumOf body).map UInt8.toNat)
  generalize zeros ((body ++ checksumOf body).map UInt8.toNat) = z at hm hzeros
  have hbytes : body ++ checksumOf body = List.replicate z 0 ++ m.map UInt8.ofNat := by
    have h := congrArg (List.map UInt8.ofNat) hm
    rw [map_ofNat_toNat, List.map_append, List.map_replicate] at h
    exact h
  have hsplit : List.replicate z (0 : UInt8) = List.replicate 21 0 ++ 0 :: List.replicate (z - 22) 0 := by
    rw [← List.replicate_succ, List.replicate_append_replicate]
    congr 1
    omega
  rw [hsplit, List.append_assoc] at hbytes
  obtain ⟨hzero, hcheck⟩ := List.append_inj hbytes (by rw [hbody, List.length_replicate])
  apply checksumOf_zeros
  rw [hzero] at hcheck
  rw [hcheck]
  rfl

theorem length_base58check (version : UInt8) {hash : Bytes} (hhash : hash.length = 20) :
    26 ≤ (base58check version hash).length ∧ (base58check version hash).length ≤ 48 := by
  have hbody : (version :: hash).length = 21 := by rw [List.length_cons, hhash]
  have hzeros := zeros_full_le hbody
  rw [base58check, base58, length_spelled, length_recode]
  have hlen : ((version :: hash ++ checksumOf (version :: hash)).map UInt8.toNat).length = 25 := by
    rw [List.length_map, List.length_append, hbody, length_checksumOf]
  have hdigits := toNat_lt (version :: hash ++ checksumOf (version :: hash))
  generalize (version :: hash ++ checksumOf (version :: hash)).map UInt8.toNat = l at hzeros hlen hdigits ⊢
  have hlower : 256 ^ (l.length - zeros l - 1) ≤ value 256 l := le_value_of_zeros (by omega)
  have hupper : value 256 l < 256 ^ (l.length - zeros l) := value_lt_of_zeros hdigits
  rw [hlen] at hlower hupper
  generalize zeros l = z at hzeros hlower hupper ⊢
  have hpow : ∀ z ≤ 21, 58 ^ (25 - z) ≤ 256 ^ (25 - z - 1) ∧ 256 ^ (25 - z) ≤ 58 ^ (48 - z) := by decide
  obtain ⟨hpowlow, hpowhigh⟩ := hpow z hzeros
  have hlong : 25 - z < (minimal 58 (value 256 l)).length := lt_length_minimal (by norm_num) (hpowlow.trans hlower)
  have hshort : (minimal 58 (value 256 l)).length ≤ 48 - z :=
    length_minimal_le (by norm_num) (hupper.trans_le hpowhigh)
  omega

/-! ### The verdict -/

theorem checksumHolds_iff {body check : Bytes} (hcheck : check.length = 4) :
    base58ChecksumHolds (body ++ check) = true ↔ check = checksumOf body := by
  have hlen : (body ++ check).length - 4 = body.length := by rw [List.length_append, hcheck]; omega
  rw [base58ChecksumHolds, hlen, List.take_left, List.drop_left, decide_eq_true_eq, checksumOf]

theorem base58Verdict_of_isBase58Check {params : Params} {str : JsString} (h : IsBase58Check params str) :
    base58Verdict params str = .canonical str := by
  obtain ⟨version, hash, hversion, hhash, rfl⟩ := h
  obtain ⟨hlow, hhigh⟩ := length_base58check version hhash
  have hdecode := base58Decode_eq_some_iff.mpr ⟨hlow, hhigh, rfl⟩
  have hchecksum := (checksumHolds_iff (length_checksumOf (version :: hash))).mpr rfl
  have hlen : (version :: hash ++ checksumOf (version :: hash)).length = 25 := by
    rw [List.length_append, List.length_cons, hhash, length_checksumOf]
  have hhead : (version :: hash ++ checksumOf (version :: hash)).head? = some version := rfl
  simp only [base58Verdict, hdecode, hlen, hchecksum, hhead, Option.some.injEq, ne_eq, not_true_eq_false,
    Bool.true_eq_false, or_self, if_false, if_pos hversion]

theorem isBase58Check_of_verdict {params : Params} {str t : JsString}
    (h : base58Verdict params str = .canonical t) : IsBase58Check params str ∧ t = str := by
  unfold base58Verdict at h
  cases hdecode : base58Decode str with
  | none => simp [hdecode] at h
  | some bytes =>
    simp only [hdecode] at h
    split_ifs at h with hshape hversion
    obtain ⟨-, -, hstr⟩ := base58Decode_eq_some_iff.mp hdecode
    have hlen : bytes.length = 25 := by_contra fun hne => hshape (.inl hne)
    have hholds : base58ChecksumHolds bytes = true := by
      cases hc : base58ChecksumHolds bytes with
      | false => exact absurd (.inr hc) hshape
      | true => rfl
    obtain ⟨version, rest, rfl⟩ := List.exists_cons_of_length_eq_add_one (n := 24) hlen
    have hrest : rest.length = 24 := by simpa using hlen
    have hsplit : version :: rest = (version :: rest.take 20) ++ rest.drop 20 := by
      rw [List.cons_append, List.take_append_drop]
    rw [hsplit, checksumHolds_iff (by rw [List.length_drop, hrest])] at hholds
    refine ⟨⟨version, rest.take 20, ?_, by rw [List.length_take, hrest]; rfl, ?_⟩, (Verdict.canonical.inj h).symm⟩
    · simpa using hversion
    · rw [base58check, ← hholds, ← hsplit, hstr]

end AddressShape
