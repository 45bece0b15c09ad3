import Mathlib.Data.List.Basic
import Mathlib.Data.Nat.Bitwise
import Mathlib.Tactic.IntervalCases

/-! # Hexadecimal text

    Bytes as text of two digits each, and back as `Buffer.from(text, 'hex')` reads it: up to the first
    pair that is not two digits of either case. What follows, an odd digit too, is not read. -/

namespace Hex

/-- A string of bytes. -/
abbrev Bytes := List UInt8

/-- The digits that are written. -/
def digits : List Char :=
  ['0', '1', '2', '3', '4', '5', '6', '7', '8', '9', 'a', 'b', 'c', 'd', 'e', 'f']

/-- The digit of a value. -/
def digit (n : ℕ) : Char := digits.getD n '0'

/-- The value of a digit, in either case. -/
def digitValue (c : Char) : Option ℕ :=
  if '0' ≤ c ∧ c ≤ '9' then some (c.toNat - 48)
  else if 'a' ≤ c ∧ c ≤ 'f' then some (c.toNat - 87)
  else if 'A' ≤ c ∧ c ≤ 'F' then some (c.toNat - 55)
  else none

/-- The two digits of a byte. -/
def encodeByte (b : UInt8) : List Char := [digit (b.toNat / 16), digit (b.toNat % 16)]

/-- The digits of a string of bytes. -/
def encodeChars (bytes : Bytes) : List Char := bytes.flatMap encodeByte

/-- The bytes up to the first pair that is no byte. -/
def decodeChars : List Char → Bytes
  | c :: d :: rest => match digitValue c, digitValue d with
    | some m, some n => UInt8.ofNat (16 * m + n) :: decodeChars rest
    | _, _ => []
  | _ => []

/-- The text of a string of bytes. -/
def encode (bytes : Bytes) : String := String.ofList (encodeChars bytes)

/-- The bytes of a text. -/
def decode (text : String) : Bytes := decodeChars text.toList

theorem digitValue_digit {n : ℕ} (h : n < 16) : digitValue (digit n) = some n := by
  interval_cases n <;> decide

theorem decodeChars_encodeChars (bytes : Bytes) : decodeChars (encodeChars bytes) = bytes := by
  induction bytes with
  | nil => rfl
  | cons b bytes ih =>
    have hlt := b.toNat_lt
    have hhigh : digitValue (digit (b.toNat / 16)) = some (b.toNat / 16) := digitValue_digit (by omega)
    have hlow : digitValue (digit (b.toNat % 16)) = some (b.toNat % 16) := digitValue_digit (by omega)
    have hbyte : UInt8.ofNat (16 * (b.toNat / 16) + b.toNat % 16) = b := by
      rw [Nat.div_add_mod]
      exact UInt8.ofNat_toNat
    change decodeChars (digit (b.toNat / 16) :: digit (b.toNat % 16) :: encodeChars bytes) = b :: bytes
    rw [decodeChars, hhigh, hlow]
    simp only [hbyte, ih]

@[simp] theorem decode_encode (bytes : Bytes) : decode (encode bytes) = bytes := by
  rw [decode, encode, String.toList_ofList, decodeChars_encodeChars]

theorem encode_injective : Function.Injective encode := by
  intro a b h
  rw [← decode_encode a, h, decode_encode]

@[simp] theorem encode_inj {a b : Bytes} : encode a = encode b ↔ a = b := encode_injective.eq_iff

end Hex
