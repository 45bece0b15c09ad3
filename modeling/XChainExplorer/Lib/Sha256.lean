import Mathlib.Data.List.Induction
import Mathlib.Algebra.BigOperators.Group.List.Basic

/-! # SHA-256

    The hash over lists of bytes: the message is padded to blocks of 64 bytes, and each block is folded
    into eight words. A word is a number below `2 ^ 32`, and the message words that the next one is made
    of are kept in one number of 512 bits: of numbers the kernel evaluates the functions of `Nat` fast. -/

namespace Sha256

/-- A string of bytes. -/
abbrev Bytes := List UInt8

/-! ### Words -/

/-- The number of words of 32 bits. -/
def wordSize : ℕ := 4294967296

/-- Addition of words. -/
def add (x y : ℕ) : ℕ := Nat.mod (Nat.add x y) wordSize

/-- Over a word written twice, a shift is a rotation. -/
def rotr (x n : ℕ) : ℕ := Nat.mod (Nat.shiftRight (Nat.mul x (Nat.add wordSize 1)) n) wordSize

/-- The exclusive or of three words. -/
def xor (x y z : ℕ) : ℕ := Nat.xor (Nat.xor x y) z

/-- The complement of a word. -/
def not (x : ℕ) : ℕ := Nat.sub (Nat.sub wordSize 1) x

/-- The first function of a round. -/
def bigSigma0 (x : ℕ) : ℕ := xor (rotr x 2) (rotr x 13) (rotr x 22)

/-- The second. -/
def bigSigma1 (x : ℕ) : ℕ := xor (rotr x 6) (rotr x 11) (rotr x 25)

/-- The first function of the schedule. -/
def sigma0 (x : ℕ) : ℕ := xor (rotr x 7) (rotr x 18) (Nat.shiftRight x 3)

/-- The second. -/
def sigma1 (x : ℕ) : ℕ := xor (rotr x 17) (rotr x 19) (Nat.shiftRight x 10)

/-- The choice between two words by a third. -/
def ch (e f g : ℕ) : ℕ := Nat.xor (Nat.land e f) (Nat.land (not e) g)

/-- The majority of three words. -/
def maj (a b c : ℕ) : ℕ := xor (Nat.land a b) (Nat.land a c) (Nat.land b c)

/-! ### The message schedule -/

/-- Word `i` of the sixteen of a block. -/
def wordAt (block i : ℕ) : ℕ := Nat.mod (Nat.shiftRight block (Nat.sub 480 (Nat.mul 32 i))) wordSize

/-- The word that follows sixteen of the schedule. -/
def nextWord (block : ℕ) : ℕ :=
  add (add (add (wordAt block 0) (sigma0 (wordAt block 1))) (wordAt block 9)) (sigma1 (wordAt block 14))

/-- The next word moves in behind, the first one out. -/
def slide (block : ℕ) : ℕ := Nat.add (Nat.mod (Nat.mul block wordSize) (Nat.pow 2 512)) (nextWord block)

/-- The schedule of a block. -/
def schedule : ℕ → ℕ → List ℕ
  | 0, _ => []
  | n + 1, block => wordAt block 0 :: schedule n (slide block)

/-! ### The compression -/

/-- The state that a hash starts from. -/
def initial : List ℕ :=
  [0x6a09e667, 0xbb67ae85, 0x3c6ef372, 0xa54ff53a, 0x510e527f, 0x9b05688c, 0x1f83d9ab, 0x5be0cd19]

/-- The constants of the rounds. -/
def roundConstants : List ℕ :=
  [0x428a2f98, 0x71374491, 0xb5c0fbcf, 0xe9b5dba5, 0x3956c25b, 0x59f111f1, 0x923f82a4, 0xab1c5ed5,
   0xd807aa98, 0x12835b01, 0x243185be, 0x550c7dc3, 0x72be5d74, 0x80deb1fe, 0x9bdc06a7, 0xc19bf174,
   0xe49b69c1, 0xefbe4786, 0x0fc19dc6, 0x240ca1cc, 0x2de92c6f, 0x4a7484aa, 0x5cb0a9dc, 0x76f988da,
   0x983e5152, 0xa831c66d, 0xb00327c8, 0xbf597fc7, 0xc6e00bf3, 0xd5a79147, 0x06ca6351, 0x14292967,
   0x27b70a85, 0x2e1b2138, 0x4d2c6dfc, 0x53380d13, 0x650a7354, 0x766a0abb, 0x81c2c92e, 0x92722c85,
   0xa2bfe8a1, 0xa81a664b, 0xc24b8b70, 0xc76c51a3, 0xd192e819, 0xd6990624, 0xf40e3585, 0x106aa070,
   0x19a4c116, 0x1e376c08, 0x2748774c, 0x34b0bcb5, 0x391c0cb3, 0x4ed8aa4a, 0x5b9cca4f, 0x682e6ff3,
   0x748f82ee, 0x78a5636f, 0x84c87814, 0x8cc70208, 0x90befffa, 0xa4506ceb, 0xbef9a3f7, 0xc67178f2]

/-- The rounds, over the constants with the words of the schedule. -/
def rounds : List (ℕ × ℕ) → ℕ → ℕ → ℕ → ℕ → ℕ → ℕ → ℕ → ℕ → List ℕ
  | [], a, b, c, d, e, f, g, h => [a, b, c, d, e, f, g, h]
  | (k, w) :: rest, a, b, c, d, e, f, g, h =>
    let t1 := add (add (add (add h (bigSigma1 e)) (ch e f g)) k) w
    rounds rest (add t1 (add (bigSigma0 a) (maj a b c))) a b c (add d t1) e f g

/-- A block into the state. -/
def compress (state : List ℕ) (block : ℕ) : List ℕ :=
  match state with
  | [a, b, c, d, e, f, g, h] =>
    List.zipWith add state (rounds (roundConstants.zip (schedule 64 block)) a b c d e f g h)
  | _ => []

/-! ### The digest -/

/-- A number in so many bytes, the highest first. -/
def bigEndian (n : ℕ) : ℕ → Bytes
  | 0 => []
  | k + 1 => UInt8.ofNat (n / 256 ^ k) :: bigEndian n k

/-- The number that bytes are the digits of. -/
def number (bytes : Bytes) : ℕ := bytes.foldl (fun n b => Nat.add (Nat.mul n 256) b.toNat) 0

/-- A one bit, zeros up to eight bytes short of a block's end, and the length in bits. -/
def pad (message : Bytes) : Bytes :=
  message ++ 0x80 :: (List.replicate ((119 - message.length % 64) % 64) 0 ++
    bigEndian (8 * message.length) 8)

/-- The first `n` blocks. -/
def blocks : ℕ → Bytes → List ℕ
  | 0, _ => []
  | n + 1, bytes => number (bytes.take 64) :: blocks n (bytes.drop 64)

/-- The state after every block of a message. -/
def words (message : Bytes) : List ℕ := (blocks ((pad message).length / 64) (pad message)).foldl compress initial

/-- The hash of a message. -/
def sha256 (message : Bytes) : Bytes := (words message).flatMap fun w => bigEndian w 4

theorem length_bigEndian (n k : ℕ) : (bigEndian n k).length = k := by
  induction k with
  | zero => rfl
  | succ k ih => rw [bigEndian, List.length_cons, ih]

theorem length_rounds (kws : List (ℕ × ℕ)) (a b c d e f g h : ℕ) : (rounds kws a b c d e f g h).length = 8 := by
  induction kws generalizing a b c d e f g h with
  | nil => rfl
  | cons kw kws ih =>
    obtain ⟨k, w⟩ := kw
    exact ih _ _ _ _ _ _ _ _

theorem length_compress {state : List ℕ} (hstate : state.length = 8) (block : ℕ) :
    (compress state block).length = 8 := by
  match state, hstate with
  | [a, b, c, d, e, f, g, h], _ => rw [compress, List.length_zipWith, length_rounds]; rfl

theorem length_words (message : Bytes) : (words message).length = 8 := by
  rw [words]
  generalize blocks ((pad message).length / 64) (pad message) = bs
  induction bs using List.reverseRecOn with
  | nil => rfl
  | append_singleton bs block ih => rw [List.foldl_append]; exact length_compress ih block

@[simp] theorem length_sha256 (message : Bytes) : (sha256 message).length = 32 := by
  rw [sha256, List.length_flatMap]
  simp only [length_bigEndian, List.map_const', List.sum_replicate, length_words]
  rfl

example : sha256 [0x61, 0x62, 0x63] =
    [0xba, 0x78, 0x16, 0xbf, 0x8f, 0x01, 0xcf, 0xea, 0x41, 0x41, 0x40, 0xde, 0x5d, 0xae, 0x22, 0x23,
      0xb0, 0x03, 0x61, 0xa3, 0x96, 0x17, 0x7a, 0x9c, 0xb4, 0x10, 0xff, 0x61, 0xf2, 0x00, 0x15, 0xad] := by
  decide +kernel

end Sha256
