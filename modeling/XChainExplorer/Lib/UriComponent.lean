import Mathlib.Data.Fin.Basic
import Mathlib.Data.List.Basic
import Mathlib.Tactic.IntervalCases

/-! # URI components

    JavaScript's strings are lists of 16-bit code units, so a half of a surrogate pair may stand
    alone. `encodeURIComponent` writes every character outside a short alphabet as its UTF-8 octets,
    `%` and two digits each, and throws on such a half; `decodeURIComponent` reads it back. -/

namespace JsText

/-- A UTF-16 code unit. -/
abbrev CodeUnit := Fin 65536

instance neZero_units : NeZero 65536 := ⟨by decide⟩

/-- A string of JavaScript. -/
abbrev Text := List CodeUnit

instance : LawfulBEq Text := inferInstance

/-- A literal. -/
def ofString (s : String) : Text := s.toList.map fun c => Fin.ofNat 65536 c.toNat

/-- The letters, the digits and `- _ . ! ~ * ' ( )`. -/
def isUnreserved (c : CodeUnit) : Bool :=
  decide (48 ≤ c.val ∧ c.val ≤ 57 ∨ 65 ≤ c.val ∧ c.val ≤ 90 ∨ 97 ≤ c.val ∧ c.val ≤ 122 ∨
    c.val ∈ [45, 95, 46, 33, 126, 42, 39, 40, 41])

/-- The first half of a pair. -/
def isHighSurrogate (c : CodeUnit) : Bool := decide (0xD800 ≤ c.val ∧ c.val ≤ 0xDBFF)

/-- The second half. -/
def isLowSurrogate (c : CodeUnit) : Bool := decide (0xDC00 ≤ c.val ∧ c.val ≤ 0xDFFF)

/-- The code point of a surrogate pair. -/
def pairPoint (high low : CodeUnit) : ℕ := 0x10000 + (high.val - 0xD800) * 0x400 + (low.val - 0xDC00)

/-! ### Encoding -/

/-- The UTF-8 octets of a code point. -/
def octets (n : ℕ) : List ℕ :=
  if n < 0x80 then [n]
  else if n < 0x800 then [0xC0 + n / 64, 0x80 + n % 64]
  else if n < 0x10000 then [0xE0 + n / 4096, 0x80 + n / 64 % 64, 0x80 + n % 64]
  else [0xF0 + n / 262144, 0x80 + n / 4096 % 64, 0x80 + n / 64 % 64, 0x80 + n % 64]

/-- The digit of a value. -/
def hexDigit (n : ℕ) : CodeUnit := Fin.ofNat 65536 (if n < 10 then 48 + n else 55 + n)

/-- `%` and the two digits of an octet. -/
def escape (b : ℕ) : Text := [37, hexDigit (b / 16), hexDigit (b % 16)]

/-- A string as a URI component, none where a half of a surrogate pair stands alone. -/
def encodeURIComponent : Text → Option Text
  | [] => some []
  | c :: rest =>
    if isUnreserved c then (encodeURIComponent rest).map (c :: ·)
    else if isLowSurrogate c then none
    else if isHighSurrogate c then
      match rest with
      | [] => none
      | d :: rest =>
        if isLowSurrogate d then
          (encodeURIComponent rest).map ((octets (pairPoint c d)).flatMap escape ++ ·)
        else none
    else (encodeURIComponent rest).map ((octets c.val).flatMap escape ++ ·)

/-! ### Decoding -/

/-- A piece of a component: a code unit that stands for itself, or an escaped octet. -/
inductive Piece where
  | unit (c : CodeUnit)
  | octet (b : ℕ)
  deriving DecidableEq

/-- The value of a digit, in either case. -/
def hexValue (c : CodeUnit) : Option ℕ :=
  if 48 ≤ c.val ∧ c.val ≤ 57 then some (c.val - 48)
  else if 65 ≤ c.val ∧ c.val ≤ 70 then some (c.val - 55)
  else if 97 ≤ c.val ∧ c.val ≤ 102 then some (c.val - 87)
  else none

/-- The escapes read, none where a `%` is not followed by two digits. -/
def pieces : Text → Option (List Piece)
  | [] => some []
  | c :: rest =>
    if c = 37 then
      match rest with
      | h :: l :: rest =>
        match hexValue h, hexValue l with
        | some hi, some lo => (pieces rest).map (.octet (16 * hi + lo) :: ·)
        | _, _ => none
      | _ => none
    else (pieces rest).map (.unit c :: ·)

/-- A byte that continues a character. -/
def isTail (b : ℕ) : Bool := decide (0x80 ≤ b ∧ b < 0xC0)

/-- The code units of a code point. -/
def units (n : ℕ) : Text :=
  if n < 0x10000 then [Fin.ofNat 65536 n]
  else [Fin.ofNat 65536 (0xD800 + (n - 0x10000) / 0x400), Fin.ofNat 65536 (0xDC00 + (n - 0x10000) % 0x400)]

/-- The octets read as UTF-8, none where they are not the shortest form of a code point. -/
def decodePieces : List Piece → Option Text
  | [] => some []
  | .unit c :: rest => (decodePieces rest).map (c :: ·)
  | .octet a :: rest =>
    if a < 0x80 then (decodePieces rest).map (units a ++ ·)
    else if a < 0xC0 then none
    else if a < 0xE0 then
      match rest with
      | .octet b :: rest =>
        let n := (a - 0xC0) * 64 + (b - 0x80)
        if isTail b && decide (0x80 ≤ n) then (decodePieces rest).map (units n ++ ·) else none
      | _ => none
    else if a < 0xF0 then
      match rest with
      | .octet b :: .octet c :: rest =>
        let n := (a - 0xE0) * 4096 + (b - 0x80) * 64 + (c - 0x80)
        if isTail b && isTail c && decide (0x800 ≤ n ∧ ¬(0xD800 ≤ n ∧ n ≤ 0xDFFF)) then
          (decodePieces rest).map (units n ++ ·)
        else none
      | _ => none
    else if a < 0xF8 then
      match rest with
      | .octet b :: .octet c :: .octet d :: rest =>
        let n := (a - 0xF0) * 262144 + (b - 0x80) * 4096 + (c - 0x80) * 64 + (d - 0x80)
        if isTail b && isTail c && isTail d && decide (0x10000 ≤ n ∧ n ≤ 0x10FFFF) then
          (decodePieces rest).map (units n ++ ·)
        else none
      | _ => none
    else none

/-- A URI component as the string it stands for, none where it is malformed. -/
def decodeURIComponent (s : Text) : Option Text := (pieces s).bind decodePieces

/-! ### Reading back -/

theorem hexValue_hexDigit {n : ℕ} (hn : n < 16) : hexValue (hexDigit n) = some n := by
  interval_cases n <;> decide

theorem pieces_escape {b : ℕ} (hb : b < 256) (rest : Text) :
    pieces (escape b ++ rest) = (pieces rest).map (.octet b :: ·) := by
  have hhi := hexValue_hexDigit (show b / 16 < 16 by omega)
  have hlo := hexValue_hexDigit (show b % 16 < 16 by omega)
  have heq : 16 * (b / 16) + b % 16 = b := by omega
  simp [escape, pieces, hhi, hlo, heq]

theorem pieces_escapes {bs : List ℕ} (hbs : ∀ b ∈ bs, b < 256) (rest : Text) :
    pieces (bs.flatMap escape ++ rest) = (pieces rest).map (bs.map .octet ++ ·) := by
  induction bs with
  | nil => simp
  | cons b bs ih =>
    obtain ⟨hb, hbs⟩ := List.forall_mem_cons.mp hbs
    rw [List.flatMap_cons, List.append_assoc, pieces_escape hb, ih hbs, Option.map_map]
    rfl

theorem octets_lt {n : ℕ} (hn : n ≤ 0x10FFFF) : ∀ b ∈ octets n, b < 256 := by
  unfold octets
  split_ifs <;> simp <;> omega

/-- A code point that is no half of a surrogate pair is read back from its octets. -/
theorem decodePieces_octets {n : ℕ} (hn : n ≤ 0x10FFFF) (hs : ¬(0xD800 ≤ n ∧ n ≤ 0xDFFF))
    (rest : List Piece) :
    decodePieces ((octets n).map .octet ++ rest) = (decodePieces rest).map (units n ++ ·) := by
  unfold octets
  split_ifs with h1 h2 h3
  · conv_lhs => unfold decodePieces
    simp only [List.map_cons, List.map_nil, List.cons_append, List.nil_append]
    rw [if_pos h1]
  · have heq : (0xC0 + n / 64 - 0xC0) * 64 + (0x80 + n % 64 - 0x80) = n := by omega
    have htail : isTail (0x80 + n % 64) = true := decide_eq_true (by omega)
    conv_lhs => unfold decodePieces
    simp only [List.map_cons, List.map_nil, List.cons_append, List.nil_append]
    rw [if_neg (by omega), if_neg (by omega), if_pos (by omega), heq, htail,
      if_pos (by simp; omega)]
  · have heq : (0xE0 + n / 4096 - 0xE0) * 4096 + (0x80 + n / 64 % 64 - 0x80) * 64 +
        (0x80 + n % 64 - 0x80) = n := by omega
    have htail : isTail (0x80 + n % 64) = true := decide_eq_true (by omega)
    have htail' : isTail (0x80 + n / 64 % 64) = true := decide_eq_true (by omega)
    conv_lhs => unfold decodePieces
    simp only [List.map_cons, List.map_nil, List.cons_append, List.nil_append]
    rw [if_neg (by omega), if_neg (by omega), if_neg (by omega), if_pos (by omega), heq, htail,
      htail', if_pos (by simp; omega)]
  · have heq : (0xF0 + n / 262144 - 0xF0) * 262144 + (0x80 + n / 4096 % 64 - 0x80) * 4096 +
        (0x80 + n / 64 % 64 - 0x80) * 64 + (0x80 + n % 64 - 0x80) = n := by omega
    have htail : isTail (0x80 + n % 64) = true := decide_eq_true (by omega)
    have htail' : isTail (0x80 + n / 64 % 64) = true := decide_eq_true (by omega)
    have htail'' : isTail (0x80 + n / 4096 % 64) = true := decide_eq_true (by omega)
    conv_lhs => unfold decodePieces
    simp only [List.map_cons, List.map_nil, List.cons_append, List.nil_append]
    rw [if_neg (by omega), if_neg (by omega), if_neg (by omega), if_neg (by omega), if_pos (by omega),
      heq, htail, htail', htail'', if_pos (by simp; omega)]

theorem units_val {c : CodeUnit} : units c.val = [c] := by
  rw [units, if_pos c.isLt]
  simp

theorem units_pairPoint {c d : CodeUnit} (hc : isHighSurrogate c = true) (hd : isLowSurrogate d = true) :
    units (pairPoint c d) = [c, d] := by
  have hc := of_decide_eq_true hc
  have hd := of_decide_eq_true hd
  have hhigh : 0xD800 + (pairPoint c d - 0x10000) / 0x400 = c.val := by unfold pairPoint; omega
  have hlow : 0xDC00 + (pairPoint c d - 0x10000) % 0x400 = d.val := by unfold pairPoint; omega
  rw [units, if_neg (by unfold pairPoint; omega), hhigh, hlow]
  simp

/-- A string and its component, one character after the other. -/
inductive Encodes : Text → Text → Prop where
  | nil : Encodes [] []
  | unit {s t : Text} {c : CodeUnit} (hc : isUnreserved c = true) (h : Encodes s t) :
      Encodes (c :: s) (c :: t)
  | point {s t : Text} {n : ℕ} (hn : n ≤ 0x10FFFF) (hsur : ¬(0xD800 ≤ n ∧ n ≤ 0xDFFF)) (h : Encodes s t) :
      Encodes (units n ++ s) ((octets n).flatMap escape ++ t)

theorem encodes_of_encode {s t : Text} (h : encodeURIComponent s = some t) : Encodes s t := by
  induction s using encodeURIComponent.induct generalizing t with
  | case1 =>
    obtain rfl := (Option.some.inj h).symm
    exact .nil
  | case2 c rest hc ih =>
    unfold encodeURIComponent at h
    rw [if_pos hc] at h
    obtain ⟨t', ht', rfl⟩ := Option.map_eq_some_iff.mp h
    exact .unit hc (ih ht')
  | case3 c rest hc hlow =>
    unfold encodeURIComponent at h
    rw [if_neg hc, if_pos hlow] at h
    exact absurd h (by simp)
  | case4 c hc hlow hhigh =>
    unfold encodeURIComponent at h
    rw [if_neg hc, if_neg hlow, if_pos hhigh] at h
    exact absurd h (by simp)
  | case5 c hc hlow hhigh d rest hd ih =>
    unfold encodeURIComponent at h
    rw [if_neg hc, if_neg hlow, if_pos hhigh] at h
    dsimp only at h
    rw [if_pos hd] at h
    obtain ⟨t', ht', rfl⟩ := Option.map_eq_some_iff.mp h
    have hc := of_decide_eq_true hhigh
    have hd' := of_decide_eq_true hd
    have hpoint := Encodes.point (n := pairPoint c d) (by unfold pairPoint; omega)
      (by unfold pairPoint; omega) (ih ht')
    rwa [units_pairPoint hhigh hd] at hpoint
  | case6 c hc hlow hhigh d rest hd =>
    unfold encodeURIComponent at h
    rw [if_neg hc, if_neg hlow, if_pos hhigh] at h
    dsimp only at h
    rw [if_neg hd] at h
    exact absurd h (by simp)
  | case7 c rest hc hlow hhigh ih =>
    unfold encodeURIComponent at h
    rw [if_neg hc, if_neg hlow, if_neg hhigh] at h
    obtain ⟨t', ht', rfl⟩ := Option.map_eq_some_iff.mp h
    have hlow : ¬(0xDC00 ≤ c.val ∧ c.val ≤ 0xDFFF) := by simpa [isLowSurrogate] using hlow
    have hhigh : ¬(0xD800 ≤ c.val ∧ c.val ≤ 0xDBFF) := by simpa [isHighSurrogate] using hhigh
    have hpoint := Encodes.point (n := c.val) (by omega) (by omega) (ih ht')
    rwa [units_val] at hpoint

/-- A component reads back as the string that was encoded. -/
theorem Encodes.decode {s t : Text} (h : Encodes s t) :
    ∃ ps, pieces t = some ps ∧ decodePieces ps = some s := by
  induction h with
  | nil => exact ⟨[], rfl, rfl⟩
  | @unit s t c hc _ ih =>
    obtain ⟨ps, hps, hs⟩ := ih
    have hne : c ≠ 37 := by
      rintro rfl
      exact absurd hc (by decide)
    have hpieces : pieces (c :: t) = (pieces t).map (.unit c :: ·) := by
      conv_lhs => unfold pieces
      rw [if_neg hne]
    have hdecode : decodePieces (.unit c :: ps) = (decodePieces ps).map (c :: ·) := by
      conv_lhs => unfold decodePieces
    exact ⟨.unit c :: ps, by rw [hpieces, hps]; rfl, by rw [hdecode, hs]; rfl⟩
  | @point s t n hn hsur _ ih =>
    obtain ⟨ps, hps, hs⟩ := ih
    refine ⟨(octets n).map .octet ++ ps, ?_, ?_⟩
    · rw [pieces_escapes (octets_lt hn), hps, Option.map_some]
    · rw [decodePieces_octets hn hsur, hs, Option.map_some]

theorem decode_encode {s t : Text} (h : encodeURIComponent s = some t) : decodeURIComponent t = some s := by
  obtain ⟨ps, hps, hs⟩ := (encodes_of_encode h).decode
  rw [decodeURIComponent, hps, Option.bind_some, hs]

/-- Two strings with one component are one string. -/
theorem encode_inj {s s' t : Text} (h : encodeURIComponent s = some t) (h' : encodeURIComponent s' = some t) :
    s = s' :=
  Option.some.inj ((decode_encode h).symm.trans (decode_encode h'))

/-! ### The characters of a component -/

/-- What stands for itself, `%` and digits. -/
def isComponentUnit (c : CodeUnit) : Bool := isUnreserved c || c = 37 || (hexValue c).isSome

theorem isComponentUnit_escape {b : ℕ} (hb : b < 256) : ∀ c ∈ escape b, isComponentUnit c = true := by
  have hdigit : ∀ n < 16, isComponentUnit (hexDigit n) = true := fun n hn => by
    simp [isComponentUnit, hexValue_hexDigit hn]
  intro c hc
  simp only [escape, List.mem_cons, List.not_mem_nil, or_false] at hc
  rcases hc with rfl | rfl | rfl
  · decide
  · exact hdigit _ (by omega)
  · exact hdigit _ (by omega)

theorem Encodes.isComponentUnit {s t : Text} (h : Encodes s t) : ∀ c ∈ t, isComponentUnit c = true := by
  induction h with
  | nil => simp
  | unit hc _ ih => exact List.forall_mem_cons.mpr ⟨by simp [JsText.isComponentUnit, hc], ih⟩
  | point hn _ _ ih =>
    refine List.forall_mem_append.mpr ⟨fun c hc => ?_, ih⟩
    obtain ⟨b, hb, hc⟩ := List.mem_flatMap.mp hc
    exact isComponentUnit_escape (octets_lt hn b hb) c hc

end JsText
