import XChainExplorer.Lib.Hex
import Mathlib.Computability.RegularExpressions
import Mathlib.Data.Bool.AllAny

/-! # IPv6 addresses as text

    The texts of IPv6 addresses that `net.isIP` of Node accepts, as a regular expression and as a
    grammar that says which address each denotes. Eight groups of up to four digits stand between
    colons; one run of zero groups may be left out for a double colon, and the last two groups may be
    written as the IPv4 address they hold. A zone may follow. -/

namespace NetIp

/-! ### Regular expressions -/

section regex

/-- A regular expression over characters. -/
abbrev Regex := RegularExpression Char

/-- One of several. -/
def anyOf (rs : List Regex) : Regex := rs.foldr (· + ·) 0

/-- The letters of a word. -/
def word (w : List Char) : Regex := w.foldr (fun c r => .char c * r) 1

/-- One of several characters. -/
def oneOf (cs : List Char) : Regex := anyOf (cs.map .char)

/-- An expression at most so many times. -/
def upTo (r : Regex) : ℕ → Regex
  | 0 => 1
  | n + 1 => 1 + r * upTo r n

/-- `r{m,n}`. -/
def between (r : Regex) (m n : ℕ) : Regex := r ^ m * upTo r (n - m)

variable {r : Regex} {x : List Char}

theorem mem_anyOf {rs : List Regex} : x ∈ (anyOf rs).matches' ↔ ∃ r ∈ rs, x ∈ r.matches' := by
  induction rs with
  | nil =>
    rw [anyOf, List.foldr_nil, RegularExpression.matches'_zero]
    simp
  | cons r rs ih =>
    rw [anyOf, List.foldr_cons, RegularExpression.matches'_add, Language.mem_add, ← anyOf, ih]
    simp

theorem mem_word {w : List Char} : x ∈ (word w).matches' ↔ x = w := by
  induction w generalizing x with
  | nil => rw [word, List.foldr_nil, RegularExpression.matches'_epsilon, Language.mem_one]
  | cons c w ih =>
    rw [word, List.foldr_cons, RegularExpression.matches'_mul, Language.mem_mul]
    constructor
    · rintro ⟨a, ha, b, hb, rfl⟩
      rw [ih.mp hb, show a = [c] from ha]
      rfl
    · rintro rfl
      exact ⟨[c], rfl, w, ih.mpr rfl, rfl⟩

theorem mem_oneOf {cs : List Char} : x ∈ (oneOf cs).matches' ↔ ∃ c ∈ cs, x = [c] := by
  rw [oneOf, mem_anyOf]
  simp only [List.mem_map, exists_exists_and_eq_and]
  exact Iff.rfl

theorem mem_upTo {n : ℕ} :
    x ∈ (upTo r n).matches' ↔ ∃ S : List (List Char), x = S.flatten ∧ S.length ≤ n ∧ ∀ y ∈ S, y ∈ r.matches' := by
  induction n generalizing x with
  | zero =>
    rw [upTo, RegularExpression.matches'_epsilon, Language.mem_one]
    constructor
    · rintro rfl
      exact ⟨[], rfl, le_rfl, by simp⟩
    · rintro ⟨S, rfl, hS, -⟩
      rw [List.length_eq_zero_iff.mp (Nat.le_zero.mp hS)]
      rfl
  | succ n ih =>
    rw [upTo, RegularExpression.matches'_add, Language.mem_add, RegularExpression.matches'_epsilon, Language.mem_one,
      RegularExpression.matches'_mul, Language.mem_mul]
    constructor
    · rintro (rfl | ⟨a, ha, b, hb, rfl⟩)
      · exact ⟨[], rfl, Nat.zero_le _, by simp⟩
      · obtain ⟨S, rfl, hlen, hS⟩ := ih.mp hb
        refine ⟨a :: S, by simp, Nat.succ_le_succ hlen, ?_⟩
        simpa using ⟨ha, hS⟩
    · rintro ⟨S, rfl, hlen, hS⟩
      cases S with
      | nil => exact .inl rfl
      | cons a S =>
        obtain ⟨ha, hS⟩ := List.forall_mem_cons.mp hS
        exact .inr ⟨a, ha, S.flatten, ih.mpr ⟨S, rfl, Nat.le_of_succ_le_succ hlen, hS⟩, by simp⟩

theorem mem_pow {n : ℕ} :
    x ∈ (r ^ n).matches' ↔ ∃ S : List (List Char), x = S.flatten ∧ S.length = n ∧ ∀ y ∈ S, y ∈ r.matches' := by
  rw [RegularExpression.matches'_pow, Language.mem_pow]

theorem mem_between {m n : ℕ} (h : m ≤ n) :
    x ∈ (between r m n).matches' ↔
      ∃ S : List (List Char), x = S.flatten ∧ m ≤ S.length ∧ S.length ≤ n ∧ ∀ y ∈ S, y ∈ r.matches' := by
  rw [between, RegularExpression.matches'_mul, Language.mem_mul]
  constructor
  · rintro ⟨a, ha, b, hb, rfl⟩
    obtain ⟨S, rfl, hlen, hS⟩ := mem_pow.mp ha
    obtain ⟨T, rfl, hlenT, hT⟩ := mem_upTo.mp hb
    refine ⟨S ++ T, by simp, by simp; omega, by simp; omega, fun y hy => ?_⟩
    exact (List.mem_append.mp hy).elim (hS y) (hT y)
  · rintro ⟨S, rfl, hm, hn, hS⟩
    refine ⟨(S.take m).flatten, mem_pow.mpr ⟨_, rfl, by simpa using hm, fun y hy => hS y (List.mem_of_mem_take hy)⟩,
      (S.drop m).flatten, mem_upTo.mpr ⟨_, rfl, by simp; omega, fun y hy => hS y (List.mem_of_mem_drop hy)⟩, ?_⟩
    rw [← List.flatten_append, List.take_append_drop]

end regex

/-! ### What Node accepts -/

/-- `[0-9a-fA-F]`. -/
def hexDigits : List Char := Hex.digits ++ ['A', 'B', 'C', 'D', 'E', 'F']

/-- A decimal from 0 to 255 without leading zeros. -/
def v4Seg : Regex := anyOf ((List.range 256).map fun o => word (Nat.toDigits 10 o))

/-- Four numbers with dots between. -/
def v4Str : Regex := (v4Seg * .char '.') ^ 3 * v4Seg

/-- One to four hexadecimal digits. -/
def v6Seg : Regex := between (oneOf hexDigits) 1 4

/-- After some groups with a colon behind each: the rest of an address that leaves groups out. -/
def v6Rest (k : ℕ) : Regex :=
  upTo (.char ':' * v6Seg) (5 - k) * (.char ':' * v4Str) + (between (.char ':' * v6Seg) 1 (7 - k) + .char ':')

/-- The forms of an address, by the number of groups before the gap. -/
def IPv6Reg : Regex :=
  anyOf ([(v6Seg * .char ':') ^ 7 * (v6Seg + .char ':'),
      (v6Seg * .char ':') ^ 6 * (v4Str + (.char ':' * v6Seg + .char ':'))] ++
    [5, 4, 3, 2, 1].map (fun k => (v6Seg * .char ':') ^ k * v6Rest k) ++ [.char ':' * v6Rest 0])

/-- `[0-9a-zA-Z-.:]`. -/
def zoneChars : List Char :=
  hexDigits ++ "ghijklmnopqrstuvwxyzGHIJKLMNOPQRSTUVWXYZ-.:".toList

/-- A zone, if there is one. -/
def zoneReg : Regex := 1 + .char '%' * (oneOf zoneChars * (oneOf zoneChars).star)

/-- `net.isIP(text) === 6`. -/
def isIPv6 (text : List Char) : Bool := (IPv6Reg * zoneReg).rmatch text

/-! ### What a text denotes -/

/-- One to four digits of either case. -/
structure HexGroup where
  digits : List Char
  nonempty : digits ≠ []
  short : digits.length ≤ 4
  hex : ∀ c ∈ digits, c ∈ hexDigits

/-- The number that hexadecimal digits write. -/
def hexValue (digits : List Char) : ℕ := digits.foldl (fun n c => 16 * n + (Hex.digitValue c).getD 0) 0

/-- The number of a group. -/
def HexGroup.value (g : HexGroup) : ℕ := hexValue g.digits

/-- Four bytes written with dots. -/
structure Quad where
  a : Fin 256
  b : Fin 256
  c : Fin 256
  d : Fin 256

/-- A byte in decimal. -/
def decimal (o : Fin 256) : List Char := Nat.toDigits 10 o

/-- The text of four bytes. -/
def Quad.text (q : Quad) : List Char :=
  decimal q.a ++ '.' :: (decimal q.b ++ '.' :: (decimal q.c ++ '.' :: decimal q.d))

/-- The two groups an IPv4 address stands for. -/
def Quad.groups (q : Quad) : List ℕ := [256 * q.a + q.b, 256 * q.c + q.d]

/-- Groups with colons between. -/
def colons (gs : List HexGroup) : List Char := [':'].intercalate (gs.map HexGroup.digits)

/-- Groups with a colon behind each. -/
def headed (gs : List HexGroup) : List Char := gs.flatMap fun g => g.digits ++ [':']

/-- Groups with a colon before each. -/
def tailed (gs : List HexGroup) : List Char := gs.flatMap fun g => ':' :: g.digits

/-- The forms of an address: in full or with zero groups left out, the last two groups as such or as
    an IPv4 address. -/
inductive Form where
  | full (groups : List HexGroup) (h : groups.length = 8)
  | fullQuad (groups : List HexGroup) (quad : Quad) (h : groups.length = 6)
  | gap (head tail : List HexGroup) (h : head.length + tail.length ≤ 7)
  | gapQuad (head tail : List HexGroup) (quad : Quad) (h : head.length + tail.length ≤ 5)

/-- The text of a form. -/
def Form.text : Form → List Char
  | full groups _ => colons groups
  | fullQuad groups quad _ => headed groups ++ quad.text
  | gap head tail _ => colons head ++ ':' :: ':' :: colons tail
  | gapQuad head tail quad _ => colons head ++ ':' :: (tailed tail ++ ':' :: quad.text)

/-- The eight groups. -/
def Form.address : Form → List ℕ
  | full groups _ => groups.map HexGroup.value
  | fullQuad groups quad _ => groups.map HexGroup.value ++ quad.groups
  | gap head tail _ =>
    head.map HexGroup.value ++ List.replicate (8 - head.length - tail.length) 0 ++ tail.map HexGroup.value
  | gapQuad head tail quad _ =>
    head.map HexGroup.value ++ List.replicate (6 - head.length - tail.length) 0 ++
      (tail.map HexGroup.value ++ quad.groups)

theorem hexValue_append (l m : List Char) : hexValue (l ++ m) = m.foldl (fun n c => 16 * n + (Hex.digitValue c).getD 0) (hexValue l) :=
  List.foldl_append

theorem hexValue_lt {l : List Char} (h : ∀ c ∈ l, c ∈ hexDigits) : hexValue l < 16 ^ l.length := by
  induction l using List.reverseRecOn with
  | nil => simp [hexValue]
  | append_singleton l c ih =>
    have hc : (Hex.digitValue c).getD 0 < 16 := by
      have hall : ∀ c ∈ hexDigits, (Hex.digitValue c).getD 0 < 16 :=
        List.all_iff_forall_prop.mp (by decide)
      exact hall c (h c (by simp))
    have hl := ih fun c hc => h c (List.mem_append_left _ hc)
    rw [hexValue_append, List.foldl_cons, List.foldl_nil, List.length_append, List.length_singleton, pow_succ]
    omega

theorem HexGroup.value_lt (g : HexGroup) : g.value < 65536 :=
  (hexValue_lt g.hex).trans_le (Nat.pow_le_pow_right (by decide) g.short)

theorem hexValue_toDigits (n : ℕ) : hexValue (Nat.toDigits 16 n) = n ∧ ∀ c ∈ Nat.toDigits 16 n, c ∈ hexDigits := by
  have hdigit : ∀ d < 16, (Hex.digitValue (Nat.digitChar d)).getD 0 = d ∧ Nat.digitChar d ∈ hexDigits := by decide
  induction n using Nat.strong_induction_on with
  | _ n ih =>
    rcases Nat.lt_or_ge n 16 with hlt | hge
    · obtain ⟨hvalue, hmem⟩ := hdigit n hlt
      rw [Nat.toDigits_of_lt_base hlt]
      exact ⟨by simp [hexValue, hvalue], by simpa using hmem⟩
    · obtain ⟨hvalue, hmem⟩ := hdigit (n % 16) (Nat.mod_lt n (by decide))
      obtain ⟨ihvalue, ihmem⟩ := ih (n / 16) (Nat.div_lt_self (by omega) (by decide))
      rw [Nat.toDigits_of_base_le (by decide) hge, hexValue_append, ihvalue]
      refine ⟨?_, fun c hc => ?_⟩
      · rw [List.foldl_cons, List.foldl_nil, hvalue, Nat.div_add_mod]
      · exact (List.mem_append.mp hc).elim (ihmem c) fun hc => List.mem_singleton.mp hc ▸ hmem

/-- A group as its shortest text. -/
def HexGroup.ofNat (n : ℕ) (h : n < 65536) : HexGroup where
  digits := Nat.toDigits 16 n
  nonempty := Nat.toDigits_ne_nil
  short := (Nat.length_toDigits_le_iff (by decide) (by decide)).mpr h
  hex := (hexValue_toDigits n).2

@[simp] theorem HexGroup.value_ofNat (n : ℕ) (h : n < 65536) : (HexGroup.ofNat n h).value = n := (hexValue_toDigits n).1

theorem Quad.groups_lt (q : Quad) : ∀ n ∈ q.groups, n < 65536 := by
  have hlt := q.a.2
  have hltb := q.b.2
  have hltc := q.c.2
  have hltd := q.d.2
  intro n hn
  rcases List.mem_pair.mp hn with rfl | rfl <;> omega

theorem Form.address_length (f : Form) : f.address.length = 8 := by
  cases f with
  | full groups h => simp [Form.address, h]
  | fullQuad groups q h => simp [Form.address, h, Quad.groups]
  | gap head tail h =>
    simp only [Form.address, List.length_append, List.length_map, List.length_replicate]
    omega
  | gapQuad head tail q h =>
    simp only [Form.address, List.length_append, List.length_map, List.length_replicate, Quad.groups,
      List.length_cons, List.length_nil]
    omega

theorem Form.address_lt (f : Form) : ∀ n ∈ f.address, n < 65536 := by
  have hgroups (gs : List HexGroup) : ∀ n ∈ gs.map HexGroup.value, n < 65536 := by
    intro n hn
    obtain ⟨g, -, rfl⟩ := List.mem_map.mp hn
    exact g.value_lt
  have hzeros (k : ℕ) : ∀ n ∈ List.replicate k 0, n < 65536 := by
    intro n hn
    rw [List.eq_of_mem_replicate hn]
    decide
  cases f with
  | full groups h => exact hgroups groups
  | fullQuad groups q h => exact List.forall_mem_append.mpr ⟨hgroups groups, q.groups_lt⟩
  | gap head tail h =>
    exact List.forall_mem_append.mpr ⟨List.forall_mem_append.mpr ⟨hgroups head, hzeros _⟩, hgroups tail⟩
  | gapQuad head tail q h =>
    exact List.forall_mem_append.mpr ⟨List.forall_mem_append.mpr ⟨hgroups head, hzeros _⟩,
      List.forall_mem_append.mpr ⟨hgroups tail, q.groups_lt⟩⟩

/-! ### The two agree -/

section accepted
variable {x : List Char}

/-- Pieces that are each of one kind. -/
theorem exists_pieces {β : Type*} {L : Language Char} {f : β → List Char} (hL : ∀ y, y ∈ L ↔ ∃ g, y = f g)
    (P : ℕ → Prop) :
    (∃ S : List (List Char), x = S.flatten ∧ P S.length ∧ ∀ y ∈ S, y ∈ L) ↔
      ∃ gs : List β, P gs.length ∧ x = gs.flatMap f := by
  constructor
  · rintro ⟨S, rfl, hP, hS⟩
    have hgs : ∃ gs : List β, S = gs.map f := by
      clear hP
      induction S with
      | nil => exact ⟨[], rfl⟩
      | cons y S ih =>
        obtain ⟨hy, htail⟩ := List.forall_mem_cons.mp hS
        obtain ⟨g, hg⟩ := (hL y).mp hy
        obtain ⟨gs, hgs⟩ := ih htail
        exact ⟨g :: gs, by rw [hg, hgs, List.map_cons]⟩
    obtain ⟨gs, rfl⟩ := hgs
    exact ⟨gs, by simpa using hP, by rw [List.flatMap_def]⟩
  · rintro ⟨gs, hP, rfl⟩
    refine ⟨gs.map f, List.flatMap_def, by simpa using hP, fun y hy => ?_⟩
    obtain ⟨g, -, rfl⟩ := List.mem_map.mp hy
    exact (hL _).mpr ⟨g, rfl⟩

/-- So many characters of a kind. -/
theorem exists_chars {l : List Char} (P : ℕ → Prop) :
    (∃ S : List (List Char), x = S.flatten ∧ P S.length ∧ ∀ y ∈ S, y ∈ (oneOf l).matches') ↔
      P x.length ∧ ∀ c ∈ x, c ∈ l := by
  have hchar (y : List Char) : y ∈ (oneOf l).matches' ↔ ∃ c : {c // c ∈ l}, y = [c.1] := by
    rw [mem_oneOf]
    simp
  rw [exists_pieces hchar P]
  constructor
  · rintro ⟨gs, hP, rfl⟩
    have hmap : (gs.flatMap fun c => [c.1]) = gs.map (·.1) := List.flatMap_pure_eq_map _ _
    rw [hmap, List.length_map]
    refine ⟨hP, fun c hc => ?_⟩
    obtain ⟨c, -, rfl⟩ := List.mem_map.mp hc
    exact c.2
  · rintro ⟨hP, hx⟩
    refine ⟨x.attach.map fun c => ⟨c.1, hx c.1 c.2⟩, by simpa using hP, ?_⟩
    rw [List.flatMap_map]
    simp

theorem mem_v6Seg : x ∈ v6Seg.matches' ↔ ∃ g : HexGroup, x = g.digits := by
  have hchars := exists_chars (x := x) (l := hexDigits) fun n => 1 ≤ n ∧ n ≤ 4
  simp only [and_assoc] at hchars
  rw [v6Seg, mem_between (by decide), hchars]
  constructor
  · rintro ⟨hpos, hshort, hx⟩
    exact ⟨⟨x, List.ne_nil_of_length_pos hpos, hshort, hx⟩, rfl⟩
  · rintro ⟨g, rfl⟩
    exact ⟨List.length_pos_of_ne_nil g.nonempty, g.short, g.hex⟩

theorem mem_v4Seg : x ∈ v4Seg.matches' ↔ ∃ o : Fin 256, x = decimal o := by
  rw [v4Seg, mem_anyOf]
  simp only [List.mem_map, List.mem_range, exists_exists_and_eq_and, mem_word]
  constructor
  · rintro ⟨o, ho, rfl⟩
    exact ⟨⟨o, ho⟩, rfl⟩
  · rintro ⟨o, rfl⟩
    exact ⟨o, o.2, rfl⟩

theorem mem_mul_char {r : Regex} {c : Char} : x ∈ (r * .char c).matches' ↔ ∃ y ∈ r.matches', x = y ++ [c] := by
  rw [RegularExpression.matches'_mul, Language.mem_mul]
  constructor
  · rintro ⟨y, hy, z, rfl, rfl⟩
    exact ⟨y, hy, rfl⟩
  · rintro ⟨y, hy, rfl⟩
    exact ⟨y, hy, [c], rfl, rfl⟩

theorem mem_char_mul {r : Regex} {c : Char} : x ∈ (.char c * r : Regex).matches' ↔ ∃ y ∈ r.matches', x = c :: y := by
  rw [RegularExpression.matches'_mul, Language.mem_mul]
  constructor
  · rintro ⟨z, rfl, y, hy, rfl⟩
    exact ⟨y, hy, rfl⟩
  · rintro ⟨y, hy, rfl⟩
    exact ⟨[c], rfl, y, hy, rfl⟩

theorem mem_v4Str : x ∈ v4Str.matches' ↔ ∃ q : Quad, x = q.text := by
  have hdot (y : List Char) : y ∈ (v4Seg * .char '.' : Regex).matches' ↔ ∃ o : Fin 256, y = decimal o ++ ['.'] := by
    rw [mem_mul_char]
    simp only [mem_v4Seg]
    constructor
    · rintro ⟨y, ⟨o, rfl⟩, rfl⟩
      exact ⟨o, rfl⟩
    · rintro ⟨o, rfl⟩
      exact ⟨_, ⟨o, rfl⟩, rfl⟩
  rw [v4Str, RegularExpression.matches'_mul, Language.mem_mul]
  constructor
  · rintro ⟨y, hy, z, hz, rfl⟩
    obtain ⟨os, hlen, rfl⟩ := (exists_pieces hdot (· = 3)).mp (mem_pow.mp hy)
    obtain ⟨d, rfl⟩ := mem_v4Seg.mp hz
    obtain ⟨a, b, c, rfl⟩ := List.length_eq_three.mp hlen
    exact ⟨⟨a, b, c, d⟩, by simp [Quad.text]⟩
  · rintro ⟨q, rfl⟩
    refine ⟨_, mem_pow.mpr ((exists_pieces hdot (· = 3)).mpr ⟨[q.a, q.b, q.c], rfl, rfl⟩), decimal q.d,
      mem_v4Seg.mpr ⟨_, rfl⟩, ?_⟩
    simp [Quad.text]

theorem mem_headed {k : ℕ} :
    x ∈ ((v6Seg * .char ':' : Regex) ^ k).matches' ↔ ∃ gs : List HexGroup, gs.length = k ∧ x = headed gs := by
  rw [mem_pow]
  refine exists_pieces (fun y => ?_) (· = k)
  rw [mem_mul_char]
  simp only [mem_v6Seg]
  constructor
  · rintro ⟨y, ⟨g, rfl⟩, rfl⟩
    exact ⟨g, rfl⟩
  · rintro ⟨g, rfl⟩
    exact ⟨_, ⟨g, rfl⟩, rfl⟩

theorem mem_colonSeg : x ∈ (.char ':' * v6Seg : Regex).matches' ↔ ∃ g : HexGroup, x = ':' :: g.digits := by
  rw [mem_char_mul]
  simp only [mem_v6Seg]
  constructor
  · rintro ⟨y, ⟨g, rfl⟩, rfl⟩
    exact ⟨g, rfl⟩
  · rintro ⟨g, rfl⟩
    exact ⟨_, ⟨g, rfl⟩, rfl⟩

/-- What may follow the groups before the gap. -/
theorem mem_v6Rest {k : ℕ} (hk : k ≤ 6) :
    x ∈ (v6Rest k).matches' ↔
      (∃ (tail : List HexGroup) (q : Quad), tail.length ≤ 5 - k ∧ x = tailed tail ++ ':' :: q.text) ∨
      (∃ tail : List HexGroup, 1 ≤ tail.length ∧ tail.length ≤ 7 - k ∧ x = tailed tail) ∨ x = [':'] := by
  rw [v6Rest, RegularExpression.matches'_add, Language.mem_add, RegularExpression.matches'_add, Language.mem_add]
  refine or_congr ?_ (or_congr ?_ Iff.rfl)
  · rw [RegularExpression.matches'_mul, Language.mem_mul]
    constructor
    · rintro ⟨y, hy, z, hz, rfl⟩
      obtain ⟨tail, hlen, rfl⟩ := (exists_pieces (fun y => mem_colonSeg) (· ≤ 5 - k)).mp (mem_upTo.mp hy)
      obtain ⟨z', hz', rfl⟩ := mem_char_mul.mp hz
      obtain ⟨q, rfl⟩ := mem_v4Str.mp hz'
      exact ⟨tail, q, hlen, rfl⟩
    · rintro ⟨tail, q, hlen, rfl⟩
      exact ⟨_, mem_upTo.mpr ((exists_pieces (fun y => mem_colonSeg) (· ≤ 5 - k)).mpr ⟨tail, hlen, rfl⟩), _,
        mem_char_mul.mpr ⟨_, mem_v4Str.mpr ⟨q, rfl⟩, rfl⟩, rfl⟩
  · rw [mem_between (by omega)]
    have hpieces := exists_pieces (x := x) (fun y => mem_colonSeg) fun n => 1 ≤ n ∧ n ≤ 7 - k
    simp only [and_assoc] at hpieces
    exact hpieces

theorem colons_cons {g : HexGroup} {gs : List HexGroup} (h : gs ≠ []) :
    colons (g :: gs) = g.digits ++ ':' :: colons gs := by
  obtain ⟨g', gs, rfl⟩ := List.exists_cons_of_ne_nil h
  simp [colons, List.intercalate]

@[simp] theorem colons_nil : colons [] = [] := rfl

@[simp] theorem colons_singleton (g : HexGroup) : colons [g] = g.digits := by simp [colons]

theorem tailed_eq {gs : List HexGroup} (h : gs ≠ []) : tailed gs = ':' :: colons gs := by
  induction gs with
  | nil => exact absurd rfl h
  | cons g gs ih =>
    rcases eq_or_ne gs [] with rfl | hne
    · simp [tailed]
    · rw [colons_cons hne, tailed, List.flatMap_cons, ← tailed, ih hne, List.cons_append]

theorem colons_concat (gs : List HexGroup) (g : HexGroup) : colons (gs ++ [g]) = headed gs ++ g.digits := by
  induction gs with
  | nil => simp [headed]
  | cons g' gs ih =>
    rw [List.cons_append, colons_cons (List.append_ne_nil_of_right_ne_nil gs (List.cons_ne_nil g [])), ih]
    simp [headed]

theorem headed_eq {gs : List HexGroup} (h : gs ≠ []) : headed gs = colons gs ++ [':'] := by
  induction gs with
  | nil => exact absurd rfl h
  | cons g gs ih =>
    rw [headed, List.flatMap_cons, ← headed]
    rcases eq_or_ne gs [] with rfl | hne
    · simp [headed]
    · rw [ih hne, colons_cons hne]
      simp

theorem headed_append {gs gs' : List HexGroup} (h : gs' ≠ []) : headed gs ++ colons gs' = colons (gs ++ gs') := by
  induction gs with
  | nil => rfl
  | cons g gs ih =>
    rw [List.cons_append, colons_cons (List.append_ne_nil_of_right_ne_nil gs h), ← ih]
    simp [headed]

theorem tailed_append {gs gs' : List HexGroup} (h : gs' ≠ []) :
    tailed gs ++ ':' :: colons gs' = ':' :: colons (gs ++ gs') := by
  rw [← tailed_eq h, ← tailed_eq (List.append_ne_nil_of_right_ne_nil gs h), tailed, tailed, tailed,
    List.flatMap_append]

/-- What follows some groups makes a form that leaves groups out. -/
theorem exists_gap {head : List HexGroup} {start : List Char} {k : ℕ} (hlen : head.length = k) (hk : k ≤ 5)
    (hstart : start = colons head ++ [':']) (hx : x ∈ (v6Rest k).matches') :
    ∃ f : Form, start ++ x = f.text := by
  rw [hstart]
  rcases (mem_v6Rest (by omega)).mp hx with ⟨tail, q, hn, rfl⟩ | ⟨tail, hpos, hn, rfl⟩ | rfl
  · exact ⟨.gapQuad head tail q (by omega), by simp [Form.text]⟩
  · exact ⟨.gap head tail (by omega), by simp [Form.text, tailed_eq (List.ne_nil_of_length_pos hpos)]⟩
  · exact ⟨.gap head [] (by simp; omega), by simp [Form.text]⟩

/-- The alternatives of the expression by how many groups come first. -/
theorem mem_IPv6Reg_iff : x ∈ IPv6Reg.matches' ↔
    (∃ head : List HexGroup, head.length = 7 ∧ ∃ z ∈ (v6Seg + .char ':' : Regex).matches', headed head ++ z = x) ∨
    (∃ head : List HexGroup, head.length = 6 ∧
      ∃ z ∈ (v4Str + (.char ':' * v6Seg + .char ':') : Regex).matches', headed head ++ z = x) ∨
    (∃ head : List HexGroup, 1 ≤ head.length ∧ head.length ≤ 5 ∧
      ∃ z ∈ (v6Rest head.length).matches', headed head ++ z = x) ∨
    ∃ z ∈ (v6Rest 0).matches', x = ':' :: z := by
  have hheads (r : Regex) (k : ℕ) : x ∈ ((v6Seg * .char ':' : Regex) ^ k * r).matches' ↔
      ∃ head : List HexGroup, head.length = k ∧ ∃ z ∈ r.matches', headed head ++ z = x := by
    rw [RegularExpression.matches'_mul, Language.mem_mul]
    constructor
    · rintro ⟨y, hy, z, hz, rfl⟩
      obtain ⟨head, hlen, rfl⟩ := mem_headed.mp hy
      exact ⟨head, hlen, z, hz, rfl⟩
    · rintro ⟨head, hlen, z, hz, rfl⟩
      exact ⟨_, mem_headed.mpr ⟨head, hlen, rfl⟩, z, hz, rfl⟩
  rw [IPv6Reg, mem_anyOf]
  simp only [List.cons_append, List.nil_append, List.mem_cons, List.not_mem_nil, or_false, or_and_right, exists_or,
    exists_eq_left, hheads, mem_char_mul, List.map_cons, List.map_nil]
  refine or_congr Iff.rfl (or_congr Iff.rfl ?_)
  constructor
  · rintro (⟨head, hlen, h⟩ | ⟨head, hlen, h⟩ | ⟨head, hlen, h⟩ | ⟨head, hlen, h⟩ | ⟨head, hlen, h⟩ | h)
    · exact .inl ⟨head, by omega, by omega, hlen ▸ h⟩
    · exact .inl ⟨head, by omega, by omega, hlen ▸ h⟩
    · exact .inl ⟨head, by omega, by omega, hlen ▸ h⟩
    · exact .inl ⟨head, by omega, by omega, hlen ▸ h⟩
    · exact .inl ⟨head, by omega, by omega, hlen ▸ h⟩
    · exact .inr h
  · rintro (⟨head, hpos, hle, h⟩ | h)
    · have hcases : head.length = 5 ∨ head.length = 4 ∨ head.length = 3 ∨ head.length = 2 ∨ head.length = 1 := by
        omega
      rcases hcases with hlen | hlen | hlen | hlen | hlen
      · exact .inl ⟨head, hlen, hlen ▸ h⟩
      · exact .inr (.inl ⟨head, hlen, hlen ▸ h⟩)
      · exact .inr (.inr (.inl ⟨head, hlen, hlen ▸ h⟩))
      · exact .inr (.inr (.inr (.inl ⟨head, hlen, hlen ▸ h⟩)))
      · exact .inr (.inr (.inr (.inr (.inl ⟨head, hlen, hlen ▸ h⟩))))
    · exact .inr (.inr (.inr (.inr (.inr h))))

/-- Up to five groups, a colon, and what may follow there. -/
theorem mem_of_rest {head : List HexGroup} (hlen : head.length ≤ 5) (hx : x ∈ (v6Rest head.length).matches') :
    colons head ++ ':' :: x ∈ IPv6Reg.matches' := by
  rw [mem_IPv6Reg_iff]
  rcases eq_or_ne head [] with rfl | hne
  · exact .inr (.inr (.inr ⟨x, hx, rfl⟩))
  · refine .inr (.inr (.inl ⟨head, List.length_pos_of_ne_nil hne, hlen, x, hx, ?_⟩))
    rw [headed_eq hne]
    simp

theorem mem_gap {head tail : List HexGroup} (h : head.length + tail.length ≤ 7) :
    colons head ++ ':' :: ':' :: colons tail ∈ IPv6Reg.matches' := by
  have hsplit : head.length ≤ 5 ∨ head.length = 6 ∨ head.length = 7 := by omega
  rcases eq_or_ne tail [] with rfl | hne
  · rcases hsplit with hlen | hlen | hlen
    · exact mem_of_rest hlen ((mem_v6Rest (by omega)).mpr (.inr (.inr rfl)))
    · have hhead : head ≠ [] := List.ne_nil_of_length_pos (by omega)
      exact mem_IPv6Reg_iff.mpr (.inr (.inl ⟨head, hlen, [':'], .inr (.inr rfl), by simp [headed_eq hhead]⟩))
    · have hhead : head ≠ [] := List.ne_nil_of_length_pos (by omega)
      exact mem_IPv6Reg_iff.mpr (.inl ⟨head, hlen, [':'], .inr rfl, by simp [headed_eq hhead]⟩)
  · have hpos := List.length_pos_of_ne_nil hne
    rw [← tailed_eq hne]
    rcases hsplit with hlen | hlen | hlen
    · exact mem_of_rest hlen ((mem_v6Rest (by omega)).mpr (.inr (.inl ⟨tail, hpos, by omega, rfl⟩)))
    · have hhead : head ≠ [] := List.ne_nil_of_length_pos (by omega)
      obtain ⟨g, rfl⟩ := List.length_eq_one_iff.mp (show tail.length = 1 by omega)
      refine mem_IPv6Reg_iff.mpr (.inr (.inl ⟨head, hlen, _, .inr (.inl (mem_colonSeg.mpr ⟨g, rfl⟩)), ?_⟩))
      simp [headed_eq hhead, tailed]
    · omega

theorem mem_IPv6Reg : x ∈ IPv6Reg.matches' ↔ ∃ f : Form, x = f.text := by
  constructor
  · intro hx
    rcases mem_IPv6Reg_iff.mp hx with ⟨head, hlen, z, hz, rfl⟩ | ⟨head, hlen, z, hz, rfl⟩ |
      ⟨head, hpos, hle, z, hz, rfl⟩ | ⟨z, hz, rfl⟩
    · have hhead : head ≠ [] := List.ne_nil_of_length_pos (by omega)
      rcases hz with hz | rfl
      · obtain ⟨g, rfl⟩ := mem_v6Seg.mp hz
        exact ⟨.full (head ++ [g]) (by simp [hlen]), (colons_concat head g).symm⟩
      · exact ⟨.gap head [] (by simp [hlen]), by simp [Form.text, headed_eq hhead]⟩
    · have hhead : head ≠ [] := List.ne_nil_of_length_pos (by omega)
      rcases hz with hz | hz | rfl
      · obtain ⟨q, rfl⟩ := mem_v4Str.mp hz
        exact ⟨.fullQuad head q hlen, rfl⟩
      · obtain ⟨g, rfl⟩ := mem_colonSeg.mp hz
        exact ⟨.gap head [g] (by simp [hlen]), by simp [Form.text, headed_eq hhead]⟩
      · exact ⟨.gap head [] (by simp [hlen]), by simp [Form.text, headed_eq hhead]⟩
    · exact exists_gap rfl hle (headed_eq (List.ne_nil_of_length_pos hpos)) hz
    · exact exists_gap List.length_nil (Nat.zero_le 5) rfl hz
  · rintro ⟨f, rfl⟩
    cases f with
    | full groups h =>
      obtain ⟨init, last, rfl⟩ := (List.eq_nil_or_concat groups).resolve_left (List.ne_nil_of_length_pos (by omega))
      refine mem_IPv6Reg_iff.mpr (.inl ⟨init, by simpa using h, _, .inl (mem_v6Seg.mpr ⟨last, rfl⟩), ?_⟩)
      rw [Form.text, List.concat_eq_append, colons_concat]
    | fullQuad groups q h =>
      exact mem_IPv6Reg_iff.mpr (.inr (.inl ⟨groups, h, _, .inl (mem_v4Str.mpr ⟨q, rfl⟩), rfl⟩))
    | gap head tail h => exact mem_gap h
    | gapQuad head tail q h =>
      exact mem_of_rest (by omega) ((mem_v6Rest (by omega)).mpr (.inl ⟨tail, q, by omega, rfl⟩))

/-- The texts Node accepts are those of the forms, with or without a zone. -/
theorem isIPv6_iff : isIPv6 x = true ↔ ∃ (f : Form) (zone : List Char),
    (zone = [] ∨ ∃ id : List Char, zone = '%' :: id ∧ id ≠ [] ∧ ∀ c ∈ id, c ∈ zoneChars) ∧ x = f.text ++ zone := by
  have hzone (y : List Char) : y ∈ zoneReg.matches' ↔
      y = [] ∨ ∃ id : List Char, y = '%' :: id ∧ id ≠ [] ∧ ∀ c ∈ id, c ∈ zoneChars := by
    rw [zoneReg, RegularExpression.matches'_add, Language.mem_add, RegularExpression.matches'_epsilon,
      Language.mem_one, mem_char_mul]
    refine or_congr Iff.rfl ?_
    have hstar (z : List Char) : z ∈ (oneOf zoneChars).star.matches' ↔ ∀ c ∈ z, c ∈ zoneChars := by
      rw [RegularExpression.matches'_star, Language.mem_kstar]
      simpa using exists_chars (x := z) (l := zoneChars) fun _ => True
    rw [RegularExpression.matches'_mul]
    simp only [Language.mem_mul, mem_oneOf, hstar]
    constructor
    · rintro ⟨_, ⟨_, ⟨c, hc, rfl⟩, z, hz, rfl⟩, rfl⟩
      exact ⟨c :: z, rfl, List.cons_ne_nil c z, List.forall_mem_cons.mpr ⟨hc, hz⟩⟩
    · rintro ⟨id, rfl, hne, hid⟩
      obtain ⟨c, z, rfl⟩ := List.exists_cons_of_ne_nil hne
      obtain ⟨hc, hz⟩ := List.forall_mem_cons.mp hid
      exact ⟨_, ⟨[c], ⟨c, hc, rfl⟩, z, hz, rfl⟩, rfl⟩
  rw [isIPv6, RegularExpression.rmatch_iff_matches', RegularExpression.matches'_mul, Language.mem_mul]
  constructor
  · rintro ⟨y, hy, z, hz, rfl⟩
    obtain ⟨f, rfl⟩ := mem_IPv6Reg.mp hy
    exact ⟨f, z, (hzone z).mp hz, rfl⟩
  · rintro ⟨f, zone, hz, rfl⟩
    exact ⟨_, mem_IPv6Reg.mpr ⟨f, rfl⟩, zone, (hzone zone).mpr hz, rfl⟩

end accepted

end NetIp
