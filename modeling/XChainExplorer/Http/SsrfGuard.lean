import XChainExplorer.Lib.JoinedFields
import XChainExplorer.Lib.NetIp

/-! # The addresses an outbound fetch refuses

    `isPrivateAddress` reads an address from its text. An IPv6 text is expanded to its eight groups,
    so that one address has one verdict; where the groups carry an IPv4 address, that one is put to
    the list of refused ranges. -/

namespace SsrfGuard
open NetIp

/-! ### expandIpv6 -/

/-- Characters before the first of some pieces. -/
def prepend (l : List Char) : List (List Char) → List (List Char)
  | h :: t => (l ++ h) :: t
  | [] => [l]

/-- `text.split('::')`. -/
def splitDouble : List Char → List (List Char)
  | ':' :: ':' :: cs => [] :: splitDouble cs
  | c :: cs => prepend [c] (splitDouble cs)
  | [] => [[]]

/-- `/(?:^|:)(\d{1,3}(?:\.\d{1,3}){3})$/`, as what stands before the quad and its four parts: a quad
    holds no colon, so it is all that follows the last one. -/
def dottedQuad (text : List Char) : Option (List Char × List (List Char)) :=
  let quad := (text.reverse.takeWhile (· ≠ ':')).reverse
  let parts := quad.splitOn '.'
  if parts.length = 4 ∧ ∀ p ∈ parts, p ≠ [] ∧ p.length ≤ 3 ∧ p.all Char.isDigit then
    some (text.take (text.length - quad.length), parts)
  else none

/-- `Number(digits)`. -/
def number (digits : List Char) : ℕ := Nat.ofDigitChars 10 digits 0

/-- The trailing quad as two groups of hexadecimal digits. -/
def rewriteQuad (text : List Char) : Option (List Char) :=
  match dottedQuad text with
  | none => some text
  | some (before, parts) =>
    let o := parts.map number
    if o.any (255 < ·) then none
    else some (before ++ (Nat.toDigits 16 (o.getD 0 0 <<< 8 ||| o.getD 1 0) ++
      ':' :: Nat.toDigits 16 (o.getD 2 0 <<< 8 ||| o.getD 3 0)))

/-- `/^[0-9a-f]{1,4}$/i`, with the value. -/
def piece (p : List Char) : Option ℕ :=
  if p ≠ [] ∧ p.length ≤ 4 ∧ p.all (· ∈ hexDigits) then some (hexValue p) else none

/-- The groups of a part, which may be empty. -/
def pieces (s : List Char) : Option (List ℕ) :=
  if s = [] then some [] else (s.splitOn ':').mapM piece

/-- The eight groups of an address. -/
def expandIpv6 (text : List Char) : Option (List ℕ) :=
  (rewriteQuad text).bind fun rest =>
    match splitDouble rest with
    | [whole] => (pieces whole).filter fun head => head.length = 8
    | [left, right] =>
      (pieces left).bind fun head => (pieces right).bind fun tail =>
        if 8 < head.length + tail.length + 1 then none
        else some (head ++ List.replicate (8 - head.length - tail.length) 0 ++ tail)
    | _ => none

/-! ### isPrivateAddress -/

/-- What `trim` strips. -/
def isSpace (c : Char) : Bool :=
  c ∈ ['\t', '\n', '\x0b', '\x0c', '\r', ' ', '\u00a0', '\u1680', '\u2000', '\u2001', '\u2002', '\u2003',
    '\u2004', '\u2005', '\u2006', '\u2007', '\u2008', '\u2009', '\u200a', '\u2028', '\u2029', '\u202f', '\u205f',
    '\u3000', '\ufeff']

/-- The text without the space around it. -/
def trim (s : List Char) : List Char := ((s.dropWhile isSpace).reverse.dropWhile isSpace).reverse

/-- `replace(/^\[|\]$/g, '')`. -/
def stripBrackets (s : List Char) : List Char :=
  let s := if s.head? = some '[' then s.tail else s
  if s.getLast? = some ']' then s.dropLast else s

/-- `replace(/%.*$/, '')`: the dot matches no line terminator. -/
def stripZone : List Char → List Char
  | [] => []
  | c :: cs =>
    if c = '%' ∧ cs.all (· ∉ ['\n', '\r', '\u2028', '\u2029']) then [] else c :: stripZone cs

/-- `replace(/^::ffff:/i, '')`. -/
def stripMapped (s : List Char) : List Char :=
  if (s.take 7).map Char.toLower = "::ffff:".toList then s.drop 7 else s

/-- The text begins with these octets, a dot behind each. -/
def octetsPrefix (octets : List ℕ) (s : List Char) : Bool :=
  (octets.flatMap fun o => Nat.toDigits 10 o ++ ['.']).isPrefixOf s

/-- The IPv4 ranges: `6[4-9]|[7-9][0-9]|1[01][0-9]|12[0-7]` are the decimals from 64 to 127, and
    `1[6-9]|2[0-9]|3[01]` those from 16 to 31. -/
def v4 (s : List Char) : Bool :=
  octetsPrefix [0] s || octetsPrefix [10] s ||
    (List.range' 64 64).any (fun o => octetsPrefix [100, o] s) ||
    octetsPrefix [127] s || octetsPrefix [169, 254] s ||
    (List.range' 16 16).any (fun o => octetsPrefix [172, o] s) || octetsPrefix [192, 168] s

/-- `/^f[cd][0-9a-f]{2}:/i` and `/^fe[89ab][0-9a-f]:/i`. -/
def v6Head : List Char → Bool
  | a :: b :: c :: d :: ':' :: _ =>
    (a ∈ ['f', 'F'] && b ∈ ['c', 'd', 'C', 'D'] && c ∈ hexDigits && d ∈ hexDigits) ||
      (a ∈ ['f', 'F'] && b ∈ ['e', 'E'] && c ∈ ['8', '9', 'a', 'b', 'A', 'B'] && d ∈ hexDigits)
  | _ => false

/-- The text names a private range of IPv6. -/
def v6 (s : List Char) : Bool := s = "::".toList || s = "::1".toList || v6Head s

/-- The IPv4 address in two groups, as text. -/
def v4of (hi lo : ℕ) : List Char :=
  ['.'].intercalate ([hi >>> 8, hi &&& 0xff, lo >>> 8, lo &&& 0xff].map (Nat.toDigits 10))

section destination
variable (g : List ℕ)

/-- The mapped, translated and compatible prefixes. -/
def mapped : Bool :=
  (g.getD 0 0 ||| g.getD 1 0 ||| g.getD 2 0 ||| g.getD 3 0) = 0 &&
    ((g.getD 4 0 = 0 && (g.getD 5 0 = 0xffff || g.getD 5 0 = 0)) || (g.getD 4 0 = 0xffff && g.getD 5 0 = 0))

/-- The prefix `64:ff9b::/16`. -/
def nat64 : Bool := g.getD 0 0 = 0x64 && g.getD 1 0 = 0xff9b

/-- A 6to4 relay forwards to the IPv4 address behind its prefix. -/
def relayed (addr : List Char) : List Char :=
  if g.getD 0 0 = 0x2002 then v4of (g.getD 1 0) (g.getD 2 0) else addr

/-- The text the lists are asked about, or none where the address is refused at once. -/
def destination (addr : List Char) : Option (List Char) :=
  let addr := if mapped g then v4of (g.getD 6 0) (g.getD 7 0) else addr
  if nat64 g && (g.getD 2 0 ||| g.getD 3 0 ||| g.getD 4 0 ||| g.getD 5 0) = 0 then
    some (relayed g (v4of (g.getD 6 0) (g.getD 7 0)))
  else if nat64 g then none
  else some (relayed g addr)

/-- The verdict on an expanded address. -/
def refuses (addr : List Char) : Bool :=
  if g.getD 0 0 &&& 0xfe00 = 0xfc00 then true
  else if g.getD 0 0 &&& 0xffc0 = 0xfe80 then true
  else match destination g addr with
    | none => true
    | some addr => v4 addr || v6 addr

end destination

/-- The guard's verdict on an address. -/
def isPrivateAddress (ip : List Char) : Bool :=
  let addr := stripZone (stripBrackets (trim ip))
  if isIPv6 addr then
    match expandIpv6 addr with
    | none => true
    | some g => refuses g addr
  else
    let addr := stripMapped addr
    v4 addr || v6 addr

/-! ### Every form expands to its groups -/

theorem splitDouble_ne_nil (l : List Char) : splitDouble l ≠ [] := by
  fun_cases splitDouble l with
  | case1 cs => exact List.cons_ne_nil _ _
  | case2 c cs h => cases splitDouble cs <;> exact List.cons_ne_nil _ _
  | case3 => exact List.cons_ne_nil _ _

theorem prepend_append {l m : List Char} {L : List (List Char)} (hL : L ≠ []) :
    prepend (l ++ m) L = prepend l (prepend m L) := by
  obtain ⟨h, t, rfl⟩ := List.exists_cons_of_ne_nil hL
  simp [prepend]

theorem splitDouble_cons {c : Char} {cs : List Char} (h : c ≠ ':' ∨ cs.head? ≠ some ':') :
    splitDouble (c :: cs) = prepend [c] (splitDouble cs) := by
  rw [splitDouble]
  intro cs' hc hcs
  simp [hc, hcs] at h

/-- Characters other than colons stay in their piece. -/
theorem splitDouble_append {l : List Char} (hl : ':' ∉ l) (rest : List Char) :
    splitDouble (l ++ rest) = prepend l (splitDouble rest) := by
  induction l with
  | nil =>
    obtain ⟨h, t, heq⟩ := List.exists_cons_of_ne_nil (splitDouble_ne_nil rest)
    rw [List.nil_append, heq]
    rfl
  | cons c l ih =>
    obtain ⟨hc, hl⟩ := not_or.mp (mt List.mem_cons.mpr hl)
    rw [List.cons_append, splitDouble_cons (.inl (Ne.symm hc)), ih hl, ← prepend_append (splitDouble_ne_nil rest)]
    rfl

theorem colon_notMem (g : HexGroup) : ':' ∉ g.digits := fun h => absurd (g.hex _ h) (by decide)

theorem exists_colons_cons {gs : List HexGroup} (hne : gs ≠ []) : ∃ c cs, colons gs = c :: cs ∧ c ≠ ':' := by
  obtain ⟨g, gs, rfl⟩ := List.exists_cons_of_ne_nil hne
  obtain ⟨c, cs, hdigits⟩ := List.exists_cons_of_ne_nil g.nonempty
  have hc : c ≠ ':' := fun h => colon_notMem g (by simp [hdigits, h])
  rcases eq_or_ne gs [] with rfl | hne
  · exact ⟨c, cs, by rw [colons_singleton, hdigits], hc⟩
  · exact ⟨c, _, by rw [colons_cons hne, hdigits, List.cons_append], hc⟩

/-- Groups between single colons are one piece. -/
theorem splitDouble_colons (gs : List HexGroup) (rest : List Char) :
    splitDouble (colons gs ++ rest) = prepend (colons gs) (splitDouble rest) := by
  induction gs with
  | nil => exact splitDouble_append List.not_mem_nil rest
  | cons g gs ih =>
    rcases eq_or_ne gs [] with rfl | hne
    · rw [colons_singleton]
      exact splitDouble_append (colon_notMem g) rest
    · have hhead : (colons gs ++ rest).head? ≠ some ':' := by
        obtain ⟨c, cs, hcons, hc⟩ := exists_colons_cons hne
        simpa [hcons] using hc
      rw [colons_cons hne, List.append_assoc, splitDouble_append (colon_notMem g), List.cons_append,
        splitDouble_cons (.inr hhead), ih, ← prepend_append (splitDouble_ne_nil rest),
        ← prepend_append (splitDouble_ne_nil rest)]
      simp

theorem piece_digits (g : HexGroup) : piece g.digits = some g.value := by
  rw [piece, if_pos ⟨g.nonempty, g.short, List.all_iff_forall_prop.mpr g.hex⟩]
  rfl

theorem pieces_colons (gs : List HexGroup) : pieces (colons gs) = some (gs.map HexGroup.value) := by
  rcases eq_or_ne gs [] with rfl | hne
  · rfl
  · obtain ⟨c, cs, hcons, -⟩ := exists_colons_cons hne
    have hsplit : (colons gs).splitOn ':' = gs.map HexGroup.digits := by
      refine List.splitOn_intercalate ':' (fun l hl => ?_) (mt List.map_eq_nil_iff.mp hne)
      obtain ⟨g, -, rfl⟩ := List.mem_map.mp hl
      exact colon_notMem g
    rw [pieces, if_neg (by rw [hcons]; exact List.cons_ne_nil c cs), hsplit]
    clear hne hcons hsplit
    induction gs with
    | nil => rfl
    | cons g gs ih => rw [List.map_cons, List.mapM_cons, piece_digits, ih]; rfl

theorem splitOn_of_notMem {c : Char} {l : List Char} (h : c ∉ l) : l.splitOn c = [l] := by
  have hself : ([c].intercalate [l]).splitOn c = [l] :=
    List.splitOn_intercalate c (by simpa using h) (List.cons_ne_nil l [])
  rwa [List.intercalate_singleton] at hself

/-- A text without dots has no quad to rewrite. -/
theorem rewriteQuad_of_notMem {text : List Char} (h : '.' ∉ text) : rewriteQuad text = some text := by
  have hquad : '.' ∉ (text.reverse.takeWhile (· ≠ ':')).reverse := by
    intro hmem
    exact h (List.mem_reverse.mp ((List.takeWhile_sublist _).mem (List.mem_reverse.mp hmem)))
  rw [rewriteQuad, dottedQuad]
  simp only [splitOn_of_notMem hquad]
  simp

theorem notMem_decimal {o : Fin 256} {c : Char} (hc : c.isDigit = false) : c ∉ decimal o := by
  intro h
  rw [Nat.isDigit_of_mem_toDigits (by decide) le_rfl h] at hc
  cases hc

theorem Quad.splitOn_text (q : Quad) : q.text.splitOn '.' = [decimal q.a, decimal q.b, decimal q.c, decimal q.d] := by
  have htext : q.text = ['.'].intercalate [decimal q.a, decimal q.b, decimal q.c, decimal q.d] := by
    simp [Quad.text, List.intercalate]
  rw [htext]
  refine List.splitOn_intercalate '.' (fun l hl => ?_) (List.cons_ne_nil _ _)
  simp only [List.mem_cons, List.not_mem_nil, or_false] at hl
  rcases hl with rfl | rfl | rfl | rfl
  all_goals exact notMem_decimal rfl

theorem dottedQuad_append {before : List Char} (h : before = [] ∨ before.getLast? = some ':') (q : Quad) :
    dottedQuad (before ++ q.text) = some (before, [decimal q.a, decimal q.b, decimal q.c, decimal q.d]) := by
  have hcolon : ∀ c ∈ q.text.reverse, decide (c ≠ ':') = true := by
    intro c hc
    have hne : ':' ∉ q.text := by
      simp only [Quad.text, List.mem_append, List.mem_cons, not_or]
      exact ⟨notMem_decimal rfl, by decide, notMem_decimal rfl, by decide, notMem_decimal rfl, by decide,
        notMem_decimal rfl⟩
    exact decide_eq_true fun heq => hne (heq ▸ List.mem_reverse.mp hc)
  have hbefore : before.reverse.takeWhile (· ≠ ':') = [] := by
    rcases h with rfl | hlast
    · rfl
    · rw [List.getLast?_eq_head?_reverse] at hlast
      obtain ⟨cs, hcs⟩ := List.head?_eq_some_iff.mp hlast
      rw [hcs]
      rfl
  have hquad : ((before ++ q.text).reverse.takeWhile (· ≠ ':')).reverse = q.text := by
    rw [List.reverse_append, List.takeWhile_append_of_pos hcolon, hbefore, List.append_nil, List.reverse_reverse]
  have hdecimal (o : Fin 256) : decimal o ≠ [] ∧ (decimal o).length ≤ 3 ∧ ∀ c ∈ decimal o, c.isDigit = true :=
    ⟨Nat.toDigits_ne_nil, (Nat.length_toDigits_le_iff (by decide) (by decide)).mpr (by omega),
      fun c hc => Nat.isDigit_of_mem_toDigits (by decide) le_rfl hc⟩
  rw [dottedQuad]
  simp only [hquad, Quad.splitOn_text]
  rw [if_pos ⟨rfl, by simpa using ⟨hdecimal q.a, hdecimal q.b, hdecimal q.c, hdecimal q.d⟩⟩]
  simp

/-- The two groups of a quad. -/
def quadGroups (q : Quad) : List HexGroup :=
  [.ofNat (256 * q.a + q.b) (by omega), .ofNat (256 * q.c + q.d) (by omega)]

theorem quadGroups_ne_nil (q : Quad) : quadGroups q ≠ [] := List.cons_ne_nil _ _

theorem quadGroups_value (q : Quad) : (quadGroups q).map HexGroup.value = q.groups := by
  simp [quadGroups, Quad.groups]

/-- A trailing quad is rewritten to its groups. -/
theorem rewriteQuad_append {before : List Char} (h : before = [] ∨ before.getLast? = some ':') (q : Quad) :
    rewriteQuad (before ++ q.text) = some (before ++ colons (quadGroups q)) := by
  have hnumber (o : Fin 256) : number (decimal o) = o := Nat.ofDigitChars_ten_toDigits
  have hor (a b : Fin 256) : (a : ℕ) <<< 8 ||| (b : ℕ) = 256 * a + b := by
    rw [← Nat.shiftLeft_add_eq_or_of_lt b.2, Nat.shiftLeft_eq]
    omega
  have hle (o : Fin 256) : ¬255 < (o : ℕ) := by omega
  rw [rewriteQuad, dottedQuad_append h]
  simp only [List.map_cons, List.map_nil, hnumber, List.any_cons, List.any_nil, hle, decide_false, Bool.or_self,
    Bool.false_eq_true, if_false, List.getD_cons_zero, List.getD_cons_succ, hor]
  rw [quadGroups, colons_cons (List.cons_ne_nil _ _), colons_singleton]
  rfl

theorem dot_notMem_colons (gs : List HexGroup) : '.' ∉ colons gs := by
  induction gs with
  | nil => exact List.not_mem_nil
  | cons g gs ih =>
    have hg : '.' ∉ g.digits := fun h => absurd (g.hex _ h) (by decide)
    rcases eq_or_ne gs [] with rfl | hne
    · rwa [colons_singleton]
    · rw [colons_cons hne, List.mem_append, List.mem_cons]
      simp [hg, ih]

theorem expand_full {gs : List HexGroup} (h : gs.length = 8) {text : List Char} (hrest : rewriteQuad text = some (colons gs)) :
    expandIpv6 text = some (gs.map HexGroup.value) := by
  have hsplit : splitDouble (colons gs) = [colons gs] := by
    have happend := splitDouble_colons gs []
    rwa [List.append_nil, splitDouble, prepend, List.append_nil] at happend
  rw [expandIpv6, hrest, Option.bind_some, hsplit]
  simp [pieces_colons, h]

theorem expand_gap {head tail : List HexGroup} (h : head.length + tail.length ≤ 7) {text : List Char}
    (hrest : rewriteQuad text = some (colons head ++ ':' :: ':' :: colons tail)) :
    expandIpv6 text = some (head.map HexGroup.value ++ List.replicate (8 - head.length - tail.length) 0 ++
      tail.map HexGroup.value) := by
  have htail : splitDouble (colons tail) = [colons tail] := by
    have happend := splitDouble_colons tail []
    rwa [List.append_nil, splitDouble, prepend, List.append_nil] at happend
  have hsplit : splitDouble (colons head ++ ':' :: ':' :: colons tail) = [colons head, colons tail] := by
    rw [splitDouble_colons, splitDouble, htail, prepend, List.append_nil]
  rw [expandIpv6, hrest, Option.bind_some, hsplit]
  simp only [pieces_colons, Option.bind_some, List.length_map]
  rw [if_neg (by omega)]

/-- Every form of an address expands to its groups. -/
theorem expandIpv6_text (f : Form) : expandIpv6 f.text = some f.address := by
  cases f with
  | full groups h => exact expand_full h (rewriteQuad_of_notMem (dot_notMem_colons groups))
  | fullQuad groups q h =>
    have hlast : headed groups = [] ∨ (headed groups).getLast? = some ':' := by
      rw [headed_eq (List.ne_nil_of_length_pos (by omega))]
      simp
    have hrest : rewriteQuad (headed groups ++ q.text) = some (colons (groups ++ quadGroups q)) := by
      rw [rewriteQuad_append hlast, headed_append (quadGroups_ne_nil q)]
    have hlen : (groups ++ quadGroups q).length = 8 := by simp [h, quadGroups]
    rw [Form.text, expand_full hlen hrest, List.map_append, quadGroups_value]
    rfl
  | gap head tail h =>
    refine expand_gap h (rewriteQuad_of_notMem fun hdot => ?_)
    rcases List.mem_append.mp hdot with hhead | htail
    · exact dot_notMem_colons head hhead
    · simp [dot_notMem_colons tail] at htail
  | gapQuad head tail q h =>
    have hsplit : colons head ++ ':' :: (tailed tail ++ ':' :: q.text) =
        colons head ++ ':' :: (tailed tail ++ [':']) ++ q.text := by simp
    have hrest : rewriteQuad (colons head ++ ':' :: (tailed tail ++ ':' :: q.text)) =
        some (colons head ++ ':' :: ':' :: colons (tail ++ quadGroups q)) := by
      rw [hsplit, rewriteQuad_append (.inr (by simp [List.getLast?_cons])), ← tailed_append (quadGroups_ne_nil q)]
      simp
    have hlen : head.length + (tail ++ quadGroups q).length ≤ 7 := by
      rw [List.length_append, show (quadGroups q).length = 2 from rfl]
      omega
    rw [Form.text, expand_gap hlen hrest, List.map_append, quadGroups_value, Form.address, List.length_append,
      show (quadGroups q).length = 2 from rfl]
    congr 4
    omega

/-! ### What is stripped -/

/-- A text of an address as it may stand in a URL: a zone behind it, brackets around it. -/
structure Spelling where
  form : Form
  zone : List Char := []
  bracketed : Bool := false
  zone_ok : zone = [] ∨ ∃ id : List Char, zone = '%' :: id ∧ id ≠ [] ∧ ∀ c ∈ id, c ∈ zoneChars

/-- A spelling as it is written. -/
def Spelling.text (s : Spelling) : List Char :=
  if s.bracketed then '[' :: (s.form.text ++ s.zone ++ [']']) else s.form.text ++ s.zone

/-- The groups it stands for. -/
def Spelling.address (s : Spelling) : List ℕ := s.form.address

/-- The characters an address is written with. -/
def addressChars : List Char := hexDigits ++ [':', '.']

theorem colons_chars (gs : List HexGroup) : ∀ c ∈ colons gs, c ∈ addressChars := by
  induction gs with
  | nil => simp
  | cons g gs ih =>
    have hg : ∀ c ∈ g.digits, c ∈ addressChars := fun c hc => List.mem_append_left _ (g.hex c hc)
    rcases eq_or_ne gs [] with rfl | hne
    · rwa [colons_singleton]
    · rw [colons_cons hne]
      exact List.forall_mem_append.mpr ⟨hg, List.forall_mem_cons.mpr ⟨by decide, ih⟩⟩

theorem quad_chars (q : Quad) : ∀ c ∈ q.text, c ∈ addressChars := by
  have hdecimal (o : Fin 256) : ∀ c ∈ decimal o, c ∈ addressChars := by
    have hall : ∀ o : Fin 256, (decimal o).all (· ∈ addressChars) = true := by decide +kernel
    exact List.all_iff_forall_prop.mp (hall o)
  have hdot : '.' ∈ addressChars := by decide
  simp only [Quad.text, List.forall_mem_append, List.forall_mem_cons]
  exact ⟨hdecimal q.a, hdot, hdecimal q.b, hdot, hdecimal q.c, hdot, hdecimal q.d⟩

theorem Form.text_chars (f : Form) : ∀ c ∈ f.text, c ∈ addressChars := by
  have hcolon : ':' ∈ addressChars := by decide
  cases f with
  | full groups h => exact colons_chars groups
  | fullQuad groups q h =>
    refine List.forall_mem_append.mpr ⟨?_, quad_chars q⟩
    rw [headed_eq (List.ne_nil_of_length_pos (by omega))]
    exact List.forall_mem_append.mpr ⟨colons_chars groups, by simpa using hcolon⟩
  | gap head tail h =>
    simp only [Form.text, List.forall_mem_append, List.forall_mem_cons]
    exact ⟨colons_chars head, hcolon, hcolon, colons_chars tail⟩
  | gapQuad head tail q h =>
    have htail : ∀ c ∈ tailed tail, c ∈ addressChars := by
      rcases eq_or_ne tail [] with rfl | hne
      · simp [tailed]
      · rw [tailed_eq hne]
        exact List.forall_mem_cons.mpr ⟨hcolon, colons_chars tail⟩
    simp only [Form.text, List.forall_mem_append, List.forall_mem_cons]
    exact ⟨colons_chars head, hcolon, htail, hcolon, quad_chars q⟩

theorem dropWhile_of_forall {p : Char → Bool} {l : List Char} (h : ∀ c ∈ l, p c = false) : l.dropWhile p = l := by
  cases l with
  | nil => rfl
  | cons c l => rw [List.dropWhile_cons_of_neg (by simp [h c List.mem_cons_self])]

theorem trim_of_forall {l : List Char} (h : ∀ c ∈ l, isSpace c = false) : trim l = l := by
  rw [trim, dropWhile_of_forall h, dropWhile_of_forall (fun c hc => h c (List.mem_reverse.mp hc)), List.reverse_reverse]

theorem stripBrackets_around {l : List Char} : stripBrackets ('[' :: (l ++ [']'])) = l := by
  simp [stripBrackets]

theorem stripBrackets_of_notMem {l : List Char} (hopen : '[' ∉ l) (hclose : ']' ∉ l) : stripBrackets l = l := by
  have hhead : l.head? ≠ some '[' := fun h => hopen (List.mem_of_head? h)
  have hlast : l.getLast? ≠ some ']' := fun h => hclose (List.mem_of_getLast? h)
  rw [stripBrackets]
  simp [hhead, hlast]

theorem stripZone_append {l zone : List Char} (hl : '%' ∉ l)
    (hzone : zone = [] ∨ ∃ id : List Char, zone = '%' :: id ∧ id ≠ [] ∧ ∀ c ∈ id, c ∈ zoneChars) :
    stripZone (l ++ zone) = l := by
  induction l with
  | nil =>
    rcases hzone with rfl | ⟨id, rfl, -, hid⟩
    · rfl
    · have hline : ∀ c ∈ zoneChars, c ∉ ['\n', '\r', '\u2028', '\u2029'] :=
        List.all_iff_forall_prop.mp (by decide)
      rw [List.nil_append, stripZone, if_pos ⟨rfl, List.all_iff_forall_prop.mpr fun c hc => hline c (hid c hc)⟩]
  | cons c l ih =>
    obtain ⟨hc, hl⟩ := not_or.mp (mt List.mem_cons.mpr hl)
    rw [List.cons_append, stripZone, if_neg (fun h => hc h.1.symm), ih hl]

/-- Every spelling is reduced to its form. -/
theorem stripped_text (s : Spelling) : stripZone (stripBrackets (trim s.text)) = s.form.text := by
  have hform := Form.text_chars s.form
  have hbody : ∀ c ∈ s.form.text ++ s.zone, c ∈ addressChars ∨ c = '%' ∨ c ∈ zoneChars := by
    refine List.forall_mem_append.mpr ⟨fun c hc => .inl (hform c hc), ?_⟩
    rcases s.zone_ok with hnil | ⟨id, hid, -, hchars⟩
    · rw [hnil]
      simp
    · rw [hid]
      exact List.forall_mem_cons.mpr ⟨.inr (.inl rfl), fun c hc => .inr (.inr (hchars c hc))⟩
  have hspace : ∀ c ∈ s.form.text ++ s.zone, isSpace c = false := by
    have haddress : ∀ c ∈ addressChars, isSpace c = false :=
      List.all_iff_forall_prop.mp (by decide)
    have hzone : ∀ c ∈ zoneChars, isSpace c = false :=
      List.all_iff_forall_prop.mp (by decide)
    intro c hc
    rcases hbody c hc with h | rfl | h
    · exact haddress c h
    · rfl
    · exact hzone c h
  have hbracket (b : Char) (hb : b = '[' ∨ b = ']') : b ∉ s.form.text ++ s.zone := by
    have hnone : ∀ b ∈ ['[', ']'], b ∉ addressChars ∧ b ≠ '%' ∧ b ∉ zoneChars :=
      List.all_iff_forall_prop.mp (by decide)
    obtain ⟨haddress, hpercent, hzone⟩ := hnone b (by simpa using hb)
    intro hmem
    rcases hbody b hmem with h | h | h
    · exact haddress h
    · exact hpercent h
    · exact hzone h
  have hpercent : '%' ∉ s.form.text := fun h => absurd (hform _ h) (by decide)
  rw [Spelling.text]
  split
  · have htrim : ∀ c ∈ '[' :: (s.form.text ++ s.zone ++ [']']), isSpace c = false :=
      List.forall_mem_cons.mpr ⟨rfl, List.forall_mem_append.mpr ⟨hspace, List.forall_mem_singleton.mpr rfl⟩⟩
    rw [trim_of_forall htrim, stripBrackets_around, stripZone_append hpercent s.zone_ok]
  · rw [trim_of_forall hspace, stripBrackets_of_notMem (hbracket '[' (.inl rfl)) (hbracket ']' (.inr rfl)),
      stripZone_append hpercent s.zone_ok]

theorem isPrivateAddress_text (s : Spelling) : isPrivateAddress s.text = refuses s.address s.form.text := by
  have hip : isIPv6 s.form.text = true := isIPv6_iff.mpr ⟨s.form, [], .inl rfl, (List.append_nil _).symm⟩
  rw [isPrivateAddress]
  simp only [stripped_text, hip, if_true, expandIpv6_text]
  rfl

/-! ### The verdict -/

/-- The IPv4 ranges a fetch must not reach, by the upper half of the address: `0/8`, `10/8`, `100.64/10`,
    `127/8`, `169.254/16`, `172.16/12` and `192.168/16`. -/
def PrivateV4 (hi : ℕ) : Prop :=
  hi / 256 = 0 ∨ hi / 256 = 10 ∨ (hi / 256 = 100 ∧ 64 ≤ hi % 256 ∧ hi % 256 ≤ 127) ∨ hi / 256 = 127 ∨
    (hi / 256 = 169 ∧ hi % 256 = 254) ∨ (hi / 256 = 172 ∧ 16 ≤ hi % 256 ∧ hi % 256 ≤ 31) ∨
    (hi / 256 = 192 ∧ hi % 256 = 168)

instance : DecidablePred PrivateV4 := fun _ => inferInstanceAs (Decidable (_ ∨ _))

/-- The address holds an IPv4 address: mapped, translated, compatible, behind the NAT64 prefix, or
    behind that of 6to4. -/
def Embeds (address : List ℕ) (hi lo : ℕ) : Prop :=
  address = [0, 0, 0, 0, 0, 0xffff, hi, lo] ∨ address = [0, 0, 0, 0, 0xffff, 0, hi, lo] ∨
    address = [0, 0, 0, 0, 0, 0, hi, lo] ∨ address = [0x64, 0xff9b, 0, 0, 0, 0, hi, lo] ∨
    ∃ rest, address = 0x2002 :: hi :: lo :: rest

/-- Unique-local, link-local, loopback, unspecified, in `64:ff9b::/32` outside the well-known `/96`, or
    holding an IPv4 address of a refused range. -/
def Refused (address : List ℕ) : Prop :=
  (∃ first rest, address = first :: rest ∧ 0xfc00 ≤ first ∧ first ≤ 0xfdff) ∨
    (∃ first rest, address = first :: rest ∧ 0xfe80 ≤ first ∧ first ≤ 0xfebf) ∨
    address = [0, 0, 0, 0, 0, 0, 0, 1] ∨ address = [0, 0, 0, 0, 0, 0, 0, 0] ∨
    (∃ rest, address = 0x64 :: 0xff9b :: rest ∧ rest.take 4 ≠ [0, 0, 0, 0]) ∨
    ∃ hi lo, Embeds address hi lo ∧ PrivateV4 hi

/-- A mask of the upper bits of a group rounds it down. -/
theorem and_mask {n x : ℕ} (hn : n ≤ 16) (hx : x < 2 ^ 16) : x &&& (2 ^ n * (2 ^ (16 - n) - 1)) = 2 ^ n * (x / 2 ^ n) := by
  have hlow : (x &&& (2 ^ n * (2 ^ (16 - n) - 1))) % 2 ^ n = 0 := by
    rw [Nat.and_mod_two_pow, Nat.mul_mod_right, Nat.and_zero]
  have hhigh : (x &&& (2 ^ n * (2 ^ (16 - n) - 1))) / 2 ^ n = x / 2 ^ n := by
    rw [Nat.and_div_two_pow, Nat.mul_div_cancel_left _ (Nat.two_pow_pos n), Nat.and_two_pow_sub_one_eq_mod,
      Nat.mod_eq_of_lt]
    rw [Nat.div_lt_iff_lt_mul (Nat.two_pow_pos n), ← Nat.pow_add, Nat.sub_add_cancel hn]
    exact hx
  have hdiv := Nat.div_add_mod (x &&& (2 ^ n * (2 ^ (16 - n) - 1))) (2 ^ n)
  rw [hlow, hhigh, Nat.add_zero] at hdiv
  exact hdiv.symm

theorem uniqueLocal_iff {x : ℕ} (hx : x < 65536) : x &&& 0xfe00 = 0xfc00 ↔ 0xfc00 ≤ x ∧ x ≤ 0xfdff := by
  have hmask : x &&& 0xfe00 = 512 * (x / 512) := and_mask (n := 9) (by decide) hx
  rw [hmask]
  omega

theorem linkLocal_iff {x : ℕ} (hx : x < 65536) : x &&& 0xffc0 = 0xfe80 ↔ 0xfe80 ≤ x ∧ x ≤ 0xfebf := by
  have hmask : x &&& 0xffc0 = 64 * (x / 64) := and_mask (n := 6) (by decide) hx
  rw [hmask]
  omega

theorem v4of_eq (hi lo : ℕ) :
    v4of hi lo = Nat.toDigits 10 (hi / 256) ++ '.' :: (Nat.toDigits 10 (hi % 256) ++ '.' ::
      (Nat.toDigits 10 (lo / 256) ++ '.' :: Nat.toDigits 10 (lo % 256))) := by
  have hshift (n : ℕ) : n >>> 8 = n / 256 := Nat.shiftRight_eq_div_pow n 8
  have hand (n : ℕ) : n &&& 0xff = n % 256 := Nat.and_two_pow_sub_one_eq_mod n 8
  simp [v4of, List.intercalate, hshift, hand]

theorem toDigits_inj {m n : ℕ} : Nat.toDigits 10 m = Nat.toDigits 10 n ↔ m = n := by
  refine ⟨fun h => ?_, fun h => h ▸ rfl⟩
  rw [← Nat.ofDigitChars_ten_toDigits (n := m), h, Nat.ofDigitChars_ten_toDigits]

theorem dot_notMem (n : ℕ) : '.' ∉ Nat.toDigits 10 n := by
  intro h
  exact absurd (Nat.isDigit_of_mem_toDigits (by decide) le_rfl h) (by decide)

/-- The first octet of a text is the one of the prefix, and the others follow. -/
theorem octetsPrefix_cons {o n : ℕ} {os : List ℕ} {rest : List Char} :
    octetsPrefix (o :: os) (Nat.toDigits 10 n ++ '.' :: rest) = true ↔ n = o ∧ octetsPrefix os rest = true := by
  simp only [octetsPrefix, List.isPrefixOf_iff_prefix, List.flatMap_cons, List.append_assoc, List.singleton_append]
  constructor
  · rintro ⟨t, ht⟩
    rw [List.append_assoc, List.cons_append] at ht
    obtain ⟨hdigits, hrest⟩ := JoinedFields.cut_inj (dot_notMem o) (dot_notMem n) ht
    exact ⟨(toDigits_inj.mp hdigits).symm, t, hrest⟩
  · rintro ⟨rfl, t, ht⟩
    exact ⟨t, by rw [← ht]; simp⟩

theorem octetsPrefix_nil (s : List Char) : octetsPrefix [] s = true := rfl

theorem v4_v4of (hi lo : ℕ) : v4 (v4of hi lo) = true ↔ PrivateV4 hi := by
  rw [v4of_eq, v4]
  simp only [Bool.or_eq_true, octetsPrefix_cons, octetsPrefix_nil, and_true, List.any_eq_true, List.mem_range'_1,
    PrivateV4]
  constructor
  · rintro ((((((h | h) | ⟨o, ho, h⟩) | h) | h) | ⟨o, ho, h⟩) | h)
    all_goals omega
  · intro h
    rcases h with h | h | ⟨ha, hb⟩ | h | h | ⟨ha, hb⟩ | h
    · exact .inl (.inl (.inl (.inl (.inl (.inl h)))))
    · exact .inl (.inl (.inl (.inl (.inl (.inr h)))))
    · exact .inl (.inl (.inl (.inl (.inr ⟨hi % 256, by omega, ha, rfl⟩))))
    · exact .inl (.inl (.inl (.inr h)))
    · exact .inl (.inl (.inr h))
    · exact .inl (.inr ⟨hi % 256, by omega, ha, rfl⟩)
    · exact .inr h

/-- Four digits of the unique-local or the link-local range. -/
def PrivateHead (w : List Char) : Prop :=
  w.length = 4 ∧ (∀ c ∈ w, c ∈ hexDigits) ∧
    ((0xfc00 ≤ hexValue w ∧ hexValue w ≤ 0xfdff) ∨ (0xfe80 ≤ hexValue w ∧ hexValue w ≤ 0xfebf))

theorem v6Head_cases {s : List Char} (h : v6Head s = true) : ∃ w rest, s = w ++ ':' :: rest ∧ PrivateHead w := by
  have hfirst : ∀ a ∈ ['f', 'F'], a ∈ hexDigits ∧ (Hex.digitValue a).getD 0 = 15 :=
    List.all_iff_forall_prop.mp (by decide)
  have hlocal : ∀ b ∈ ['c', 'd', 'C', 'D'],
      b ∈ hexDigits ∧ 12 ≤ (Hex.digitValue b).getD 0 ∧ (Hex.digitValue b).getD 0 ≤ 13 :=
      List.all_iff_forall_prop.mp (by decide)
  have hlink : ∀ b ∈ ['e', 'E'], b ∈ hexDigits ∧ (Hex.digitValue b).getD 0 = 14 :=
    List.all_iff_forall_prop.mp (by decide)
  have hthird : ∀ c ∈ ['8', '9', 'a', 'b', 'A', 'B'],
      c ∈ hexDigits ∧ 8 ≤ (Hex.digitValue c).getD 0 ∧ (Hex.digitValue c).getD 0 ≤ 11 :=
      List.all_iff_forall_prop.mp (by decide)
  have hdigit : ∀ c ∈ hexDigits, (Hex.digitValue c).getD 0 < 16 :=
    List.all_iff_forall_prop.mp (by decide)
  fun_cases v6Head s with
  | case1 a b c d rest =>
    refine ⟨[a, b, c, d], rest, rfl, rfl, ?_⟩
    simp only [v6Head, Bool.or_eq_true, Bool.and_eq_true, decide_eq_true_eq] at h
    rcases h with ⟨⟨⟨ha, hb⟩, hc⟩, hd⟩ | ⟨⟨⟨ha, hb⟩, hc⟩, hd⟩
    · obtain ⟨hamem, ha⟩ := hfirst a ha
      obtain ⟨hbmem, hb⟩ := hlocal b hb
      have hc' := hdigit c hc
      have hd' := hdigit d hd
      refine ⟨by simp [hamem, hbmem, hc, hd], .inl ?_⟩
      simp only [hexValue, List.foldl_cons, List.foldl_nil]
      omega
    · obtain ⟨hamem, ha⟩ := hfirst a ha
      obtain ⟨hbmem, hb⟩ := hlink b hb
      obtain ⟨hcmem, hc⟩ := hthird c hc
      have hd' := hdigit d hd
      refine ⟨by simp [hamem, hbmem, hcmem, hd], .inr ?_⟩
      simp only [hexValue, List.foldl_cons, List.foldl_nil]
      omega
  | case2 => simp [v6Head] at h

theorem v6_cases {s : List Char} (h : v6 s = true) :
    s = "::".toList ∨ s = "::1".toList ∨ ∃ w rest, s = w ++ ':' :: rest ∧ PrivateHead w := by
  simp only [v6, Bool.or_eq_true, decide_eq_true_eq] at h
  rcases h with (h | h) | h
  · exact .inl h
  · exact .inr (.inl h)
  · exact .inr (.inr (v6Head_cases h))

theorem colon_notMem_v4of (hi lo : ℕ) : ':' ∉ v4of hi lo := by
  have hdigits (n : ℕ) : ':' ∉ Nat.toDigits 10 n := by
    intro h
    exact absurd (Nat.isDigit_of_mem_toDigits (by decide) le_rfl h) (by decide)
  rw [v4of_eq]
  simp [hdigits]

/-- A dotted quad is no IPv6 text. -/
theorem v6_v4of (hi lo : ℕ) : v6 (v4of hi lo) = false := by
  refine Bool.eq_false_iff.mpr fun h => colon_notMem_v4of hi lo ?_
  rcases v6_cases h with h | h | ⟨w, rest, h, -⟩
  · rw [h]; decide
  · rw [h]; decide
  · rw [h]; simp

theorem exists_colons_first {gs : List HexGroup} {l : List Char} (hne : gs ≠ []) :
    ∃ rest, colons gs ++ ':' :: l = (gs.head hne).digits ++ ':' :: rest := by
  obtain ⟨g, gs, rfl⟩ := List.exists_cons_of_ne_nil hne
  rcases eq_or_ne gs [] with rfl | hne'
  · exact ⟨l, by rw [colons_singleton, List.head_cons]⟩
  · exact ⟨_, by rw [colons_cons hne', List.append_assoc, List.head_cons, List.cons_append]⟩

/-- An address opens with its first group, or with a colon. -/
theorem exists_first (f : Form) : ∃ w rest, f.text = w ++ ':' :: rest ∧ (∀ c ∈ w, c ∈ hexDigits) ∧
    (w ≠ [] → ∃ tail, f.address = hexValue w :: tail) := by
  cases f with
  | full groups h =>
    obtain ⟨g, gs, rfl⟩ := List.exists_cons_of_ne_nil (List.ne_nil_of_length_pos (by omega) : groups ≠ [])
    have hne : gs ≠ [] := List.ne_nil_of_length_pos (by simp at h; omega)
    exact ⟨g.digits, colons gs, colons_cons hne, g.hex, fun _ => ⟨gs.map HexGroup.value, rfl⟩⟩
  | fullQuad groups q h =>
    obtain ⟨g, gs, rfl⟩ := List.exists_cons_of_ne_nil (List.ne_nil_of_length_pos (by omega) : groups ≠ [])
    exact ⟨g.digits, headed gs ++ q.text, by simp [Form.text, headed], g.hex, fun _ => ⟨_, rfl⟩⟩
  | gap head tail h =>
    rcases eq_or_ne head [] with rfl | hne
    · exact ⟨[], _, rfl, by simp, fun h => absurd rfl h⟩
    · obtain ⟨rest, hrest⟩ := exists_colons_first (l := ':' :: colons tail) hne
      obtain ⟨g, gs, rfl⟩ := List.exists_cons_of_ne_nil hne
      exact ⟨g.digits, rest, hrest, g.hex, fun _ => ⟨_, rfl⟩⟩
  | gapQuad head tail q h =>
    rcases eq_or_ne head [] with rfl | hne
    · exact ⟨[], _, rfl, by simp, fun h => absurd rfl h⟩
    · obtain ⟨rest, hrest⟩ := exists_colons_first (l := tailed tail ++ ':' :: q.text) hne
      obtain ⟨g, gs, rfl⟩ := List.exists_cons_of_ne_nil hne
      exact ⟨g.digits, rest, hrest, g.hex, fun _ => ⟨_, rfl⟩⟩

/-- The text of an IPv6 address is in no IPv4 range. -/
theorem v4_text (f : Form) : v4 f.text = false := by
  obtain ⟨w, rest, htext, hw, -⟩ := exists_first f
  have hdot : '.' ∉ w := fun h => absurd (hw _ h) (by decide)
  have hcolon (n : ℕ) : ':' ∉ Nat.toDigits 10 n := by
    intro h
    exact absurd (Nat.isDigit_of_mem_toDigits (by decide) le_rfl h) (by decide)
  have hprefix (o : ℕ) (os : List ℕ) : octetsPrefix (o :: os) f.text = false := by
    refine Bool.eq_false_iff.mpr fun h => ?_
    simp only [octetsPrefix, List.isPrefixOf_iff_prefix, List.flatMap_cons, List.append_assoc,
      List.singleton_append] at h
    obtain ⟨t, ht⟩ := h
    rw [htext, List.append_assoc, List.cons_append] at ht
    exact JoinedFields.cut_ne (hcolon o) hdot (by decide) ht
  simp [v4, hprefix]

/-- Where the lists know the text of an IPv6 address, its groups say the same. -/
theorem v6_text {f : Form} (h : v6 f.text = true) :
    f.address = [0, 0, 0, 0, 0, 0, 0, 0] ∨ f.address = [0, 0, 0, 0, 0, 0, 0, 1] ∨
      ∃ first rest, f.address = first :: rest ∧
        ((0xfc00 ≤ first ∧ first ≤ 0xfdff) ∨ (0xfe80 ≤ first ∧ first ≤ 0xfebf)) := by
  have hexpand := expandIpv6_text f
  rcases v6_cases h with htext | htext | ⟨w, rest, htext, hlen, hw, hrange⟩
  · rw [htext] at hexpand
    exact .inl (Option.some.inj (hexpand.symm.trans (by decide)))
  · rw [htext] at hexpand
    exact .inr (.inl (Option.some.inj (hexpand.symm.trans (by decide))))
  · obtain ⟨w', rest', htext', hw', haddress⟩ := exists_first f
    have hcolon {v : List Char} (hv : ∀ c ∈ v, c ∈ hexDigits) : ':' ∉ v := fun h => absurd (hv _ h) (by decide)
    obtain ⟨rfl, -⟩ := JoinedFields.cut_inj (hcolon hw) (hcolon hw') (htext.symm.trans htext')
    obtain ⟨tail, htail⟩ := haddress (List.ne_nil_of_length_pos (by omega))
    exact .inr (.inr ⟨_, tail, htail, hrange⟩)

section eight
variable {g₀ g₁ g₂ g₃ g₄ g₅ g₆ g₇ : ℕ} {text : List Char}

/-- The IPv4 address in the low half. -/
def LowHalf (g₀ g₁ g₂ g₃ g₄ g₅ : ℕ) : Prop :=
  g₀ = 0 ∧ g₁ = 0 ∧ g₂ = 0 ∧ g₃ = 0 ∧
    ((g₄ = 0 ∧ g₅ = 0xffff) ∨ (g₄ = 0 ∧ g₅ = 0) ∨ (g₄ = 0xffff ∧ g₅ = 0))

theorem refused_eight : Refused [g₀, g₁, g₂, g₃, g₄, g₅, g₆, g₇] ↔
    (0xfc00 ≤ g₀ ∧ g₀ ≤ 0xfdff) ∨ (0xfe80 ≤ g₀ ∧ g₀ ≤ 0xfebf) ∨
      (g₀ = 0x64 ∧ g₁ = 0xff9b ∧ ¬(g₂ = 0 ∧ g₃ = 0 ∧ g₄ = 0 ∧ g₅ = 0)) ∨
      (LowHalf g₀ g₁ g₂ g₃ g₄ g₅ ∧ PrivateV4 g₆) ∨
      (g₀ = 0x64 ∧ g₁ = 0xff9b ∧ (g₂ = 0 ∧ g₃ = 0 ∧ g₄ = 0 ∧ g₅ = 0) ∧ PrivateV4 g₆) ∨
      (g₀ = 0x2002 ∧ PrivateV4 g₁) := by
  have hzero : PrivateV4 0 := .inl rfl
  constructor
  · rintro (⟨first, rest, h, hrange⟩ | ⟨first, rest, h, hrange⟩ | h | h | ⟨rest, h, hrest⟩ | ⟨hi, lo, h, hprivate⟩)
    · simp only [List.cons.injEq] at h
      exact .inl (h.1 ▸ hrange)
    · simp only [List.cons.injEq] at h
      exact .inr (.inl (h.1 ▸ hrange))
    · simp only [List.cons.injEq, and_true] at h
      obtain ⟨rfl, rfl, rfl, rfl, rfl, rfl, rfl, rfl⟩ := h
      exact .inr (.inr (.inr (.inl ⟨⟨rfl, rfl, rfl, rfl, .inr (.inl ⟨rfl, rfl⟩)⟩, hzero⟩)))
    · simp only [List.cons.injEq, and_true] at h
      obtain ⟨rfl, rfl, rfl, rfl, rfl, rfl, rfl, rfl⟩ := h
      exact .inr (.inr (.inr (.inl ⟨⟨rfl, rfl, rfl, rfl, .inr (.inl ⟨rfl, rfl⟩)⟩, hzero⟩)))
    · simp only [List.cons.injEq] at h
      obtain ⟨rfl, rfl, rfl⟩ := h
      exact .inr (.inr (.inl ⟨rfl, rfl, by simpa using hrest⟩))
    · rcases h with h | h | h | h | ⟨rest, h⟩ <;> simp only [List.cons.injEq, and_true] at h
      · obtain ⟨rfl, rfl, rfl, rfl, rfl, rfl, rfl, -⟩ := h
        exact .inr (.inr (.inr (.inl ⟨⟨rfl, rfl, rfl, rfl, .inl ⟨rfl, rfl⟩⟩, hprivate⟩)))
      · obtain ⟨rfl, rfl, rfl, rfl, rfl, rfl, rfl, -⟩ := h
        exact .inr (.inr (.inr (.inl ⟨⟨rfl, rfl, rfl, rfl, .inr (.inr ⟨rfl, rfl⟩)⟩, hprivate⟩)))
      · obtain ⟨rfl, rfl, rfl, rfl, rfl, rfl, rfl, -⟩ := h
        exact .inr (.inr (.inr (.inl ⟨⟨rfl, rfl, rfl, rfl, .inr (.inl ⟨rfl, rfl⟩)⟩, hprivate⟩)))
      · obtain ⟨rfl, rfl, rfl, rfl, rfl, rfl, rfl, -⟩ := h
        exact .inr (.inr (.inr (.inr (.inl ⟨rfl, rfl, ⟨rfl, rfl, rfl, rfl⟩, hprivate⟩))))
      · obtain ⟨rfl, rfl, -⟩ := h
        exact .inr (.inr (.inr (.inr (.inr ⟨rfl, hprivate⟩))))
  · rintro (h | h | ⟨rfl, rfl, hrest⟩ | ⟨⟨rfl, rfl, rfl, rfl, hkind⟩, hprivate⟩ | ⟨rfl, rfl, ⟨rfl, rfl, rfl, rfl⟩, hprivate⟩ |
      ⟨rfl, hprivate⟩)
    · exact .inl ⟨_, _, rfl, h⟩
    · exact .inr (.inl ⟨_, _, rfl, h⟩)
    · exact .inr (.inr (.inr (.inr (.inl ⟨_, rfl, by simpa using hrest⟩))))
    · refine .inr (.inr (.inr (.inr (.inr ⟨g₆, g₇, ?_, hprivate⟩))))
      rcases hkind with ⟨rfl, rfl⟩ | ⟨rfl, rfl⟩ | ⟨rfl, rfl⟩
      · exact .inl rfl
      · exact .inr (.inr (.inl rfl))
      · exact .inr (.inl rfl)
    · exact .inr (.inr (.inr (.inr (.inr ⟨g₆, g₇, .inr (.inr (.inr (.inl rfl))), hprivate⟩))))
    · exact .inr (.inr (.inr (.inr (.inr ⟨g₁, g₂, .inr (.inr (.inr (.inr ⟨_, rfl⟩))), hprivate⟩))))

theorem mapped_eight : mapped [g₀, g₁, g₂, g₃, g₄, g₅, g₆, g₇] = true ↔ LowHalf g₀ g₁ g₂ g₃ g₄ g₅ := by
  simp only [mapped, LowHalf, List.getD_cons_zero, List.getD_cons_succ, Bool.and_eq_true, Bool.or_eq_true,
    decide_eq_true_eq, Nat.or_eq_zero_iff]
  tauto

theorem nat64_eight : nat64 [g₀, g₁, g₂, g₃, g₄, g₅, g₆, g₇] = true ↔ g₀ = 0x64 ∧ g₁ = 0xff9b := by
  simp [nat64]

theorem answer_v4of (hi lo : ℕ) : (v4 (v4of hi lo) || v6 (v4of hi lo)) = true ↔ PrivateV4 hi := by
  rw [v6_v4of, Bool.or_false, v4_v4of]

/-- The verdict, where the lists say nothing of the text that the groups do not say. -/
theorem refuses_eight (h₀ : g₀ < 65536)
    (htext : (v4 text || v6 text) = true → Refused [g₀, g₁, g₂, g₃, g₄, g₅, g₆, g₇]) :
    refuses [g₀, g₁, g₂, g₃, g₄, g₅, g₆, g₇] text = true ↔ Refused [g₀, g₁, g₂, g₃, g₄, g₅, g₆, g₇] := by
  rw [refuses, List.getD_cons_zero]
  by_cases hlocal : g₀ &&& 0xfe00 = 0xfc00
  · rw [if_pos hlocal]
    exact iff_of_true rfl (refused_eight.mpr (.inl ((uniqueLocal_iff h₀).mp hlocal)))
  rw [if_neg hlocal]
  by_cases hlink : g₀ &&& 0xffc0 = 0xfe80
  · rw [if_pos hlink]
    exact iff_of_true rfl (refused_eight.mpr (.inr (.inl ((linkLocal_iff h₀).mp hlink))))
  rw [if_neg hlink]
  rw [uniqueLocal_iff h₀] at hlocal
  rw [linkLocal_iff h₀] at hlink
  by_cases hnat : nat64 [g₀, g₁, g₂, g₃, g₄, g₅, g₆, g₇] = true
  · obtain ⟨rfl, rfl⟩ := nat64_eight.mp hnat
    by_cases hzero : g₂ = 0 ∧ g₃ = 0 ∧ g₄ = 0 ∧ g₅ = 0
    · have hdest : destination [0x64, 0xff9b, g₂, g₃, g₄, g₅, g₆, g₇] text = some (v4of g₆ g₇) := by
        simp [destination, nat64, hzero, relayed]
      simp only [hdest, answer_v4of, refused_eight]
      simp [hzero, LowHalf]
    · have hdest : destination [0x64, 0xff9b, g₂, g₃, g₄, g₅, g₆, g₇] text = none := by
        have hor : ¬(g₂ ||| g₃ ||| g₄ ||| g₅) = 0 := by
          simpa only [Nat.or_eq_zero_iff, and_assoc] using hzero
        simp [destination, hnat, hor]
      simp only [hdest, true_iff]
      exact refused_eight.mpr (.inr (.inr (.inl ⟨rfl, rfl, hzero⟩)))
  have hnat' : ¬(g₀ = 0x64 ∧ g₁ = 0xff9b) := mt nat64_eight.mpr hnat
  by_cases hrelay : g₀ = 0x2002
  · have hdest : destination [g₀, g₁, g₂, g₃, g₄, g₅, g₆, g₇] text = some (v4of g₁ g₂) := by
      simp [destination, nat64, hrelay, relayed]
    simp only [hdest, answer_v4of, refused_eight]
    simp [hrelay, LowHalf]
  by_cases hlow : mapped [g₀, g₁, g₂, g₃, g₄, g₅, g₆, g₇] = true
  · have hdest : destination [g₀, g₁, g₂, g₃, g₄, g₅, g₆, g₇] text = some (v4of g₆ g₇) := by
      simp [destination, hnat, hrelay, hlow, relayed]
    simp only [hdest, answer_v4of, refused_eight, mapped_eight.mp hlow, true_and]
    have h0 : g₀ = 0 := (mapped_eight.mp hlow).1
    simp [h0]
  · have hdest : destination [g₀, g₁, g₂, g₃, g₄, g₅, g₆, g₇] text = some text := by
      simp [destination, hnat, hrelay, hlow, relayed]
    simp only [hdest]
    refine ⟨htext, fun h => ?_⟩
    have hlow' := mt mapped_eight.mpr hlow
    rcases refused_eight.mp h with h | h | ⟨h0, h1, -⟩ | ⟨h, -⟩ | ⟨h0, h1, -⟩ | ⟨h, -⟩
    · exact absurd h hlocal
    · exact absurd h hlink
    · exact absurd ⟨h0, h1⟩ hnat'
    · exact absurd h hlow'
    · exact absurd ⟨h0, h1⟩ hnat'
    · exact absurd h hrelay

end eight

theorem eq_getD {l : List ℕ} (h : l.length = 8) :
    l = [l.getD 0 0, l.getD 1 0, l.getD 2 0, l.getD 3 0, l.getD 4 0, l.getD 5 0, l.getD 6 0, l.getD 7 0] := by
  refine List.ext_getElem h fun i hi hi' => ?_
  have hi8 : i < 8 := hi'
  interval_cases i <;> simp [hi]

theorem isPrivateAddress_iff (s : Spelling) : isPrivateAddress s.text = true ↔ Refused s.address := by
  have hlen : s.address.length = 8 := Form.address_length s.form
  have hfirst : s.address.getD 0 0 < 65536 := by
    rw [List.getD_eq_getElem _ _ (show 0 < s.address.length by rw [hlen]; decide)]
    exact Form.address_lt s.form _ (List.getElem_mem _)
  rw [isPrivateAddress_text, eq_getD hlen]
  refine refuses_eight hfirst fun h => ?_
  rw [← eq_getD hlen]
  rw [v4_text, Bool.false_or] at h
  rcases v6_text h with h | h | ⟨first, rest, h, hlocal | hlink⟩
  · exact .inr (.inr (.inr (.inl h)))
  · exact .inr (.inr (.inl h))
  · exact .inl ⟨first, rest, h, hlocal⟩
  · exact .inr (.inl ⟨first, rest, h, hlink⟩)

/-- Every text that Node takes for an IPv6 address is a spelling of one; the spellings of one address
    have one verdict; and it is a refusal for every address to refuse. -/
theorem spellings_agree :
    (∀ text, isIPv6 text = true → ∃ s : Spelling, s.bracketed = false ∧ s.text = text) ∧
      (∀ s s' : Spelling, s.address = s'.address → isPrivateAddress s.text = isPrivateAddress s'.text) ∧
      ∀ s : Spelling, Refused s.address → isPrivateAddress s.text = true := by
  refine ⟨fun text h => ?_, fun s s' h => ?_, fun s h => (isPrivateAddress_iff s).mpr h⟩
  · obtain ⟨f, zone, hzone, rfl⟩ := isIPv6_iff.mp h
    exact ⟨⟨f, zone, false, hzone⟩, rfl, rfl⟩
  · rw [Bool.eq_iff_iff, isPrivateAddress_iff, isPrivateAddress_iff, h]

/-- `[64:ff9b::127.0.0.1%0]`. -/
def natLoopback : Spelling where
  form := .gapQuad [.ofNat 0x64 (by decide), .ofNat 0xff9b (by decide)] [] ⟨127, 0, 0, 1⟩ (by decide)
  zone := ['%', '0']
  bracketed := true
  zone_ok := .inr ⟨['0'], rfl, by decide, List.all_iff_forall_prop.mp (by decide)⟩

theorem natLoopback_refused : isPrivateAddress natLoopback.text = true :=
  spellings_agree.2.2 natLoopback
    (.inr (.inr (.inr (.inr (.inr ⟨0x7f00, 1, .inr (.inr (.inr (.inl (by decide)))), by decide⟩)))))

end SsrfGuard
