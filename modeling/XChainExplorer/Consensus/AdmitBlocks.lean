import XChainExplorer.Lib.Decimal
import Mathlib.Data.Char
import Mathlib.Data.List.Lex
import Mathlib.Data.List.Sort

/-! # The bytes of an admission map

    The admission heights of a row, one for a chain, are signed as text: `CODE:digits` joined by commas,
    codes in order. A map has one encoding, and an encoding is of one map. The decoder reads heights
    as numbers, so it reads the encodings whose heights a number holds. -/

namespace AdmissionGate

open Decimal

/-- A text, character by character. -/
abbrev Text := List Char

/-! ### Encoding -/

/-- `CHAIN_CODE_RE`: `/^[A-Z0-9]{1,10}$/`. -/
def chainCode (s : Text) : Bool := 1 ≤ s.length && s.length ≤ 10 && s.all fun c => c.isUpper || c.isDigit

/-- `CANONICAL_HEIGHT_RE`: `/^(?:0|[1-9][0-9]*)$/`. -/
def canonicalHeight (s : Text) : Bool := s = ['0'] || (s ≠ [] && s.head? ≠ some '0' && s.all Char.isDigit)

/-- A value of the map as JavaScript has it, where a number that is not finite is `none`. -/
inductive Value where
  | number (v : Option ℚ)
  | string (s : Text)
  | other

/-- The own keys of an object with their values. -/
structure AdmitMap where
  rows : List (Text × Value)
  unique : (rows.map Prod.fst).Nodup

/-- `Number.isSafeInteger`, with the integer. -/
def safeInteger (v : Option ℚ) : Option ℤ := (v.filter fun q => q.den = 1 ∧ q.num.natAbs < 2 ^ 53).map (·.num)

/-- `String` of an integer. -/
def stringOf : ℤ → Text
  | .ofNat n => Nat.toDigits 10 n
  | .negSucc n => '-' :: Nat.toDigits 10 (n + 1)

/-- The raw spelling of a value. -/
def Value.spelling : Value → Option Text
  | .number v => (safeInteger v).map stringOf
  | .string s => some s
  | .other => none

/-- Why a map is refused. -/
inductive Refusal where
  | notAnObject
  | empty
  | chainCode (code : Text)
  | height (code : Text) (v : Value)

/-- What is thrown, where `stringify` is `JSON.stringify`. -/
def Refusal.message (stringify : Value → String) : Refusal → String
  | .notAnObject => "mirror_admission_activation: cannot encode a non-object admission map"
  | .empty =>
    "mirror_admission_activation: refusing to encode an EMPTY admission map; a row with no " ++
      "admission height on any chain is a legacy row, and a legacy row carries no field at all"
  | .chainCode code =>
    "mirror_admission_activation: chain code " ++ stringify (.string code) ++
      " is outside the closed vocabulary the encoding is injective over"
  | .height code v =>
    "mirror_admission_activation: admit_blocks[" ++ String.ofList code ++ "] = " ++ stringify v ++
      " is not a canonically spelled non-negative integer height"

/-- The part of one chain. -/
def part (row : Text × Value) : Except Refusal Text :=
  if !chainCode row.1 then .error (.chainCode row.1)
  else
    match row.2.spelling.filter canonicalHeight with
    | none => .error (.height row.1 row.2)
    | some s => .ok (row.1 ++ ':' :: s)

/-- The chains in their order. -/
def sorted (rows : List (Text × Value)) : List (Text × Value) :=
  rows.insertionSort fun a b => a.1 ≤ b.1

/-- The text of a map. -/
def encodeAdmitBlocks (map : Option AdmitMap) : Except Refusal Text :=
  match map with
  | none => .error .notAnObject
  | some m =>
    if m.rows = [] then .error .empty
    else ((sorted m.rows).mapM part).map fun parts => [','].intercalate parts

/-! ### Decoding -/

/-- `/^([A-Z0-9]{1,10}):((?:0|[1-9][0-9]*))$/`, with its groups. -/
def groups (p : Text) : Option (Text × Text) :=
  match p.dropWhile (· ≠ ':') with
  | [] => none
  | _ :: digits =>
    if chainCode (p.takeWhile (· ≠ ':')) && canonicalHeight digits then some (p.takeWhile (· ≠ ':'), digits) else none

/-- The parts from one on, behind the code before. -/
def decodeParts : List Text → Option Text → Option (List (Text × ℕ))
  | [], _ => some []
  | p :: parts, prev =>
    match groups p with
    | none => none
    | some (code, digits) =>
      if prev.any fun prev => !(prev < code) then none
      else if 2 ^ 53 ≤ value digits then none
      else (decodeParts parts (some code)).map ((code, value digits) :: ·)

/-- The map of a text. -/
def decodeAdmitBlocks (field : Text) : Option (List (Text × ℕ)) :=
  if field = [] then none else decodeParts (field.splitOn ',') none

/-! ### What is meant -/

/-- The height a value is a canonical spelling of. -/
def Value.height (v : Value) : Option ℕ := (v.spelling.filter canonicalHeight).map value

/-- The map has this height for the chain. -/
def AdmitMap.Names (m : AdmitMap) (code : Text) (height : ℕ) : Prop :=
  ∃ v, (code, v) ∈ m.rows ∧ v.height = some height

/-- The text of some heights. -/
def entry (e : Text × ℕ) : Text := e.1 ++ ':' :: Nat.toDigits 10 e.2

/-- The text of some heights. -/
def text (es : List (Text × ℕ)) : Text := [','].intercalate (es.map entry)

/-- Heights by chain, in the order of the codes. -/
structure Canonical (es : List (Text × ℕ)) : Prop where
  nonempty : es ≠ []
  codes : ∀ e ∈ es, chainCode e.1 = true
  ordered : es.Pairwise fun a b => a.1 < b.1

variable {s code digits : Text} {n : ℕ} {es : List (Text × ℕ)} {m m' : AdmitMap} {e e' : Text × ℕ}

/-! ### Spellings -/

theorem toDigits_of_canonicalHeight (h : canonicalHeight s = true) : Nat.toDigits 10 (value s) = s := by
  have hdigits : Digits s ∧ s ≠ [] ∧ (s.head? = some '0' → s.length = 1) := by
    rw [canonicalHeight, Bool.or_eq_true, Bool.and_eq_true, Bool.and_eq_true] at h
    rcases h with h | ⟨⟨hne, hhead⟩, hall⟩
    · rw [of_decide_eq_true h]
      exact ⟨digits_toDigits (n := 0), by decide, fun _ => rfl⟩
    · exact ⟨List.all_eq_true.mp hall, of_decide_eq_true hne, fun hzero => absurd hzero (of_decide_eq_true hhead)⟩
  exact toDigits_value hdigits.1 hdigits.2.1 hdigits.2.2

/-- The digits of a number that is not zero do not begin with a zero: without it they would be as many
    as their value needs. -/
theorem canonicalHeight_toDigits (n : ℕ) : canonicalHeight (Nat.toDigits 10 n) = true := by
  rcases Nat.eq_zero_or_pos n with rfl | hn
  · rfl
  · have hdigits : Digits (Nat.toDigits 10 n) := digits_toDigits
    have hvalue : value (Nat.toDigits 10 n) = n := value_toDigits
    have hlen : ∀ k, 0 < k → n < 10 ^ k → (Nat.toDigits 10 n).length ≤ k :=
      fun k hk hlt => (Nat.length_toDigits_le_iff (by decide) hk).mpr hlt
    have hne : Nat.toDigits 10 n ≠ [] := Nat.toDigits_ne_nil
    generalize Nat.toDigits 10 n = ds at hdigits hvalue hlen hne ⊢
    obtain ⟨c, ds, rfl⟩ := List.exists_cons_of_ne_nil hne
    have hhead : c ≠ '0' := by
      rintro rfl
      have hrest : value ds = n := by
        rw [← hvalue, value_cons, Nat.sub_self, Nat.mul_zero, Nat.zero_add]
      cases ds with
      | nil => exact absurd hrest.symm (Nat.pos_iff_ne_zero.mp hn)
      | cons d ds =>
        have hlt := value_lt (digits_cons.mp hdigits).2
        rw [hrest] at hlt
        have := hlen _ (Nat.succ_pos _) hlt
        simp at this
    rw [canonicalHeight, Bool.or_eq_true, Bool.and_eq_true, Bool.and_eq_true]
    refine .inr ⟨⟨by simp, ?_⟩, List.all_eq_true.mpr hdigits⟩
    simpa using hhead

theorem notMem_of_chainCode (h : chainCode s = true) : ':' ∉ s ∧ ',' ∉ s := by
  rw [chainCode, Bool.and_eq_true, List.all_eq_true] at h
  exact ⟨fun hmem => absurd (h.2 _ hmem) (by decide), fun hmem => absurd (h.2 _ hmem) (by decide)⟩

theorem notMem_digits {c : Char} (hc : c.isDigit = false) (n : ℕ) : c ∉ Nat.toDigits 10 n := by
  intro hmem
  rw [digits_toDigits c hmem] at hc
  cases hc

theorem value_height {v : Value} : v.height = some n ↔ v.spelling = some (Nat.toDigits 10 n) := by
  rw [Value.height, Option.map_eq_some_iff]
  constructor
  · rintro ⟨s, hs, rfl⟩
    obtain ⟨hs, hcanonical⟩ := Option.filter_eq_some_iff.mp hs
    rw [hs, toDigits_of_canonicalHeight hcanonical]
  · intro h
    exact ⟨_, Option.filter_eq_some_iff.mpr ⟨h, canonicalHeight_toDigits n⟩, value_toDigits⟩

theorem height_number (hn : n < 2 ^ 53) : (Value.number (some n)).height = some n := by
  have hsafe : safeInteger (some (n : ℚ)) = some (Int.ofNat n) := by
    rw [safeInteger, Option.filter_some, if_pos (by simpa using hn)]
    simp
  rw [value_height, Value.spelling, hsafe, Option.map_some, stringOf]

/-! ### Entries -/

theorem part_eq_ok {row : Text × Value} {p : Text} :
    part row = .ok p ↔ chainCode row.1 = true ∧ ∃ n, row.2.height = some n ∧ p = entry (row.1, n) := by
  rw [part]
  cases hcode : chainCode row.1 with
  | false => simp
  | true =>
    simp only [Bool.not_true, Bool.false_eq_true, if_false, true_and, Value.height]
    cases hs : row.2.spelling.filter canonicalHeight with
    | none => simp
    | some s =>
      have hdigits := toDigits_of_canonicalHeight (Option.filter_eq_some_iff.mp hs).2
      simp only [Except.ok.injEq, Option.map_some, Option.some.injEq, exists_eq_left', entry, hdigits]
      exact eq_comm

theorem groups_entry (he : chainCode e.1 = true) : groups (entry e) = some (e.1, Nat.toDigits 10 e.2) := by
  have hcode : ∀ c ∈ e.1, decide (c ≠ ':') = true := by
    intro c hc
    exact decide_eq_true fun h => (notMem_of_chainCode he).1 (h ▸ hc)
  have htake : (entry e).takeWhile (· ≠ ':') = e.1 := by
    rw [entry, List.takeWhile_append_of_pos hcode, List.takeWhile_cons_of_neg (by simp), List.append_nil]
  have hdrop : (entry e).dropWhile (· ≠ ':') = ':' :: Nat.toDigits 10 e.2 := by
    rw [entry, List.dropWhile_append_of_pos hcode, List.dropWhile_cons_of_neg (by simp)]
  rw [groups, hdrop, htake]
  simp only [he, canonicalHeight_toDigits, Bool.and_self, if_true]

theorem groups_eq_some {p : Text} (h : groups p = some (code, digits)) :
    chainCode code = true ∧ canonicalHeight digits = true ∧ p = entry (code, value digits) := by
  unfold groups at h
  split at h
  case h_1 => cases h
  case h_2 c rest hdrop =>
    split_ifs at h with hcond
    cases h
    obtain ⟨hcode, hdigits⟩ := Bool.and_eq_true_iff.mp hcond
    refine ⟨hcode, hdigits, ?_⟩
    have hcolon : c = ':' := by
      have hhead := List.head?_dropWhile_not (fun x : Char => decide (x ≠ ':')) p
      rw [hdrop] at hhead
      simpa using hhead
    subst hcolon
    show p = p.takeWhile (· ≠ ':') ++ ':' :: Nat.toDigits 10 (value digits)
    rw [toDigits_of_canonicalHeight hdigits, ← hdrop, List.takeWhile_append_dropWhile]

theorem entry_inj (he : chainCode e.1 = true) (he' : chainCode e'.1 = true) (h : entry e = entry e') : e = e' := by
  have hgroups := groups_entry he
  rw [h, groups_entry he'] at hgroups
  obtain ⟨hcode, hdigits⟩ := Prod.mk.inj (Option.some.inj hgroups)
  exact Prod.ext hcode.symm (by rw [← value_toDigits (n := e.2), ← hdigits, value_toDigits])

theorem splitOn_text (h : Canonical es) : (text es).splitOn ',' = es.map entry := by
  refine List.splitOn_intercalate ',' (fun p hp => ?_) (by simpa using h.nonempty)
  obtain ⟨e, he, rfl⟩ := List.mem_map.mp hp
  rw [entry, List.mem_append, List.mem_cons]
  rintro (hcode | hcolon | hdigits)
  · exact (notMem_of_chainCode (h.codes e he)).2 hcode
  · cases hcolon
  · exact notMem_digits rfl _ hdigits

/-- A text is of one list of heights. -/
theorem text_inj {es' : List (Text × ℕ)} (h : Canonical es) (h' : Canonical es') (htext : text es = text es') :
    es = es' := by
  have hmap : es.map entry = es'.map entry := by rw [← splitOn_text h, htext, splitOn_text h']
  refine List.ext_getElem (by simpa using congrArg List.length hmap) fun i hi hi' => ?_
  refine entry_inj (h.codes _ (List.getElem_mem hi)) (h'.codes _ (List.getElem_mem hi')) ?_
  have hentry := congrArg (fun ps => ps[i]?) hmap
  simpa [hi, hi'] using hentry

/-! ### The encoder -/

theorem encode_rows (m : AdmitMap) : encodeAdmitBlocks (some m) =
    if m.rows = [] then .error .empty else ((sorted m.rows).mapM part).map fun parts => [','].intercalate parts := rfl

/-- Rows that are accepted one by one are written as their heights. -/
theorem mapM_part_eq_ok {rows : List (Text × Value)} {parts : List Text} (h : rows.mapM part = .ok parts) :
    ∃ es : List (Text × ℕ), parts = es.map entry ∧ es.map Prod.fst = rows.map Prod.fst ∧
      (∀ e ∈ es, chainCode e.1 = true) ∧
      ∀ code n, (code, n) ∈ es ↔ ∃ v, (code, v) ∈ rows ∧ v.height = some n := by
  induction rows generalizing parts with
  | nil => exact ⟨[], by cases h; rfl, rfl, by simp, by simp⟩
  | cons row rows ih =>
    rw [List.mapM_cons] at h
    cases hpart : part row with
    | error r => rw [hpart] at h; cases h
    | ok p =>
      cases hrest : rows.mapM part with
      | error r => rw [hpart, hrest] at h; cases h
      | ok ps =>
        rw [hpart, hrest] at h
        cases h
        obtain ⟨es, rfl, hkeys, hcodes, hmem⟩ := ih hrest
        obtain ⟨hcode, height, hheight, rfl⟩ := part_eq_ok.mp hpart
        refine ⟨(row.1, height) :: es, rfl, by rw [List.map_cons, List.map_cons, hkeys],
          List.forall_mem_cons.mpr ⟨hcode, hcodes⟩, fun code n => ?_⟩
        simp only [List.mem_cons, hmem, or_and_right, exists_or, Prod.ext_iff]
        refine or_congr ⟨?_, ?_⟩ Iff.rfl
        · rintro ⟨hrow, rfl⟩
          exact ⟨row.2, ⟨hrow, rfl⟩, hheight⟩
        · rintro ⟨v, ⟨hrow, rfl⟩, hv⟩
          exact ⟨hrow, Option.some.inj (hv.symm.trans hheight)⟩

/-- An accepted map is written as its heights, in the order of their codes. -/
theorem encode_eq_ok (h : encodeAdmitBlocks (some m) = .ok s) :
    ∃ es, Canonical es ∧ s = text es ∧ ∀ code n, (code, n) ∈ es ↔ m.Names code n := by
  rw [encode_rows] at h
  split_ifs at h with hempty
  cases hparts : (sorted m.rows).mapM part with
  | error r => rw [hparts] at h; cases h
  | ok parts =>
    rw [hparts] at h
    cases h
    obtain ⟨es, rfl, hkeys, hcodes, hmem⟩ := mapM_part_eq_ok hparts
    have hperm : (sorted m.rows).Perm m.rows := List.perm_insertionSort _ _
    have hordered : es.Pairwise fun a b => a.1 < b.1 := by
      have hle : (es.map Prod.fst).Pairwise (· ≤ ·) := by
        rw [hkeys, List.pairwise_map]
        exact List.pairwise_insertionSort _ _
      have hnodup : (es.map Prod.fst).Nodup := hkeys ▸ (hperm.map Prod.fst).nodup_iff.mpr m.unique
      refine List.pairwise_map.mp ((hle.and hnodup).imp fun {a b} h => ?_)
      exact lt_of_le_of_ne h.1 h.2
    have hnonempty : es ≠ [] := by
      rintro rfl
      exact hempty (List.perm_nil.mp (List.map_eq_nil_iff.mp hkeys.symm ▸ hperm.symm))
    refine ⟨es, ⟨hnonempty, hcodes, hordered⟩, rfl, fun code n => (hmem code n).trans ?_⟩
    exact exists_congr fun v => and_congr_left fun _ => hperm.mem_iff

/-- Heights that are numbers are written as they are read. -/
theorem encode_numbers (hes : Canonical es) (hm : m.rows = es.map fun e => (e.1, .number (some (e.2 : ℚ))))
    (hlt : ∀ e ∈ es, e.2 < 2 ^ 53) : encodeAdmitBlocks (some m) = .ok (text es) := by
  have hsorted : sorted m.rows = m.rows := by
    refine List.Pairwise.insertionSort_eq ?_
    rw [hm, List.pairwise_map]
    exact hes.ordered.imp fun h => le_of_lt h
  have hparts : ∀ es : List (Text × ℕ), (∀ e ∈ es, chainCode e.1 = true ∧ e.2 < 2 ^ 53) →
      (es.map fun e => (e.1, Value.number (some (e.2 : ℚ)))).mapM part = .ok (es.map entry) := by
    intro es h
    induction es with
    | nil => rfl
    | cons e es ih =>
      obtain ⟨⟨hcode, hlt⟩, hrest⟩ := List.forall_mem_cons.mp h
      have hpart : part (e.1, Value.number (some (e.2 : ℚ))) = .ok (entry e) :=
        part_eq_ok.mpr ⟨hcode, e.2, height_number hlt, rfl⟩
      rw [List.map_cons, List.mapM_cons, hpart, ih hrest]
      rfl
  rw [encode_rows, if_neg (by simpa [hm] using hes.nonempty), hsorted, hm,
    hparts es fun e he => ⟨hes.codes e he, hlt e he⟩]
  rfl

/-! ### The decoder -/

theorem decodeParts_entries (hcodes : ∀ e ∈ es, chainCode e.1 = true) (hordered : es.Pairwise fun a b => a.1 < b.1)
    (prev : Option Text) (hprev : ∀ p ∈ prev, ∀ e ∈ es, p < e.1) :
    decodeParts (es.map entry) prev = if ∀ e ∈ es, e.2 < 2 ^ 53 then some es else none := by
  induction es generalizing prev with
  | nil => rfl
  | cons e es ih =>
    obtain ⟨hlt, hordered⟩ := List.pairwise_cons.mp hordered
    have hrest := ih (fun e he => hcodes e (List.mem_cons_of_mem _ he)) hordered (some e.1)
      (fun p hp e' he' => Option.some.inj hp ▸ hlt e' he')
    have hfollows : ¬ (prev.any fun prev => !decide (prev < e.1)) = true := by
      rw [Option.any_eq_true]
      rintro ⟨p, hp, hnot⟩
      simp [hprev p hp e List.mem_cons_self] at hnot
    rw [List.map_cons, decodeParts, groups_entry (hcodes e List.mem_cons_self)]
    simp only [if_neg hfollows, value_toDigits, hrest, List.forall_mem_cons]
    by_cases hbig : 2 ^ 53 ≤ e.2
    · rw [if_pos hbig, if_neg fun h => absurd hbig (Nat.not_le.mpr h.1)]
    · rw [if_neg hbig]
      by_cases hall : ∀ e ∈ es, e.2 < 2 ^ 53
      · rw [if_pos hall, if_pos ⟨Nat.not_le.mp hbig, hall⟩]
        rfl
      · rw [if_neg hall, if_neg fun h => hall h.2]
        rfl

theorem decodeParts_eq_some {parts : List Text} {prev : Option Text} (h : decodeParts parts prev = some es) :
    parts = es.map entry ∧ (∀ e ∈ es, chainCode e.1 = true ∧ e.2 < 2 ^ 53) ∧ (∀ p ∈ prev, ∀ e ∈ es, p < e.1) ∧
      es.Pairwise fun a b => a.1 < b.1 := by
  induction parts generalizing es prev with
  | nil =>
    cases h
    simp
  | cons p parts ih =>
    rw [decodeParts] at h
    split at h
    case h_1 => cases h
    case h_2 code digits hgroups =>
      split_ifs at h with hprev hbig
      obtain ⟨rest, hrest, rfl⟩ := Option.map_eq_some_iff.mp h
      obtain ⟨hparts, hok, hafter, hordered⟩ := ih hrest
      obtain ⟨hcode, -, hp⟩ := groups_eq_some hgroups
      have hafter := hafter code rfl
      refine ⟨by rw [hp, hparts, List.map_cons], ?_, fun q hq e he => ?_, List.pairwise_cons.mpr ⟨hafter, hordered⟩⟩
      · exact List.forall_mem_cons.mpr ⟨⟨hcode, Nat.not_le.mp hbig⟩, hok⟩
      · have hlt : q < code := by
          by_contra hnot
          refine hprev ?_
          rw [Option.any_eq_true]
          exact ⟨q, hq, by simpa using hnot⟩
        rcases List.mem_cons.mp he with rfl | he
        · exact hlt
        · exact lt_trans hlt (hafter e he)

/-- The decoder reads the encodings whose heights a number holds, and nothing else. -/
theorem decode_eq_some_iff : decodeAdmitBlocks s = some es ↔ Canonical es ∧ s = text es ∧ ∀ e ∈ es, e.2 < 2 ^ 53 := by
  rw [decodeAdmitBlocks]
  constructor
  · intro h
    split_ifs at h with hempty
    obtain ⟨hparts, hok, -, hordered⟩ := decodeParts_eq_some h
    refine ⟨⟨?_, fun e he => (hok e he).1, hordered⟩, ?_, fun e he => (hok e he).2⟩
    · rintro rfl
      exact List.splitOn_ne_nil _ _ hparts
    · rw [text, ← hparts, List.intercalate_splitOn]
  · rintro ⟨hes, rfl, hlt⟩
    have hne : text es ≠ [] := by
      intro hnil
      have hsplit := splitOn_text hes
      rw [hnil, List.splitOn_nil] at hsplit
      obtain ⟨e, he⟩ := List.exists_mem_of_ne_nil es hes.nonempty
      have hmem : entry e ∈ [([] : Text)] := hsplit ▸ List.mem_map_of_mem he
      simp [entry] at hmem
    rw [if_neg hne, splitOn_text hes, decodeParts_entries hes.codes hes.ordered none (by simp), if_pos hlt]

/-! ### The codec -/

/-- An accepted map is decoded from its encoding exactly if a number holds each of its heights. What is
    decoded is encoded again as it was, and maps of one encoding have the same heights. -/
theorem admit_codec (m : AdmitMap) (s : Text) :
    (encodeAdmitBlocks (some m) = .ok s →
      ((∃ es, decodeAdmitBlocks s = some es ∧ ∀ code n, (code, n) ∈ es ↔ m.Names code n) ↔
        ∀ code n, m.Names code n → n < 2 ^ 53)) ∧
    (∀ es : List (Text × ℕ), decodeAdmitBlocks s = some es →
      ∃ m : AdmitMap, (m.rows = es.map fun e => (e.1, .number (some (e.2 : ℚ)))) ∧
        encodeAdmitBlocks (some m) = .ok s) ∧
    (∀ m' : AdmitMap, encodeAdmitBlocks (some m) = .ok s → encodeAdmitBlocks (some m') = .ok s →
      ∀ code n, m.Names code n ↔ m'.Names code n) := by
  refine ⟨fun h => ?_, fun es h => ?_, fun m' h h' code n => ?_⟩
  · obtain ⟨es, hes, rfl, hnames⟩ := encode_eq_ok h
    constructor
    · rintro ⟨es', hdecode, hnames'⟩ code n hn
      exact (decode_eq_some_iff.mp hdecode).2.2 _ ((hnames' code n).mpr hn)
    · intro hlt
      exact ⟨es, decode_eq_some_iff.mpr ⟨hes, rfl, fun e he => hlt e.1 e.2 ((hnames e.1 e.2).mp he)⟩, hnames⟩
  · obtain ⟨hes, rfl, hlt⟩ := decode_eq_some_iff.mp h
    have hunique : ((es.map fun e => (e.1, Value.number (some (e.2 : ℚ)))).map Prod.fst).Nodup := by
      rw [List.map_map]
      refine List.pairwise_map.mpr (hes.ordered.imp fun {a b} h => ?_)
      exact fun heq : a.1 = b.1 => lt_irrefl _ (heq ▸ h)
    exact ⟨⟨_, hunique⟩, rfl, encode_numbers hes rfl hlt⟩
  · obtain ⟨es, hes, hs, hnames⟩ := encode_eq_ok h
    obtain ⟨es', hes', hs', hnames'⟩ := encode_eq_ok h'
    rw [← hnames, ← hnames', text_inj hes hes' (hs.symm.trans hs')]

/-- Two chains out of order, with a height of each kind. -/
def twoChains : AdmitMap where
  rows := [("DOGE".toList, .string "5000000".toList), ("BTC".toList, .number (some 900000))]
  unique := by decide

theorem twoChains_decoded :
    ∃ es, decodeAdmitBlocks "BTC:900000,DOGE:5000000".toList = some es ∧
      ∀ code n, (code, n) ∈ es ↔ twoChains.Names code n := by
  refine ((admit_codec twoChains _).1 rfl).mpr ?_
  rintro code n ⟨v, hv, hn⟩
  have hstring : (Value.string "5000000".toList).height = some 5000000 := by decide
  have hnumber : (Value.number (some 900000)).height = some 900000 := height_number (n := 900000) (by decide)
  simp only [twoChains, List.mem_cons, Prod.mk.injEq, List.not_mem_nil, or_false] at hv
  rcases hv with ⟨-, rfl⟩ | ⟨-, rfl⟩
  · rw [← Option.some.inj (hstring.symm.trans hn)]
    decide
  · rw [← Option.some.inj (hnumber.symm.trans hn)]
    decide

/-- The height after the last safe integer, as digits. -/
def tallMap : AdmitMap where
  rows := [("BTC".toList, .string "9007199254740993".toList)]
  unique := by decide

theorem tall_refused :
    encodeAdmitBlocks (some tallMap) = .ok "BTC:9007199254740993".toList ∧
      decodeAdmitBlocks "BTC:9007199254740993".toList = none :=
  ⟨rfl, by decide⟩

end AdmissionGate
