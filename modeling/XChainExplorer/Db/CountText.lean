import XChainExplorer.Db.CountSql
import Mathlib.Data.List.Forall2

/-! # Reading a count back

    The text of a count that is put together again is read as what it was put together from: its expression, its
    table and its `WHERE` as they were, and the joins that were kept. -/

namespace CountJoins

open Scanning

/-! ### The joins -/

section joins
variable {depth : ℕ} {quote : Option Char} {s a r w : List Char} {as : List (List Char)} {j : Join} {k : Kind}

/-- The parenthesis that closes a text closes it in front of any other rest. -/
theorem closingParen_eq (h : closingParen depth quote s = some (a, r)) :
    s = a ++ ')' :: r ∧ ∀ r', closingParen depth quote (a ++ ')' :: r') = some (a, r') := by
  induction s generalizing depth quote a with
  | nil => cases depth <;> cases quote <;> cases h
  | cons c s ih =>
    have hnext {depth' quote'} (hmap : (closingParen depth' quote' s).map (fun x => (c :: x.1, x.2)) = some (a, r)) :
        ∃ a', a = c :: a' ∧ s = a' ++ ')' :: r ∧
          ∀ r', closingParen depth' quote' (a' ++ ')' :: r') = some (a', r') := by
      obtain ⟨⟨a', r''⟩, ha, hx⟩ := Option.map_eq_some_iff.mp hmap
      obtain ⟨rfl, rfl⟩ : c :: a' = a ∧ r'' = r := by simpa using hx
      exact ⟨a', rfl, (ih ha).1, (ih ha).2⟩
    cases quote with
    | some q =>
      rw [closingParen] at h
      obtain ⟨a', rfl, rfl, hagain⟩ := hnext h
      refine ⟨rfl, fun r' => ?_⟩
      rw [List.cons_append, closingParen, hagain, Option.map_some]
    | none =>
      rw [closingParen] at h
      split_ifs at h with hquote hopen hclose hdepth
      · obtain ⟨a', rfl, rfl, hagain⟩ := hnext h
        refine ⟨rfl, fun r' => ?_⟩
        rw [List.cons_append, closingParen, if_pos hquote, hagain, Option.map_some]
      · obtain ⟨a', rfl, rfl, hagain⟩ := hnext h
        refine ⟨rfl, fun r' => ?_⟩
        rw [List.cons_append, closingParen, if_neg hquote, if_pos hopen, hagain, Option.map_some]
      · obtain ⟨rfl, rfl⟩ : [] = a ∧ s = r := by simpa using h
        refine ⟨by rw [hclose]; rfl, fun r' => ?_⟩
        rw [List.nil_append, closingParen, if_neg (by decide), if_neg (by decide), if_pos rfl, if_pos hdepth]
      · obtain ⟨a', rfl, rfl, hagain⟩ := hnext h
        refine ⟨rfl, fun r' => ?_⟩
        rw [List.cons_append, closingParen, if_neg hquote, if_neg hopen, if_pos hclose, if_neg hdepth, hagain,
          Option.map_some]
      · obtain ⟨a', rfl, rfl, hagain⟩ := hnext h
        refine ⟨rfl, fun r' => ?_⟩
        rw [List.cons_append, closingParen, if_neg hquote, if_neg hopen, if_neg hclose, hagain, Option.map_some]

theorem not_isSpace_of_letter {l c : Char} (hl : l ∈ ['I', 'L', 'W', 'c']) (h : sameLetter l c = true) :
    isSpace c = false := by
  have hspaces : ∀ c ∈ SPACES, ['I', 'L', 'W', 'c'].all (fun l => !sameLetter l c) = true :=
    List.all_eq_true.mp (by decide)
  by_contra hspace
  have hmem : c ∈ SPACES := of_decide_eq_true (eq_true_of_ne_false hspace)
  have hno := List.all_eq_true.mp (hspaces c hmem) l hl
  rw [h] at hno
  cases hno

/-- A word begins with its first letter. -/
theorem word_eq {w : String} {l : Char} {ls : List Char} (hw : w.toList = l :: ls) (h : (word w).scan s = some (a, r)) :
    ∃ c a', a = c :: a' ∧ sameLetter l c = true := by
  rw [word, hw, List.map_cons] at h
  cases s with
  | nil => cases h
  | cons c s =>
    rw [Piece.scan, takeWord] at h
    split_ifs at h with hc
    obtain ⟨⟨a', r'⟩, -, hx⟩ := Option.map_eq_some_iff.mp h
    obtain ⟨rfl, -⟩ : c :: a' = a ∧ r' = r := by simpa using hx
    exact ⟨c, a', rfl, hc⟩

theorem word_none_of_letter {w : String} {l l' c : Char} {ls : List Char} (hw : w.toList = l :: ls)
    (hc : sameLetter l' c = true) (hne : l.toLower ≠ l'.toLower) (s : List Char) : (word w).scan (c :: s) = none := by
  have hl : sameLetter l c = false := decide_eq_false fun h => hne (h.trans (of_decide_eq_true hc).symm)
  rw [word, hw, List.map_cons, Piece.scan, takeWord, hl, if_neg Bool.false_ne_true]

theorem joinKind_eq (h : joinKind s = some (k, w, r)) :
    s = w ++ r ∧ (∀ r', joinKind (w ++ r') = some (k, w, r')) ∧ ∃ c w', w = c :: w' ∧ isSpace c = false := by
  rw [joinKind] at h
  cases hinner : (word "INNER").scan s with
  | some x =>
    rw [hinner] at h
    obtain ⟨w₀, r₀⟩ := x
    obtain ⟨rfl, rfl, rfl⟩ : .INNER = k ∧ w₀ = w ∧ r₀ = r := by simpa using h
    obtain ⟨c, w', hw, hc⟩ := word_eq (l := 'I') rfl hinner
    refine ⟨Piece.scan_eq hinner, fun r' => ?_, c, w', hw, not_isSpace_of_letter (by simp) hc⟩
    rw [joinKind, Piece.scan_again hinner trivial, Option.map_some, Option.some_or]
  | none =>
    rw [hinner, Option.map_none, Option.none_or] at h
    obtain ⟨⟨w₀, r₀⟩, hleft, hx⟩ := Option.map_eq_some_iff.mp h
    obtain ⟨rfl, rfl, rfl⟩ : .LEFT = k ∧ w₀ = w ∧ r₀ = r := by simpa using hx
    obtain ⟨c, w', rfl, hc⟩ := word_eq (l := 'L') rfl hleft
    refine ⟨Piece.scan_eq hleft, fun r' => ?_, c, w', rfl, not_isSpace_of_letter (by simp) hc⟩
    -- what begins like LEFT does not begin like INNER
    have hother : (word "INNER").scan (c :: w' ++ r') = none :=
      word_none_of_letter (l := 'I') rfl hc (by decide) _
    rw [joinKind, hother, Option.map_none, Option.none_or, Piece.scan_again hleft trivial, Option.map_some]

theorem joinHead_eq {pieces : List (List Char)} {head inside : List Char}
    (h : joinHead s = some (k, pieces, head, inside)) :
    s = head ++ inside ∧ (∀ r', joinHead (head ++ r') = some (k, pieces, head, r')) ∧
      ∃ c head', head = c :: head' ∧ isSpace c = false := by
  obtain ⟨⟨k', w, t⟩, hkind, hrest⟩ := Option.bind_eq_some_iff.mp h
  obtain ⟨⟨as, i⟩, hscan, hx⟩ := Option.map_eq_some_iff.mp hrest
  obtain ⟨rfl, rfl, rfl, rfl⟩ : k' = k ∧ as = pieces ∧ w ++ as.flatten = head ∧ i = inside := by simpa using hx
  obtain ⟨rfl, hagain, c, w', rfl, hc⟩ := joinKind_eq hkind
  have hlast {r'} : scan JOIN_BACK (as.flatten ++ r') = some (as, r') :=
    scan_again hscan (by rintro _ ⟨⟩; rfl) (by rintro _ ⟨⟩; trivial)
  refine ⟨?_, fun r' => ?_, c, w' ++ as.flatten, rfl, hc⟩
  · rw [show t = _ from scan_eq hscan, List.append_assoc]
  · rw [joinHead, List.append_assoc, hagain, Option.bind_some, hlast, Option.map_some]

/-- A join is read again in front of any other rest. -/
structure Join.Reads (j : Join) : Prop where
  again : ∀ r, nextJoin (j.text ++ r) = some (some (j, r))
  starts : ∃ c t, j.text = c :: t ∧ isSpace c = false

theorem nextJoin_eq (h : nextJoin s = some (some (j, r))) : s = j.text ++ r ∧ j.Reads := by
  obtain ⟨⟨k, pieces, head, inside⟩, hhead, hrest⟩ := Option.map_eq_some_iff.mp h
  obtain ⟨⟨on, rest⟩, hclose, hx⟩ := Option.map_eq_some_iff.mp hrest
  obtain ⟨rfl, rfl⟩ := Prod.mk.inj hx
  obtain ⟨rfl, hagain, c, head', rfl, hc⟩ := joinHead_eq hhead
  obtain ⟨rfl, hclosed⟩ := closingParen_eq hclose
  refine ⟨by simp, fun r' => ?_, c, head' ++ on ++ [')'], by simp, hc⟩
  have htext : c :: head' ++ on ++ [')'] ++ r' = c :: head' ++ (on ++ ')' :: r') := by simp
  rw [nextJoin]
  dsimp only
  rw [htext, hagain, Option.map_some]
  change some ((closingParen 0 none (on ++ ')' :: r')).map _) = _
  rw [hclosed, Option.map_some]

theorem parseJoins_reads {fuel : ℕ} {joins : List Join} (h : parseJoins fuel s = some (joins, r)) :
    ∀ j ∈ joins, j.Reads := by
  induction fuel generalizing s joins with
  | zero =>
    obtain ⟨rfl, -⟩ : [] = joins ∧ s = r := by simpa [parseJoins] using h
    exact fun _ hj => nomatch hj
  | succ fuel ih =>
    rw [parseJoins] at h
    split at h
    · obtain ⟨rfl, -⟩ : [] = joins ∧ s = r := by simpa using h
      exact fun _ hj => nomatch hj
    · cases h
    · rename_i j rest hnext
      obtain ⟨⟨joins', r'⟩, hrest, hx⟩ := Option.map_eq_some_iff.mp h
      obtain ⟨rfl, rfl⟩ : j :: joins' = joins ∧ r' = r := by simpa using hx
      intro k hk
      rcases List.mem_cons.mp hk with rfl | hk
      · exact (nextJoin_eq hnext).2
      · exact ih hrest k hk

end joins

/-! ### The head -/

section head
variable {s r r' : List Char} {as : List (List Char)}

theorem countExpression_eq (h : countExpression s = some (as, r)) :
    s = as.flatten ++ r ∧ (∀ r', countExpression (as.flatten ++ r') = some (as, r')) ∧
      ∃ c t, as.flatten = c :: t ∧ isSpace c = false := by
  have hstart {w : String} {ls : List Char} {ps : List (Piece Char)} (hw : w.toList = 'c' :: ls)
      (hscan : scan (word w :: ps) s = some (as, r)) : ∃ c t, as.flatten = c :: t ∧ isSpace c = false := by
    obtain ⟨a, as', t, rfl, ha, -⟩ := scan_cons_eq_some hscan
    obtain ⟨c, a', rfl, hc⟩ := word_eq hw ha
    exact ⟨c, a' ++ as'.flatten, rfl, not_isSpace_of_letter (by simp) hc⟩
  rw [countExpression] at h
  cases hall : scan COUNT_ALL s with
  | some x =>
    rw [hall, Option.some_or] at h
    cases h
    refine ⟨scan_eq hall, fun r' => ?_, hstart rfl hall⟩
    rw [countExpression, scan_again hall (by rintro _ ⟨⟩; rfl) (by rintro _ ⟨⟩; trivial), Option.some_or]
  | none =>
    rw [hall, Option.none_or] at h
    have hs := scan_eq h
    refine ⟨hs, fun r' => ?_, hstart rfl h⟩
    -- `count(*)` is shorter than what was taken
    have hlen : 8 ≤ as.flatten.length := by
      obtain ⟨a, as, ha, hrest, rfl⟩ := List.forall₂_cons_left_iff.mp (took_of_scan h)
      obtain ⟨b, bs, hb, -, rfl⟩ := List.forall₂_cons_left_iff.mp hrest
      have ha : a.length = 6 := ha
      have hb : b.length = 8 := hb
      rw [List.flatten_cons, List.flatten_cons, List.length_append, List.length_append]
      omega
    have hother : scan COUNT_ALL (as.flatten ++ r') = none := by
      have hnone : takeWord ("count(*)".toList.map sameLetter) (as.flatten ++ r) = none := by
        rw [hs] at hall
        change (takeWord _ _).bind _ = none at hall
        cases hword : takeWord ("count(*)".toList.map sameLetter) (as.flatten ++ r) with
        | none => rfl
        | some x => rw [hword] at hall; cases hall
      change (takeWord ("count(*)".toList.map sameLetter) (as.flatten ++ r')).bind _ = none
      rw [takeWord_eq_none hnone hlen, Option.bind_none]
    rw [countExpression, hother, Option.none_or, scan_again h (by rintro _ ⟨⟩; rfl) (by rintro _ ⟨⟩; trivial)]

/-- The words of the text that is put together are read as they stand. -/
theorem scan_word (w : String) (r : List Char) : (word w).scan (w.toList ++ r) = some (w.toList, r) := by
  have hword (l : List Char) : takeWord (l.map sameLetter) (l ++ r) = some (l, r) := by
    induction l with
    | nil => rfl
    | cons c l ih =>
      have hc : sameLetter c c = true := decide_eq_true rfl
      rw [List.map_cons, List.cons_append, takeWord, if_pos hc, ih, Option.map_some]
  exact hword w.toList

theorem space_isSpace : ∀ c ∈ [' '], isSpace c = true :=
  fun _ hc => by rw [List.mem_singleton.mp hc]; rfl

theorem scan_space (h : ∀ c ∈ r.head?, isSpace c = false) : (Piece.run isSpace).scan (' ' :: r) = some ([' '], r) :=
  scan_run (a := [' ']) ⟨List.cons_ne_nil _ _, space_isSpace⟩ h

theorem not_isSpace_of_isTable {c : Char} (h : isTable c = true) : isSpace c = false := by
  have hspaces : ∀ c ∈ SPACES, (!isTable c) = true := List.all_eq_true.mp (by decide)
  by_contra hspace
  have hmem : c ∈ SPACES := of_decide_eq_true (eq_true_of_ne_false hspace)
  have hno := hspaces c hmem
  rw [h] at hno
  cases hno

theorem head_of_took {q : Char → Bool} {a : List Char} (ha : (Piece.run q).Took a) (r : List Char) :
    ∀ c ∈ (a ++ r).head?, q c = true := by
  intro c hc
  rw [List.head?_append_of_ne_nil _ ha.1] at hc
  exact ha.2 c (List.mem_of_mem_head? hc)

theorem scan_headFront (hr : ∀ c ∈ r.head?, isSpace c = false) :
    scan HEAD_FRONT ("SELECT".toList ++ ' ' :: r) = some ([[], "SELECT".toList, [' ']], r) :=
  scan_cons_of_some (t := "SELECT".toList ++ ' ' :: r) rfl
    (scan_cons_of_some (scan_word "SELECT" _) (scan_cons_of_some (scan_space hr) rfl))

theorem scan_headBack {table alias' : List Char} (htable : (Piece.run isTable).Took table)
    (halias : (Piece.run isWord).Took alias') (hr : ∀ c ∈ r.head?, isSpace c = false) :
    scan HEAD_BACK (' ' :: ("as".toList ++ ' ' :: ("total".toList ++ ' ' :: ("FROM".toList ++
        ' ' :: (table ++ ' ' :: (alias' ++ ' ' :: r)))))) =
      some ([[' '], "as".toList, [' '], "total".toList, [' '], "FROM".toList, [' '], table, [' '], alias', [' ']], r) := by
  have hword (c : Char) (hc : isWord c = true) : isSpace c = false :=
    not_isSpace_of_isTable (by rw [isTable, hc]; rfl)
  refine scan_cons_of_some (scan_space (by rintro _ ⟨⟩; decide)) ?_
  refine scan_cons_of_some (scan_word "as" _) ?_
  refine scan_cons_of_some (scan_space (by rintro _ ⟨⟩; decide)) ?_
  refine scan_cons_of_some (scan_word "total" _) ?_
  refine scan_cons_of_some (scan_space (by rintro _ ⟨⟩; decide)) ?_
  refine scan_cons_of_some (scan_word "FROM" _) ?_
  refine scan_cons_of_some (scan_space fun c hc => not_isSpace_of_isTable (head_of_took htable _ c hc)) ?_
  refine scan_cons_of_some (scan_run htable (by rintro _ ⟨⟩; decide)) ?_
  refine scan_cons_of_some (scan_space fun c hc => hword c (head_of_took halias _ c hc)) ?_
  refine scan_cons_of_some (scan_run halias (by rintro _ ⟨⟩; decide)) ?_
  exact scan_cons_of_some (scan_space hr) rfl

end head

/-! ### The whole text -/

section text
variable {sql w : List Char} {p : CountSql} {joins kept : List Join}

/-- The joins and the `WHERE` behind them. -/
def joinsText (w : List Char) (joins : List Join) : List Char := joins.foldr (fun j t => j.text ++ ' ' :: t) w

theorem starts_of_startsWhere (hw : startsWhere w = true) : ∃ c t, w = c :: t ∧ sameLetter 'W' c = true := by
  obtain ⟨⟨a, r⟩, hx, -⟩ := (Option.any_eq_true _ _).mp hw
  obtain ⟨c, a', rfl, hc⟩ := word_eq (l := 'W') rfl hx
  exact ⟨c, a' ++ r, Piece.scan_eq hx, hc⟩

theorem joinsText_starts (hreads : ∀ j ∈ joins, j.Reads) (hw : startsWhere w = true) :
    ∀ c ∈ (joinsText w joins).head?, isSpace c = false := by
  cases joins with
  | nil =>
    obtain ⟨c, t, rfl, hc⟩ := starts_of_startsWhere hw
    rintro _ ⟨⟩
    exact not_isSpace_of_letter (by simp) hc
  | cons j joins =>
    obtain ⟨c, t, htext, hc⟩ := (hreads j List.mem_cons_self).starts
    rw [joinsText, List.foldr_cons, htext]
    rintro _ ⟨⟩
    exact hc

theorem nextJoin_where (hw : startsWhere w = true) : nextJoin w = none := by
  obtain ⟨c, t, rfl, hc⟩ := starts_of_startsWhere hw
  have hkind : joinKind (c :: t) = none := by
    rw [joinKind, word_none_of_letter (l := 'I') rfl hc (by decide), word_none_of_letter (l := 'L') rfl hc (by decide)]
    rfl
  rw [nextJoin, joinHead, hkind]
  rfl

theorem parseJoins_text (hreads : ∀ j ∈ joins, j.Reads) (hw : startsWhere w = true) {fuel : ℕ}
    (hfuel : (joinsText w joins).length ≤ fuel) : parseJoins fuel (joinsText w joins) = some (joins, w) := by
  induction joins generalizing fuel with
  | nil =>
    cases fuel with
    | zero => rfl
    | succ fuel =>
      change parseJoins (fuel + 1) w = _
      rw [parseJoins, nextJoin_where hw]
  | cons j joins ih =>
    have hrest : ∀ k ∈ joins, k.Reads := fun k hk => hreads k (List.mem_cons_of_mem _ hk)
    have htext : joinsText w (j :: joins) = j.text ++ ' ' :: joinsText w joins := rfl
    rw [htext] at hfuel ⊢
    rw [List.length_append, List.length_cons] at hfuel
    obtain ⟨fuel, rfl⟩ : ∃ n, fuel = n + 1 := ⟨fuel - 1, by omega⟩
    have hdrop : (' ' :: joinsText w joins).dropWhile isSpace = joinsText w joins := by
      obtain ⟨-, hdrop⟩ := takeWhile_append_of_stops (q := isSpace) (a := [' ']) space_isSpace
        (joinsText_starts hrest hw)
      exact hdrop
    rw [parseJoins, (hreads j List.mem_cons_self).again]
    dsimp only
    rw [hdrop, ih hrest (by omega), Option.map_some]

/-- What a count that was read is made of. -/
structure CountSql.Read (p : CountSql) : Prop where
  select : ∃ as, as.flatten = p.select ∧ ∀ r, countExpression (p.select ++ r) = some (as, r)
  starts : ∃ c t, p.select = c :: t ∧ isSpace c = false
  table : (Piece.run isTable).Took p.table
  alias' : (Piece.run isWord).Took p.alias'
  joins : ∀ j ∈ p.joins, j.Reads
  where' : startsWhere p.where' = true

theorem parseCountSql_eq_some : parseCountSql sql = some p ↔ ∃ front s, scan HEAD_FRONT sql = some (front, s) ∧
    ∃ select s', countExpression s = some (select, s') ∧ ∃ head t, scan HEAD_BACK s' = some (head, t) ∧
      ∃ joins w, parseJoins t.length t = some (joins, w) ∧ startsWhere w = true ∧
        p = { select := select.flatten, table := head.getD 7 [], alias' := head.getD 9 [], joins, where' := w } := by
  simp only [parseCountSql, Option.bind_eq_bind, Option.bind_eq_some_iff, Prod.exists]
  refine exists₂_congr fun front s => and_congr_right fun _ => exists₂_congr fun select s' => and_congr_right fun _ =>
    exists₂_congr fun head t => and_congr_right fun _ => exists₂_congr fun joins w => and_congr_right fun _ => ?_
  split_ifs with hw
  · rw [Option.some_inj, eq_comm, and_iff_right hw]
  · exact iff_of_false (fun h => nomatch h) fun h => hw h.1

theorem read_of_parse (h : parseCountSql sql = some p) : p.Read := by
  obtain ⟨front, s, -, select, s', hselect, head, t, hhead, joins, w, hjoins, hw, rfl⟩ := parseCountSql_eq_some.mp h
  have htook := took_of_scan hhead
  simp only [HEAD_BACK, List.forall₂_cons_left_iff, List.forall₂_nil_left_iff] at htook
  obtain ⟨a₀, l₀, -, ⟨a₁, l₁, -, ⟨a₂, l₂, -, ⟨a₃, l₃, -, ⟨a₄, l₄, -, ⟨a₅, l₅, -, ⟨a₆, l₆, -, ⟨table, l₇, htable,
    ⟨a₈, l₈, -, ⟨alias', l₉, halias, ⟨a₁₀, l₁₀, -, rfl, rfl⟩, rfl⟩, rfl⟩, rfl⟩, rfl⟩, rfl⟩, rfl⟩, rfl⟩, rfl⟩, rfl⟩,
    rfl⟩ := htook
  obtain ⟨-, hagain, hstart⟩ := countExpression_eq hselect
  exact ⟨⟨select, rfl, hagain⟩, hstart, htable, halias, parseJoins_reads hjoins, hw⟩

theorem render_joins (w : List Char) (kept : List Join) :
    (kept.flatMap fun j => ' ' :: j.text) ++ ' ' :: w = ' ' :: joinsText w kept := by
  induction kept with
  | nil => rfl
  | cons j kept ih =>
    rw [List.flatMap_cons, List.append_assoc, ih]
    rfl

theorem render_eq (p : CountSql) (kept : List Join) : p.render kept =
    "SELECT".toList ++ ' ' :: (p.select ++ ' ' :: ("as".toList ++ ' ' :: ("total".toList ++ ' ' :: ("FROM".toList ++
      ' ' :: (p.table ++ ' ' :: (p.alias' ++ ' ' :: joinsText p.where' kept)))))) := by
  have hselect : "SELECT ".toList = "SELECT".toList ++ [' '] := by decide +kernel
  have htotal : " as total FROM ".toList = ' ' :: ("as".toList ++ ' ' :: ("total".toList ++
      ' ' :: ("FROM".toList ++ [' ']))) := by decide +kernel
  have hjoins := render_joins p.where' kept
  unfold CountSql.render
  -- the words are only carried along
  generalize "SELECT ".toList = front, " as total FROM ".toList = back, "SELECT".toList = a, "as".toList = b,
    "total".toList = c, "FROM".toList = d at *
  subst hselect htotal
  simp only [List.append_assoc, List.cons_append, List.nil_append, hjoins]

/-- The text of a count that was read, with some of its joins, is read as what it is made of. -/
theorem parse_render (hread : p.Read) (hkept : kept ⊆ p.joins) :
    parseCountSql (p.render kept) = some { p with joins := kept } := by
  obtain ⟨as, has, hselect⟩ := hread.select
  have hreads : ∀ j ∈ kept, j.Reads := fun j hj => hread.joins j (hkept hj)
  have hstart : ∀ c ∈ (p.select ++ ' ' :: ("as".toList ++ ' ' :: ("total".toList ++ ' ' :: ("FROM".toList ++
      ' ' :: (p.table ++ ' ' :: (p.alias' ++ ' ' :: joinsText p.where' kept)))))).head?, isSpace c = false := by
    obtain ⟨c, t, hc, hspace⟩ := hread.starts
    rw [hc]
    rintro _ ⟨⟩
    exact hspace
  rw [render_eq, parseCountSql_eq_some]
  exact ⟨_, _, scan_headFront hstart, as, _, hselect _, _, _,
    scan_headBack hread.table hread.alias' (joinsText_starts hreads hread.where'), kept, p.where',
    parseJoins_text hreads hread.where' le_rfl, hread.where', by rw [has]; rfl⟩

end text

end CountJoins
