import XChainExplorer.Explorer.ListPaging

/-! # Paging forth and back

    A page that is opened by a row of the list shows the rows that belong on it unless the stop row
    cuts it short. It does so only where the statement that looks for the stop counts rows that the
    list does not show. -/

namespace QuerySql

section ordered
variable {s : Multiset ℕ} {order : SortOrder} {p : ℕ → Bool} {a b c : ℕ}

@[simp] theorem mem_ordered : c ∈ ordered s order ↔ c ∈ s := by
  cases order <;> exact Multiset.mem_sort _

@[simp] theorem coe_ordered : (ordered s order : Multiset ℕ) = s := by
  cases order <;> exact Multiset.sort_eq _ _

theorem length_ordered : (ordered s order).length = s.card := by
  cases order <;> exact Multiset.length_sort _

/-- Rows of one cursor stand side by side. -/
theorem ordered_sorted : (ordered s order).Pairwise fun a b => ¬ order.Later b a := by
  cases order with
  | asc => exact (Multiset.pairwise_sort s (· ≤ ·)).imp fun h => Nat.not_lt.mpr h
  | desc => exact (Multiset.pairwise_sort s (· ≥ ·)).imp fun h => Nat.not_lt.mpr h

/-- From the newest down, the first row is the greatest. -/
theorem le_head_ordered (ha : a ∈ (ordered s .desc).head?) (hb : b ∈ s) : b ≤ a := by
  obtain ⟨rest, hrest⟩ := List.head?_eq_some_iff.mp ha
  have hsorted : (ordered s .desc).Pairwise fun a b => ¬ SortOrder.desc.Later b a := ordered_sorted
  have hmem : b ∈ ordered s .desc := mem_ordered.mpr hb
  rw [hrest] at hsorted hmem
  rcases List.mem_cons.mp hmem with rfl | hmem
  · exact le_rfl
  · exact Nat.not_lt.mp ((List.pairwise_cons.mp hsorted).1 b hmem)

theorem later_of_not_later (h : ¬ order.Later b a) (hne : a ≠ b) : order.Later a b := by
  cases order with
  | asc => exact lt_of_le_of_ne (Nat.not_lt.mp h) hne
  | desc => exact lt_of_le_of_ne (Nat.not_lt.mp h) hne.symm

/-- A row is later than what a row not later than it is later than. -/
theorem later_of_not_later_later (h : ¬ order.Later b a) (hc : order.Later b c) : order.Later a c := by
  rcases eq_or_ne a b with rfl | hne
  · exact hc
  · exact order.later_trans _ _ _ (later_of_not_later h hne) hc

theorem later_of_later_not_later (h : order.Later a b) (hc : ¬ order.Later c b) : order.Later a c := by
  rcases eq_or_ne b c with rfl | hne
  · exact h
  · exact order.later_trans _ _ _ h (later_of_not_later hc hne)

/-- Rows of distinct cursors stand in strict order. -/
theorem ordered_pairwise (h : s.Nodup) : (ordered s order).Pairwise order.Later := by
  have hnodup : (ordered s order).Nodup := by rwa [← Multiset.coe_nodup, coe_ordered]
  exact (ordered_sorted.and hnodup).imp fun ⟨hab, hne⟩ => later_of_not_later hab hne

/-- A list in order is given by its rows. -/
theorem eq_ordered {rows : List ℕ} (h : rows.Pairwise fun a b => ¬ order.Later b a) (hrows : (rows : Multiset ℕ) = s) :
    rows = ordered s order := by
  have hperm : rows.Perm (ordered s order) := Multiset.coe_eq_coe.mp (hrows.trans coe_ordered.symm)
  refine hperm.eq_of_pairwise (fun a b _ _ hab hba => ?_) h ordered_sorted
  by_contra hne
  exact hba (later_of_not_later hab hne)

theorem ordered_filter : ordered (s.filter fun c => p c = true) order = (ordered s order).filter p := by
  refine (eq_ordered (ordered_sorted.filter p) ?_).symm
  calc (((ordered s order).filter p : List ℕ) : Multiset ℕ)
      = (ordered s order : Multiset ℕ).filter fun c => p c = true := by
        rw [Multiset.filter_coe]
        simp only [Bool.decide_eq_true]
    _ = s.filter fun c => p c = true := by rw [coe_ordered]

theorem ordered_asc : ordered s .asc = (ordered s .desc).reverse := by
  have h : (ordered s .desc).Pairwise fun a b => ¬ SortOrder.desc.Later b a := ordered_sorted
  refine (eq_ordered (List.pairwise_reverse.mpr (h.imp id)) ?_).symm
  rw [Multiset.coe_reverse, coe_ordered]

@[simp] theorem ordered_zero : ordered 0 order = [] := by
  cases order <;> exact Multiset.sort_zero _

end ordered

/-! ### One page -/

section page
variable {order : SortOrder} {b c n : ℕ}

/-- The stop of a page is the row one past it. -/
theorem getLast_take_succ {rows : List ℕ} : (if (rows.take (n + 1)).length = n + 1
    then (rows.take (n + 1)).getLast? else none) = rows[n]? := by
  rw [List.length_take]
  split_ifs with h
  · rw [List.getLast?_eq_getElem?, List.length_take, h, Nat.add_sub_cancel,
      List.getElem?_take_of_lt (Nat.lt_succ_self n)]
  · exact (List.getElem?_eq_none (by omega)).symm

/-- Cut before the row one past it, a page stays whole where no more than a page of the rows it is
    cut by comes up to its last row. -/
theorem page_whole_iff {beyond cuts : List ℕ} (hbeyond : beyond.Pairwise fun a b => ¬ order.Later b a)
    (hcuts : cuts.Pairwise fun a b => ¬ order.Later b a) :
    (beyond.filter fun c => cuts[n]?.all fun stop => order.Later c stop).take n = beyond.take n ↔
      ∀ b ∈ (beyond.take n).getLast?, (cuts.filter fun t => ¬ order.Later b t).length ≤ n := by
  rw [Cursor.take_filter_eq_take_iff hbeyond fun a b hab hstop => ?_]
  · refine forall₂_congr fun b _ => ?_
    rw [Cursor.length_filter_le_iff hcuts fun x y hxy hby => ?_, Option.all_eq_true]
    · refine forall₂_congr fun stop _ => ?_
      simp only [decide_eq_true_iff, not_not]
    · simp only [decide_eq_true_iff] at hby ⊢
      exact fun hbx => hby (later_of_later_not_later hbx hxy)
  · rw [Option.all_eq_true] at hstop ⊢
    exact fun stop hmem => decide_eq_true (later_of_not_later_later hab (of_decide_eq_true (hstop stop hmem)))

end page

namespace Listing
variable (l : Listing)

/-- The rows beyond a cursor, in an order. -/
def beyond (order : SortOrder) (c : ℕ) : List ℕ := ordered (l.rows.filter (order.Later c ·)) order

/-- The rows beyond a cursor that a page may be cut by. -/
def cuts (order : SortOrder) (c : ℕ) : Multiset ℕ :=
  if l.method = .getBlocks ∨ l.method = .getHistory then 0
  else l.stops.filter fun t => 0 < t ∧ order.Later c t

def firstPage (length : ℕ) : PageQuery := { action := .first, length }

def lastPage (length : ℕ) : PageQuery := { action := .last, length }

/-- The page that goes on from a row, with the position the client has come to. -/
def nextPage (length start c : ℕ) : PageQuery :=
  { action := .next, offset := some c, start, length }

def prevPage (length start c : ℕ) : PageQuery :=
  { action := .prev, offset := some c, start, length }

variable {l} {order : SortOrder} {length start c : ℕ}

theorem stop_desc (hmethod : ¬ (l.method = .getBlocks ∨ l.method = .getHistory)) {action : PageAction}
    (haction : action ≠ .prev) : (l.stopOffset action length c).filter (· ≠ 0) =
      (ordered (l.cuts .desc c) .desc)[length]? := by
  have hstop : l.stopOffset action length c = (ordered (l.stops.filter (· < c)) .desc)[length]? := by
    cases action with
    | prev => exact absurd rfl haction
    | first | last | next => exact getLast_take_succ
  have hcuts : l.cuts .desc c = (l.stops.filter (· < c)).filter fun t => decide (t ≠ 0) = true := by
    rw [cuts, if_neg hmethod, Multiset.filter_filter]
    refine Multiset.filter_congr fun t _ => ?_
    simp only [SortOrder.Later, decide_eq_true_iff, Nat.pos_iff_ne_zero, and_comm, gt_iff_lt]
  rw [hstop, hcuts, ordered_filter, Cursor.getElem?_filter ordered_sorted fun a b hab hb => ?_]
  have hab : b ≤ a := Nat.not_lt.mp hab
  simp only [decide_eq_true_iff] at hb ⊢
  omega

theorem stop_asc (hmethod : ¬ (l.method = .getBlocks ∨ l.method = .getHistory)) :
    (l.stopOffset .prev length c).filter (· ≠ 0) = (ordered (l.cuts .asc c) .asc)[length]? := by
  have hstop : l.stopOffset .prev length c = (ordered (l.stops.filter (c < ·)) .asc)[length]? :=
    getLast_take_succ
  have hcuts : l.cuts .asc c = l.stops.filter (c < ·) := by
    rw [cuts, if_neg hmethod]
    refine Multiset.filter_congr fun t _ => ?_
    simp only [SortOrder.Later]
    omega
  rw [hstop, hcuts]
  cases ht : (ordered (l.stops.filter (c < ·)) .asc)[length]? with
  | none => rfl
  | some t =>
    have hlt := (Multiset.mem_filter.mp (mem_ordered.mp (List.mem_of_getElem? ht))).2
    rw [Option.filter_some, if_pos (decide_eq_true (Nat.ne_zero_of_lt hlt))]

/-- The order a page is read in. -/
def walkOrder : PageAction → SortOrder
  | .prev | .last => .asc
  | .first | .next => .desc

/-- A page that goes on from a cursor reads the rows beyond it, up to the row it is cut by. -/
theorem offsetSql_eq {action : PageAction} (haction : action ≠ .last)
    (hzero : action = .first → c ≠ 0) (r : ℕ) :
    l.offsetSql action (some c, if l.method = .getBlocks then none else
        (some c).bind (l.stopOffset action length)) r =
      (decide ((walkOrder action).Later c r) &&
        (ordered (l.cuts (walkOrder action) c) (walkOrder action))[length]?.all fun stop =>
          (walkOrder action).Later r stop) := by
  by_cases hmethod : l.method = .getBlocks ∨ l.method = .getHistory
  · have hnone : (ordered (l.cuts (walkOrder action) c) (walkOrder action))[length]? = none := by
      have hempty : l.cuts (walkOrder action) c = 0 := if_pos hmethod
      rw [hempty, ordered_zero, List.getElem?_nil]
    rw [hnone, Option.all_none, Bool.and_true, offsetSql]
    rcases hmethod with hblocks | hhistory
    · rw [if_neg (by rw [hblocks]; decide), if_pos hblocks]
      cases action with
      | last => exact absurd rfl haction
      | first | next | prev => exact Bool.and_true _
    · rw [if_pos hhistory]
      cases action with
      | last => exact absurd rfl haction
      | first => simp [getHistoryOffsetSql, hzero rfl, walkOrder, SortOrder.Later]
      | next | prev => rfl
  · obtain ⟨hblocks, hhistory⟩ := not_or.mp hmethod
    rw [offsetSql, if_neg hhistory, if_neg hblocks, Option.bind_some]
    cases action with
    | last => exact absurd rfl haction
    | first | next =>
      simp only [getQueryOffsetSql]
      rw [stop_desc hmethod (by simp)]
      rfl
    | prev =>
      simp only [getQueryOffsetSql]
      rw [stop_asc hmethod]
      rfl

theorem read_eq {action : PageAction} (haction : action ≠ .last)
    (hzero : action = .first → c ≠ 0) :
    ordered (l.rows.filter fun r => l.offsetSql action (some c, if l.method = .getBlocks then none
        else (some c).bind (l.stopOffset action length)) r = true) (walkOrder action) =
      (l.beyond (walkOrder action) c).filter fun r =>
        (ordered (l.cuts (walkOrder action) c) (walkOrder action))[length]?.all fun stop =>
          (walkOrder action).Later r stop := by
  rw [beyond, ← ordered_filter, Multiset.filter_filter]
  congr 1
  refine Multiset.filter_congr fun r _ => ?_
  rw [offsetSql_eq haction hzero, Bool.and_eq_true, decide_eq_true_iff, and_comm]

section pages
variable (hlength : length ≤ LIST_LIMIT_MAX)

include hlength

/-- The rows beyond a cursor, cut before the stop row. -/
theorem page_next : l.getPagingDataResults (nextPage length start c) =
    ((l.beyond .desc c).filter fun r => (ordered (l.cuts .desc c) .desc)[length]?.all fun stop =>
      SortOrder.desc.Later r stop).take length := by
  have hread := @read_eq l length c .next (by simp) (by simp)
  have hmin : min length LIST_LIMIT_MAX = length := min_eq_left hlength
  simp only [walkOrder] at hread
  simp only [getPagingDataResults, nextPage, explorerLimits, getQueryOffsets, firstLastOffset,
    collectPage, hmin]
  rw [hread]
  rfl

theorem page_prev : l.getPagingDataResults (prevPage length start c) =
    (((l.beyond .asc c).filter fun r => (ordered (l.cuts .asc c) .asc)[length]?.all fun stop =>
      SortOrder.asc.Later r stop).take length).reverse := by
  have hread := @read_eq l length c .prev (by simp) (by simp)
  have hmin : min length LIST_LIMIT_MAX = length := min_eq_left hlength
  simp only [walkOrder] at hread
  simp only [getPagingDataResults, prevPage, explorerLimits, getQueryOffsets, firstLastOffset,
    collectPage, hmin]
  rw [hread]
  rfl

/-- The newest row of the boundary. -/
def newest (l : Listing) : Option ℕ := (ordered l.boundary .desc).head?

omit hlength in
theorem firstLastOffset_first (offset1 : Option ℕ) :
    l.firstLastOffset .first length offset1 = (l.newest.map (· + 1)).or offset1 := by
  rw [firstLastOffset, newest]
  cases ordered l.boundary .desc <;> rfl

theorem page_first (h : l.newest = some c) : l.getPagingDataResults (firstPage length) =
    ((l.beyond .desc (c + 1)).filter fun r =>
      (ordered (l.cuts .desc (c + 1)) .desc)[length]?.all fun stop =>
        SortOrder.desc.Later r stop).take length := by
  have hread := @read_eq l length (c + 1) .first (by simp) fun _ => Nat.succ_ne_zero c
  have hmin : min length LIST_LIMIT_MAX = length := min_eq_left hlength
  simp only [walkOrder] at hread
  simp only [getPagingDataResults, firstPage, explorerLimits, getQueryOffsets, firstLastOffset_first, h,
    Option.map_some, Option.some_or, hmin]
  rw [hread]
  rfl

/-- Without a boundary row the first page is read from the top. -/
theorem page_first_none (h : l.newest = none) :
    l.getPagingDataResults (firstPage length) = (ordered l.rows .desc).take length := by
  have hmin : min length LIST_LIMIT_MAX = length := min_eq_left hlength
  have hall (r : ℕ) : l.offsetSql .first (none, if l.method = .getBlocks then none else
      (none : Option ℕ).bind (l.stopOffset .first length)) r = true := by
    rw [offsetSql]
    split_ifs <;> rfl
  simp only [getPagingDataResults, firstPage, explorerLimits, getQueryOffsets, firstLastOffset_first, h,
    Option.map_none, Option.none_or, hmin, hall, Multiset.filter_true, collectPage]
  split_ifs
  · rfl
  · rw [Nat.zero_add, List.drop_zero, List.take_take, min_self]

end pages

/-! ### The pages of a list -/

/-- The rows that belong on a page. -/
def rowsOfPage (l : Listing) (length n : ℕ) : List ℕ :=
  ((ordered l.rows .desc).drop (n * length)).take length

/-- The pages from `first` on, each next one behind the last row of the one before. -/
def pageAt (l : Listing) (length : ℕ) : ℕ → List ℕ
  | 0 => l.getPagingDataResults (firstPage length)
  | n + 1 =>
    match (l.pageAt length n).getLast? with
    | none => []
    | some c => l.getPagingDataResults (nextPage length ((n + 1) * length) c)

theorem rowsOfPage_eq (n : ℕ) : l.rowsOfPage length n =
    ((ordered l.rows .desc).take ((n + 1) * length)).drop (n * length) := by
  rw [rowsOfPage, List.drop_take, Nat.add_mul, Nat.one_mul, Nat.add_sub_cancel_left]

theorem getLast_rowsOfPage {n b : ℕ} (h : b ∈ (l.rowsOfPage length n).getLast?) :
    ((ordered l.rows .desc).take ((n + 1) * length)).getLast? = some b := by
  rw [rowsOfPage_eq, List.getLast?_drop] at h
  split_ifs at h
  · cases h
  · exact h

theorem beyond_sorted : (l.beyond order c).Pairwise fun a b => ¬ order.Later b a := ordered_sorted

theorem beyond_eq (c : ℕ) :
    l.beyond order c = Cursor.beyond order.Later id (ordered l.rows order) c := by
  rw [beyond, Cursor.beyond, ← ordered_filter]
  congr 1
  exact Multiset.filter_congr fun r _ => by simp

/-- Behind the last row of a page the next page begins. -/
theorem beyond_page (hdistinct : l.rows.Nodup) {n c : ℕ} (h : c ∈ (l.rowsOfPage length n).getLast?) :
    l.beyond .desc c = (ordered l.rows .desc).drop ((n + 1) * length) := by
  rw [beyond_eq]
  exact Cursor.beyond_of_getLast_take SortOrder.desc.later_asymm (ordered_pairwise hdistinct)
    (getLast_rowsOfPage h)

/-- Before the first row of a page stand all pages before it. -/
theorem beyond_before (hdistinct : l.rows.Nodup) {n c : ℕ} (h : c ∈ (l.rowsOfPage length (n + 1)).head?) :
    l.beyond .asc c = ((ordered l.rows .desc).take ((n + 1) * length)).reverse ∧
      ((ordered l.rows .desc).take ((n + 1) * length)).length = (n + 1) * length := by
  have hhead : ((ordered l.rows .desc).drop ((n + 1) * length)).head? = some c := by
    rw [rowsOfPage, List.head?_take] at h
    split_ifs at h
    · cases h
    · exact h
  obtain ⟨rest, hrest⟩ := List.head?_eq_some_iff.mp hhead
  have hsplit : ordered l.rows .desc =
      (ordered l.rows .desc).take ((n + 1) * length) ++ c :: rest := by
    rw [← hrest, List.take_append_drop]
  constructor
  · have hrows : ordered l.rows .asc =
        rest.reverse ++ c :: ((ordered l.rows .desc).take ((n + 1) * length)).reverse := by
      rw [ordered_asc]
      refine (congrArg List.reverse hsplit).trans ?_
      rw [List.reverse_append, List.reverse_cons, List.append_assoc, List.singleton_append]
    have hpairwise : (ordered l.rows .asc).Pairwise SortOrder.asc.Later := ordered_pairwise hdistinct
    rw [beyond_eq, hrows]
    rw [hrows] at hpairwise
    exact Cursor.beyond_append_cons SortOrder.asc.later_asymm hpairwise
  · have hlt : (n + 1) * length < (ordered l.rows .desc).length := by
      by_contra hle
      rw [List.drop_eq_nil_of_le (Nat.not_lt.mp hle)] at hrest
      cases hrest
    rw [List.length_take, min_eq_left hlt.le]

theorem take_beyond_before (hdistinct : l.rows.Nodup) {n c : ℕ} (h : c ∈ (l.rowsOfPage length (n + 1)).head?) :
    (l.beyond .asc c).take length = (l.rowsOfPage length n).reverse := by
  obtain ⟨hbeyond, hfull⟩ := beyond_before hdistinct h
  rw [hbeyond, List.take_reverse, hfull, rowsOfPage_eq, Nat.add_mul, Nat.one_mul,
    Nat.add_sub_cancel]

theorem length_cut (s : Multiset ℕ) (p : ℕ → Prop) [DecidablePred p] :
    ((ordered s order).filter fun t => decide (p t)).length = (s.filter p).card := by
  rw [← ordered_filter, length_ordered]
  congr 1
  exact Multiset.filter_congr fun t _ => decide_eq_true_iff

section pages
variable (hlength : length ≤ LIST_LIMIT_MAX)

include hlength

theorem next_iff (hdistinct : l.rows.Nodup) {n : ℕ} (h : c ∈ (l.rowsOfPage length n).getLast?) :
    l.getPagingDataResults (nextPage length start c) = l.rowsOfPage length (n + 1) ↔
      ∀ b ∈ (l.rowsOfPage length (n + 1)).getLast?,
        ((l.cuts .desc c).filter (b ≤ ·)).card ≤ length := by
  have hbeyond := beyond_page hdistinct h
  have hpage : (l.beyond .desc c).take length = l.rowsOfPage length (n + 1) := by
    rw [hbeyond, rowsOfPage]
  rw [page_next hlength, ← hpage, page_whole_iff beyond_sorted ordered_sorted]
  refine forall₂_congr fun b _ => ?_
  rw [length_cut]
  simp only [SortOrder.Later, gt_iff_lt, not_lt]

theorem prev_iff (hdistinct : l.rows.Nodup) {n : ℕ} (h : c ∈ (l.rowsOfPage length (n + 1)).head?) :
    l.getPagingDataResults (prevPage length start c) = l.rowsOfPage length n ↔
      ∀ b ∈ (l.rowsOfPage length n).head?, ((l.cuts .asc c).filter (· ≤ b)).card ≤ length := by
  have hpage := take_beyond_before hdistinct h
  rw [page_prev hlength, List.reverse_eq_iff, ← hpage,
    page_whole_iff beyond_sorted ordered_sorted, hpage, List.getLast?_reverse]
  refine forall₂_congr fun b _ => ?_
  rw [length_cut]
  simp only [SortOrder.Later, not_lt]

theorem first_iff (hpos : 0 < length) :
    l.getPagingDataResults (firstPage length) = l.rowsOfPage length 0 ↔
      ∀ c ∈ l.newest, (∀ r ∈ l.rows, r ≤ c) ∧ ∀ b ∈ (l.rowsOfPage length 0).getLast?,
        ((l.cuts .desc (c + 1)).filter (b ≤ ·)).card ≤ length := by
  have hpage : l.rowsOfPage length 0 = (ordered l.rows .desc).take length := by
    rw [rowsOfPage, Nat.zero_mul, List.drop_zero]
  cases hnewest : l.newest with
  | none =>
    rw [page_first_none hlength hnewest, hpage]
    exact iff_of_true rfl fun c hc => nomatch hc
  | some c =>
    rw [page_first hlength hnewest]
    by_cases habove : ∀ r ∈ l.rows, r ≤ c
    · have hbeyond : l.beyond .desc (c + 1) = ordered l.rows .desc := by
        rw [beyond, Multiset.filter_eq_self.mpr]
        exact fun r hr => Nat.lt_succ_of_le (habove r hr)
      rw [hpage, ← hbeyond, page_whole_iff beyond_sorted ordered_sorted]
      constructor
      · rintro hcut _ ⟨⟩
        refine ⟨habove, fun b hb => ?_⟩
        have hcut := hcut b hb
        rw [length_cut] at hcut
        simpa only [SortOrder.Later, gt_iff_lt, not_lt] using hcut
      · intro h b hb
        rw [length_cut]
        simpa only [SortOrder.Later, gt_iff_lt, not_lt] using (h c rfl).2 b hb
    · -- a listed row above the boundary is on the first page and not beyond its opening
      refine iff_of_false (fun heq => ?_) fun h => habove (h c rfl).1
      obtain ⟨r, hr, hlt⟩ := not_forall₂.mp habove
      obtain ⟨top, rest, hrows⟩ := List.exists_cons_of_ne_nil
        (List.ne_nil_of_mem (mem_ordered.mpr hr : r ∈ ordered l.rows .desc))
      have htop : top ∈ (ordered l.rows .desc).take length := by
        rw [hrows, ← Nat.succ_pred_eq_of_pos hpos, List.take_succ_cons]
        exact List.mem_cons_self
      rw [hpage] at heq
      rw [← heq] at htop
      have hbeyond := mem_ordered.mp (List.mem_of_mem_filter (List.mem_of_mem_take htop))
      have hle : top < c + 1 := (Multiset.mem_filter.mp hbeyond).2
      have hhead : r ≤ top := le_head_ordered (List.head?_eq_some_iff.mpr ⟨rest, hrows⟩) hr
      omega

end pages

/-! ### Paging forth and back -/

/-- From the first page on, `next` reads the list page by page, every row once and the newest first,
    and `prev` returns from each page to the one before. -/
structure PagesInOrder (l : Listing) (length : ℕ) : Prop where
  pages : ∀ n, l.pageAt length n = l.rowsOfPage length n
  once : ∀ n, l.rows.card ≤ n * length →
    ((List.range n).map (l.pageAt length)).flatten = ordered l.rows .desc
  back : ∀ n start, ∀ c ∈ (l.pageAt length (n + 1)).head?,
    l.getPagingDataResults (prevPage length start c) = l.pageAt length n

/-- Where a page opens: above the newest row of the boundary, then behind the page before. -/
def opening (l : Listing) (length : ℕ) : ℕ → Option ℕ
  | 0 => l.newest.map (· + 1)
  | n + 1 => (l.rowsOfPage length n).getLast?

/-- No listed row is newer than the boundary, and no more than a page of the rows that pages are cut
    by lies from where a page opens to its last row, or from a row back to the first of the page
    before. -/
structure Uncut (l : Listing) (length : ℕ) : Prop where
  newest : ∀ c ∈ l.newest, ∀ r ∈ l.rows, r ≤ c
  next : ∀ n, ∀ c ∈ l.opening length n, ∀ b ∈ (l.rowsOfPage length n).getLast?,
    ((l.cuts .desc c).filter (b ≤ ·)).card ≤ length
  prev : ∀ n, ∀ c ∈ (l.rowsOfPage length (n + 1)).head?, ∀ b ∈ (l.rowsOfPage length n).head?,
    ((l.cuts .asc c).filter (· ≤ b)).card ≤ length

/-- The pages up to some page are the list up to it. -/
theorem flatten_rowsOfPage (n : ℕ) : ((List.range n).map (l.rowsOfPage length)).flatten =
    (ordered l.rows .desc).take (n * length) := by
  induction n with
  | zero => rw [Nat.zero_mul, List.take_zero]; rfl
  | succ n ih =>
    rw [List.range_succ, List.map_append, List.flatten_append, ih, List.map_singleton,
      List.flatten_singleton, rowsOfPage, ← List.take_add, Nat.add_mul, Nat.one_mul]

/-- A page that is not whole is the last one. -/
theorem rowsOfPage_succ_eq_nil {n : ℕ} (hpos : 0 < length) (h : l.rowsOfPage length n = []) :
    l.rowsOfPage length (n + 1) = [] := by
  rw [rowsOfPage, List.take_eq_nil_iff] at h
  rcases h with h | h
  · omega
  · have hle := List.drop_eq_nil_iff.mp h
    rw [rowsOfPage, List.drop_eq_nil_of_le, List.take_nil]
    exact hle.trans (Nat.mul_le_mul_right length (Nat.le_succ n))

section pages
variable (hpos : 0 < length) (hlength : length ≤ LIST_LIMIT_MAX) (hdistinct : l.rows.Nodup)

include hpos hlength hdistinct

theorem pages_of_uncut (h : l.Uncut length) (n : ℕ) : l.pageAt length n = l.rowsOfPage length n := by
  induction n with
  | zero =>
    refine (first_iff hlength hpos).mpr fun c hc => ⟨h.newest c hc, h.next 0 (c + 1) ?_⟩
    exact Option.mem_map_of_mem (· + 1) hc
  | succ n ih =>
    rw [pageAt, ih]
    cases hlast : (l.rowsOfPage length n).getLast? with
    | none => exact (rowsOfPage_succ_eq_nil hpos (List.getLast?_eq_none_iff.mp hlast)).symm
    | some c => exact (next_iff hlength hdistinct hlast).mpr (h.next (n + 1) c hlast)

/-- Over rows of distinct cursors paging is in order exactly where no page is cut. -/
theorem pagesInOrder_iff : l.PagesInOrder length ↔ l.Uncut length := by
  constructor
  · intro h
    have hfirst := (first_iff hlength hpos).mp (h.pages 0)
    refine ⟨fun c hc => (hfirst c hc).1, fun n c hc => ?_, fun n c hc => ?_⟩
    · cases n with
      | zero =>
        obtain ⟨newest, hnewest, rfl⟩ := Option.mem_map.mp hc
        exact (hfirst newest hnewest).2
      | succ n =>
        have hpage := h.pages (n + 1)
        have hlast : (l.rowsOfPage length n).getLast? = some c := hc
        rw [pageAt, h.pages n, hlast] at hpage
        exact (next_iff hlength hdistinct hlast).mp hpage
    · have hback := h.back n 0 c (h.pages (n + 1) ▸ hc)
      rw [h.pages n] at hback
      exact (prev_iff hlength hdistinct hc).mp hback
  · intro h
    have hpages := pages_of_uncut hpos hlength hdistinct h
    refine ⟨hpages, fun n hn => ?_, fun n start c hc => ?_⟩
    · rw [funext hpages, flatten_rowsOfPage, List.take_of_length_le]
      rw [length_ordered]
      exact hn
    · rw [hpages (n + 1)] at hc
      rw [hpages n]
      exact (prev_iff hlength hdistinct hc).mpr (h.prev n c hc)

end pages

end Listing
end QuerySql
