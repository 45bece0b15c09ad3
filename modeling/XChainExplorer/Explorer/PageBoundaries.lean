import XChainExplorer.Explorer.BoundaryFilters
import XChainExplorer.Explorer.PageOrder

/-! # Where the pages of a list open

    Where the boundary of a list selects the list's own cursors, the first page opens at the newest
    row, the last one shows the oldest, and no page between them is cut. The last page of a history
    is the exception, for it shows the rows before its start and not the start itself. So is the first
    page of a list of legs that are not read by their actions: the legs of the newest action count
    towards the row that stops the page. -/

namespace QuerySql

open Listing

/-! ### Pages that are not cut -/

section cut
variable {l : Listing} {order : SortOrder} {length c : ℕ}

/-- No more rows than are on a page come up to its last row. -/
theorem length_filter_take_le {rows : List ℕ} (h : rows.Pairwise order.Later) {b : ℕ}
    (hb : b ∈ (rows.take length).getLast?) :
    (rows.filter fun t => ¬ order.Later b t).length ≤ length := by
  rw [Cursor.length_filter_le_iff h fun x y hxy hby => ?_]
  · intro x hx
    rw [decide_eq_true_iff, not_not]
    have hx : x ∈ (rows.drop length).head? := by rwa [List.head?_drop]
    rw [← List.take_append_drop length rows] at h
    exact (List.pairwise_append.mp h).2.2 b (List.mem_of_getLast? hb) x (List.mem_of_head? hx)
  · simp only [decide_eq_true_iff] at hby ⊢
    exact fun hbx => hby (order.later_trans _ _ _ hbx hxy)

section distinct
variable (hdistinct : l.rows.Nodup) (hstops : l.stops ≤ l.rows)

include hdistinct hstops

/-- Rows of the list itself do not cut a page of it. -/
theorem card_cuts_le {b : ℕ} (hb : b ∈ ((l.beyond order c).take length).getLast?) :
    ((l.cuts order c).filter fun t => ¬ order.Later b t).card ≤ length := by
  have hsub : l.cuts order c ≤ l.rows.filter (order.Later c ·) := by
    rw [cuts]
    split_ifs
    · exact Multiset.zero_le _
    · rw [← Multiset.filter_filter]
      exact (Multiset.filter_le _ _).trans (Multiset.filter_le_filter _ hstops)
  refine (Multiset.card_le_card (Multiset.filter_le_filter _ hsub)).trans ?_
  rw [← length_cut]
  exact length_filter_take_le (ordered_pairwise (hdistinct.filter _)) hb

theorem uncut_of_le (hnewest : ∀ c ∈ l.newest, ∀ r ∈ l.rows, r ≤ c) : l.Uncut length := by
  refine ⟨hnewest, fun n c hc b hb => ?_, fun n c hc b hb => ?_⟩
  · have hbeyond : (l.beyond .desc c).take length = l.rowsOfPage length n := by
      cases n with
      | zero =>
        obtain ⟨newest, hmem, rfl⟩ := Option.mem_map.mp hc
        rw [beyond, Multiset.filter_eq_self.mpr, rowsOfPage, Nat.zero_mul, List.drop_zero]
        exact fun r hr => Nat.lt_succ_of_le (hnewest newest hmem r hr)
      | succ n => rw [beyond_page hdistinct hc, rowsOfPage]
    have hcard := card_cuts_le hdistinct hstops (hbeyond ▸ hb)
    simpa only [SortOrder.Later, gt_iff_lt, not_lt] using hcard
  · have hbeyond := take_beyond_before hdistinct hc
    have hlast : b ∈ ((l.beyond .asc c).take length).getLast? := by
      rwa [hbeyond, List.getLast?_reverse]
    have hcard := card_cuts_le hdistinct hstops hlast
    simpa only [SortOrder.Later, not_lt] using hcard

end distinct

end cut

/-! ### The first page -/

section first
variable {l : Listing} {length c r : ℕ}

theorem mem_boundary_iff (hsame : l.boundary.toFinset = l.rows.toFinset) : c ∈ l.boundary ↔ c ∈ l.rows := by
  rw [← Multiset.mem_toFinset, hsame, Multiset.mem_toFinset]

theorem le_newest (hc : c ∈ l.newest) (hr : r ∈ l.boundary) : r ≤ c := le_head_ordered hc hr

/-- The newest row of the boundary is the first of the list, where they have the same cursors. -/
theorem head_ordered (hsame : l.boundary.toFinset = l.rows.toFinset) :
    (ordered l.rows .desc).head? = l.newest := by
  have hmem (c : ℕ) : c ∈ l.boundary ↔ c ∈ l.rows := mem_boundary_iff hsame
  cases hrows : ordered l.rows .desc with
  | nil =>
    have hnone : ordered l.boundary .desc = [] := by
      rw [List.eq_nil_iff_forall_not_mem]
      intro c hc
      have hmem' : c ∈ ordered l.rows .desc := mem_ordered.mpr ((hmem c).mp (mem_ordered.mp hc))
      rw [hrows] at hmem'
      cases hmem'
    rw [newest, hnone]
  | cons top rest =>
    have htop : top ∈ l.boundary := by
      rw [hmem, ← @mem_ordered _ .desc, hrows]
      exact List.mem_cons_self
    cases hnewest : l.newest with
    | none =>
      rw [newest, List.head?_eq_none_iff] at hnewest
      rw [← @mem_ordered _ .desc, hnewest] at htop
      cases htop
    | some c =>
      have hc : c ∈ l.rows := (hmem c).mp (mem_ordered.mp (List.mem_of_head? hnewest))
      have hle : c ≤ top := le_head_ordered (List.head?_eq_some_iff.mpr ⟨rest, hrows⟩) hc
      rw [List.head?_cons, Nat.le_antisymm hle (le_newest hnewest htop)]

theorem mem_cuts (h : c ∈ l.cuts .desc r) : c < r := by
  rw [cuts] at h
  split_ifs at h
  · cases Multiset.notMem_zero _ h
  · exact (Multiset.mem_filter.mp h).2.2

/-- Of rows in order, a test keeps the first where it holds of it, and else none. -/
theorem head_take_filter {rows : List ℕ} (hsorted : rows.Pairwise fun a b => ¬ SortOrder.desc.Later b a)
    (hhead : rows.head? = some c) (hpos : 0 < length) {p : ℕ → Bool} (hp : ∀ a b, b ≤ a → p b → p a) :
    ((rows.filter p).take length).head? = some c ↔ p c = true := by
  obtain ⟨rest, rfl⟩ := List.head?_eq_some_iff.mp hhead
  rw [List.head?_take, if_neg hpos.ne']
  by_cases hc : p c = true
  · rw [List.filter_cons_of_pos hc]
    exact iff_of_true rfl hc
  · have hnil := Cursor.filter_eq_nil_of_head hsorted (fun a b hab hb => hp a b (Nat.not_lt.mp hab) hb) hc
    rw [hnil]
    exact iff_of_false (by simp) hc

/-- The first page shows the newest row where no more than a page of the rows that stop it stand there. -/
theorem first_head_iff (hpos : 0 < length) (hlength : length ≤ LIST_LIMIT_MAX)
    (hsame : l.boundary.toFinset = l.rows.toFinset) :
    (l.getPagingDataResults (firstPage length)).head? = (ordered l.rows .desc).head? ↔
      ∀ c ∈ l.newest, (l.cuts .desc (c + 1)).count c ≤ length := by
  have hhead := head_ordered hsame
  cases hnewest : l.newest with
  | none =>
    rw [page_first_none hlength hnewest, List.head?_take, if_neg hpos.ne']
    exact iff_of_true rfl fun c hc => nomatch hc
  | some c =>
    rw [page_first hlength hnewest, hhead, hnewest]
    have hbeyond : l.beyond .desc (c + 1) = ordered l.rows .desc := by
      rw [beyond, Multiset.filter_eq_self.mpr]
      intro r hr
      exact Nat.lt_succ_of_le (le_newest hnewest ((mem_boundary_iff hsame).mpr hr))
    have hcount : (l.cuts .desc (c + 1)).count c =
        ((ordered (l.cuts .desc (c + 1)) .desc).filter fun t => ¬ SortOrder.desc.Later c t).length := by
      rw [length_cut, Multiset.count_eq_card_filter_eq]
      congr 1
      refine Multiset.filter_congr fun t ht => ?_
      have hlt := mem_cuts ht
      simp only [SortOrder.Later]
      omega
    rw [hbeyond, head_take_filter ordered_sorted (hhead.trans hnewest) hpos fun a b hab hb => ?_]
    · have hall : (∀ c' ∈ some c, (l.cuts .desc (c' + 1)).count c' ≤ length) ↔
          (l.cuts .desc (c + 1)).count c ≤ length :=
        ⟨fun h => h c rfl, fun h c' hc' => by cases hc'; exact h⟩
      rw [hall, hcount, Cursor.length_filter_le_iff ordered_sorted fun x y hxy hcy => ?_, Option.all_eq_true]
      · refine forall₂_congr fun stop _ => ?_
        simp only [decide_eq_true_iff, not_not]
      · simp only [decide_eq_true_iff] at hcy ⊢
        exact fun hcx => hcy (later_of_later_not_later hcx hxy)
    · rw [Option.all_eq_true] at hb ⊢
      intro stop hstop
      have hlt : b > stop := of_decide_eq_true (hb stop hstop)
      exact decide_eq_true (show a > stop from lt_of_lt_of_le hlt hab)

end first

/-! ### The last page -/

section last
variable {l : Listing} {length c : ℕ}

/-- The row a last page starts at: one past the page, or the newest where there is none. -/
theorem start_last (offset1 : Option ℕ) (hboundary : l.boundary ≠ 0) :
    ∃ start ∈ ((ordered l.boundary .asc).take (length + 1)).getLast?,
      l.firstLastOffset .last length offset1 = some start := by
  have hne : (ordered l.boundary .asc).take (length + 1) ≠ [] := by
    obtain ⟨r, hr⟩ := Multiset.exists_mem_of_ne_zero hboundary
    intro hnil
    rcases List.take_eq_nil_iff.mp hnil with hlength | hnil
    · omega
    · exact List.ne_nil_of_mem (mem_ordered.mpr hr) hnil
  refine ⟨_, List.getLast?_eq_some_getLast hne, ?_⟩
  rw [firstLastOffset, List.getLast?_eq_some_getLast hne, Option.some_or]

/-- The rows of a page are kept, when the client is at the top or the page has an offset. -/
theorem collectPage_of_top {q : PageQuery} {start : Option ℕ} {rows : List ℕ} (htop : q.start = 0)
    (hrows : rows.length ≤ min q.length LIST_LIMIT_MAX) : l.collectPage q start rows = rows := by
  rw [collectPage, htop, Nat.zero_add, List.drop_zero, List.take_of_length_le hrows, ite_self]

theorem page_last (hlength : length ≤ LIST_LIMIT_MAX) {start : ℕ}
    (hstart : l.firstLastOffset .last length none = some start) :
    l.getPagingDataResults (lastPage length) = (((ordered l.rows .asc).filter fun r =>
      if l.method = .getHistory then start = 0 || r < start else r ≤ start).take length).reverse := by
  have hmin : min length LIST_LIMIT_MAX = length := min_eq_left hlength
  simp only [getPagingDataResults, lastPage, explorerLimits, getQueryOffsets, hmin, hstart]
  rw [collectPage_of_top rfl (by rw [hmin]; exact List.length_take_le _ _), ordered_filter]
  congr 3

theorem le_last {rows : List ℕ} (h : rows.Pairwise fun a b => ¬ SortOrder.asc.Later b a) {start b : ℕ}
    (hstart : start ∈ rows.getLast?) (hb : b ∈ rows) : b ≤ start := by
  obtain ⟨init, rfl⟩ := List.getLast?_eq_some_iff.mp hstart
  rcases List.mem_append.mp hb with hb | hb
  · exact Nat.not_lt.mp ((List.pairwise_append.mp h).2.2 b hb start (List.mem_singleton_self start))
  · exact (List.mem_singleton.mp hb).le

/-- A row comes up to the start of a last page where no more than a page of rows come before it. -/
theorem le_start_iff {rows : List ℕ} (h : rows.Pairwise fun a b => ¬ SortOrder.asc.Later b a) {start b : ℕ}
    (hstart : start ∈ (rows.take (length + 1)).getLast?) (hb : b ∈ rows) :
    b ≤ start ↔ (rows.filter fun t => t < b).length ≤ length := by
  rw [Cursor.length_filter_le_iff h fun x y hxy hyb => ?_]
  · by_cases hlong : length < rows.length
    · rw [List.take_succ_eq_append_getElem hlong, List.getLast?_concat] at hstart
      rw [List.getElem?_eq_getElem hlong, Option.some.inj hstart]
      simp
    · rw [Nat.not_lt] at hlong
      rw [List.take_of_length_le (Nat.le_succ_of_le hlong)] at hstart
      rw [List.getElem?_eq_none hlong]
      exact iff_of_true (le_last h hstart hb) fun x hx => nomatch hx
  · simp only [decide_eq_true_iff] at hyb ⊢
    exact lt_of_le_of_lt (Nat.not_lt.mp hxy) hyb

/-- The rows up to the start of a last page are the oldest where no more than a page of the boundary's rows
    come before the last of them. -/
theorem take_filter_le_iff (hsame : l.boundary.toFinset = l.rows.toFinset) {start : ℕ}
    (h : start ∈ ((ordered l.boundary .asc).take (length + 1)).getLast?) :
    ((ordered l.rows .asc).filter fun r => r ≤ start).take length = (ordered l.rows .asc).take length ↔
      ∀ b ∈ ((ordered l.rows .asc).take length).getLast?, (l.boundary.filter (· < b)).card ≤ length := by
  rw [Cursor.take_filter_eq_take_iff ordered_sorted fun a b hab hb => ?_]
  · refine forall₂_congr fun b hb => ?_
    have hmem : b ∈ l.boundary :=
      (mem_boundary_iff hsame).mpr (mem_ordered.mp (List.mem_of_mem_take (List.mem_of_getLast? hb)))
    rw [decide_eq_true_iff, le_start_iff ordered_sorted h (mem_ordered.mpr hmem), length_cut]
  · rw [decide_eq_true_iff] at hb ⊢
    exact (Nat.not_lt.mp hab).trans hb

/-- The rows before the row one past the page are the oldest as well, but where there is no such row
    the newest one is left out. -/
theorem take_filter_lt_iff (hdistinct : l.rows.Nodup) {start : ℕ}
    (h : start ∈ ((ordered l.rows .asc).take (length + 1)).getLast?) :
    ((ordered l.rows .asc).filter fun r => start = 0 || r < start).take length =
        (ordered l.rows .asc).take length ↔
      length < l.rows.card ∨ ∀ c ∈ l.rows, c = 0 := by
  have hpairwise : (ordered l.rows .asc).Pairwise SortOrder.asc.Later := ordered_pairwise hdistinct
  have hle : ∀ b ∈ (ordered l.rows .asc).take (length + 1), b ≤ start :=
    fun b => le_last (ordered_sorted.sublist (List.take_sublist _ _)) h
  rw [Cursor.take_filter_eq_take_iff hpairwise fun a b hab hb => ?_]
  · by_cases hlong : length < l.rows.card
    · refine iff_of_true (fun b hb => ?_) (.inl hlong)
      have hlong : length < (ordered l.rows .asc).length := by rwa [length_ordered]
      have htake : (ordered l.rows .asc).take (length + 1) =
          (ordered l.rows .asc).take length ++ [(ordered l.rows .asc)[length]] :=
        List.take_succ_eq_append_getElem hlong
      rw [htake, List.getLast?_concat] at h
      obtain rfl := Option.some.inj h
      have hsub := hpairwise.sublist (List.take_sublist (length + 1) _)
      rw [htake] at hsub
      have hlt := (List.pairwise_append.mp hsub).2.2 b (List.mem_of_getLast? hb) _
        (List.mem_singleton_self _)
      exact Bool.or_eq_true_iff.mpr (.inr (decide_eq_true hlt))
    · have hlength : (ordered l.rows .asc).length ≤ length := by rwa [length_ordered, ← Nat.not_lt]
      rw [List.take_of_length_le (Nat.le_succ_of_le hlength)] at h hle
      rw [List.take_of_length_le hlength, or_iff_right hlong]
      constructor
      · intro hlast c hc
        have hzero := hlast start h
        simp only [Bool.or_eq_true, decide_eq_true_iff, Nat.lt_irrefl, or_false] at hzero
        exact Nat.le_zero.mp (hzero ▸ hle c (mem_ordered.mpr hc))
      · intro hzero b hb
        have hstart := hzero start (mem_ordered.mp (List.mem_of_getLast? h))
        exact Bool.or_eq_true_iff.mpr (.inl (decide_eq_true hstart))
  · simp only [Bool.or_eq_true, decide_eq_true_iff] at hb ⊢
    have hab : a < b := hab
    omega

end last

/-! ### Opening where the list does -/

/-- The boundary selects the list's cursors, the first page opens at the newest listed row, and the last
    one shows the oldest. -/
structure BoundaryOpens (l : Listing) (length : ℕ) : Prop where
  same : l.boundary.toFinset = l.rows.toFinset
  first : (l.getPagingDataResults (firstPage length)).head? = (ordered l.rows .desc).head?
  last : l.getPagingDataResults (lastPage length) = ((ordered l.rows .asc).take length).reverse

/-- How many rows the statements of a page read to an action: no more than a page of those that stop the
    first page stand at the newest row, and no more than a page of the boundary's come before the last of
    the oldest ones. A history is longer than its last page. -/
structure RowsFit (l : Listing) (length : ℕ) : Prop where
  newest : ∀ c ∈ l.newest, (l.cuts .desc (c + 1)).count c ≤ length
  oldest : l.method ≠ .getHistory → ∀ b ∈ ((ordered l.rows .asc).take length).getLast?,
    (l.boundary.filter (· < b)).card ≤ length
  history : l.method = .getHistory → length < l.rows.card ∨ ∀ c ∈ l.rows, c = 0

section boundary
variable {l : Listing} {length : ℕ}

/-- What is asked of a history, which steps back by a start of its own. -/
def HistoryRead (l : Listing) : Prop := l.method = .getHistory → l.rows.Nodup ∧ l.boundary.Nodup

theorem last_iff (hlength : length ≤ LIST_LIMIT_MAX) (hhistory : HistoryRead l)
    (hsame : l.boundary.toFinset = l.rows.toFinset) :
    l.getPagingDataResults (lastPage length) = ((ordered l.rows .asc).take length).reverse ↔
      (l.method ≠ .getHistory → ∀ b ∈ ((ordered l.rows .asc).take length).getLast?,
        (l.boundary.filter (· < b)).card ≤ length) ∧
      (l.method = .getHistory → length < l.rows.card ∨ ∀ c ∈ l.rows, c = 0) := by
  have hmem (c : ℕ) : c ∈ l.boundary ↔ c ∈ l.rows := mem_boundary_iff hsame
  by_cases hrows : l.rows = 0
  · have hempty : l.getPagingDataResults (lastPage length) = [] := by
      simp only [getPagingDataResults, lastPage, explorerLimits, hrows, Multiset.filter_zero,
        ordered_zero, List.take_nil]
      rw [collectPage_of_top rfl (Nat.zero_le _), List.reverse_nil]
    rw [hempty, hrows, ordered_zero, List.take_nil, List.reverse_nil]
    exact iff_of_true rfl ⟨fun _ b hb => absurd hb (Option.not_mem_none b),
      fun _ => .inr fun c hc => absurd hc (Multiset.notMem_zero c)⟩
  · have hboundary : l.boundary ≠ 0 := by
      obtain ⟨r, hr⟩ := Multiset.exists_mem_of_ne_zero hrows
      exact fun hzero => Multiset.notMem_zero r (hzero ▸ (hmem r).mpr hr)
    obtain ⟨start, hstartmem, hstart⟩ := start_last none hboundary
    rw [page_last hlength hstart, List.reverse_inj]
    by_cases hmethod : l.method = .getHistory
    · obtain ⟨hdistinct, hbounds⟩ := hhistory hmethod
      have heq : l.boundary = l.rows := (Multiset.Nodup.ext hbounds hdistinct).mpr hmem
      rw [heq] at hstartmem
      simp only [hmethod, if_true, ne_eq, not_true_eq_false, IsEmpty.forall_iff, true_and, forall_const]
      exact take_filter_lt_iff hdistinct hstartmem
    · simp only [hmethod, if_false, IsEmpty.forall_iff, and_true, ne_eq, not_false_eq_true, forall_const]
      exact take_filter_le_iff hsame hstartmem

theorem boundaryOpens_iff (hpos : 0 < length) (hlength : length ≤ LIST_LIMIT_MAX) (hhistory : HistoryRead l) :
    BoundaryOpens l length ↔ l.boundary.toFinset = l.rows.toFinset ∧ RowsFit l length := by
  constructor
  · rintro ⟨hsame, hfirst, hlast⟩
    obtain ⟨holdest, hlong⟩ := (last_iff hlength hhistory hsame).mp hlast
    exact ⟨hsame, (first_head_iff hpos hlength hsame).mp hfirst, holdest, hlong⟩
  · rintro ⟨hsame, hfit⟩
    exact ⟨hsame, (first_head_iff hpos hlength hsame).mpr hfit.newest,
      (last_iff hlength hhistory hsame).mpr ⟨hfit.oldest, hfit.history⟩⟩

/-- Rows that are each read once fit a page. -/
theorem rowsFit_of_nodup (hpos : 0 < length) (hsame : l.boundary.toFinset = l.rows.toFinset)
    (hrows : l.rows.Nodup) (hboundary : l.boundary.Nodup) (hstops : l.stops.Nodup)
    (hhistory : l.method = .getHistory → length < l.rows.card ∨ ∀ c ∈ l.rows, c = 0) : RowsFit l length where
  newest c _ := by
    have hcuts : (l.cuts .desc (c + 1)).Nodup := by
      rw [cuts]
      split_ifs
      · exact Multiset.nodup_zero
      · exact hstops.filter _
    exact (Multiset.nodup_iff_count_le_one.mp hcuts c).trans hpos
  oldest _ b hb := by
    have heq : l.boundary = l.rows := (Multiset.Nodup.ext hboundary hrows).mpr fun c => mem_boundary_iff hsame
    rw [heq, ← @length_cut .asc]
    refine (List.Sublist.length_le ?_).trans (length_filter_take_le (ordered_pairwise hrows) hb)
    refine List.monotone_filter_right _ fun t ht => ?_
    have hlt : t < b := of_decide_eq_true ht
    exact decide_eq_true fun hbt : b < t => absurd hlt hbt.asymm
  history := hhistory

end boundary

section listing
variable {db : Db} {method : Method} {filter : Filter} {length : ℕ} {dense : Bool}

theorem mem_selectRows {distinct : Bool} {rows : Multiset ℕ} {c : ℕ} : c ∈ selectRows distinct rows ↔ c ∈ rows := by
  rw [selectRows]
  split_ifs
  · exact Multiset.mem_dedup
  · exact Iff.rfl

theorem toFinset_selectRows (distinct : Bool) (rows : Multiset ℕ) :
    (selectRows distinct rows).toFinset = rows.toFinset := by
  ext c
  rw [Multiset.mem_toFinset, Multiset.mem_toFinset, mem_selectRows]

theorem nodup_selectRows {distinct : Bool} {rows : Multiset ℕ} (h : distinct = false → rows.Nodup) :
    (selectRows distinct rows).Nodup := by
  cases distinct with
  | true => exact Multiset.nodup_dedup rows
  | false => exact h rfl

@[simp] theorem toFinset_listRows : (listRows db dense method filter).toFinset = listCursors db dense method filter := by
  rw [listRows, listCursors]
  split_ifs
  · exact Finset.val_toFinset _
  · exact Finset.val_toFinset _
  · exact toFinset_selectRows _ _

@[simp] theorem toFinset_offsetRows : (offsetRows db method filter).toFinset = boundaryCursors db method filter := by
  rw [offsetRows, boundaryCursors]
  split_ifs
  · exact Finset.val_toFinset _
  · exact Finset.val_toFinset _
  · exact toFinset_selectRows _ _

/-- A history is read once to an action: an address or a ticker has at most one mapping of it. -/
theorem historyRead_listing (dense : Bool) : HistoryRead (listing db dense method filter) := by
  rintro (rfl : method = .getHistory)
  have hmapped {kind : ℕ} {id : Option ℕ} (hwhere : ∀ j, boundaryWhere db .getHistory filter j =
      (decide (j.m.type_id = some kind) && sqlEq (some j.m.id) id)) :
      (cursorRows db .getHistory (db.table .mappings_actions) fun j =>
        db.viaAction j && boundaryWhere db .getHistory filter j).Nodup := by
    refine nodup_cursorRows (db.one_mapping _ (by simp)) fun j _ j' _ hp hp' hcursor => ?_
    simp only [hwhere, sqlEq, Option.isSome_some, Bool.true_and, Bool.and_eq_true, decide_eq_true_eq] at hp hp'
    have hid : j.m.id = j'.m.id := Option.some.inj (hp.2.2.trans hp'.2.2.symm)
    have hindex : j.m.action_index = j'.m.action_index := hcursor
    rw [hindex, hp.2.1, hp'.2.1, hid]
  have hlookup (hf : isLookup filter = true) : (cursorRows db .getHistory (db.table .mappings_actions) fun j =>
      db.viaAction j && boundaryWhere db .getHistory filter j).Nodup := by
    cases filter with
    | all => cases hf
    | block => cases hf
    | address address => exact @hmapped 2 (boundaryId db (.address address) .getHistory) fun _ => rfl
    | token tick => exact @hmapped 1 (boundaryId db (.token tick) .getHistory) fun _ => rfl
  constructor
  · change (listRows db dense .getHistory filter).Nodup
    rw [listRows, if_neg (by simp)]
    split_ifs
    · exact Finset.nodup _
    · exact nodup_selectRows fun h => absurd h (by simp)
  · change (offsetRows db .getHistory filter).Nodup
    rw [offsetRows, if_neg (by simp)]
    split_ifs with hf
    · exact Finset.nodup _
    · refine nodup_selectRows fun _ => ?_
      have htable : boundaryRows db .getHistory filter = db.table .mappings_actions := by
        rw [boundaryRows, if_neg (by simp), listTable]
      rw [htable]
      exact hlookup (by simpa using hf)

/-- Two dispensers: the older one is paid in a token, the newer one gives it. -/
def offers : Db where
  actions := [⟨5, 1, none, none, none⟩, ⟨10, 1, none, none, none⟩]
  transactions := []
  blocks := {1}
  table
    | .dispensers =>
      [{ action_index := 5, get_tick_id := some 1 }, { action_index := 10, give_tick_id := some 1 }]
    | _ => []
  list_metas := none
  index_addresses := ⊥
  index_tickers := PEquiv.single 1 "TICK"
  index_coins := ⊥
  action_index_unique := by decide
  tx_index_unique := by decide
  one_row t _ := by cases t <;> decide
  token_id_unique := by decide
  one_mapping := by decide
  action_block := by decide
  transaction_block := by decide

/-- An airdrop of three legs. Its legs fill the page and the row past it, so the page stops at its own
    action and shows nothing. -/
def legs : Db where
  actions := [⟨5, 1, none, none, none⟩]
  transactions := []
  blocks := {1}
  table
    | .airdrops => [{ action_index := 5 }, { action_index := 5 }, { action_index := 5 }]
    | _ => []
  list_metas := none
  index_addresses := ⊥
  index_tickers := ⊥
  index_coins := ⊥
  action_index_unique := by decide
  tx_index_unique := by decide
  one_row t h := by cases t <;> first | decide | cases h
  token_id_unique := by decide
  one_mapping := by decide
  action_block := by decide
  transaction_block := by decide

example : ¬ BoundaryOpens (listing legs false .getAirdrops .all) 2 := by
  rw [boundaryOpens_iff (by decide) (by decide) (historyRead_listing false)]
  rintro ⟨-, hfit⟩
  have hboundary : ordered (listing legs false .getAirdrops .all).boundary .desc = [5, 5, 5] :=
    (eq_ordered (by decide) (by decide)).symm
  exact absurd (hfit.newest 5 (by rw [newest, hboundary]; rfl)) (by decide)

theorem mem_cursorRows {rows : List Row} {p : Joined → Bool} {c : ℕ} :
    c ∈ cursorRows db method rows p ↔ ∃ j ∈ db.joined rows, p j = true ∧ cursor method j = c := by
  rw [← mem_cursors, cursors, Multiset.mem_toFinset]

/-- What stops a page of a list is in the boundary of the list. -/
theorem mem_offsetRows_of_stop {c : ℕ} (hc : c ∈ stopRows db method filter) : c ∈ offsetRows db method filter := by
  rw [stopRows] at hc
  rw [offsetRows]
  split_ifs at hc ⊢
  · exact hc
  · exact hc
  all_goals
    rw [mem_selectRows, mem_cursorRows] at hc ⊢
    obtain ⟨j, hj, htest, hc⟩ := hc
    refine ⟨j, hj, ?_, hc⟩
    rw [viaAction_of_joined hj, (Bool.and_eq_true_iff.mp htest).2, Bool.true_and]

/-- The rows of a list have distinct cursors, but for the legs of airdrops. -/
theorem nodup_listRows (hmethod : method ≠ .getAirdrops) : (listRows db dense method filter).Nodup := by
  rw [listRows]
  split_ifs with hblocks hhistory
  · exact Finset.nodup _
  · exact Finset.nodup _
  refine nodup_selectRows fun hdistinct => ?_
  obtain ⟨hselects, hnot⟩ := Bool.or_eq_false_iff.mp hdistinct
  have hnot : method ≠ .getHistory := of_decide_eq_false hnot
  by_cases htokens : method = .getTokens
  · obtain rfl := htokens
    exact nodup_cursorRows db.token_id_unique fun _ _ _ _ _ _ hcursor => hcursor
  have hindex (j : Joined) : cursor method j = j.m.action_index := if_neg htokens
  by_cases hfiles : method = .getFiles ∧ ∃ tick, filter = .token tick
  · obtain ⟨rfl, tick, rfl⟩ := hfiles
    refine nodup_cursorRows (db.one_mapping .mappings_files (by simp)) fun j _ j' _ hp hp' hcursor => ?_
    have hclause {j : Joined} (hp : (listJoin db .getFiles (.token tick) j &&
        genericClause db dense .getFiles (.token tick) j) = true) :
        j.m.type_id = some 1 ∧ db.index_tickers j.m.id = some tick := by
      obtain ⟨htype, htick⟩ := Bool.and_eq_true_iff.mp (Bool.and_eq_true_iff.mp hp).2
      exact ⟨of_decide_eq_true htype, of_decide_eq_true htick⟩
    obtain ⟨htype, htick⟩ := hclause hp
    obtain ⟨htype', htick'⟩ := hclause hp'
    rw [hindex, hindex] at hcursor
    rw [hcursor, htype, htype', db.index_tickers.inj htick htick']
  · have hone : manyRowed (listTable method filter) = false := by
      cases method <;> first | rfl | (cases filter <;> simp_all [listTable, manyRowed, selectsDistinct])
    refine nodup_cursorRows (db.one_row _ hone) fun _ _ _ _ _ _ hcursor => ?_
    rwa [hindex, hindex] at hcursor

/-- No page is cut where the boundary and the list agree about the rows, and each is read once. -/
theorem uncut_of_linedUp (dense : Bool) (haccepts : accepts method filter = true) (h : LinedUp db method filter)
    (hdistinct : (listing db dense method filter).rows.Nodup)
    (hstops : (listing db dense method filter).stops.Nodup) : (listing db dense method filter).Uncut length := by
  have hsame := (boundaryCursors_eq_iff dense haccepts).mpr h
  have hmem (c : ℕ) : c ∈ offsetRows db method filter ↔ c ∈ listRows db dense method filter := by
    rw [← Multiset.mem_toFinset, toFinset_offsetRows, hsame, ← toFinset_listRows, Multiset.mem_toFinset]
  refine uncut_of_le hdistinct ?_ fun c hc r hr => le_newest hc ((hmem r).mpr hr)
  exact (Multiset.le_iff_subset hstops).mpr fun c hc => (hmem c).mp (mem_offsetRows_of_stop hc)

/-- Over rows of distinct cursors, paging through a list is in order exactly where no page of it is cut. -/
theorem pages_in_order_iff_uncut (db : Db) (dense : Bool) (method : Method) (filter : Filter)
    (hpos : 0 < length) (hlength : length ≤ LIST_LIMIT_MAX)
    (hdistinct : (listing db dense method filter).rows.Nodup) :
    (listing db dense method filter).PagesInOrder length ↔
      (listing db dense method filter).Uncut length :=
  pagesInOrder_iff hpos hlength hdistinct

theorem pages_in_order_iff_uncut_offers :
    (listing offers false .getDispensers .all).PagesInOrder 1 :=
  have hdistinct : (listRows offers false .getDispensers .all).Nodup := nodup_listRows (by decide)
  (pages_in_order_iff_uncut offers false .getDispensers .all (by decide) (by decide) hdistinct).mpr
    (uncut_of_linedUp false rfl trivial hdistinct (by decide))

/-- A list, and two renames of it. -/
def renamed : Db where
  actions := [⟨1, 1, none, none, none⟩, ⟨2, 1, none, some 5, none⟩, ⟨3, 1, none, some 5, none⟩]
  transactions := []
  blocks := {1}
  table
    | .lists => [{ action_index := 1 }]
    | _ => []
  list_metas := some [2, 3]
  index_addresses := ⊥
  index_tickers := ⊥
  index_coins := ⊥
  action_index_unique := by decide
  tx_index_unique := by decide
  one_row t _ := by cases t <;> decide
  token_id_unique := by decide
  one_mapping := by decide
  action_block := by decide
  transaction_block := by decide

/-- The renames fill the page that the list is on. -/
theorem not_pages_in_order : ¬ ∀ (db : Db) (dense : Bool) (method : Method) (filter : Filter)
    (length : ℕ), accepts method filter = true → 0 < length → length ≤ LIST_LIMIT_MAX →
      (listing db dense method filter).rows.Nodup → (listing db dense method filter).PagesInOrder length := by
  intro h
  have hdistinct : (listRows renamed false .getLists .all).Nodup := nodup_listRows (by decide)
  have hpages := h renamed false .getLists .all 1 rfl (by decide) (by decide) hdistinct
  let l := listing renamed false .getLists .all
  have hrows : ordered l.rows .desc = [1] := (eq_ordered (by decide) (by decide)).symm
  have hboundary : ordered l.boundary .desc = [3, 2, 1] := (eq_ordered (by decide) (by decide)).symm
  have huncut := ((pagesInOrder_iff (by decide) (by decide) hdistinct).mp hpages).next 0 4
    (by rw [opening, newest, hboundary]; rfl) 1 (by rw [rowsOfPage, hrows]; rfl)
  exact absurd huncut (by decide)

end listing

end QuerySql
