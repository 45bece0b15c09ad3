import XChainExplorer.Lib.Cursor
import XChainExplorer.Lib.JsNumber

/-! # Keyset paging

    The API pages a list by a bound on its cursor column. The bound decides which way the list is
    walked, the requested order how a page is shown, and the response names the cursor of the row
    farthest along the walk. A caller who follows these cursors reads the list exactly once. -/

namespace QuerySql

open JsNumber

/-! ### The request -/

/-- A refusal: a 400 with its message and code. -/
structure DbInputError where
  message : String
  code : String
  deriving DecidableEq

/-- The two orders. -/
inductive SortOrder where
  | asc
  | desc
  deriving DecidableEq

/-- The query string of a list request, each parameter as it was sent. -/
structure ApiQuery where
  limit : Option String := none
  page : Option String := none
  sortorder : Option String := none
  before : Option String := none
  after : Option String := none

/-- `isSafeIntegerParam`, with the integer. -/
def safeIntegerParam (raw : String) : Option ℕ := (decimalDigits raw.toList).filter (· < 2 ^ 53)

/-- An integer parameter, with its fallback and its least value. -/
def queryInteger (raw : Option String) (name : String) (fallback min : ℕ) (code : String) :
    Except DbInputError ℕ :=
  match raw with
  | none | some "" => .ok fallback
  | some raw =>
    match (safeIntegerParam raw).filter (min ≤ ·) with
    | some n => .ok n
    | none => .error ⟨"Invalid " ++ name, code⟩

/-- The order that a request asks for. -/
def querySortOrder (raw : Option String) (fallback : SortOrder) : Except DbInputError SortOrder :=
  match raw with
  | none | some "" => .ok fallback
  | some raw =>
    if raw.toUpper = "ASC" then .ok .asc
    else if raw.toUpper = "DESC" then .ok .desc
    else .error ⟨"Invalid sortorder", "INVALID_SORTORDER"⟩

/-- The longest page of a method. -/
def listLimitMax (method : String) : ℕ :=
  if method ∈ ["getBalances", "getHolders"] then 500 else 100

/-- The length of a page. -/
def apiLimit (q : ApiQuery) (max : ℕ) : Except DbInputError ℕ := do
  let limit ← queryInteger q.limit "limit" max 1 "INVALID_LIMIT"
  return min limit max

/-- The deepest row that is reached by position. -/
def OFFSET_CAP : ℕ := 100000

/-- The rows before it. A page too deep to count to is refused. -/
def apiPageOffset (q : ApiQuery) (limit : ℕ) : Except DbInputError ℕ := do
  let page ← queryInteger q.page "page" 1 1 "INVALID_PAGE"
  let offset := (page - 1) * limit
  let keyset := q.before.isSome || q.after.isSome
  if offset > OFFSET_CAP ∧ !keyset then
    .error ⟨"page is beyond the deepest page served by position (100000 rows); " ++
      "page by before/after where the list offers them", "PAGE_TOO_DEEP"⟩
  else return if keyset then 0 else offset

/-! ### The bound -/

/-- The lists that page by a cursor. -/
def KEYSET_METHODS : List String :=
  ["getHistory", "getCommitments", "getActions", "getAddresses", "getBatches", "getBetFeeds",
    "getBets", "getBroadcasts", "getCallbacks", "getCoinpayExpires", "getCoinpayObligations",
    "getCoinpays", "getContracts", "getDelegations", "getDeposits", "getDispensers",
    "getDispenses", "getDividends", "getExecutions", "getFiles", "getIssues", "getLinks",
    "getLists", "getMessages", "getMints", "getOrderCancels", "getOrderEdits", "getOrders",
    "getPolls", "getPrices", "getSleeps", "getStakes", "getSwapCancels", "getSwapEdits",
    "getSwaps", "getSweeps", "getUnstakes", "getWithdrawals"]

/-- The column a keyset list is cut at, without its alias. -/
def keysetColumn (method : String) : String :=
  if method = "getCommitments" then "block_index" else "action_index"

/-- A bound: the rows before a cursor value, or those after it. -/
inductive Keyset where
  | before (value : ℕ)
  | after (value : ℕ)
  deriving DecidableEq

/-- The cursor of a request. -/
def requestedKeyset (method : String) (q : ApiQuery) : Except DbInputError (Option Keyset) :=
  let bound (name raw : String) (keyset : ℕ → Keyset) :=
    if method ∉ KEYSET_METHODS then
      .error ⟨"This list does not page by " ++ name, "CURSOR_UNSUPPORTED"⟩
    else match safeIntegerParam raw with
      | some value => .ok (some (keyset value))
      | none => .error ⟨"Invalid " ++ name ++ " cursor", "INVALID_CURSOR"⟩
  match q.before, q.after with
  | none, none => .ok none
  | some _, some _ => .error ⟨"Use before or after, not both", "INVALID_CURSOR"⟩
  | some raw, none => bound "before" raw .before
  | none, some raw => bound "after" raw .after

/-- What comes later in an order. -/
def SortOrder.Later : SortOrder → ℕ → ℕ → Prop
  | .asc => (· < ·)
  | .desc => (· > ·)

instance (order : SortOrder) : DecidableRel order.Later :=
  match order with
  | .asc => inferInstanceAs (DecidableRel ((· < ·) : ℕ → ℕ → Prop))
  | .desc => inferInstanceAs (DecidableRel ((· > ·) : ℕ → ℕ → Prop))

/-- The row that a cursor stands at. -/
def Keyset.value : Keyset → ℕ
  | .before value | .after value => value

/-- A bound is walked away from: before it downward, after it upward. -/
def Keyset.walk : Keyset → SortOrder
  | .before _ => .desc
  | .after _ => .asc

/-- The order that the rows are read in: the cursor's own where there is one. -/
def keysetWalkOrder (keyset : Option Keyset) (order : SortOrder) : SortOrder :=
  (keyset.map Keyset.walk).getD order

/-- What the request asks of the list: the order is that of the walk. -/
structure ListSql where
  limit : ℕ
  order : SortOrder
  apiOffset : ℕ
  keyset : Option Keyset
  keysetReversed : Bool

/-- The query of a request. -/
def getQuery (method : String) (q : ApiQuery) : Except DbInputError ListSql := do
  let limit ← apiLimit q (listLimitMax method)
  let order ← querySortOrder q.sortorder .desc
  let apiOffset ← apiPageOffset q limit
  let keyset ← requestedKeyset method q
  let walk := keysetWalkOrder keyset order
  return { limit, order := walk, apiOffset, keyset, keysetReversed := keyset.isSome && walk ≠ order }

/-- The end of the window a request shows. -/
def pagingWindow (method : String) (q : ApiQuery) : ℕ :=
  max 1 (min ((q.limit.bind safeIntegerParam).getD (listLimitMax method)) (listLimitMax method))

/-! ### The list -/

/-- The rows the filter of a list request selects, by their cursor. Every row serves its cursor under
    the list's column, no two rows share one, and all of them are safe integers. -/
structure KeysetList (Row : Type) where
  method : String
  /-- Whether its pages are picked by id before their rows are read. -/
  planned : Bool
  rows : List Row
  column : Row → String → Option ℕ
  cursor : Row → ℕ
  supported : method ∈ KEYSET_METHODS
  served : ∀ row ∈ rows, column row (keysetColumn method) = some (cursor row)
  sorted : rows.Pairwise fun a b => cursor a < cursor b
  safe : ∀ row ∈ rows, cursor row < 2 ^ 53

namespace KeysetList
variable {Row : Type} (list : KeysetList Row)

/-- The rows in an order. -/
def rowsIn : SortOrder → List Row
  | .asc => list.rows
  | .desc => list.rows.reverse

/-- The rows of a request strictly beyond its bound, in the order of its walk. -/
def listed (sql : ListSql) : List Row :=
  match sql.keyset with
  | none => list.rowsIn sql.order
  | some keyset => Cursor.beyond sql.order.Later list.cursor (list.rowsIn sql.order) keyset.value

/-- The rows of a query, as one statement reads them. -/
def rowQuery (sql : ListSql) : List Row := ((list.listed sql).drop sql.apiOffset).take sql.limit

/-- The page by its ids, and then the rows of these ids; ids that repeat fall back on the one
    statement. -/
def idsFirstRows (sql : ListSql) : List Row :=
  let ids := (list.rowQuery sql).map list.cursor
  if ids.Nodup then (list.rowsIn sql.order).filter fun row => list.cursor row ∈ ids
  else list.rowQuery sql

/-- Or by their ids first, where the list has a plan. -/
def runListQuery (sql : ListSql) : List Row :=
  if list.planned then list.idsFirstRows sql else list.rowQuery sql

/-- A page that was read against the requested order is shown in that order. -/
def getData (sql : ListSql) : List Row :=
  let data := list.runListQuery sql
  if sql.keysetReversed then data.reverse else data

/-- The rows of the window a request shows. -/
def collectPage (q : ApiQuery) (data : List Row) : List Row := data.take (pagingWindow list.method q)

/-- The cursor that continues the list: that of the row farthest along the walk. -/
def nextCursor (sql : ListSql) (data : List Row) : Option (SortOrder × String) :=
  let last := if sql.keysetReversed then data.head? else data.getLast?
  (last.bind fun row => list.column row (keysetColumn list.method)).map fun value =>
    (sql.order, value.repr)

/-- A response, with the walk it was read by. -/
structure Answer (Row : Type) where
  sql : ListSql
  data : List Row
  next : Option (SortOrder × String)

/-- The answer to a request. -/
def answer (q : ApiQuery) : Except DbInputError (Answer Row) := do
  let sql ← getQuery list.method q
  let data := list.getData sql
  return { sql, data := list.collectPage q data, next := list.nextCursor sql data }

/-- The rows of a page in the order of the walk. -/
def Answer.walked (a : Answer Row) : List Row :=
  if a.sql.keysetReversed then a.data.reverse else a.data

end KeysetList

/-- The next request: `next_after` where the walk goes up, `next_before` where it goes down. -/
def ApiQuery.follow (q : ApiQuery) : SortOrder × String → ApiQuery
  | (.asc, value) => { q with page := none, before := none, after := some value }
  | (.desc, value) => { q with page := none, before := some value, after := none }

/-- The pages a caller reads who follows the cursors until a response carries none. -/
inductive KeysetList.Walk {Row : Type} (list : KeysetList Row) : ApiQuery → List (List Row) → Prop
  | last {q a} (h : list.answer q = .ok a) (hnext : a.next = none) : Walk list q [a.walked]
  | page {q a cursor pages} (h : list.answer q = .ok a) (hnext : a.next = some cursor)
      (hrest : Walk list (q.follow cursor) pages) : Walk list q (a.walked :: pages)

/-! ### Requests that are accepted -/

/-- A request for a list from its start or from one bound, with a limit of at least one. -/
structure ApiQuery.WellFormed (q : ApiQuery) : Prop where
  limit : ∀ raw ∈ q.limit, ∃ n, 1 ≤ n ∧ safeIntegerParam raw = some n
  page : q.page = none
  sortorder : ∀ raw ∈ q.sortorder, raw.toUpper = "ASC" ∨ raw.toUpper = "DESC"
  one : q.before = none ∨ q.after = none
  bound : ∀ raw, q.before = some raw ∨ q.after = some raw → (safeIntegerParam raw).isSome

section requests
variable {method name code raw : String} {q : ApiQuery} {fallback min n : ℕ}

theorem safeIntegerParam_repr (hn : n < 2 ^ 53) : safeIntegerParam n.repr = some n := by
  have hdigits : ∀ c ∈ Nat.toDigits 10 n, c.isDigit :=
    fun c hc => Nat.isDigit_of_mem_toDigits (by norm_num) le_rfl hc
  rw [safeIntegerParam, Nat.toList_repr, decimalDigits,
    if_pos ⟨Nat.toDigits_ne_nil, List.all_eq_true.mpr hdigits⟩, Nat.ofDigitChars_ten_toDigits]
  exact Option.filter_eq_some_iff.mpr ⟨rfl, decide_eq_true hn⟩

theorem queryInteger_of_param (h : safeIntegerParam raw = some n) (hmin : min ≤ n) :
    queryInteger (some raw) name fallback min code = .ok n := by
  have hne : raw ≠ "" := by
    rintro rfl
    cases h
  unfold queryInteger
  split
  case h_1 heq => cases heq
  case h_2 heq => exact absurd (Option.some.inj heq) hne
  case h_3 heq =>
    obtain rfl := Option.some.inj heq
    rw [h, Option.filter_some, if_pos (decide_eq_true hmin)]

theorem getQuery_of_parts {limit apiOffset : ℕ} {order : SortOrder} {keyset : Option Keyset}
    (hlimit : apiLimit q (listLimitMax method) = .ok limit)
    (horder : querySortOrder q.sortorder .desc = .ok order)
    (hoffset : apiPageOffset q limit = .ok apiOffset)
    (hkeyset : requestedKeyset method q = .ok keyset) :
    getQuery method q = .ok
      { limit
        order := keysetWalkOrder keyset order
        apiOffset
        keyset
        keysetReversed := keyset.isSome && keysetWalkOrder keyset order ≠ order } := by
  simp only [getQuery, bind, Except.bind, hlimit, horder, hoffset, hkeyset]
  rfl

namespace ApiQuery

/-- The bound of a well-formed request. -/
def keyset (q : ApiQuery) : Option Keyset :=
  match q.before.bind safeIntegerParam, q.after.bind safeIntegerParam with
  | some value, _ => some (.before value)
  | none, some value => some (.after value)
  | none, none => none

/-- The order a well-formed request is shown in. -/
def shown (q : ApiQuery) : SortOrder := if q.sortorder.any (·.toUpper = "ASC") then .asc else .desc

/-- The query that a request comes to. -/
def sql (q : ApiQuery) (method : String) : ListSql where
  limit := pagingWindow method q
  order := keysetWalkOrder q.keyset q.shown
  apiOffset := 0
  keyset := q.keyset
  keysetReversed := q.keyset.isSome && keysetWalkOrder q.keyset q.shown ≠ q.shown

end ApiQuery

theorem listLimitMax_pos (method : String) : 1 ≤ listLimitMax method := by
  unfold listLimitMax
  split_ifs <;> decide

section wellFormed
variable (h : q.WellFormed)

include h

theorem ApiQuery.WellFormed.apiLimit_eq :
    apiLimit q (listLimitMax method) = .ok (pagingWindow method q) := by
  have hmax := listLimitMax_pos method
  rw [apiLimit, pagingWindow]
  cases hlimit : q.limit with
  | none =>
    rw [Option.bind_none, Option.getD_none, min_self, max_eq_right hmax]
    exact congrArg Except.ok (min_self _)
  | some raw =>
    obtain ⟨n, hn, hraw⟩ := h.limit raw hlimit
    rw [queryInteger_of_param hraw hn, Option.bind_some, hraw, Option.getD_some,
      max_eq_right (le_min hn hmax)]
    rfl

theorem ApiQuery.WellFormed.querySortOrder_eq :
    querySortOrder q.sortorder .desc = .ok q.shown := by
  rw [ApiQuery.shown]
  cases hsort : q.sortorder with
  | none => rfl
  | some raw =>
    have hraw := h.sortorder raw hsort
    have hne : raw ≠ "" := by
      rintro rfl
      revert hraw
      decide +kernel
    unfold querySortOrder
    split
    case h_1 heq => cases heq
    case h_2 heq => exact absurd (Option.some.inj heq) hne
    case h_3 heq =>
      obtain rfl := Option.some.inj heq
      rcases hraw with hasc | hdesc
      · simp [hasc]
      · simp [hdesc]

theorem ApiQuery.WellFormed.apiPageOffset_eq (limit : ℕ) : apiPageOffset q limit = .ok 0 := by
  rw [apiPageOffset, h.page]
  simp only [queryInteger, bind, Except.bind, Nat.sub_self, Nat.zero_mul, ite_self]
  rw [if_neg (by simp [OFFSET_CAP])]
  rfl

theorem ApiQuery.WellFormed.requestedKeyset_eq (hmethod : method ∈ KEYSET_METHODS) :
    requestedKeyset method q = .ok q.keyset := by
  unfold requestedKeyset ApiQuery.keyset
  cases hbefore : q.before with
  | none =>
    cases hafter : q.after with
    | none => rfl
    | some raw =>
      obtain ⟨value, hvalue⟩ := Option.isSome_iff_exists.mp (h.bound raw (.inr hafter))
      simp [hmethod, hvalue]
  | some raw =>
    cases hafter : q.after with
    | none =>
      obtain ⟨value, hvalue⟩ := Option.isSome_iff_exists.mp (h.bound raw (.inl hbefore))
      simp [hmethod, hvalue]
    | some raw' =>
      have hone := h.one
      rw [hbefore, hafter] at hone
      rcases hone with hone | hone <;> cases hone

/-- A well-formed request is accepted. -/
theorem ApiQuery.WellFormed.getQuery_eq (hmethod : method ∈ KEYSET_METHODS) :
    getQuery method q = .ok (q.sql method) :=
  getQuery_of_parts h.apiLimit_eq h.querySortOrder_eq (h.apiPageOffset_eq _)
    (h.requestedKeyset_eq hmethod)

/-- The request that follows a cursor is well formed, and walks on as the one before it did. -/
theorem ApiQuery.WellFormed.follow (order : SortOrder) (hn : n < 2 ^ 53) :
    (q.follow (order, n.repr)).WellFormed := by
  have hvalue := safeIntegerParam_repr hn
  cases order with
  | asc =>
    refine ⟨h.limit, rfl, h.sortorder, .inl rfl, ?_⟩
    rintro raw (hraw | hraw)
    · cases hraw
    · obtain rfl := Option.some.inj hraw
      rw [hvalue]
      rfl
  | desc =>
    refine ⟨h.limit, rfl, h.sortorder, .inr rfl, ?_⟩
    rintro raw (hraw | hraw)
    · obtain rfl := Option.some.inj hraw
      rw [hvalue]
      rfl
    · cases hraw

end wellFormed

theorem keyset_follow (order : SortOrder) (hn : n < 2 ^ 53) :
    ∃ keyset, (q.follow (order, n.repr)).keyset = some keyset ∧ keyset.value = n ∧
      keyset.walk = order := by
  have hvalue := safeIntegerParam_repr hn
  cases order with
  | asc => exact ⟨.after n, by simp [ApiQuery.keyset, ApiQuery.follow, hvalue], rfl, rfl⟩
  | desc => exact ⟨.before n, by simp [ApiQuery.keyset, ApiQuery.follow, hvalue], rfl, rfl⟩

end requests

/-! ### The walk -/

theorem SortOrder.later_asymm (order : SortOrder) (a b : ℕ) (h : order.Later a b) :
    ¬ order.Later b a := by
  cases order with
  | asc => exact Nat.lt_asymm h
  | desc => exact Nat.lt_asymm h

theorem SortOrder.later_trans (order : SortOrder) (a b c : ℕ) (hab : order.Later a b)
    (hbc : order.Later b c) : order.Later a c := by
  cases order with
  | asc => exact Nat.lt_trans hab hbc
  | desc => exact Nat.lt_trans hbc hab

namespace KeysetList
variable {Row : Type} {list : KeysetList Row} {q : ApiQuery} {sql : ListSql} {row : Row}

theorem mem_rowsIn {order : SortOrder} : row ∈ list.rowsIn order ↔ row ∈ list.rows := by
  cases order with
  | asc => exact Iff.rfl
  | desc => exact List.mem_reverse

theorem rowsIn_pairwise (order : SortOrder) :
    (list.rowsIn order).Pairwise fun a b => order.Later (list.cursor a) (list.cursor b) := by
  cases order with
  | asc => exact list.sorted
  | desc => exact List.pairwise_reverse.mpr list.sorted

theorem nodup_rowsIn (order : SortOrder) : ((list.rowsIn order).map list.cursor).Nodup := by
  rw [List.Nodup, List.pairwise_map]
  refine (rowsIn_pairwise order).imp fun {a b} h heq => ?_
  rw [heq] at h
  exact order.later_asymm _ _ h h

theorem listed_sublist : (list.listed sql).Sublist (list.rowsIn sql.order) := by
  unfold listed
  split
  · exact List.Sublist.refl _
  · exact List.filter_sublist

/-- Both plans of a page read the same rows. -/
theorem runListQuery_eq (sql : ListSql) : list.runListQuery sql = list.rowQuery sql := by
  have hsub : (list.rowQuery sql).Sublist (list.rowsIn sql.order) :=
    ((List.take_sublist _ _).trans (List.drop_sublist _ _)).trans listed_sublist
  rw [runListQuery, idsFirstRows]
  split_ifs
  · exact Cursor.filter_mem_map hsub (nodup_rowsIn sql.order)
  · rfl
  · rfl

/-- The page of a request, in the order of its walk. -/
def pageOf (list : KeysetList Row) (q : ApiQuery) : List Row :=
  (list.listed (q.sql list.method)).take (pagingWindow list.method q)

theorem mem_rows_of_mem_pageOf (h : row ∈ list.pageOf q) : row ∈ list.rows :=
  mem_rowsIn.mp (listed_sublist.subset (List.mem_of_mem_take h))

theorem getData_eq : list.getData (q.sql list.method) =
    if (q.sql list.method).keysetReversed then (list.pageOf q).reverse else list.pageOf q := by
  rw [getData, runListQuery_eq]
  rfl

theorem nextCursor_eq : list.nextCursor (q.sql list.method) (list.getData (q.sql list.method)) =
    (list.pageOf q).getLast?.map fun row =>
      ((q.sql list.method).order, (list.cursor row).repr) := by
  have hlast : (if (q.sql list.method).keysetReversed then
      (list.getData (q.sql list.method)).head?
      else (list.getData (q.sql list.method)).getLast?) = (list.pageOf q).getLast? := by
    rw [getData_eq]
    split_ifs
    · exact List.head?_reverse
    · rfl
  rw [nextCursor, hlast]
  cases hrow : (list.pageOf q).getLast? with
  | none => rfl
  | some row =>
    have hmem := mem_rows_of_mem_pageOf (List.mem_of_getLast? hrow)
    rw [Option.bind_some, list.served row hmem]
    rfl

/-- What a well-formed request is answered. -/
theorem answer_eq (h : q.WellFormed) : list.answer q = .ok
    { sql := q.sql list.method
      data := list.getData (q.sql list.method)
      next := (list.pageOf q).getLast?.map fun row =>
        ((q.sql list.method).order, (list.cursor row).repr) } := by
  have hlength : (list.getData (q.sql list.method)).length ≤ pagingWindow list.method q := by
    rw [getData_eq]
    split_ifs
    · rw [List.length_reverse]
      exact List.length_take_le _ _
    · exact List.length_take_le _ _
  rw [answer, h.getQuery_eq list.supported]
  simp only [bind, Except.bind, collectPage, List.take_of_length_le hlength, nextCursor_eq]
  rfl

theorem walked_eq (next : Option (SortOrder × String)) :
    Answer.walked ⟨q.sql list.method, list.getData (q.sql list.method), next⟩ = list.pageOf q := by
  rw [Answer.walked, getData_eq]
  split_ifs
  · exact List.reverse_reverse _
  · rfl

/-- The request behind the last row of a page lists what the page left out. -/
theorem listed_follow (hrow : (list.pageOf q).getLast? = some row) :
    list.listed ((q.follow ((q.sql list.method).order, (list.cursor row).repr)).sql list.method) =
      (list.listed (q.sql list.method)).drop (pagingWindow list.method q) := by
  have hmem := List.mem_of_mem_take (List.mem_of_getLast? hrow)
  have hsafe := list.safe row (mem_rows_of_mem_pageOf (List.mem_of_getLast? hrow))
  have hpairwise : (list.listed (q.sql list.method)).Pairwise fun a b =>
      (q.sql list.method).order.Later (list.cursor a) (list.cursor b) :=
    (rowsIn_pairwise _).sublist listed_sublist
  have hdrop := Cursor.beyond_of_getLast_take (q.sql list.method).order.later_asymm hpairwise hrow
  obtain ⟨keyset, hkeyset, hvalue, hwalk⟩ := keyset_follow (q := q) (q.sql list.method).order hsafe
  generalize q.follow ((q.sql list.method).order, (list.cursor row).repr) = q' at hkeyset ⊢
  have horder : (q'.sql list.method).order = (q.sql list.method).order :=
    (congrArg (keysetWalkOrder · q'.shown) hkeyset).trans hwalk
  have hbound : (q'.sql list.method).keyset = some keyset := hkeyset
  have hnext : list.listed (q'.sql list.method) =
      Cursor.beyond (q.sql list.method).order.Later list.cursor
        (list.rowsIn (q.sql list.method).order) (list.cursor row) := by
    rw [listed, hbound]
    dsimp only
    rw [horder, hvalue]
  rw [hnext, ← hdrop]
  -- beyond a row of the page, the list and what was left of it are the same
  unfold listed at hmem ⊢
  split
  · rfl
  case _ keyset' hkeyset' =>
    rw [hkeyset'] at hmem
    have hlater := of_decide_eq_true (List.mem_filter.mp hmem).2
    exact (Cursor.beyond_filter (q.sql list.method).order.later_trans hlater).symm

theorem flatten_walk {pages : List (List Row)} (hwalk : list.Walk q pages) (h : q.WellFormed) :
    pages.flatten = list.listed (q.sql list.method) := by
  have hpos : 1 ≤ pagingWindow list.method q := le_max_left _ _
  induction hwalk with
  | @last q a ha hnext =>
    rw [answer_eq h] at ha
    cases ha
    have hnil : list.pageOf q = [] := List.getLast?_eq_none_iff.mp (Option.map_eq_none_iff.mp hnext)
    rw [walked_eq, List.flatten_singleton, hnil]
    -- an empty page of a limit of at least one leaves nothing out
    rcases List.take_eq_nil_iff.mp hnil with hzero | hlisted
    · omega
    · exact hlisted.symm
  | @page q a cursor pages ha hnext hrest ih =>
    rw [answer_eq h] at ha
    cases ha
    obtain ⟨row, hrow, rfl⟩ := Option.map_eq_some_iff.mp hnext
    have hsafe := list.safe row (mem_rows_of_mem_pageOf (List.mem_of_getLast? hrow))
    rw [walked_eq, List.flatten_cons, ih (h.follow _ hsafe) (le_max_left _ _), listed_follow hrow]
    exact List.take_append_drop _ _

theorem exists_walk (h : q.WellFormed) : ∃ pages, list.Walk q pages := by
  generalize hn : (list.listed (q.sql list.method)).length = n
  induction n using Nat.strong_induction_on generalizing q with
  | _ n ih =>
    cases hlast : (list.pageOf q).getLast? with
    | none =>
      refine ⟨_, .last (answer_eq h) ?_⟩
      rw [hlast]
      rfl
    | some row =>
      have hsafe := list.safe row (mem_rows_of_mem_pageOf (List.mem_of_getLast? hlast))
      have hpos : 1 ≤ pagingWindow list.method q := le_max_left _ _
      have hne : 0 < (list.listed (q.sql list.method)).length :=
        List.length_pos_of_mem (List.mem_of_mem_take (List.mem_of_getLast? hlast))
      have hlength := congrArg List.length (listed_follow hlast)
      rw [List.length_drop] at hlength
      obtain ⟨pages, hpages⟩ := ih _ (by omega) (h.follow _ hsafe) hlength
      refine ⟨_, .page (answer_eq h) ?_ hpages⟩
      rw [hlast]
      rfl

end KeysetList

/-- The cursor values strictly beyond the bound of a request. -/
def ApiQuery.Admits (q : ApiQuery) (value : ℕ) : Prop :=
  ∀ keyset ∈ q.keyset, keyset.walk.Later keyset.value value

theorem KeysetList.mem_listed {Row : Type} {list : KeysetList Row} {q : ApiQuery} {row : Row} :
    row ∈ list.listed (q.sql list.method) ↔ row ∈ list.rows ∧ q.Admits (list.cursor row) := by
  have hbound : (q.sql list.method).keyset = q.keyset := rfl
  have horder : (q.sql list.method).order = keysetWalkOrder q.keyset q.shown := rfl
  rw [listed, hbound, ApiQuery.Admits, horder]
  cases q.keyset with
  | none => simp [mem_rowsIn]
  | some keyset =>
    simp only [Cursor.beyond, List.mem_filter, mem_rowsIn, keysetWalkOrder, Option.map_some,
      Option.getD_some, Option.mem_some_iff, forall_eq']
    exact and_congr_right fun _ => decide_eq_true_iff

/-- A caller who follows the cursors of a well-formed request is done after finitely many pages, and
    has then read the rows strictly beyond its bound exactly once, in the order of the walk. -/
theorem keyset_pages_partition {Row : Type} (list : KeysetList Row) {q : ApiQuery}
    (h : q.WellFormed) :
    (∃ pages, list.Walk q pages) ∧ ∀ pages, list.Walk q pages →
      (pages.flatten.Pairwise fun a b =>
        (keysetWalkOrder q.keyset q.shown).Later (list.cursor a) (list.cursor b)) ∧
      ∀ row, row ∈ pages.flatten ↔ row ∈ list.rows ∧ q.Admits (list.cursor row) := by
  refine ⟨list.exists_walk h, fun pages hwalk => ?_⟩
  rw [list.flatten_walk hwalk h]
  exact ⟨(list.rowsIn_pairwise _).sublist list.listed_sublist, fun row => list.mem_listed⟩

/-- The actions 3, 5 and 8. -/
def threeActions : KeysetList ℕ where
  method := "getActions"
  planned := false
  rows := [3, 5, 8]
  column := fun row _ => some row
  cursor := id
  supported := by decide
  served := by decide
  sorted := by decide
  safe := by decide

/-- Before 8, two to a page, shown in ascending order. -/
def beforeEight : ApiQuery where
  limit := some "2"
  sortorder := some "asc"
  before := some "8"

theorem wellFormed_beforeEight : beforeEight.WellFormed where
  limit := by
    rintro raw ⟨⟩
    exact ⟨2, by decide, by decide⟩
  page := rfl
  sortorder := by
    rintro raw ⟨⟩
    decide +kernel
  one := .inr rfl
  bound := by
    rintro raw (⟨⟨⟩⟩ | ⟨⟨⟩⟩)
    decide

theorem keyset_pages_partition_three : ∃ pages, threeActions.Walk beforeEight pages :=
  (keyset_pages_partition threeActions wellFormed_beforeEight).1

end QuerySql
