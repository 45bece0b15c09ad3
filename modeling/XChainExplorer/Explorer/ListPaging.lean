import XChainExplorer.Explorer.ListTables
import Mathlib.Data.Multiset.Sort

/-! # Explorer paging

    The explorer pages a list by the cursor of a row it shows. The first and the last page are opened
    by a boundary, a page that goes on is stopped by the row one past it, and a page that was read
    backwards is turned over before it is shown. -/

namespace QuerySql

/-- The page a request asks for. -/
inductive PageAction where
  | first
  | last
  | next
  | prev
  deriving DecidableEq

/-- The query string of a page. A `next` or `prev` page continues from a row's cursor, which the
    other two leave empty. -/
structure PageQuery where
  action : PageAction
  offset : Option ℕ := none
  start : ℕ := 0
  length : ℕ
  total : Option ℕ := none

/-- The most rows on a page. -/
def LIST_LIMIT_MAX : ℕ := 100

/-- `explorerLimits`: the last page has the rows that the record total leaves for it. -/
def explorerLimits (q : PageQuery) : ℕ × SortOrder :=
  let length := min q.length LIST_LIMIT_MAX
  match q.action, q.total with
  | .last, some total => (max 1 (min (total - q.start) LIST_LIMIT_MAX), .asc)
  | .last, none | .prev, _ => (length, .asc)
  | .first, _ | .next, _ => (length, .desc)

/-- The rows one request is about, each by its cursor: those its list selects, those its first and last
    pages are opened by, and those its pages are stopped by. -/
structure Listing where
  method : Method
  rows : Multiset ℕ
  boundary : Multiset ℕ
  stops : Multiset ℕ

def listing (db : Db) (dense : Bool) (method : Method) (filter : Filter) : Listing where
  method
  rows := listRows db dense method filter
  boundary := offsetRows db method filter
  stops := stopRows db method filter

/-- `ORDER BY cursor` -/
def ordered (rows : Multiset ℕ) : SortOrder → List ℕ
  | .asc => rows.sort (· ≤ ·)
  | .desc => rows.sort (· ≥ ·)

namespace Listing
variable (l : Listing)

/-- A first page opens above the newest row, a last page at the oldest but as many as it holds. -/
def firstLastOffset (action : PageAction) (length : ℕ) (offset1 : Option ℕ) : Option ℕ :=
  match action with
  | .first => (((ordered l.boundary .desc).take 1).getLast?.map (· + 1)).or offset1
  | .last => ((ordered l.boundary .asc).take (length + 1)).getLast?.or offset1
  | .next | .prev => offset1

/-- The row one past the page, in the direction of the page, when there is one. -/
def stopOffset (action : PageAction) (length offset1 : ℕ) : Option ℕ :=
  let rows :=
    match action with
    | .prev => (ordered (l.stops.filter (offset1 < ·)) .asc).take (length + 1)
    | _ => (ordered (l.stops.filter (· < offset1)) .desc).take (length + 1)
  if rows.length = length + 1 then rows.getLast? else none

/-- Where a page starts and stops. The stop that is reckoned for blocks is dropped again. -/
def getQueryOffsets (q : PageQuery) : Option ℕ × Option ℕ :=
  let (length, _) := explorerLimits q
  let offset1 := l.firstLastOffset q.action length q.offset
  (offset1, if l.method = .getBlocks then none else offset1.bind (l.stopOffset q.action length))

/-- The stop that is zero is none. -/
def getQueryOffsetSql (action : PageAction) (start stop : Option ℕ) (cursor : ℕ) : Bool :=
  let stop := stop.filter (· ≠ 0)
  match start, action with
  | none, _ => true
  | some start, .prev => start < cursor && stop.all (cursor < ·)
  | some start, .last => cursor ≤ start
  | some start, .first | some start, .next => cursor < start && stop.all (· < cursor)

/-- The history has a predicate of its own, which knows no stop and no last page. A start that was
    computed is a number, and zero is none. -/
def getHistoryOffsetSql (action : PageAction) (start : Option ℕ) (cursor : ℕ) : Bool :=
  match start, action with
  | none, _ => true
  | some start, .prev => start < cursor
  | some start, .next => cursor < start
  | some start, .first | some start, .last => start = 0 || cursor < start

def offsetSql (action : PageAction) (offsets : Option ℕ × Option ℕ) (cursor : ℕ) : Bool :=
  if l.method = .getHistory then getHistoryOffsetSql action offsets.1 cursor
  else getQueryOffsetSql action offsets.1 offsets.2 cursor

/-- Without an offset the rows are those of the window by position. The lists of several rows to an
    action set one. -/
def collectPage (q : PageQuery) (start : Option ℕ) (rows : List ℕ) : List ℕ :=
  let offset := match q.action with
    | .first | .last => (start.filter (· ≠ 0)).isSome
    | .next | .prev => start.isSome
  if offset || l.method = .getSends || l.method = .getDestroys then rows
  else (rows.take (q.start + min q.length LIST_LIMIT_MAX)).drop q.start

/-- The rows of a page as they are shown, the newest first. -/
def getPagingDataResults (q : PageQuery) : List ℕ :=
  let (limit, order) := explorerLimits q
  let offsets := l.getQueryOffsets q
  let data := (ordered (l.rows.filter (l.offsetSql q.action offsets ·)) order).take limit
  let shown := l.collectPage q offsets.1 data
  match q.action with
  | .prev | .last => shown.reverse
  | .first | .next => shown

end Listing

end QuerySql
