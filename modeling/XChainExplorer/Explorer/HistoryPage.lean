import XChainExplorer.Explorer.ListPaging
import XChainExplorer.Lib.DistinctPage
import XChainExplorer.Lib.OrderBy

/-! # A page of the history feed

    A page of the feed is read in two legs. The first reads the action indexes of the page through the
    joins that decide membership, the second the rows of these actions. An index that comes twice sends
    the page to one statement with a `DISTINCT` instead. -/

namespace HistoryPage

open QuerySql (SortOrder Keyset PageAction sqlEq)
open QuerySql.Listing (getHistoryOffsetSql)
open DistinctPage (page)
open OrderBy (orderBy)

/-! ### The tables -/

/-- A row of `actions`. -/
structure ActionRow where
  action_index : ℕ
  block_index : ℕ
  tx_index : Option ℕ
  tx_vout : Option ℕ
  action_id : ℕ
  deriving DecidableEq

/-- A row of `blocks`. -/
structure BlockRow where
  block_index : Option ℕ
  block_time : Option ℕ
  deriving DecidableEq

/-- A row of `mappings_actions`. -/
structure MappingRow where
  action_index : ℕ
  type_id : Option ℕ
  id : ℕ
  deriving DecidableEq

/-- A row of `transactions`. -/
structure TransactionRow where
  tx_index : ℕ
  tx_hash_id : ℕ
  deriving DecidableEq

/-- The rows of each table as they are read. Actions and transactions are unique by their index, and an
    index table has one text for an id; a block or a mapping may stand in its table twice. -/
structure Db where
  actions : List ActionRow
  actions_unique : (actions.map ActionRow.action_index).Nodup
  blocks : List BlockRow
  mappings_actions : List MappingRow
  transactions : List TransactionRow
  transactions_unique : (transactions.map TransactionRow.tx_index).Nodup
  batches : List ℕ
  index_actions : ℕ → Option String
  index_transactions : ℕ → Option String

/-! ### The feed -/

/-- What the history is asked of. -/
inductive Feed where
  | address (id : ℕ)
  | token (id : ℕ)
  | block (height : ℕ)
  | recent
  deriving DecidableEq

/-- A row of the feed's FROM before the blocks join. -/
structure SourceRow where
  m : Option MappingRow
  a1 : ActionRow

/-- `historyFeedShape`: an address or a token is looked up in the mappings, the others read the actions. -/
def Feed.source (db : Db) : Feed → List SourceRow
  | .address _ | .token _ => db.mappings_actions.flatMap fun m =>
      (db.actions.filter (·.action_index = m.action_index)).map (⟨some m, ·⟩)
  | .block _ | .recent => db.actions.map (⟨none, ·⟩)

/-- The cursor of a row: the mapping's action, or the action itself. -/
def SourceRow.cursor (s : SourceRow) : ℕ :=
  match s.m with
  | some m => m.action_index
  | none => s.a1.action_index

/-- The condition of a feed. -/
def historyClause (feed : Feed) (s : SourceRow) : Bool :=
  match feed with
  | .address id => s.m.any fun m => m.type_id = some 2 && m.id = id
  | .token id => s.m.any fun m => m.type_id = some 1 && m.id = id
  | .block height => s.a1.block_index = height
  | .recent => true

/-- What a page is asked with: the bound of an explorer page, the bound of an API page, the order, the
    limit, and the rows that an API page number skips. -/
structure PageSql where
  offset : Option (PageAction × ℕ) := none
  keyset : Option Keyset := none
  order : SortOrder
  limit : ℕ
  api : Bool
  apiOffset : ℕ := 0

/-- The condition of a cursor. -/
def keysetSql (keyset : Option Keyset) (cursor : ℕ) : Bool :=
  match keyset with
  | none => true
  | some (.before value) => cursor < value
  | some (.after value) => value < cursor

/-- The WHERE of `getHistoryData`. -/
def whereSql (feed : Feed) (p : PageSql) (s : SourceRow) : Bool :=
  historyClause feed s && (p.offset.all fun offset => getHistoryOffsetSql offset.1 (some offset.2) s.cursor) &&
    keysetSql p.keyset s.cursor

/-- The rows before the page. -/
def historyApiOffset (p : PageSql) : ℕ := if p.api ∧ 0 < p.apiOffset then p.apiOffset else 0

/-! ### The statements -/

/-- A row of the history as it is served. -/
structure FeedRow where
  action_index : ℕ
  action : Option String
  block_index : Option ℕ
  timestamp : Option ℕ
  tx_hash : Option String
  tx_index : Option ℕ
  parent_batch_action_index : Option ℕ
  deriving DecidableEq

/-- `historyParentBatchIndexSql` -/
def historyParentBatchIndex (db : Db) (a1 : ActionRow) : Option ℕ :=
  (db.actions.find? fun apx => apx.action_index ∈ db.batches && sqlEq apx.tx_index a1.tx_index &&
    sqlEq apx.tx_vout a1.tx_vout && apx.action_index ≠ a1.action_index).map ActionRow.action_index

/-- The columns of a feed row. -/
def feedRow (db : Db) (action_index : ℕ) (a1 : ActionRow) (b1 : BlockRow) : FeedRow :=
  let t1 := db.transactions.find? fun t => sqlEq (some t.tx_index) a1.tx_index
  { action_index
    action := db.index_actions a1.action_id
    block_index := b1.block_index
    timestamp := b1.block_time
    tx_hash := t1.bind fun t => db.index_transactions t.tx_hash_id
    tx_index := t1.map TransactionRow.tx_index
    parent_batch_action_index := historyParentBatchIndex db a1 }

/-- `INNER JOIN blocks b1 ON (b1.block_index=a1.block_index)` -/
def blocksOf (db : Db) (a1 : ActionRow) : List BlockRow := db.blocks.filter (·.block_index = some a1.block_index)

/-- The feed's FROM and WHERE. -/
def joined (db : Db) (feed : Feed) (p : PageSql) : List (SourceRow × BlockRow) :=
  ((feed.source db).filter (whereSql feed p)).flatMap fun s => (blocksOf db s.a1).map (s, ·)

/-- What may stand in front in an order. -/
def upTo : SortOrder → ℕ → ℕ → Prop
  | .asc => (· ≤ ·)
  | .desc => (· ≥ ·)

instance upTo_decidable (order : SortOrder) : DecidableRel (upTo order) :=
  match order with
  | .asc => inferInstanceAs (DecidableRel ((· ≤ ·) : ℕ → ℕ → Prop))
  | .desc => inferInstanceAs (DecidableRel ((· ≥ ·) : ℕ → ℕ → Prop))

/-- The ids of a page. -/
def historyPageIdsQuery (db : Db) (feed : Feed) (p : PageSql) : List ℕ :=
  page (historyApiOffset p) p.limit
    ((orderBy (upTo p.order) (fun row => row.1.cursor) (joined db feed p)).map fun row => row.1.cursor)

/-- The rows of some ids. -/
def historyPageRowsQuery (db : Db) (order : SortOrder) (ids : List ℕ) : List FeedRow :=
  orderBy (upTo order) FeedRow.action_index ((db.actions.filter (·.action_index ∈ ids)).flatMap fun a1 =>
    (blocksOf db a1).map (feedRow db a1.action_index a1))

/-- The single-statement feed query. -/
def historyPageQuery (db : Db) (feed : Feed) (p : PageSql) : List FeedRow :=
  page (historyApiOffset p) p.limit (orderBy (upTo p.order) FeedRow.action_index
    ((joined db feed p).map fun row => feedRow db row.1.cursor row.1.a1 row.2).eraseDups)

/-- The page by its ids first. Ids that repeat fall back to the one statement. -/
def historyPageRows (db : Db) (feed : Feed) (p : PageSql) : List FeedRow :=
  let ids := historyPageIdsQuery db feed p
  if ids = [] then []
  else if ¬ ids.Nodup then historyPageQuery db feed p
  else historyPageRowsQuery db p.order ids

/-! ### The listing -/

section listing

variable {db : Db} {feed : Feed} {p : PageSql} {order : SortOrder} {a : ℕ}

/-- All rows of the feed in the order of the page, each as often as the joins make it. -/
def listing (db : Db) (feed : Feed) (p : PageSql) : List FeedRow :=
  orderBy (upTo p.order) FeedRow.action_index
    ((joined db feed p).map fun row => feedRow db row.1.cursor row.1.a1 row.2)

/-- The rows of an action. -/
def actionRows (db : Db) (a : ℕ) : List FeedRow :=
  (db.actions.filter (·.action_index = a)).flatMap fun a1 => (blocksOf db a1).map (feedRow db a1.action_index a1)

/-- What the listing holds of an action. -/
def listedRows (db : Db) (feed : Feed) (p : PageSql) (a : ℕ) : List FeedRow :=
  ((joined db feed p).map fun row => feedRow db row.1.cursor row.1.a1 row.2).filter (·.action_index = a)

instance upTo_total (order : SortOrder) : Std.Total (upTo order) :=
  match order with
  | .asc => ⟨le_total⟩
  | .desc => ⟨fun a b => le_total b a⟩

instance upTo_refl (order : SortOrder) : Std.Refl (upTo order) := ⟨fun a => (Std.Total.total a a).elim id id⟩

instance upTo_trans (order : SortOrder) : IsTrans ℕ (upTo order) :=
  match order with
  | .asc => ⟨fun _ _ _ => le_trans⟩
  | .desc => ⟨fun _ _ _ hab hbc => le_trans hbc hab⟩

instance upTo_antisymm (order : SortOrder) : Std.Antisymm (upTo order) :=
  match order with
  | .asc => ⟨fun _ _ => le_antisymm⟩
  | .desc => ⟨fun _ _ hab hba => le_antisymm hba hab⟩

/-- The mapping and the action it leads to have one index. -/
theorem cursor_eq {s : SourceRow} (hs : s ∈ feed.source db) : s.cursor = s.a1.action_index ∧ s.a1 ∈ db.actions := by
  have hmapped : ∀ s : SourceRow, s ∈ (db.mappings_actions.flatMap fun m =>
      (db.actions.filter (·.action_index = m.action_index)).map (⟨some m, ·⟩)) →
      s.cursor = s.a1.action_index ∧ s.a1 ∈ db.actions := by
    intro s hs
    obtain ⟨m, -, hs⟩ := List.mem_flatMap.mp hs
    obtain ⟨a1, ha1, rfl⟩ := List.mem_map.mp hs
    rw [List.mem_filter, decide_eq_true_eq] at ha1
    exact ⟨ha1.2.symm, ha1.1⟩
  have hplain : ∀ s : SourceRow, s ∈ db.actions.map (fun a1 => (⟨none, a1⟩ : SourceRow)) →
      s.cursor = s.a1.action_index ∧ s.a1 ∈ db.actions := by
    intro s hs
    obtain ⟨a1, ha1, rfl⟩ := List.mem_map.mp hs
    exact ⟨rfl, ha1⟩
  cases feed with
  | address id => exact hmapped s hs
  | token id => exact hmapped s hs
  | block height => exact hplain s hs
  | recent => exact hplain s hs

/-- An action is the only one of its index. -/
theorem actions_filter {a1 : ActionRow} (ha1 : a1 ∈ db.actions) :
    db.actions.filter (·.action_index = a1.action_index) = [a1] := by
  have hpair := List.pairwise_map.mp db.actions_unique
  obtain ⟨before, behind, heq⟩ := List.append_of_mem ha1
  rw [heq] at hpair ⊢
  obtain ⟨-, hbehind, hacross⟩ := List.pairwise_append.mp hpair
  have hb : before.filter (·.action_index = a1.action_index) = [] :=
    List.filter_eq_nil_iff.mpr fun x hx => by simpa using hacross x hx a1 List.mem_cons_self
  have hb' : behind.filter (·.action_index = a1.action_index) = [] :=
    List.filter_eq_nil_iff.mpr fun x hx => by simpa using ((List.pairwise_cons.mp hbehind).1 x hx).symm
  rw [List.filter_append, List.filter_cons_of_pos (by simp), hb, hb', List.nil_append]

theorem actionRows_eq {a1 : ActionRow} (ha1 : a1 ∈ db.actions) :
    actionRows db a1.action_index = (blocksOf db a1).map (feedRow db a1.action_index a1) := by
  rw [actionRows, actions_filter ha1, List.flatMap_singleton]

/-- The listing holds the rows of an action once for each source row that leads to it. -/
theorem listedRows_eq (db : Db) (feed : Feed) (p : PageSql) (a : ℕ) :
    listedRows db feed p a = (List.replicate (((feed.source db).filter (whereSql feed p)).filter (·.cursor = a)).length
      (actionRows db a)).flatten := by
  have hkey : ∀ s ∈ (feed.source db).filter (whereSql feed p),
      ∀ row ∈ (blocksOf db s.a1).map (feedRow db s.cursor s.a1), row.action_index = s.cursor := by
    intro s _ row hrow
    obtain ⟨b, -, rfl⟩ := List.mem_map.mp hrow
    rfl
  have hrows : ∀ s ∈ ((feed.source db).filter (whereSql feed p)).filter (·.cursor = a),
      (blocksOf db s.a1).map (feedRow db s.cursor s.a1) = actionRows db a := by
    intro s hs
    obtain ⟨hs, ha⟩ := List.mem_filter.mp hs
    obtain ⟨hcursor, hmem⟩ := cursor_eq (List.mem_filter.mp hs).1
    rw [← of_decide_eq_true ha, hcursor, actionRows_eq hmem]
  rw [listedRows, joined, List.map_flatMap]
  simp only [List.map_map, Function.comp_def]
  rw [Grouping.filter_flatMap hkey, List.flatMap_congr hrows, List.flatMap_def, List.map_const']

/-- The action indexes of the feed in the order of the page. -/
def listedIds (db : Db) (feed : Feed) (p : PageSql) : List ℕ :=
  orderBy (upTo p.order) id ((joined db feed p).map fun row => row.1.cursor).eraseDups

theorem nodup_listedIds : (listedIds db feed p).Nodup :=
  (OrderBy.orderBy_perm _).nodup_iff.mpr (Grouping.nodup_eraseDups _)

theorem mem_listedIds : a ∈ listedIds db feed p ↔ ∃ row ∈ joined db feed p, row.1.cursor = a := by
  rw [listedIds, OrderBy.mem_orderBy, List.mem_eraseDups, List.mem_map]

/-- The listing is the rows of one action after the other. -/
theorem listing_eq (db : Db) (feed : Feed) (p : PageSql) :
    listing db feed p = (listedIds db feed p).flatMap (listedRows db feed p) := by
  refine OrderBy.orderBy_eq_flatMap (OrderBy.orderBy_pairwise _) nodup_listedIds fun row hrow => ?_
  obtain ⟨j, hj, rfl⟩ := List.mem_map.mp hrow
  exact mem_listedIds.mpr ⟨j, hj, rfl⟩

theorem action_index_of_actionRows {row : FeedRow} (h : row ∈ actionRows db a) : row.action_index = a := by
  obtain ⟨a1, ha1, hrow⟩ := List.mem_flatMap.mp h
  obtain ⟨b, -, rfl⟩ := List.mem_map.mp hrow
  exact of_decide_eq_true (List.mem_filter.mp ha1).2

theorem lists (db : Db) (feed : Feed) (p : PageSql) :
    DistinctPage.Lists FeedRow.action_index (actionRows db) (listedRows db feed p) (listedIds db feed p) where
  nodup := nodup_listedIds
  key_eq _ _ _ h := action_index_of_actionRows h
  ne_nil a ha := by
    obtain ⟨row, hrow, rfl⟩ := mem_listedIds.mp ha
    obtain ⟨s, hs, hrow⟩ := List.mem_flatMap.mp hrow
    obtain ⟨b, hb, rfl⟩ := List.mem_map.mp hrow
    obtain ⟨hcursor, hmem⟩ := cursor_eq (List.mem_filter.mp hs).1
    rw [hcursor, actionRows_eq hmem]
    exact List.ne_nil_of_mem (List.mem_map_of_mem hb)
  times a ha := by
    obtain ⟨row, hrow, hcursor⟩ := mem_listedIds.mp ha
    obtain ⟨s, hs, hrow⟩ := List.mem_flatMap.mp hrow
    obtain ⟨b, -, rfl⟩ := List.mem_map.mp hrow
    have hpos : 0 < (((feed.source db).filter (whereSql feed p)).filter (·.cursor = a)).length :=
      List.length_pos_of_mem (List.mem_filter.mpr ⟨hs, decide_eq_true hcursor⟩)
    refine ⟨(((feed.source db).filter (whereSql feed p)).filter (·.cursor = a)).length - 1, ?_⟩
    rw [Nat.sub_add_cancel hpos]
    exact listedRows_eq db feed p a

/-! ### The two legs -/

/-- The first leg reads the indexes of a page of the listing. -/
theorem idsQuery_eq (db : Db) (feed : Feed) (p : PageSql) :
    historyPageIdsQuery db feed p =
      (page (historyApiOffset p) p.limit (listing db feed p)).map FeedRow.action_index := by
  have hmap : (orderBy (upTo p.order) (fun row => row.1.cursor) (joined db feed p)).map (fun row => row.1.cursor) =
      (listing db feed p).map FeedRow.action_index := by
    have hrows : (orderBy (upTo p.order) (fun row => row.1.cursor) (joined db feed p)).map
        (fun row => feedRow db row.1.cursor row.1.a1 row.2) = listing db feed p :=
      OrderBy.map_orderBy (upTo p.order) _ (by exact fun _ => rfl) _
    rw [← hrows, List.map_map]
    rfl
  rw [historyPageIdsQuery, hmap, page, page, List.map_take, List.map_drop]

theorem query_eq (db : Db) (feed : Feed) (p : PageSql) :
    historyPageQuery db feed p = page (historyApiOffset p) p.limit (listing db feed p).eraseDups := by
  rw [historyPageQuery, OrderBy.orderBy_eraseDups, listing]

/-- The second leg reads the rows of one action after the other. -/
theorem rowsQuery_eq {ids : List ℕ} (hids : ids.Pairwise (upTo order)) (hnodup : ids.Nodup) :
    historyPageRowsQuery db order ids = ids.flatMap (actionRows db) := by
  have hmem : ∀ row ∈ (db.actions.filter (·.action_index ∈ ids)).flatMap fun a1 =>
      (blocksOf db a1).map (feedRow db a1.action_index a1), row.action_index ∈ ids := by
    intro row hrow
    obtain ⟨a1, ha1, hrow⟩ := List.mem_flatMap.mp hrow
    obtain ⟨b, -, rfl⟩ := List.mem_map.mp hrow
    exact of_decide_eq_true (List.mem_filter.mp ha1).2
  have hkey : ∀ a1 ∈ db.actions.filter (·.action_index ∈ ids),
      ∀ row ∈ (blocksOf db a1).map (feedRow db a1.action_index a1), row.action_index = a1.action_index := by
    intro a1 _ row hrow
    obtain ⟨b, -, rfl⟩ := List.mem_map.mp hrow
    rfl
  rw [historyPageRowsQuery, OrderBy.orderBy_eq_flatMap hids hnodup hmem]
  refine List.flatMap_congr fun a ha => ?_
  rw [Grouping.filter_flatMap hkey, List.filter_filter, actionRows]
  refine congrArg (List.flatMap _) (List.filter_congr fun a1 _ => ?_)
  by_cases heq : a1.action_index = a
  · simp [heq, ha]
  · simp [heq]

/-! ### The page -/

/-- The listing in front of the page and the page itself decide whether the two legs may stand for the
    statement: the page is empty, or shows an index twice, or nothing stands twice in front of it, it
    begins at an action, and each of its actions has one blocks row. -/
def Agrees (db : Db) (feed : Feed) (p : PageSql) : Prop :=
  let rows := page (historyApiOffset p) p.limit (listing db feed p)
  let front := (listing db feed p).take (historyApiOffset p)
  rows = [] ∨ ¬ (rows.map FeedRow.action_index).Nodup ∨
    front.Nodup ∧ (∀ row ∈ front, ∀ row' ∈ rows, row.action_index ≠ row'.action_index) ∧
      ∀ row ∈ rows, (db.blocks.filter (·.block_index = row.block_index)).length = 1

/-- An action of the listing has as many rows as its block. -/
theorem length_actionRows {row : FeedRow} (h : row ∈ listing db feed p) :
    (actionRows db row.action_index).length = (db.blocks.filter (·.block_index = row.block_index)).length := by
  obtain ⟨j, hj, rfl⟩ := List.mem_map.mp (OrderBy.mem_orderBy.mp h)
  obtain ⟨s, hs, hj⟩ := List.mem_flatMap.mp hj
  obtain ⟨b, hb, rfl⟩ := List.mem_map.mp hj
  obtain ⟨hcursor, hmem⟩ := cursor_eq (List.mem_filter.mp hs).1
  have hblock : b.block_index = some s.a1.block_index := of_decide_eq_true (List.mem_filter.mp hb).2
  have hrows : (feedRow db s.cursor s.a1 b).block_index = some s.a1.block_index := hblock
  change (actionRows db s.cursor).length = _
  rw [hrows, hcursor, actionRows_eq hmem, List.length_map]
  rfl

/-- The two legs return what the single statement returns just when `Agrees` says so. -/
theorem history_page_iff (db : Db) (feed : Feed) (p : PageSql) :
    historyPageRows db feed p = historyPageQuery db feed p ↔ Agrees db feed p := by
  have hlists := lists db feed p
  unfold historyPageRows Agrees
  rw [query_eq, idsQuery_eq]
  dsimp only
  by_cases hnil : page (historyApiOffset p) p.limit (listing db feed p) = []
  · -- nothing is left behind the offset, with the copies or without them
    refine iff_of_true ?_ (Or.inl hnil)
    rw [hnil, List.map_nil, if_pos rfl]
    have hlen := DistinctPage.length_eraseDups_le (listing db feed p)
    rw [page, List.take_eq_nil_iff, List.drop_eq_nil_iff] at hnil
    rw [page, eq_comm, List.take_eq_nil_iff, List.drop_eq_nil_iff]
    exact hnil.imp_right fun hle => hlen.trans hle
  rw [if_neg (by simpa using hnil)]
  by_cases hdup : ((page (historyApiOffset p) p.limit (listing db feed p)).map FeedRow.action_index).Nodup
  · have hsorted : ((page (historyApiOffset p) p.limit (listing db feed p)).map FeedRow.action_index).Pairwise
        (upTo p.order) := by
      have hall : (listing db feed p).Pairwise fun row row' => upTo p.order row.action_index row'.action_index :=
        OrderBy.orderBy_pairwise _
      exact List.pairwise_map.mpr (hall.sublist ((List.take_sublist _ _).trans (List.drop_sublist _ _)))
    have hone : ∀ row ∈ page (historyApiOffset p) p.limit (listing db feed p),
        (actionRows db row.action_index).length = (db.blocks.filter (·.block_index = row.block_index)).length :=
      fun row hrow => length_actionRows (List.mem_of_mem_drop (List.mem_of_mem_take hrow))
    rw [if_neg (not_not.mpr hdup), rowsQuery_eq hsorted hdup, List.flatMap_map]
    rw [listing_eq] at hnil hdup hone ⊢
    rw [hlists.two_legs_iff hnil hdup]
    constructor
    · rintro ⟨hfront, hkeys, hrows⟩
      exact Or.inr (Or.inr ⟨hfront, hkeys, fun row hrow => (hone row hrow).symm.trans (hrows row hrow)⟩)
    · rintro (h | h | ⟨hfront, hkeys, hrows⟩)
      · exact absurd h hnil
      · exact absurd hdup h
      · exact ⟨hfront, hkeys, fun row hrow => (hone row hrow).trans (hrows row hrow)⟩
  · rw [if_pos hdup]
    exact iff_of_true rfl (Or.inr (Or.inl hdup))

/-! #### A block with two rows -/

/-- One action, in a block whose row stands twice. -/
def twiceStored : Db where
  actions := [⟨1, 7, none, none, 3⟩]
  actions_unique := by decide
  blocks := [⟨some 7, some 1700⟩, ⟨some 7, some 1700⟩]
  mappings_actions := []
  transactions := []
  transactions_unique := by decide
  batches := []
  index_actions := fun _ => some "PRICE"
  index_transactions := fun _ => none

/-- On a page of one row the limit hides the repeated index, and the second leg returns both copies. -/
theorem copy_behind_the_page :
    historyPageRows twiceStored .recent { order := .desc, limit := 1, api := false } ≠
        historyPageQuery twiceStored .recent { order := .desc, limit := 1, api := false } ∧
      (historyPageRows twiceStored .recent { order := .desc, limit := 1, api := false }).length = 2 := by
  decide

end listing

end HistoryPage
