import XChainExplorer.Explorer.KeysetPaging
import Mathlib.Data.Finset.Union
import Mathlib.Data.PEquiv

/-! # The action lists and their page boundaries

    A list of the explorer is the rows of one table, joined with their actions, transactions and
    blocks, that a filter selects. Where a page of it opens and stops is read by statements of their
    own. The two sides name the filter by tables of their own: the list by the joined names, the
    boundary by the interned ids. -/

namespace QuerySql

/-! ### The tables -/

/-- The lists with a boundary table. -/
inductive Method where
  | getAddresses | getAirdrops | getBatches | getBroadcasts | getCallbacks | getCoinpays
  | getDestroys | getDispensers | getDispenses | getDividends | getFiles | getIssues | getLinks
  | getLists | getMessages | getMints | getOrders | getPrices | getSends | getSleeps | getSwaps
  | getSweeps | getBlocks | getTokens | getHistory
  deriving DecidableEq

/-- The tables of the list pages. -/
inductive Table where
  | addresses | airdrops | batches | broadcasts | callbacks | coinpays | destroys | dispensers
  | dispenses | dividends | files | issues | links | lists | messages | mints | orders | prices
  | sends | sleeps | swaps | sweeps | tokens | mappings_actions | mappings_files
  deriving DecidableEq

/-- A row of `actions`. -/
structure ActionRow where
  action_index : ℕ
  block_index : ℕ
  tx_index : Option ℕ := none
  action_format : Option ℕ := none
  source_id : Option ℕ := none
  deriving DecidableEq

/-- A row of `transactions`. -/
structure TransactionRow where
  tx_index : ℕ
  block_index : ℕ
  source_id : Option ℕ := none
  deriving DecidableEq

/-- A row of the table `m` that a list is made of. A column that the table does not have is null. -/
structure Row where
  action_index : ℕ
  id : ℕ := 0
  type_id : Option ℕ := none
  tick_id : Option ℕ := none
  give_tick_id : Option ℕ := none
  get_tick_id : Option ℕ := none
  coin1_id : Option ℕ := none
  coin2_id : Option ℕ := none
  source_id : Option ℕ := none
  owner_id : Option ℕ := none
  destination_id : Option ℕ := none
  get_address_id : Option ℕ := none
  dispenser_action_index : Option ℕ := none
  deriving DecidableEq

/-- The tables with several rows to an action: the legs of airdrops, destroys and sends among them. -/
def manyRowed : Table → Bool
  | .airdrops | .destroys | .sends | .tokens | .mappings_actions | .mappings_files => true
  | _ => false

/-- A state of a coin's tables. The keys are the unique ones of the schema, and an index table names
    each of its texts once. The indexer writes an action, its block and at most one mapping row to an
    address or a ticker in one transaction, and an action's block is its transaction's. -/
structure Db where
  actions : List ActionRow
  transactions : List TransactionRow
  blocks : Finset ℕ
  table : Table → List Row
  /-- The renames of lists, where the replica has their table. -/
  list_metas : Option (List ℕ)
  index_addresses : ℕ ≃. String
  index_tickers : ℕ ≃. String
  index_coins : ℕ ≃. String
  action_index_unique : (actions.map (·.action_index)).Nodup
  tx_index_unique : (transactions.map (·.tx_index)).Nodup
  one_row : ∀ t, manyRowed t = false → ((table t).map (·.action_index)).Nodup
  token_id_unique : ((table .tokens).map (·.id)).Nodup
  one_mapping : ∀ t ∈ [Table.mappings_actions, .mappings_files],
    ((table t).map fun m => (m.action_index, m.type_id, m.id)).Nodup
  action_block : ∀ a ∈ actions, a.block_index ∈ blocks
  transaction_block : ∀ a ∈ actions, ∀ t ∈ transactions, a.tx_index = some t.tx_index →
    t.block_index = a.block_index

/-- What a request names, if anything: a block, an address, or a token by its canonical spelling. -/
inductive Filter where
  | all
  | block (block_index : ℕ)
  | address (address : String)
  | token (tick : String)

/-- The filters a list's routes take. A token that is searched for by name is paged by position. -/
def accepts : Method → Filter → Bool
  | .getBlocks, .address _ | .getBlocks, .token _ => false
  | .getAddresses, .token _ | .getBatches, .token _ | .getBroadcasts, .token _
  | .getLists, .token _ | .getMessages, .token _ | .getCoinpays, .token _
  | .getSweeps, .token _ | .getTokens, .token _ => false
  | _, _ => true

/-- `BOUNDARY_TABLE_BY_METHOD`, with the tables of the lookups by address and by token. Blocks are
    not rows of it. -/
def listTable : Method → Filter → Table
  | .getAddresses, _ => .addresses
  | .getAirdrops, _ => .airdrops
  | .getBatches, _ => .batches
  | .getBroadcasts, _ => .broadcasts
  | .getCallbacks, _ => .callbacks
  | .getCoinpays, _ => .coinpays
  | .getDestroys, _ => .destroys
  | .getDispensers, _ => .dispensers
  | .getDispenses, _ => .dispenses
  | .getDividends, _ => .dividends
  | .getFiles, .token _ => .mappings_files
  | .getFiles, _ => .files
  | .getIssues, _ => .issues
  | .getLinks, _ => .links
  | .getLists, _ => .lists
  | .getMessages, _ => .messages
  | .getMints, _ => .mints
  | .getOrders, _ => .orders
  | .getPrices, _ => .prices
  | .getSends, _ => .sends
  | .getSleeps, _ => .sleeps
  | .getSwaps, _ => .swaps
  | .getSweeps, _ => .sweeps
  | .getTokens, _ => .tokens
  | .getBlocks, _ | .getHistory, _ => .mappings_actions

/-! ### The joins -/

/-- A row with the action it is of, and the transaction of that action. -/
structure Joined where
  m : Row
  a1 : ActionRow
  t1 : Option TransactionRow
  deriving DecidableEq

/-- `column = ?`, where a null on either side matches nothing. -/
def sqlEq (column bind : Option ℕ) : Bool := column.isSome && column = bind

namespace Db
variable (db : Db)

/-- The action of an index. -/
def action (action_index : ℕ) : Option ActionRow :=
  db.actions.find? (·.action_index = action_index)

/-- The transaction of an action. -/
def transaction (a : ActionRow) : Option TransactionRow :=
  a.tx_index.bind fun i => db.transactions.find? (·.tx_index = i)

/-- A row with its action, and its transaction where it has one. -/
def join (m : Row) : Option Joined :=
  (db.action m.action_index).map fun a1 => ⟨m, a1, db.transaction a1⟩

/-- The rows that have an action. -/
def joined (rows : List Row) : List Joined := rows.filterMap db.join

/-- Blocks through the action's own block. -/
def viaAction (j : Joined) : Bool := j.a1.block_index ∈ db.blocks

/-- Blocks through the transaction, which an action of the chain's own has none of. -/
def viaTransaction (j : Joined) : Bool := j.t1.any (·.block_index ∈ db.blocks)

/-- The renames are list actions in the format of a rename. -/
def renames : List Row :=
  ((db.list_metas.getD []).filter fun i => (db.action i).any (·.action_format = some 5)).map
    fun i => { action_index := i }

/-- `^id` is the ticker of that id. -/
def tickReference (tick : String) : Option ℕ :=
  match tick.toList with
  | '^' :: id => safeIntegerParam (String.ofList id)
  | _ => none

/-- The id of a tick. `^digits` names one outright. -/
def getTickId (tick : String) : Option ℕ :=
  match tickReference tick with
  | some id => some id
  | none => db.index_tickers.symm tick

end Db

/-! ### The parties of an action -/

/-- `ACTION_SOURCE_SQL`: the action's own source, and its transaction's where it has none. -/
def actionSource (id : Option ℕ) (j : Joined) : Bool :=
  sqlEq j.a1.source_id id || (j.a1.source_id.isNone && sqlEq (j.t1.bind (·.source_id)) id)

/-- `TWO_PARTY_COUNTERPARTS`: the column that names the other party. -/
def counterpart : Method → Option (Row → Option ℕ)
  | .getMessages | .getMints | .getSends | .getSweeps | .getDispenses => some (·.destination_id)
  | .getOrders | .getDispensers => some (·.get_address_id)
  | _ => none

section parties
variable (db : Db) (id : Option ℕ)

/-- The row's dispenser sells to the address. -/
def dispenserAddress (m : Row) : Bool :=
  (db.table .dispensers).any fun d =>
    m.dispenser_action_index = some d.action_index && sqlEq d.get_address_id id

/-- The source side of a family of two parties. That of a fill is its dispenser's address. -/
def sourceSide (method : Method) (j : Joined) : Bool :=
  if method = .getDispenses then dispenserAddress db id j.m else actionSource id j

/-- `twoPartyIdSetSql`: the actions of the family with either party on one of their rows. -/
def twoPartyIdSet (method : Method) (column : Row → Option ℕ) (j : Joined) : Bool :=
  (db.table (listTable method .all)).any fun px => px.action_index = j.m.action_index &&
    (((db.join px).any (sourceSide db id method)) || sqlEq (column px) id)

/-- `twoPartyRowSql`: either party on the row itself. -/
def twoPartyRow (method : Method) (column : Row → Option ℕ) (j : Joined) : Bool :=
  sourceSide db id method j || sqlEq (column j.m) id

/-- The links that name the coin on either side. -/
def linked (j : Joined) : Bool :=
  (db.table .links).any fun lm => lm.action_index = j.m.action_index &&
    (sqlEq lm.coin1_id id || sqlEq lm.coin2_id id)

end parties

/-! ### The list -/

/-- The lists that reach their blocks through the transactions. -/
def throughTransaction : Method → Bool
  | .getAddresses | .getBatches | .getDispenses | .getPrices | .getSleeps | .getSwaps => true
  | _ => false

section list
variable (db : Db)

/-- A fill is listed with the dispenser it is of. -/
def dispenserJoin (j : Joined) : Bool :=
  (db.table .dispensers).any fun d => j.m.dispenser_action_index = some d.action_index

/-- A mapping of a file is listed with the file. -/
def fileJoin (j : Joined) : Bool :=
  (db.table .files).any fun f => f.action_index = j.m.action_index

/-- The inner joins of a list's rows. -/
def listJoin (method : Method) (filter : Filter) (j : Joined) : Bool :=
  (if throughTransaction method then db.viaTransaction j else db.viaAction j) &&
    match method, filter with
    | .getDispenses, _ => dispenserJoin db j
    | .getFiles, .token _ => fileJoin db j
    | _, _ => true

/-- The rows of a block. -/
def blockClause (method : Method) (block_index : ℕ) (j : Joined) : Bool :=
  if throughTransaction method then j.t1.any (·.block_index = block_index)
  else j.a1.block_index = block_index

/-- The lane of an address. An address with many rows (`dense`) is read by the row test alone. -/
def addressClause (dense : Bool) (method : Method) (address : String) (j : Joined) : Bool :=
  let id := db.index_addresses.symm address
  match method with
  | .getTokens => j.m.owner_id.bind db.index_addresses = some address
  | .getPrices => j.m.source_id.bind db.index_addresses = some address
  | .getHistory => j.m.type_id = some 2 && sqlEq (some j.m.id) id
  | method =>
    match counterpart method with
    | some column =>
      (dense || twoPartyIdSet db id method column j) && twoPartyRow db id method column j
    | none => actionSource id j

/-- The lane of a token, by the ticker that the list joins. -/
def tokenClause (method : Method) (tick : String) (j : Joined) : Bool :=
  match method with
  | .getFiles => j.m.type_id = some 1 && db.index_tickers j.m.id = some tick
  | .getHistory => j.m.type_id = some 1 && sqlEq (some j.m.id) (db.getTickId tick)
  | .getLinks => linked db (db.index_coins.symm tick) j
  | .getDispensers | .getDispenses | .getOrders | .getSwaps =>
    j.m.give_tick_id.bind db.index_tickers = some tick
  | _ => j.m.tick_id.bind db.index_tickers = some tick

/-- The condition of a list's query. -/
def genericClause (dense : Bool) (method : Method) (filter : Filter) (j : Joined) : Bool :=
  match filter with
  | .all => true
  | .block block_index => blockClause method block_index j
  | .address address => addressClause db dense method address j
  | .token tick => tokenClause db method tick j

/-- The column a list pages on. -/
def cursor (method : Method) (j : Joined) : ℕ :=
  if method = .getTokens then j.m.id else j.m.action_index

/-- The history that is not looked up by address or token is the actions themselves. -/
def historyActions (filter : Filter) : Finset ℕ :=
  ((db.actions.filter fun a => a.block_index ∈ db.blocks &&
    match filter with
    | .block block_index => a.block_index = block_index
    | _ => true).map (·.action_index)).toFinset

/-- A filter that has to be looked up. -/
def isLookup : Filter → Bool
  | .address _ | .token _ => true
  | _ => false

/-- The cursors of the rows that a statement returns, one for each row. -/
def cursorRows (method : Method) (rows : List Row) (p : Joined → Bool) : Multiset ℕ :=
  ((db.joined rows).filter p).map (cursor method)

/-- The cursors of the rows that meet a condition. -/
def cursors (method : Method) (rows : List Row) (p : Joined → Bool) : Finset ℕ :=
  (cursorRows db method rows p).toFinset

/-- `actionOffsetProjection`: the lists of legs that are read by `SELECT DISTINCT` of their actions. -/
def selectsDistinct : Method → Bool
  | .getSends | .getDestroys => true
  | _ => false

/-- `SELECT DISTINCT` or not. -/
def selectRows (distinct : Bool) (rows : Multiset ℕ) : Multiset ℕ := if distinct then rows.dedup else rows

/-- The cursors of the rows that a list's own query selects. The list of the blocks has no filter. -/
def listCursors (dense : Bool) (method : Method) (filter : Filter) : Finset ℕ :=
  if method = .getBlocks then db.blocks
  else if method = .getHistory && !isLookup filter then historyActions db filter
  else cursors db method (db.table (listTable method filter)) fun j =>
    listJoin db method filter j && genericClause db dense method filter j

/-- The rows that a list's own query pages through. The history that is looked up is read by `DISTINCT`
    as well. -/
def listRows (dense : Bool) (method : Method) (filter : Filter) : Multiset ℕ :=
  if method = .getBlocks then db.blocks.val
  else if method = .getHistory && !isLookup filter then (historyActions db filter).val
  else selectRows (selectsDistinct method || method = .getHistory) <|
    cursorRows db method (db.table (listTable method filter)) fun j =>
      listJoin db method filter j && genericClause db dense method filter j

/-! ### The boundary -/

/-- The id a name is filtered by. A name without a row binds FALSE, the id 0 that no key takes. -/
def boundaryId (filter : Filter) (method : Method) : Option ℕ :=
  match filter with
  | .address address => db.index_addresses.symm address
  | .token tick =>
    if method = .getLinks then db.index_coins.symm tick else db.index_tickers.symm tick
  | _ => none

/-- The condition of a boundary's query, for an address. -/
def addressBoundaryWhere (method : Method) (id : Option ℕ) (j : Joined) : Bool :=
  match method with
  | .getTokens => sqlEq j.m.owner_id id
  | .getHistory => j.m.type_id = some 2 && sqlEq (some j.m.id) id
  | method =>
    match counterpart method with
    | some column => twoPartyIdSet db id method column j
    | none => actionSource id j

/-- The same for a token. -/
def tokenBoundaryWhere (method : Method) (id : Option ℕ) (j : Joined) : Bool :=
  match method with
  | .getLinks => linked db id j
  | .getOrders | .getSwaps => sqlEq j.m.get_tick_id id || sqlEq j.m.give_tick_id id
  | .getDispensers | .getDispenses => sqlEq j.m.get_tick_id id
  | .getHistory | .getFiles => j.m.type_id = some 1 && sqlEq (some j.m.id) id
  | _ => sqlEq j.m.tick_id id

/-- The condition of a boundary's query. -/
def boundaryWhere (method : Method) (filter : Filter) (j : Joined) : Bool :=
  match filter with
  | .all => true
  | .block block_index => j.a1.block_index = block_index
  | .address _ => addressBoundaryWhere db method (boundaryId db filter method) j
  | .token _ => tokenBoundaryWhere db method (boundaryId db filter method) j

/-- `actionOffsetSource`: a list of the lists counts their renames in. -/
def boundaryRows (method : Method) (filter : Filter) : List Row :=
  if method = .getLists then db.table .lists ++ db.renames
  else db.table (listTable method filter)

/-- `blocksListPlaceholder` apart, the list of the blocks is bounded by the block it names. -/
def blockBoundary : Filter → Finset ℕ
  | .block block_index => db.blocks.filter (· = block_index)
  | _ => db.blocks

/-- The cursors that the first and the last page are opened by. -/
def boundaryCursors (method : Method) (filter : Filter) : Finset ℕ :=
  if method = .getBlocks then blockBoundary db filter
  else if method = .getHistory && !isLookup filter then historyActions db filter
  else cursors db method (boundaryRows db method filter) fun j =>
    db.viaAction j && boundaryWhere db method filter j

/-- The rows of the statement that opens the first and the last page. -/
def offsetRows (method : Method) (filter : Filter) : Multiset ℕ :=
  if method = .getBlocks then (blockBoundary db filter).val
  else if method = .getHistory && !isLookup filter then (historyActions db filter).val
  else selectRows (selectsDistinct method) <| cursorRows db method (boundaryRows db method filter) fun j =>
    db.viaAction j && boundaryWhere db method filter j

/-- The rows of the statement that stops a page. They are read through the transactions, as the lists are
    that no chain action is in; `optionalTransactionSql` rewrites the others. -/
def stopRows (method : Method) (filter : Filter) : Multiset ℕ :=
  if method = .getBlocks then (blockBoundary db filter).val
  else if method = .getHistory && !isLookup filter then (historyActions db filter).val
  else selectRows (selectsDistinct method) <| cursorRows db method (boundaryRows db method filter) fun j =>
    (if throughTransaction method then db.viaTransaction j else db.viaAction j) &&
      boundaryWhere db method filter j

end list

end QuerySql
