import XChainExplorer.Hub.Mirror
import XChainExplorer.Hub.PriceMirror

/-! # The drain cursor of one table

    The bootstrap drain of a mirrored table, cut at its awaits: the pages, the rows held back for the
    batch, the statement that lands a batch or the fallback that applies its rows one at a time, the
    catch-up to the hub's ready ceiling, and every place that moves the stored position. The hub goes on
    writing its table and the connection comes and goes beside the drain. One drain of a table runs
    at a time, as `bootstrapAll` sees to. -/

namespace HubDbSync.Cursor

open Prices (RepageFloor)

/-- A row as the hub serves it. The time is 0 where the row has none. `version` numbers what the hub
    wrote; it stands for the values of the columns. -/
structure ServedRow where
  id : ℕ
  columns : List String := []
  block_timestamp : ℕ := 0
  version : ℕ
  deriving DecidableEq

/-- What one client drains a table with. -/
structure Config where
  table : MirrorTable
  localColumns : List String := []
  batchApplyDisabled : Bool := false
  batchApplyRows : ℕ
  two_le_batchApplyRows : 2 ≤ batchApplyRows

/-- What became of a row that was handled. A row with no column of the mirror writes nothing and
    counts as applied. -/
inductive Fate where
  | applied
  | boundOut
  | held
  | refused
  deriving DecidableEq

/-- How `applyRow` ends: it returns, reports a row it withheld, or throws. -/
inductive ApplyOutcome where
  | landed
  | held
  | refused
  | thrown
  deriving DecidableEq

/-- What an outcome counts as. -/
def ApplyOutcome.fate : ApplyOutcome → Option Fate
  | .landed => some .applied
  | .held => some .held
  | .refused => some .refused
  | .thrown => none

/-! ### The batch -/

/-- The columns of a row that the mirror has. -/
def Config.mirroredColumns (cfg : Config) (row : ServedRow) : List String :=
  row.columns.filter fun c => c != "id" && c ∈ cfg.localColumns

/-- The batches `applyRowsBatched` does not decline: prices only, every row presenting the columns of
    the first. -/
def Config.batchable (cfg : Config) (rows : List ServedRow) : Bool :=
  match rows with
  | row :: _ :: _ =>
    let cols := cfg.mirroredColumns row
    decide (cfg.table = .price_snapshots) && !cfg.batchApplyDisabled && cols.contains "status" &&
      rows.all fun r => String.join (cfg.mirroredColumns r) == String.join cols
  | _ => false

/-! ### The drain -/

/-- What the cursor's moves read of a drain's accounting. -/
structure TableDrain where
  lastId : ℕ
  readyCeiling : Option ℕ
  connectionEpoch : ℕ
  selectorRevision : ℕ
  fullTable : Bool
  floorStart : Bool := false
  repageSeq : Option ℕ
  priceHorizon : ℕ := 0
  priceFloor : ℕ := 0
  minAppliedWireId : Option ℕ := none
  pagesFetched : ℕ := 0
  lastPageCount : ℕ := 0
  applyErrors : ℕ := 0

/-- Where the drain waits. -/
inductive Phase where
  | opening
  | resolving (boundDisabled : Bool)
  | fetching (answer : Option (List ServedRow))
  | flushing (batched : Bool) (pending todo : List ServedRow)
  | catchingUp (since : ℕ) (answer : Option (List ServedRow))
  | catchUpRows (todo : List ServedRow)
  | closing

/-- Rows of the present page that are still to be handled. -/
def Phase.ahead : Phase → List ServedRow
  | .fetching (some page) => page
  | .flushing _ pending todo => pending ++ todo
  | .catchingUp _ (some page) => page
  | .catchUpRows todo => todo
  | _ => []

/-- A row before the horizon and below the floor is left out. -/
def TableDrain.priceRowBoundOut (d : TableDrain) (row : ServedRow) : Bool :=
  0 < d.priceHorizon && 0 < row.block_timestamp && row.block_timestamp < d.priceHorizon &&
    row.block_timestamp < d.priceFloor

/-- The drain read all of the hub's table, or all of it above the floor. -/
def TableDrain.complete (d : TableDrain) : Bool := d.fullTable || d.floorStart

/-- The accounting behind a row that was handled. -/
def TableDrain.handled (d : TableDrain) (row : ServedRow) : TableDrain :=
  { d with
    minAppliedWireId :=
      if 0 < d.priceHorizon && !d.priceRowBoundOut row then
        some (d.minAppliedWireId.elim row.id (min row.id))
      else d.minAppliedWireId
    lastId := max d.lastId row.id }

/-! ### The machine -/

variable {K : Type*}

/-- The client's side of one table, the hub's table behind it, and a record no step reads: the rows the
    hub served, what became of those that were handled, and those whose apply threw. -/
structure State (K : Type*) where
  sync : Sync K := {}
  priceMirrorLookbackS : ℕ := Prices.PRICE_MIRROR_LOOKBACK_S
  priceMirrorBoundDisabled : Bool := false
  priceRepageFloor : Option RepageFloor := none
  drain : Option (TableDrain × Phase) := none
  hub : List ServedRow := []
  /-- Above every id the hub gave. -/
  nextId : ℕ := 1
  writes : ℕ := 0
  served : List ServedRow := []
  fates : List (ServedRow × Fate) := []
  failed : List ServedRow := []

/-- A step of the hub, of the connection or of the drain. -/
inductive Label (K : Type*) where
  -- the hub
  | publish (gap : ℕ) (columns : List String) (block_timestamp : ℕ)
  | rewrite (id : ℕ) (columns : List String)
  | withdraw (id : ℕ)
  -- the connection
  | ready (instanceId : Option ℕ) (caughtUp : Bool) (maxIds : Option (MirrorTable → Option ℕ))
      (heights : Option (Heights K))
  | close (resync : Bool)
  | resync
  | moveHub
  | selectorChange
  | refuseSchema
  | owe
  | notePriceMirrorFloor
  -- the drain
  | openTable
  | askHorizon
  | horizon (answer : Option ℕ)
  | serve
  | take (ok : Bool)
  | chunk (landed : Bool)
  | row (o : ApplyOutcome)
  | pageEnd
  | catchUpLost
  | refuseBound
  | certify
  | giveUp

variable (cfg : Config)

/-- The position of the table. -/
def State.position (s : State K) : ℕ := s.sync.drainPositions cfg.table

/-- It moved. -/
def State.setPosition (s : State K) (id : ℕ) : State K :=
  { s with sync := s.sync.setPosition cfg.table id }

/-- A drain at one of its points. -/
def State.withDrain (s : State K) (d : TableDrain) (phase : Phase) : State K :=
  { s with drain := some (d, phase) }

/-- No drain is under way. -/
def State.ended (s : State K) : State K := { s with drain := none }

/-- The connection the drain was opened on is still the one in use. -/
def State.onConnection (s : State K) (d : TableDrain) : Bool :=
  s.sync.onConnection d.connectionEpoch d.selectorRevision

/-! ### The hub -/

/-- The steps of the hub. -/
def State.hubStep (s : State K) : Label K → Option (State K)
  | .publish gap columns block_timestamp => some { s with
      hub := s.hub ++ [{ id := s.nextId + gap, columns, block_timestamp, version := s.writes }]
      nextId := s.nextId + gap + 1
      writes := s.writes + 1 }
  -- a row keeps its id and its time when the hub writes it again
  | .rewrite id columns => some { s with
      hub := s.hub.map fun r => if r.id = id then { r with columns, version := s.writes } else r
      writes := s.writes + 1 }
  | .withdraw id => some { s with hub := s.hub.filter fun r => r.id ≠ id }
  | _ => none

/-! ### The connection -/

/-- What moves the stored position, or what a drain reads, from outside the drain. -/
def State.socketStep (s : State K) : Label K → Option (State K)
  | .ready instanceId caughtUp maxIds heights => some { s with
      sync := s.sync.adoptReadyFrame instanceId caughtUp maxIds heights
      priceRepageFloor :=
        if instanceId.isNone || instanceId != s.sync.lastHubInstanceId then none
        else s.priceRepageFloor }
  | .close resync => some { s with sync := s.sync.closeSocket resync }
  | .resync => some { s with sync := s.sync.forgetPositionsForResync, priceRepageFloor := none }
  | .moveHub => some { s with sync := s.sync.resetForMove }
  | .selectorChange => some { s with
      sync := { s.sync with selectorRevision := s.sync.selectorRevision + 1, bootstrapDrained := false } }
  | .refuseSchema => some { s with sync := s.sync.refuseSchema, priceRepageFloor := none }
  | .owe => some { s with sync := s.sync.markRepageOwed [cfg.table] }
  | .notePriceMirrorFloor => some { s with priceMirrorBoundDisabled := true }
  | _ => none

/-! ### The opening -/

/-- A drain opens at the position it may trust. -/
def State.openTableDrain (s : State K) : State K :=
  let lastId := s.sync.resolveDrainCursor cfg.table
  (s.setPosition cfg lastId).withDrain {
    lastId
    readyCeiling := s.sync.readyMaxIds.bind (· cfg.table)
    connectionEpoch := s.sync.wsEpoch
    selectorRevision := s.sync.selectorRevision
    fullTable := lastId = 0
    repageSeq := s.sync.repageOwed cfg.table } .opening

/-- What the consumer answered, where it bounds anything. -/
def State.resolvePriceMirrorHorizon (s : State K) (boundDisabled : Bool) (answer : Option ℕ) : ℕ :=
  if cfg.table ≠ .price_snapshots ∨ boundDisabled then 0
  else match answer with
    | some horizon => if horizon ≤ s.priceMirrorLookbackS then 0 else horizon
    | none => 0

/-- A price drain takes its horizon. -/
def State.newPriceBoundState (s : State K) (d : TableDrain) (horizon : ℕ) : TableDrain :=
  { d with
    priceHorizon := horizon
    priceFloor := if 0 < horizon then horizon - s.priceMirrorLookbackS else 0 }

/-- The start recorded by the last complete drain, where this one may take it. -/
def State.repageStart (s : State K) (d : TableDrain) : Option RepageFloor :=
  s.priceRepageFloor.filter fun mark =>
    cfg.table = .price_snapshots && d.lastId = 0 && d.repageSeq.isSome && 0 < d.priceHorizon &&
      mark.floorTs ≤ d.priceFloor && d.readyCeiling.all fun ceiling => mark.wireId - 1 ≤ ceiling

/-- A start above the rows the bound declines declines them unread. -/
def State.choosePriceRepageStart (s : State K) (d : TableDrain) : State K × TableDrain :=
  match s.repageStart cfg d with
  | some mark =>
    let declined := s.served.filter fun row => decide (row.id < mark.wireId) && d.priceRowBoundOut row
    ({ s.setPosition cfg (mark.wireId - 1) with fates := s.fates ++ declined.map (·, Fate.boundOut) },
      { d with lastId := mark.wireId - 1, fullTable := false, floorStart := true })
  | none => (s, d)

/-- The bound is set, the start chosen, and the first page asked for. -/
def State.startPaging (s : State K) (d : TableDrain) (horizon : ℕ) : State K :=
  match s.choosePriceRepageStart cfg (s.newPriceBoundState d horizon) with
  | (s, d) => if s.onConnection d then s.withDrain d (.fetching none) else s.ended

/-! ### The pages -/

/-- The batch goes out as one statement, or is left to the row by row path. -/
def State.flushPendingRows (s : State K) (d : TableDrain) (todo : List ServedRow) (landed : Bool) :
    State K :=
  let pending := todo.take cfg.batchApplyRows
  let batch := pending.filter fun row => !d.priceRowBoundOut row
  let batched := landed && cfg.batchable batch
  { s with fates := s.fates ++ if batched then batch.map (·, Fate.applied) else [] }.withDrain d
    (.flushing batched pending (todo.drop cfg.batchApplyRows))

/-- What becomes of one held row; `none` where its apply throws. -/
def applyPendingRow (s : State K) (d : TableDrain) (row : ServedRow) (batched : Bool)
    (o : ApplyOutcome) : Option (State K) :=
  if d.priceRowBoundOut row then some { s with fates := s.fates ++ [(row, .boundOut)] }
  else if batched then some s
  else o.fate.map fun fate => { s with fates := s.fates ++ [(row, fate)] }

/-- The position follows the drain past a row that was handled. -/
def State.advance (s : State K) (d : TableDrain) (row : ServedRow) : State K :=
  if d.lastId < row.id then s.setPosition cfg row.id else s

/-- `applyPendingRow` and the stop at a row that cannot be applied. -/
def State.row (s : State K) (d : TableDrain) (row : ServedRow) (batched : Bool) (o : ApplyOutcome)
    (next stopped : Phase) : State K :=
  match applyPendingRow s d row batched o with
  | some s => (s.advance cfg d row).withDrain (d.handled row) next
  | none => { s with failed := s.failed ++ [row] }.withDrain
      { d with applyErrors := d.applyErrors + 1 } stopped

/-- What follows the last page. -/
def State.catchUpToReadyCeiling (s : State K) (d : TableDrain) : State K :=
  if !s.onConnection d then s.ended
  else match s.sync.readyMaxIds.bind (· cfg.table) with
    | some ceiling =>
      if s.position cfg < ceiling ∧ d.applyErrors = 0 then
        s.withDrain d (.catchingUp (s.position cfg) none)
      else s.withDrain d .closing
    | none => s.withDrain d .closing

/-- After a page: the next one, or the catch-up to the ceiling. -/
def State.pageEnd (s : State K) (d : TableDrain) : State K :=
  if d.applyErrors ≠ 0 ∨ d.lastPageCount < PAGE_LIMIT ∨ MAX_PAGES ≤ d.pagesFetched then
    s.catchUpToReadyCeiling cfg d
  else if s.onConnection d then s.withDrain d (.fetching none)
  else s.ended

/-! ### The verdict -/

/-- A refused bound is widened, and given up at the ceiling. -/
def State.refuseBound (s : State K) : State K :=
  let widened := s.priceMirrorLookbackS * Prices.PRICE_MIRROR_LOOKBACK_GROWTH
  let giveUp := decide (Prices.PRICE_MIRROR_LOOKBACK_MAX_S < widened)
  { s with
    priceMirrorBoundDisabled := s.priceMirrorBoundDisabled || giveUp
    priceMirrorLookbackS := if giveUp then s.priceMirrorLookbackS else widened
    priceRepageFloor := none }

/-- A drain that read the whole table settles the mark it was begun under. -/
def State.settleRepageOwed (s : State K) (d : TableDrain) : State K :=
  if d.complete && d.repageSeq.isSome && s.sync.repageOwed cfg.table == d.repageSeq then
    { s with sync := { s.sync with repageOwed := Function.update s.sync.repageOwed cfg.table none } }
  else s

/-- The floor that a bounded price drain leaves behind. -/
def State.notePriceRepageFloor (s : State K) (d : TableDrain) : State K :=
  if cfg.table = .price_snapshots && d.complete then
    { s with priceRepageFloor :=
      if 0 < d.priceHorizon then d.minAppliedWireId.map fun wireId => ⟨wireId, d.priceFloor⟩
      else none }
  else s

/-- The final page was not full and everything applied. -/
def TableDrain.fullyDrained (d : TableDrain) : Bool :=
  d.lastPageCount < PAGE_LIMIT && d.applyErrors = 0

/-! ### The steps -/

/-- A step of the drain. -/
def State.drainStep (s : State K) (d : TableDrain) (phase : Phase) : Label K → Option (State K)
  | .askHorizon => match phase with
    | .opening => some (s.withDrain d (.resolving s.priceMirrorBoundDisabled))
    | _ => none
  | .horizon answer => match phase with
    | .resolving boundDisabled =>
      some (s.startPaging cfg d (s.resolvePriceMirrorHorizon cfg boundDisabled answer))
    | _ => none
  | .serve => match phase with
    | .fetching none =>
      let page := Page.fetch ServedRow.id s.hub d.lastId PAGE_LIMIT
      some ({ s with served := s.served ++ page }.withDrain d (.fetching (some page)))
    | .catchingUp since none =>
      let page := Page.fetch ServedRow.id s.hub since PAGE_LIMIT
      some ({ s with served := s.served ++ page }.withDrain d (.catchingUp since (some page)))
    | _ => none
  -- `ok` says the answer carries rows, of the schema this build mirrors
  | .take ok => match phase with
    | .fetching (some page) =>
      some (if s.onConnection d && ok then
          s.withDrain { d with pagesFetched := d.pagesFetched + 1, lastPageCount := page.length }
            (.flushing false [] page)
        else s.ended)
    | .catchingUp _ (some page) =>
      some (if ok then s.withDrain d (.catchUpRows page)
        else s.withDrain { d with applyErrors := d.applyErrors + 1 } .closing)
    | _ => none
  | .chunk landed => match phase with
    | .flushing _ [] (row :: todo) => some (s.flushPendingRows cfg d (row :: todo) landed)
    | _ => none
  | .row o => match phase with
    | .flushing batched (row :: pending) todo =>
      some (s.row cfg d row batched o (.flushing batched pending todo) (.flushing false [] []))
    | .catchUpRows (row :: todo) => some (s.row cfg d row false o (.catchUpRows todo) .closing)
    | _ => none
  | .pageEnd => match phase with
    | .flushing _ [] [] => some (s.pageEnd cfg d)
    | .catchUpRows [] => some (if s.onConnection d then s.withDrain d .closing else s.ended)
    | _ => none
  | .catchUpLost => match phase with
    | .catchingUp _ _ => some (s.withDrain d .closing)
    | _ => none
  | .refuseBound => match phase with
    | .closing => if d.fullyDrained && 0 < d.priceHorizon then some s.refuseBound.ended else none
    | _ => none
  | .certify => match phase with
    | .closing =>
      if d.fullyDrained && s.onConnection d then
        some ((s.settleRepageOwed cfg d).notePriceRepageFloor cfg d).ended
      else none
    | _ => none
  -- a request, a read of the mirror or a later pass throws, or the connection is found lost
  | .giveUp => some s.ended
  | _ => none

/-- A step, if it can be taken. -/
def State.step (s : State K) (l : Label K) : Option (State K) :=
  match l with
  | .publish .. | .rewrite .. | .withdraw _ => s.hubStep l
  | .ready .. | .close _ | .resync | .moveHub | .selectorChange | .refuseSchema | .owe
  | .notePriceMirrorFloor => s.socketStep cfg l
  | .openTable => match s.drain with
    | none => some (s.openTableDrain cfg)
    | some _ => none
  | _ => s.drain.bind fun (d, phase) => s.drainStep cfg d phase l

end HubDbSync.Cursor
