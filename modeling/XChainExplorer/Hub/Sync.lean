import XChainExplorer.Hub.HubLog
import Mathlib.Algebra.Order.Group.Int
import Mathlib.Data.List.MinMax

/-! # The certification state of a hub mirror

    What one `HubDbSync` keeps to decide how far it may claim to be complete: the stream
    watermark, the per-table watermarks with the connection each was certified on, the height map,
    the two latches, the tables owed a re-page and the stored drain positions. Every function here
    runs without waiting. -/

namespace HubDbSync

/-- A live `price_snapshots` event kept until the price drain is through. -/
inductive PriceEvent where
  | inserted (id version : ℕ)
  | deleted
  deriving DecidableEq

/-- The fields of `HubDbSync` the certification reads and writes. -/
structure Sync (K : Type*) where
  wsEpoch : ℕ := 0
  selectorRevision : ℕ := 0
  bootstrapDrained : Bool := false
  schemaMismatchSeen : Bool := false
  applyFailureSeen : Bool := false
  streamWatermark : ℤ := 0
  hubTipTs : ℤ := 0
  tableDrainEpochs : MirrorTable → Option ℕ := fun _ => none
  tableDrainRevisions : MirrorTable → Option ℕ := fun _ => none
  tableWatermarks : MirrorTable → ℤ := fun _ => 0
  heightWatermarks : Heights K := fun _ _ => none
  readyHeights : Option (Heights K) := none
  pendingBootstrapHeights : Option (Heights K) := none
  readyMaxIds : Option (MirrorTable → Option ℕ) := none
  readyCaughtUp : Option Bool := none
  lastHubInstanceId : Option ℕ := none
  repageOwed : MirrorTable → Option ℕ := fun _ => none
  repageOwedSeq : ℕ := 0
  drainPositions : MirrorTable → ℕ := fun _ => 0
  priceDrained : Bool := false
  pendingPriceEvents : List PriceEvent := []
  pendingPriceOverflow : Bool := false

variable {K : Type*}

/-! ### The watermarks -/

/-- Stored as given when it is above the present one. -/
def Sync.advanceWatermark (s : Sync K) (ts : ℤ) : Sync K :=
  if ts ≤ s.streamWatermark then s else { s with streamWatermark := ts }

/-- A carrier with no usable map clears it. -/
def Sync.noteHeights (s : Sync K) (raw : Option (Heights K)) : Sync K :=
  { s with heightWatermarks := raw.getD fun _ _ => none }

/-- Nothing was refused or failed, and the table or the whole mirror was drained on this connection. -/
def Sync.tableCertifiedOnCurrentConnection (s : Sync K) (table : MirrorTable) : Bool :=
  if s.schemaMismatchSeen || s.applyFailureSeen then false
  else (s.tableDrainEpochs table == some s.wsEpoch &&
    s.tableDrainRevisions table == some s.selectorRevision) || s.bootstrapDrained

/-- The time up to which a table is known. 0 where it is not certified. -/
def Sync.tableWatermark (s : Sync K) (table : MirrorTable) : ℤ :=
  if !s.tableCertifiedOnCurrentConnection table then 0
  else if s.tableDrainEpochs table == some s.wsEpoch &&
      s.tableDrainRevisions table == some s.selectorRevision then s.tableWatermarks table
  else s.streamWatermark

/-- One table's heights are replaced by what the carrier says of that table. -/
def Sync.noteCertifiedTableHeight (s : Sync K) (table : MirrorTable) (heights : Heights K) :
    Sync K :=
  s.noteHeights (some (Function.update s.heightWatermarks table (heights table)))

/-- One table's share of a heartbeat. -/
def Sync.advanceCertifiedTableWatermark (ts : ℤ) (heights : Option (Heights K)) (s : Sync K)
    (table : MirrorTable) : Sync K :=
  if !s.tableCertifiedOnCurrentConnection table then s
  else
    let s := if s.tableWatermark table < ts then
        { s with tableWatermarks := Function.update s.tableWatermarks table ts }
      else s
    match heights with
    | some heights => s.noteCertifiedTableHeight table heights
    | none => s

/-- A heartbeat moves the certified tables on. -/
def Sync.advanceCertifiedTableWatermarks (s : Sync K) (ts : ℤ) (heights : Option (Heights K)) :
    Sync K :=
  MIRRORED_TABLES.foldl (Sync.advanceCertifiedTableWatermark ts heights) s

/-- A heartbeat. The claimed tip is recorded before the gate, in `noteHubTip`. -/
def Sync.handleWatermarkFrame (s : Sync K) (ts : ℤ) (heights : Option (Heights K)) : Sync K :=
  if s.schemaMismatchSeen || s.applyFailureSeen then s
  else
    let s := s.advanceCertifiedTableWatermarks ts heights
    if !s.bootstrapDrained then s
    else (s.noteHeights heights).advanceWatermark ts

/-- The newest time the hub spoke of. -/
def Sync.noteHubTip (s : Sync K) (ts : ℤ) : Sync K :=
  if s.hubTipTs < ts then { s with hubTipTs := ts } else s

/-! ### Owed re-pages -/

/-- A table owes a drain from its start, under a mark of its own. -/
def Sync.markOwed (s : Sync K) (table : MirrorTable) : Sync K :=
  { s with
    repageOwedSeq := s.repageOwedSeq + 1
    repageOwed := Function.update s.repageOwed table (some (s.repageOwedSeq + 1)) }

/-- Every mark takes a fresh number, so a drain opened before it cannot settle it. -/
def Sync.markRepageOwed (s : Sync K) (tables : List MirrorTable) : Sync K :=
  tables.foldl Sync.markOwed s

/-- The tables that owe one. -/
def Sync.repageOwedTables (s : Sync K) : List MirrorTable :=
  MIRRORED_TABLES.filter fun table => (s.repageOwed table).isSome

/-- A forced resync forgets where it was and owes every table a page from the start. -/
def Sync.forgetPositionsForResync (s : Sync K) : Sync K :=
  { s with lastHubInstanceId := none, drainPositions := fun _ => 0 }.markRepageOwed MIRRORED_TABLES

/-! ### The connection -/

/-- The ready frame. A position crosses a connection only on the same hub instance. -/
def Sync.adoptReadyFrame (s : Sync K) (instanceId : Option ℕ) (caughtUp : Bool)
    (maxIds : Option (MirrorTable → Option ℕ)) (heights : Option (Heights K)) : Sync K :=
  let s := { s with readyCaughtUp := some caughtUp }
  let s := if s.lastHubInstanceId.isSome && instanceId != s.lastHubInstanceId then
      { s with
        selectorRevision := s.selectorRevision + 1, bootstrapDrained := false
        heightWatermarks := fun _ _ => none }
    else s
  let s := if instanceId.isNone || instanceId != s.lastHubInstanceId then
      { s with drainPositions := fun _ => 0 }
    else s
  let s := { s with lastHubInstanceId := instanceId }.markRepageOwed REPAGE_PER_CONNECTION_TABLES
  { s with readyMaxIds := maxIds, readyHeights := heights }

/-- Everything certified on the connection that closed. -/
def Sync.resetOnSocketClose (s : Sync K) : Sync K :=
  { s with
    bootstrapDrained := false, readyCaughtUp := none
    heightWatermarks := fun _ _ => none, readyHeights := none
    priceDrained := false, pendingPriceEvents := [], pendingPriceOverflow := false
    wsEpoch := s.wsEpoch + 1 }

/-- The close of the socket: one that asks for a resync forgets the hub instance first. -/
def Sync.closeSocket (s : Sync K) (resync : Bool) : Sync K :=
  { s.resetOnSocketClose with
    lastHubInstanceId := if resync then none else s.lastHubInstanceId }

/-- A move to another candidate hub. -/
def Sync.resetForMove (s : Sync K) : Sync K :=
  { s with
    drainPositions := fun _ => 0, lastHubInstanceId := none
    readyMaxIds := none, readyHeights := none, bootstrapDrained := false }

/-! ### Price events -/

/-- Price events kept at most; `PENDING_PRICE_EVENT_CAP`. -/
def Sync.bufferPriceEvent (s : Sync K) (cap : ℕ) (event : PriceEvent) : Sync K :=
  if s.pendingPriceOverflow then s
  else if cap ≤ s.pendingPriceEvents.length then
    { s with pendingPriceOverflow := true, pendingPriceEvents := [] }
  else { s with pendingPriceEvents := s.pendingPriceEvents ++ [event] }

/-- A row of a shape this build does not mirror. -/
def Sync.refuseSchema (s : Sync K) : Sync K :=
  { s with schemaMismatchSeen := true }.markRepageOwed MIRRORED_TABLES

/-! ### The full drain -/

/-- The certification of a pass that drained every table. -/
def Sync.certifyFullDrain (s : Sync K) (pollMode : Bool) (marks : List ℤ) : Sync K :=
  let s := { s with bootstrapDrained := true, schemaMismatchSeen := false, applyFailureSeen := false }
  if pollMode then s
  else
    (s.noteHeights (s.pendingBootstrapHeights <|> s.readyHeights)).advanceWatermark
      (marks.min?.getD 0)

end HubDbSync
