import XChainExplorer.Hub.Retractions
import XChainExplorer.Lib.Page
import XChainExplorer.Lib.Runs
import XChainExplorer.Lib.UniqueTable

/-! # The mirror of the price rounds

    `price_snapshots` as one `HubDbSync` keeps it. Its drains may be bounded: a row older than a floor
    is served and not applied, and the floor is policed by the barriers afterwards. A drain starts at
    id 0, at the stored position, or at the lowest id the last complete drain applied. Live events are
    buffered until the drain of the connection is through, and one that read the whole table, or all
    of it above the floor, removes the finalized rounds the hub did not serve. -/

namespace HubDbSync.Prices

/-- How a price round ended. -/
inductive PriceStatus where
  | finalized
  | skipped
  | disputed
  deriving DecidableEq

/-- A row of the table. The time is 0 where the row has none. `version` numbers what the hub wrote;
    it stands for the columns no function reads. -/
structure PriceSnapshot where
  round_number : ℕ
  coin_pair : String
  reference_block : ℕ := 0
  block_timestamp : ℕ
  status : PriceStatus := .finalized
  source_chain : String := "DOGE"
  source_action_index : Option ℕ := none
  push_generation : ℤ := 0
  version : ℕ
  deriving DecidableEq

/-- `UNIQUE (round_number, coin_pair)`. -/
abbrev RoundKey := ℕ × String

/-- The natural key of a row: its round and its pair. -/
def priceRoundKey (row : PriceSnapshot) : RoundKey := (row.round_number, row.coin_pair)

/-- A row of the hub, under the id it travels with. -/
abbrev WireRow := UniqueRow RoundKey PriceSnapshot

/-- `price_snapshots` on either side, unique by round and pair. -/
abbrev PriceTable := UniqueTable RoundKey PriceSnapshot

/-- What the stream says of prices: one row, or a retracted range. -/
inductive LiveEvent where
  | inserted (row : PriceSnapshot)
  | deleted (chain : String) (range : RetractionRange)
  deriving DecidableEq

/-- The rows of one page of a drain. -/
def PAGE_LIMIT : ℕ := 10000

/-- The live events that are held back before the connection's first price drain. -/
def PENDING_PRICE_EVENT_CAP : ℕ := 10000

/-- The served keys a drain keeps for its reconciliation. -/
def PRICE_FINALIZED_KEY_CAP : ℕ := 500000

/-- The rounds below the horizon a bounded mirror reaches. -/
def PRICE_MIRROR_ROUND_MARGIN : ℕ := 1500

/-- The rounds below the horizon a bound must leave to be accepted. -/
def PRICE_MIRROR_MIN_PRE_HORIZON_ROUNDS : ℕ := 1200

/-- The margin in seconds, at one round each ten minutes. -/
def PRICE_MIRROR_LOOKBACK_S : ℕ := PRICE_MIRROR_ROUND_MARGIN * 600

/-- How a margin that left too few rounds grows. -/
def PRICE_MIRROR_LOOKBACK_GROWTH : ℕ := 4

/-- The margin past which the mirror is not bounded at all. -/
def PRICE_MIRROR_LOOKBACK_MAX_S : ℕ := PRICE_MIRROR_LOOKBACK_S * 64

/-- Ids in one `DELETE`. -/
def REMOVAL_CHUNK : ℕ := 500

/-! ### The table -/

/-- A finalized or disputed row is taken whole, a skipped one never touches a row that stands. -/
def upsertRow (mirror : PriceTable) (row : PriceSnapshot) : PriceTable :=
  mirror.upsert (priceRoundKey row) row fun old => if row.status = .skipped then old else row

/-- The rows a deletion removes. -/
def retractsPrice (chain : String) (range : RetractionRange) (row : PriceSnapshot) : Bool :=
  row.source_chain = chain &&
    row.source_action_index.any fun index => range.covers index row.push_generation

/-! ### What the client keeps -/

/-- Where the next re-page of the same hub instance may start. -/
structure RepageFloor where
  wireId : ℕ
  floorTs : ℕ
  deriving DecidableEq

/-- The fields of `HubDbSync` the price mirror rests on. -/
structure PriceSync where
  wsEpoch : ℕ := 0
  selectorRevision : ℕ := 0
  bootstrapDrained : Bool := false
  schemaMismatchSeen : Bool := false
  applyFailureSeen : Bool := false
  /-- The connection and selector revision the table was certified on. -/
  tableDrain : Option (ℕ × ℕ) := none
  lastHubInstanceId : Option ℕ := none
  readyMaxId : Option ℕ := none
  drainPosition : ℕ := 0
  repageOwed : Option ℕ := none
  repageOwedSeq : ℕ := 0
  priceMirrorLookbackS : ℕ := PRICE_MIRROR_LOOKBACK_S
  priceMirrorBoundDisabled : Bool := false
  priceMirrorRefloor : Bool := false
  priceMirrorFloorTs : ℕ := 0
  priceRepageFloor : Option RepageFloor := none
  priceDrained : Bool := false
  pendingPriceEvents : List LiveEvent := []
  pendingPriceOverflow : Bool := false
  priceBootstrapped : Bool := false
  priceSyncHeight : ℕ := 0
  priceSyncMaxTimestamp : ℕ := 0
  deriving DecidableEq

/-- The table was drained on this connection, and nothing failed since. -/
def PriceSync.tableCertifiedOnCurrentConnection (s : PriceSync) : Bool :=
  !s.schemaMismatchSeen && !s.applyFailureSeen &&
    (s.tableDrain = some (s.wsEpoch, s.selectorRevision) || s.bootstrapDrained)

/-! ### The connection -/

/-- The table owes a page from zero under a fresh mark. -/
def PriceSync.markRepageOwed (s : PriceSync) : PriceSync :=
  { s with repageOwed := some (s.repageOwedSeq + 1), repageOwedSeq := s.repageOwedSeq + 1 }

/-- The ready frame. A position and a recorded start cross a connection only on the same hub
    instance. -/
def PriceSync.adoptReadyFrame (s : PriceSync) (instanceId maxId : Option ℕ) : PriceSync :=
  let moved := s.lastHubInstanceId.isSome && instanceId != s.lastHubInstanceId
  let fresh := instanceId.isNone || instanceId != s.lastHubInstanceId
  let s := { s with
    selectorRevision := if moved then s.selectorRevision + 1 else s.selectorRevision
    bootstrapDrained := s.bootstrapDrained && !moved
    drainPosition := if fresh then 0 else s.drainPosition
    priceRepageFloor := if fresh then none else s.priceRepageFloor
    lastHubInstanceId := instanceId
    readyMaxId := maxId }
  s.markRepageOwed

/-- What a closed socket forgets: the drains, and the events held back for them. -/
def PriceSync.resetOnSocketClose (s : PriceSync) : PriceSync :=
  { s with
    bootstrapDrained := false
    priceDrained := false
    pendingPriceEvents := []
    pendingPriceOverflow := false
    wsEpoch := s.wsEpoch + 1 }

/-- The close of the socket: one that asks for a resync forgets the hub instance first. -/
def PriceSync.closeSocket (s : PriceSync) (resync : Bool) : PriceSync :=
  { s.resetOnSocketClose with
    lastHubInstanceId := if resync then none else s.lastHubInstanceId }

/-- A forced resync. -/
def PriceSync.forgetPositionsForResync (s : PriceSync) : PriceSync :=
  { s with lastHubInstanceId := none, drainPosition := 0, priceRepageFloor := none }.markRepageOwed

/-- A move to another candidate hub. -/
def PriceSync.resetForMove (s : PriceSync) : PriceSync :=
  { s with
    drainPosition := 0
    lastHubInstanceId := none
    readyMaxId := none
    priceSyncMaxTimestamp := 0
    bootstrapDrained := false }

/-- A live row of a shape this build does not mirror. -/
def PriceSync.refuseSchema (s : PriceSync) : PriceSync :=
  { s with schemaMismatchSeen := true, priceRepageFloor := none }.markRepageOwed

/-! ### Price events -/

/-- A live event waits for the drain; past the cap the whole buffer is given up. -/
def PriceSync.bufferPriceEvent (s : PriceSync) (event : LiveEvent) : PriceSync :=
  if s.pendingPriceOverflow then s
  else if PENDING_PRICE_EVENT_CAP ≤ s.pendingPriceEvents.length then
    { s with pendingPriceOverflow := true, pendingPriceEvents := [] }
  else { s with pendingPriceEvents := s.pendingPriceEvents ++ [event] }

/-! ### The drain -/

/-- The accounting of one drain. Nothing reads `boundDisabled`, whether the bound was given up when the
    drain resolved it. -/
structure PriceDrain where
  lastId : ℕ
  readyCeiling : Option ℕ
  connectionEpoch : ℕ
  selectorRevision : ℕ
  fullTable : Bool
  floorStart : Bool := false
  repageSeq : Option ℕ
  boundDisabled : Bool := false
  priceHorizon : ℕ := 0
  priceFloor : ℕ := 0
  pending : List WireRow := []
  shortPage : Bool := false
  caughtUp : Bool := false
  preHorizonServed : List ℕ := []
  preHorizonRetained : List ℕ := []
  priceSkipped : ℕ := 0
  pricePairHeld : List PriceSnapshot := []
  pricePairCovered : List String := []
  minAppliedWireId : Option ℕ := none
  servedPriceKeys : List RoundKey := []
  priceKeysComplete : Bool := true
  maxServedRound : ℕ := 0

/-- The connection the drain was opened on is still the one in use. -/
def PriceDrain.onConnection (d : PriceDrain) (s : PriceSync) : Bool :=
  d.connectionEpoch = s.wsEpoch && d.selectorRevision = s.selectorRevision

/-- Where the page loop starts reading. -/
def PriceSync.resolveDrainCursor (s : PriceSync) : ℕ :=
  let lastId := if s.repageOwed.isSome then 0 else s.drainPosition
  match s.readyMaxId with
  | some ceiling => if 0 < lastId ∧ ceiling < lastId then 0 else lastId
  | none => lastId

/-- The accounting of a drain at its start. -/
def PriceSync.newDrain (s : PriceSync) : PriceDrain where
  lastId := s.resolveDrainCursor
  readyCeiling := s.readyMaxId
  connectionEpoch := s.wsEpoch
  selectorRevision := s.selectorRevision
  fullTable := s.resolveDrainCursor = 0
  repageSeq := s.repageOwed

/-- What the consumer answered, where it bounds anything. -/
def PriceSync.resolvePriceMirrorHorizon (s : PriceSync) (d : PriceDrain) (answer : Option ℕ) : ℕ :=
  if d.boundDisabled then 0
  else match answer with
    | some horizon => if horizon ≤ s.priceMirrorLookbackS then 0 else horizon
    | none => 0

/-- The bound of a drain: the consumer's horizon, and the margin below it. -/
def PriceSync.newPriceBoundState (s : PriceSync) (d : PriceDrain) (horizon : ℕ) : PriceDrain :=
  { d with
    priceHorizon := horizon
    priceFloor := if 0 < horizon then horizon - s.priceMirrorLookbackS else 0 }

/-- The start recorded by the last complete drain, where this one may take it. -/
def PriceSync.repageStart (s : PriceSync) (d : PriceDrain) : Option RepageFloor :=
  s.priceRepageFloor.filter fun mark =>
    d.lastId = 0 && d.repageSeq.isSome && 0 < d.priceHorizon && mark.floorTs ≤ d.priceFloor &&
      d.readyCeiling.all fun ceiling => mark.wireId - 1 ≤ ceiling

/-- A re-page starts where the last complete drain found its first kept row, if it may. -/
def PriceSync.choosePriceRepageStart (s : PriceSync) (d : PriceDrain) : PriceSync × PriceDrain :=
  match s.repageStart d with
  | some mark =>
    ({ s with drainPosition := mark.wireId - 1 },
      { d with lastId := mark.wireId - 1, fullTable := false, floorStart := true })
  | none => (s, d)

/-- A row below the floor is served and not applied. -/
def PriceDrain.priceRowBoundOut (d : PriceDrain) (row : PriceSnapshot) : Bool :=
  0 < d.priceHorizon && 0 < row.block_timestamp && row.block_timestamp < d.priceHorizon &&
    row.block_timestamp < d.priceFloor

/-- The newest bounded row of each pair. -/
def holdPredecessor (held : List PriceSnapshot) (row : PriceSnapshot) : List PriceSnapshot :=
  match held.find? (·.coin_pair = row.coin_pair) with
  | some h =>
    if h.round_number < row.round_number then
      held.map fun r => if r.coin_pair = row.coin_pair then row else r
    else held
  | none => held ++ [row]

/-- What the drain notes of a row before it is applied or declined. -/
def PriceDrain.decidePriceBound (d : PriceDrain) (row : PriceSnapshot) : PriceDrain :=
  let boundOut := d.priceRowBoundOut row
  let finalized := decide (row.status = .finalized)
  let preHorizon := finalized && 0 < row.block_timestamp && row.block_timestamp < d.priceHorizon
  { d with
    preHorizonServed :=
      if preHorizon then d.preHorizonServed.insert row.round_number else d.preHorizonServed
    preHorizonRetained :=
      if preHorizon && !boundOut then d.preHorizonRetained.insert row.round_number
      else d.preHorizonRetained
    pricePairCovered :=
      if 0 < d.priceHorizon && finalized && !boundOut then d.pricePairCovered.insert row.coin_pair
      else d.pricePairCovered
    pricePairHeld :=
      if finalized && boundOut then holdPredecessor d.pricePairHeld row else d.pricePairHeld
    priceSkipped := if boundOut then d.priceSkipped + 1 else d.priceSkipped }

/-- Only finalized rows are kept by key. -/
def PriceDrain.recordServedRow (d : PriceDrain) (x : WireRow) : PriceDrain :=
  let finalized := decide (x.value.status = .finalized)
  let full := decide (PRICE_FINALIZED_KEY_CAP ≤ d.servedPriceKeys.length)
  { d with
    maxServedRound := max d.maxServedRound x.key.1
    servedPriceKeys :=
      if finalized && !full then d.servedPriceKeys.insert x.key else d.servedPriceKeys
    priceKeysComplete := d.priceKeysComplete && !(finalized && full) }

/-- Behind a row that was applied or bounded out. -/
def PriceDrain.handled (d : PriceDrain) (x : WireRow) (pending : List WireRow) : PriceDrain :=
  { (d.decidePriceBound x.value).recordServedRow x with
    pending
    minAppliedWireId :=
      if 0 < d.priceHorizon && !d.priceRowBoundOut x.value then
        some (d.minAppliedWireId.elim x.id (min x.id))
      else d.minAppliedWireId
    lastId := max d.lastId x.id }

/-- The next page, and whether it was the last. -/
def readPage (hub : PriceTable) (d : PriceDrain) (since : ℕ) : PriceDrain :=
  let rows := Page.fetch UniqueRow.id hub.rows since PAGE_LIMIT
  { d with
    pending := rows
    shortPage := d.shortPage || decide (rows.length < PAGE_LIMIT) }

/-- The held rows of the pairs the drain kept nothing of. -/
def PriceDrain.heldPredecessors (d : PriceDrain) : List PriceSnapshot :=
  d.pricePairHeld.filter fun row => row.coin_pair ∉ d.pricePairCovered

/-! ### After the last page -/

/-- The bound kept enough rounds below the horizon for what a block can read. -/
def PriceDrain.acceptPriceMirrorBound (d : PriceDrain) : Bool :=
  !(decide (0 < d.priceHorizon) &&
    decide (d.preHorizonRetained.length < d.preHorizonServed.length) &&
    decide (d.preHorizonRetained.length < PRICE_MIRROR_MIN_PRE_HORIZON_ROUNDS))

/-- A refused bound is widened, and given up at the ceiling. -/
def PriceSync.refuseBound (s : PriceSync) : PriceSync :=
  let widened := s.priceMirrorLookbackS * PRICE_MIRROR_LOOKBACK_GROWTH
  let giveUp := decide (PRICE_MIRROR_LOOKBACK_MAX_S < widened)
  { s with
    priceMirrorBoundDisabled := s.priceMirrorBoundDisabled || giveUp
    priceMirrorLookbackS := if giveUp then s.priceMirrorLookbackS else widened
    priceMirrorFloorTs := 0
    priceRepageFloor := none }

/-- The drain left rows unread or unapplied. -/
def PriceDrain.bounded (d : PriceDrain) : Bool := 0 < d.priceSkipped || d.floorStart

/-- The floor after a full drain; one that bounded nothing is the mirror a re-floor waits for. -/
def PriceSync.notePriceFloorAfterDrain (s : PriceSync) (d : PriceDrain) : PriceSync :=
  { s with
    priceMirrorFloorTs := if d.bounded then d.priceFloor else 0
    priceMirrorRefloor := s.priceMirrorRefloor && d.bounded }

/-- The drain read all of the hub's table, or all of it above the floor. -/
def PriceDrain.complete (d : PriceDrain) : Bool := d.fullTable || d.floorStart

/-- The local finalized rows the drain proves foreign. -/
def staleForeignPriceRoundIds (mirror : PriceTable) (d : PriceDrain) : List ℕ :=
  let finalized := mirror.rows.filter fun x => x.value.status = .finalized
  if d.priceKeysComplete then
    let locals := finalized.filter fun x => !d.floorStart || d.priceFloor ≤ x.value.block_timestamp
    let stale := locals.filter fun x => x.key ∉ d.servedPriceKeys
    if !d.servedPriceKeys.isEmpty && !locals.isEmpty && stale.length = locals.length then []
    else stale.map (·.id)
  else (finalized.filter fun x => d.maxServedRound < x.key.1).map (·.id)

/-- The drain certifies the table for its own connection. -/
def PriceSync.certifyTableDrain (s : PriceSync) (d : PriceDrain) : PriceSync :=
  { s with tableDrain := some (d.connectionEpoch, d.selectorRevision) }

/-- Only a complete drain that was opened under the present mark settles it. -/
def PriceSync.settleRepageOwed (s : PriceSync) (d : PriceDrain) : PriceSync :=
  if d.complete && d.repageSeq.isSome && s.repageOwed = d.repageSeq then
    { s with repageOwed := none }
  else s

/-- Where the next re-page of this hub may start. -/
def PriceSync.notePriceRepageFloor (s : PriceSync) (d : PriceDrain) : PriceSync :=
  if d.complete then
    { s with priceRepageFloor :=
      if 0 < d.priceHorizon then d.minAppliedWireId.map fun wireId => ⟨wireId, d.priceFloor⟩
      else none }
  else s

/-- What the table's own certification writes. -/
def PriceSync.certifyPriceDrain (s : PriceSync) (d : PriceDrain) : PriceSync :=
  ((s.certifyTableDrain d).settleRepageOwed d).notePriceRepageFloor d

/-- The certification of a pass that drained every table. -/
def PriceSync.certifyFullDrain (s : PriceSync) : PriceSync :=
  { s with bootstrapDrained := true, schemaMismatchSeen := false, applyFailureSeen := false }

/-! ### The barriers -/

/-- A block below the policed floor abandons the bound and shuts both price barriers. -/
def PriceSync.notePriceMirrorFloor (s : PriceSync) (blockTime : ℕ) : PriceSync :=
  if 0 < s.priceMirrorFloorTs ∧ 0 < blockTime ∧ blockTime < s.priceMirrorFloorTs then
    { s with
      priceMirrorBoundDisabled := true
      priceMirrorFloorTs := 0
      priceMirrorRefloor := true }
  else s

/-- What the barriers read of the rest of the mirror. -/
structure BarrierReads where
  tableWatermark : ℤ
  priceWatermarkGraceS : ℤ
  admissionActiveAt : Option ℕ → Bool
  heightSatisfied : Option ℕ → Bool
  admissionStreamSatisfied : Bool → Bool

/-- Whether a block may be processed, by its height or by its time. -/
def PriceSync.priceSyncSatisfied (s : PriceSync) (reads : BarrierReads) (blockHeight : ℕ)
    (blockTime : Option ℤ) : Bool :=
  if s.priceMirrorRefloor then false
  else if !(s.priceBootstrapped && s.tableCertifiedOnCurrentConnection) then false
  else if blockHeight ≤ s.priceSyncHeight then true
  else if reads.admissionActiveAt (some blockHeight) then reads.heightSatisfied (some blockHeight)
  else blockTime.any fun t => t + reads.priceWatermarkGraceS ≤ reads.tableWatermark

/-- Whether the prices of a time may be read. -/
def PriceSync.priceTimeSyncSatisfied (s : PriceSync) (reads : BarrierReads) (blockTime : Option ℤ)
    (blockHeight : Option ℕ) : Bool :=
  let streamSatisfied := blockTime.any fun t => t + reads.priceWatermarkGraceS ≤ reads.tableWatermark
  if !(s.priceBootstrapped && s.tableCertifiedOnCurrentConnection) then false
  else if reads.admissionActiveAt blockHeight then
    !s.priceMirrorRefloor && reads.admissionStreamSatisfied streamSatisfied ||
      !s.priceMirrorRefloor && reads.heightSatisfied blockHeight
  else match blockTime with
    | none => true
    | some t =>
      if s.priceMirrorRefloor then false
      else decide (t ≤ s.priceSyncMaxTimestamp) || streamSatisfied

/-! ### The machine -/

/-- Where the drain stands: behind each of these it waits for something. -/
inductive Phase where
  | opening
  | resolving
  | paging
  | predecessors (rows : List PriceSnapshot)
  | judged
  | removing (stale : List ℕ)
  | replaying (epoch : ℕ) (writing : Option LiveEvent)
  | replayed
  | drained
  deriving DecidableEq

/-- A drain that is under way, and where it stands. -/
structure Pass where
  drain : PriceDrain
  phase : Phase

/-- The hub with every row it published and every retraction it sent, and the mirror with the live
    writes it has begun. Nothing reads `boundOut`, the finalized rows that were bounded out and not
    applied since, and `delivered`, the versions a page or a live event brought to the mirror. -/
structure State where
  hub : PriceTable
  versions : List PriceSnapshot := []
  retractions : List (String × RetractionRange) := []
  mirror : PriceTable
  sync : PriceSync := {}
  inflight : List LiveEvent := []
  pass : Option Pass := none
  boundOut : List WireRow := []
  delivered : List ℕ := []

/-- The steps of the hub, of the connection, of a drain and of the consumer. -/
inductive Label where
  -- the hub
  | publish (row : PriceSnapshot)
  | retract (chain : String) (range : RetractionRange)
  -- the connection
  | ready (instanceId maxId : Option ℕ)
  | close (resync : Bool)
  | resync
  | move
  | refuseSchema
  | failApply
  -- the stream
  | live (version : ℕ)
  | liveRetraction (retraction : ℕ)
  | land (i : ℕ) (ok : Bool)
  -- the barriers
  | gate (blockTime : ℕ)
  | refresh
  -- the drain
  | openDrain
  | askHorizon
  | horizon (answer : Option ℕ)
  | page
  | row (ok : Bool)
  | catchUp
  | pagesDone
  | predecessor (ok : Bool)
  | judge
  | select (ok : Bool)
  | remove (ok : Bool)
  | replay
  | flush (ok : Bool)
  | certify
  | passEnd (othersDrained : Bool)
  | abort

/-- The drain goes on to a phase. -/
def State.withDrain (s : State) (d : PriceDrain) (phase : Phase) : State :=
  { s with pass := some ⟨d, phase⟩ }

/-- The drain is over. -/
def State.ended (s : State) : State := { s with pass := none }

/-- The drain goes on only on its own connection. -/
def State.stillOn (s : State) (d : PriceDrain) (phase : Phase) : State :=
  if d.onConnection s.sync then s.withDrain d phase else s.ended

/-- The drain with its bound resolved, and where it starts. -/
def PriceSync.startDrain (s : PriceSync) (d : PriceDrain) (answer : Option ℕ) :
    PriceSync × PriceDrain :=
  s.choosePriceRepageStart (s.newPriceBoundState d (s.resolvePriceMirrorHorizon d answer))

/-- The position behind a row that was handled. -/
def PriceSync.passRow (s : PriceSync) (d : PriceDrain) (x : WireRow) : PriceSync :=
  { s with drainPosition := if d.lastId < x.id then x.id else s.drainPosition }

/-- A row is written. -/
def State.writeRow (s : State) (row : PriceSnapshot) : State :=
  { s with
    mirror := upsertRow s.mirror row
    boundOut := s.boundOut.filter fun x => x.key ≠ priceRoundKey row
    delivered := row.version :: s.delivered }

/-- A live event reaches the mirror. -/
def State.writeEvent (s : State) : LiveEvent → State
  | .inserted row => s.writeRow row
  | .deleted chain range =>
    { s with mirror := s.mirror.delete fun x => retractsPrice chain range x.value }

/-- A row is bounded out. -/
def State.boundRow (s : State) (x : WireRow) : State :=
  { s with
    boundOut :=
      if x.value.status = .finalized then x :: s.boundOut.filter fun y => y.key ≠ x.key
      else s.boundOut
    delivered := x.value.version :: s.delivered }

/-- The live path is open once the connection's drain is through. -/
def State.handleRowEvent (s : State) (event : LiveEvent) : State :=
  if s.sync.priceDrained then { s with inflight := s.inflight ++ [event] }
  else { s with sync := s.sync.bufferPriceEvent event }

/-- `MAX` over the finalized rows. -/
def maxFinalized (mirror : PriceTable) (column : PriceSnapshot → ℕ) : ℕ :=
  ((mirror.rows.filter fun x => x.value.status = .finalized).map fun x => column x.value).foldl max 0

/-- The barriers are read anew from the mirror. -/
def State.refreshPriceSyncHeight (s : State) : State :=
  { s with sync := { s.sync with
    priceSyncHeight := maxFinalized s.mirror (·.reference_block)
    priceSyncMaxTimestamp := maxFinalized s.mirror (·.block_timestamp)
    priceBootstrapped := true } }

/-- A row the hub rewrites keeps its time. -/
def Publishable (s : State) (row : PriceSnapshot) : Prop :=
  row.version = s.versions.length ∧
    ∀ h ∈ s.hub.rows, h.key = priceRoundKey row → h.value.block_timestamp = row.block_timestamp

instance (s : State) (row : PriceSnapshot) : Decidable (Publishable s row) :=
  inferInstanceAs (Decidable (_ ∧ _))

/-- A step of the hub, of the connection, of the stream or of a barrier. -/
def State.mirrorStep (s : State) : Label → Option State
  | .publish row =>
    if Publishable s row then
      some { s with
        hub := s.hub.upsert (priceRoundKey row) row fun _ => row
        versions := s.versions ++ [row] }
    else none
  | .retract chain range =>
    some { s with
      hub := s.hub.delete fun x => retractsPrice chain range x.value
      retractions := s.retractions ++ [(chain, range)] }
  | .ready instanceId maxId => some { s with sync := s.sync.adoptReadyFrame instanceId maxId }
  | .close resync => some { s with sync := s.sync.closeSocket resync }
  | .resync => some { s with sync := s.sync.forgetPositionsForResync }
  | .move => some { s with sync := s.sync.resetForMove }
  | .refuseSchema => some { s with sync := s.sync.refuseSchema }
  | .failApply => some { s with sync := { s.sync with applyFailureSeen := true } }
  | .live version => s.versions[version]?.map fun row => s.handleRowEvent (.inserted row)
  | .liveRetraction retraction =>
    s.retractions[retraction]?.map fun e => s.handleRowEvent (.deleted e.1 e.2)
  | .land i ok => s.inflight[i]?.map fun event =>
      let s := { s with inflight := s.inflight.eraseIdx i }
      if ok then s.writeEvent event else { s with sync := { s.sync with applyFailureSeen := true } }
  | .gate blockTime => some { s with sync := s.sync.notePriceMirrorFloor blockTime }
  | .refresh => some s.refreshPriceSyncHeight
  | _ => none

/-- A step of the pages of the drain in flight. -/
def State.pageStep (s : State) (p : Pass) : Label → Option State
  | .askHorizon => match p.phase with
    | .opening =>
      some (s.withDrain { p.drain with boundDisabled := s.sync.priceMirrorBoundDisabled } .resolving)
    | _ => none
  | .horizon answer => match p.phase with
    | .resolving =>
      let s' := { s with sync := (s.sync.startDrain p.drain answer).1 }
      some (s'.stillOn (s.sync.startDrain p.drain answer).2 .paging)
    | _ => none
  | .page => match p.phase with
    | .paging =>
      if p.drain.pending.isEmpty && !p.drain.shortPage then
        some (if p.drain.onConnection s.sync then
          s.withDrain (readPage s.hub p.drain p.drain.lastId) .paging
        else s.ended)
      else none
    | _ => none
  | .row ok => match p.phase, p.drain.pending with
    | .paging, x :: pending =>
      let d := p.drain.handled x pending
      let s' := { s with sync := s.sync.passRow p.drain x }
      if p.drain.priceRowBoundOut x.value then some ((s'.boundRow x).withDrain d .paging)
      else if ok then some ((s'.writeRow x.value).withDrain d .paging)
      else some s.ended
    | _, _ => none
  -- one page more, where the hub had named a higher id than the position
  | .catchUp => match p.phase with
    | .paging =>
      if p.drain.pending.isEmpty && p.drain.shortPage && !p.drain.caughtUp &&
          s.sync.readyMaxId.any (s.sync.drainPosition < ·) then
        some (s.withDrain { readPage s.hub p.drain s.sync.drainPosition with caughtUp := true } .paging)
      else none
    | _ => none
  | .pagesDone => match p.phase with
    | .paging =>
      if p.drain.pending.isEmpty && p.drain.shortPage then
        some (s.stillOn p.drain (.predecessors p.drain.heldPredecessors))
      else none
    | _ => none
  | _ => none

/-- A step of what follows the last page. -/
def State.closeStep (s : State) (p : Pass) : Label → Option State
  | .predecessor ok => match p.phase with
    | .predecessors (row :: rows) =>
      some (if ok then (s.writeRow row).withDrain p.drain (.predecessors rows) else s.ended)
    | _ => none
  | .judge => match p.phase with
    | .predecessors [] =>
      some (if p.drain.acceptPriceMirrorBound then
        let s' := { s with sync := s.sync.notePriceFloorAfterDrain p.drain }
        s'.stillOn p.drain .judged
      else
        let s' := { s with sync := s.sync.refuseBound }
        s'.ended)
    | _ => none
  -- a local read that fails leaves every row
  | .select ok => match p.phase with
    | .judged =>
      let stale := if p.drain.complete && ok then staleForeignPriceRoundIds s.mirror p.drain else []
      some (s.withDrain p.drain (.removing stale))
    | _ => none
  | .remove ok => match p.phase with
    | .removing [] => none
    | .removing stale =>
      let mirror := s.mirror.delete fun x => x.id ∈ stale.take REMOVAL_CHUNK
      some (if ok then
        { s with mirror }.withDrain p.drain (.removing (stale.drop REMOVAL_CHUNK))
      else s.withDrain p.drain (.removing []))
    | _ => none
  | .replay => match p.phase with
    | .removing [] => some (s.withDrain p.drain (.replaying s.sync.wsEpoch none))
    | _ => none
  -- the flush takes the head of whatever the buffer is by then
  | .flush ok => match p.phase with
    | .replaying epoch (some event) =>
      some (if ok then
        let s := s.writeEvent event
        let sync := { s.sync with pendingPriceEvents := s.sync.pendingPriceEvents.tail }
        { s with sync }.withDrain p.drain (.replaying epoch none)
      else
        let s := { s with sync := { s.sync with applyFailureSeen := true } }
        s.ended)
    | .replaying epoch none =>
      some (if s.sync.pendingPriceOverflow then
        let sync := { s.sync with pendingPriceOverflow := false, pendingPriceEvents := [] }
        { s with sync }.ended
      else match s.sync.pendingPriceEvents with
        | event :: _ => s.withDrain p.drain (.replaying epoch (some event))
        | [] =>
          if epoch = s.sync.wsEpoch then
            { s with sync := { s.sync with priceDrained := true } }.withDrain p.drain .replayed
          else s.ended)
    | _ => none
  | .certify => match p.phase with
    | .replayed =>
      some (if p.drain.onConnection s.sync then
        let s' := { s with sync := s.sync.certifyPriceDrain p.drain }
        s'.withDrain p.drain .drained
      else s.ended)
    | _ => none
  | .passEnd othersDrained => match p.phase with
    | .drained =>
      let certifies := othersDrained && s.sync.repageOwed.isNone &&
        p.drain.onConnection s.sync
      some (if certifies then
        let s := { s with sync := s.sync.certifyFullDrain }
        s.ended
      else s.ended)
    | _ => none
  -- a page, a row or a statement that throws ends the drain
  | .abort => match p.phase with
    | .replaying .. => none
    | _ => some s.ended
  | _ => none

/-- One step; `none` where the label is not possible. -/
def step (s : State) (l : Label) : Option State :=
  match l with
  | .publish _ | .retract .. | .ready .. | .close _ | .resync | .move | .refuseSchema | .failApply
  | .live _ | .liveRetraction _ | .land .. | .gate _ | .refresh => s.mirrorStep l
  | .openDrain => match s.pass with
    | none =>
      let d := s.sync.newDrain
      some ({ s with sync := { s.sync with drainPosition := d.lastId } }.withDrain d .opening)
    | some _ => none
  | .askHorizon | .horizon _ | .page | .row _ | .catchUp | .pagesDone =>
    s.pass.bind fun p => s.pageStep p l
  | .predecessor _ | .judge | .select _ | .remove _ | .replay | .flush _ | .certify | .passEnd _
  | .abort => s.pass.bind fun p => s.closeStep p l

/-- Nothing published, nothing mirrored. -/
def State.fresh : State where
  hub := .empty
  mirror := .empty

/-- The `version`th row the hub wrote. -/
def priceRow (version round_number : ℕ) (coin_pair : String) (block_timestamp : ℕ) :
    PriceSnapshot where
  round_number
  coin_pair
  block_timestamp
  version

/-- Two rounds of one pair on both sides of the floor, and one of another pair. -/
def publishTwoPairs : List Label :=
  [.publish (priceRow 0 7 "DOGE" 50000), .publish (priceRow 1 7 "BTC" 200000),
    .publish (priceRow 2 8 "DOGE" 200000)]

/-- A drain that starts behind a ready frame, up to its last page. -/
def pageThree (answer : Option ℕ) : List Label :=
  [.ready (some 1) none, .openDrain, .askHorizon, .horizon answer, .page, .row true, .row true,
    .row true, .pagesDone]

/-- The first drain, with a horizon: the row of the oldest round is bounded out. -/
def firstDrain : List Label :=
  publishTwoPairs ++ pageThree (some 1000100) ++
    [.judge, .select true, .replay, .flush true, .certify, .refresh, .passEnd false]

end HubDbSync.Prices
