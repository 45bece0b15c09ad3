import XChainExplorer.Hub.Sync
import XChainExplorer.Lib.Runs

/-! # One hub mirror at work

    `HubDbSync` cut at its awaits: the socket, the serialized message chain, the bootstrap pass that
    drains the tables one after another, and the hub behind them. The socket delivers in order; a
    frame waits its turn in the chain and its row is applied behind an await; a page is read by the
    hub at one moment and handled by the drain at a later one. A closed connection leaves what it
    had queued, and what it was applying, running beside the next one. -/

namespace HubDbSync

variable {K : Type*}

/-- The rows of a page. -/
def PAGE_LIMIT : ℕ := 10000

/-- The pages of a drain. -/
def MAX_PAGES : ℕ := 1000

/-- The most price events that wait for a drain. -/
def PENDING_PRICE_EVENT_CAP : ℕ := 10000

/-- A frame on the socket. `deleted` stands for the two row events that carry no row, a retraction
    and a match's anchor stamp. -/
inductive Frame (K : Type*) where
  | ready (instanceId : Option ℕ) (caughtUp : Bool) (maxIds : Option (MirrorTable → Option ℕ))
      (heights : Option (Heights K))
  | watermark (ts : ℤ) (heights : Option (Heights K))
  | inserted (T : MirrorTable) (id version : ℕ) (schemaOk : Bool)
  | deleted (T : MirrorTable) (schemaOk : Bool)

/-- A link of the message chain, with the connection it was enqueued on. -/
inductive Task (K : Type*) where
  | frame (f : Frame K) (epoch revision : ℕ)
  | replay (epoch : ℕ)

/-- A link that is waiting for a write of the mirror. -/
inductive Busy where
  | inserted (T : MirrorTable) (id version : ℕ)
  | deleted (T : MirrorTable)
  | replay (epoch : ℕ)
  deriving DecidableEq

/-- A snapshot page. `logged` is how much of the log it was read from; nothing reads it. -/
structure SnapshotPage (K : Type*) where
  rows : List (ℕ × ℕ)
  logged : ℕ
  watermark : Option ℤ
  heights : Option (Heights K)
  schemaOk : Bool

/-- Where a table's drain waits. A catch-up page is fetched once and notes no watermark. -/
inductive DrainPc (K : Type*) where
  | fetch (answer : Option (SnapshotPage K))
  | rows (page : SnapshotPage K) (todo : List (ℕ × ℕ))
  | catchUp (answer : Option (SnapshotPage K))
  | catchUpRows (page : SnapshotPage K) (todo : List (ℕ × ℕ))
  | closing
  | replaying (flushed : Option Bool)
  | ending

/-- A drain under way. -/
structure Drain (K : Type*) where
  table : MirrorTable
  /-- Where the present page was asked from. -/
  since : ℕ
  lastId : ℕ
  fullTable : Bool
  repageSeq : Option ℕ
  connectionEpoch : ℕ
  selectorRevision : ℕ
  pages : ℕ := 0
  lastPageCount : ℕ := 0
  applyErrors : Bool := false
  watermark : Option ℤ := none
  heights : Option (Heights K) := none
  pc : DrainPc K := .fetch none

/-- Where the pass over the tables is. -/
inductive PassPc (K : Type*) where
  | next
  | opening (table : MirrorTable)
  | draining (d : Drain K)

/-- A run of `bootstrapAll`. -/
structure Pass (K : Type*) where
  drainEpoch : ℕ
  selectorRevision : ℕ
  todo : List MirrorTable
  marks : List ℤ := []
  undrained : Bool := false
  pc : PassPc K := .next

/-- The mirror, its connection, its hub, and a record of what happened that no step reads: which
    rows came off the socket, how much of the log the pages covered, and which tables have had a
    live row fail or refused since their last drain opened or completed. -/
structure World (K : Type*) where
  sync : Sync K := {}
  log : List (HubWrite K) := []
  heights : Heights K := fun _ _ => none
  socket : Option (List (Frame K)) := none
  chain : List (Task K) := []
  busy : Option Busy := none
  stale : List (Task K) := []
  oldBusy : List Busy := []
  pass : Option (Pass K) := none
  /-- The newest version of each row that was applied, refused or bounded out. -/
  held : MirrorTable → ℕ → Option ℕ := fun _ _ => none
  live : MirrorTable → ℕ → Option ℕ := fun _ _ => none
  cover : MirrorTable → ℕ → ℕ := fun _ _ => 0
  failedSince : MirrorTable → Bool := fun _ => false
  refusedSince : MirrorTable → Bool := fun _ => false
  unserved : MirrorTable → Bool := fun _ => false

/-- How a write of the mirror ends: the row is applied, refused or bounded out, or it throws. -/
inductive Outcome where
  | handled
  | failed
  deriving DecidableEq

/-- A step of the hub, of the connection, of the live chain or of the pass. -/
inductive Label (K : Type*) where
  -- the hub
  | commit (T : MirrorTable) (id : ℕ) (schemaOk : Bool)
  | retract (T : MirrorTable) (schemaOk : Bool)
  | publish (T : MirrorTable) (chain : K) (h : ℕ)
  | heartbeat (ts : ℤ) (withHeights : Bool)
  -- the connection
  | connect (instanceId : Option ℕ) (caughtUp withMaxIds withHeights : Bool)
  | deliver
  | disconnect (resync : Bool)
  | resync
  | selectorChange
  | moveHub
  -- the message chain
  | next
  | apply (o : Outcome)
  | nextStale (i : ℕ)
  | applyOld (i : ℕ) (o : Outcome)
  -- the bootstrap
  | bootstrapAll
  | table
  | openTable
  | giveUp
  | serve (watermark : Option ℤ) (withHeights schemaOk : Bool)
  | take
  | row (o : Outcome)
  | pageEnd
  | skipCatchUp
  | close
  | certify
  | passEnd (uncaughtUp : Bool)

/-! ### The record -/

/-- The newer of what is held and a version just handled. -/
def newest (held : MirrorTable → ℕ → Option ℕ) (T : MirrorTable) (id version : ℕ) :
    MirrorTable → ℕ → Option ℕ := fun U i =>
  if U = T ∧ i = id then some (((held T id).getD version).max version) else held U i

/-- A live row of the table failed to apply. -/
def World.fail (w : World K) (T : MirrorTable) : World K :=
  { w with
    sync := { w.sync with applyFailureSeen := true }
    failedSince := Function.update w.failedSince T true
    unserved := Function.update w.unserved T true }

/-- A live row of the table was refused for its schema version. -/
def World.refuse (w : World K) (T : MirrorTable) : World K :=
  { w with
    sync := w.sync.refuseSchema
    refusedSince := Function.update w.refusedSince T true
    unserved := Function.update w.unserved T true }

/-- A live row was applied or refused by a receive-side rule. -/
def World.landed (w : World K) (T : MirrorTable) (id version : ℕ) : World K :=
  { w with held := newest w.held T id version, live := newest w.live T id version }

/-! ### The hub -/

/-- A frame goes to the subscription when there is one. -/
def World.broadcast (w : World K) (f : Frame K) : World K :=
  { w with socket := w.socket.map (· ++ [f]) }

/-- `MAX(id)` of each table, as the ready frame advertises it. -/
def maxIds [DecidableEq K] (log : List (HubWrite K)) (T : MirrorTable) : Option ℕ :=
  (tableRows T log).getLast?.map (·.1)

/-! ### The message chain -/

/-- `handleRowEvent` up to its write, which is awaited. -/
def World.handleRowEvent (w : World K) (T : MirrorTable) (schemaOk : Bool) (event : PriceEvent)
    (write : Busy) : World K × Option Busy :=
  if !schemaOk then (w.refuse T, none)
  else if T = .price_snapshots && !w.sync.priceDrained then
    ({ w with sync := w.sync.bufferPriceEvent PENDING_PRICE_EVENT_CAP event }, none)
  else (w, some write)

/-- A link of the chain begins: a frame of another connection is dropped. -/
def World.begin (w : World K) : Task K → World K × Option Busy
  | .replay epoch => (w, some (.replay epoch))
  | .frame f epoch revision =>
    if epoch ≠ w.sync.wsEpoch ∨ revision ≠ w.sync.selectorRevision then (w, none)
    else match f with
      | .ready .. => (w, none)
      | .watermark ts heights =>
        ({ w with sync := (w.sync.noteHubTip ts).handleWatermarkFrame ts heights }, none)
      | .inserted T id version schemaOk =>
        w.handleRowEvent T schemaOk (.inserted id version) (.inserted T id version)
      | .deleted T schemaOk => w.handleRowEvent T schemaOk .deleted (.deleted T)

/-- The drain that waits for a replay is told how it went. -/
def World.replayed (w : World K) (flushed : Bool) : World K :=
  { w with pass := w.pass.map fun p => match p.pc with
    | .draining d => match d.pc with
      | .replaying none => { p with pc := .draining { d with pc := .replaying (some flushed) } }
      | _ => p
    | _ => p }

/-- One event of `flushPendingPriceEvents`, or its end. -/
def World.flushNext (w : World K) (epoch : ℕ) (o : Outcome) : World K × Option Busy :=
  if w.sync.pendingPriceOverflow then
    ({ w with sync := { w.sync with pendingPriceOverflow := false, pendingPriceEvents := [] } }.replayed
      false, none)
  else match w.sync.pendingPriceEvents with
    | [] =>
      if epoch = w.sync.wsEpoch then
        ({ w with sync := { w.sync with priceDrained := true } }.replayed true, none)
      else (w.replayed false, none)
    | event :: events => match o with
      | .failed => ((w.fail .price_snapshots).replayed false, none)
      | .handled =>
        let w := match event with
          | .inserted id version => w.landed .price_snapshots id version
          | .deleted => w
        ({ w with sync := { w.sync with pendingPriceEvents := events } }, some (.replay epoch))

/-- The awaited write of a link ends. -/
def World.finish (w : World K) (b : Busy) (o : Outcome) : World K × Option Busy :=
  match b, o with
  | .replay epoch, o => w.flushNext epoch o
  | .inserted T id version, .handled => (w.landed T id version, none)
  | .inserted T _ _, .failed => (w.fail T, none)
  | .deleted _, .handled => (w, none)
  | .deleted T, .failed => (w.fail T, none)

/-! ### The drains -/

/-- The pass goes on without this table. -/
def Pass.miss (p : Pass K) : Pass K := { p with undrained := true, pc := .next }

/-- The connection a pass or a drain was opened on is still the current one. -/
def Sync.onConnection (s : Sync K) (epoch revision : ℕ) : Bool :=
  epoch == s.wsEpoch && revision == s.selectorRevision

/-- The position of a table moved. -/
def Sync.setPosition (s : Sync K) (table : MirrorTable) (id : ℕ) : Sync K :=
  { s with drainPositions := Function.update s.drainPositions table id }

/-- Where the page loop starts reading. -/
def Sync.resolveDrainCursor (s : Sync K) (table : MirrorTable) : ℕ :=
  let lastId := if table = .cross_chain_matches ∨ (s.repageOwed table).isSome then 0
    else s.drainPositions table
  match s.readyMaxIds.bind (· table) with
  | some ceiling => if 0 < lastId ∧ ceiling < lastId then 0 else lastId
  | none => lastId

/-- A table's drain opens at its cursor, under the mark the table is owed a re-page for. -/
def World.openDrain (w : World K) (p : Pass K) (table : MirrorTable) : World K :=
  let lastId := w.sync.resolveDrainCursor table
  { w with
    sync := w.sync.setPosition table lastId
    failedSince := Function.update w.failedSince table false
    refusedSince := Function.update w.refusedSince table false
    pass := some { p with pc := .draining {
      table, lastId, since := lastId, fullTable := lastId = 0
      repageSeq := w.sync.repageOwed table
      connectionEpoch := w.sync.wsEpoch, selectorRevision := w.sync.selectorRevision } } }

/-- A row of a page was handled: it is held, and the position moves past it. -/
def World.applyPendingRow (w : World K) (table : MirrorTable) (logged id version : ℕ) : World K :=
  { w with
    sync := w.sync.setPosition table ((w.sync.drainPositions table).max id)
    held := newest w.held table id version
    cover := fun U i => if U = table ∧ i = id then (w.cover U i).max logged else w.cover U i }

/-- A page with no hole covers every row from where it was asked to where it ended. -/
def coverPage (cover : MirrorTable → ℕ → ℕ) (table : MirrorTable) (since lastId : ℕ) (short : Bool)
    (logged : ℕ) : MirrorTable → ℕ → ℕ := fun U i =>
  if U = table ∧ since < i ∧ (short ∨ i ≤ lastId) then (cover U i).max logged else cover U i

/-- The newest map of the pass is kept for its certification. -/
def Sync.noteSnapshotHeights (s : Sync K) (heights : Option (Heights K)) : Sync K :=
  { s with pendingBootstrapHeights := heights <|> s.pendingBootstrapHeights }

/-- What follows the last page. -/
def World.catchUpToReadyCeiling (w : World K) (d : Drain K) : DrainPc K :=
  match w.sync.readyMaxIds.bind (· d.table) with
  | some ceiling =>
    if w.sync.drainPositions d.table < ceiling ∧ !d.applyErrors then .catchUp none else .closing
  | none => .closing

/-- `certifyTableDrain`: the table is complete through its last page, on this connection. -/
def Sync.certifyTableDrain (s : Sync K) (pollMode : Bool) (d : Drain K) : Sync K :=
  let s := { s with
    tableDrainEpochs := Function.update s.tableDrainEpochs d.table (some d.connectionEpoch)
    tableDrainRevisions := Function.update s.tableDrainRevisions d.table (some d.selectorRevision)
    tableWatermarks := Function.update s.tableWatermarks d.table
      (if pollMode then 0 else d.watermark.getD 0) }
  match d.heights with
  | some heights => if pollMode then s else s.noteCertifiedTableHeight d.table heights
  | none => s

/-- A complete page from the start settles the mark its drain was opened under. -/
def Sync.settleRepageOwed (s : Sync K) (d : Drain K) : Sync K :=
  if d.fullTable && d.repageSeq.isSome && s.repageOwed d.table == d.repageSeq then
    { s with repageOwed := Function.update s.repageOwed d.table none }
  else s

/-- A table's drain completes. -/
def World.certifyTable (w : World K) (pollMode : Bool) (p : Pass K) (d : Drain K) : World K :=
  { w with
    sync := (w.sync.certifyTableDrain pollMode d).settleRepageOwed d
    unserved := Function.update w.unserved d.table
      (w.unserved d.table && (w.failedSince d.table || w.refusedSince d.table))
    pass := some { p with marks := p.marks ++ [d.watermark.getD 0], pc := .next } }

/-- The pass drained every table, on the connection it began on, and none is owed a re-page. The
    grace of a hub that reports itself not caught up is a clock's, so `uncaughtUp` is given. -/
def World.certifies (w : World K) (p : Pass K) (uncaughtUp : Bool) : Bool :=
  !p.undrained && w.sync.repageOwedTables.isEmpty && !p.marks.isEmpty &&
    w.sync.onConnection p.drainEpoch p.selectorRevision &&
    !(uncaughtUp && w.sync.readyCaughtUp == some false)

section step
variable [DecidableEq K] (pollMode : Bool)

/-- A step of the hub. -/
def World.hubStep (w : World K) : Label K → Option (World K)
  | .commit T id schemaOk =>
    some ({ w with log := w.log ++ [HubWrite.row T id] }.broadcast (.inserted T id w.log.length schemaOk))
  | .retract T schemaOk => some (w.broadcast (.deleted T schemaOk))
  | .publish T chain h => some { w with
      log := w.log ++ [HubWrite.height T chain h]
      heights := HubDbSync.publish w.heights T chain h w.log.length }
  | .heartbeat ts withHeights =>
    some (w.broadcast (.watermark ts (if withHeights then some w.heights else none)))
  | _ => none

/-- A step of the connection. -/
def World.socketStep (w : World K) : Label K → Option (World K)
  | .connect instanceId caughtUp withMaxIds withHeights => match w.socket with
    | some _ => none
    | none => some { w with socket := some [.ready instanceId caughtUp
        (if withMaxIds then some (maxIds w.log) else none)
        (if withHeights then some w.heights else none)] }
  | .deliver => match w.socket with
    | some (f :: frames) =>
      let w := { w with socket := some frames }
      match f with
      | .ready instanceId caughtUp maxIds heights =>
        some { w with sync := w.sync.adoptReadyFrame instanceId caughtUp maxIds heights }
      | f => some { w with chain := w.chain ++ [.frame f w.sync.wsEpoch w.sync.selectorRevision] }
    | _ => none
  | .disconnect resync => match w.socket with
    | none => none
    | some _ => some { w with
        sync := w.sync.closeSocket resync, socket := none
        stale := w.stale ++ w.chain, chain := []
        oldBusy := w.oldBusy ++ w.busy.toList, busy := none }
  | .resync => some { w with sync := w.sync.forgetPositionsForResync }
  | .selectorChange => some { w with sync := { w.sync with
      selectorRevision := w.sync.selectorRevision + 1, bootstrapDrained := false } }
  | .moveHub => some { w with sync := w.sync.resetForMove }
  | _ => none

/-- A step of the message chain, or of one a closed connection left behind. -/
def World.chainStep (w : World K) : Label K → Option (World K)
  | .next => match w.busy, w.chain with
    | none, t :: ts =>
      let (w, busy) := { w with chain := ts }.begin t
      some { w with busy }
    | _, _ => none
  | .apply o => w.busy.map fun b =>
      let (w, busy) := w.finish b o
      { w with busy }
  | .nextStale i => w.stale[i]?.map fun t =>
      let (w, busy) := { w with stale := w.stale.eraseIdx i }.begin t
      { w with oldBusy := w.oldBusy ++ busy.toList }
  | .applyOld i o => w.oldBusy[i]?.map fun b =>
      let (w, busy) := { w with oldBusy := w.oldBusy.eraseIdx i }.finish b o
      { w with oldBusy := w.oldBusy ++ busy.toList }
  | _ => none

/-- The hub answers the page a drain asked for. -/
def World.serve (w : World K) (d : Drain K) (watermark : Option ℤ) (withHeights schemaOk : Bool) :
    Option (Drain K) :=
  let page (since : ℕ) : SnapshotPage K := {
    rows := Page.fetch (·.1) (tableRows d.table w.log) since PAGE_LIMIT
    logged := w.log.length, watermark, schemaOk
    heights := if withHeights then some w.heights else none }
  match d.pc with
  | .fetch none => some { d with since := d.lastId, pc := .fetch (some (page d.lastId)) }
  | .catchUp none =>
    let position := w.sync.drainPositions d.table
    some { d with since := position, pc := .catchUp (some (page position)) }
  | _ => none

/-- The drain handles an answer: a page of another connection, or of a shape this build does not
    mirror, ends it. -/
def World.take (w : World K) (d : Drain K) : Option (Option (Drain K)) :=
  match d.pc with
  | .fetch (some page) => some
      (if w.sync.onConnection d.connectionEpoch d.selectorRevision && page.schemaOk then
        some { d with pages := d.pages + 1, pc := .rows page page.rows }
      else none)
  | .catchUp (some page) => some (some
      (if page.schemaOk then { d with pc := .catchUpRows page page.rows }
      else { d with applyErrors := true, pc := .closing }))
  | _ => none

/-- The next row of a page: a failure ends the page at it. -/
def World.pageRow (w : World K) (p : Pass K) (d : Drain K) (o : Outcome) : Option (World K) :=
  let handle (page : SnapshotPage K) (id version : ℕ) (pc : DrainPc K) : World K :=
    { w.applyPendingRow d.table page.logged id version with
      pass := some { p with pc := .draining { d with lastId := d.lastId.max id, pc } } }
  let stop (pc : DrainPc K) : World K :=
    { w with pass := some { p with pc := .draining { d with applyErrors := true, pc } } }
  match d.pc with
  | .rows page ((id, version) :: todo) => some (match o with
    | .handled => handle page id version (.rows page todo)
    | .failed => stop (.rows page []))
  | .catchUpRows page ((id, version) :: todo) => some (match o with
    | .handled => handle page id version (.catchUpRows page todo)
    | .failed => stop .closing)
  | _ => none

/-- A page is through: its watermark and heights are noted, and the loop goes on or ends. -/
def World.pageEnd (w : World K) (p : Pass K) (d : Drain K) : Option (World K) :=
  match d.pc with
  | .rows page [] =>
    let short := decide (page.rows.length < PAGE_LIMIT)
    let d := { d with
      lastPageCount := page.rows.length
      watermark := page.watermark <|> d.watermark
      heights := page.heights <|> d.heights }
    let lastId := Page.reached (fun row : ℕ × ℕ => row.1) d.since page.rows
    let w := { w with
      sync := w.sync.noteSnapshotHeights page.heights
      cover := if d.applyErrors then w.cover
        else coverPage w.cover d.table d.since lastId short page.logged }
    if w.sync.onConnection d.connectionEpoch d.selectorRevision then
      let pc := if d.applyErrors || short || decide (MAX_PAGES ≤ d.pages) then
          w.catchUpToReadyCeiling d
        else .fetch none
      some { w with pass := some { p with pc := .draining { d with pc } } }
    else some { w with pass := some p.miss }
  | .catchUpRows _ [] => some { w with pass := some { p with pc := .draining { d with pc := .closing } } }
  | _ => none

/-- The passes after the last page: a drain with a hole or an unfinished table ends here, and the
    price drain asks the message chain to replay what it buffered. -/
def World.closeDrain (w : World K) (p : Pass K) (d : Drain K) : Option (World K) :=
  let fullyDrained := d.lastPageCount < PAGE_LIMIT && !d.applyErrors
  match d.pc with
  | .closing =>
    if !w.sync.onConnection d.connectionEpoch d.selectorRevision || !fullyDrained then
      some { w with pass := some p.miss }
    else if d.table = .price_snapshots then some { w with
      chain := w.chain ++ [.replay w.sync.wsEpoch]
      pass := some { p with pc := .draining { d with pc := .replaying none } } }
    else some { w with pass := some { p with pc := .draining { d with pc := .ending } } }
  | .replaying (some flushed) =>
    if flushed then some { w with pass := some { p with pc := .draining { d with pc := .ending } } }
    else some { w with pass := some p.miss }
  | _ => none

/-- A step of the pass in flight. -/
def World.passStep (w : World K) (p : Pass K) : Label K → Option (World K)
  | .table => match p.pc, p.todo with
    | .next, t :: ts =>
      let p := if w.sync.onConnection p.drainEpoch p.selectorRevision then
          { p with todo := ts, pc := .opening t }
        else { p with todo := [], undrained := true }
      some { w with pass := some p }
    | _, _ => none
  | .openTable => match p.pc with
    | .opening t =>
      if w.sync.onConnection p.drainEpoch p.selectorRevision then some (w.openDrain p t)
      else some { w with sync := w.sync.setPosition t (w.sync.resolveDrainCursor t), pass := some p.miss }
    | _ => none
  | .giveUp => match p.pc with
    | .next => none
    | .opening _ => some { w with pass := some p.miss }
    | .draining d => match d.pc with
      | .replaying none => none
      | _ => some { w with pass := some p.miss }
  | .serve watermark withHeights schemaOk => match p.pc with
    | .draining d => (w.serve d watermark withHeights schemaOk).map fun d =>
        { w with pass := some { p with pc := .draining d } }
    | _ => none
  | .take => match p.pc with
    | .draining d => (w.take d).map fun d =>
        { w with pass := some (d.elim p.miss fun d => { p with pc := .draining d }) }
    | _ => none
  | .row o => match p.pc with
    | .draining d => w.pageRow p d o
    | _ => none
  | .pageEnd => match p.pc with
    | .draining d => w.pageEnd p d
    | _ => none
  | .skipCatchUp => match p.pc with
    | .draining d => match d.pc with
      | .catchUp _ => some { w with pass := some { p with pc := .draining { d with pc := .closing } } }
      | _ => none
    | _ => none
  | .close => match p.pc with
    | .draining d => w.closeDrain p d
    | _ => none
  | .certify => match p.pc with
    | .draining d => match d.pc with
      | .ending => some (if w.sync.onConnection d.connectionEpoch d.selectorRevision then
          w.certifyTable pollMode p d
        else { w with pass := some p.miss })
      | _ => none
    | _ => none
  | .passEnd uncaughtUp => match p.pc, p.todo with
    | .next, [] => some { w with
        sync := if w.certifies p uncaughtUp then w.sync.certifyFullDrain pollMode p.marks else w.sync
        pass := none }
    | _, _ => none
  | _ => none

/-- A step, if it can be taken. -/
def World.step (w : World K) (l : Label K) : Option (World K) :=
  match l with
  | .commit .. | .retract .. | .publish .. | .heartbeat .. => w.hubStep l
  | .connect .. | .deliver | .disconnect _ | .resync | .selectorChange | .moveHub => w.socketStep l
  | .next | .apply _ | .nextStale _ | .applyOld .. => w.chainStep l
  | .bootstrapAll => match w.pass with
    | some _ => none
    | none =>
      let p : Pass K := {
        drainEpoch := w.sync.wsEpoch, selectorRevision := w.sync.selectorRevision
        todo := drainOrder }
      some { w with sync := { w.sync with pendingBootstrapHeights := none }, pass := some p }
  | _ => w.pass.bind fun p => w.passStep pollMode p l

end step

end HubDbSync
