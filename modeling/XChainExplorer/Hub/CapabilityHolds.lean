import XChainExplorer.Hub.ApplyLatch
import XChainExplorer.Hub.PriceMirror
import XChainExplorer.Lib.Journal

/-! # Capability rows held for a proof

    A capability row whose checkpoint proof is not there yet stays out of the mirror, in a map from
    its natural key. A retry pass judges the map again; a row the full map turned away waits for a
    re-page. The block loop waits at a barrier for the rows that were out when it asked. Beside it
    run the live rows, the drains of every table and the marks of the tables owed a re-page, each cut
    at its awaits. A row is known here by its natural key, and what the judge says of it is given. -/

namespace HubDbSync.CapabilityProof

open Prices (RepageFloor)

variable {K κ : Type*}

/-- The most rows that are held by name. -/
def CAPABILITY_SNAPSHOT_KEY_CAP : ℕ := 500000

/-- What the judge says. A judge that throws, or that is not wired, leaves the row unchecked. -/
inductive Verdict where
  | held
  | refused
  | accepted
  | unchecked
  deriving DecidableEq

/-- Who applies a row: the message chain, the flush of a drain, or the retry pass. -/
inductive Caller where
  | live
  | flush (d : ℕ)
  | retry
  deriving DecidableEq

/-- Where `applyRow` waits. `letGo` says that the judgement of this row took a held one of its key
    out of the map. -/
inductive Phase where
  | entering
  | judging (retainHold : Bool)
  | writing (letGo : Bool)
  deriving DecidableEq

/-- A row on its way to the table: who brought it, its key and how far it is. -/
structure Task (κ : Type*) where
  caller : Caller
  key : κ
  phase : Phase
  deriving DecidableEq

/-- A parked barrier question: the keys held when it was asked, whether the map had overflowed, and
    how long the log was, which nothing reads. -/
structure Waiter (κ : Type*) where
  holds : List κ
  overflow : Bool
  asked : ℕ
  deriving DecidableEq

/-- Where a drain's first page starts. -/
inductive Start where
  | zero
  | floor
  | stored
  deriving DecidableEq

/-- An opened drain. `busy` is a row of it under way. -/
structure TableDrain where
  table : MirrorTable
  connectionEpoch : ℕ
  selectorRevision : ℕ
  lastId : ℕ
  fullTable : Bool
  floorStart : Bool := false
  repageSeq : Option ℕ
  priceFloor : Option ℕ := none
  applyErrors : Bool := false
  busy : Bool := false
  deriving DecidableEq

/-- A call of `bootstrapTable`. The connection is the one it was called on: the drain reads it again
    at its opening, and what differs then ends it. -/
inductive Drain where
  | opening (table : MirrorTable) (epoch revision : ℕ)
  | resolved (table : MirrorTable) (epoch revision lastId : ℕ)
  | accounted (d : TableDrain)
  | paging (d : TableDrain)
  deriving DecidableEq

/-- `retryHeldCapabilityRows`: the held rows still to be judged and the one under way, then the
    re-page of an overflow. -/
inductive RetryPass (κ : Type*) where
  | idle
  | running (todo : List κ) (task : Option ℕ)
  | repaging (d : ℕ)
  | repaged (drained : Bool)
  | ending
  deriving DecidableEq

/-- `bootstrapAll`: the tables still to be drained and the drain under way. -/
structure Pass where
  drainEpoch : ℕ
  selectorRevision : ℕ
  todo : List MirrorTable
  drain : Option ℕ := none
  undrained : Bool := false
  deriving DecidableEq

/-- What a log keeps of a run. No step reads it. -/
inductive Event (κ : Type*) where
  /-- A table is owed a re-page, but for a mark that a hold took back for the row the map kept. -/
  | marked (table : MirrorTable) (keptFor : Option κ)
  | held (k : κ)
  | turnedAway (k : κ)
  /-- A verdict other than held. -/
  | judged (k : κ) (refused : Bool)
  /-- One of the fences before the judge refuses the row. -/
  | fenced (k : κ)
  | landed (k : κ)
  | opened (d : ℕ) (table : MirrorTable)
  | started (d : ℕ) (start : Start)
  | served (d : ℕ) (k : κ)
  | completed (d : ℕ)
  | settled (d : ℕ) (table : MirrorTable)
  | certified
  /-- The barrier opens to a question asked when the log was `asked` long. `observed` says that the
      question saw an overflow, `repaging` that the re-page of one is under way. -/
  | answered (asked : ℕ) (observed repaging : Bool)
  deriving DecidableEq

/-- The mirror's state as far as the proof of the capability rows goes, with the rows and the drains
    under way. -/
structure State (K κ : Type*) where
  sync : Sync K := {}
  priceRepageFloor : Option RepageFloor := none
  holds : List κ := []
  overflow : Bool := false
  retryApproved : List κ := []
  waiters : List (Waiter κ) := []
  retry : RetryPass κ := .idle
  tasks : ℕ → Option (Task κ) := fun _ => none
  pass : Option Pass := none
  drains : ℕ → Option Drain := fun _ => none
  /-- The calls of `bootstrapTable` so far; the next one takes this number. -/
  drainCount : ℕ := 0
  log : List (Event κ) := []

/-- The log with more events. -/
def State.note (s : State K κ) (events : List (Event κ)) : State K κ := { s with log := s.log ++ events }

/-- `_bootstrapping`. -/
def State.bootstrapping (s : State K κ) : Bool := s.pass.isSome

/-- A retry drain is under way. -/
def State.repaging (s : State K κ) : Bool :=
  match s.retry with
  | .repaging _ => true
  | _ => false

section rows
variable [DecidableEq κ] (cap : ℕ)

/-! ### The barrier -/

/-- Every row that was held is settled. -/
def State.capabilityProofSatisfied (s : State K κ) : Bool := s.holds.isEmpty && !s.overflow

/-- The rows that were held when the waiter asked are settled. -/
def State.capabilityProofWaiterSatisfied (s : State K κ) (w : Waiter κ) : Bool :=
  w.holds.all (· ∉ s.holds) && (!w.overflow || !s.overflow)

/-- The event of its answer. -/
def Waiter.answer (repaging : Bool) (w : Waiter κ) : Event κ := .answered w.asked w.overflow repaging

/-- The waiters whose rows are settled are answered. -/
def State.releaseCapabilityProofWaiters (s : State K κ) : State K κ :=
  { s with waiters := s.waiters.filter fun w => !s.capabilityProofWaiterSatisfied w }.note
    ((s.waiters.filter s.capabilityProofWaiterSatisfied).map (Waiter.answer s.repaging))

/-- A satisfied barrier answers where it is asked. -/
def State.answerNow (s : State K κ) : State K κ :=
  s.note [.answered s.log.length s.overflow s.repaging]

/-- A question is answered at once or waits. -/
def State.waitForCapabilityProof (s : State K κ) : State K κ :=
  if s.capabilityProofSatisfied then s.answerNow
  else { s with waiters := s.waiters ++ [⟨s.holds, s.overflow, s.log.length⟩] }

/-- A waiter's timer: the ones that may go are let go, and this one is taken out. -/
def State.timeout (s : State K κ) (j : ℕ) : State K κ :=
  let rest := (s.waiters.eraseIdx j).filter fun w => !s.capabilityProofWaiterSatisfied w
  { s.releaseCapabilityProofWaiters with waiters := rest }

/-! ### The hold map -/

/-- A row that is held no more. -/
def State.dropHold (s : State K κ) (k : κ) : State K κ := { s with holds := s.holds.filter (· ≠ k) }

/-- The map's entry, where it has one or room for one. -/
def State.heldRows (s : State K κ) (k : κ) : List κ :=
  if k ∈ s.holds then s.holds
  else if s.holds.length < cap then s.holds ++ [k]
  else s.holds

/-- A refused row is held, and its table owes a page from its start. Past the cap the row is not
    named. -/
def State.holdCapabilitySnapshot (s : State K κ) (k : κ) : State K κ :=
  { s with
    holds := s.heldRows cap k
    overflow := s.overflow || decide (k ∉ s.heldRows cap k)
    sync := s.sync.markRepageOwed [.capability_snapshots] }

/-- The mark of a table set or cleared. -/
def State.setOwed (s : State K κ) (table : MirrorTable) (mark : Option ℕ) : State K κ :=
  { s with sync := { s.sync with repageOwed := Function.update s.sync.repageOwed table mark } }

/-- The hold branch of `refuseUnprovenCapabilitySnapshot`. The map is the retry's source of a row it
    kept, so the mark that came with the hold is taken back: the table is owed what it was before. -/
def State.hold (s : State K κ) (k : κ) (retainHold : Bool) : State K κ :=
  let before := s.sync.repageOwed .capability_snapshots
  let kept := k ∈ s.heldRows cap k
  let owed := s.holdCapabilitySnapshot cap k
  if (s.bootstrapping || retainHold) && kept then
    (owed.setOwed .capability_snapshots before).note [.marked .capability_snapshots (some k), .held k]
  else owed.note [.marked .capability_snapshots none, if kept then .held k else .turnedAway k]

/-! ### Applying a row -/

/-- A row that starts on its way. -/
def State.startTask (s : State K κ) (i : ℕ) (t : Task κ) : State K κ :=
  { s with tasks := Function.update s.tasks i (some t) }

/-- A flush goes on behind its row; an error stops its page. -/
def Drain.rowDone (thrown : Bool) : Drain → Drain
  | .paging d => .paging { d with busy := false, applyErrors := d.applyErrors || thrown }
  | other => other

/-- The caller goes on behind a row that is through. -/
def State.finish (s : State K κ) (i : ℕ) (t : Task κ) (thrown : Bool) : State K κ :=
  let s := { s with tasks := Function.update s.tasks i none }
  match t.caller with
  | .live => { s with sync := { s.sync with applyFailureSeen := s.sync.applyFailureSeen || thrown } }
  | .flush d => { s with
      drains := Function.update s.drains d ((s.drains d).map (Drain.rowDone thrown)) }
  | .retry => { s with retry := if thrown then .ending else match s.retry with
      | .running todo _ => .running todo none
      | other => other }

/-- `applyRow` returns to its caller. The retry pass lets the row's hold go with it, and takes back
    its approval in any case. -/
def State.endApply (s : State K κ) (i : ℕ) (t : Task κ) (thrown : Bool) : State K κ :=
  match t.caller with
  | .retry =>
    let s := if thrown then s else s.dropHold t.key
    { s with retryApproved := s.retryApproved.filter (· ≠ t.key) }.finish i t thrown
  | _ => s.finish i t thrown

/-- The chain and the network fence, then the judge. A row the retry pass approved is not judged
    again. -/
def State.fence (s : State K κ) (i : ℕ) (t : Task κ) (refused : Bool) : State K κ :=
  if refused then (s.note [.fenced t.key]).endApply i t false
  else if t.key ∈ s.retryApproved then
    { s with retryApproved := s.retryApproved.filter (· ≠ t.key) }.startTask i
      { t with phase := .writing false }
  else s.startTask i { t with phase := .judging false }

/-- The judge's answer to a row outside the retry pass's own look at it. -/
def State.judgedRow (s : State K κ) (i : ℕ) (t : Task κ) : Verdict → State K κ
  | .held => (s.hold cap t.key false).endApply i t false
  | .refused =>
    (((s.note [.judged t.key true]).dropHold t.key).releaseCapabilityProofWaiters).endApply i t false
  | .accepted =>
    (((s.note [.judged t.key false]).dropHold t.key).releaseCapabilityProofWaiters).startTask i
      { t with phase := .writing (t.key ∈ s.holds) }
  | .unchecked => (s.note [.judged t.key false]).startTask i { t with phase := .writing false }

/-- The judge's answer to the retry pass: a row that is not held is approved and applied. -/
def State.judgedAgain (s : State K κ) (i : ℕ) (t : Task κ) : Verdict → State K κ
  | .held => (s.hold cap t.key true).finish i t false
  | .refused => ((s.note [.judged t.key true]).dropHold t.key).finish i t false
  | _ =>
    { s.note [.judged t.key false] with retryApproved := t.key :: s.retryApproved }.startTask i
      { t with phase := .entering }

/-- The end of a row's write. -/
def State.written (s : State K κ) (i : ℕ) (t : Task κ) (ok : Bool) : State K κ :=
  if ok then (s.note [.landed t.key]).endApply i t false else s.endApply i t true

end rows

/-! ### The marks -/

/-- Tables are owed a re-page, for a reason other than a hold. -/
def State.markRepageOwed (s : State K κ) (tables : List MirrorTable) : State K κ :=
  { s with sync := s.sync.markRepageOwed tables }.note (tables.map (.marked · none))

/-- What reaches the marks, the positions or the connection from the socket or from an operator. -/
inductive SocketLabel (K : Type*) where
  | ready (instanceId : Option ℕ) (caughtUp : Bool) (maxIds : Option (MirrorTable → Option ℕ))
      (heights : Option (Heights K))
  | close (resync : Bool)
  | resync
  | moveHub
  | selectorChange
  | refuseSchema

/-- What the socket does to the state. -/
def State.socketStep (s : State K κ) : SocketLabel K → State K κ
  | .ready instanceId caughtUp maxIds heights =>
    { s with
      sync := s.sync.adoptReadyFrame instanceId caughtUp maxIds heights
      priceRepageFloor :=
        if instanceId.isNone || instanceId != s.sync.lastHubInstanceId then none
        else s.priceRepageFloor }.note (REPAGE_PER_CONNECTION_TABLES.map (.marked · none))
  | .close resync => { s with sync := s.sync.closeSocket resync }
  | .resync =>
    { s with sync := s.sync.forgetPositionsForResync, priceRepageFloor := none }.note
      (MIRRORED_TABLES.map (.marked · none))
  | .moveHub => { s with sync := s.sync.resetForMove }
  | .selectorChange => { s with
      sync := { s.sync with selectorRevision := s.sync.selectorRevision + 1, bootstrapDrained := false } }
  | .refuseSchema =>
    { s with sync := s.sync.refuseSchema, priceRepageFloor := none }.note
      (MIRRORED_TABLES.map (.marked · none))

/-! ### The drains -/

/-- `bootstrapTable` is called. -/
def State.bootstrapTable (s : State K κ) (table : MirrorTable) : State K κ :=
  { s with
    drains := Function.update s.drains s.drainCount
      (some (.opening table s.sync.wsEpoch s.sync.selectorRevision))
    drainCount := s.drainCount + 1 }

/-- A drain at another of its points. -/
def State.setDrain (s : State K κ) (d : ℕ) (dr : Drain) : State K κ :=
  { s with drains := Function.update s.drains d (some dr) }

/-- A drain takes its cursor. -/
def State.resolve (s : State K κ) (d : ℕ) (table : MirrorTable) (epoch revision : ℕ) : State K κ :=
  let lastId := s.sync.resolveDrainCursor table
  { s with sync := s.sync.setPosition table lastId }.setDrain d
    (.resolved table epoch revision lastId)

/-- `newDrainAccounting`: the mark the drain is opened under. -/
def State.account (s : State K κ) (d : ℕ) (table : MirrorTable) (epoch revision lastId : ℕ) :
    State K κ :=
  (s.setDrain d (.accounted {
    table, connectionEpoch := epoch, selectorRevision := revision, lastId, fullTable := lastId = 0
    repageSeq := s.sync.repageOwed table })).note [.opened d table]

/-- The start the last complete drain recorded, where this one may take it. `floor` is the drain's
    own floor, where it has a bound. -/
def State.repageStart (s : State K κ) (d : TableDrain) (floor : Option ℕ) : Option RepageFloor :=
  s.priceRepageFloor.filter fun mark =>
    d.table = .price_snapshots && d.lastId = 0 && d.repageSeq.isSome &&
      floor.any (mark.floorTs ≤ ·) &&
      (s.sync.readyMaxIds.bind (· d.table)).all (mark.wireId - 1 ≤ ·)

/-- `choosePriceRepageStart`. -/
def State.choosePriceRepageStart (s : State K κ) (d : TableDrain) (floor : Option ℕ) : TableDrain :=
  match s.repageStart d floor with
  | some mark => { d with
      lastId := mark.wireId - 1, fullTable := false, floorStart := true, priceFloor := floor }
  | none => { d with floorStart := false, priceFloor := floor }

/-- Where a drain began. -/
def TableDrain.start (d : TableDrain) : Start :=
  if d.floorStart then .floor else if d.fullTable then .zero else .stored

/-- A caller of `bootstrapTable` goes on behind it. A pass whose connection is gone stops. -/
def State.endDrain (s : State K κ) (d : ℕ) (drained : Bool) : State K κ :=
  let s := { s with drains := Function.update s.drains d none }
  let s := match s.retry with
    | .repaging e => if e = d then { s with retry := .repaged drained } else s
    | _ => s
  match s.pass with
  | some p =>
    if p.drain = some d then { s with pass := some { p with
      drain := none
      undrained := p.undrained || !drained
      todo := if drained || s.sync.onConnection p.drainEpoch p.selectorRevision then p.todo else [] } }
    else s
  | none => s

/-- A drain that ends without having read its table. -/
def State.giveUp (s : State K κ) (d : ℕ) : State K κ := s.endDrain d false

/-- A recorded start is the position from here on, also where the drain's connection is gone. -/
def State.placeRepageStart (s : State K κ) (started : TableDrain) : State K κ :=
  if started.floorStart then { s with sync := s.sync.setPosition started.table started.lastId } else s

/-- The first page is asked for, on the connection the drain was called on. -/
def State.startPaging (s : State K κ) (d : ℕ) (dr : TableDrain) (floor : Option ℕ) : State K κ :=
  let started := s.choosePriceRepageStart dr floor
  let s := s.placeRepageStart started
  if s.sync.onConnection dr.connectionEpoch dr.selectorRevision then
    (s.setDrain d (.paging started)).note [.started d started.start]
  else s.giveUp d

/-- The position follows the drain past a row that was handled. -/
def State.advance (s : State K κ) (d : ℕ) (dr : TableDrain) (id : ℕ) : State K κ :=
  if dr.lastId < id then
    { s with sync := s.sync.setPosition dr.table id }.setDrain d (.paging { dr with lastId := id })
  else s

/-- `settleRepageOwed`: only a drain opened under the present mark settles it. -/
def State.settles (s : State K κ) (d : TableDrain) : Bool :=
  (d.fullTable || d.floorStart) && d.repageSeq.isSome && s.sync.repageOwed d.table == d.repageSeq

/-- A drain that read the table from its start settles the mark it was begun under. -/
def State.settleRepageOwed (s : State K κ) (n : ℕ) (d : TableDrain) : State K κ :=
  if s.settles d then (s.setOwed d.table none).note [.settled n d.table] else s

/-- The floor that a bounded price drain leaves behind. -/
def State.notePriceRepageFloor (s : State K κ) (d : TableDrain) (minAppliedWireId : Option ℕ) :
    State K κ :=
  if d.table = .price_snapshots && (d.fullTable || d.floorStart) then
    { s with priceRepageFloor := match d.priceFloor, minAppliedWireId with
        | some floorTs, some wireId => some ⟨wireId, floorTs⟩
        | _, _ => none }
  else s

/-- A drain that read to the end of its table without an error. -/
def State.complete (s : State K κ) (n : ℕ) (d : TableDrain) (minAppliedWireId : Option ℕ) : State K κ :=
  (((s.note [.completed n]).settleRepageOwed n d).notePriceRepageFloor d minAppliedWireId).endDrain n true

/-! ### The steps -/

/-- A step of a row, of the pass, of a drain, of the retry or of a waiter. -/
inductive Label (K κ : Type*) where
  | socket (l : SocketLabel K)
  -- a row
  | live (i : ℕ) (k : κ)
  | fence (i : ℕ) (refused : Bool)
  | judged (i : ℕ) (v : Verdict)
  | written (i : ℕ) (ok : Bool)
  -- the retry pass
  | retryBegin
  | retryTake (i : ℕ) (k : κ)
  | retryOverflow
  | overflowChecked
  | retryEnd
  -- the drains
  | passBegin
  | passTable
  | passEnd (uncaughtUp : Bool)
  | resolve (d : ℕ)
  | account (d : ℕ)
  | start (d : ℕ) (floor : Option ℕ)
  | serve (i d : ℕ) (k : κ)
  | advance (d id : ℕ)
  | complete (d : ℕ) (minAppliedWireId : Option ℕ)
  | giveUp (d : ℕ) (boundRefused : Bool)
  -- the barrier
  | query
  | wait
  | timeout (j : ℕ)

section step
variable [DecidableEq κ] (cap : ℕ)

/-- `certifyFullDrain`'s tests at the end of a pass. The grace of a hub that reports itself not caught
    up is a clock's, so `uncaughtUp` is given. -/
def State.certifies (s : State K κ) (p : Pass) (uncaughtUp : Bool) : Bool :=
  !p.undrained && s.sync.repageOwedTables.isEmpty &&
    s.sync.onConnection p.drainEpoch p.selectorRevision &&
    !(uncaughtUp && s.sync.readyCaughtUp == some false)

/-- The steps of a row. -/
def State.rowStep (s : State K κ) : Label K κ → Option (State K κ)
  | .live i k => match s.tasks i with
    | none => some (s.startTask i ⟨.live, k, .entering⟩)
    | some _ => none
  | .fence i refused => match s.tasks i with
    | some ⟨caller, k, .entering⟩ => some (s.fence i ⟨caller, k, .entering⟩ refused)
    | _ => none
  | .judged i v => match s.tasks i with
    | some ⟨caller, k, .judging false⟩ => some (s.judgedRow cap i ⟨caller, k, .judging false⟩ v)
    | some ⟨caller, k, .judging true⟩ => some (s.judgedAgain cap i ⟨caller, k, .judging true⟩ v)
    | _ => none
  | .written i ok => match s.tasks i with
    | some ⟨caller, k, .writing letGo⟩ => some (s.written i ⟨caller, k, .writing letGo⟩ ok)
    | _ => none
  | _ => none

/-- The rows of a pass are judged in an order that depends on their proofs; a row no probe reached
    waits for the next pass. -/
def State.retryStep (s : State K κ) : Label K κ → Option (State K κ)
  | .retryBegin => match s.retry with
    | .idle => some { s with retry := .running s.holds none }
    | _ => none
  | .retryTake i k => match s.retry, s.tasks i with
    | .running todo none, none =>
      if k ∉ todo then none
      else if k ∈ s.holds then
        some ({ s with retry := .running (todo.filter (· ≠ k)) (some i) }.startTask i
          ⟨.retry, k, .judging true⟩)
      else some { s with retry := .running (todo.filter (· ≠ k)) none }
    | _, _ => none
  | .retryOverflow => match s.retry with
    | .running _ none =>
      if !s.overflow || !s.holds.isEmpty || s.bootstrapping then some { s with retry := .ending }
      else some ({ s with overflow := false, retry := .repaging s.drainCount }.bootstrapTable
        .capability_snapshots)
    | _ => none
  | .overflowChecked => match s.retry with
    | .repaged drained => some { s with
        overflow := s.overflow || (!drained && s.holds.isEmpty)
        retry := .ending }
    | _ => none
  | .retryEnd => match s.retry with
    | .ending => some { s with retry := .idle }.releaseCapabilityProofWaiters
    | _ => none
  | _ => none

/-- The steps of the pass over the tables. -/
def State.passStep (s : State K κ) : Label K κ → Option (State K κ)
  | .passBegin => match s.pass with
    | none => some { s with pass := some {
        drainEpoch := s.sync.wsEpoch, selectorRevision := s.sync.selectorRevision, todo := drainOrder } }
    | some _ => none
  | .passTable => match s.pass with
    | some ⟨epoch, revision, T :: todo, none, undrained⟩ =>
      if s.sync.onConnection epoch revision then
        some ({ s with pass := some ⟨epoch, revision, todo, some s.drainCount, undrained⟩ }.bootstrapTable
          T)
      else some { s with pass := some ⟨epoch, revision, [], none, true⟩ }
    | _ => none
  | .passEnd uncaughtUp => match s.pass with
    | some ⟨epoch, revision, [], none, undrained⟩ =>
      if s.certifies ⟨epoch, revision, [], none, undrained⟩ uncaughtUp then
        some ({ s with pass := none, sync := { s.sync with
            bootstrapDrained := true, schemaMismatchSeen := false, applyFailureSeen := false } }.note
          [.certified])
      else some { s with pass := none }
    | _ => none
  | _ => none

/-- The steps of a drain. -/
def State.drainStep (s : State K κ) : Label K κ → Option (State K κ)
  | .resolve d => match s.drains d with
    | some (.opening T epoch revision) => some (s.resolve d T epoch revision)
    | _ => none
  | .account d => match s.drains d with
    | some (.resolved T epoch revision lastId) => some (s.account d T epoch revision lastId)
    | _ => none
  | .start d floor => match s.drains d with
    | some (.accounted dr) => some (s.startPaging d dr floor)
    | _ => none
  | .serve i d k => match s.drains d, s.tasks i with
    | some (.paging dr), none =>
      if dr.table = .capability_snapshots && !dr.busy && !dr.applyErrors then
        some (((s.setDrain d (.paging { dr with busy := true })).startTask i
          ⟨.flush d, k, .entering⟩).note [.served d k])
      else none
    | _, _ => none
  | .advance d id => match s.drains d with
    | some (.paging dr) => if dr.busy || dr.applyErrors then none else some (s.advance d dr id)
    | _ => none
  | .complete d minAppliedWireId => match s.drains d with
    | some (.paging dr) =>
      if !dr.busy && !dr.applyErrors && s.sync.onConnection dr.connectionEpoch dr.selectorRevision then
        some (s.complete d dr minAppliedWireId)
      else none
    | _ => none
  -- the table is not ready, the connection is lost, a page or a row failed, a pass after the last page
  -- refused the drain
  | .giveUp d boundRefused => match s.drains d with
    | some dr =>
      if (match dr with
        | .paging dr => dr.busy
        | _ => false) then none
      else some ({ s with
        priceRepageFloor := if boundRefused then none else s.priceRepageFloor }.giveUp d)
    | none => none
  | _ => none

/-- The steps of the proof's readers. -/
def State.barrierStep (s : State K κ) : Label K κ → Option (State K κ)
  | .query => some (if s.capabilityProofSatisfied then s.answerNow else s)
  | .wait => some s.waitForCapabilityProof
  | .timeout j => if j < s.waiters.length then some (s.timeout j) else none
  | _ => none

/-- An enabled client. A disabled one runs none of this and its barrier stands open. -/
def State.step (s : State K κ) (l : Label K κ) : Option (State K κ) :=
  match l with
  | .socket l => some (s.socketStep l)
  | .live .. | .fence .. | .judged .. | .written .. => s.rowStep cap l
  | .retryBegin | .retryTake .. | .retryOverflow | .overflowChecked | .retryEnd => s.retryStep l
  | .passBegin | .passTable | .passEnd _ => s.passStep l
  | .resolve _ | .account _ | .start .. | .serve .. | .advance .. | .complete .. | .giveUp .. =>
    s.drainStep l
  | .query | .wait | .timeout _ => s.barrierStep l

end step

end HubDbSync.CapabilityProof
