import XChainExplorer.Db.TipProbe
import XChainExplorer.Lib.Runs
import XChainExplorer.Ws.CoinState

/-! # The tip poll of one coin

    `checkCoin` and the seed run `ensureSeeded` starts from the connection path, cut at their
    awaits, over one coin's database. A read is two steps: the database answers it (`db`), and the
    code after the await runs (`run`). The indexer commits or rolls back between any two steps. A
    row's fan-out (lifecycle, entity and attestation emissions) is an await that may throw, and
    any poll that waits may `fail`. -/

namespace ChangeDetector
open Tables TipProbe

/-- Rows a poll fetches at most; never 0, since the constructor reads `options.fetchLimit || 100`. -/
structure Config where
  fetchLimit : ℕ
  fetchLimit_pos : 0 < fetchLimit

/-- Where `readTip` waits. `got` is the answer of the read it waits for, once there is one. -/
inductive TipPc (H : Type*) where
  | tip (got : Option (Option (Tip H)))
  | row (prev cur : Tip H) (got : Option (Option (Option H)))
  | maxBlock (got : Option ℤ)
  | maxAction (currentBlockIndex : ℤ) (got : Option ℤ)
  deriving DecidableEq

/-- Where `checkCoin` waits. `fanout` is the wait inside the row loop: the rows of `batch` before
    `todo` have been emitted. `after` stands for the two pair cursors' passes. -/
inductive PollPc (β H : Type*) where
  | idle
  | tip (pc : TipPc H)
  | seedBlocks (b a : ℤ) (got : Option (List (BlockRow H)))
  | fork (b a : ℤ) (heights : List ℤ) (got : Option (List (BlockRow H)))
  | blocks (b a since : ℤ) (got : Option (List (BlockRow H)))
  | actions (a since : ℤ) (got : Option (List (ActionRow β)))
  | fanout (a since : ℤ) (batch todo : List (ActionRow β))
  | after
  deriving DecidableEq

/-- Where the shared on-demand seed waits. -/
inductive SeedPc (H : Type*) where
  | idle
  | tip (pc : TipPc H)
  | seedBlocks (b a : ℤ) (got : Option (List (BlockRow H)))
  deriving DecidableEq

/-- One coin: its chain, the db layer's last-seen tip, the coin state and the passes in flight.
    `past` lists every chain the tables have held; nothing reads it. -/
structure Det (β H : Type*) where
  chain : Chain β
  past : List (Chain β)
  lastTip : Option (Tip H) := none
  coin : Coin H := {}
  poll : PollPc β H := .idle
  seeding : SeedPc H := .idle

inductive Label (β : Type*) where
  | chain (c : Chain β)
  | tick
  | db
  | run
  | fail
  | seedStart
  | seedDb
  | seedRun
  | seedFail
  deriving DecidableEq

/-- The next `n` reads of the poll, each answered and followed by the code after it. -/
def answers {β : Type*} (n : ℕ) : List (Label β) := (List.replicate n [.db, .run]).flatten

variable {β H : Type*}

/-- A fresh process over a chain. -/
def Det.init (c : Chain β) : Det β H := { chain := c, past := [c] }

section step
variable [DecidableEq H] (L : Ledger β H) (cfg : Config)

/-! ### The tip step -/

/-- The database answers the tip step's read. -/
def TipPc.read (c : Chain β) : TipPc H → Option (TipPc H)
  | .tip none => some (.tip (some (L.tipRow c)))
  | .row prev cur none => some (.row prev cur (some (L.rowAt c prev.index)))
  | .maxBlock none => some (.maxBlock (some (L.getMaxBlockIndex c)))
  | .maxAction b none => some (.maxAction b (some (getMaxActionIndex c)))
  | _ => none

/-- What the tip step does when an answer arrives: ask the next read, end the reorg check with the
    tip it records (none on an empty chain) and its verdict, or hand both marks to its caller. -/
inductive TipRun (H : Type*) where
  | ask (pc : TipPc H)
  | checked (cur : Option (Tip H)) (reorged : Bool)
  | done (currentBlockIndex currentActionIndex : ℤ)

/-- `checkReorgAndInvalidate`, then the two tip marks. -/
def TipPc.run (lastTip : Option (Tip H)) : TipPc H → Option (TipRun H)
  | .tip (some none) => some (.checked none false)
  | .tip (some (some cur)) => some (match blockReplaced lastTip cur with
    | .verdict reorged => .checked (some cur) reorged
    | .readRow prev => .ask (.row prev cur none))
  | .row prev cur (some found) => some (.checked (some cur) (blockReplacedRow prev found))
  | .maxBlock (some b) => some (.ask (.maxAction b none))
  | .maxAction b (some a) => some (.done b a)
  | _ => none

/-- The verdict is kept on the coin until a rewind completes. -/
def Det.checked (d : Det β H) (cur : Option (Tip H)) (reorged : Bool) : Det β H :=
  { d with
    lastTip := cur <|> d.lastTip
    coin := { d.coin with pendingReorg := d.coin.pendingReorg || reorged } }

/-! ### The poll -/

/-- After the block step. -/
def actionStep (k : Coin H) (a : ℤ) : PollPc β H :=
  if k.actionIndex < a then .actions a k.actionIndex none else .after

/-- After the rewind. -/
def blockStep (k : Coin H) (b a : ℤ) : PollPc β H :=
  if k.blockIndex < b then .blocks b a k.blockIndex none else actionStep k a

/-- The rewind and its notice. -/
def Coin.rollback (prev : Coin H) (fork : Option ℤ) (b a : ℤ) : Coin H × List (Event β H) :=
  ({ prev.rewindCursors fork b a with pendingReorg := false } : Coin H).announceRollback
    prev.blockIndex prev.actionIndex fork

/-- The code after `readTip`: seed, search the fork, or go on. -/
def Det.tipDone (d : Det β H) (b a : ℤ) : Det β H × List (Event β H) :=
  if !d.coin.initialized then
    ({ d with coin := d.coin.seedCursors b a, poll := .seedBlocks b a none }, [])
  else if d.coin.pendingReorg then
    match KeyedMap.sortedKeys d.coin.history with
    | [] =>
      let (coin, events) := d.coin.rollback none b a
      ({ d with coin, poll := blockStep coin b a }, events)
    | heights => ({ d with poll := .fork b a heights none }, [])
  else ({ d with poll := blockStep d.coin b a }, [])

/-- The code after the fork search's read. -/
def Det.forkDone (d : Det β H) (b a : ℤ) (heights : List ℤ) (rows : List (BlockRow H)) :
    Det β H × List (Event β H) :=
  let (coin, events) := d.coin.rollback (findForkPoint d.coin.history heights rows) b a
  ({ d with coin, poll := blockStep coin b a }, events)

/-- The coin after the block step. -/
def Coin.blocksSent (prev : Coin H) (b since : ℤ) (rows : List (BlockRow H)) : Coin H :=
  ({ prev with
      history := rememberBlocks prev.history rows
      blockIndex := nextCursor (rows.getLast?.map (·.block_index)) b since } : Coin H).noteShortFetch
    cfg.fetchLimit rows.length (Page.reached (·.block_index) since rows) b

/-- The live mark never stays below the action cursor. -/
def Coin.raiseMark (prev : Coin H) : Coin H :=
  match prev.liveActionMark with
  | some mark => if mark < prev.actionIndex then prev.setLiveMark prev.actionIndex else prev
  | none => prev.setLiveMark prev.actionIndex

/-- The coin after the action step. -/
def Coin.actionsSent (prev : Coin H) (a since : ℤ) (rows : List (ActionRow β)) : Coin H :=
  (({ prev with
      history := rememberActions prev.history rows
      actionIndex := nextCursor (rows.getLast?.map (·.action_index)) a since } : Coin H).noteShortFetch
    cfg.fetchLimit rows.length (Page.reached (·.action_index) since rows) a).raiseMark

/-- The row loop: emit the next row and wait for its fan-out, or end the action step. -/
def Det.sendNext (d : Det β H) (a since : ℤ) (batch : List (ActionRow β)) :
    List (ActionRow β) → Det β H × List (Event β H)
  | [] => ({ d with coin := d.coin.actionsSent cfg a since batch, poll := .after }, [])
  | row :: todo =>
    ({ d with coin := d.coin.setLiveMark row.action_index, poll := .fanout a since batch todo },
     [.action row])

/-- The database answers the poll's read. -/
def Det.readPoll (d : Det β H) : Option (PollPc β H) :=
  match d.poll with
  | .tip t => (t.read L d.chain).map .tip
  | .seedBlocks b a none =>
    some (.seedBlocks b a (some (L.getBlocksSince d.chain (b - HISTORY_DEPTH) (HISTORY_DEPTH * 2))))
  | .fork b a heights none =>
    some (.fork b a heights
      (some (L.getBlocksSince d.chain (heights.head?.getD 0 - 1) (HISTORY_DEPTH * 2))))
  | .blocks b a since none =>
    some (.blocks b a since (some (L.getBlocksSince d.chain since cfg.fetchLimit)))
  | .actions a since none =>
    some (.actions a since (some (L.getActionsSince d.chain since cfg.fetchLimit none)))
  | _ => none

/-- The code after the await the poll stands at. -/
def Det.runPoll (d : Det β H) : Option (Det β H × List (Event β H)) :=
  match d.poll with
  | .tip t => (t.run d.lastTip).map fun
    | .ask pc => ({ d with poll := .tip pc }, [])
    | .checked cur reorged => ({ d.checked cur reorged with poll := .tip (.maxBlock none) }, [])
    | .done b a => d.tipDone b a
  | .seedBlocks b a (some rows) =>
    some ({ d with
      coin := { d.coin with history := seedHistory d.coin.history rows b a }
      poll := .idle }, [])
  | .fork b a heights (some rows) => some (d.forkDone b a heights rows)
  | .blocks b a since (some rows) =>
    let coin := d.coin.blocksSent cfg b since rows
    some ({ d with coin, poll := actionStep coin a }, rows.map .block)
  | .actions a since (some rows) => some (d.sendNext cfg a since rows rows)
  | .fanout a since batch todo => some (d.sendNext cfg a since batch todo)
  | .after => some ({ d with poll := .idle }, [])
  | _ => none

/-! ### The on-demand seed -/

def Det.readSeed (d : Det β H) : Option (SeedPc H) :=
  match d.seeding with
  | .tip t => (t.read L d.chain).map .tip
  | .seedBlocks b a none =>
    some (.seedBlocks b a (some (L.getBlocksSince d.chain (b - HISTORY_DEPTH) (HISTORY_DEPTH * 2))))
  | _ => none

/-- `seedOnDemand`: skipped when the coin was seeded while the tip was being read. -/
def Det.runSeed (d : Det β H) : Option (Det β H) :=
  match d.seeding with
  | .tip t => (t.run d.lastTip).map fun
    | .ask pc => { d with seeding := .tip pc }
    | .checked cur reorged => { d.checked cur reorged with seeding := .tip (.maxBlock none) }
    | .done b a =>
      if d.coin.initialized then { d with seeding := .idle }
      else { d with coin := d.coin.seedCursors b a, seeding := .seedBlocks b a none }
  | .seedBlocks b a (some rows) =>
    some { d with
      coin := { d.coin with history := seedHistory d.coin.history rows b a }
      seeding := .idle }
  | _ => none

/-- One step: the state it leads to and what the detector emits in it. -/
def Det.step (d : Det β H) : Label β → Option (Det β H × List (Event β H))
  | .chain c => some ({ d with chain := c, past := c :: d.past }, [])
  | .tick => match d.poll with
    | .idle => some ({ d with poll := .tip (.tip none) }, [])
    | _ => none
  | .db => (d.readPoll L cfg).map fun poll => ({ d with poll }, [])
  | .run => d.runPoll cfg
  | .fail => match d.poll with
    | .idle => none
    | _ => some ({ d with poll := .idle }, [])
  | .seedStart => match d.coin.initialized, d.seeding with
    | false, .idle => some ({ d with seeding := .tip (.tip none) }, [])
    | _, _ => none
  | .seedDb => (d.readSeed L).map fun seeding => ({ d with seeding }, [])
  | .seedRun => d.runSeed.map fun d => (d, [])
  | .seedFail => match d.seeding with
    | .idle => none
    | _ => some ({ d with seeding := .idle }, [])

/-- The detector with everything it has emitted, oldest first. -/
structure Feed (β H : Type*) where
  det : Det β H
  events : List (Event β H) := []

def Feed.init (c : Chain β) : Feed β H := { det := Det.init c }

def Feed.step (f : Feed β H) (l : Label β) : Option (Feed β H) :=
  (f.det.step L cfg l).map fun (det, events) => { det, events := f.events ++ events }

end step

end ChangeDetector
