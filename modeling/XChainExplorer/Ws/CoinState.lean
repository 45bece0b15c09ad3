import Mathlib.Data.List.MinMax
import XChainExplorer.Chain.Tables
import XChainExplorer.Lib.KeyedMap

/-! # One coin's cursor state

    What the change detector remembers for a coin between polls, and every function of the tip pass
    that reads or writes it without waiting: the seed, the block and action history, the fork
    search, the rewind, the rollback notice with its two bounded logs, and the cursor rules. The
    two `(block, action_index)` pair cursors share none of this state and are not here. -/

namespace ChangeDetector
open Tables

/-- What is remembered of one announced height. -/
structure Entry (H : Type*) where
  hash : Option H
  firstAction : Option ℤ
  deriving DecidableEq, Repr

/-- What is remembered of the last blocks, by height. -/
abbrev History (H : Type*) := AList fun _ : ℤ => Entry H

/-- A logged rollback, as `reorgCovering` reads it. -/
structure ReorgEntry where
  forkBlock : ℤ
  firstInvalid : ℤ
  previousTip : ℤ
  deriving DecidableEq, Repr

/-- A numbered rollback, as `rollbackSince` reads it. -/
structure Rollback where
  seq : ℕ
  forkBlock : ℤ
  firstInvalid : ℤ
  deriving DecidableEq, Repr

/-- One coin's state. `trackCoin` gives the defaults. -/
structure Coin (H : Type*) where
  initialized : Bool := false
  blockIndex : ℤ := 0
  actionIndex : ℤ := 0
  liveActionMark : Option ℤ := none
  seedActionMark : Option ℤ := none
  pendingReorg : Bool := false
  history : History H := ∅
  reorgLog : List ReorgEntry := []
  rollbackSeq : ℕ := 0
  rollbacks : List Rollback := []

/-- What the detector emits for a coin. -/
inductive Event (β H : Type*) where
  | block (row : BlockRow H)
  | action (row : ActionRow β)
  | reorg (forkBlock firstInvalid : ℤ)
  deriving DecidableEq

variable {β H : Type*}

/-! ### The marks -/

/-- The mark raised to a row. -/
def Coin.setLiveMark (prev : Coin H) (index : ℤ) : Coin H := { prev with liveActionMark := some index }

/-- The live-start mark, null while the coin is unseeded. -/
def Coin.liveMark (prev : Coin H) : Option ℤ := if prev.initialized then prev.liveActionMark else none

/-- The mark the coin was seeded at, null while it is unseeded. -/
def Coin.seedMark (prev : Coin H) : Option ℤ := if prev.initialized then prev.seedActionMark else none

/-- The first poll starts at the tip. -/
def Coin.seedCursors (prev : Coin H) (currentBlockIndex currentActionIndex : ℤ) : Coin H :=
  { prev with
    blockIndex := currentBlockIndex, actionIndex := currentActionIndex
    liveActionMark := some currentActionIndex, seedActionMark := some currentActionIndex
    pendingReorg := false, initialized := true }

/-! ### The history -/

/-- Heights of emitted-block identity kept per coin. -/
def HISTORY_DEPTH : ℕ := 256

/-- The heights that are remembered. -/
def trimHistory (history : History H) (tip : ℤ) : History H :=
  KeyedMap.keep (fun height => !decide (height ≤ tip - HISTORY_DEPTH)) history

/-- Remember one announced block: its hash, and the first action already remembered there. -/
def rememberBlock (history : History H) (block : BlockRow H) : History H :=
  history.insert block.block_index
    { hash := block.block_hash
      firstAction := (history.lookup block.block_index).bind (·.firstAction) }

/-- The history with the blocks of a batch. -/
def rememberBlocks (history : History H) (blocks : List (BlockRow H)) : History H :=
  match blocks.getLast? with
  | none => history
  | some last => trimHistory (blocks.foldl rememberBlock history) last.block_index

/-- Remember one announced action: the lowest index announced in its block. -/
def rememberAction (history : History H) (action : ActionRow β) : History H :=
  let entry := (history.lookup action.block_index).getD { hash := none, firstAction := none }
  history.insert action.block_index
    { entry with
      firstAction := match entry.firstAction with
        | none => some action.action_index
        | some first => if action.action_index < first then some action.action_index else some first }

/-- The history with the actions of a batch. -/
def rememberActions (history : History H) (actions : List (ActionRow β)) : History H :=
  actions.foldl rememberAction history

/-- The walk backward from the tip that locates each seeded block's first action. -/
def seedFirstActions (history : History H) : ℤ → List (BlockRow H) → History H
  | _, [] => history
  | nextAction, row :: rows =>
    let history := match history.lookup row.block_index with
      | some entry =>
        if 0 < row.action_count then
          history.insert row.block_index
            { entry with firstAction := some (nextAction - row.action_count) }
        else history
      | none => history
    seedFirstActions history (nextAction - row.action_count) rows

/-- What the seed remembers of the blocks already at the tip: their hashes, and their first
    actions when the rows end at the tip that was read before them. -/
def seedHistory (history : History H) (rows : List (BlockRow H))
    (currentBlockIndex currentActionIndex : ℤ) : History H :=
  let history := rememberBlocks history rows
  if rows.getLast?.map (·.block_index) = some currentBlockIndex then
    seedFirstActions history (currentActionIndex + 1) rows.reverse
  else history

/-! ### The fork search -/

/-- Is this remembered height gone from `rows`, or there with another hash? -/
def heightReplaced [DecidableEq H] (history : History H) (rows : List (BlockRow H)) (height : ℤ) :
    Bool :=
  match rows.find? fun row => row.block_index = height with
  | none => true
  | some now => match (history.lookup height).bind (·.hash) with
    | none => false
    | some known => decide (now.block_hash ≠ some known)

/-- The lowest of the remembered `heights` whose block no longer matches what was announced. -/
def findForkPoint [DecidableEq H] (history : History H) (heights : List ℤ)
    (rows : List (BlockRow H)) : Option ℤ :=
  heights.find? (heightReplaced history rows)

/-! ### The rewind -/

/-- The lowest first action remembered at or above the fork. -/
def lowestFirstAction (history : History H) (fork : ℤ) : Option ℤ :=
  ((KeyedMap.keep (fun height => decide (fork ≤ height)) history).entries.filterMap
    fun e => e.2.firstAction).min?

/-- The rewind below a fork: the cursors drop and the replaced heights are forgotten. -/
def Coin.dropFork (prev : Coin H) (fork : ℤ) : Coin H :=
  { prev with
    blockIndex := if prev.blockIndex > fork - 1 then fork - 1 else prev.blockIndex
    actionIndex := match lowestFirstAction prev.history fork with
      | some firstAction =>
        if firstAction ≤ prev.actionIndex then firstAction - 1 else prev.actionIndex
      | none => prev.actionIndex
    history := KeyedMap.keep (fun height => decide (height < fork)) prev.history }

/-- The clamp to the new tip. -/
def Coin.clampTip (prev : Coin H) (currentBlockIndex currentActionIndex : ℤ) : Coin H :=
  { prev with
    blockIndex := if prev.blockIndex > currentBlockIndex then currentBlockIndex else prev.blockIndex
    actionIndex :=
      if prev.actionIndex > currentActionIndex then currentActionIndex else prev.actionIndex }

/-- The live mark drops with the action cursor. -/
def Coin.dropMark (prev : Coin H) : Coin H :=
  match prev.liveActionMark with
  | some mark => if mark > prev.actionIndex then prev.setLiveMark prev.actionIndex else prev
  | none => prev

/-- The cursors back to a fork. -/
def Coin.rewindCursors (prev : Coin H) (fork : Option ℤ)
    (currentBlockIndex currentActionIndex : ℤ) : Coin H :=
  let prev := match fork with
    | some fork => prev.dropFork fork
    | none => prev
  (prev.clampTip currentBlockIndex currentActionIndex).dropMark

/-! ### The rollback notice -/

/-- Rollbacks kept per coin for the catch-up gate. -/
def REORG_LOG_DEPTH : ℕ := 64

/-- Push, then shift the oldest entry out when the log is over its bound. -/
def pushLog {α : Type*} (n : ℕ) (kept : List α) (x : α) : List α :=
  if n < (kept ++ [x]).length then (kept ++ [x]).tail else kept ++ [x]

/-- A rollback into the log. -/
def Coin.noteRollback (prev : Coin H) (forkBlock firstInvalid : ℤ) : Coin H :=
  { prev with
    rollbackSeq := prev.rollbackSeq + 1
    rollbacks := pushLog REORG_LOG_DEPTH prev.rollbacks
      { seq := prev.rollbackSeq + 1, forkBlock, firstInvalid } }

/-- Announce what a rewind invalidated. Silent when no cursor moved back. -/
def Coin.announceRollback (prev : Coin H) (beforeBlock beforeAction : ℤ) (fork : Option ℤ) :
    Coin H × List (Event β H) :=
  if prev.blockIndex < beforeBlock ∨ prev.actionIndex < beforeAction then
    let forkBlock := fork.getD (prev.blockIndex + 1)
    let firstInvalid := prev.actionIndex + 1
    let noted := prev.noteRollback forkBlock firstInvalid
    (if firstInvalid ≤ beforeAction then
        { noted with
          reorgLog := pushLog REORG_LOG_DEPTH noted.reorgLog
            { forkBlock, firstInvalid, previousTip := beforeAction } }
      else noted,
     [.reorg forkBlock firstInvalid])
  else (prev, [])

/-- The newest logged rollback that may have invalidated a row at `cursor`. -/
def Coin.reorgCovering (prev : Coin H) (cursor : ℤ) : Option ReorgEntry :=
  prev.reorgLog.reverse.find? fun e => decide (e.firstInvalid ≤ cursor ∧ cursor ≤ e.previousTip)

/-- The entry with the lower first invalidated index, the earlier one on a tie. -/
def lowerRollback (found : Option Rollback) (entry : Rollback) : Option Rollback :=
  match found with
  | none => some entry
  | some best => if entry.firstInvalid < best.firstInvalid then some entry else some best

/-- The rollback announced after number `seq` that may have voided a row at or below `highWater`:
    once one announced after `seq` was dropped from the kept list, any kept one answers. -/
def Coin.rollbackSince (prev : Coin H) (seq : ℕ) (highWater : ℤ) : Option Rollback :=
  if prev.rollbackSeq ≤ seq then none
  else
    let after := prev.rollbacks.filter fun e => decide (seq < e.seq)
    let dropped := after.head?.any fun e => decide (seq + 1 < e.seq)
    (after.filter fun e => dropped || decide (e.firstInvalid ≤ highWater)).foldl lowerRollback none

/-! ### The cursor rules -/

/-- Where a cursor lands after a fetch that ended at `last`. -/
def nextCursor (last : Option ℤ) (currentMax previous : ℤ) : ℤ :=
  match last with
  | none => previous
  | some last =>
    if last < currentMax then last
    else if currentMax < last then last
    else currentMax

/-- A fetch that came back short of the tip read before it flags the next poll's fork search. -/
def Coin.noteShortFetch (prev : Coin H) (fetchLimit fetched : ℕ) (reached tip : ℤ) : Coin H :=
  if fetchLimit ≤ fetched then prev
  else if reached < tip then { prev with pendingReorg := true }
  else prev

end ChangeDetector
