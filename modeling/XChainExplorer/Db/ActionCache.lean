import XChainExplorer.Db.Watch
import XChainExplorer.Lib.Lru
import XChainExplorer.Lib.Runs

/-! # The action cache and its reorg generation

    One coin of the db layer: the two observers of its tip, which share one reorg generation, and
    `getActionData`, which keeps an action response in an LRU keyed by coin, generation and action
    index. A call reads the database many times before it stores, and the key of the store is
    computed anew, so a bump may fall in between. -/

namespace DbCache
open Tables TipProbe

/-! ### What is read -/

variable {β H K T P V : Type*}

/-- The identity of a block on the request path: its ledger hash and its actions hash. -/
def requestIdentity (ledger actions : Option H) : Option (Option H × Option H) :=
  match ledger, actions with
  | none, none => none
  | _, _ => some (ledger, actions)

/-- The blocks table as both observers read it. -/
structure Blocks (β H : Type*) where
  start : ℕ
  ledgerHash : Chain β → Option H
  actionsHash : Chain β → Option H

/-- As `checkReorgAndInvalidate` reads it. -/
def Blocks.poll (B : Blocks β H) : Ledger β H := { start := B.start, hash := B.ledgerHash }

/-- As `resultCacheGeneration` reads it. -/
def Blocks.request (B : Blocks β H) : Ledger β (Option H × Option H) :=
  { start := B.start, hash := fun c => requestIdentity (B.ledgerHash c) (B.actionsHash c) }

/-- A computation that awaits the database any number of times. -/
inductive Reads (β α : Type*) where
  | ret (a : α)
  | read (k : Chain β → Reads β α)

/-- The fields of an action response that decide whether it may be kept, and the rest of it. -/
structure ActionData (V : Type*) where
  action_index : Option ℤ := none
  detail_incomplete : Bool := false
  state : Option V := none
  status : Option String := none
  action : Option String := none
  version : Option ℤ := none
  fields : List String := []
  payload : V

/-- What a page reads once for all its indexes: the type legs, and the others. -/
structure Preload (T P : Type*) where
  indexes : List ℤ
  types : List (ℤ × Option T)
  legs : P

/-- The readers under `getActionData`: the page preload, the type lookup, and per type the handler's
    queries with the legs every action shares. `blank` is the response of an unknown index. -/
structure Readers (β T P V : Type*) where
  buildActionPreload : List ℤ → Reads β (Preload T P)
  getActionType : Chain β → ℤ → Option T
  detail : T → ℤ → Option (Preload T P) → Reads β (ActionData V)
  blank : ActionData V

/-- The read of an action's detail, by its type. -/
def Readers.ofType (R : Readers β T P V) (action_index : ℤ) (pre : Option (Preload T P)) :
    Option T → Reads β (ActionData V)
  | none => .ret R.blank
  | some type => R.detail type action_index pre

/-- The preload where it covers this index. -/
def usable (preload : Option (Preload T P)) (action_index : ℤ) : Option (Preload T P) :=
  preload.filter fun p => p.indexes.contains action_index

/-- What a call that missed the cache reads. -/
def Readers.readAction (R : Readers β T P V) (action_index : ℤ) (preload : Option (Preload T P)) :
    Reads β (ActionData V) :=
  let pre := usable preload action_index
  match pre.bind fun p => p.types.lookup action_index with
  | some type => R.ofType action_index pre type
  | none => .read fun c => R.ofType action_index pre (R.getActionType c action_index)

/-! ### What may be kept -/

/-- Response fields a later action can change. -/
def MUTABLE_ACTION_FIELDS : List String :=
  ["request_status", "response_status", "result_status", "resolved_block", "poll_status",
    "feed_status", "bet_status", "settled_block", "deactivation_block", "cooldown_end_block",
    "bridge_transfer"]

/-- ANCHOR versions whose status a later chunk can restamp. -/
def ANCHOR_RESTAMPED_VERSIONS : List ℤ := [1, 3]

/-- A detail that no later block changes. -/
def isCacheableAction (data : ActionData V) : Bool :=
  if data.action_index.isNone then false
  else if data.detail_incomplete then false
  else if data.state.isSome then false
  else if data.status.any fun s => s.toLower.startsWith "pending" then false
  else if data.action = some "ANCHOR" && data.version.any ANCHOR_RESTAMPED_VERSIONS.contains then
    false
  else !MUTABLE_ACTION_FIELDS.any data.fields.contains

/-! ### The machine -/

/-- `coin + ':' + generation + ':' + action_index`. -/
structure Key (K : Type*) where
  coin : K
  gen : ℕ
  action_index : ℤ
  deriving DecidableEq

/-- A kept response. `reads` is history: the generation at each read it was computed from. -/
structure Kept (V : Type*) where
  data : ActionData V
  reads : List ℕ

/-- A call or a page preload in flight. `since` and `reads` are history: the generation when it
    began, and the one at each read so far. -/
structure Task (β α : Type*) where
  since : ℕ
  reads : List ℕ
  todo : Reads β α

/-- A read of an action. -/
structure Call (β V : Type*) extends Task β (ActionData V) where
  action_index : ℤ

/-- An answered call, for the record. -/
structure Answer (V : Type*) where
  action_index : ℤ
  data : ActionData V
  since : ℕ
  reads : List ℕ

/-- The memo of the request path's last tip reading. -/
inductive TipMemo (H : Type*) where
  | failed
  | empty
  | tip (t : Tip (Option H × Option H))
  deriving DecidableEq

/-- One coin of the db layer. The cache is shared with the other coins. -/
structure Db (β H K T P V : Type*) where
  chain : Chain β
  reorgGen : ℕ := 0
  request : Watch β (Option H × Option H) := {}
  poll : Watch β H := {}
  tipMemo : Option (TipMemo H) := none
  actionDataCache : List (Key K × Kept V) := []
  pages : ℕ → Option (Task β (Preload T P)) := fun _ => none
  calls : ℕ → Option (Call β V) := fun _ => none
  answers : List (Answer V) := []

/-- `fresh` says whether the memo is under its time to live. -/
inductive Label (β K V : Type*) where
  | chain (c : Chain β)
  | resultCacheGeneration (i : ℕ) (fresh : Bool)
  | request (l : WatchLabel)
  | poll (l : WatchLabel)
  | otherCoin (key : Key K) (kept : Kept V)
  | page (i : ℕ) (indexes : List ℤ)
  | pageDb (i : ℕ)
  | pageFail (i : ℕ)
  | call (j : ℕ) (action_index : ℤ) (page : Option ℕ)
  | callDb (j : ℕ)
  | callRun (j : ℕ)
  | callFail (j : ℕ)

/-- The database answers a task's next read. -/
def Task.db {α : Type*} (t : Task β α) (c : Chain β) (gen : ℕ) : Option (Task β α) :=
  match t.todo with
  | .read k => some { t with reads := t.reads ++ [gen], todo := k c }
  | .ret _ => none

/-- The value of a finished task. -/
def Task.value {α : Type*} (t : Task β α) : Option α :=
  match t.todo with
  | .ret a => some a
  | .read _ => none

section step
variable [DecidableEq H] [DecidableEq K] (B : Blocks β H) (R : Readers β T P V) (coin : K)
  (maxSize : ℕ)

/-- The key of an action. -/
def Db.cacheKey (d : Db β H K T P V) (action_index : ℤ) : Key K :=
  { coin, gen := d.reorgGen, action_index }

/-- The memo a request probe leaves when it ends. -/
def memoAfter (memo : Option (TipMemo H)) (w w' : Watch β (Option H × Option H)) :
    WatchLabel → Option (TipMemo H)
  | .run i => match (w.probes i).pc, (w'.probes i).pc with
    | .tip (some none), .idle => some .empty
    | _, .idle => w'.last.map .tip
    | _, _ => memo
  | .fail _ => some .failed
  | _ => memo

/-- Indexes of a page not in the cache, each looked up once. -/
def coldIndexes (cache : List (Key K × Kept V)) (key : ℤ → Key K) :
    List ℤ → List ℤ × List (Key K × Kept V)
  | [] => ([], cache)
  | i :: is =>
    let (hit, cache) := Lru.get cache (key i)
    let (cold, cache) := coldIndexes cache key is
    (if hit.isNone then i :: cold else cold, cache)

/-- A page's preload starts: read only for what the cache does not hold. -/
def Db.startPage (d : Db β H K T P V) (i : ℕ) (indexes : List ℤ) : Db β H K T P V :=
  let (cold, cache) := coldIndexes d.actionDataCache (d.cacheKey coin) indexes.dedup
  { d with
    actionDataCache := cache
    pages := Function.update d.pages i (if cold = [] then none
      else some { since := d.reorgGen, reads := [], todo := R.buildActionPreload cold }) }

/-- `getActionData` starts: a hit answers, a miss begins to read. -/
def Db.startCall (d : Db β H K T P V) (j : ℕ) (action_index : ℤ)
    (page : Option (ℕ × List ℕ × Preload T P)) : Db β H K T P V :=
  match Lru.get d.actionDataCache (d.cacheKey coin action_index) with
  | (some kept, cache) => { d with
      actionDataCache := cache
      answers := d.answers ++ [⟨action_index, kept.data, d.reorgGen, kept.reads⟩] }
  | (none, cache) =>
    let preload := page.map (·.2.2)
    let (since, reads) := match usable preload action_index, page with
      | some _, some (since, reads, _) => (since, reads)
      | _, _ => (d.reorgGen, [])
    { d with
      actionDataCache := cache
      calls := Function.update d.calls j
        (some { since, reads, action_index, todo := R.readAction action_index preload }) }

/-- `getActionData` ends: what may be kept is stored under the generation of this moment. -/
def Db.endCall (d : Db β H K T P V) (j : ℕ) (call : Call β V) (data : ActionData V) :
    Db β H K T P V :=
  { d with
    actionDataCache := if isCacheableAction data then
        Lru.set d.actionDataCache (d.cacheKey coin call.action_index) ⟨data, call.reads⟩ maxSize
      else d.actionDataCache
    calls := Function.update d.calls j none
    answers := d.answers ++ [⟨call.action_index, data, call.since, call.reads⟩] }

/-- A step, if it can be taken. -/
def Db.step (d : Db β H K T P V) : Label β K V → Option (Db β H K T P V)
  | .chain c => some { d with chain := c }
  | .resultCacheGeneration i fresh =>
    if fresh && d.tipMemo.isSome then some d
    else (d.request.step B.request d.chain d.reorgGen (.start i)).map fun (w, gen) =>
      { d with request := w, reorgGen := gen }
  | .request l => match l with
    | .start _ => none
    | l => (d.request.step B.request d.chain d.reorgGen l).map fun (w, gen) =>
      { d with request := w, reorgGen := gen, tipMemo := memoAfter d.tipMemo d.request w l }
  | .poll l => (d.poll.step B.poll d.chain d.reorgGen l).map fun (w, gen) =>
      { d with poll := w, reorgGen := gen }
  | .otherCoin key kept => if key.coin = coin then none else
      some { d with actionDataCache := Lru.set d.actionDataCache key kept maxSize }
  | .page i indexes => some (d.startPage R coin i indexes)
  | .pageDb i => (d.pages i).bind fun t => (t.db d.chain d.reorgGen).map fun t =>
      { d with pages := Function.update d.pages i (some t) }
  | .pageFail i => some { d with pages := Function.update d.pages i none }
  | .call j action_index page => match d.calls j with
    | some _ => none
    | none => match page.map d.pages with
      | none | some none => some (d.startCall R coin j action_index none)
      | some (some t) => t.value.map fun pre =>
          d.startCall R coin j action_index (some (t.since, t.reads, pre))
  | .callDb j => (d.calls j).bind fun t => (t.toTask.db d.chain d.reorgGen).map fun t' =>
      { d with calls := Function.update d.calls j (some { t with toTask := t' }) }
  | .callRun j => (d.calls j).bind fun t => t.toTask.value.map fun data =>
      d.endCall coin maxSize j t data
  | .callFail j => (d.calls j).map fun _ => { d with calls := Function.update d.calls j none }

end step

/-- A fresh process over a chain. -/
def Db.init (c : Chain β) : Db β H K T P V := { chain := c }

end DbCache
