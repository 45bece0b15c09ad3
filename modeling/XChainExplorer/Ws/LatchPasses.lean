import XChainExplorer.Ws.PairCursor
import XChainExplorer.Ws.Poll

/-! # The latch and phase passes of a poll

    `checkCoin` with the two passes it ends in: `checkBetLatches` and `checkXcallPhases`, each a
    read bounded by what the block and action steps delivered, an event for every row, and its
    cursor. What `checkCoin` carries past the tip step in its locals is state here. A coin whose
    indexer lacks one of the tables parks that pass; the branch is not here. -/

namespace ChangeDetector
open Tables TipProbe

/-- A lifecycle event of one channel. -/
structure LifecycleEvent (δ : Type) where
  type : String
  action : String
  channel : String
  data : δ
  deriving DecidableEq, Repr

structure BetClosedData where
  action_index : ℤ
  feed_action_index : ℤ
  block_index : ℤ
  tx_hash : Option String := none
  action_format : Option ℕ := none
  source : Option String
  status : String := "closed"
  feed_status : Option String
  synthetic : Bool := true
  deriving DecidableEq, Repr

structure XcallPhaseData where
  call_id : String
  action_index : ℤ
  block_index : ℤ
  source : Option String
  target_chain : Option String
  method : Option String
  contract_index : Option ℤ
  request_status : Option String
  result_status : Option String
  callback_action_index : Option ℤ
  deadline_block : Option ℤ
  tx_hash : Option String := none
  action_format : Option ℕ := none
  synthetic : Bool
  deriving DecidableEq, Repr

/-- `x || null`: an empty text is null too. -/
def orNull (text : Option String) : Option String := text.filter (· != "")

/-- The BET_CLOSED event of one latched feed. -/
def betClosedEvent (feed : BetFeed) : LifecycleEvent BetClosedData where
  type := "BET_CLOSED"
  action := "BET_CLOSED"
  channel := "bet_feed"
  data := {
    action_index := feed.action_index
    feed_action_index := feed.action_index
    block_index := feed.closed_block
    source := orNull feed.source
    feed_status := orNull feed.feed_status }

/-- The event of one resolved call. -/
def xcallPhaseEvent (call : Xcall) : LifecycleEvent XcallPhaseData :=
  let expired := call.request_status == some "expired"
  { type := if expired then "XCALL_EXPIRED" else "XCALL_COMPLETED"
    action := "XCALL"
    channel := "xcall"
    data := {
      call_id := call.call_id
      action_index := call.action_index
      block_index := call.resolved_block
      source := orNull call.source
      target_chain := orNull call.target_chain
      method := orNull call.method
      contract_index := call.contract_index
      request_status := call.request_status
      result_status := if expired then none else orNull call.result_status
      callback_action_index := call.callback_action_index
      deadline_block := call.deadline_block
      synthetic := !expired } }

/-- What a poll emits for a coin, the latch and phase events among it. -/
inductive Emitted (β H : Type*) where
  | tip (e : Event β H)
  | betClosed (e : LifecycleEvent BetClosedData)
  | xcallPhase (e : LifecycleEvent XcallPhaseData)
  deriving DecidableEq

variable {β H : Type*}

/-- The stamped height and the index an event reports, where it reports a stamped row. -/
def Emitted.latched : Emitted β H → Option (ℤ × ℤ)
  | .tip _ => none
  | .betClosed e => some (e.data.block_index, e.data.action_index)
  | .xcallPhase e => some (e.data.block_index, e.data.action_index)

/-- The BET_CLOSED events of a feed, as heights and indexes. -/
def closedPairs (out : List (Emitted β H)) : List (ℤ × ℤ) :=
  out.filterMap fun
    | .betClosed e => some (e.data.block_index, e.data.action_index)
    | _ => none

/-- The XCALL phase events of a feed, as heights and indexes. -/
def resolvedPairs (out : List (Emitted β H)) : List (ℤ × ℤ) :=
  out.filterMap fun
    | .xcallPhase e => some (e.data.block_index, e.data.action_index)
    | _ => none

/-- The locals of `checkCoin` that the two passes read. -/
structure Locals where
  currentBlockIndex : ℤ
  currentActionIndex : ℤ
  lastActionBlock : Option ℤ
  deriving DecidableEq

/-- Which of the two passes waits, and the answer of its read once there is one. -/
inductive PairPc where
  | betLatches (got : Option (List BetFeed))
  | xcallPhases (got : Option (List Xcall))
  deriving DecidableEq

/-- A detector with its two pair cursors and everything it has emitted, oldest first. `seedBlock` is
    the height the coin was seeded at; nothing reads it. -/
structure Passes (β H : Type*) where
  det : Det β H
  closed : PairCursor := ⟨0, none⟩
  xcall : PairCursor := ⟨0, none⟩
  locals : Locals := ⟨0, 0, none⟩
  pairs : PairPc := .betLatches none
  seedBlock : Option ℤ := none
  out : List (Emitted β H) := []

def Passes.init (c : Chain β) : Passes β H := { det := Det.init c }

section step
variable [DecidableEq H] {L : Ledger β H} (S : Latches L) (cfg : Config)

/-- The seed of the two cursors. -/
def Passes.seedPairs (s : Passes β H) (currentBlockIndex : ℤ) : Passes β H :=
  { s with
    closed := ⟨currentBlockIndex, none⟩
    xcall := ⟨currentBlockIndex, none⟩
    seedBlock := some currentBlockIndex }

/-- What a rewind does to the two cursors. -/
def Passes.rewindPairs (s : Passes β H) (fork : Option ℤ) (currentBlockIndex : ℤ) : Passes β H :=
  let lower (prev : PairCursor) : PairCursor :=
    lowerPairCursor (fork.elim prev fun fork => lowerPairCursor prev (fork - 1)) currentBlockIndex
  { s with closed := lower s.closed, xcall := lower s.xcall }

/-- What the code after an await stores besides the detector's own state. -/
def Passes.follow (s : Passes β H) : Label β → Passes β H
  | .run => match s.det.poll with
    | .tip (.maxAction b (some a)) =>
      if !s.det.coin.initialized then s.seedPairs b
      else
        let s := { s with locals := ⟨b, a, none⟩, pairs := .betLatches none }
        match s.det.coin.pendingReorg, KeyedMap.sortedKeys s.det.coin.history with
        | true, [] => s.rewindPairs none b
        | _, _ => s
    | .fork b _ heights (some rows) => s.rewindPairs (findForkPoint s.det.coin.history heights rows) b
    | .fanout _ _ batch [] =>
      { s with locals.lastActionBlock := batch.getLast?.map (·.block_index) }
    | _ => s
  | .seedRun => match s.det.seeding with
    | .tip (.maxAction b (some _)) => if s.det.coin.initialized then s else s.seedPairs b
    | _ => s
  | _ => s

/-- The bound both passes read under. -/
def Passes.delivered (s : Passes β H) : Option ℤ :=
  deliveredBlock s.det.coin s.locals.currentBlockIndex s.locals.currentActionIndex
    s.locals.lastActionBlock

/-- How high a pass reads from where its cursor stands. -/
def Passes.upTo (s : Passes β H) (since : PairCursor) : ℤ :=
  readCeiling s.locals.currentBlockIndex since.block s.delivered

/-- The database answers a pass. -/
def Passes.readPairs (s : Passes β H) : Option PairPc :=
  match s.pairs with
  | .betLatches none => some (.betLatches (some (S.getBetFeedsClosedSince s.det.chain s.closed.block
      cfg.fetchLimit s.closed.action (some (s.upTo s.closed)))))
  | .xcallPhases none => some (.xcallPhases (some (S.getXcallPhasesSince s.det.chain s.xcall.block
      cfg.fetchLimit s.xcall.action (some (s.upTo s.xcall)))))
  | _ => none

/-- `checkBetLatches` after its read, then `checkXcallPhases`, with which the poll ends. -/
def Passes.runPairs (s : Passes β H) : Option (Passes β H) :=
  match s.pairs with
  | .betLatches (some rows) => some { s with
      closed := pairCursorNext BetFeed.pair s.closed rows cfg.fetchLimit (s.upTo s.closed)
      pairs := .xcallPhases none
      out := s.out ++ rows.map fun feed => .betClosed (betClosedEvent feed) }
  | .xcallPhases (some rows) => some { s with
      xcall := pairCursorNext Xcall.pair s.xcall rows cfg.fetchLimit (s.upTo s.xcall)
      pairs := .betLatches none
      out := s.out ++ rows.map fun call => .xcallPhase (xcallPhaseEvent call)
      det.poll := .idle }
  | _ => none

/-- One step. Where `Det` stands at its passes, these are run here. -/
def Passes.step (s : Passes β H) (l : Label β) : Option (Passes β H) :=
  match s.det.poll, l with
  | .after, .db => (s.readPairs S cfg).map fun pairs => { s with pairs }
  | .after, .run => s.runPairs cfg
  | _, _ => (s.det.step L cfg l).map fun (det, events) =>
    { s.follow l with det, out := s.out ++ events.map .tip }

end step

/-! ### The steps -/

section trans
variable [DecidableEq H] {L : Ledger β H} {S : Latches L} {cfg : Config}

/-- Away from the passes a step is a step of the detector. -/
theorem step_of_ne_after {s : Passes β H} {l : Label β} (hp : s.det.poll ≠ .after) :
    s.step S cfg l = (s.det.step L cfg l).map fun (det, events) =>
      { s.follow l with det, out := s.out ++ events.map .tip } := by
  unfold Passes.step
  split
  case h_1 hp' => exact absurd hp' hp
  case h_2 hp' => exact absurd hp' hp
  case h_3 => rfl

/-- Every step is a read or an answer of a pass, or a step of the detector. -/
theorem passes_step_cases {s s' : Passes β H} {l : Label β} (hs : s.step S cfg l = some s') :
    (∃ pairs, l = .db ∧ s.det.poll = .after ∧ s.readPairs S cfg = some pairs ∧
      s' = { s with pairs }) ∨
    (l = .run ∧ s.det.poll = .after ∧ s.runPairs cfg = some s') ∨
    ∃ det events, ¬ (s.det.poll = .after ∧ (l = .db ∨ l = .run)) ∧
      s.det.step L cfg l = some (det, events) ∧
      s' = { s.follow l with det, out := s.out ++ events.map .tip } := by
  unfold Passes.step at hs
  split at hs
  case h_1 hp =>
    obtain ⟨pairs, hr, rfl⟩ := Option.map_eq_some_iff.mp hs
    exact .inl ⟨pairs, rfl, hp, hr, rfl⟩
  case h_2 hp => exact .inr (.inl ⟨rfl, hp, hs⟩)
  case h_3 hdb hrun =>
    obtain ⟨⟨det, events⟩, hd, rfl⟩ := Option.map_eq_some_iff.mp hs
    refine .inr (.inr ⟨det, events, ?_, hd, rfl⟩)
    rintro ⟨hp, rfl | rfl⟩
    · exact hdb hp rfl
    · exact hrun hp rfl

end trans

end ChangeDetector
