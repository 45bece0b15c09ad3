import XChainExplorer.Lib.Journal
import XChainExplorer.Ws.ChannelManager

/-! # The fan-out of one coin

    A frame goes to every subscriber of its channel key. An action row opens a bracket: the first
    of its frames that a client wants decides whether the client is admitted to the row, by what
    its socket still holds, and the others follow that. A client that loses a frame is closed, at
    once or, where the frame was of no row and a row is in flight, at the end of the row. The
    catch-up replay sends its own frames to one client, next to the live ones. Whatever happens to
    a subscription is written to a journal. -/

namespace Broadcaster

open JsText ChannelManager

/-! ### Frames and their routes -/

/-- What the types filter reads of a frame: `event.type`, `event.data.action` and the action of the
    row behind it. -/
structure Frame where
  type : Text
  dataAction : Option Text
  rowAction : Option Text

/-- The text, unless it is empty. -/
def truthyText (t : Option Text) : Option Text := t.filter (· ≠ [])

/-- The type a filter is held against: the row's action, then the data's, then the frame's own. -/
def Frame.actionType (frame : Frame) : Text :=
  ((truthyText frame.rowAction).or (truthyText frame.dataAction)).getD frame.type

/-- A subscription without types takes every frame. -/
def passesFilter (filter : Filter) (frame : Frame) : Bool :=
  match filter.types with
  | none => true
  | some types => decide (frame.actionType ∈ types ∨ frame.type ∈ types)

/-- The key of a coin's channel. -/
def channelKey (coin : Coin) (channel : Channel) : Text := prefixed coin.1 channel.name

/-- The key of one entity in it. -/
def entityChannelKey (coin : Coin) (channel : Channel) (entityId : Text) : Text :=
  prefixed (channelKey coin channel) entityId

/-- The distinct addresses of a list that are there at all. -/
def distinctAddresses (addresses : List (Option Text)) : List Text :=
  (addresses.filterMap truthyText).foldl addKey []

/-- Where an action is sent: the coin's actions and the addresses it names. -/
def actionChannelKeys (coin : Coin) (source : Option Text) (destinations : List Text) : List Text :=
  channelKey coin .actions ::
    (distinctAddresses (source :: destinations.map some)).map (entityChannelKey coin .address)

/-- The channels that a lifecycle event is sent to besides `actions`. -/
inductive EventChannel where
  | dispenser | bet_feed | xcall | attestation
  deriving DecidableEq

/-- The channel of an event. -/
def EventChannel.toChannel : EventChannel → Channel
  | dispenser => .dispenser
  | bet_feed => .bet_feed
  | xcall => .xcall
  | attestation => .attestation

/-- The fields of an event that say where it is sent. -/
structure LifecycleEvent where
  channel : Option EventChannel
  source : Option Text
  payer_address : Option Text
  payee_address : Option Text
  address : Option Text
  dispenser_action_index : Option Text
  feed_action_index : Option Text
  call_id : Option Text

/-- The entity an event is about, in its own channel. -/
def lifecycleChannelEntityId (ev : LifecycleEvent) : Option Text :=
  match ev.channel with
  | some .dispenser => ev.dispenser_action_index
  | some .bet_feed => ev.feed_action_index
  | some .xcall => ev.call_id.map toLowerCase
  | _ => none

/-- The addresses an event names, each once. -/
def extractAddresses (ev : LifecycleEvent) : List Text :=
  distinctAddresses [ev.source, ev.payer_address, ev.payee_address, ev.address]

/-- The key of the channel that an event names. -/
def eventKey (coin : Coin) (ev : LifecycleEvent) (channel : EventChannel) : Text :=
  match truthyText (lifecycleChannelEntityId ev) with
  | some entityId => entityChannelKey coin channel.toChannel entityId
  | none => channelKey coin channel.toChannel

/-- Where an event is sent: the coin's actions, its own channel and its addresses. -/
def lifecycleChannelKeys (coin : Coin) (ev : LifecycleEvent) : List Text :=
  channelKey coin .actions :: (ev.channel.map (eventKey coin ev)).toList ++
    (extractAddresses ev).map (entityChannelKey coin .address)

/-! ### Sockets, rows and the journal -/

/-- What the fan-out sees of a socket. -/
structure Socket where
  bufferedAmount : ℕ
  /-- `readyState` is OPEN. -/
  isOpen : Bool
  backpressureClosing : Bool
  backpressureClosePending : Bool
  deriving DecidableEq

/-- A socket that was just opened. -/
def freshSocket : Socket := ⟨0, true, false, false⟩

/-- The row in flight: its number and who is to get it, by the first of its frames. -/
structure Row where
  number : ℕ
  admissions : ℕ → Option Bool
  /-- The keys that went live while the row is in flight. -/
  joined : List (ℕ × Text)

/-- What became of a frame at one subscriber. -/
inductive Outcome where
  | joined | filtered | refused | unsent | handed
  deriving DecidableEq

/-- `deliverToSubscriber` answers true. -/
def Outcome.delivered : Outcome → Bool
  | unsent | handed => true
  | joined | filtered | refused => false

/-- A frame offered to a subscriber under a key. -/
structure Offer where
  client : ℕ
  key : Text
  frame : Frame
  /-- The frame belongs to the row in flight. -/
  ofRow : Bool
  /-- The number of the row in flight. -/
  during : Option ℕ
  outcome : Outcome

/-- What a client is told, and what the registry does for it. -/
inductive Entry where
  | subscribed (client : ℕ) (key : Text) (filter : Filter)
  | released (client : ℕ) (key : Text)
  | offered (o : Offer)
  | replayed (client : ℕ) (key : Text) (frame : Frame) (outcome : Outcome)
  /-- UNSUBSCRIBED, for a once subscription that was spent. -/
  | told (client : ℕ) (key : Text) (sent : Bool)
  | rowEnded (number : ℕ)

/-- The registry, the sockets, the row in flight, the number of rows so far and the journal. -/
structure State where
  registry : Registry
  sockets : ℕ → Socket
  row : Option Row
  rows : ℕ
  journal : List Entry

/-- Nobody is connected and nothing was sent. -/
def initial : State := ⟨Registry.empty, fun _ => freshSocket, none, 0, []⟩

/-- The journal with more entries. -/
def State.note (s : State) (entries : List Entry) : State := { s with journal := s.journal ++ entries }

/-! ### One frame at one subscriber -/

/-- A client too far behind is closed. -/
def shedBackedUpClient (socket : Socket) : Socket :=
  if socket.backpressureClosing then socket
  else { socket with backpressureClosing := true, isOpen := false }

/-- In a row the close waits for the row's end. -/
def noteBackpressureSkip (socket : Socket) (deferClose : Bool) : Socket :=
  if deferClose then { socket with backpressureClosePending := true } else shedBackedUpClient socket

/-- What is written to a closed socket is not sent. -/
def sendOutcome (socket : Socket) : Outcome := if socket.isOpen then .handed else .unsent

section fanout
variable (maxBackpressure : ℕ)

/-- One frame for one subscriber. The first frame of a row decides whether the client gets the row.
    -/
def deliverToSubscriber (s : State) (id : ℕ) (filter : Filter) (frame : Frame) (ofRow : Bool) : State × Outcome :=
  let socket := s.sockets id
  if !passesFilter filter frame then (s, .filtered)
  else
    match s.row, ofRow with
    | some row, true =>
      match row.admissions id with
      | some false => (s, .refused)
      | some true => (s, sendOutcome socket)
      | none =>
        if socket.bufferedAmount ≤ maxBackpressure then
          ({ s with row := some { row with admissions := Function.update row.admissions id (some true) } },
            sendOutcome socket)
        else
          ({ s with
              row := some { row with admissions := Function.update row.admissions id (some false) }
              sockets := Function.update s.sockets id
                (noteBackpressureSkip socket socket.backpressureClosePending) }, .refused)
    | row, _ =>
      if maxBackpressure < socket.bufferedAmount then
        ({ s with sockets := Function.update s.sockets id (noteBackpressureSkip socket row.isSome) }, .refused)
      else (s, sendOutcome socket)

/-- A replayed frame passes over a key that went live during the row. -/
def skipsJoined (s : State) (id : ℕ) (key : Text) (ofRow replayed : Bool) : Bool :=
  replayed && ofRow && (s.row.any fun row => decide ((id, key) ∈ row.joined))

/-- One subscriber of the key. -/
def offerTo (s : State) (key : Text) (frame : Frame) (ofRow replayed : Bool) (id : ℕ) (filter : Filter) :
    State × Outcome :=
  if skipsJoined s id key ofRow replayed then (s, .joined)
  else deliverToSubscriber maxBackpressure s id filter frame ofRow

/-- The entry of an offer. -/
def offerEntry (s : State) (id : ℕ) (key : Text) (frame : Frame) (ofRow : Bool) (outcome : Outcome) : Entry :=
  .offered ⟨id, key, frame, ofRow, s.row.map Row.number, outcome⟩

/-- The state after an offer, with the entry of what came of it. -/
def afterOffer (s : State) (key : Text) (frame : Frame) (ofRow replayed : Bool) (id : ℕ) (filter : Filter) : State :=
  let done := offerTo maxBackpressure s key frame ofRow replayed id filter
  done.1.note [offerEntry s id key frame ofRow done.2]

/-- The subscribers of a key in turn; `toRemove` collects the once subscriptions that were spent. -/
def offerAll (key : Text) (frame : Frame) (ofRow replayed : Bool) :
    State → List ℕ → List (Sigma fun _ : ℕ => Filter) → State × List ℕ
  | s, toRemove, [] => (s, toRemove)
  | s, toRemove, ⟨id, filter⟩ :: subscribers =>
    if (s.registry.clients id).isSome then
      let outcome := (offerTo maxBackpressure s key frame ofRow replayed id filter).2
      offerAll key frame ofRow replayed (afterOffer maxBackpressure s key frame ofRow replayed id filter)
        (if outcome.delivered && filter.once then toRemove ++ [id] else toRemove) subscribers
    else offerAll key frame ofRow replayed s toRemove subscribers

/-- The clients that are told of a removal: those that are there, where the key can be read. -/
def toldEntries (s : State) (key : Text) (ids : List ℕ) : List Entry :=
  if (parseChannelKey key).isNone then []
  else (ids.filter fun id => (s.registry.clients id).isSome).map fun id => .told id key (s.sockets id).isOpen

/-- The once subscriptions that were spent are taken out, and each client is told. -/
def removeOnce (s : State) (key : Text) (ids : List ℕ) : State :=
  State.note { s with registry := removeOnceSubscriptions s.registry key ids } (toldEntries s key ids)

/-- A frame to every subscriber of a key. -/
def broadcastToChannelKey (s : State) (key : Text) (frame : Frame) (ofRow replayed : Bool) : State :=
  let done := offerAll maxBackpressure key frame ofRow replayed s [] (s.registry.getSubscribers key).entries
  removeOnce done.1 key done.2

/-- A frame to the keys one after the other. -/
def broadcastToKeys (s : State) (keys : List Text) (frame : Frame) (ofRow replayed : Bool) : State :=
  keys.foldl (fun s key => broadcastToChannelKey maxBackpressure s key frame ofRow replayed) s

end fanout

/-! ### The catch-up replay -/

/-- The targets of one replayed frame: the keys still owed on its route, each with the filter that
    the client holds it under now. -/
def replayTargets (s : State) (id : ℕ) (routeKeys owed : List Text) : List (Text × Filter) :=
  routeKeys.filterMap fun key =>
    if key ∈ owed then (s.registry.filterAt key id).map fun filter => (key, filter) else none

/-- One stored frame to a client that has subscribed. -/
def sendToTarget (id : ℕ) (frame : Frame) (s : State) (target : Text × Filter) : State :=
  if passesFilter target.2 frame then
    let sent := s.note [.replayed id target.1 frame (sendOutcome (s.sockets id))]
    if target.2.once then removeOnce sent target.1 [id] else sent
  else s.note [.replayed id target.1 frame .filtered]

/-- It under each of the keys that the client now holds. -/
def sendToTargets (s : State) (id : ℕ) (frame : Frame) (targets : List (Text × Filter)) : State :=
  targets.foldl (sendToTarget id frame) s

/-! ### Runs -/

/-- What can happen to the server. -/
inductive Op where
  | connect
  | subscribe (id : ℕ) (channels params : Json)
  | unsubscribe (id : ℕ) (channels : List Json) (params : Json)
  | removeClient (id : ℕ)
  | close (id : ℕ)
  /-- A socket's unsent bytes change. -/
  | buffered (id : ℕ) (amount : ℕ)
  /-- A socket leaves OPEN by anything but the fan-out: its peer, or a replay that sheds it. -/
  | lose (id : ℕ)
  | actionRowStart
  | actionRowEnd
  | action (frame : Frame) (source : Option Text) (destinations : List Text)
  | lifecycleEvent (frame : Frame) (ev : LifecycleEvent)
  | entityUpdate (frame : Frame) (key : Text)
  /-- A frame of no row: a block, network stats, the mempool. -/
  | other (frame : Frame) (keys : List Text)
  | replayAction (id : ℕ) (owed : List Text) (frame : Frame) (source : Option Text) (destinations : List Text)
  | replayLifecycle (id : ℕ) (owed : List Text) (frame : Frame) (ev : LifecycleEvent)

section runs
variable (stringify : Json → Text) (maxSubscriptions maxBackpressure : ℕ) (coin : Coin)

/-- The keys that a subscribe saved, in the journal. -/
def subscribedEntries (client : Client) : Except Failure Subscribed → List Entry
  | .ok done => done.subscribed.filterMap fun e =>
      (e.key client.coin).map fun key => .subscribed client.id key done.filter
  | .error _ => []

/-- A subscribe, and the keys that go live with it during a row. -/
def onSubscribe (s : State) (client : Client) (channels params : Json) : State :=
  let result := subscribe stringify maxSubscriptions s.registry client channels params
  let live := (result.1.held client.id).filter (· ∉ s.registry.held client.id)
  let row := s.row.map fun row => { row with joined := row.joined ++ live.map fun key => (client.id, key) }
  State.note { s with registry := result.1, row } (subscribedEntries client result.2)

/-- The registry without some of a client's keys. -/
def releasing (s : State) (id : ℕ) (registry : Registry) : State :=
  State.note { s with registry }
    (((s.registry.held id).filter (· ∉ registry.held id)).map fun key => .released id key)

/-- The end of a row: the closes that waited for it are carried out. -/
def onActionRowEnd (s : State) (row : Row) : State :=
  let sockets := fun id =>
    if (s.registry.clients id).isSome && (s.sockets id).backpressureClosePending then
      shedBackedUpClient { s.sockets id with backpressureClosePending := false }
    else s.sockets id
  State.note { s with row := none, sockets } [.rowEnded row.number]

/-- A step of the server, if it can be taken. -/
def step (s : State) : Op → Option State
  | .connect =>
    (ChannelManager.step stringify maxSubscriptions s.registry (.connect coin)).map fun r => { s with registry := r }
  | .subscribe id channels params =>
    (s.registry.clients id).map fun coin => onSubscribe stringify maxSubscriptions s ⟨id, coin⟩ channels params
  | .unsubscribe id channels params =>
    (ChannelManager.step stringify maxSubscriptions s.registry (.unsubscribe id channels params)).map (releasing s id)
  | .removeClient id =>
    (ChannelManager.step stringify maxSubscriptions s.registry (.removeClient id)).map (releasing s id)
  | .close id => (ChannelManager.step stringify maxSubscriptions s.registry (.close id)).map (releasing s id)
  | .buffered id amount =>
    some { s with sockets := Function.update s.sockets id { s.sockets id with bufferedAmount := amount } }
  | .lose id => some { s with sockets := Function.update s.sockets id { s.sockets id with isOpen := false } }
  | .actionRowStart =>
    if s.row.isSome then none
    else some { s with row := some ⟨s.rows, fun _ => none, []⟩, rows := s.rows + 1 }
  | .actionRowEnd => s.row.map (onActionRowEnd s)
  | .action frame source destinations =>
    some (broadcastToKeys maxBackpressure s (actionChannelKeys coin source destinations) frame true false)
  | .lifecycleEvent frame ev =>
    some (broadcastToKeys maxBackpressure s (lifecycleChannelKeys coin ev) frame true true)
  | .entityUpdate frame key => some (broadcastToKeys maxBackpressure s [key] frame true false)
  | .other frame keys => some (broadcastToKeys maxBackpressure s keys frame false false)
  | .replayAction id owed frame source destinations =>
    some (sendToTargets s id frame (replayTargets s id (actionChannelKeys coin source destinations) owed))
  | .replayLifecycle id owed frame ev =>
    some (sendToTargets s id frame (replayTargets s id (lifecycleChannelKeys coin ev) owed))

end runs

end Broadcaster
