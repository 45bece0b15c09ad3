import Mathlib.Data.List.AList
import XChainExplorer.Lib.KeyedMap
import XChainExplorer.Lib.Runs
import XChainExplorer.Ws.ChannelKeys

/-! # Subscriptions

    A subscription stands in two places: the manager's map, from a channel key to the clients that
    hold it with their filters, and the client's own set of keys. A subscribe resolves its whole
    batch and counts it against the limit before it saves any of it; an unsubscribe goes entry by
    entry; a client that leaves is swept out of the map; a once subscription is taken out after the
    frame that spent it. -/

namespace ChannelManager

open JsText KeyedMap

/-! ### Filters -/

/-- The action types that a filter may name. -/
def VALID_TYPES : List Text :=
  ["ORDER", "ORDER_MATCH", "ORDER_EXPIRE", "COINPAY", "COINPAY_EXPIRE", "SWAP", "SWAP_MATCH", "SWAP_EXPIRE",
    "DISPENSER", "DISPENSE", "DISPENSER_CLOSE", "DISPENSER_EXPIRE", "SEND", "SWEEP", "AIRDROP", "DIVIDEND",
    "ISSUE", "MINT", "DESTROY", "BROADCAST", "CALLBACK", "FILE", "MESSAGE", "LIST", "LINK", "SLEEP", "DEPLOY",
    "EXECUTE", "DEPOSIT", "WITHDRAW", "STAKE", "UNSTAKE", "DELEGATE", "COLLECT", "ATTEST", "BET", "BET_EXPIRE",
    "PRICE", "ANCHOR", "XCALL", "NODEPROOF", "ROLLCALL", "ADDRESS", "BATCH", "CROSS_SETTLE", "XBRIDGE", "XEXEC",
    "VOTE", "SLASH", "XPOLICY", "LIST_SHARE", "ORDER_CANCEL", "ORDER_EDIT", "SWAP_CANCEL", "SWAP_EDIT",
    "DISPENSER_CANCEL", "DISPENSER_EDIT", "BET_EDIT", "COINPAY_REQUIRED", "COINPAY_FULFILLED", "COINPAY_EXPIRED",
    "ORDER_EXPIRED", "SWAP_EXPIRED", "DISPENSER_CLOSED", "DISPENSER_EXPIRED", "BET_EXPIRED", "BET_CLOSED",
    "XCALL_COMPLETED", "XCALL_EXPIRED", "ATTESTATION_REQUEST", "ATTESTATION_RESPONSE"].map ofString

/-- What a subscription asks for besides its key. -/
structure Filter where
  types : Option (List Text)
  fields : Option (List Text)
  once : Bool
  snapshot : Bool
  since_action_index : Option Json

/-- A refusal under a code. -/
def refuseWith (code : String) (message : Text) : Failure := .refused ⟨code, message⟩

/-- The elements of an array of strings. -/
def stringOf : Json → Option Text
  | .string s => some s
  | _ => none

/-- The fields that a request asks for. -/
def buildFieldsFilter (params : Json) : Except Failure (Option (List Text)) :=
  match params.given "fields" with
  | none => .ok none
  | some (.array fs) =>
    match fs.mapM stringOf with
    | some fields => .ok (some fields)
    | none => .error (refuseWith "INVALID_PARAMS" (ofString "fields must be an array of strings"))
  | some _ => .error (refuseWith "INVALID_PARAMS" (ofString "fields must be an array of strings"))

/-- The statuses are checked and kept by no filter. -/
def checkStatuses (params : Json) : Except Failure Unit :=
  match params.given "statuses" with
  | none | some (.array _) => .ok ()
  | some _ => .error (refuseWith "INVALID_ACTION" (ofString "statuses must be an array"))

section requests
variable (stringify : Json → Text)

/-- A value as a message names it. -/
def nameForMessage : Json → Text
  | .string s => s
  | value => stringify value

/-- The channel of a name. -/
def knownChannel (ch : Json) : Except Failure Channel :=
  match channelNamed ch with
  | some channel => .ok channel
  | none => .error (refuse (ofString "Unknown channel: " ++ nameForMessage stringify ch))

/-- The channels of a subscribe, or the first refusal that the list earns. -/
def channelsOf (channels : Json) : Except Failure (List Channel) :=
  match channels with
  | .array (ch :: chs) => (ch :: chs).mapM (knownChannel stringify)
  | _ => .error (refuse (ofString "channels must be a non-empty array"))

/-- An action type that a filter may name. -/
def knownType (t : Json) : Except Failure Text :=
  match (stringOf t).filter (· ∈ VALID_TYPES) with
  | some type => .ok type
  | none => .error (refuseWith "INVALID_TYPE" (ofString "Unknown action type: " ++ nameForMessage stringify t))

/-- The types that a request asks for. -/
def buildTypesFilter (params : Json) : Except Failure (Option (List Text)) :=
  match params.given "types" with
  | none => .ok none
  | some (.array ts) => (ts.mapM (knownType stringify)).map some
  | some _ => .error (refuseWith "INVALID_TYPE" (ofString "types must be an array"))

/-- The filter that every subscription of a request shares. -/
def buildFilter (params : Json) : Except Failure Filter := do
  let types ← buildTypesFilter stringify params
  checkStatuses params
  let fields ← buildFieldsFilter params
  return ⟨types, fields, (params.given "once").isSome, (params.given "snapshot").isSome,
    params.given "since_action_index"⟩

end requests

/-! ### The two indexes -/

/-- The subscriptions under one key, by client. -/
abbrev ClientMap := AList fun _ : ℕ => Filter

/-- A connected client. -/
structure Client where
  id : ℕ
  coin : Coin

/-- The subscriptions by key, and again by client. -/
structure Registry where
  /-- From a channel key to the clients that hold it. -/
  subscriptions : AList fun _ : Text => ClientMap
  /-- `client.subscriptions`. -/
  held : ℕ → List Text
  /-- The connected clients. -/
  clients : ℕ → Option Coin
  nextId : ℕ

namespace Registry

/-- Nobody is connected. -/
def empty : Registry := ⟨∅, fun _ => [], fun _ => none, 1⟩

/-- The subscriptions under a key. -/
def getSubscribers (r : Registry) (key : Text) : ClientMap := (r.subscriptions.lookup key).getD ∅

/-- The filter under which a client holds a key. -/
def filterAt (r : Registry) (key : Text) (id : ℕ) : Option Filter := (r.getSubscribers key).lookup id

end Registry

/-- A client out of the map of a key, and the key with its last client. -/
def dropFrom (subscriptions : AList fun _ : Text => ClientMap) (key : Text) (id : ℕ) :
    AList fun _ : Text => ClientMap :=
  match subscriptions.lookup key with
  | none => subscriptions
  | some clientMap =>
    if (clientMap.erase id).entries = [] then subscriptions.erase key
    else assign subscriptions key (clientMap.erase id)

/-- `client.subscriptions.add`. -/
def addKey (keys : List Text) (key : Text) : List Text := if key ∈ keys then keys else keys ++ [key]

/-- A channel, and an entity in it where it has them. -/
structure Entry where
  channel : Channel
  entityKey : Option EntityKey

/-- The key that it is subscribed under. -/
def Entry.key (coin : Coin) (e : Entry) : Option Text := buildChannelKey coin.1 e.channel.name e.entityKey

/-! ### Subscribe -/

section subscribe
variable (stringify : Json → Text) (maxSubscriptions : ℕ)

/-- The entries resolved so far, with their keys in `seen`. -/
structure Resolved where
  entries : List Entry
  seen : List Text

/-- An entry joins the batch unless an earlier one named its key. -/
def addEntry (coin : Coin) (acc : Resolved) (e : Entry) : Except Failure Resolved :=
  match e.key coin with
  | none => .error .thrown
  | some key => .ok (if key ∈ acc.seen then acc else ⟨acc.entries ++ [e], acc.seen ++ [key]⟩)

/-- The entries of a channel for a request's parameters. -/
def entriesOf (channel : Channel) (params : Json) : Except Failure (List Entry) :=
  if channel ∈ GLOBAL_CHANNELS then .ok [⟨channel, none⟩]
  else (resolveEntityKeys stringify channel params).map fun keys => keys.map fun k => ⟨channel, some k⟩

/-- One more channel, the first refusal ending the request. -/
def resolveChannel (coin : Coin) (params : Json) (acc : Resolved) (channel : Channel) : Except Failure Resolved :=
  match entriesOf stringify channel params with
  | .error f => .error f
  | .ok entries => entries.foldlM (addEntry coin) acc

/-- The entries of all the channels a request names. -/
def resolveEntries (coin : Coin) (channels : List Channel) (params : Json) : Except Failure (List Entry) :=
  (channels.foldlM (resolveChannel stringify coin params) ⟨[], []⟩).map Resolved.entries

/-- The refusal past the limit. -/
def limitRefusal : Failure :=
  refuseWith "SUBSCRIPTION_LIMIT"
    (ofString "Maximum " ++ ofString (toString maxSubscriptions) ++ ofString " subscriptions exceeded")

/-- The keys of a batch that the client does not hold, each once. -/
def newKeys (coin : Coin) (keys : List Text) (entries : List Entry) : Except Failure (List Text) :=
  entries.foldlM (fun acc e =>
    match e.key coin with
    | none => .error .thrown
    | some key => .ok (if key ∈ keys then acc else addKey acc key)) []

/-- The new keys of a request have to fit before any of them is saved. -/
def limitError (coin : Coin) (keys : List Text) (entries : List Entry) : Except Failure Unit :=
  match newKeys coin keys entries with
  | .error f => .error f
  | .ok new =>
    if keys.length + new.length ≤ maxSubscriptions then .ok () else .error (limitRefusal maxSubscriptions)

/-- One subscription into both indexes. -/
def save (r : Registry) (id : ℕ) (key : Text) (filter : Filter) : Registry where
  subscriptions := assign r.subscriptions key (assign (r.getSubscribers key) id filter)
  held := Function.update r.held id (addKey (r.held id) key)
  clients := r.clients
  nextId := r.nextId

/-- One key saved for a client. -/
def addSubscription (r : Registry) (client : Client) (filter : Filter) (e : Entry) : Except Failure Registry :=
  match e.key client.coin with
  | none => .error .thrown
  | some key =>
    if key ∉ r.held client.id ∧ maxSubscriptions ≤ (r.held client.id).length then
      .error (limitRefusal maxSubscriptions)
    else .ok (save r client.id key filter)

/-- The save loop. What was saved before a failure stays. -/
def saveEntries (client : Client) (filter : Filter) : Registry → List Entry → Registry × Except Failure Unit
  | r, [] => (r, .ok ())
  | r, e :: es =>
    match addSubscription maxSubscriptions r client filter e with
    | .error f => (r, .error f)
    | .ok r' => saveEntries client filter r' es

/-- What a subscribe does before it saves anything: its batch, and the filter of the batch. -/
def prepare (client : Client) (keys : List Text) (channels params : Json) :
    Except Failure (List Entry × Filter) := do
  let channels ← channelsOf stringify channels
  let filter ← buildFilter stringify params
  let entries ← resolveEntries stringify client.coin channels params
  limitError maxSubscriptions client.coin keys entries
  return (entries, filter)

/-- The answer to a SUBSCRIBE. -/
structure Subscribed where
  subscribed : List Entry
  filter : Filter

/-- Everything is checked before the first key is saved. -/
def subscribe (r : Registry) (client : Client) (channels params : Json) : Registry × Except Failure Subscribed :=
  match prepare stringify maxSubscriptions client (r.held client.id) channels params with
  | .error f => (r, .error f)
  | .ok (entries, filter) =>
    match saveEntries maxSubscriptions client filter r entries with
    | (r', .error f) => (r', .error f)
    | (r', .ok ()) => (r', .ok ⟨entries, filter⟩)

end subscribe

/-! ### Unsubscribe, disconnect and the once removal -/

section remove
variable (stringify : Json → Text)

/-- One subscription out of both indexes. -/
def release (r : Registry) (id : ℕ) (key : Text) : Registry where
  subscriptions := dropFrom r.subscriptions key id
  held := Function.update r.held id ((r.held id).erase key)
  clients := r.clients
  nextId := r.nextId

/-- The registry after it, and whether the client held the subscription; none where the key cannot
    be built and the code throws. -/
def removeSubscription (r : Registry) (client : Client) (e : Entry) : Option (Registry × Bool) :=
  (e.key client.coin).map fun key => (release r client.id key, (r.filterAt key client.id).isSome)

/-- What an unsubscribe answers, as far as it has come. -/
structure Unsubscribed where
  unsubscribed : List (Entry × Bool)
  refused : List Failure

/-- The removals of one channel; the flag is false where one of them threw. -/
def removeEntries (client : Client) :
    Registry → Unsubscribed → List Entry → Registry × Unsubscribed × Bool
  | r, done, [] => (r, done, true)
  | r, done, e :: es =>
    match removeSubscription r client e with
    | none => (r, done, false)
    | some (r', was) => removeEntries client r' { done with unsubscribed := done.unsubscribed ++ [(e, was)] } es

/-- The entries of an unsubscribe's channel, or the refusal that it earns. -/
def namedEntries (ch params : Json) : Except Failure (List Entry) :=
  match knownChannel stringify ch with
  | .error f => .error f
  | .ok channel => entriesOf stringify channel params

/-- The channels one after the other: a refused one is reported and the rest goes on. -/
def unsubscribe (client : Client) (params : Json) :
    Registry → Unsubscribed → List Json → Registry × Unsubscribed × Bool
  | r, done, [] => (r, done, true)
  | r, done, ch :: chs =>
    match namedEntries stringify ch params with
    | .error f => unsubscribe client params r { done with refused := done.refused ++ [f] } chs
    | .ok entries =>
      match removeEntries client r done entries with
      | (r', done', false) => (r', done', false)
      | (r', done', true) => unsubscribe client params r' done' chs

/-- A client out of every key of the map, and its own set emptied. -/
def removeClient (r : Registry) (id : ℕ) : Registry where
  subscriptions := r.subscriptions.keys.foldl (fun subs key => dropFrom subs key id) r.subscriptions
  held := Function.update r.held id []
  clients := r.clients
  nextId := r.nextId

/-- A closed client holds nothing. -/
def onClose (r : Registry) (id : ℕ) : Registry :=
  { removeClient r id with clients := Function.update r.clients id none }

/-- A client that has gone keeps its own set. -/
def spendOne (r : Registry) (key : Text) (id : ℕ) : Registry :=
  if (r.clients id).isSome then release r id key
  else { r with subscriptions := dropFrom r.subscriptions key id }

/-- The spent subscriptions of one key, in turn. A key that cannot be read back stops the walk at
    the first client that is there to be told. -/
def removeOnceSubscriptions (r : Registry) (key : Text) : List ℕ → Registry
  | [] => r
  | id :: ids =>
    if (r.clients id).isSome ∧ (parseChannelKey key).isNone then spendOne r key id
    else removeOnceSubscriptions (spendOne r key id) key ids

end remove

/-! ### Runs -/

/-- What reaches the registry. -/
inductive Op where
  | connect (coin : Coin)
  | subscribe (id : ℕ) (channels params : Json)
  | unsubscribe (id : ℕ) (channels : List Json) (params : Json)
  | removeClient (id : ℕ)
  | close (id : ℕ)
  | spend (key : Text) (ids : List ℕ)

section runs
variable (stringify : Json → Text) (maxSubscriptions : ℕ)

/-- A message comes from a client that is connected. -/
def step (r : Registry) : Op → Option Registry
  | .connect coin =>
    some { r with clients := Function.update r.clients r.nextId (some coin), nextId := r.nextId + 1 }
  | .subscribe id channels params =>
    (r.clients id).map fun coin => (subscribe stringify maxSubscriptions r ⟨id, coin⟩ channels params).1
  | .unsubscribe id channels params =>
    (r.clients id).map fun coin => (unsubscribe stringify ⟨id, coin⟩ params r ⟨[], []⟩ channels).1
  | .removeClient id => some (removeClient r id)
  | .close id => some (onClose r id)
  | .spend key ids => some (removeOnceSubscriptions r key ids)

end runs

/-! ### The map of the manager -/

theorem filterAt_eq (r : Registry) (key : Text) (id : ℕ) :
    r.filterAt key id = (r.subscriptions.lookup key).bind fun clientMap => clientMap.lookup id := by
  unfold Registry.filterAt Registry.getSubscribers
  cases r.subscriptions.lookup key with
  | none => rfl
  | some clientMap => rfl

/-- No key is kept with an empty map. -/
def NoEmpty (subscriptions : AList fun _ : Text => ClientMap) : Prop :=
  ∀ key clientMap, subscriptions.lookup key = some clientMap → clientMap.entries ≠ []

variable {subscriptions : AList fun _ : Text => ClientMap}

theorem entries_ne_nil_of_lookup {clientMap : ClientMap} {id : ℕ} {f : Filter} (h : clientMap.lookup id = some f) :
    clientMap.entries ≠ [] := by
  intro hnil
  have hmem := mem_lookup_iff_mem.mp h
  rw [hnil] at hmem
  exact absurd hmem (by simp)

theorem lookup_eq_none_of_nil {clientMap : ClientMap} (h : clientMap.entries = []) (id : ℕ) :
    clientMap.lookup id = none := by
  rw [Option.eq_none_iff_forall_ne_some]
  intro f hf
  exact entries_ne_nil_of_lookup hf h

theorem bind_lookup_dropFrom (key key' : Text) (id id' : ℕ) :
    ((dropFrom subscriptions key id).lookup key').bind (·.lookup id') =
      if key' = key ∧ id' = id then none else (subscriptions.lookup key').bind (·.lookup id') := by
  by_cases hkey : key' = key
  · subst hkey
    unfold dropFrom
    cases hmap : subscriptions.lookup key' with
    | none => simp [hmap]
    | some clientMap =>
      have herase : (clientMap.erase id).lookup id' = if id' = id then none else clientMap.lookup id' :=
        lookup_erase clientMap id id'
      dsimp only
      split
      · rename_i hnil
        rw [lookup_erase, if_pos rfl, Option.bind_none, Option.bind_some]
        rw [lookup_eq_none_of_nil hnil] at herase
        simpa using herase
      · rw [lookup_assign, if_pos rfl, Option.bind_some, Option.bind_some, herase]
        simp
  · rw [if_neg (by simp [hkey])]
    unfold dropFrom
    cases hmap : subscriptions.lookup key with
    | none => rfl
    | some clientMap =>
      dsimp only
      split
      · rw [lookup_erase, if_neg hkey]
      · rw [lookup_assign, if_neg hkey]

theorem noEmpty_dropFrom (h : NoEmpty subscriptions) (key : Text) (id : ℕ) :
    NoEmpty (dropFrom subscriptions key id) := by
  intro key' clientMap' hlookup
  unfold dropFrom at hlookup
  cases hmap : subscriptions.lookup key with
  | none =>
    rw [hmap] at hlookup
    exact h key' clientMap' hlookup
  | some clientMap =>
    rw [hmap] at hlookup
    dsimp only at hlookup
    split at hlookup
    · rw [lookup_erase] at hlookup
      split at hlookup
      · exact absurd hlookup (by simp)
      · exact h key' clientMap' hlookup
    · rename_i hne
      rw [lookup_assign] at hlookup
      split at hlookup
      · exact Option.some.inj hlookup ▸ hne
      · exact h key' clientMap' hlookup

theorem bind_lookup_sweep (keys : List Text) (key : Text) (id id' : ℕ) :
    ((keys.foldl (fun subs key => dropFrom subs key id) subscriptions).lookup key).bind (·.lookup id') =
      if key ∈ keys ∧ id' = id then none else (subscriptions.lookup key).bind (·.lookup id') := by
  induction keys generalizing subscriptions with
  | nil => simp
  | cons k keys ih =>
    rw [List.foldl_cons, ih, bind_lookup_dropFrom]
    by_cases hmem : key ∈ keys <;> by_cases hk : key = k <;> by_cases hid : id' = id <;> simp [hmem, hk, hid]

theorem noEmpty_sweep (keys : List Text) (id : ℕ) (h : NoEmpty subscriptions) :
    NoEmpty (keys.foldl (fun subs key => dropFrom subs key id) subscriptions) := by
  induction keys generalizing subscriptions with
  | nil => exact h
  | cons k keys ih => exact ih (noEmpty_dropFrom h k id)

variable {r : Registry}

theorem filterAt_save (id id' : ℕ) (key key' : Text) (f : Filter) :
    (save r id key f).filterAt key' id' = if key' = key ∧ id' = id then some f else r.filterAt key' id' := by
  rw [filterAt_eq, filterAt_eq, save]
  dsimp only
  rw [lookup_assign]
  by_cases hkey : key' = key
  · subst hkey
    rw [if_pos rfl, Option.bind_some, lookup_assign, ← filterAt_eq]
    simp [Registry.filterAt]
  · simp [hkey]

theorem noEmpty_save (h : NoEmpty r.subscriptions) (id : ℕ) (key : Text) (f : Filter) :
    NoEmpty (save r id key f).subscriptions := by
  intro key' clientMap hlookup
  rw [save, lookup_assign] at hlookup
  split at hlookup
  · obtain rfl := Option.some.inj hlookup
    have hself : (assign (r.getSubscribers key) id f).lookup id = some f := by rw [lookup_assign, if_pos rfl]
    exact entries_ne_nil_of_lookup hself
  · exact h key' clientMap hlookup

theorem filterAt_release (id id' : ℕ) (key key' : Text) :
    (release r id key).filterAt key' id' = if key' = key ∧ id' = id then none else r.filterAt key' id' := by
  rw [filterAt_eq, filterAt_eq, release, bind_lookup_dropFrom]

theorem filterAt_removeClient (id id' : ℕ) (key : Text) :
    (removeClient r id).filterAt key id' = if id' = id then none else r.filterAt key id' := by
  rw [filterAt_eq, filterAt_eq, removeClient, bind_lookup_sweep]
  by_cases hid : id' = id
  · by_cases hkey : key ∈ r.subscriptions.keys
    · simp [hid, hkey]
    · have hnone : r.subscriptions.lookup key = none := AList.lookup_eq_none.mpr (AList.mem_keys.not.mpr hkey)
      simp [hnone]
  · simp [hid]

/-! ### What both indexes keep -/

/-- An entry that the params of some request name. -/
def Entry.Named (stringify : Json → Text) (e : Entry) : Prop :=
  ∃ params entries, entriesOf stringify e.channel params = .ok entries ∧ e ∈ entries

/-- The two indexes agree, and every key is the key of a named entry of a connected client. -/
structure Consistent (stringify : Json → Text) (maxSubscriptions : ℕ) (r : Registry) : Prop where
  mirrored : ∀ key id, key ∈ r.held id ↔ (r.filterAt key id).isSome = true
  no_empty : NoEmpty r.subscriptions
  nodup : ∀ id, (r.held id).Nodup
  limit : ∀ id, (r.held id).length ≤ maxSubscriptions
  named : ∀ id, ∀ key ∈ r.held id,
    ∃ coin e, r.clients id = some coin ∧ Entry.Named stringify e ∧ e.key coin = some key
  fresh : ∀ id, r.nextId ≤ id → r.clients id = none

variable {stringify : Json → Text} {maxSubscriptions : ℕ}

theorem Entry.Named.fits {e : Entry} (h : e.Named stringify) : Fits e.channel e.entityKey := by
  obtain ⟨params, entries, hentries, hmem⟩ := h
  unfold entriesOf at hentries
  split at hentries
  · rename_i hglobal
    obtain rfl := Except.ok.inj hentries
    have heq := List.mem_singleton.mp hmem
    rw [heq]
    exact .global hglobal
  · cases hkeys : resolveEntityKeys stringify e.channel params with
    | error f => simp [hkeys, Except.map] at hentries
    | ok keys =>
      simp only [hkeys, Except.map, Except.ok.injEq] at hentries
      rw [← hentries, List.mem_map] at hmem
      obtain ⟨k, hk, heq⟩ := hmem
      have hfits := fits_resolveEntityKeys hkeys k hk
      rw [← heq]
      exact hfits

theorem mem_addKey {keys : List Text} {key key' : Text} : key' ∈ addKey keys key ↔ key' ∈ keys ∨ key' = key := by
  unfold addKey
  split
  · rename_i hmem
    constructor
    · exact Or.inl
    · rintro (h | rfl)
      · exact h
      · exact hmem
  · simp

theorem nodup_addKey {keys : List Text} (h : keys.Nodup) (key : Text) : (addKey keys key).Nodup := by
  unfold addKey
  split
  · exact h
  · rename_i hmem
    exact List.nodup_append'.mpr ⟨h, by simp, by simpa using hmem⟩

theorem consistent_empty : Consistent stringify maxSubscriptions Registry.empty where
  mirrored key id := by simp [Registry.empty, Registry.filterAt, Registry.getSubscribers]
  no_empty key clientMap h := by simp [Registry.empty] at h
  nodup id := List.nodup_nil
  limit id := Nat.zero_le _
  named id key h := by simp [Registry.empty] at h
  fresh id _ := rfl

theorem Consistent.save (h : Consistent stringify maxSubscriptions r) {id : ℕ} {coin : Coin} {e : Entry} {key : Text}
    (hclient : r.clients id = some coin) (hnamed : e.Named stringify) (hkey : e.key coin = some key)
    (hlimit : (addKey (r.held id) key).length ≤ maxSubscriptions) (f : Filter) :
    Consistent stringify maxSubscriptions (save r id key f) where
  mirrored key' id' := by
    rw [filterAt_save, ChannelManager.save]
    dsimp only
    by_cases hid : id' = id
    · subst hid
      rw [Function.update_self, mem_addKey, h.mirrored]
      by_cases hk : key' = key <;> simp [hk]
    · rw [Function.update_of_ne hid, h.mirrored]
      simp [hid]
  no_empty := noEmpty_save h.no_empty id key f
  nodup id' := by
    rw [ChannelManager.save]
    dsimp only
    by_cases hid : id' = id
    · subst hid
      rw [Function.update_self]
      exact nodup_addKey (h.nodup id') key
    · rw [Function.update_of_ne hid]
      exact h.nodup id'
  limit id' := by
    rw [ChannelManager.save]
    dsimp only
    by_cases hid : id' = id
    · subst hid
      rwa [Function.update_self]
    · rw [Function.update_of_ne hid]
      exact h.limit id'
  named id' key' hmem := by
    rw [ChannelManager.save] at hmem
    dsimp only at hmem
    by_cases hid : id' = id
    · subst hid
      rw [Function.update_self, mem_addKey] at hmem
      rcases hmem with hmem | rfl
      · exact h.named id' key' hmem
      · exact ⟨coin, e, hclient, hnamed, hkey⟩
    · rw [Function.update_of_ne hid] at hmem
      exact h.named id' key' hmem
  fresh := h.fresh

theorem Consistent.release (h : Consistent stringify maxSubscriptions r) (id : ℕ) (key : Text) :
    Consistent stringify maxSubscriptions (release r id key) := by
  have hsub : ∀ id', ((ChannelManager.release r id key).held id').Sublist (r.held id') := by
    intro id'
    rw [ChannelManager.release]
    dsimp only
    by_cases hid : id' = id
    · subst hid
      rw [Function.update_self]
      exact List.erase_sublist
    · rw [Function.update_of_ne hid]
  refine ⟨?_, noEmpty_dropFrom h.no_empty key id, ?_, ?_, ?_, h.fresh⟩
  · intro key' id'
    rw [filterAt_release, ChannelManager.release]
    dsimp only
    by_cases hid : id' = id
    · subst hid
      rw [Function.update_self, (h.nodup id').mem_erase_iff, h.mirrored]
      by_cases hk : key' = key <;> simp [hk]
    · rw [Function.update_of_ne hid, h.mirrored]
      simp [hid]
  · intro id'
    exact (h.nodup id').sublist (hsub id')
  · intro id'
    exact (hsub id').length_le.trans (h.limit id')
  · intro id' key' hmem
    exact h.named id' key' ((hsub id').subset hmem)

theorem Consistent.removeClient (h : Consistent stringify maxSubscriptions r) (id : ℕ) :
    Consistent stringify maxSubscriptions (removeClient r id) := by
  have hheld : ∀ id', (ChannelManager.removeClient r id).held id' = if id' = id then [] else r.held id' := by
    intro id'
    rw [ChannelManager.removeClient]
    exact Function.update_apply r.held id [] id'
  refine ⟨?_, noEmpty_sweep _ id h.no_empty, ?_, ?_, ?_, h.fresh⟩
  · intro key id'
    rw [hheld, filterAt_removeClient]
    by_cases hid : id' = id
    · simp [hid]
    · rw [if_neg hid, if_neg hid]
      exact h.mirrored key id'
  · intro id'
    rw [hheld]
    by_cases hid : id' = id
    · simp [hid]
    · rw [if_neg hid]
      exact h.nodup id'
  · intro id'
    rw [hheld]
    by_cases hid : id' = id
    · simp [hid]
    · rw [if_neg hid]
      exact h.limit id'
  · intro id' key hmem
    rw [hheld] at hmem
    by_cases hid : id' = id
    · simp [hid] at hmem
    · rw [if_neg hid] at hmem
      exact h.named id' key hmem

theorem Consistent.onClose (h : Consistent stringify maxSubscriptions r) (id : ℕ) :
    Consistent stringify maxSubscriptions (onClose r id) := by
  have hswept := h.removeClient id
  refine ⟨hswept.mirrored, hswept.no_empty, hswept.nodup, hswept.limit, ?_, ?_⟩
  · intro id' key hmem
    have hid : id' ≠ id := by
      rintro rfl
      simp [ChannelManager.onClose, ChannelManager.removeClient] at hmem
    obtain ⟨coin, e, hclient, hnamed, hkey⟩ := hswept.named id' key hmem
    refine ⟨coin, e, ?_, hnamed, hkey⟩
    rw [ChannelManager.onClose]
    exact (Function.update_of_ne hid _ _).trans hclient
  · intro id' hid'
    have hnone := h.fresh id' hid'
    rw [ChannelManager.onClose]
    by_cases hid : id' = id
    · simp [hid]
    · exact (Function.update_of_ne hid _ _).trans hnone

/-- A client that has gone holds nothing, so the walk takes nothing from its own set. -/
theorem Consistent.spendOne (h : Consistent stringify maxSubscriptions r) (key : Text) (id : ℕ) :
    Consistent stringify maxSubscriptions (spendOne r key id) := by
  unfold ChannelManager.spendOne
  split
  · exact h.release id key
  · rename_i hgone
    have hnone : r.held id = [] := by
      rw [List.eq_nil_iff_forall_not_mem]
      intro key' hmem
      obtain ⟨coin, e, hclient, -⟩ := h.named id key' hmem
      exact hgone (by rw [hclient]; rfl)
    have hheld : (ChannelManager.release r id key).held = r.held := by
      rw [ChannelManager.release]
      exact Function.update_eq_self_iff.mpr (by rw [hnone]; rfl)
    have hreleased := h.release id key
    refine ⟨?_, hreleased.no_empty, h.nodup, h.limit, h.named, h.fresh⟩
    intro key' id'
    have hmirrored := hreleased.mirrored key' id'
    rw [hheld] at hmirrored
    exact hmirrored

theorem Consistent.removeOnceSubscriptions (h : Consistent stringify maxSubscriptions r) (key : Text)
    (ids : List ℕ) : Consistent stringify maxSubscriptions (removeOnceSubscriptions r key ids) := by
  induction ids generalizing r with
  | nil => exact h
  | cons id ids ih =>
    unfold ChannelManager.removeOnceSubscriptions
    split
    · exact h.spendOne key id
    · exact ih (h.spendOne key id)

theorem Consistent.removeEntries (h : Consistent stringify maxSubscriptions r) (client : Client)
    (entries : List Entry) (done : Unsubscribed) :
    Consistent stringify maxSubscriptions (removeEntries client r done entries).1 := by
  induction entries generalizing r done with
  | nil => exact h
  | cons e entries ih =>
    unfold ChannelManager.removeEntries removeSubscription
    cases e.key client.coin with
    | none => exact h
    | some key => exact ih (h.release client.id key) _

/-- An unsubscribe that throws half way leaves the indexes in agreement. -/
theorem Consistent.unsubscribe (h : Consistent stringify maxSubscriptions r) (client : Client) (params : Json)
    (channels : List Json) (done : Unsubscribed) :
    Consistent stringify maxSubscriptions (unsubscribe stringify client params r done channels).1 := by
  induction channels generalizing r done with
  | nil => exact h
  | cons ch channels ih =>
    unfold ChannelManager.unsubscribe
    split
    · exact ih h _
    · rename_i entries _
      have hremoved := h.removeEntries client entries done
      split
      · rename_i r' done' heq
        rw [heq] at hremoved
        exact hremoved
      · rename_i r' done' heq
        rw [heq] at hremoved
        exact ih hremoved _

/-! ### A subscribe -/

/-- A batch that resolved: named entries, one for each key. -/
structure Batch (stringify : Json → Text) (coin : Coin) (entries : List Entry) (keys : List Text) : Prop where
  named : ∀ e ∈ entries, e.Named stringify
  keys_eq : entries.map (Entry.key coin) = keys.map some
  nodup : keys.Nodup

theorem batch_addEntry {coin : Coin} {acc acc' : Resolved} {e : Entry}
    (h : Batch stringify coin acc.entries acc.seen) (he : e.Named stringify) (hadd : addEntry coin acc e = .ok acc') :
    Batch stringify coin acc'.entries acc'.seen := by
  unfold addEntry at hadd
  split at hadd
  · exact absurd hadd (by simp)
  · rename_i key hkey
    obtain rfl := Except.ok.inj hadd
    split
    · exact h
    · rename_i hnew
      refine ⟨?_, ?_, ?_⟩
      · intro e' he'
        rcases List.mem_append.mp he' with he' | he'
        · exact h.named e' he'
        · exact List.mem_singleton.mp he' ▸ he
      · simp [h.keys_eq, hkey]
      · exact List.nodup_append'.mpr ⟨h.nodup, by simp, by simpa using hnew⟩

theorem channel_of_mem_entriesOf {channel : Channel} {params : Json} {entries : List Entry}
    (h : entriesOf stringify channel params = .ok entries) {e : Entry} (he : e ∈ entries) : e.channel = channel := by
  unfold entriesOf at h
  split at h
  · obtain rfl := Except.ok.inj h
    rw [List.mem_singleton.mp he]
  · cases hkeys : resolveEntityKeys stringify channel params with
    | error f => simp [hkeys, Except.map] at h
    | ok keys =>
      simp only [hkeys, Except.map, Except.ok.injEq] at h
      rw [← h, List.mem_map] at he
      obtain ⟨k, -, rfl⟩ := he
      rfl

theorem batch_resolveEntries {coin : Coin} {channels : List Channel} {params : Json} {entries : List Entry}
    (h : resolveEntries stringify coin channels params = .ok entries) :
    ∃ keys, Batch stringify coin entries keys := by
  unfold resolveEntries at h
  cases hres : channels.foldlM (resolveChannel stringify coin params) ⟨[], []⟩ with
  | error f => simp [hres, Except.map] at h
  | ok res =>
    simp only [hres, Except.map, Except.ok.injEq] at h
    have hbatch : Batch stringify coin res.entries res.seen := by
      refine foldlM_inv (P := fun acc => Batch stringify coin acc.entries acc.seen) ?_ ?_ hres
      · intro acc acc' channel _ hacc hstep
        unfold resolveChannel at hstep
        split at hstep
        · exact absurd hstep (by simp)
        · rename_i named hnamed
          refine foldlM_inv (P := fun acc => Batch stringify coin acc.entries acc.seen) ?_ hacc hstep
          intro acc acc' e he hacc hadd
          have hchannel := channel_of_mem_entriesOf hnamed he
          exact batch_addEntry hacc ⟨params, named, hchannel ▸ hnamed, he⟩ hadd
      · exact ⟨by simp, by simp, List.nodup_nil⟩
    exact ⟨res.seen, h ▸ hbatch⟩

/-- The new keys of a batch are its keys that the client does not hold. -/
theorem newKeys_eq {coin : Coin} {held keys : List Text} {entries : List Entry}
    (hkeys : entries.map (Entry.key coin) = keys.map some) (hnodup : keys.Nodup) :
    newKeys coin held entries = .ok (keys.filter (· ∉ held)) := by
  suffices hgen : ∀ acc : List Text, (∀ key ∈ keys, key ∉ acc) →
      entries.foldlM (fun acc e =>
        match e.key coin with
        | none => Except.error Failure.thrown
        | some key => .ok (if key ∈ held then acc else addKey acc key)) acc =
      .ok (acc ++ keys.filter (· ∉ held)) by
    simpa [newKeys] using hgen [] (by simp)
  induction entries generalizing keys with
  | nil =>
    intro acc _
    have hnil : keys = [] := by simpa using hkeys.symm
    simp [hnil, pure, Except.pure]
  | cons e entries ih =>
    intro acc hfresh
    obtain ⟨key, keys, rfl⟩ := List.exists_cons_of_ne_nil (l := keys) (by rintro rfl; simp at hkeys)
    rw [List.map_cons, List.map_cons, List.cons.injEq] at hkeys
    obtain ⟨hnotin, hnodup⟩ := List.nodup_cons.mp hnodup
    have hrest : ∀ k ∈ keys, k ∉ acc := by
      intro k hk
      exact hfresh k (by simp [hk])
    rw [List.foldlM_cons]
    simp only [hkeys.1, bind, Except.bind]
    by_cases hheld : key ∈ held
    · rw [if_pos hheld, ih hkeys.2 hnodup acc hrest]
      simp [hheld]
    · have hadd : addKey acc key = acc ++ [key] := if_neg (hfresh key (by simp))
      have hrest' : ∀ k ∈ keys, k ∉ acc ++ [key] := by
        intro k hk
        simp only [List.mem_append, List.mem_singleton, not_or]
        exact ⟨hrest k hk, fun heq => hnotin (heq ▸ hk)⟩
      rw [if_neg hheld, hadd, ih hkeys.2 hnodup _ hrest']
      simp [hheld]

/-- Saving a key takes nothing from the room of the keys behind it. -/
theorem room_addKey {held keys : List Text} {key : Text} (hnotin : key ∉ keys)
    (h : held.length + ((key :: keys).filter (· ∉ held)).length ≤ maxSubscriptions) :
    (addKey held key).length + (keys.filter (· ∉ addKey held key)).length ≤ maxSubscriptions := by
  have hfilter : keys.filter (· ∉ addKey held key) = keys.filter (· ∉ held) := by
    refine List.filter_congr fun k hk => ?_
    have hne : k ≠ key := fun heq => hnotin (heq ▸ hk)
    simp [mem_addKey, hne]
  rw [hfilter]
  unfold addKey
  by_cases hheld : key ∈ held
  · simpa [hheld] using h
  · simp only [List.filter_cons, hheld, not_false_eq_true, decide_true, if_true, List.length_cons] at h
    rw [if_neg hheld, List.length_append, List.length_singleton]
    omega

theorem addSubscription_eq {client : Client} {e : Entry} {key : Text} {keys : List Text}
    (hkey : e.key client.coin = some key)
    (hroom : (r.held client.id).length + ((key :: keys).filter (· ∉ r.held client.id)).length ≤ maxSubscriptions)
    (f : Filter) : addSubscription maxSubscriptions r client f e = .ok (save r client.id key f) := by
  unfold addSubscription
  rw [hkey]
  dsimp only
  rw [if_neg]
  rintro ⟨hnew, hfull⟩
  simp only [List.filter_cons, hnew, not_false_eq_true, decide_true, if_true, List.length_cons] at hroom
  omega

/-- A batch within the limit is saved to its last entry. -/
theorem saveEntries_ok {client : Client} {entries : List Entry} {keys : List Text}
    (hkeys : entries.map (Entry.key client.coin) = keys.map some) (hnodup : keys.Nodup)
    (hroom : (r.held client.id).length + (keys.filter (· ∉ r.held client.id)).length ≤ maxSubscriptions)
    (f : Filter) : (saveEntries maxSubscriptions client f r entries).2 = .ok () := by
  induction entries generalizing r keys with
  | nil => rfl
  | cons e entries ih =>
    obtain ⟨key, keys, rfl⟩ := List.exists_cons_of_ne_nil (l := keys) (by rintro rfl; simp at hkeys)
    rw [List.map_cons, List.map_cons, List.cons.injEq] at hkeys
    obtain ⟨hnotin, hnodup⟩ := List.nodup_cons.mp hnodup
    have hheld : (save r client.id key f).held client.id = addKey (r.held client.id) key :=
      Function.update_self ..
    unfold saveEntries
    rw [addSubscription_eq hkeys.1 hroom f]
    refine ih hkeys.2 hnodup ?_
    rw [hheld]
    exact room_addKey hnotin hroom

theorem Consistent.saveEntries (h : Consistent stringify maxSubscriptions r) {client : Client}
    {entries : List Entry} {keys : List Text} (hbatch : Batch stringify client.coin entries keys)
    (hclient : r.clients client.id = some client.coin)
    (hroom : (r.held client.id).length + (keys.filter (· ∉ r.held client.id)).length ≤ maxSubscriptions)
    (f : Filter) : Consistent stringify maxSubscriptions (saveEntries maxSubscriptions client f r entries).1 := by
  induction entries generalizing r keys with
  | nil => exact h
  | cons e entries ih =>
    obtain ⟨hnamed, hkeys, hnodup⟩ := hbatch
    obtain ⟨key, keys, rfl⟩ := List.exists_cons_of_ne_nil (l := keys) (by rintro rfl; simp at hkeys)
    rw [List.map_cons, List.map_cons, List.cons.injEq] at hkeys
    obtain ⟨hnotin, hnodup⟩ := List.nodup_cons.mp hnodup
    have hheld : (ChannelManager.save r client.id key f).held client.id = addKey (r.held client.id) key :=
      Function.update_self ..
    have hroom' := room_addKey hnotin hroom
    have hsaved := h.save hclient (hnamed e (by simp)) hkeys.1 (by omega) f
    unfold ChannelManager.saveEntries
    rw [addSubscription_eq hkeys.1 hroom f]
    refine ih hsaved ⟨fun e' he' => hnamed e' (by simp [he']), hkeys.2, hnodup⟩ hclient ?_
    rw [hheld]
    exact hroom'

/-- What passes every check before the save loop is a batch that the limit has room for. -/
theorem room_of_prepare {client : Client} {held : List Text} {channels params : Json} {entries : List Entry}
    {f : Filter}
    (h : prepare stringify maxSubscriptions client held channels params = .ok (entries, f)) :
    ∃ keys, Batch stringify client.coin entries keys ∧
      held.length + (keys.filter (· ∉ held)).length ≤ maxSubscriptions := by
  unfold prepare at h
  cases hchannels : channelsOf stringify channels with
  | error e => simp [hchannels, bind, Except.bind] at h
  | ok chs =>
    cases hfilter : buildFilter stringify params with
    | error e => simp [hchannels, hfilter, bind, Except.bind] at h
    | ok filter =>
      cases hres : resolveEntries stringify client.coin chs params with
      | error e => simp [hchannels, hfilter, hres, bind, Except.bind] at h
      | ok named =>
        obtain ⟨keys, hbatch⟩ := batch_resolveEntries hres
        simp only [hchannels, hfilter, hres, limitError, newKeys_eq hbatch.keys_eq hbatch.nodup, bind,
          Except.bind, pure, Except.pure] at h
        by_cases hroom : held.length + (keys.filter (· ∉ held)).length ≤ maxSubscriptions
        · rw [if_pos hroom] at h
          simp only [Except.ok.injEq, Prod.mk.injEq] at h
          exact ⟨keys, h.1 ▸ hbatch, hroom⟩
        · rw [if_neg hroom] at h
          exact absurd h (by simp)

variable (maxSubscriptions) in
theorem people_saveEntries (client : Client) (f : Filter) (entries : List Entry) (r : Registry) :
    (saveEntries maxSubscriptions client f r entries).1.clients = r.clients ∧
      (saveEntries maxSubscriptions client f r entries).1.nextId = r.nextId := by
  induction entries generalizing r with
  | nil => exact ⟨rfl, rfl⟩
  | cons e entries ih =>
    unfold ChannelManager.saveEntries addSubscription
    cases e.key client.coin with
    | none => exact ⟨rfl, rfl⟩
    | some key =>
      dsimp only
      split
      · exact ⟨rfl, rfl⟩
      · rename_i heq
        split at heq
        · cases heq
        · obtain rfl := Except.ok.inj heq
          exact ih _

variable (stringify maxSubscriptions) in
/-- A subscribe changes no client but in its keys. -/
theorem people_subscribe (r : Registry) (client : Client) (channels params : Json) :
    (subscribe stringify maxSubscriptions r client channels params).1.clients = r.clients ∧
      (subscribe stringify maxSubscriptions r client channels params).1.nextId = r.nextId := by
  unfold subscribe
  split
  · exact ⟨rfl, rfl⟩
  · rename_i entries filter _
    have hpeople := people_saveEntries maxSubscriptions client filter entries r
    split
    · rename_i heq
      rw [heq] at hpeople
      exact hpeople
    · rename_i heq
      rw [heq] at hpeople
      exact hpeople

theorem people_removeEntries (client : Client) (entries : List Entry) (r : Registry) (done : Unsubscribed) :
    (removeEntries client r done entries).1.clients = r.clients ∧
      (removeEntries client r done entries).1.nextId = r.nextId := by
  induction entries generalizing r done with
  | nil => exact ⟨rfl, rfl⟩
  | cons e entries ih =>
    unfold ChannelManager.removeEntries removeSubscription
    cases e.key client.coin with
    | none => exact ⟨rfl, rfl⟩
    | some key => exact ih _ _

variable (stringify) in
theorem people_unsubscribe (client : Client) (params : Json) (channels : List Json) (r : Registry)
    (done : Unsubscribed) :
    (unsubscribe stringify client params r done channels).1.clients = r.clients ∧
      (unsubscribe stringify client params r done channels).1.nextId = r.nextId := by
  induction channels generalizing r done with
  | nil => exact ⟨rfl, rfl⟩
  | cons ch channels ih =>
    unfold ChannelManager.unsubscribe
    split
    · exact ih _ _
    · rename_i entries _
      have hpeople := people_removeEntries client entries r done
      split
      · rename_i heq
        rw [heq] at hpeople
        exact hpeople
      · rename_i heq
        rw [heq] at hpeople
        exact ⟨(ih _ _).1.trans hpeople.1, (ih _ _).2.trans hpeople.2⟩

theorem Consistent.subscribe (h : Consistent stringify maxSubscriptions r) {client : Client}
    (hclient : r.clients client.id = some client.coin) (channels params : Json) :
    Consistent stringify maxSubscriptions (subscribe stringify maxSubscriptions r client channels params).1 := by
  unfold ChannelManager.subscribe
  split
  · exact h
  · rename_i entries filter hprepare
    obtain ⟨keys, hbatch, hroom⟩ := room_of_prepare hprepare
    have hsaved := h.saveEntries hbatch hclient hroom filter
    split
    · rename_i heq
      rw [heq] at hsaved
      exact hsaved
    · rename_i heq
      rw [heq] at hsaved
      exact hsaved

/-- The failure of a subscribe comes before its first save. -/
theorem subscribe_failed {client : Client} {channels params : Json} {r' : Registry} {f : Failure}
    (h : subscribe stringify maxSubscriptions r client channels params = (r', .error f)) : r' = r := by
  unfold subscribe at h
  split at h
  · exact (Prod.mk.inj h).1.symm
  · rename_i entries filter hprepare
    obtain ⟨keys, hbatch, hroom⟩ := room_of_prepare hprepare
    have hok := saveEntries_ok hbatch.keys_eq hbatch.nodup hroom filter
    split at h
    · rename_i heq
      rw [heq] at hok
      exact absurd hok (by simp)
    · exact absurd (Prod.mk.inj h).2 (by simp)

theorem filterAt_saveEntries {client : Client} {entries : List Entry} {keys : List Text}
    (hkeys : entries.map (Entry.key client.coin) = keys.map some) (hnodup : keys.Nodup)
    (hroom : (r.held client.id).length + (keys.filter (· ∉ r.held client.id)).length ≤ maxSubscriptions)
    (f : Filter) (key : Text) (id : ℕ) :
    (saveEntries maxSubscriptions client f r entries).1.filterAt key id =
      if id = client.id ∧ key ∈ keys then some f else r.filterAt key id := by
  induction entries generalizing r keys with
  | nil =>
    have hnil : keys = [] := by simpa using hkeys.symm
    simp [hnil, ChannelManager.saveEntries]
  | cons e entries ih =>
    obtain ⟨k, keys, rfl⟩ := List.exists_cons_of_ne_nil (l := keys) (by rintro rfl; simp at hkeys)
    rw [List.map_cons, List.map_cons, List.cons.injEq] at hkeys
    obtain ⟨hnotin, hnodup⟩ := List.nodup_cons.mp hnodup
    have hheld : (ChannelManager.save r client.id k f).held client.id = addKey (r.held client.id) k :=
      Function.update_self ..
    have hroom' := room_addKey hnotin hroom
    rw [← hheld] at hroom'
    unfold ChannelManager.saveEntries
    rw [addSubscription_eq hkeys.1 hroom f]
    dsimp only
    rw [ih hkeys.2 hnodup hroom', filterAt_save]
    by_cases hid : id = client.id <;> by_cases hk : key = k <;> by_cases hks : key ∈ keys <;> simp [hid, hk, hks]

/-- A subscribe that succeeds puts its filter under every key of its batch. -/
theorem filterAt_subscribe {client : Client} {channels params : Json} {r' : Registry} {done : Subscribed}
    (h : subscribe stringify maxSubscriptions r client channels params = (r', .ok done)) :
    ∃ keys : List Text, done.subscribed.map (Entry.key client.coin) = keys.map some ∧ keys.Nodup ∧
      ∀ key id, r'.filterAt key id = if id = client.id ∧ key ∈ keys then some done.filter else r.filterAt key id := by
  unfold subscribe at h
  split at h
  · exact absurd (Prod.mk.inj h).2 (by simp)
  · rename_i entries filter hprepare
    obtain ⟨keys, hbatch, hroom⟩ := room_of_prepare hprepare
    have hfilter := filterAt_saveEntries hbatch.keys_eq hbatch.nodup hroom filter
    split at h
    · exact absurd (Prod.mk.inj h).2 (by simp)
    · rename_i heq
      obtain ⟨rfl, hdone⟩ := Prod.mk.inj h
      obtain rfl := Except.ok.inj hdone
      rw [heq] at hfilter
      exact ⟨keys, hbatch.keys_eq, hbatch.nodup, hfilter⟩

/-- Some subscriptions of one client are gone, and nothing else has changed. -/
def Shrinks (r r' : Registry) (id : ℕ) : Prop :=
  ∀ key c, r'.filterAt key c = r.filterAt key c ∨ c = id ∧ r'.filterAt key c = none

theorem Shrinks.refl (r : Registry) (id : ℕ) : Shrinks r r id := fun _ _ => .inl rfl

theorem Shrinks.trans {r r' r'' : Registry} {id : ℕ} (h : Shrinks r r' id) (h' : Shrinks r' r'' id) :
    Shrinks r r'' id := by
  intro key c
  rcases h' key c with heq | hgone
  · rw [heq]
    exact h key c
  · exact .inr hgone

theorem shrinks_release (r : Registry) (id : ℕ) (key : Text) : Shrinks r (release r id key) id := by
  intro key' c
  rw [filterAt_release]
  by_cases hkey : key' = key ∧ c = id
  · exact .inr ⟨hkey.2, if_pos hkey⟩
  · exact .inl (if_neg hkey)

theorem shrinks_removeClient (r : Registry) (id : ℕ) : Shrinks r (removeClient r id) id := by
  intro key c
  rw [filterAt_removeClient]
  by_cases hid : c = id
  · exact .inr ⟨hid, if_pos hid⟩
  · exact .inl (if_neg hid)

theorem shrinks_removeEntries (client : Client) (entries : List Entry) (r : Registry) (done : Unsubscribed) :
    Shrinks r (removeEntries client r done entries).1 client.id := by
  induction entries generalizing r done with
  | nil => exact .refl r client.id
  | cons e entries ih =>
    unfold ChannelManager.removeEntries removeSubscription
    cases e.key client.coin with
    | none => exact .refl r client.id
    | some key => exact (shrinks_release r client.id key).trans (ih _ _)

variable (stringify) in
theorem shrinks_unsubscribe (client : Client) (params : Json) (channels : List Json) (r : Registry)
    (done : Unsubscribed) : Shrinks r (unsubscribe stringify client params r done channels).1 client.id := by
  induction channels generalizing r done with
  | nil => exact .refl r client.id
  | cons ch channels ih =>
    unfold ChannelManager.unsubscribe
    split
    · exact ih _ _
    · rename_i entries _
      have hremoved := shrinks_removeEntries client entries r done
      split
      · rename_i heq
        rw [heq] at hremoved
        exact hremoved
      · rename_i heq
        rw [heq] at hremoved
        exact hremoved.trans (ih _ _)

/-! ### Every run -/

theorem Consistent.step (h : Consistent stringify maxSubscriptions r) {op : Op} {r' : Registry}
    (hstep : step stringify maxSubscriptions r op = some r') : Consistent stringify maxSubscriptions r' := by
  cases op with
  | connect coin =>
    obtain rfl := Option.some.inj hstep
    refine ⟨h.mirrored, h.no_empty, h.nodup, h.limit, ?_, ?_⟩
    · intro id key hmem
      obtain ⟨coin', e, hclient, hnamed, hkey⟩ := h.named id key hmem
      have hne : id ≠ r.nextId := by
        rintro rfl
        rw [h.fresh _ le_rfl] at hclient
        exact absurd hclient (by simp)
      exact ⟨coin', e, (Function.update_of_ne hne _ _).trans hclient, hnamed, hkey⟩
    · intro id hid
      have hne : id ≠ r.nextId := by
        dsimp only at hid
        omega
      exact (Function.update_of_ne hne _ _).trans (h.fresh id (Nat.le_of_succ_le hid))
  | subscribe id channels params =>
    obtain ⟨coin, hclient, rfl⟩ := Option.map_eq_some_iff.mp hstep
    have hcoin : r.clients (Client.mk id coin).id = some coin := hclient
    exact Consistent.subscribe h hcoin channels params
  | unsubscribe id channels params =>
    obtain ⟨coin, -, rfl⟩ := Option.map_eq_some_iff.mp hstep
    exact h.unsubscribe ⟨id, coin⟩ params channels ⟨[], []⟩
  | removeClient id =>
    obtain rfl := Option.some.inj hstep
    exact h.removeClient id
  | close id =>
    obtain rfl := Option.some.inj hstep
    exact h.onClose id
  | spend key ids =>
    obtain rfl := Option.some.inj hstep
    exact h.removeOnceSubscriptions key ids

/-- The two indexes of the subscriptions agree after every run, within the limit and with no empty
    map; a subscribe that fails changes neither; every key held is read back into the entity it is
    the key of, and two entities never share one. -/
theorem subscriptions_consistent {ops : List Op} {r : Registry}
    (hrun : Runs.run (step stringify maxSubscriptions) Registry.empty ops = some r) :
    (∀ key id, key ∈ r.held id ↔ (r.filterAt key id).isSome = true) ∧
    (∀ key clientMap, r.subscriptions.lookup key = some clientMap → clientMap.entries ≠ []) ∧
    (∀ id, (r.held id).Nodup ∧ (r.held id).length ≤ maxSubscriptions) ∧
    (∀ client channels params r' f,
      subscribe stringify maxSubscriptions r client channels params = (r', .error f) → r' = r) ∧
    (∀ id, ∀ key ∈ r.held id, ∃ coin e, r.clients id = some coin ∧ Entry.Named stringify e ∧
      parseChannelKey key = some ⟨coin.1, some e.channel.name, e.entityKey⟩ ∧ e.key coin = some key) ∧
    (∀ coin coin' e e' key, Entry.Named stringify e → Entry.Named stringify e' → e.key coin = some key →
      e'.key coin' = some key → coin = coin' ∧ e = e') := by
  have hcons : Consistent stringify maxSubscriptions r := by
    refine Runs.run_inv' (I := Consistent stringify maxSubscriptions) ?_ consistent_empty hrun
    intro r op r' h hstep
    exact h.step hstep
  refine ⟨hcons.mirrored, hcons.no_empty, fun id => ⟨hcons.nodup id, hcons.limit id⟩, ?_, ?_, ?_⟩
  · intro client channels params r' f h
    exact subscribe_failed h
  · intro id key hmem
    obtain ⟨coin, e, hclient, hnamed, hkey⟩ := hcons.named id key hmem
    exact ⟨coin, e, hclient, hnamed, parse_build hnamed.fits hkey, hkey⟩
  · intro coin coin' e e' key hnamed hnamed' hkey hkey'
    obtain ⟨hcoin, hchannel, hentity⟩ := build_inj hnamed.fits hnamed'.fits hkey hkey'
    refine ⟨hcoin, ?_⟩
    cases e
    cases e'
    exact Entry.mk.injEq .. ▸ ⟨hchannel, hentity⟩

/-- A client of one coin that asks for the tick `A:B`. -/
def tickRun : List Op :=
  [.connect ⟨ofString "BTC", bitcoin_mem_validCoins⟩,
    .subscribe 1 (.array [.string (ofString "token")]) (.object [(ofString "tick", .string (ofString "A:B"))])]

theorem subscriptions_consistent_tick :
    ∃ r, Runs.run (step (fun _ => []) 25) Registry.empty tickRun = some r ∧
      r.held 1 = [ofString "BTC:token:A%3AB"] ∧
      ∀ key id, key ∈ r.held id ↔ (r.filterAt key id).isSome = true := by
  have hrun : Runs.run (step (fun _ => []) 25) Registry.empty tickRun = some _ := rfl
  exact ⟨_, hrun, by decide, (subscriptions_consistent hrun).1⟩

end ChannelManager
