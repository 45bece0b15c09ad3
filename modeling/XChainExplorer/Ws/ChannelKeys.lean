import Mathlib
import XChainExplorer.Lib.UriComponent

/-! # Channel keys

    A subscription is identified by a text, `COIN:channel` for a channel of the whole coin and
    `COIN:channel:entity` for one entity. The entity of a request comes from its JSON params: batch
    and singular forms, checked one by one. A key is parsed back into its coin, channel and entity
    whenever a frame names a subscription. -/

namespace ChannelManager

open JsText

/-! ### JSON -/

/-- A parsed JSON value. A number is given by its text. -/
inductive Json where
  | null
  | bool (b : Bool)
  | number (text : Text)
  | string (s : Text)
  | array (xs : List Json)
  | object (fields : List (Text × Json))

/-- What a condition takes for true. -/
def Json.truthy : Json → Bool
  | .null => false
  | .bool b => b
  | .number text => text ≠ ofString "0"
  | .string s => s ≠ []
  | .array _ | .object _ => true

/-- `params.name`, none for undefined. -/
def Json.field (params : Json) (name : String) : Option Json :=
  match params with
  | .object fields => (fields.find? fun f => f.1 = ofString name).map (·.2)
  | _ => none

/-- A field that is truthy. -/
def Json.given (params : Json) (name : String) : Option Json := (params.field name).filter Json.truthy

/-- A field that is an array. -/
def Json.list (params : Json) (name : String) : Option (List Json) :=
  match params.field name with
  | some (.array xs) => some xs
  | _ => none

mutual

/-- `String(value)`, none where it throws: an object whose `toString` is no function. -/
def Json.toText : Json → Option Text
  | .null => some (ofString "null")
  | .bool true => some (ofString "true")
  | .bool false => some (ofString "false")
  | .number text => some text
  | .string s => some s
  | .array xs => Json.joinText xs
  | .object fields =>
    if fields.any fun f => f.1 = ofString "toString" then none else some (ofString "[object Object]")

/-- The elements joined by commas, null as nothing. -/
def Json.joinText : List Json → Option Text
  | [] => some []
  | [.null] => some []
  | [x] => Json.toText x
  | .null :: y :: xs => (Json.joinText (y :: xs)).map ([44] ++ ·)
  | x :: y :: xs =>
    match Json.toText x, Json.joinText (y :: xs) with
    | some t, some rest => some (t ++ [44] ++ rest)
    | _, _ => none

end

section printable
-- `JSON.stringify`
variable (stringify : Json → Text)

/-- The text of a client-supplied value. -/
def printable (value : Json) : Text := value.toText.getD (stringify value)

end printable

/-! ### Channels -/

/-- The channels. -/
inductive Channel where
  | blocks | actions | mempool | network | attestation
  | address | token | market | dispenser | bet_feed | xcall
  deriving DecidableEq

/-- The name of a channel. -/
def Channel.name : Channel → Text
  | blocks => ofString "blocks"
  | actions => ofString "actions"
  | mempool => ofString "mempool"
  | network => ofString "network"
  | attestation => ofString "attestation"
  | address => ofString "address"
  | token => ofString "token"
  | market => ofString "market"
  | dispenser => ofString "dispenser"
  | bet_feed => ofString "bet_feed"
  | xcall => ofString "xcall"

/-- The channels of a whole coin. -/
def GLOBAL_CHANNELS : List Channel := [.blocks, .actions, .mempool, .network, .attestation]

/-- The channels of one entity each. -/
def ENTITY_CHANNELS : List Channel := [.address, .token, .market, .dispenser, .bet_feed, .xcall]

/-- Every channel. -/
def ALL_CHANNELS : List Channel := GLOBAL_CHANNELS ++ ENTITY_CHANNELS

/-- The channel that a value names. -/
def channelNamed (value : Json) : Option Channel :=
  match value with
  | .string s => ALL_CHANNELS.find? fun ch => ch.name = s
  | _ => none

/-- The coins a client can connect for. -/
def validCoins : List Text :=
  ["BTC", "TBTC", "RBTC", "LTC", "TLTC", "RLTC", "DOGE", "TDOGE", "RDOGE"].map ofString

/-- A coin that the server knows. -/
abbrev Coin := {coin : Text // coin ∈ validCoins}

theorem bitcoin_mem_validCoins : ofString "BTC" ∈ validCoins := by decide

/-! ### Keys -/

/-- The entity of a subscription. -/
inductive EntityKey where
  | address (address : Text)
  | tick (tick : Text)
  | pair (tick1 tick2 : Text)
  | action_index (action_index : Text)
  | call_id (call_id : Text)
  deriving DecidableEq

/-- `:` in front of a text. -/
def colon : CodeUnit := 58

/-- A part after a key. -/
def prefixed (key part : Text) : Text := key ++ colon :: part

/-- The key of a subscription, none where a tick cannot be encoded and the code throws. -/
def buildChannelKey (coin channel : Text) (entityKey : Option EntityKey) : Option Text :=
  let key := prefixed coin channel
  match entityKey with
  | none => some key
  | some (.address address) => some (if address = [] then key else prefixed key address)
  | some (.tick tick) =>
    if tick = [] then some key else (encodeURIComponent tick).map (prefixed key)
  | some (.pair tick1 tick2) =>
    if tick1 = [] then some key
    else
      match encodeURIComponent tick1, encodeURIComponent tick2 with
      | some first, some second => some (prefixed (prefixed key first) second)
      | _, _ => none
  | some (.action_index action_index) => some (prefixed key action_index)
  | some (.call_id call_id) => some (prefixed key call_id)

/-- A key taken apart. -/
structure ParsedKey where
  coin : Text
  channel : Option Text
  entityKey : Option EntityKey
  deriving DecidableEq

/-- The entity behind a channel's name, none where its text is malformed and the code throws. -/
def parseEntity (channel : Text) (parts : List Text) : Option (Option EntityKey) :=
  match parts with
  | [] => some none
  | part :: rest =>
    if channel = Channel.address.name then some (some (.address ([colon].intercalate (part :: rest))))
    else if channel = Channel.token.name then (decodeURIComponent part).map fun tick => some (.tick tick)
    else if channel = Channel.market.name then
      match rest with
      | [] => some none
      | second :: _ =>
        match decodeURIComponent part, decodeURIComponent second with
        | some tick1, some tick2 => some (some (.pair tick1 tick2))
        | _, _ => none
    else if channel = Channel.dispenser.name ∨ channel = Channel.bet_feed.name then
      some (some (.action_index part))
    else if channel = Channel.xcall.name then some (some (.call_id part))
    else some none

/-- A key back into its components. -/
def parseChannelKey (channelKey : Text) : Option ParsedKey :=
  match channelKey.splitOn colon with
  | coin :: channel :: parts =>
    (parseEntity channel parts).map fun entityKey => ⟨coin, some channel, entityKey⟩
  | [coin] => some ⟨coin, none, none⟩
  | [] => some ⟨[], none, none⟩

/-! ### The entities of a request -/

/-- What a client is told. -/
structure Refusal where
  code : String
  message : Text

/-- How a request fails: with an answer, or with an exception. -/
inductive Failure where
  | refused (r : Refusal)
  | thrown

/-- The refusal of a channel's parameters. -/
def refuse (message : Text) : Failure := .refused ⟨"INVALID_CHANNEL", message⟩

/-- An address has to be a text. -/
def addressKey : Json → Except Failure EntityKey
  | .string (c :: cs) => .ok (.address (c :: cs))
  | _ => .error (refuse (ofString "address channel address must be a non-empty string"))

/-- The addresses of a request: the list before the single one. -/
def addressKeys (params : Json) : Except Failure (List EntityKey) :=
  match params.list "addresses", params.given "address" with
  | some addresses, _ => addresses.mapM addressKey
  | none, some address => [address].mapM addressKey
  | none, none =>
    .error (refuse (ofString "address channel requires address or addresses param"))

/-- A tick of a channel: a non-empty string. -/
def tickText (channel : Channel) : Json → Except Failure Text
  | .string (c :: cs) => .ok (c :: cs)
  | _ => .error (refuse (channel.name ++ ofString " channel ticks must be non-empty strings"))

/-- The key of a tick. -/
def tickKey (tick : Json) : Except Failure EntityKey := (tickText .token tick).map .tick

/-- The ticks of a request: the single one before the list. -/
def tokenKeys (params : Json) : Except Failure (List EntityKey) :=
  match params.given "tick", params.list "ticks" with
  | some tick, _ => [tick].mapM tickKey
  | none, some ticks => ticks.mapM tickKey
  | none, none => .error (refuse (ofString "token channel requires tick or ticks param"))

/-- The key of a market. -/
def pairKey (pair : Json × Json) : Except Failure EntityKey := do
  let tick1 ← tickText .market pair.1
  let tick2 ← tickText .market pair.2
  return .pair tick1 tick2

/-- The pairs of a batch; what is no array of two is passed over. -/
def pairOf : Json → Option (Json × Json)
  | .array [tick1, tick2] => some (tick1, tick2)
  | _ => none

/-- The markets of a request. -/
def marketKeys (params : Json) : Except Failure (List EntityKey) :=
  match params.list "pairs", params.given "tick1", params.given "tick2" with
  | some pairs, _, _ => (pairs.filterMap pairOf).mapM pairKey
  | none, some tick1, some tick2 => [(tick1, tick2)].mapM pairKey
  | none, _, _ => .error (refuse (ofString "market channel requires tick1+tick2 or pairs param"))

/-- `[0-9]`. -/
def isDigit (c : CodeUnit) : Bool := decide (48 ≤ c.val ∧ c.val ≤ 57)

/-- `/^(0|[1-9][0-9]*)$/`. -/
def isCanonicalIndex : Text → Bool
  | [] => false
  | c :: cs => (c = 48 && cs = []) || (isDigit c && c ≠ 48 && cs.all isDigit)

/-- `/^[0-9a-f]{64}$/`. -/
def isCanonicalCallId (s : Text) : Bool :=
  s.length = 64 && s.all fun c => isDigit c || decide (97 ≤ c.val ∧ c.val ≤ 102)

/-- `toLowerCase` as far as a call id can tell: no letter beyond ASCII lowers to a hex digit. -/
def toLowerCase (s : Text) : Text :=
  s.map fun c => if 65 ≤ c.val ∧ c.val ≤ 90 then Fin.ofNat 65536 (c.val + 32) else c

section resolve
variable (stringify : Json → Text)

/-- The key of an action, by its canonical index. -/
def indexKey (channel : Channel) (idx : Json) : Except Failure EntityKey :=
  let str := printable stringify idx
  if isCanonicalIndex str then .ok (.action_index str)
  else .error (refuse (channel.name ++ ofString " channel action_index must be a canonical decimal integer (got: " ++
    str ++ ofString ")"))

/-- The actions of a request. -/
def actionIndexKeys (channel : Channel) (params : Json) : Except Failure (List EntityKey) :=
  match params.list "action_indexes", params.field "action_index" with
  | some indexes, _ => indexes.mapM (indexKey stringify channel)
  | none, some idx => [idx].mapM (indexKey stringify channel)
  | none, none =>
    .error (refuse (channel.name ++ ofString " channel requires action_index or action_indexes param"))

/-- The key of a cross-chain call, in lower case. -/
def callKey (id : Json) : Except Failure EntityKey :=
  let shown := printable stringify id
  let str := toLowerCase shown
  if isCanonicalCallId str then .ok (.call_id str)
  else .error (refuse (ofString "xcall channel call_id must be a 64-character hex string (got: " ++ shown ++
    ofString ")"))

/-- The calls of a request. -/
def callIdKeys (params : Json) : Except Failure (List EntityKey) :=
  match params.list "call_ids", params.field "call_id" with
  | some ids, _ => ids.mapM (callKey stringify)
  | none, some id => [id].mapM (callKey stringify)
  | none, none => .error (refuse (ofString "xcall channel requires call_id or call_ids param"))

/-- The resolver of a channel. -/
def entityKeys (channel : Channel) (params : Json) : Except Failure (List EntityKey) :=
  match channel with
  | .address => addressKeys params
  | .token => tokenKeys params
  | .market => marketKeys params
  | .dispenser | .bet_feed => actionIndexKeys stringify channel params
  | .xcall => callIdKeys stringify params
  | _ => .error (refuse (ofString "Unknown entity channel: " ++ channel.name))

/-- The entities that a request's params name for a channel. -/
def resolveEntityKeys (channel : Channel) (params : Json) : Except Failure (List EntityKey) :=
  match entityKeys stringify channel params with
  | .error f => .error f
  | .ok [] => .error (refuse (ofString "No entity keys resolved for channel: " ++ channel.name))
  | .ok (k :: ks) => .ok (k :: ks)

end resolve

/-! ### Keys and their entities -/

/-- The entities that name something on a channel. -/
inductive Fits : Channel → Option EntityKey → Prop where
  | global {channel : Channel} (h : channel ∈ GLOBAL_CHANNELS) : Fits channel none
  | address {a : Text} (h : a ≠ []) : Fits .address (some (.address a))
  | token {t : Text} (h : t ≠ []) : Fits .token (some (.tick t))
  | market {t u : Text} (h : t ≠ []) (h' : u ≠ []) : Fits .market (some (.pair t u))
  | dispenser {i : Text} (h : isCanonicalIndex i = true) : Fits .dispenser (some (.action_index i))
  | bet_feed {i : Text} (h : isCanonicalIndex i = true) : Fits .bet_feed (some (.action_index i))
  | xcall {c : Text} (h : isCanonicalCallId c = true) : Fits .xcall (some (.call_id c))

theorem colon_notMem_coin (coin : Coin) : colon ∉ coin.1 := by
  have hall : ∀ c ∈ validCoins, colon ∉ c := by decide
  exact hall coin.1 coin.2

theorem colon_notMem_name (channel : Channel) : colon ∉ channel.name := by
  cases channel <;> decide

theorem name_injective : Function.Injective Channel.name := by
  intro a b h
  cases a <;> cases b <;> first | rfl | exact absurd h (by decide)

theorem colon_notMem_encode {s t : Text} (h : encodeURIComponent s = some t) : colon ∉ t := by
  intro hmem
  exact absurd ((encodes_of_encode h).isComponentUnit colon hmem) (by decide)

theorem colon_notMem_of_isDigit {cs : Text} (h : ∀ c ∈ cs, isDigit c = true) : colon ∉ cs := by
  intro hmem
  exact absurd (h colon hmem) (by decide)

theorem colon_notMem_index {i : Text} (h : isCanonicalIndex i = true) : colon ∉ i := by
  cases i with
  | nil => simp
  | cons c cs =>
    simp only [isCanonicalIndex, Bool.or_eq_true, Bool.and_eq_true, decide_eq_true_eq, List.all_eq_true] at h
    rcases h with ⟨rfl, rfl⟩ | ⟨⟨hc, -⟩, hcs⟩
    · decide
    · exact colon_notMem_of_isDigit (List.forall_mem_cons.mpr ⟨hc, hcs⟩)

theorem colon_notMem_callId {c : Text} (h : isCanonicalCallId c = true) : colon ∉ c := by
  simp only [isCanonicalCallId, Bool.and_eq_true, List.all_eq_true] at h
  intro hmem
  exact absurd (h.2 colon hmem) (by decide)

theorem split_prefixed (key part : Text) :
    (prefixed key part).splitOn colon = key.splitOn colon ++ part.splitOn colon :=
  List.splitOn_append_cons_self key part

theorem split_channel (coin : Coin) (channel : Channel) :
    (prefixed coin.1 channel.name).splitOn colon = [coin.1, channel.name] := by
  rw [split_prefixed, List.splitOn_eq_singleton (colon_notMem_coin coin),
    List.splitOn_eq_singleton (colon_notMem_name channel)]
  rfl

/-- A key with an entity is read back through the parts of its entity. -/
theorem parse_prefixed (coin : Coin) (channel : Channel) (part : Text) :
    parseChannelKey (prefixed (prefixed coin.1 channel.name) part) =
      (parseEntity channel.name (part.splitOn colon)).map fun e => ⟨coin.1, some channel.name, e⟩ := by
  rw [parseChannelKey, split_prefixed, split_channel]
  rfl

/-- The key of a subscription is parsed into its coin, its channel and its entity. -/
theorem parse_build {coin : Coin} {channel : Channel} {e : Option EntityKey} {key : Text}
    (hfits : Fits channel e) (h : buildChannelKey coin.1 channel.name e = some key) :
    parseChannelKey key = some ⟨coin.1, some channel.name, e⟩ := by
  cases hfits with
  | global hglobal =>
    obtain rfl := Option.some.inj h
    rw [parseChannelKey, split_channel]
    rfl
  | @address a hne =>
    simp only [buildChannelKey, if_neg hne, Option.some.injEq] at h
    rw [← h, parse_prefixed]
    obtain ⟨p, ps, hsplit⟩ := List.exists_cons_of_ne_nil (List.splitOn_ne_nil colon a)
    have hjoin : [colon].intercalate (a.splitOn colon) = a := List.intercalate_splitOn colon
    have hentity : parseEntity Channel.address.name (p :: ps) = some (some (.address a)) := by
      unfold parseEntity
      dsimp only
      rw [if_pos rfl, ← hsplit, hjoin]
    rw [hsplit, hentity]
    rfl
  | @token t hne =>
    simp only [buildChannelKey, if_neg hne] at h
    obtain ⟨e, he, rfl⟩ := Option.map_eq_some_iff.mp h
    rw [parse_prefixed, List.splitOn_eq_singleton (colon_notMem_encode he), parseEntity,
      if_neg (by decide), if_pos rfl, decode_encode he]
    rfl
  | @market t u hne hne' =>
    simp only [buildChannelKey, if_neg hne] at h
    split at h
    · rename_i e f he hf
      obtain rfl := Option.some.inj h
      have hentity : parseEntity Channel.market.name [e, f] = some (some (.pair t u)) := by
        unfold parseEntity
        dsimp only
        rw [if_neg (by decide), if_neg (by decide), if_pos rfl, decode_encode he, decode_encode hf]
      rw [parseChannelKey, split_prefixed, split_prefixed, split_channel,
        List.splitOn_eq_singleton (colon_notMem_encode he), List.splitOn_eq_singleton (colon_notMem_encode hf)]
      simp only [List.cons_append, List.nil_append, hentity, Option.map_some]
    · exact absurd h (by simp)
  | dispenser hi | bet_feed hi =>
    simp only [buildChannelKey, Option.some.injEq] at h
    rw [← h, parse_prefixed, List.splitOn_eq_singleton (colon_notMem_index hi), parseEntity,
      if_neg (by decide), if_neg (by decide), if_neg (by decide), if_pos (by decide)]
    rfl
  | xcall hc =>
    simp only [buildChannelKey, Option.some.injEq] at h
    rw [← h, parse_prefixed, List.splitOn_eq_singleton (colon_notMem_callId hc), parseEntity,
      if_neg (by decide), if_neg (by decide), if_neg (by decide), if_neg (by decide), if_pos rfl]
    rfl

/-- Two entities never share a key. -/
theorem build_inj {coin coin' : Coin} {channel channel' : Channel} {e e' : Option EntityKey} {key : Text}
    (hfits : Fits channel e) (hfits' : Fits channel' e') (h : buildChannelKey coin.1 channel.name e = some key)
    (h' : buildChannelKey coin'.1 channel'.name e' = some key) : coin = coin' ∧ channel = channel' ∧ e = e' := by
  have heq := (parse_build hfits h).symm.trans (parse_build hfits' h')
  simp only [Option.some.injEq, ParsedKey.mk.injEq] at heq
  exact ⟨Subtype.ext heq.1, name_injective heq.2.1, heq.2.2⟩

/-! ### What a request resolves to -/

variable {stringify : Json → Text} {params : Json} {channel : Channel} {keys : List EntityKey}

theorem mem_mapM {α β ε : Type*} {f : α → Except ε β} {xs : List α} {ys : List β} (h : xs.mapM f = .ok ys) :
    ∀ y ∈ ys, ∃ x ∈ xs, f x = .ok y := by
  induction xs generalizing ys with
  | nil =>
    simp only [List.mapM_nil, pure, Except.pure, Except.ok.injEq] at h
    simp [← h]
  | cons x xs ih =>
    rw [List.mapM_cons] at h
    cases hx : f x with
    | error e => simp [hx, bind, Except.bind] at h
    | ok y =>
      cases hxs : xs.mapM f with
      | error e => simp [hx, hxs, bind, Except.bind] at h
      | ok ys' =>
        simp only [hx, hxs, bind, Except.bind, pure, Except.pure, Except.ok.injEq] at h
        intro y' hy'
        rw [← h] at hy'
        rcases List.mem_cons.mp hy' with rfl | hy'
        · exact ⟨x, by simp, hx⟩
        · obtain ⟨x', hx', hy'⟩ := ih hxs y' hy'
          exact ⟨x', by simp [hx'], hy'⟩

/-- What every step of a checked loop preserves holds of its result. -/
theorem foldlM_inv {α β ε : Type*} {P : β → Prop} {f : β → α → Except ε β} {xs : List α}
    (hstep : ∀ acc acc', ∀ x ∈ xs, P acc → f acc x = .ok acc' → P acc') {acc res : β} (hacc : P acc)
    (h : xs.foldlM f acc = .ok res) : P res := by
  induction xs generalizing acc with
  | nil =>
    simp only [List.foldlM_nil, pure, Except.pure, Except.ok.injEq] at h
    exact h ▸ hacc
  | cons x xs ih =>
    rw [List.foldlM_cons] at h
    cases hx : f acc x with
    | error e => simp [hx, bind, Except.bind] at h
    | ok acc' =>
      simp only [hx, bind, Except.bind] at h
      refine ih ?_ (hstep _ _ x (by simp) hacc hx) h
      intro acc acc' x' hx'
      exact hstep acc acc' x' (by simp [hx'])

theorem fits_addressKey {x : Json} {k : EntityKey} (h : addressKey x = .ok k) : Fits .address (some k) := by
  unfold addressKey at h
  split at h
  · obtain rfl := Except.ok.inj h
    exact .address (by simp)
  · exact absurd h (by simp)

theorem tickText_ne_nil {x : Json} {t : Text} (h : tickText channel x = .ok t) : t ≠ [] := by
  unfold tickText at h
  split at h
  · obtain rfl := Except.ok.inj h
    simp
  · exact absurd h (by simp)

theorem fits_tickKey {x : Json} {k : EntityKey} (h : tickKey x = .ok k) : Fits .token (some k) := by
  unfold tickKey at h
  cases ht : tickText .token x with
  | error e => simp [ht, Except.map] at h
  | ok t =>
    simp only [ht, Except.map, Except.ok.injEq] at h
    exact h ▸ .token (tickText_ne_nil ht)

theorem fits_pairKey {x : Json × Json} {k : EntityKey} (h : pairKey x = .ok k) : Fits .market (some k) := by
  unfold pairKey at h
  cases ht : tickText .market x.1 with
  | error e => simp [ht, bind, Except.bind] at h
  | ok t =>
    cases hu : tickText .market x.2 with
    | error e => simp [ht, hu, bind, Except.bind] at h
    | ok u =>
      simp only [ht, hu, bind, Except.bind, pure, Except.pure, Except.ok.injEq] at h
      exact h ▸ .market (tickText_ne_nil ht) (tickText_ne_nil hu)

theorem fits_addressKeys (h : addressKeys params = .ok keys) : ∀ k ∈ keys, Fits .address (some k) := by
  unfold addressKeys at h
  intro k hk
  split at h
  · obtain ⟨x, -, hx⟩ := mem_mapM h k hk
    exact fits_addressKey hx
  · obtain ⟨x, -, hx⟩ := mem_mapM h k hk
    exact fits_addressKey hx
  · exact absurd h (by simp)

theorem fits_tokenKeys (h : tokenKeys params = .ok keys) : ∀ k ∈ keys, Fits .token (some k) := by
  unfold tokenKeys at h
  intro k hk
  split at h
  · obtain ⟨x, -, hx⟩ := mem_mapM h k hk
    exact fits_tickKey hx
  · obtain ⟨x, -, hx⟩ := mem_mapM h k hk
    exact fits_tickKey hx
  · exact absurd h (by simp)

theorem fits_marketKeys (h : marketKeys params = .ok keys) : ∀ k ∈ keys, Fits .market (some k) := by
  unfold marketKeys at h
  intro k hk
  split at h
  · obtain ⟨x, -, hx⟩ := mem_mapM h k hk
    exact fits_pairKey hx
  · obtain ⟨x, -, hx⟩ := mem_mapM h k hk
    exact fits_pairKey hx
  · exact absurd h (by simp)

/-- An action index names a market or a dispenser. -/
theorem canonical_actionIndexKeys (h : actionIndexKeys stringify channel params = .ok keys) :
    ∀ k ∈ keys, ∃ i, isCanonicalIndex i = true ∧ k = .action_index i := by
  have hkey : ∀ {x : Json} {k : EntityKey}, indexKey stringify channel x = .ok k →
      ∃ i, isCanonicalIndex i = true ∧ k = .action_index i := by
    intro x k hx
    unfold indexKey at hx
    dsimp only at hx
    split at hx
    · rename_i hcanon
      exact ⟨_, hcanon, (Except.ok.inj hx).symm⟩
    · exact absurd hx (by simp)
  unfold actionIndexKeys at h
  intro k hk
  split at h
  · obtain ⟨x, -, hx⟩ := mem_mapM h k hk
    exact hkey hx
  · obtain ⟨x, -, hx⟩ := mem_mapM h k hk
    exact hkey hx
  · exact absurd h (by simp)

theorem fits_callIdKeys (h : callIdKeys stringify params = .ok keys) : ∀ k ∈ keys, Fits .xcall (some k) := by
  have hkey : ∀ {x : Json} {k : EntityKey}, callKey stringify x = .ok k → Fits .xcall (some k) := by
    intro x k hx
    unfold callKey at hx
    dsimp only at hx
    split at hx
    · rename_i hcanon
      exact Except.ok.inj hx ▸ .xcall hcanon
    · exact absurd hx (by simp)
  unfold callIdKeys at h
  intro k hk
  split at h
  · obtain ⟨x, -, hx⟩ := mem_mapM h k hk
    exact hkey hx
  · obtain ⟨x, -, hx⟩ := mem_mapM h k hk
    exact hkey hx
  · exact absurd h (by simp)

theorem fits_entityKeys (h : entityKeys stringify channel params = .ok keys) :
    ∀ k ∈ keys, Fits channel (some k) := by
  cases channel with
  | address => exact fits_addressKeys h
  | token => exact fits_tokenKeys h
  | market => exact fits_marketKeys h
  | dispenser =>
    intro k hk
    obtain ⟨i, hi, rfl⟩ := canonical_actionIndexKeys h k hk
    exact .dispenser hi
  | bet_feed =>
    intro k hk
    obtain ⟨i, hi, rfl⟩ := canonical_actionIndexKeys h k hk
    exact .bet_feed hi
  | xcall => exact fits_callIdKeys h
  | blocks | actions | mempool | network | attestation => exact absurd h (by simp [entityKeys])

/-- Every entity that params resolve to names something on its channel. -/
theorem fits_resolveEntityKeys (h : resolveEntityKeys stringify channel params = .ok keys) :
    ∀ k ∈ keys, Fits channel (some k) := by
  unfold resolveEntityKeys at h
  split at h
  · exact absurd h (by simp)
  · exact absurd h (by simp)
  · rename_i hks
    exact Except.ok.inj h ▸ fits_entityKeys hks

end ChannelManager
