import XChainExplorer.Lib.JsNumber
import XChainExplorer.Lib.KeyedFold
import Mathlib.Data.List.Dedup
import Mathlib.Tactic.Abel
import Mathlib.Algebra.Module.Prod
import Mathlib.Algebra.Module.Rat

/-! # One order and a page of orders

    `getOrderInfo` reads one order with its edits and what its matches left of it, `getOrderInfoBatch` the
    same for a list of orders in five statements. Amounts are what the two read from the columns and what
    the decimal library makes of them; both go through the same `bcsub` and `getPrice`. -/

namespace OrderReaders

/-! ### The tables -/

/-- A row of `orders`. -/
structure Order (Amount : Type) where
  give_coin_id : Option ℕ
  give_tick_id : Option ℕ
  give_amount : Amount
  get_coin_id : Option ℕ
  get_tick_id : Option ℕ
  get_amount : Amount
  get_address_id : Option ℕ
  expiration : Option ℕ
  allow_list : Option ℕ
  block_list : Option ℕ
  memo_id : Option ℕ
  status_id : Option ℕ

/-- A row of `actions`. -/
structure Action where
  block_index : ℕ
  tx_index : Option ℕ
  source_id : Option ℕ

/-- A row of `blocks`. -/
structure Block where
  block_index : Option ℕ
  block_time : Option ℕ

/-- A row that sets the status of an order. -/
structure OrderStatus where
  action_index : ℕ
  order_action_index : ℕ
  status_id : Option ℕ

/-- A row that edits an order. -/
structure OrderEdit where
  action_index : ℕ
  order_action_index : ℕ
  expiration : Option ℕ
  allow_list : Option ℕ
  block_list : Option ℕ
  status_id : Option ℕ

/-- A row that matches two orders. -/
structure OrderMatch (Amount : Type) where
  action_index : ℕ
  give_action_index : ℕ
  give_amount : Amount
  get_action_index : ℕ
  get_amount : Amount
  status_id : Option ℕ

/-- What the readers join. A table with a unique key is a lookup by it; edits and matches stand in the order
    of their unique `action_index`; blocks and statuses have none. -/
structure Db (Amount : Type) where
  orders : ℕ → Option (Order Amount)
  actions : ℕ → Option Action
  blocks : List Block
  /-- `source_id` by `tx_index`. -/
  transactions : ℕ → Option (Option ℕ)
  order_statuses : List OrderStatus
  order_edits : List OrderEdit
  order_matches : List (OrderMatch Amount)
  index_addresses : ℕ → Option String
  index_tickers : ℕ → Option String
  index_coins : ℕ → Option String
  index_memos : ℕ → Option String
  index_statuses : ℕ → Option String
  edits_ordered : order_edits.Pairwise fun a b => a.action_index < b.action_index
  matches_ordered : order_matches.Pairwise fun a b => a.action_index < b.action_index

/-- What the order row is joined to. -/
structure Names where
  give_tick : Option String
  give_coin : String
  get_coin : String
  get_tick : Option String
  source : String
  get_address : String
  memo : Option String
  status : String
  order_status : String
  block_index : ℕ
  block_time : Option ℕ
  deriving DecidableEq

/-- A row of `ORDER_INFO_QUERY`. -/
structure Row (Amount : Type) where
  action_index : ℕ
  give_amount : Amount
  get_amount : Amount
  expiration : Option ℕ
  allow_list : Option ℕ
  block_list : Option ℕ
  names : Names

section Queries
variable {Amount : Type} (db : Db Amount)

/-- `s.status IN (...)` over the joined status. -/
def Db.hasStatus (status_id : Option ℕ) (texts : List String) : Bool :=
  match status_id.bind db.index_statuses with
  | some status => status ∈ texts
  | none => false

/-- The status rows with the order's greatest `action_index`. -/
def Db.latestStatuses (idx : ℕ) : List OrderStatus :=
  db.order_statuses.filter fun s => s.order_action_index = idx &&
    db.order_statuses.all fun s' => s'.order_action_index ≠ idx || s'.action_index ≤ s.action_index

/-- The tables joined to an order row. -/
def Db.joined (idx : ℕ) (o : Order Amount) : List Names := do
  let a ← (db.actions idx).toList
  let b ← db.blocks.filter fun b => b.block_index = some a.block_index
  let source ← ((a.source_id.or ((a.tx_index.bind db.transactions).bind id)).bind db.index_addresses).toList
  let get_address ← (o.get_address_id.bind db.index_addresses).toList
  let get_coin ← (o.get_coin_id.bind db.index_coins).toList
  let give_coin ← (o.give_coin_id.bind db.index_coins).toList
  let s1 ← db.latestStatuses idx
  let status ← (o.status_id.bind db.index_statuses).toList
  let order_status ← (s1.status_id.bind db.index_statuses).toList
  return {
    give_tick := o.give_tick_id.bind db.index_tickers
    give_coin := give_coin
    get_coin := get_coin
    get_tick := o.get_tick_id.bind db.index_tickers
    source := source
    get_address := get_address
    memo := o.memo_id.bind db.index_memos
    status := status
    order_status := order_status
    block_index := a.block_index
    block_time := b.block_time }

/-- The row that the query answers for an order. -/
def Order.row (o : Order Amount) (idx : ℕ) (names : Names) : Row Amount where
  action_index := idx
  give_amount := o.give_amount
  get_amount := o.get_amount
  expiration := o.expiration
  allow_list := o.allow_list
  block_list := o.block_list
  names := names

/-- The rows of `ORDER_INFO_QUERY` for one order, before its `LIMIT`. -/
def Db.infoRows (idx : ℕ) : List (Row Amount) :=
  match db.orders idx with
  | some o => (db.joined idx o).map (o.row idx)
  | none => []

/-- The valid edits of the listed orders. -/
def Db.validEdits (idxs : List ℕ) : List OrderEdit :=
  db.order_edits.filter fun e => e.order_action_index ∈ idxs && db.hasStatus e.status_id ["valid"]

/-- The opening amounts of a valid order. -/
def Db.opening (idx : ℕ) : Option (Amount × Amount) :=
  match db.orders idx with
  | some o => if db.hasStatus o.status_id ["valid"] then some (o.give_amount, o.get_amount) else none
  | none => none

/-- The statuses of the matches that take from an order. -/
def ORDER_MATCH_HOLDING_STATUSES : List String := ["valid", "pending_coinpay"]

/-- The holding matches with one of the listed orders on a side. -/
def Db.holdingMatches (idxs : List ℕ) : List (OrderMatch Amount) :=
  db.order_matches.filter fun m => (m.give_action_index ∈ idxs || m.get_action_index ∈ idxs) &&
    db.hasStatus m.status_id ORDER_MATCH_HOLDING_STATUSES

end Queries

/-! ### Values -/

/-- A number; nothing stands for infinity. -/
abbrev Num := Option ℚ

/-- `Number(value)` of a BIGINT. -/
def number (n : ℕ) : Num := JsNumber.roundToDouble n

/-- The same, where the column may be null. -/
def numberOf : Option ℕ → Num
  | some n => number n
  | none => some 0

/-- `if(edit.field)`: set, and not the number 0. -/
def truthy : Option Num → Bool
  | some q => q ≠ some 0
  | none => false

/-- What the `expiration` of an order object is: the BIGINT of the column as it came, or the number of an edit. -/
inductive Expiration where
  | column (value : Option ℕ)
  | edited (value : Num)

/-- The order as it is served. -/
structure OrderObject (Amount : Type) where
  action_index : ℕ
  give_amount : Amount
  get_amount : Amount
  expiration : Expiration
  allow_list : Num
  block_list : Num
  names : Names
  give_price : Option Amount
  get_price : Option Amount
  give_remaining : Option Amount
  get_remaining : Option Amount

/-- The object of a row, with its lists as numbers. -/
def Row.object {Amount : Type} (r : Row Amount) : OrderObject Amount where
  action_index := r.action_index
  give_amount := r.give_amount
  get_amount := r.get_amount
  expiration := .column r.expiration
  allow_list := numberOf r.allow_list
  block_list := numberOf r.block_list
  names := r.names
  give_price := none
  get_price := none
  give_remaining := none
  get_remaining := none

/-- What `getOrderInfo` returns: `ksort(false)` is an object without keys. -/
inductive Reply (Amount : Type) where
  | empty
  | order (o : OrderObject Amount)

section Readers
variable {Amount : Type} (bcsub getPrice : Amount → Amount → Amount) (zero : Amount) (db : Db Amount)

/-- What a match takes off the two sides of an order. -/
def takeOff (idx : ℕ) (remaining : Amount × Amount) (m : OrderMatch Amount) : Amount × Amount :=
  let give_amount := if m.get_action_index = idx then m.give_amount else m.get_amount
  let get_amount := if m.get_action_index = idx then m.get_amount else m.give_amount
  (bcsub remaining.1 give_amount, bcsub remaining.2 get_amount)

/-! ### getOrderInfo -/

/-- What the edits of an order left. -/
structure EditInfo where
  expiration : Option Num
  allow_list : Option Num
  block_list : Option Num

/-- A column that is null leaves what an earlier edit set. -/
def EditInfo.read (edit : EditInfo) (e : OrderEdit) : EditInfo where
  expiration := (e.expiration.map number).or edit.expiration
  allow_list := (e.allow_list.map number).or edit.allow_list
  block_list := (e.block_list.map number).or edit.block_list

/-- The edits of one order, the last one standing. -/
def getOrderEditInfo (idx : ℕ) : EditInfo := (db.validEdits [idx]).foldl EditInfo.read ⟨none, none, none⟩

/-- What the matches left of one order. -/
def getOrderAmountsRemaining (idx : ℕ) : Amount × Amount :=
  (db.holdingMatches [idx]).foldl (takeOff bcsub idx) ((db.opening idx).getD (zero, zero))

/-- `if(edit.field) order.field = edit.field`. -/
def OrderObject.applyEdit (o : OrderObject Amount) (edit : EditInfo) : OrderObject Amount :=
  { o with
    expiration := if truthy edit.expiration then .edited (edit.expiration.getD none) else o.expiration
    allow_list := if truthy edit.allow_list then edit.allow_list.getD none else o.allow_list
    block_list := if truthy edit.block_list then edit.block_list.getD none else o.block_list }

/-- The order with its prices. -/
def OrderObject.setPrices (o : OrderObject Amount) : OrderObject Amount :=
  { o with
    give_price := some (getPrice o.get_amount o.give_amount)
    get_price := some (getPrice o.give_amount o.get_amount) }

/-- The order with what is left of it. -/
def OrderObject.setRemaining (o : OrderObject Amount) (remaining : Amount × Amount) : OrderObject Amount :=
  { o with give_remaining := some remaining.1, get_remaining := some remaining.2 }

/-- The answer to `ORDER_INFO_QUERY` is given; the query takes its first row. -/
def getOrderInfo (answer : List (Row Amount)) (idx : ℕ) : Reply Amount :=
  match answer.head? with
  | some r => .order (((r.object.applyEdit (getOrderEditInfo db idx)).setPrices getPrice).setRemaining
      (getOrderAmountsRemaining bcsub zero db idx))
  | none => .empty

/-! ### getOrderInfoBatch -/

/-- The orders of a page, by their index. -/
def orderInfoBatchRows (answer : List (Row Amount)) : ℕ → Option (OrderObject Amount) :=
  answer.foldl (fun map r => KeyedFold.modify map r.action_index fun _ => some r.object) fun _ => none

/-- The columns of an edit that are not null, over the order. -/
def OrderObject.overwrite (o : OrderObject Amount) (e : OrderEdit) : OrderObject Amount :=
  { o with
    expiration := (e.expiration.map fun n => .edited (number n)).getD o.expiration
    allow_list := (e.allow_list.map number).getD o.allow_list
    block_list := (e.block_list.map number).getD o.block_list }

/-- The edits of all of them. -/
def applyOrderEditsBatch (idxs : List ℕ) (orderMap : ℕ → Option (OrderObject Amount)) : ℕ → Option (OrderObject Amount) :=
  (db.validEdits idxs).foldl (fun map e =>
    KeyedFold.modify map e.order_action_index fun o => o.map fun o => o.overwrite e) orderMap

/-- The amounts they were opened with. -/
def orderOpeningAmounts (idxs : List ℕ) : ℕ → Option (Amount × Amount) := fun idx =>
  if idx ∈ idxs then db.opening idx else none

/-- A match at one of the listed indexes. -/
def subtractMatch (m : OrderMatch Amount) (idx : ℕ) (remaining : Option (Amount × Amount)) : Option (Amount × Amount) :=
  if m.give_action_index = idx ∨ m.get_action_index = idx then
    remaining.map fun remaining => takeOff bcsub idx remaining m
  else remaining

/-- One pass over the listed indexes for every match. -/
def subtractOrderMatches (idxs : List ℕ) (remainingMap : ℕ → Option (Amount × Amount)) : ℕ → Option (Amount × Amount) :=
  (db.holdingMatches idxs).foldl (fun map m =>
    idxs.foldl (fun map idx => KeyedFold.modify map idx (subtractMatch bcsub m idx)) map) remainingMap

/-- An order without opening amounts gets no remaining ones. -/
def OrderObject.finish (o : OrderObject Amount) (remaining : Option (Amount × Amount)) : OrderObject Amount :=
  match remaining with
  | some remaining => (o.setPrices getPrice).setRemaining remaining
  | none => o.setPrices getPrice

/-- The orders of a page as they are served. -/
def getOrderInfoBatch (answer : List (Row Amount)) (idxs : List ℕ) : ℕ → Option (Reply Amount) :=
  let orderMap := applyOrderEditsBatch db idxs (orderInfoBatchRows answer)
  let remainingMap := subtractOrderMatches bcsub db idxs (orderOpeningAmounts db idxs)
  let finished := idxs.foldl (fun map idx =>
    KeyedFold.modify map idx fun o => o.map fun o => o.finish getPrice (remainingMap idx)) orderMap
  fun idx => (finished idx).map .order

end Readers

/-! ### What the loops of the batch leave for one order -/

section Batch
variable {Amount : Type} {bcsub getPrice : Amount → Amount → Amount} {zero : Amount} {db : Db Amount}

/-- What the last valid edit to give a column gives it. -/
def Db.lastEdit (db : Db Amount) (idx : ℕ) (column : OrderEdit → Option ℕ) : Option ℕ :=
  ((db.validEdits [idx]).filterMap column).getLast?

theorem getOrderEditInfo_eq (idx : ℕ) : getOrderEditInfo db idx =
    ⟨(db.lastEdit idx (·.expiration)).map number, (db.lastEdit idx (·.allow_list)).map number,
      (db.lastEdit idx (·.block_list)).map number⟩ := by
  rw [getOrderEditInfo]
  simp only [Db.lastEdit]
  induction db.validEdits [idx] using List.reverseRecOn with
  | nil => rfl
  | append_singleton edits e ih =>
    rw [List.foldl_append, ih]
    simp only [List.foldl_cons, List.foldl_nil, EditInfo.read, List.filterMap_append, EditInfo.mk.injEq]
    refine ⟨?_, ?_, ?_⟩
    · cases h : e.expiration <;> simp [h]
    · cases h : e.allow_list <;> simp [h]
    · cases h : e.block_list <;> simp [h]

theorem foldl_overwrite (idx : ℕ) (o : OrderObject Amount) : (db.validEdits [idx]).foldl OrderObject.overwrite o =
    { o with
      expiration := ((db.lastEdit idx (·.expiration)).map fun n => .edited (number n)).getD o.expiration
      allow_list := ((db.lastEdit idx (·.allow_list)).map number).getD o.allow_list
      block_list := ((db.lastEdit idx (·.block_list)).map number).getD o.block_list } := by
  simp only [Db.lastEdit]
  induction db.validEdits [idx] using List.reverseRecOn with
  | nil => rfl
  | append_singleton edits e ih =>
    rw [List.foldl_append, ih]
    simp only [List.foldl_cons, List.foldl_nil, OrderObject.overwrite, List.filterMap_append, OrderObject.mk.injEq,
      true_and, and_true]
    refine ⟨?_, ?_, ?_⟩
    · cases h : e.expiration <;> simp [h]
    · cases h : e.allow_list <;> simp [h]
    · cases h : e.block_list <;> simp [h]

theorem foldl_map {α β : Type*} (f : α → β → α) (l : List β) (o : Option α) :
    l.foldl (fun o b => o.map fun a => f a b) o = o.map fun a => l.foldl f a := by
  induction l generalizing o with
  | nil => simp
  | cons b l ih => rw [List.foldl_cons, ih]; cases o <;> rfl

theorem validEdits_filter {idxs : List ℕ} {idx : ℕ} (hidx : idx ∈ idxs) :
    (db.validEdits idxs).filter (fun e => e.order_action_index = idx) = db.validEdits [idx] := by
  rw [Db.validEdits, Db.validEdits, List.filter_filter]
  refine List.filter_congr fun e _ => ?_
  by_cases he : e.order_action_index = idx
  · simp [he, hidx]
  · simp [he]

theorem holdingMatches_filter {idxs : List ℕ} {idx : ℕ} (hidx : idx ∈ idxs) :
    (db.holdingMatches idxs).filter (fun m => m.give_action_index = idx ∨ m.get_action_index = idx) =
      db.holdingMatches [idx] := by
  rw [Db.holdingMatches, Db.holdingMatches, List.filter_filter]
  refine List.filter_congr fun m _ => ?_
  by_cases hm : m.give_action_index = idx ∨ m.get_action_index = idx
  · rcases hm with hm | hm <;> simp [hm, hidx]
  · simp only [not_or] at hm
    simp [hm]

/-- The last row that answers for an order is its object. -/
theorem orderInfoBatchRows_apply (answer : List (Row Amount)) (idx : ℕ) : orderInfoBatchRows answer idx =
    (answer.filter fun r => r.action_index = idx).getLast?.map Row.object := by
  rw [orderInfoBatchRows, KeyedFold.foldl_modify]
  induction answer.filter (fun r => r.action_index = idx) using List.reverseRecOn with
  | nil => rfl
  | append_singleton rows r ih => simp

theorem applyOrderEditsBatch_apply {idxs : List ℕ} {idx : ℕ} (hidx : idx ∈ idxs)
    (orderMap : ℕ → Option (OrderObject Amount)) : applyOrderEditsBatch db idxs orderMap idx =
      (orderMap idx).map fun o => (db.validEdits [idx]).foldl OrderObject.overwrite o := by
  rw [applyOrderEditsBatch, KeyedFold.foldl_modify, validEdits_filter hidx, foldl_map]

/-- Each match is taken off as often as the index stands in the list. -/
def Db.remainingTimes (bcsub : Amount → Amount → Amount) (db : Db Amount) (times idx : ℕ) (start : Amount × Amount) :
    Amount × Amount :=
  (db.holdingMatches [idx]).foldl (fun remaining m => (fun remaining => takeOff bcsub idx remaining m)^[times] remaining) start

theorem iterate_map {α : Type*} (f : α → α) (n : ℕ) (o : Option α) : (Option.map f)^[n] o = o.map f^[n] := by
  induction n generalizing o with
  | zero => simp
  | succ n ih =>
    rw [Function.iterate_succ_apply, ih, Option.map_map]
    rfl

theorem subtractOrderMatches_apply {idxs : List ℕ} {idx : ℕ} (hidx : idx ∈ idxs) :
    subtractOrderMatches bcsub db idxs (orderOpeningAmounts db idxs) idx =
      (db.opening idx).map (db.remainingTimes bcsub (idxs.count idx) idx) := by
  have hiterate : ∀ (m : OrderMatch Amount) (remaining : Option (Amount × Amount)),
      (subtractMatch bcsub m idx)^[idxs.count idx] remaining =
        if decide (m.give_action_index = idx ∨ m.get_action_index = idx) = true then
          remaining.map fun remaining => (fun remaining => takeOff bcsub idx remaining m)^[idxs.count idx] remaining
        else remaining := by
    intro m remaining
    by_cases hm : m.give_action_index = idx ∨ m.get_action_index = idx
    · have hmap : subtractMatch bcsub m idx = Option.map fun remaining => takeOff bcsub idx remaining m :=
        funext fun remaining => if_pos hm
      rw [hmap, iterate_map, if_pos (by simpa using hm)]
    · have hid : subtractMatch bcsub m idx = id := funext fun remaining => if_neg hm
      rw [hid, Function.iterate_id, if_neg (by simpa using hm)]
      rfl
  have hopening : orderOpeningAmounts db idxs idx = db.opening idx := if_pos hidx
  rw [subtractOrderMatches, KeyedFold.foldl_at
    (f := fun remaining m => (subtractMatch bcsub m idx)^[idxs.count idx] remaining)
    fun map m => KeyedFold.foldl_modify_keys (subtractMatch bcsub m) idxs map idx]
  simp only [hiterate]
  rw [← List.foldl_filter, holdingMatches_filter hidx, foldl_map, hopening]
  rfl

theorem finish_finish (o : OrderObject Amount) (remaining : Option (Amount × Amount)) :
    (o.finish getPrice remaining).finish getPrice remaining = o.finish getPrice remaining := by
  cases remaining <;> rfl

theorem finish_iterate (remaining : Option (Amount × Amount)) (n : ℕ) (o : OrderObject Amount) :
    (fun o : OrderObject Amount => o.finish getPrice remaining)^[n + 1] o = o.finish getPrice remaining := by
  induction n generalizing o with
  | zero => rfl
  | succ n ih => rw [Function.iterate_succ_apply, ih, finish_finish]

/-- The object that the batch makes of a row of one of its orders. -/
def batchObject (bcsub getPrice : Amount → Amount → Amount) (db : Db Amount) (idxs : List ℕ) (idx : ℕ) (r : Row Amount) :
    OrderObject Amount :=
  ((db.validEdits [idx]).foldl OrderObject.overwrite r.object).finish getPrice
    ((db.opening idx).map (db.remainingTimes bcsub (idxs.count idx) idx))

/-- The object that `getOrderInfo` makes of its row. -/
def singleObject (bcsub getPrice : Amount → Amount → Amount) (zero : Amount) (db : Db Amount) (idx : ℕ) (r : Row Amount) :
    OrderObject Amount :=
  ((r.object.applyEdit (getOrderEditInfo db idx)).setPrices getPrice).setRemaining
    (getOrderAmountsRemaining bcsub zero db idx)

theorem getOrderInfo_eq (answer : List (Row Amount)) (idx : ℕ) : getOrderInfo bcsub getPrice zero db answer idx =
    (answer.head?.map fun r => Reply.order (singleObject bcsub getPrice zero db idx r)).getD .empty := by
  cases answer <;> rfl

theorem getOrderInfoBatch_apply (answer : List (Row Amount)) {idxs : List ℕ} {idx : ℕ} (hidx : idx ∈ idxs) :
    getOrderInfoBatch bcsub getPrice db answer idxs idx =
      (answer.filter fun r => r.action_index = idx).getLast?.map fun r =>
        .order (batchObject bcsub getPrice db idxs idx r) := by
  obtain ⟨n, hn⟩ : ∃ n, idxs.count idx = n + 1 :=
    ⟨idxs.count idx - 1, by have := List.count_pos_iff.mpr hidx; omega⟩
  simp only [getOrderInfoBatch]
  rw [KeyedFold.foldl_modify_keys (fun idx (o : Option (OrderObject Amount)) => o.map fun o =>
      o.finish getPrice (subtractOrderMatches bcsub db idxs (orderOpeningAmounts db idxs) idx)),
    iterate_map (fun o : OrderObject Amount =>
      o.finish getPrice (subtractOrderMatches bcsub db idxs (orderOpeningAmounts db idxs) idx)),
    applyOrderEditsBatch_apply hidx, orderInfoBatchRows_apply, subtractOrderMatches_apply hidx]
  simp only [Option.map_map]
  congr 1
  funext r
  simp only [Function.comp_apply, batchObject, hn]
  rw [finish_iterate]

/-! ### Where the two agree -/

/-- What must hold of a listed order for the batch to mirror the single reader: it has one joined row, it is
    valid, no edit that counts sets the expiration to 0, or a list to 0 that was another one, and taking its
    matches off once for each time it stands in the list comes to the same as taking them off once. -/
structure Mirrored (bcsub : Amount → Amount → Amount) (db : Db Amount) (idxs : List ℕ) (idx : ℕ) : Prop where
  row : ∃ r ∈ db.infoRows idx, ∀ r' ∈ db.infoRows idx, r' = r
  opened : (db.opening idx).isSome
  expiration : db.lastEdit idx (·.expiration) ≠ some 0
  allow_list : ∀ o, db.orders idx = some o → db.lastEdit idx (·.allow_list) = some 0 → o.allow_list.getD 0 = 0
  block_list : ∀ o, db.orders idx = some o → db.lastEdit idx (·.block_list) = some 0 → o.block_list.getD 0 = 0
  repeats : ∀ start ∈ db.opening idx,
    db.remainingTimes bcsub (idxs.count idx) idx start = db.remainingTimes bcsub 1 idx start

/-- The batch gives every listed index the object that `getOrderInfo` returns for it, in whatever order the
    database answers the two statements without one. -/
def Mirrors (bcsub getPrice : Amount → Amount → Amount) (zero : Amount) (db : Db Amount) (idxs : List ℕ) : Prop :=
  ∀ idx ∈ idxs, ∀ answer page, answer.Perm (db.infoRows idx) → page.Perm (idxs.dedup.flatMap db.infoRows) →
    getOrderInfoBatch bcsub getPrice db page idxs idx = some (getOrderInfo bcsub getPrice zero db answer idx)

theorem number_eq_zero {n : ℕ} : number n = some 0 ↔ n = 0 := by
  constructor
  · intro h
    by_contra hn
    exact JsNumber.roundToDouble_natCast_ne_zero hn h
  · rintro rfl
    exact_mod_cast JsNumber.roundToDouble_natCast (n := 0) (by norm_num)

theorem numberOf_eq_zero {n : Option ℕ} : numberOf n = some 0 ↔ n.getD 0 = 0 := by
  cases n with
  | none => simp [numberOf]
  | some n => simp [numberOf, number_eq_zero]

/-- A list column agrees unless its last edit is a 0 that truthiness lets pass by. -/
theorem list_eq_iff (last column : Option ℕ) :
    (if truthy (last.map number) then (last.map number).getD none else numberOf column) =
      (last.map number).getD (numberOf column) ↔ (last = some 0 → column.getD 0 = 0) := by
  cases last with
  | none => simp [truthy]
  | some n =>
    obtain rfl | hn := eq_or_ne n 0
    · have hzero : number 0 = some 0 := number_eq_zero.mpr rfl
      simp [truthy, hzero, numberOf_eq_zero]
    · have hzero : number n ≠ some 0 := fun h => hn (number_eq_zero.mp h)
      simp [truthy, hzero, hn]

theorem expiration_eq_iff (last column : Option ℕ) :
    (if truthy (last.map number) then Expiration.edited ((last.map number).getD none) else .column column) =
      (last.map fun n => Expiration.edited (number n)).getD (.column column) ↔ last ≠ some 0 := by
  cases last with
  | none => simp [truthy]
  | some n =>
    obtain rfl | hn := eq_or_ne n 0
    · have hzero : number 0 = some 0 := number_eq_zero.mpr rfl
      simp [truthy, hzero]
    · have hzero : number n ≠ some 0 := fun h => hn (number_eq_zero.mp h)
      simp [truthy, hzero, hn]

theorem getOrderAmountsRemaining_eq (idx : ℕ) : getOrderAmountsRemaining bcsub zero db idx =
    db.remainingTimes bcsub 1 idx ((db.opening idx).getD (zero, zero)) := rfl

/-- One order's two objects are the same exactly where their rows, edits and amounts are. -/
theorem object_eq_iff {idxs : List ℕ} {idx : ℕ} {o : Order Amount} (names names' : Names) :
    batchObject bcsub getPrice db idxs idx (o.row idx names') = singleObject bcsub getPrice zero db idx (o.row idx names) ↔
      names = names' ∧ (db.opening idx).isSome ∧ db.lastEdit idx (·.expiration) ≠ some 0 ∧
      (db.lastEdit idx (·.allow_list) = some 0 → o.allow_list.getD 0 = 0) ∧
      (db.lastEdit idx (·.block_list) = some 0 → o.block_list.getD 0 = 0) ∧
      ∀ start ∈ db.opening idx,
        db.remainingTimes bcsub (idxs.count idx) idx start = db.remainingTimes bcsub 1 idx start := by
  rw [← list_eq_iff, ← list_eq_iff, ← expiration_eq_iff (db.lastEdit idx (·.expiration)) o.expiration, batchObject,
    singleObject, foldl_overwrite, getOrderEditInfo_eq, getOrderAmountsRemaining_eq]
  cases hopening : db.opening idx with
  | none =>
    simp [OrderObject.finish, OrderObject.setPrices, OrderObject.setRemaining, OrderObject.applyEdit, Row.object]
  | some start =>
    simp only [Option.map_some, Option.getD_some, OrderObject.finish, OrderObject.setPrices, OrderObject.setRemaining,
      OrderObject.applyEdit, Row.object, Order.row, OrderObject.mk.injEq, true_and, Option.isSome_some,
      Option.some.injEq, Option.mem_def, forall_eq']
    rw [Prod.ext_iff]
    constructor
    · rintro ⟨hexpiration, hallow, hblock, hnames, hgive, hget⟩
      exact ⟨hnames.symm, hexpiration.symm, hallow.symm, hblock.symm, hgive, hget⟩
    · rintro ⟨hnames, hexpiration, hallow, hblock, hgive, hget⟩
      exact ⟨hexpiration.symm, hallow.symm, hblock.symm, hnames.symm, hgive, hget⟩

theorem mem_infoRows {idx : ℕ} {r : Row Amount} :
    r ∈ db.infoRows idx ↔ ∃ o names, db.orders idx = some o ∧ names ∈ db.joined idx o ∧ r = o.row idx names := by
  unfold Db.infoRows
  cases db.orders idx with
  | none => simp
  | some o => simp [eq_comm]

/-- A page answers for a listed order with the order's own rows. -/
theorem page_filter_perm {page : List (Row Amount)} {idxs : List ℕ} {idx : ℕ} (hidx : idx ∈ idxs)
    (hpage : page.Perm (idxs.dedup.flatMap db.infoRows)) :
    (page.filter fun r => r.action_index = idx).Perm (db.infoRows idx) := by
  have hrows : ∀ i, (db.infoRows i).filter (fun r => r.action_index = idx) = if i = idx then db.infoRows i else [] := by
    intro i
    split_ifs with hi
    · refine List.filter_eq_self.mpr fun r hr => ?_
      obtain ⟨o, names, -, -, rfl⟩ := mem_infoRows.mp hr
      simp [Order.row, hi]
    · refine List.filter_eq_nil_iff.mpr fun r hr => ?_
      obtain ⟨o, names, -, -, rfl⟩ := mem_infoRows.mp hr
      simp [Order.row, hi]
  have hflat : ∀ l : List ℕ, l.Nodup → (l.flatMap db.infoRows).filter (fun r => r.action_index = idx) =
      if idx ∈ l then db.infoRows idx else [] := by
    intro l hl
    induction l with
    | nil => simp
    | cons i l ih =>
      rw [List.flatMap_cons, List.filter_append, hrows, ih hl.of_cons]
      by_cases hi : i = idx
      · have hnotin : idx ∉ l := hi ▸ (List.nodup_cons.mp hl).1
        simp [hi, hnotin]
      · simp [hi, Ne.symm hi]
  have h := hpage.filter fun r => r.action_index = idx
  rwa [hflat _ (List.nodup_dedup idxs), if_pos (List.mem_dedup.mpr hidx)] at h

/-- The batch mirrors the single reader over a list exactly where it does at each listed order. -/
theorem batch_mirrors_iff (bcsub getPrice : Amount → Amount → Amount) (zero : Amount) (db : Db Amount) (idxs : List ℕ) :
    Mirrors bcsub getPrice zero db idxs ↔ ∀ idx ∈ idxs, Mirrored bcsub db idxs idx := by
  constructor
  · intro h idx hidx
    -- any two rows of the order are the answer of the one statement and the last answer of the other
    have hpair : ∀ r ∈ db.infoRows idx, ∀ r' ∈ db.infoRows idx,
        batchObject bcsub getPrice db idxs idx r' = singleObject bcsub getPrice zero db idx r := by
      intro r hr r' hr'
      obtain ⟨s, t, hrows⟩ := List.append_of_mem hr
      obtain ⟨s', t', hpage⟩ := List.append_of_mem
        (List.mem_flatMap.mpr ⟨idx, List.mem_dedup.mpr hidx, hr'⟩ : r' ∈ idxs.dedup.flatMap db.infoRows)
      have hindex : r'.action_index = idx := by
        obtain ⟨o, names, -, -, rfl⟩ := mem_infoRows.mp hr'
        rfl
      have hsame := h idx hidx (r :: (s ++ t)) (s' ++ t' ++ [r']) (hrows ▸ List.perm_middle.symm)
        (hpage ▸ (List.perm_append_singleton r' (s' ++ t')).trans List.perm_middle.symm)
      rw [getOrderInfoBatch_apply _ hidx, getOrderInfo_eq, List.filter_append] at hsame
      simpa [hindex] using hsame
    have hne : ∃ r, r ∈ db.infoRows idx := by
      have hsame := h idx hidx _ _ (List.Perm.refl _) (List.Perm.refl _)
      rw [getOrderInfoBatch_apply _ hidx, Option.map_eq_some_iff] at hsame
      obtain ⟨r, hr, -⟩ := hsame
      exact ⟨r, (page_filter_perm hidx (List.Perm.refl _)).subset (List.mem_of_getLast? hr)⟩
    obtain ⟨r, hr⟩ := hne
    obtain ⟨o, names, ho, -, hro⟩ := mem_infoRows.mp hr
    have hself := hpair r hr r hr
    rw [hro, object_eq_iff] at hself
    obtain ⟨-, hopened, hexpiration, hallow, hblock, hrepeats⟩ := hself
    have horder : ∀ o', db.orders idx = some o' → o' = o := fun o' ho' => Option.some.inj (ho'.symm.trans ho)
    refine ⟨⟨r, hr, fun r' hr' => ?_⟩, hopened, hexpiration, fun o' ho' => horder o' ho' ▸ hallow,
      fun o' ho' => horder o' ho' ▸ hblock, hrepeats⟩
    obtain ⟨o', names', ho', -, hro'⟩ := mem_infoRows.mp hr'
    have hnames := hpair r hr r' hr'
    rw [hro, hro', horder o' ho', object_eq_iff] at hnames
    rw [hro, hro', horder o' ho', hnames.1]
  · intro h idx hidx answer page hanswer hpage
    have hmirrored := h idx hidx
    obtain ⟨r, hr, hall⟩ := hmirrored.row
    obtain ⟨o, names, ho, -, hro⟩ := mem_infoRows.mp hr
    have hhead : answer.head? = some r := by
      cases answer with
      | nil => exact absurd (hanswer.mem_iff.mpr hr) (by simp)
      | cons a answer => rw [List.head?_cons, hall a (hanswer.mem_iff.mp (by simp))]
    have hlast : (page.filter fun r => r.action_index = idx).getLast? = some r := by
      have hperm := page_filter_perm hidx hpage
      cases hlast : (page.filter fun r => r.action_index = idx).getLast? with
      | none =>
        rw [List.getLast?_eq_none_iff] at hlast
        rw [hlast] at hperm
        exact absurd (hperm.mem_iff.mpr hr) (by simp)
      | some a => rw [hall a (hperm.mem_iff.mp (List.mem_of_getLast? hlast))]
    rw [getOrderInfoBatch_apply _ hidx, getOrderInfo_eq, hhead, hlast, hro]
    simp only [Option.map_some, Option.getD_some]
    rw [(object_eq_iff names names).mpr ⟨rfl, hmirrored.opened, hmirrored.expiration, hmirrored.allow_list o ho,
      hmirrored.block_list o ho, hmirrored.repeats⟩]

end Batch

/-! ### Exact amounts -/

/-- What holding matches take off an order's two sides together. -/
def Db.taken (db : Db ℚ) (idx : ℕ) : ℚ × ℚ :=
  ((db.holdingMatches [idx]).map fun m => if m.get_action_index = idx then (m.give_amount, m.get_amount)
    else (m.get_amount, m.give_amount)).sum

/-! ### A list set to none -/

/-- One open order with an allow list, and a valid edit that takes the list off. -/
def listTakenOff : Db ℚ where
  orders idx := if idx = 1 then some ⟨some 1, some 1, 100, some 1, some 2, 200, some 1, some 900000, some 5, none, none, some 1⟩
    else none
  actions idx := if idx = 1 then some ⟨10, none, some 1⟩ else none
  blocks := [⟨some 10, some 1700000000⟩]
  transactions _ := none
  order_statuses := [⟨1, 1, some 2⟩]
  order_edits := [⟨2, 1, none, some 0, none, some 1⟩]
  order_matches := []
  index_addresses id := if id = 1 then some "source" else none
  index_tickers id := if id = 1 then some "GIVE" else if id = 2 then some "GET" else none
  index_coins id := if id = 1 then some "BTC" else none
  index_memos _ := none
  index_statuses id := if id = 1 then some "valid" else if id = 2 then some "open" else none
  edits_ordered := by decide
  matches_ordered := by decide

/-- The single reader takes the 0 of the edit for no edit and keeps the list. -/
theorem listTakenOff_differs : ¬ Mirrors (· - ·) (· / ·) 0 listTakenOff [1] := by
  intro h
  have hrow : ∃ o names, listTakenOff.orders 1 = some o ∧ names ∈ listTakenOff.joined 1 o ∧ o.allow_list = some 5 ∧
      listTakenOff.infoRows 1 = [o.row 1 names] :=
    ⟨_, _, rfl, List.mem_singleton.mpr rfl, rfl, rfl⟩
  obtain ⟨o, names, ho, -, hallow, hrows⟩ := hrow
  have hsame := h 1 (by simp) [o.row 1 names] [o.row 1 names] (hrows ▸ List.Perm.refl _) (by simp [hrows])
  rw [getOrderInfoBatch_apply _ (by simp), getOrderInfo_eq] at hsame
  have hobject : batchObject (· - ·) (· / ·) listTakenOff [1] 1 (o.row 1 names) =
      singleObject (· - ·) (· / ·) 0 listTakenOff 1 (o.row 1 names) := by simpa [Order.row] using hsame
  have hzero := ((object_eq_iff names names).mp hobject).2.2.2.1 (by decide +kernel)
  rw [hallow] at hzero
  simp at hzero

end OrderReaders
