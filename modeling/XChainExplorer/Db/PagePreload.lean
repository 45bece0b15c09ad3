import XChainExplorer.Db.ActionCache
import XChainExplorer.Lib.Grouping
import XChainExplorer.Lib.KeyedFold
import XChainExplorer.Lib.OrderBy
import XChainExplorer.Lib.Reading
import Mathlib.Data.Int.ConditionallyCompleteOrder
import Mathlib.Order.ConditionallyCompleteLattice.Basic
import Mathlib.Data.Prod.Lex
import Mathlib.Order.WithBot

/-! # The legs a page of actions reads once

    `getActionData` reads an action's type, its handler's own rows, and the legs every action shares: its
    emission, its ledger effects, its fee and its transaction. A page reads the type and the shared legs of all
    its indexes once and hands them in. What the preload has of a leg is what the leg reads. -/

namespace PagePreload

open DbCache (ActionData isCacheableAction)

/-! ### The tables -/

/-- A row of `actions`. -/
structure Action where
  action_index : ℤ
  action_id : ℕ
  tx_index : Option ℕ := none
  source_id : Option ℕ := none

/-- A row of `transactions`. -/
structure Transaction where
  tx_index : ℕ
  block_index : ℕ
  tx_hash_id : ℕ
  source_id : Option ℕ := none
  fee : Option ℤ := none
  data : Option String := none

/-- The columns of a fee that are read as they are. -/
structure FeeTerms where
  amount : Option String := none
  method : ℕ := 0
  gas_cost : Option ℕ := none
  gas_price : Option String := none
  xchain_amount : Option String := none
  payment_mode : ℕ := 2
  native_coin_amount : Option String := none
  native_coin : Option String := none
  oracle_round : Option ℕ := none
  fee_preference : ℕ := 2
  fee_version : ℕ := 1
  deriving DecidableEq

/-- A row of `fees`. -/
structure Fee extends FeeTerms where
  action_index : ℤ
  tick_id : Option ℕ := none
  destination_id : Option ℕ := none

/-- A row of one of the three effect tables. -/
structure Ledger where
  action_index : ℤ
  address_id : Option ℕ := none
  tick_id : Option ℕ := none
  amount : Option String := none

/-- A row of `contract_emissions`: what a contract execution emitted. -/
structure ContractEmission where
  action_index : Option ℤ
  execution_index : ℤ
  position : ℕ

/-- A row of `contract_executions`. -/
structure ContractExecution where
  action_index : ℤ
  contract_index : Option ℤ := none
  caller_id : ℕ

/-- The tables the shared legs read, and whatever else the handlers read. Index tables give an id its text. -/
structure Tables (D : Type) where
  actions : List Action := []
  transactions : List Transaction := []
  fees : List Fee := []
  credits : List Ledger := []
  debits : List Ledger := []
  escrows : List Ledger := []
  contract_emissions : List ContractEmission := []
  contract_executions : List ContractExecution := []
  index_actions : List (ℕ × String) := []
  index_transactions : List (ℕ × String) := []
  index_tickers : List (ℕ × String) := []
  index_addresses : List (ℕ × String) := []
  domain : D

/-- `LEFT JOIN`: the rows that match, or one of nulls. -/
def leftJoin {ρ : Type} (rows : List ρ) (on : ρ → Bool) : List (Option ρ) :=
  match rows.filter on with
  | [] => [none]
  | found => found.map some

theorem leftJoin_ne_nil {ρ : Type} (rows : List ρ) (on : ρ → Bool) : leftJoin rows on ≠ [] := by
  unfold leftJoin
  split
  · simp
  · next h => simpa using h

/-- The texts an index table gives an id, or one null. -/
def texts (index : List (ℕ × String)) (id : Option ℕ) : List (Option String) :=
  (leftJoin index fun entry => some entry.1 = id).map fun entry => entry.map Prod.snd

/-! ### The rows the legs read -/

/-- The tables of ledger effects. -/
inductive Effect where
  | credits
  | debits
  | escrows
  deriving DecidableEq

/-- The effects, in the order a page attaches them. -/
def EFFECT_TABLES : List Effect := [.credits, .debits, .escrows]

/-- One effect as it is served. -/
structure EffectRow where
  address : Option String
  tick : Option String
  amount : Option String
  deriving DecidableEq

/-- A fee as it is served. -/
structure FeeRow extends FeeTerms where
  source : Option String
  destination : Option String
  tick : Option String
  deriving DecidableEq

/-- A transaction as it is served. -/
structure TransactionRow where
  tx_index : ℕ
  block_index : ℕ
  hash : String
  fee : Option ℤ
  data : Option String
  deriving DecidableEq

/-- Where an emitted action came from, as it is served. -/
structure EmissionRow where
  execution_index : ℤ
  position : ℕ
  contract_index : Option ℤ
  caller : Option String
  deriving DecidableEq

/-- How the database compares and orders text: the collation of the hashes and addresses, that of the ticks,
    and an amount as the decimal it is cast to, in units of its last place. -/
structure Collations (A B : Type) where
  general : String → A
  binary : String → B
  decimal : String → ℤ

/-- What an action response holds beside the fields its cache rule reads: the shared legs, and what the handler
    set of its own. `emitted_by` and `tx_data` are absent until their leg has run. -/
structure Detail (V : Type) where
  tx_hash : Option String := none
  credits : Option (List EffectRow) := none
  debits : Option (List EffectRow) := none
  escrows : Option (List EffectRow) := none
  fee : Option FeeRow := none
  emitted_by : Option (Option EmissionRow) := none
  tx_data : Option (Option String) := none
  own : V
  deriving DecidableEq

/-- An action response. -/
abbrev Data (V : Type) := ActionData (Detail V)

/-- The detail with one of its effect lists set. -/
def Detail.set {V : Type} (data : Detail V) (rows : List EffectRow) : Effect → Detail V
  | .credits => { data with credits := some rows }
  | .debits => { data with debits := some rows }
  | .escrows => { data with escrows := some rows }

/-- The source's test of a text that is missing or empty. -/
def isNull (text : Option String) : Bool := text = none ∨ text = some ""

/-- A program of one action read: it awaits the tables, and may ask for the responses of other actions. -/
abbrev Reader (D V : Type) := Reading (Tables D) ℤ (Data V)

variable {D V A B : Type}

/-! ### The single reads -/

/-- The type names of the actions at an index. -/
def actionTypes (db : Tables D) (action_index : ℤ) : List (Option String) :=
  (db.actions.filter (·.action_index = action_index)).flatMap fun a1 => texts db.index_actions (some a1.action_id)

/-- The type of one action, from the first row. -/
def getActionType (action_index : ℤ) : Reader D V (Option String) := do
  let results ← Reading.ask fun db => actionTypes db action_index
  return results.head?.join

/-- The transactions of an action, as the fee reads join them: `optionalTransactionSql` makes the join a left one
    where the pools are up. -/
def feeTransactions (pools : Bool) (db : Tables D) (a1 : Action) : List (Option Transaction) :=
  if pools then leftJoin db.transactions fun t1 => some t1.tx_index = a1.tx_index
  else (db.transactions.filter fun t1 => some t1.tx_index = a1.tx_index).map some

/-- The fees of the wanted actions, each with its action's index. -/
def feeRows (pools : Bool) (db : Tables D) (wanted : ℤ → Bool) : List (ℤ × FeeRow) :=
  (db.fees.filter fun f1 => wanted f1.action_index).flatMap fun f1 =>
    (db.actions.filter (·.action_index = f1.action_index)).flatMap fun a1 =>
      (feeTransactions pools db a1).flatMap fun t1 =>
        (texts db.index_tickers f1.tick_id).flatMap fun tick =>
          (texts db.index_addresses (a1.source_id.or (t1.bind Transaction.source_id))).flatMap fun source =>
            (texts db.index_addresses f1.destination_id).map fun destination =>
              (f1.action_index, { f1.toFeeTerms with source, destination, tick })

/-- The fee of one action. -/
def getActionFeeData (pools : Bool) (action_index : ℤ) : Reader D V (Option FeeRow) := do
  let results ← Reading.ask fun db => feeRows pools db (· = action_index)
  return results.head?.map Prod.snd

/-- The transactions with their hashes. -/
def transactionRows (db : Tables D) : List TransactionRow :=
  db.transactions.flatMap fun t1 =>
    (db.index_transactions.filter fun t2 => t2.1 = t1.tx_hash_id).map fun t2 =>
      { tx_index := t1.tx_index, block_index := t1.block_index, hash := t2.2, fee := t1.fee, data := t1.data }

/-- The rows with a hash, as the database compares hashes; none for a null. -/
def transactionsWith [DecidableEq A] (C : Collations A B) (db : Tables D) (hash : Option String) : List TransactionRow :=
  (transactionRows db).filter fun row => hash.any fun hash => C.general row.hash = C.general hash

/-- The transaction of a hash. -/
def getTransactionData [DecidableEq A] (C : Collations A B) (hash : Option String) :
    Reader D V (Option TransactionRow) := do
  let results ← Reading.ask fun db => transactionsWith C db hash
  return results.head?

/-- The table of an effect. -/
def Tables.ledger (db : Tables D) : Effect → List Ledger
  | .credits => db.credits
  | .debits => db.debits
  | .escrows => db.escrows

/-- The effects of the wanted actions, each with its action's index. -/
def ledgerRows (db : Tables D) (effect : Effect) (wanted : ℤ → Bool) : List (ℤ × EffectRow) :=
  ((db.ledger effect).filter fun l => wanted l.action_index).flatMap fun l =>
    (texts db.index_tickers l.tick_id).flatMap fun tick =>
      (texts db.index_addresses l.address_id).map fun address =>
        (l.action_index, { address, tick, amount := l.amount })

/-- The tick, then the amount from the greatest down, then the address; a null comes first in an ascending
    order and last in a descending one. -/
def effectKey (C : Collations A B) (row : EffectRow) : WithBot B ×ₗ (WithBot ℤ)ᵒᵈ ×ₗ WithBot A :=
  toLex (row.tick.map C.binary, toLex (OrderDual.toDual (row.amount.map C.decimal), row.address.map C.general))

variable [LinearOrder A] [LinearOrder B]

/-- `ledgerEffectsQuery`. -/
def ledgerEffects (C : Collations A B) (db : Tables D) (effect : Effect) (action_index : ℤ) : List EffectRow :=
  OrderBy.orderBy (· ≤ ·) (effectKey C) ((ledgerRows db effect (· = action_index)).map Prod.snd)

/-- `ledgerEffectsBatchQuery`. -/
def ledgerEffectsBatch (C : Collations A B) (db : Tables D) (effect : Effect) (idxs : List ℤ) : List (ℤ × EffectRow) :=
  OrderBy.orderBy (· ≤ ·) (fun row : ℤ × EffectRow => toLex (row.1, effectKey C row.2))
    (ledgerRows db effect (· ∈ idxs))

/-! ### The reads of a page -/

/-- A `Map` that keeps the first row of each key. -/
def firstOf {κ ρ ν : Type} [DecidableEq κ] (key : ρ → κ) (value : ρ → ν) (rows : List ρ) : κ → Option ν :=
  rows.foldl (fun map row => KeyedFold.modify map (key row) fun kept => kept.or (some (value row))) fun _ => none

/-- A `Map` that keeps the last row of each key. -/
def lastOf {κ ρ ν : Type} [DecidableEq κ] (key : ρ → κ) (value : ρ → ν) (rows : List ρ) : κ → Option ν :=
  rows.foldl (fun map row => KeyedFold.modify map (key row) fun _ => some (value row)) fun _ => none

/-- A `Map` that keeps the rows of each key. -/
def groupsOf {κ ρ ν : Type} [DecidableEq κ] (key : ρ → κ) (value : ρ → ν) (rows : List ρ) : κ → Option (List ν) :=
  rows.foldl (fun map row => KeyedFold.modify map (key row) fun kept => some (kept.getD [] ++ [value row])) fun _ => none

/-- An action's type and the hash of its transaction. -/
structure ActionMeta where
  type : Option String
  tx_hash : Option String

/-- The type and the hash of the wanted actions. -/
def metaRows (db : Tables D) (wanted : ℤ → Bool) : List (ℤ × ActionMeta) :=
  (db.actions.filter fun a1 => wanted a1.action_index).flatMap fun a1 =>
    (texts db.index_actions (some a1.action_id)).flatMap fun type =>
      (leftJoin db.transactions fun t1 => some t1.tx_index = a1.tx_index).flatMap fun t1 =>
        (texts db.index_transactions (t1.map Transaction.tx_hash_id)).map fun tx_hash =>
          (a1.action_index, { type, tx_hash })

/-- They are read once for all the actions of a page. -/
def getActionMetaBatch (action_indexes : List ℤ) : Reader D V (ℤ → Option ActionMeta) := do
  if action_indexes.isEmpty then return fun _ => none
  let results ← Reading.ask fun db => metaRows db (· ∈ action_indexes)
  return firstOf Prod.fst Prod.snd results

/-- The fees of all the actions of a page. -/
def getActionFeeDataBatch (pools : Bool) (action_indexes : List ℤ) : Reader D V (ℤ → Option FeeRow) := do
  if action_indexes.isEmpty then return fun _ => none
  let results ← Reading.ask fun db => feeRows pools db (· ∈ action_indexes)
  return firstOf Prod.fst Prod.snd results

/-- Every hash asked for has an entry, the null of a missing row too. -/
def getTransactionDataBatch (C : Collations A B) (hashes : List String) :
    Reader D V (String → Option (Option TransactionRow)) := do
  if hashes.isEmpty then return fun _ => none
  let distinct := hashes.eraseDups
  let results ← Reading.ask fun db : Tables D =>
    (transactionRows db).filter fun row => distinct.any fun hash => C.general row.hash = C.general hash
  let map : String → Option TransactionRow := firstOf TransactionRow.hash id results
  return fun hash => if (map hash).isSome ∨ hash ∈ distinct then some (map hash) else none

/-- The emissions that made the actions, their parents not joined yet. -/
def emissionRows (db : Tables D) (idxs : List ℤ) : List (ℤ × EmissionRow) :=
  db.contract_emissions.filterMap fun e => (e.action_index.filter (· ∈ idxs)).map fun action_index =>
    (action_index, {
      execution_index := e.execution_index, position := e.position, contract_index := none, caller := none })

/-- The contract and the caller of the parent executions. -/
def parentRows (db : Tables D) (parents : List ℤ) : List (ℤ × Option ℤ × Option String) :=
  (db.contract_executions.filter (·.action_index ∈ parents)).flatMap fun m =>
    (texts db.index_addresses (some m.caller_id)).map fun caller => (m.action_index, m.contract_index, caller)

/-- The emissions of all the actions of a page: a second read fills in the parents. -/
def getEmissionProvenanceBatch (idxs : List ℤ) : Reader D V (ℤ → Option EmissionRow) := do
  if idxs.isEmpty then return fun _ => none
  let rows ← Reading.ask fun db => emissionRows db idxs
  if rows.isEmpty then return fun _ => none
  let out : ℤ → Option EmissionRow := lastOf Prod.fst Prod.snd rows
  let parents := ((rows.map Prod.fst).eraseDups.filterMap fun key => (out key).map EmissionRow.execution_index).eraseDups
  let pRows ← Reading.ask fun db => parentRows db parents
  let byExec : ℤ → Option (Option ℤ × Option String) := lastOf Prod.fst Prod.snd pRows
  return fun key => (out key).map fun v => match byExec v.execution_index with
    | some (contract_index, caller) => { v with contract_index, caller }
    | none => v

/-- One effect of all the actions of a page. -/
def prefetchLedgerEffect (C : Collations A B) (effect : Effect) (idxs : List ℤ) :
    Reader D V (ℤ → Option (List EffectRow)) := do
  if idxs.isEmpty then return fun _ => none
  let results ← Reading.ask fun db => ledgerEffectsBatch C db effect idxs
  return groupsOf Prod.fst Prod.snd results

/-- The three effects, each for the actions that show it. -/
def prefetchLedgerEffects (C : Collations A B) (indexesByEffect : Effect → List ℤ) :
    Reader D V (Effect → ℤ → Option (List EffectRow)) := do
  let credits ← prefetchLedgerEffect C .credits (indexesByEffect .credits)
  let debits ← prefetchLedgerEffect C .debits (indexesByEffect .debits)
  let escrows ← prefetchLedgerEffect C .escrows (indexesByEffect .escrows)
  return fun
    | .credits => credits
    | .debits => debits
    | .escrows => escrows

/-! ### The handlers and the preload -/

/-- What an action type brings: the effects it wants, its hook after them, its own queries and the sibling tables
    of its supplements. None of them sees the preload. `own` is what a response begins with. -/
structure Handlers (D V : Type) where
  effects : String → Effect → Bool
  afterEffects : String → Data V → Reader D V (Data V)
  queries : String → ℤ → Data V → Reader D V (Data V)
  supplements : String → ℤ → Data V → Reader D V (Data V)
  own : V

/-- What the reads of a page share: the collations, whether the pools are up, and the handlers. -/
structure Loader (D V A B : Type) where
  collations : Collations A B
  pools : Bool := true
  handlers : Handlers D V

/-- What is read ahead for a page. A missing entry is one that was not read. -/
structure Preload where
  indexes : List ℤ
  types : ℤ → Option (Option String)
  fees : ℤ → Option (Option FeeRow)
  txs : String → Option (Option TransactionRow)
  emitted : ℤ → Option EmissionRow
  effects : Effect → ℤ → Option (List EffectRow)

/-- The reads ahead of a page, over the indexes of its actions. -/
def buildActionPreload (R : Loader D V A B) (idxs : List ℤ) : Reader D V (Option Preload) := do
  if idxs.isEmpty then return none
  let actions ← getActionMetaBatch idxs
  let row := fun idx => (actions idx).getD { type := none, tx_hash := none }
  -- an untyped index is answered before any shared leg runs
  let typed := idxs.filter fun idx => !isNull (row idx).type
  let effectIndexes := fun effect => typed.filter fun idx => R.handlers.effects ((row idx).type.getD "") effect
  let hashes := (typed.filterMap fun idx => (row idx).tx_hash).filter fun hash => !isNull (some hash)
  let effects ← prefetchLedgerEffects R.collations effectIndexes
  let fees ← getActionFeeDataBatch R.pools typed
  let txs ← getTransactionDataBatch R.collations hashes
  let emitted ← getEmissionProvenanceBatch typed
  return some {
    indexes := idxs
    types := fun idx => if idx ∈ idxs then some (row idx).type else none
    fees := fun idx => if idx ∈ typed then some (fees idx) else none
    txs, emitted, effects }

/-! ### One action -/

/-- The provenance, from what was read ahead where the action is in it. -/
def attachEmissionProvenance (action_index : ℤ) (data : Data V) (pre : Option Preload) : Reader D V (Data V) := do
  let emitted ← (match pre.filter fun pre => pre.indexes.contains action_index with
    | some pre => pure (pre.emitted action_index)
    | none => do
      let one ← getEmissionProvenanceBatch [action_index]
      return one action_index : Reader D V _)
  return { data with payload := { data.payload with emitted_by := some emitted } }

/-- One effect, if the type of the action shows it. -/
def attachLedgerEffect (C : Collations A B) (action_index : ℤ) (flags : Effect → Bool) (pre : Option Preload)
    (data : Data V) (effect : Effect) : Reader D V (Data V) := do
  if !flags effect then return data
  let rows ← (match pre with
    | some pre => pure ((pre.effects effect action_index).getD [])
    | none => Reading.ask fun db => ledgerEffects C db effect action_index : Reader D V _)
  return if rows.isEmpty then data else { data with payload := data.payload.set rows effect }

/-- The effects one after the other. -/
def attachLedgerEffects (C : Collations A B) (action_index : ℤ) (data : Data V) (flags : Effect → Bool)
    (pre : Option Preload) : Reader D V (Data V) :=
  EFFECT_TABLES.foldlM (attachLedgerEffect C action_index flags pre) data

/-- What every action gets after its own payload. -/
def attachActionTail (R : Loader D V A B) (type : String) (action_index : ℤ) (data : Data V) (pre : Option Preload) :
    Reader D V (Data V) := do
  let data ← R.handlers.supplements type action_index data
  let data ← attachEmissionProvenance action_index data pre
  let data ← attachLedgerEffects R.collations action_index data (R.handlers.effects type) pre
  let data ← R.handlers.afterEffects type data
  let fee ← (match pre.bind fun pre => pre.fees action_index with
    | some fee => pure fee
    | none => getActionFeeData R.pools action_index : Reader D V _)
  let data := if fee.isSome then { data with payload := { data.payload with fee } } else data
  let txKey := if isNull data.payload.tx_hash then none else data.payload.tx_hash
  let txData ← (match pre.bind fun pre => txKey.bind pre.txs with
    | some txData => pure txData
    | none => getTransactionData R.collations data.payload.tx_hash : Reader D V _)
  return { data with payload := { data.payload with tx_data := some (txData.bind TransactionRow.data) } }

/-- What `getActionData` reads where its cache has nothing. -/
def readAction (R : Loader D V A B) (action_index : ℤ) (preload : Option Preload) : Reader D V (Data V) := do
  let blank : Data V := { payload := { own := R.handlers.own } }
  let pre := preload.filter fun preload => preload.indexes.contains action_index
  let type ← (match pre.bind fun pre => pre.types action_index with
    | some type => pure type
    | none => getActionType action_index : Reader D V _)
  match type.filter fun type => type ≠ "" with
  | none => return blank
  | some type =>
    let data ← R.handlers.queries type action_index blank
    attachActionTail R type action_index data pre

/-! ### What the maps of a batch hold -/

section Maps

variable {κ ρ ν : Type} [DecidableEq κ] {key : ρ → κ} {value : ρ → ν}

theorem firstOf_eq (rows : List ρ) (k : κ) :
    firstOf key value rows k = (rows.filter (key · = k)).head?.map value := by
  refine (KeyedFold.foldl_modify key (fun row (kept : Option ν) => kept.or (some (value row))) rows _ k).trans ?_
  cases rows.filter (key · = k) with
  | nil => rfl
  | cons row rows =>
    rw [List.foldl_cons, Option.none_or, List.head?_cons, Option.map_some]
    induction rows with
    | nil => rfl
    | cons _ _ ih => exact ih

theorem lastOf_eq (rows : List ρ) (k : κ) :
    lastOf key value rows k = (rows.filter (key · = k)).getLast?.map value := by
  refine (KeyedFold.foldl_modify key (fun row (_ : Option ν) => some (value row)) rows _ k).trans ?_
  induction rows.filter (key · = k) using List.reverseRecOn with
  | nil => rfl
  | append_singleton rows row _ => simp

theorem groupsOf_eq (rows : List ρ) (k : κ) :
    (groupsOf key value rows k).getD [] = (rows.filter (key · = k)).map value := by
  rw [groupsOf]
  refine (congrArg (Option.getD · []) (KeyedFold.foldl_modify key
    (fun row (kept : Option (List ν)) => some (kept.getD [] ++ [value row])) rows _ k)).trans ?_
  induction rows.filter (key · = k) using List.reverseRecOn with
  | nil => rfl
  | append_singleton rows row ih => simp [ih]

end Maps

variable {C : Collations A B} {db : Tables D} {k : ℤ} {idxs : List ℤ}

/-- Of the rows read for some keys, those of one are the rows read for it. -/
theorem filter_wanted {β ν : Type} {key : β → ℤ} {l : List β} {f : β → List (ℤ × ν)} (wanted : ℤ → Bool)
    (h : ∀ x ∈ l, ∀ y ∈ f x, y.1 = key x) (hk : wanted k) :
    ((l.filter fun x => wanted (key x)).flatMap f).filter (·.1 = k) = (l.filter (key · = k)).flatMap f := by
  have hkept : ∀ x ∈ l.filter fun x => wanted (key x), ∀ y ∈ f x, Prod.fst y = key x :=
    fun x hx => h x (List.mem_of_mem_filter hx)
  refine (Grouping.filter_flatMap hkept k).trans ?_
  rw [List.filter_filter]
  refine congrArg (List.flatMap f) (List.filter_congr fun x _ => ?_)
  by_cases hx : key x = k
  · simp [hx, hk]
  · simp [hx]

theorem filter_feeRows {pools : Bool} {wanted : ℤ → Bool} (hk : wanted k) :
    (feeRows pools db wanted).filter (·.1 = k) = feeRows pools db (· = k) := by
  refine filter_wanted wanted (fun f1 _ row hrow => ?_) hk
  simp only [List.mem_flatMap, List.mem_map] at hrow
  obtain ⟨_, -, _, -, _, -, _, -, _, -, rfl⟩ := hrow
  rfl

theorem filter_ledgerRows {effect : Effect} {wanted : ℤ → Bool} (hk : wanted k) :
    (ledgerRows db effect wanted).filter (·.1 = k) = ledgerRows db effect (· = k) := by
  refine filter_wanted wanted (fun l _ row hrow => ?_) hk
  simp only [List.mem_flatMap, List.mem_map] at hrow
  obtain ⟨_, -, _, -, rfl⟩ := hrow
  rfl

omit [LinearOrder A] [LinearOrder B] in
theorem fst_of_mem_ledgerRows {effect : Effect} {row : ℤ × EffectRow} (h : row ∈ ledgerRows db effect (· = k)) :
    row.1 = k := by
  simp only [ledgerRows, List.mem_flatMap, List.mem_map, List.mem_filter, decide_eq_true_eq] at h
  obtain ⟨l, ⟨-, hl⟩, _, -, _, -, rfl⟩ := h
  exact hl

/-! ### Each leg of a page -/

/-- The type of an action, as `getActionType` reads it. -/
def typeOf (db : Tables D) (action_index : ℤ) : Option String := (actionTypes db action_index).head?.join

/-- The fee that one action's own query finds. -/
def feeOf (pools : Bool) (db : Tables D) (action_index : ℤ) : Option FeeRow :=
  (feeRows pools db (· = action_index)).head?.map Prod.snd

theorem answered_fees (V : Type) (db : Tables D) (pools : Bool) (idxs : List ℤ) : ∃ fees,
    (getActionFeeDataBatch pools idxs : Reader D V _).answered db = .ret fees ∧ ∀ idx ∈ idxs, fees idx = feeOf pools db idx := by
  unfold getActionFeeDataBatch
  split
  · next hempty =>
    rw [List.isEmpty_iff.mp hempty]
    exact ⟨_, rfl, fun _ h => absurd h List.not_mem_nil⟩
  · refine ⟨_, rfl, fun idx hidx => ?_⟩
    rw [firstOf_eq, filter_feeRows (decide_eq_true hidx), feeOf]

theorem answered_effects (V : Type) (C : Collations A B) (db : Tables D) (effect : Effect) (idxs : List ℤ) : ∃ effects,
    (prefetchLedgerEffect C effect idxs : Reader D V _).answered db = .ret effects ∧
      ∀ idx ∈ idxs, (effects idx).getD [] = ledgerEffects C db effect idx := by
  unfold prefetchLedgerEffect
  split
  · next hempty =>
    rw [List.isEmpty_iff.mp hempty]
    exact ⟨_, rfl, fun _ h => absurd h List.not_mem_nil⟩
  · refine ⟨_, rfl, fun idx hidx => ?_⟩
    have hrows : (ledgerEffectsBatch C db effect idxs).filter (·.1 = idx) =
        OrderBy.orderBy (· ≤ ·) (fun row : ℤ × EffectRow => toLex (row.1, effectKey C row.2))
          (ledgerRows db effect (· = idx)) := by
      rw [ledgerEffectsBatch, OrderBy.filter_orderBy_of, filter_ledgerRows (decide_eq_true hidx)]
    rw [groupsOf_eq, hrows, ledgerEffects]
    -- among the rows of one action the action index decides nothing
    refine List.map_insertionSort _ _ Prod.snd _ fun a ha b hb => ?_
    change toLex (a.1, effectKey C a.2) ≤ toLex (b.1, effectKey C b.2) ↔ effectKey C a.2 ≤ effectKey C b.2
    rw [Prod.Lex.toLex_le_toLex, fst_of_mem_ledgerRows ha, fst_of_mem_ledgerRows hb]
    simp

omit [LinearOrder A] [LinearOrder B] in
/-- The first of rows read along with other rows is the first of them alone. -/
theorem head?_flatMap_map {α β γ : Type} {l : List α} {g : α → List β} {h : β → γ} {f : α → γ}
    (hne : ∀ a ∈ l, g a ≠ []) (hf : ∀ a ∈ l, ∀ b ∈ g a, h b = f a) : ((l.flatMap g).head?).map h = l.head?.map f := by
  cases l with
  | nil => rfl
  | cons a l =>
    obtain ⟨b, bs, hb⟩ := List.exists_cons_of_ne_nil (hne a List.mem_cons_self)
    rw [List.flatMap_cons, hb, List.cons_append, List.head?_cons, List.head?_cons, Option.map_some, Option.map_some,
      hf a List.mem_cons_self b (hb ▸ List.mem_cons_self)]

omit [LinearOrder A] [LinearOrder B] in
theorem texts_ne_nil (index : List (ℕ × String)) (id : Option ℕ) : texts index id ≠ [] :=
  fun h => leftJoin_ne_nil _ _ (List.map_eq_nil_iff.mp h)

omit [LinearOrder A] [LinearOrder B] in
theorem mem_of_some_mem_texts {index : List (ℕ × String)} {id : Option ℕ} {text : String}
    (h : some text ∈ texts index id) : ∃ i, id = some i ∧ (i, text) ∈ index := by
  obtain ⟨entry, hentry, htext⟩ := List.mem_map.mp h
  unfold leftJoin at hentry
  split at hentry
  · rw [List.mem_singleton.mp hentry] at htext
    cases htext
  · obtain ⟨found, hfound, rfl⟩ := List.mem_map.mp hentry
    obtain ⟨hmem, hid⟩ := List.mem_filter.mp hfound
    cases htext
    exact ⟨found.1, (of_decide_eq_true hid).symm, hmem⟩

omit [LinearOrder A] [LinearOrder B] in
theorem mem_of_some_mem_leftJoin {ρ : Type} {rows : List ρ} {on : ρ → Bool} {row : ρ}
    (h : some row ∈ leftJoin rows on) : row ∈ rows := by
  unfold leftJoin at h
  split at h
  · cases List.mem_singleton.mp h
  · obtain ⟨found, hfound, heq⟩ := List.mem_map.mp h
    cases heq
    exact List.mem_of_mem_filter hfound

theorem filter_metaRows {wanted : ℤ → Bool} (hk : wanted k) :
    (metaRows db wanted).filter (·.1 = k) = metaRows db (· = k) := by
  refine filter_wanted wanted (fun a1 _ row hrow => ?_) hk
  simp only [List.mem_flatMap, List.mem_map] at hrow
  obtain ⟨_, -, _, -, _, -, rfl⟩ := hrow
  rfl

omit [LinearOrder A] [LinearOrder B] in
theorem head?_metaRows (db : Tables D) (k : ℤ) :
    (metaRows db (· = k)).head?.map (fun row => row.2.type) = (actionTypes db k).head? := by
  rw [metaRows, actionTypes, List.head?_flatMap, List.map_findSome?, List.head?_flatMap]
  refine congrArg (List.findSome? · _) (funext fun a1 => ?_)
  rw [Function.comp_apply, head?_flatMap_map (f := id), Option.map_id_fun, id]
  · intro type _ hnil
    rw [List.flatMap_eq_nil_iff] at hnil
    obtain ⟨t1, ht1⟩ := List.exists_mem_of_ne_nil _
      (leftJoin_ne_nil db.transactions fun t1 => some t1.tx_index = a1.tx_index)
    exact texts_ne_nil _ _ (List.map_eq_nil_iff.mp (hnil t1 ht1))
  · intro type _ row hrow
    simp only [List.mem_flatMap, List.mem_map] at hrow
    obtain ⟨_, -, _, -, rfl⟩ := hrow
    rfl

omit [LinearOrder A] [LinearOrder B] in
theorem exists_transaction {row : ℤ × ActionMeta} {wanted : ℤ → Bool} {hash : String} (h : row ∈ metaRows db wanted)
    (hhash : row.2.tx_hash = some hash) : ∃ row ∈ transactionRows db, row.hash = hash := by
  simp only [metaRows, List.mem_flatMap, List.mem_map] at h
  obtain ⟨a1, -, type, -, t1, ht1, tx_hash, htx, rfl⟩ := h
  cases hhash
  obtain ⟨id, hid, hmem⟩ := mem_of_some_mem_texts htx
  obtain ⟨t, rfl, rfl⟩ := Option.map_eq_some_iff.mp hid
  refine ⟨_, List.mem_flatMap.mpr ⟨t, mem_of_some_mem_leftJoin ht1, List.mem_map.mpr ⟨_, List.mem_filter.mpr ⟨hmem, ?_⟩, rfl⟩⟩, rfl⟩
  exact decide_eq_true rfl

/-- A page has the type of each action, and the hash of its transaction where it has one. -/
theorem answered_types (V : Type) (db : Tables D) (idxs : List ℤ) : ∃ actions,
    (getActionMetaBatch idxs : Reader D V _).answered db = .ret actions ∧ ∀ idx ∈ idxs,
      ((actions idx).getD { type := none, tx_hash := none }).type = typeOf db idx ∧
      ∀ hash, ((actions idx).getD { type := none, tx_hash := none }).tx_hash = some hash →
        ∃ row ∈ transactionRows db, row.hash = hash := by
  unfold getActionMetaBatch
  split
  · next hempty =>
    rw [List.isEmpty_iff.mp hempty]
    exact ⟨_, rfl, fun _ h => absurd h List.not_mem_nil⟩
  · refine ⟨_, rfl, fun idx hidx => ?_⟩
    rw [firstOf_eq, filter_metaRows (decide_eq_true hidx), typeOf, ← head?_metaRows]
    rcases hrow : (metaRows db (· = idx)).head? with _ | row
    · exact ⟨rfl, fun hash h => nomatch h⟩
    · exact ⟨rfl, fun hash h => exists_transaction (List.mem_of_mem_head? hrow) h⟩

/-- At most one actions row and one fees row of an action index, and one transactions row of a hash. -/
structure OneRowPerKey (C : Collations A B) (db : Tables D) : Prop where
  actions : (db.actions.map Action.action_index).Nodup
  fees : (db.fees.map Fee.action_index).Nodup
  transactions : ((transactionRows db).map fun row => C.general row.hash).Nodup

omit [LinearOrder A] [LinearOrder B] in
/-- The one row of a key is what a read of the key finds first. -/
theorem head?_of_nodup {α κ : Type} {l : List α} {key : α → κ} {a : α} {p : α → Bool} (hl : (l.map key).Nodup) (ha : a ∈ l)
    (hp : ∀ b, p b → key b = key a) (hpa : p a) : (l.filter p).head? = some a := by
  rcases hhead : (l.filter p).head? with _ | b
  · rw [List.head?_eq_none_iff, List.filter_eq_nil_iff] at hhead
    exact absurd hpa (hhead a ha)
  · obtain ⟨hb, hpb⟩ := List.mem_filter.mp (List.mem_of_mem_head? hhead)
    rw [List.inj_on_of_nodup_map hl hb ha (hp b hpb)]

omit [LinearOrder B] in
/-- What a page has of a hash is the transaction a read of the hash finds, and of a hash that no transaction
    carries it has nothing. -/
theorem answered_txs (V : Type) (hkeys : OneRowPerKey C db) {hashes : List String}
    (hrows : ∀ hash ∈ hashes, ∃ row ∈ transactionRows db, row.hash = hash) : ∃ txs,
    (getTransactionDataBatch C hashes : Reader D V _).answered db = .ret txs ∧
      ∀ hash found, txs hash = some found → found = (transactionsWith C db (some hash)).head? := by
  unfold getTransactionDataBatch
  split
  · exact ⟨_, rfl, fun _ _ h => nomatch h⟩
  · refine ⟨_, rfl, fun hash found hfound => ?_⟩
    rw [firstOf_eq, Option.map_id_fun, id, List.filter_filter] at hfound
    obtain ⟨hmem, hfound⟩ := Option.ite_none_right_eq_some.mp hfound
    cases hfound
    rw [List.mem_eraseDups] at hmem
    -- a hash asked for belongs to a transaction, and any other is there as a row's own
    obtain ⟨row, hrow, rfl, hasked⟩ : ∃ row ∈ transactionRows db, row.hash = hash ∧
        ∃ asked ∈ hashes, C.general row.hash = C.general asked := by
      rcases hmem with hsome | hmem
      · obtain ⟨row, hrow⟩ := Option.isSome_iff_exists.mp hsome
        obtain ⟨hrow, hp⟩ := List.mem_filter.mp (List.mem_of_mem_head? hrow)
        simp only [Bool.and_eq_true, decide_eq_true_eq, List.any_eq_true, List.mem_eraseDups] at hp
        exact ⟨row, hrow, hp.1, hp.2⟩
      · obtain ⟨row, hrow, rfl⟩ := hrows hash hmem
        exact ⟨row, hrow, rfl, row.hash, hmem, rfl⟩
    rw [transactionsWith]
    refine (head?_of_nodup hkeys.transactions hrow (fun other hother => ?_) ?_).trans
      (head?_of_nodup hkeys.transactions hrow (fun other hother => ?_) ?_).symm
    · simp only [Bool.and_eq_true, decide_eq_true_eq] at hother
      rw [hother.1]
    · simpa using hasked
    · simpa using hother
    · simp

/-- The emission of an action, as a set of one resolves it. -/
def emissionOf (db : Tables D) (action_index : ℤ) : Option EmissionRow :=
  ((emissionRows db [action_index]).getLast?.map Prod.snd).map fun v =>
    match (parentRows db [v.execution_index]).getLast?.map Prod.snd with
    | some (contract_index, caller) => { v with contract_index, caller }
    | none => v

omit [LinearOrder A] [LinearOrder B] in
theorem filter_emissionRows (hk : k ∈ idxs) : (emissionRows db idxs).filter (·.1 = k) = emissionRows db [k] := by
  rw [emissionRows, emissionRows, List.filter_filterMap]
  refine List.filterMap_congr fun e _ => ?_
  rcases e.action_index with _ | i
  · rfl
  · by_cases hi : i = k
    · subst hi
      simp [Option.filter, hk]
    · by_cases hmem : i ∈ idxs <;> simp [Option.filter, hi, hmem]

omit [LinearOrder A] [LinearOrder B] in
theorem filter_parentRows {parents : List ℤ} (hk : k ∈ parents) :
    (parentRows db parents).filter (·.1 = k) = parentRows db [k] := by
  have hone : parentRows db [k] = (db.contract_executions.filter (·.action_index = k)).flatMap fun m =>
      (texts db.index_addresses (some m.caller_id)).map fun caller => (m.action_index, m.contract_index, caller) := by
    simp only [parentRows, List.mem_singleton]
  rw [hone]
  refine filter_wanted (· ∈ parents) (fun m _ row hrow => ?_) (decide_eq_true hk)
  obtain ⟨_, -, rfl⟩ := List.mem_map.mp hrow
  rfl

theorem answered_emissions (V : Type) (db : Tables D) (idxs : List ℤ) : ∃ emitted,
    (getEmissionProvenanceBatch idxs : Reader D V _).answered db = .ret emitted ∧
      ∀ idx ∈ idxs, emitted idx = emissionOf db idx := by
  unfold getEmissionProvenanceBatch
  split
  · next hempty =>
    rw [List.isEmpty_iff.mp hempty]
    exact ⟨_, rfl, fun _ h => absurd h List.not_mem_nil⟩
  · rw [Reading.answered_bind_of rfl]
    split
    · next hempty =>
      refine ⟨_, rfl, fun idx hidx => ?_⟩
      have hnone : emissionRows db idxs = [] := List.isEmpty_iff.mp hempty
      rw [emissionOf, ← filter_emissionRows hidx, hnone]
      rfl
    · refine ⟨_, rfl, fun idx hidx => ?_⟩
      have hlast : lastOf Prod.fst Prod.snd (emissionRows db idxs) idx =
          (emissionRows db [idx]).getLast?.map Prod.snd := by
        rw [lastOf_eq, filter_emissionRows hidx]
      rw [emissionOf, hlast]
      rcases hv : (emissionRows db [idx]).getLast? with _ | v
      · rfl
      · -- the execution it names is among those the page asks for
        have hmem : idx ∈ (emissionRows db idxs).map Prod.fst := by
          have hv' := List.mem_of_getLast? hv
          rw [← filter_emissionRows hidx] at hv'
          obtain ⟨hin, hkey⟩ := List.mem_filter.mp hv'
          exact List.mem_map.mpr ⟨v, hin, of_decide_eq_true hkey⟩
        have hparent : v.2.execution_index ∈ (((emissionRows db idxs).map Prod.fst).eraseDups.filterMap fun key =>
            (lastOf Prod.fst Prod.snd (emissionRows db idxs) key).map EmissionRow.execution_index).eraseDups := by
          rw [List.mem_eraseDups, List.mem_filterMap]
          exact ⟨idx, List.mem_eraseDups.mpr hmem, by rw [hlast, hv]; rfl⟩
        rw [Option.map_some, Option.map_some, Option.map_some, lastOf_eq, filter_parentRows hparent]

/-! ### The preload of a page -/

/-- What a preload has of its indexes is what the single reads find. -/
structure Covers (R : Loader D V A B) (db : Tables D) (pre : Preload) : Prop where
  types : ∀ idx ∈ pre.indexes, pre.types idx = some (typeOf db idx)
  fees : ∀ idx ∈ pre.indexes, isNull (typeOf db idx) = false → pre.fees idx = some (feeOf R.pools db idx)
  emitted : ∀ idx ∈ pre.indexes, isNull (typeOf db idx) = false → pre.emitted idx = emissionOf db idx
  effects : ∀ idx ∈ pre.indexes, isNull (typeOf db idx) = false → ∀ effect,
    R.handlers.effects ((typeOf db idx).getD "") effect →
      (pre.effects effect idx).getD [] = ledgerEffects R.collations db effect idx
  txs : ∀ hash found, pre.txs hash = some found → found = (transactionsWith R.collations db (some hash)).head?

theorem answered_prefetch (V : Type) (C : Collations A B) (db : Tables D) (indexesByEffect : Effect → List ℤ) : ∃ effects,
    (prefetchLedgerEffects C indexesByEffect : Reader D V _).answered db = .ret effects ∧
      ∀ effect, ∀ idx ∈ indexesByEffect effect, (effects effect idx).getD [] = ledgerEffects C db effect idx := by
  obtain ⟨credits, hcredits, hc⟩ := answered_effects V C db .credits (indexesByEffect .credits)
  obtain ⟨debits, hdebits, hd⟩ := answered_effects V C db .debits (indexesByEffect .debits)
  obtain ⟨escrows, hescrows, he⟩ := answered_effects V C db .escrows (indexesByEffect .escrows)
  unfold prefetchLedgerEffects
  rw [Reading.answered_bind_of hcredits, Reading.answered_bind_of hdebits, Reading.answered_bind_of hescrows]
  refine ⟨_, rfl, fun effect idx hidx => ?_⟩
  cases effect with
  | credits => exact hc idx hidx
  | debits => exact hd idx hidx
  | escrows => exact he idx hidx

/-- A page's preload, once it is read, covers the page. -/
theorem answered_preload (R : Loader D V A B) (hkeys : OneRowPerKey R.collations db) (idxs : List ℤ) :
    ∃ pre, (buildActionPreload R idxs).answered db = .ret pre ∧ ∀ p, pre = some p → p.indexes = idxs ∧ Covers R db p := by
  unfold buildActionPreload
  split
  · exact ⟨none, rfl, fun p h => nomatch h⟩
  · obtain ⟨actions, hactions, htypes⟩ := answered_types V db idxs
    rw [Reading.answered_bind_of hactions]
    set row := fun idx => (actions idx).getD { type := none, tx_hash := none } with hrow
    set typed := idxs.filter fun idx => !isNull (row idx).type with htyped
    set wanting := fun effect => typed.filter fun idx => R.handlers.effects ((row idx).type.getD "") effect with hwanting
    set hashes := (typed.filterMap fun idx => (row idx).tx_hash).filter fun hash => !isNull (some hash) with hhashes
    have hmem : ∀ idx ∈ idxs, isNull (typeOf db idx) = false → idx ∈ typed := by
      intro idx hidx hnull
      rw [htyped, List.mem_filter, (htypes idx hidx).1, hnull]
      exact ⟨hidx, rfl⟩
    have hhash : ∀ hash ∈ hashes, ∃ row ∈ transactionRows db, row.hash = hash := by
      intro hash hhash
      obtain ⟨idx, hidx, htx⟩ := List.mem_filterMap.mp (List.mem_of_mem_filter hhash)
      exact (htypes idx (List.mem_of_mem_filter hidx)).2 hash htx
    obtain ⟨effects, heffects, he⟩ := answered_prefetch V R.collations db wanting
    obtain ⟨fees, hfees, hf⟩ := answered_fees V db R.pools typed
    obtain ⟨txs, htxs, ht⟩ := answered_txs V hkeys hhash
    obtain ⟨emitted, hemitted, hm⟩ := answered_emissions V db typed
    rw [Reading.answered_bind_of heffects, Reading.answered_bind_of hfees, Reading.answered_bind_of htxs,
      Reading.answered_bind_of hemitted]
    refine ⟨_, rfl, ?_⟩
    rintro p ⟨⟩
    refine ⟨rfl, fun idx hidx => ?_, fun idx hidx hnull => ?_, fun idx hidx hnull => hm idx (hmem idx hidx hnull),
      fun idx hidx hnull effect hflag => he effect idx ?_, ht⟩
    · have htype : (if idx ∈ idxs then some (row idx).type else none) = some (typeOf db idx) := by
        rw [if_pos hidx, (htypes idx hidx).1]
      exact htype
    · have hfee : (if idx ∈ typed then some (fees idx) else none) = some (feeOf R.pools db idx) := by
        rw [if_pos (hmem idx hidx hnull), hf idx (hmem idx hidx hnull)]
      exact hfee
    · rw [hwanting, List.mem_filter, (htypes idx hidx).1]
      exact ⟨hmem idx hidx hnull, hflag⟩

/-! ### One action with a preload and without -/

variable {R : Loader D V A B} {pre : Preload} {idx : ℤ}

theorem answered_attachEmissionProvenance (hpre : Covers R db pre) (hidx : idx ∈ pre.indexes)
    (hnull : isNull (typeOf db idx) = false) (data : Data V) :
    (attachEmissionProvenance idx data (some pre)).answered db = (attachEmissionProvenance idx data none).answered db := by
  obtain ⟨emitted, hemitted, hm⟩ := answered_emissions V db [idx]
  unfold attachEmissionProvenance
  refine Reading.answered_bind_congr ?_ fun _ => rfl
  rw [Option.filter_some_pos (by simpa using hidx)]
  simp only [Option.filter_none]
  rw [Reading.answered_bind_of hemitted, Reading.answered_pure, Reading.answered_pure, hm idx (List.mem_singleton_self idx),
    hpre.emitted idx hidx hnull]

theorem answered_attachLedgerEffects (hpre : Covers R db pre) (hidx : idx ∈ pre.indexes)
    (hnull : isNull (typeOf db idx) = false) (data : Data V) :
    (attachLedgerEffects R.collations idx data (R.handlers.effects ((typeOf db idx).getD "")) (some pre)).answered db =
      (attachLedgerEffects R.collations idx data (R.handlers.effects ((typeOf db idx).getD "")) none).answered db := by
  have hstep : ∀ data effect,
      (attachLedgerEffect R.collations idx (R.handlers.effects ((typeOf db idx).getD "")) (some pre) data effect :
        Reader D V _).answered db =
      (attachLedgerEffect R.collations idx (R.handlers.effects ((typeOf db idx).getD "")) none data effect).answered db := by
    intro data effect
    unfold attachLedgerEffect
    split
    · rfl
    · next hflag =>
      refine Reading.answered_bind_congr ?_ fun _ => rfl
      rw [Reading.answered_pure, Reading.answered_ask, hpre.effects idx hidx hnull effect (by simpa using hflag)]
  unfold attachLedgerEffects
  generalize EFFECT_TABLES = tables
  induction tables generalizing data with
  | nil => rfl
  | cons effect tables ih =>
    rw [List.foldlM_cons, List.foldlM_cons]
    exact Reading.answered_bind_congr (hstep data effect) ih

theorem answered_attachActionTail (hpre : Covers R db pre) (hidx : idx ∈ pre.indexes)
    (hnull : isNull (typeOf db idx) = false) (data : Data V) :
    (attachActionTail R ((typeOf db idx).getD "") idx data (some pre)).answered db =
      (attachActionTail R ((typeOf db idx).getD "") idx data none).answered db := by
  unfold attachActionTail
  refine Reading.answered_bind_congr rfl fun data => ?_
  refine Reading.answered_bind_congr (answered_attachEmissionProvenance hpre hidx hnull data) fun data => ?_
  refine Reading.answered_bind_congr (answered_attachLedgerEffects hpre hidx hnull data) fun data => ?_
  refine Reading.answered_bind_congr rfl fun data => ?_
  refine Reading.answered_bind_congr ?_ fun fee => Reading.answered_bind_congr ?_ fun _ => rfl
  · rw [Option.bind_some, hpre.fees idx hidx hnull, Option.bind_none]
    rfl
  · -- a hash the page has not read goes the single way
    generalize (if fee.isSome = true then { data with payload := { data.payload with fee } } else data) = data
    rw [Option.bind_some, Option.bind_none]
    rcases hfound : (if isNull data.payload.tx_hash = true then none else data.payload.tx_hash).bind pre.txs with _ | found
    · rfl
    · obtain ⟨hash, hhash, htx⟩ := Option.bind_eq_some_iff.mp hfound
      obtain ⟨-, hhash⟩ := Option.ite_none_left_eq_some.mp hhash
      rw [hhash, hpre.txs hash found htx]
      rfl

/-- With a preload that covers it an action is read as it is without. -/
theorem answered_readAction (hpre : Covers R db pre) (idx : ℤ) :
    (readAction R idx (some pre)).answered db = (readAction R idx none).answered db := by
  by_cases hidx : idx ∈ pre.indexes
  · have hkept : (some pre).filter (fun preload => preload.indexes.contains idx) = some pre :=
      Option.filter_some_pos (by simpa using hidx)
    unfold readAction
    rw [hkept]
    simp only [Option.filter_none, Option.bind_some, Option.bind_none, hpre.types idx hidx]
    have hsingle : (getActionType idx : Reader D V _).answered db = .ret (typeOf db idx) := rfl
    rw [Reading.answered_bind_of hsingle, Reading.answered_bind_of (Reading.answered_pure db (typeOf db idx))]
    rcases htype : (typeOf db idx).filter fun type => type ≠ "" with _ | type
    · rfl
    · obtain ⟨hsome, hne⟩ := Option.filter_eq_some_iff.mp htype
      have hnull : isNull (typeOf db idx) = false := by
        rw [hsome]
        simpa [isNull] using hne
      have htail := answered_attachActionTail hpre hidx hnull
      rw [hsome, Option.getD_some] at htail
      exact Reading.answered_bind_congr rfl htail
  · have hnone : (some pre).filter (fun preload => preload.indexes.contains idx) = none :=
      Option.filter_some_neg (by simpa using hidx)
    unfold readAction
    rw [hnone]
    rfl

end PagePreload
