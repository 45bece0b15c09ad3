import XChainExplorer.Hub.RowUpserts
import XChainExplorer.Lib.JoinedFields
import XChainExplorer.Lib.JsNumber
import Mathlib.Data.Finset.Card

/-! # Price rows in batches

    How the pages of a drain reach `price_snapshots`: rows are held back and flushed as one statement of
    many tuples where they present the same columns, and one at a time where they do not or where that
    statement did not land. Whatever became of each statement, the table and the drain's accounting are
    those of the rows applied one by one. A row's local surrogate `id` is no part of it. -/

namespace HubDbSync.Batch

open OnDuplicate JsNumber

/-- A row as the hub serves it, an object of JSON fields. -/
abbrev HubRow := List (String × Field)

/-- The columns that a row from the hub carries. -/
def HubRow.keys (row : HubRow) : List String := row.map Prod.fst

/-- A column of it. -/
def HubRow.get (row : HubRow) (c : String) : Field := (row.lookup c).getD .absent

/-- A row as the mirror stores it. -/
abbrev LocalRow := String → SqlValue

/-- The table, by its key. -/
abbrev Table (κ : Type*) := κ → Option LocalRow

/-- The columns `price_snapshots.sql` declares. -/
def PRICE_SNAPSHOTS_COLUMNS : List String :=
  ["id", "round_number", "coin_pair", "price", "reference_block", "reference_chain", "block_timestamp",
    "validator_count", "consensus_round", "consensus_proof", "status", "source_chain", "source_action_index",
    "push_generation", "batch_block_time", "admit_block_btc", "admit_block_ltc", "admit_block_doge", "created_at"]

/-- The client and the server its table stands on. What a tuple of arguments comes to in the columns'
    types, their defaults included, is the server's: a tuple it rejects fails its statement. -/
structure Mirror (κ : Type*) where
  batchApplyDisabled : Bool := false
  batchApplyRows : ℕ
  /-- `SHOW COLUMNS`, the types in lower case. -/
  columns : List (String × String)
  declared : columns.map Prod.fst ⊆ PRICE_SNAPSHOTS_COLUMNS
  /-- `new Date(iso).toISOString()` up to the seconds, where the date is a valid one. -/
  isoSeconds : String → Option String
  record : (cols : List String) → (args : List Field) → Option LocalRow
  recordIgnore : (cols : List String) → (args : List Field) → Option LocalRow
  /-- `UNIQUE KEY (round_number, coin_pair)`, as the collation compares it. -/
  naturalKey : LocalRow → κ

/-! ### Values -/

/-- The text begins with the shape, where `d` stands for a digit. -/
def matchesShape : List Char → List Char → Bool
  | [], _ => true
  | _ :: _, [] => false
  | p :: shape, c :: cs => (if p = 'd' then c.isDigit else c == p) && matchesShape shape cs

/-- A column that holds a time. -/
def isDateTimeType (columnType : String) : Bool :=
  "datetime".toList.isPrefixOf columnType.toList || "timestamp".toList.isPrefixOf columnType.toList

/-- A text that starts like a time in ISO form. -/
def isIsoDateTime (v : String) : Bool := matchesShape "dddd-dd-ddTdd:dd:dd".toList v.toList

/-- The text ends in `Z` or in an offset. -/
def endsInOffset (v : String) : Bool :=
  ["Z", "+dd:dd", "-dd:dd", "+dddd", "-dddd"].any fun shape =>
    matchesShape shape.toList.reverse v.toList.reverse

variable {κ : Type*} (m : Mirror κ)

/-- A time in ISO form goes into a time column as the database writes it. -/
def Mirror.coerceMirrorValue (v : Field) (columnType : String) : Field :=
  match v with
  | .text s =>
    if columnType ≠ "" && !isDateTimeType columnType then v
    else if !isIsoDateTime s then v
    else (m.isoSeconds (if endsInOffset s then s else s ++ "Z")).elim v .text
  | _ => v

/-- The type of a column. -/
def Mirror.cachedColumnType (c : String) : String := (m.columns.lookup c).getD ""

/-- The columns of a row that the mirror has, but for the hub's own id. -/
def Mirror.mirroredColumns (row : HubRow) : List String :=
  row.keys.filter fun c => c != "id" && (m.columns.map Prod.fst).contains c

/-- The values of a row, in the order of the columns. -/
def Mirror.args (cols : List String) (row : HubRow) : List Field :=
  cols.map fun c => m.coerceMirrorValue (row.get c) (m.cachedColumnType c)

/-! ### Statements -/

/-- `VALUES(status) IN ('finalized', 'disputed')`. -/
def takesRow (values : LocalRow) : Bool :=
  values "status" = .text "finalized" || values "status" = .text "disputed"

/-- `c = VALUES(c)`. -/
def copyColumn (c : String) : Assignment LocalRow := fun values row => Function.update row c (values c)

/-- The columns an upsert of prices assigns, the status last. -/
def updatedColumns (cols : List String) : List String :=
  (cols.filter fun c => c ∉ ["id", "round_number", "coin_pair", "status"]) ++ ["status"]

/-- The assignments of the upsert, each behind the status gate. -/
def priceUpsertSql (cols : List String) : List (Assignment LocalRow) :=
  (updatedColumns cols).map fun c => gated (fun values _ => takesRow values) (copyColumn c)

/-- The placeholder tuples of a statement, cut from its flat list of arguments. -/
def tuples (width : ℕ) : ℕ → List Field → List (List Field)
  | 0, _ => []
  | n + 1, args => args.take width :: tuples width n (args.drop width)

variable [DecidableEq κ]

/-- `INSERT … VALUES (…), (…) ON DUPLICATE KEY UPDATE`: the tuples run in order over what the ones before
    them wrote, and one that is rejected undoes them all. -/
def Mirror.upsertPrices (cols : List String) (rowCount : ℕ) (args : List Field) (t : Table κ) :
    Option (Table κ) :=
  (tuples cols.length rowCount args).foldlM
    (fun t args => (m.record cols args).map (put m.naturalKey (priceUpsertSql cols) t)) t

/-- `INSERT IGNORE`. -/
def Mirror.insertIgnore (cols : List String) (args : List Field) (t : Table κ) : Table κ :=
  match m.recordIgnore cols args with
  | some values => Function.update t (m.naturalKey values) ((t (m.naturalKey values)).or (some values))
  | none => t

/-- What becomes of the statement of a batch on its way to the server. -/
inductive Fate where
  | answered
  | lost
  /-- It ran, and its answer was lost. -/
  | unanswered
  /-- The column list of the table could not be read. -/
  | columnsUnread
  deriving DecidableEq

/-- A write whose outcome is told only by an answer: whether it is known to have landed, and the table. -/
def applyMirrorWrite (statement : Table κ → Option (Table κ)) (fate : Fate) (t : Table κ) : Bool × Table κ :=
  match fate, statement t with
  | .answered, some t' => (true, t')
  | .unanswered, some t' => (false, t')
  | _, _ => (false, t)

/-! ### Applying rows -/

/-- A batch of prices. `false` is "not applied": the caller applies the rows one at a time. -/
def Mirror.applyRowsBatched (rows : List HubRow) (fate : Fate) (t : Table κ) : Bool × Table κ :=
  match rows with
  | row :: _ :: _ =>
    let cols := m.mirroredColumns row
    if m.batchApplyDisabled || decide (fate = .columnsUnread) || m.columns.isEmpty then (false, t)
    else if cols.isEmpty || !cols.contains "status" then (false, t)
    else if rows.all fun r => String.join (m.mirroredColumns r) == String.join cols then
      applyMirrorWrite (m.upsertPrices cols rows.length (rows.flatMap (m.args cols))) fate t
    else (false, t)
  | _ => (false, t)

/-- One price row; `none` where the apply throws. No fence judges a price: the table carries neither a
    chain id nor a network. -/
def Mirror.applyRow (row : HubRow) (t : Table κ) : Option (Table κ) :=
  let cols := m.mirroredColumns row
  if m.columns.isEmpty then none
  else if cols.isEmpty then some t
  else if cols.contains "status" then m.upsertPrices cols 1 (m.args cols row) t
  else some (m.insertIgnore cols (m.args cols row) t)

/-! ### The drain's accounting -/

/-- The most keys of finalized rounds that a drain keeps. -/
def PRICE_FINALIZED_KEY_CAP : ℕ := 500000

/-- The key of a round of a pair. -/
def priceRoundKey (round pair : Field) : String := round.toString ++ "\x00" ++ pair.toString

/-- What a drain keeps of the rows it was served. -/
structure Accounting where
  lastId : ℚ
  drainPosition : ℚ
  applied : ℕ := 0
  priceHorizon : ℚ := 0
  priceFloor : ℚ := 0
  priceSkipped : ℕ := 0
  minAppliedWireId : Option ℚ := none
  preHorizonServed : Finset String := ∅
  preHorizonRetained : Finset String := ∅
  pricePairCovered : Finset String := ∅
  pricePairHeld : String → Option HubRow := fun _ => none
  servedPriceKeys : Finset String := ∅
  priceKeysComplete : Bool := true
  maxServedRound : ℚ := 0

variable (d : Accounting) (row : HubRow)

/-- A row before the horizon and below the floor is left out. -/
def Accounting.priceRowBoundOut : Bool :=
  match (row.get "block_timestamp").toNumber with
  | some rowTs => 0 < d.priceHorizon && 0 < rowTs && rowTs < d.priceHorizon && rowTs < d.priceFloor
  | none => false

/-- A round that is settled. -/
def HubRow.finalized (row : HubRow) : Bool := (row.get "status").toString = "finalized"

/-- The time of the row is before the horizon. -/
def Accounting.preHorizon : Bool :=
  match (row.get "block_timestamp").toNumber with
  | some rowTs => 0 < d.priceHorizon && 0 < rowTs && rowTs < d.priceHorizon
  | none => false

/-- The row's round is newer than that of its pair's held predecessor. -/
def Accounting.newestHeld : Bool :=
  match (row.get "round_number").toNumber, d.pricePairHeld (row.get "coin_pair").toString with
  | some _, none => true
  | some rn, some held => (held.get "round_number").toNumber.elim false fun heldRn => heldRn < rn
  | none, _ => false

/-- The row into the drain's account, and whether it is left out. -/
def Accounting.decidePriceBound : Accounting :=
  let boundOut := d.priceRowBoundOut row
  let preHorizon := d.preHorizon row && row.finalized
  let round := (row.get "round_number").toString
  let pair := (row.get "coin_pair").toString
  { d with
    preHorizonServed := if preHorizon then insert round d.preHorizonServed else d.preHorizonServed
    preHorizonRetained :=
      if preHorizon && !boundOut then insert round d.preHorizonRetained else d.preHorizonRetained
    pricePairCovered :=
      if 0 < d.priceHorizon && row.finalized && !boundOut then insert pair d.pricePairCovered
      else d.pricePairCovered
    pricePairHeld :=
      if row.finalized && boundOut && d.newestHeld row then Function.update d.pricePairHeld pair (some row)
      else d.pricePairHeld }

/-- Only finalized rows are kept by key. -/
def Accounting.recordServedRow : Accounting :=
  let full := decide (PRICE_FINALIZED_KEY_CAP ≤ d.servedPriceKeys.card)
  let key := priceRoundKey (row.get "round_number") (row.get "coin_pair")
  { d with
    maxServedRound := (row.get "round_number").toNumber.elim d.maxServedRound (max d.maxServedRound)
    servedPriceKeys := if row.finalized && !full then insert key d.servedPriceKeys else d.servedPriceKeys
    priceKeysComplete := d.priceKeysComplete && !(row.finalized && full) }

/-- Behind a row that was applied or bounded out. -/
def Accounting.handled : Accounting :=
  let boundOut := d.priceRowBoundOut row
  let rowId := (row.get "id").toNumber
  let reached := match rowId, d.minAppliedWireId with
    | some id, some least => decide (least ≤ id)
    | _, _ => false
  let d := d.recordServedRow row
  { d with
    priceSkipped := if boundOut then d.priceSkipped + 1 else d.priceSkipped
    applied := if boundOut then d.applied else d.applied + 1
    minAppliedWireId := if !boundOut && 0 < d.priceHorizon && !reached then rowId else d.minAppliedWireId
    lastId := rowId.elim d.lastId (max d.lastId)
    drainPosition := rowId.elim d.drainPosition fun id => if d.lastId < id then id else d.drainPosition }

/-! ### The drain -/

/-- The table, the drain's account and the errors so far. -/
structure State (κ : Type*) where
  table : Table κ
  drain : Accounting
  applyErrors : ℕ := 0

variable (s : State κ)

/-- One held row, or the batch's word that it landed; `false` stops the page at this row. -/
def Mirror.applyPendingRow (batched : Bool) : Bool × State κ :=
  let d := s.drain.decidePriceBound row
  match if d.priceRowBoundOut row || batched then some s.table else m.applyRow row s.table with
  | some table => (true, { s with table, drain := d.handled row })
  | none => (false, { s with drain := d, applyErrors := s.applyErrors + 1 })

/-- Rows in order, up to the first that cannot be applied. -/
def Mirror.applyPendingRows (batched : Bool) : List HubRow → State κ → Bool × State κ
  | [], s => (true, s)
  | row :: rows, s =>
    match m.applyPendingRow row s (batched && !s.drain.priceRowBoundOut row) with
    | (true, s) => Mirror.applyPendingRows batched rows s
    | (false, s) => (false, s)

/-- The rows held back, as one statement where the batch takes them. -/
def Mirror.flushPendingRows (fate : Fate) (pending : List HubRow) (s : State κ) : Bool × State κ :=
  let batch := pending.filter fun row => !s.drain.priceRowBoundOut row
  let (batched, table) := if 1 < batch.length then m.applyRowsBatched batch fate s.table else (false, s.table)
  m.applyPendingRows batched pending { s with table }

/-- What the chunk boundary left behind. -/
def Mirror.endPage (fate : Fate) (pending : List HubRow) (s : State κ) : State κ :=
  if s.applyErrors = 0 then (m.flushPendingRows fate pending s).2 else s

/-- The rows of a page, flushed at every chunk boundary. The fates are those of the flushes, counted by
    the rows before them. -/
def Mirror.applyPage (fate : ℕ → Fate) (pending : List HubRow) : List HubRow → State κ → State κ
  | [], s => m.endPage (fate 0) pending s
  | row :: rows, s =>
    if m.batchApplyRows ≤ (pending ++ [row]).length then
      match m.flushPendingRows (fate 0) (pending ++ [row]) s with
      | (true, s) => Mirror.applyPage (fun n => fate (n + 1)) [] rows s
      | (false, s) => m.endPage (fate 1) [] s
    else Mirror.applyPage (fun n => fate (n + 1)) (pending ++ [row]) rows s

/-- The pages of a drain, up to one that met a hole. -/
def Mirror.drainTablePages : List ((ℕ → Fate) × List HubRow) → State κ → State κ
  | [], s => s
  | (fate, page) :: pages, s =>
    let s := m.applyPage fate [] page s
    if 0 < s.applyErrors then s else Mirror.drainTablePages pages s

/-! ### The statement of one row and of many -/

omit [DecidableEq κ] in
/-- No name of a column begins with another one. -/
theorem columns_prefixFree : ∀ a ∈ PRICE_SNAPSHOTS_COLUMNS.map String.toList,
    ∀ b ∈ PRICE_SNAPSHOTS_COLUMNS.map String.toList, a <+: b → a = b := by
  decide

omit [DecidableEq κ] in
theorem mirroredColumns_subset : m.mirroredColumns row ⊆ PRICE_SNAPSHOTS_COLUMNS := by
  intro c hc
  have hlocal := (List.mem_filter.mp hc).2
  rw [Bool.and_eq_true, List.contains_iff_mem] at hlocal
  exact m.declared hlocal.2

variable {m row d s}

omit [DecidableEq κ] in
/-- The signature of a row tells its columns. -/
theorem mirroredColumns_inj {row' : HubRow}
    (h : String.join (m.mirroredColumns row) = String.join (m.mirroredColumns row')) :
    m.mirroredColumns row = m.mirroredColumns row' := by
  have hwords (row : HubRow) :
      (m.mirroredColumns row).map String.toList ⊆ PRICE_SNAPSHOTS_COLUMNS.map String.toList :=
    List.map_subset _ (mirroredColumns_subset m row)
  have hjoin := congrArg String.toList h
  rw [String.toList_join, String.toList_join, List.flatMap_def, List.flatMap_def] at hjoin
  have hmap := JoinedFields.flatten_inj (by decide) columns_prefixFree (hwords row) (hwords row') hjoin
  exact List.map_injective_iff.mpr (fun _ _ => String.toList_injective) hmap

theorem tuples_flatMap {width : ℕ} (f : HubRow → List Field) (hf : ∀ row, (f row).length = width)
    (rows : List HubRow) : tuples width rows.length (rows.flatMap f) = rows.map f := by
  induction rows with
  | nil => rfl
  | cons row rows ih =>
    rw [List.flatMap_cons, List.length_cons, tuples, List.take_left' (hf row), List.drop_left' (hf row), ih]
    rfl

/-- Rows one after the other, up to the first that throws. -/
def Mirror.applyRows (m : Mirror κ) (rows : List HubRow) (t : Table κ) : Option (Table κ) :=
  rows.foldlM (fun t row => m.applyRow row t) t

omit [DecidableEq κ] in
theorem args_length (cols : List String) : (m.args cols row).length = cols.length := List.length_map ..

/-- A row of a batch is a statement of its own. -/
theorem applyRow_eq {cols : List String} (hcolumns : m.columns.isEmpty = false) (hstatus : "status" ∈ cols)
    (hcols : m.mirroredColumns row = cols) (t : Table κ) :
    m.applyRow row t = (m.record cols (m.args cols row)).map (put m.naturalKey (priceUpsertSql cols) t) := by
  have hne : cols.isEmpty = false := by
    rw [List.isEmpty_eq_false_iff]
    exact List.ne_nil_of_mem hstatus
  have hone : m.upsertPrices cols 1 (m.args cols row) t =
      (m.record cols (m.args cols row)).map (put m.naturalKey (priceUpsertSql cols) t) := by
    rw [Mirror.upsertPrices, tuples, tuples, ← @args_length _ m row cols, List.take_length,
      List.foldlM_cons]
    cases m.record cols (m.args cols row) <;> rfl
  rw [← hone]
  simp only [Mirror.applyRow, hcols, hcolumns, hne, List.contains_iff_mem.mpr hstatus, if_true,
    Bool.false_eq_true, if_false]

/-- A list of rows that present the same columns runs as a fold of its records. -/
theorem applyRows_eq {cols : List String} (hcolumns : m.columns.isEmpty = false) (hstatus : "status" ∈ cols)
    {rows : List HubRow} (hrows : ∀ row ∈ rows, m.mirroredColumns row = cols) (t : Table κ) :
    m.applyRows rows t = rows.foldlM (fun t row =>
      (m.record cols (m.args cols row)).map (put m.naturalKey (priceUpsertSql cols) t)) t := by
  induction rows generalizing t with
  | nil => rfl
  | cons row rows ih =>
    have hrest : ∀ row ∈ rows, m.mirroredColumns row = cols := fun r hr => hrows r (List.mem_cons_of_mem _ hr)
    rw [Mirror.applyRows, List.foldlM_cons, List.foldlM_cons,
      applyRow_eq hcolumns hstatus (hrows row List.mem_cons_self)]
    congr 1
    funext t'
    exact ih hrest t'

/-- The tuples of a statement are the rows it was built from. -/
theorem upsertPrices_eq {cols : List String} (hcolumns : m.columns.isEmpty = false) (hstatus : "status" ∈ cols)
    {rows : List HubRow} (hrows : ∀ row ∈ rows, m.mirroredColumns row = cols) (t : Table κ) :
    m.upsertPrices cols rows.length (rows.flatMap (m.args cols)) t = m.applyRows rows t := by
  rw [applyRows_eq hcolumns hstatus hrows, Mirror.upsertPrices, tuples_flatMap _ (fun _ => args_length cols),
    List.foldlM_map]

/-! ### A statement that ran twice -/

theorem assign_copyColumn (cols : List String) (values row : LocalRow) (c : String) :
    assign (cols.map copyColumn) values row c = if c ∈ cols then values c else row c := by
  induction cols generalizing row with
  | nil => rfl
  | cons b cols ih =>
    rw [List.map_cons, assign_cons, ih]
    by_cases hc : c ∈ cols
    · simp [hc]
    · by_cases hb : c = b
      · subst hb
        simp [hc, copyColumn]
      · simp [hc, hb, copyColumn]

/-- A finalized or disputed row is taken whole, a skipped one not at all. -/
theorem assign_priceUpsertSql (cols : List String) (values row : LocalRow) :
    assign (priceUpsertSql cols) values row =
      if takesRow values then assign ((updatedColumns cols).map copyColumn) values row else row := by
  have hsets : priceUpsertSql cols =
      ((updatedColumns cols).map copyColumn).map (gated fun values _ => takesRow values) := by
    rw [List.map_map]
    rfl
  rw [hsets]
  exact assign_gated (fun _ _ _ _ hgate => by exact hgate) values row

/-- Rows that ran leave nothing for a second run. -/
theorem applyRows_again {cols : List String} (hcolumns : m.columns.isEmpty = false) (hstatus : "status" ∈ cols)
    {rows : List HubRow} (hrows : ∀ row ∈ rows, m.mirroredColumns row = cols) {t t' : Table κ}
    (h : m.applyRows rows t = some t') : m.applyRows rows t' = some t' := by
  rw [applyRows_eq hcolumns hstatus hrows] at h ⊢
  refine foldlM_put_again (assign_priceUpsertSql cols) (fun v w row => ?_) (fun v => ?_) h
  · funext c
    simp only [assign_copyColumn]
    split_ifs <;> rfl
  · funext c
    rw [assign_copyColumn, ite_self]

/-! ### A batch and the rows it stands for -/

omit [DecidableEq κ] in
theorem applyMirrorWrite_cases {statement : Table κ → Option (Table κ)} {fate : Fate} {t t' : Table κ}
    {landed : Bool} (h : applyMirrorWrite statement fate t = (landed, t')) :
    (landed = false ∧ t' = t) ∨ statement t = some t' := by
  unfold applyMirrorWrite at h
  split at h
  case h_1 hrun =>
    cases h
    exact .inr hrun
  case h_2 hrun =>
    cases h
    exact .inr hrun
  case h_3 =>
    cases h
    exact .inl ⟨rfl, rfl⟩

/-- A batch left the table alone, or it ran all of its rows; where it does not report so, they may run
    once more. -/
theorem applyRowsBatched_cases {rows : List HubRow} {fate : Fate} {t t' : Table κ} {batched : Bool}
    (h : m.applyRowsBatched rows fate t = (batched, t')) :
    (batched = false ∧ t' = t) ∨
      (m.applyRows rows t = some t' ∧ (batched = false → m.applyRows rows t' = some t')) := by
  cases rows with
  | nil =>
    cases h
    exact .inl ⟨rfl, rfl⟩
  | cons row rest =>
    cases rest with
    | nil =>
      cases h
      exact .inl ⟨rfl, rfl⟩
    | cons row' rest =>
      simp only [Mirror.applyRowsBatched] at h
      split_ifs at h with hdeclined hcols hsame
      · cases h
        exact .inl ⟨rfl, rfl⟩
      · cases h
        exact .inl ⟨rfl, rfl⟩
      · simp only [Bool.or_eq_true, not_or, Bool.not_eq_true, Bool.not_eq_false'] at hdeclined hcols
        have hstatus : "status" ∈ m.mirroredColumns row := List.contains_iff_mem.mp hcols.2
        have hrows : ∀ r ∈ row :: row' :: rest, m.mirroredColumns r = m.mirroredColumns row :=
          fun r hr => mirroredColumns_inj (by simpa using List.all_eq_true.mp hsame r hr)
        rcases applyMirrorWrite_cases h with hlost | hran
        · exact .inl hlost
        · rw [upsertPrices_eq hdeclined.2 hstatus hrows] at hran
          exact .inr ⟨hran, fun _ => applyRows_again hdeclined.2 hstatus hrows hran⟩
      · cases h
        exact .inl ⟨rfl, rfl⟩

/-! ### The flush -/

/-- What a drain counts for a row. -/
def Accounting.account (d : Accounting) (row : HubRow) : Accounting := (d.decidePriceBound row).handled row

/-- The bound of a drain is fixed before its first row. -/
@[simp] theorem decidePriceBound_priceRowBoundOut :
    (d.decidePriceBound row).priceRowBoundOut = d.priceRowBoundOut := rfl

@[simp] theorem account_priceRowBoundOut : (d.account row).priceRowBoundOut = d.priceRowBoundOut := rfl

/-- Rows the bound keeps. -/
def Accounting.kept (d : Accounting) (rows : List HubRow) : List HubRow :=
  rows.filter fun row => !d.priceRowBoundOut row

/-- Rows whose batch landed are only accounted for. -/
theorem applyPendingRows_batched (rows : List HubRow) (s : State κ) :
    m.applyPendingRows true rows s = (true, { s with drain := rows.foldl Accounting.account s.drain }) := by
  induction rows generalizing s with
  | nil => rfl
  | cons row rows ih =>
    have hrow : m.applyPendingRow row s (true && !s.drain.priceRowBoundOut row) =
        (true, { s with drain := s.drain.account row }) := by
      rw [Mirror.applyPendingRow, decidePriceBound_priceRowBoundOut, Bool.true_and, Bool.or_not_self, if_pos rfl]
      rfl
    rw [Mirror.applyPendingRows, hrow]
    exact ih _

/-- Rows that apply one after the other leave the same accounting, and their table. -/
theorem applyPendingRows_of_applyRows {rows : List HubRow} {s : State κ} {t : Table κ}
    (h : m.applyRows (s.drain.kept rows) s.table = some t) :
    m.applyPendingRows false rows s =
      (true, { s with table := t, drain := rows.foldl Accounting.account s.drain }) := by
  induction rows generalizing s with
  | nil =>
    cases h
    rfl
  | cons row rows ih =>
    rw [Mirror.applyPendingRows, Mirror.applyPendingRow, decidePriceBound_priceRowBoundOut, Bool.false_and,
      Bool.or_false]
    by_cases hbound : s.drain.priceRowBoundOut row = true
    · rw [Accounting.kept, List.filter_cons_of_neg (by simpa using hbound)] at h
      rw [if_pos hbound]
      exact ih h
    · rw [Accounting.kept, List.filter_cons_of_pos (by simpa using hbound), Mirror.applyRows, List.foldlM_cons] at h
      rw [if_neg hbound]
      cases happly : m.applyRow row s.table with
      | none =>
        rw [happly] at h
        cases h
      | some t' =>
        rw [happly] at h
        exact ih h

/-- A flush is its rows in order, whatever became of the batch. -/
theorem flushPendingRows_eq (fate : Fate) (pending : List HubRow) (s : State κ) :
    m.flushPendingRows fate pending s = m.applyPendingRows false pending s := by
  rw [Mirror.flushPendingRows]
  by_cases hlength : 1 < (pending.filter fun row => !s.drain.priceRowBoundOut row).length
  · rw [if_pos hlength]
    rcases hbatch : m.applyRowsBatched (s.drain.kept pending) fate s.table with ⟨batched, t⟩
    rw [Accounting.kept] at hbatch
    simp only [hbatch]
    rcases applyRowsBatched_cases hbatch with ⟨rfl, rfl⟩ | ⟨hran, hagain⟩
    · rfl
    · rw [applyPendingRows_of_applyRows hran]
      cases batched with
      | true => exact applyPendingRows_batched pending _
      | false =>
        -- the answer was lost, and the rows run over what the batch left
        exact applyPendingRows_of_applyRows (hagain rfl)
  · rw [if_neg hlength]

/-! ### The pages -/

theorem applyPendingRows_append (rows rows' : List HubRow) (s : State κ) :
    m.applyPendingRows false (rows ++ rows') s =
      match m.applyPendingRows false rows s with
      | (true, s) => m.applyPendingRows false rows' s
      | (false, s) => (false, s) := by
  induction rows generalizing s with
  | nil => rfl
  | cons row rows ih =>
    rw [List.cons_append, Mirror.applyPendingRows, Mirror.applyPendingRows]
    rcases m.applyPendingRow row s (false && !s.drain.priceRowBoundOut row) with ⟨ok, s'⟩
    cases ok with
    | true => exact ih s'
    | false => rfl

theorem applyPendingRow_applyErrors {batched : Bool} {s s' : State κ} {ok : Bool}
    (h : m.applyPendingRow row s batched = (ok, s')) :
    s'.applyErrors = if ok then s.applyErrors else s.applyErrors + 1 := by
  simp only [Mirror.applyPendingRow] at h
  split at h
  · cases h
    rfl
  · cases h
    rfl

/-- A page stops at a row exactly when it counts an error. -/
theorem applyPendingRows_applyErrors {rows : List HubRow} {s s' : State κ} {ok : Bool}
    (h : m.applyPendingRows false rows s = (ok, s')) (hs : s.applyErrors = 0) :
    s'.applyErrors = if ok then 0 else 1 := by
  induction rows generalizing s with
  | nil =>
    cases h
    exact hs
  | cons row rows ih =>
    rw [Mirror.applyPendingRows] at h
    rcases hrow : m.applyPendingRow row s (false && !s.drain.priceRowBoundOut row) with ⟨ok', s₁⟩
    rw [hrow] at h
    have herrors := applyPendingRow_applyErrors hrow
    cases ok' with
    | true => exact ih h (herrors.trans hs)
    | false =>
      cases h
      rw [herrors, hs]

/-- The table and the accounting of rows applied one by one, in order, up to the first that cannot be. -/
def Mirror.applyInOrder (m : Mirror κ) (rows : List HubRow) (s : State κ) : State κ :=
  (m.applyPendingRows false rows s).2

theorem applyPage_eq (fate : ℕ → Fate) (pending rows : List HubRow) {s : State κ} (hs : s.applyErrors = 0) :
    m.applyPage fate pending rows s = m.applyInOrder (pending ++ rows) s := by
  induction rows generalizing fate pending s with
  | nil => rw [Mirror.applyPage, Mirror.endPage, if_pos hs, flushPendingRows_eq, List.append_nil, Mirror.applyInOrder]
  | cons row rows ih =>
    have hassoc : pending ++ row :: rows = (pending ++ [row]) ++ rows := by simp
    rw [Mirror.applyPage, hassoc]
    generalize pending ++ [row] = held
    split_ifs with hchunk
    · rw [flushPendingRows_eq, Mirror.applyInOrder, applyPendingRows_append]
      rcases hrun : m.applyPendingRows false held s with ⟨ok, s'⟩
      have herrors := applyPendingRows_applyErrors hrun hs
      cases ok with
      | true => exact ih _ [] herrors
      | false =>
        have hhole : ¬ s'.applyErrors = 0 := by
          rw [herrors]
          decide
        exact if_neg hhole
    · exact ih _ _ hs

/-- A drain whose prices travel in batches leaves the table, and the accounting, of its rows applied one
    by one in order: for every column set, key and status the rows have, and whatever became of each
    statement. -/
theorem drainTablePages_inOrder (m : Mirror κ) (pages : List ((ℕ → Fate) × List HubRow)) (t : Table κ)
    (d : Accounting) : m.drainTablePages pages { table := t, drain := d } =
      m.applyInOrder (pages.map Prod.snd).flatten { table := t, drain := d } := by
  suffices h : ∀ s : State κ, s.applyErrors = 0 →
      m.drainTablePages pages s = m.applyInOrder (pages.map Prod.snd).flatten s from h _ rfl
  induction pages with
  | nil => exact fun s _ => rfl
  | cons page pages ih =>
    intro s hs
    rw [Mirror.drainTablePages, applyPage_eq _ _ _ hs, List.nil_append, List.map_cons, List.flatten_cons,
      Mirror.applyInOrder, Mirror.applyInOrder, applyPendingRows_append]
    rcases hrun : m.applyPendingRows false page.2 s with ⟨ok, s'⟩
    have herrors := applyPendingRows_applyErrors hrun hs
    cases ok with
    | true =>
      have hclean : ¬ 0 < s'.applyErrors := by
        rw [herrors]
        decide
      rw [if_neg hclean]
      exact ih s' herrors
    | false =>
      have hhole : 0 < s'.applyErrors := by
        rw [herrors]
        decide
      exact if_pos hhole

/-- A field as the database stores it. -/
def storedValue : Field → SqlValue
  | .absent | .null => .null
  | .text s => .text s
  | .number n => .int n.1

/-- A server whose columns all take what they are given but `NULL`. -/
def recordGiven (cols : List String) (args : List Field) : Option LocalRow :=
  if args.all Field.given then some fun c => ((cols.zip args).lookup c).elim .null storedValue else none

/-- A table of prices by round and pair, and a client that flushes three rows at a time. -/
def priceMirror : Mirror (SqlValue × SqlValue) where
  batchApplyRows := 3
  columns := [("id", "bigint"), ("round_number", "bigint"), ("coin_pair", "varchar(20)"),
    ("price", "varchar(64)"), ("status", "varchar(20)")]
  declared := by decide
  isoSeconds := fun _ => none
  record := recordGiven
  recordIgnore := recordGiven
  naturalKey := fun row => (row "round_number", row "coin_pair")

/-- A row of one price. -/
def priceRow (id round : SafeInteger) (pair price status : String) : HubRow :=
  [("id", .number id), ("round_number", .number round), ("coin_pair", .text pair), ("price", .text price),
    ("status", .text status)]

/-- Four rows of one round, the second of them not settled and the third of another pair. -/
def repeatedRound : List HubRow :=
  [priceRow ⟨101, by decide⟩ ⟨7, by decide⟩ "BTC-USD" "10" "finalized",
    priceRow ⟨102, by decide⟩ ⟨7, by decide⟩ "BTC-USD" "11" "pending",
    priceRow ⟨103, by decide⟩ ⟨7, by decide⟩ "LTC-USD" "3" "finalized",
    priceRow ⟨104, by decide⟩ ⟨7, by decide⟩ "BTC-USD" "12" "disputed"]

/-- Three rows travel as one statement whose answer is lost, and run again one by one; the fourth, a
    flush of its own, updates the row of its key. -/
theorem drainTablePages_inOrder_repeated :
    (priceMirror.applyRowsBatched (repeatedRound.take 3) .answered fun _ => none).1 = true ∧
      ((priceMirror.drainTablePages [(fun _ => .unanswered, repeatedRound)]
        { table := fun _ => none, drain := { lastId := 0, drainPosition := 0 } }).table
          (.int 7, .text "BTC-USD")).map (fun row => (row "price", row "status")) =
        some (.text "12", .text "disputed") := by
  refine ⟨by decide +kernel, ?_⟩
  rw [drainTablePages_inOrder]
  decide +kernel

end HubDbSync.Batch
