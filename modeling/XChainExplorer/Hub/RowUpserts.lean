import XChainExplorer.Hub.HubLog
import XChainExplorer.Lib.OnDuplicate
import Mathlib.Algebra.Order.Group.Int

/-! # The statements that apply a row

    The per-table upserts of the mirror. A row is a value for each column; the columns the
    statements and the retractions compute with have the type their table declares for them, every
    other one holds whatever the hub sent. A statement is the list of its assignments over the
    columns it was delivered, and no assignment at all is `INSERT IGNORE`. -/

namespace HubDbSync

open OnDuplicate

/-- The columns by name: the ones the statements single out, and the rest. -/
inductive Column where
  | id
  | match_id
  | call_id
  | phase
  | source_chain
  | src_chain
  | a_chain
  | b_chain
  | action_index
  | source_action_index
  | src_action_index
  | a_action_index
  | b_action_index
  | status
  | effective_time
  | push_generation
  | a_push_generation
  | b_push_generation
  | anchor_txid
  | validator_signatures
  | finalizing_view
  | snapshot_block
  | btc_chain_id
  | other (name : String)
  deriving DecidableEq

/-- A value no statement computes with. -/
inductive SqlValue where
  | null
  | int (n : ℤ)
  | text (s : String)
  deriving DecidableEq

/-- What a column holds, as its table declares it. -/
abbrev Column.Value : Column → Type
  | .source_chain | .src_chain | .a_chain | .b_chain | .status => String
  | .action_index | .source_action_index | .src_action_index | .a_action_index
  | .b_action_index | .effective_time => ℕ
  | .push_generation | .a_push_generation | .b_push_generation => ℤ
  | .anchor_txid => Option String
  | _ => SqlValue

/-- A row of the mirror, by its columns. -/
abbrev MirrorRow := (c : Column) → c.Value

/-- A row of the defaults. -/
def defaultRow : MirrorRow
  | .source_chain | .src_chain | .a_chain | .b_chain => ""
  | .status => "finalized"
  | .action_index | .source_action_index | .src_action_index | .a_action_index
  | .b_action_index | .effective_time => (0 : ℕ)
  | .push_generation | .a_push_generation | .b_push_generation => (0 : ℤ)
  | .anchor_txid => none
  | .id | .match_id | .call_id | .phase | .validator_signatures | .finalizing_view
  | .snapshot_block | .btc_chain_id | .other _ => SqlValue.null

/-- `c = VALUES(c)`. -/
def copy (c : Column) : Assignment MirrorRow := fun values row => Function.update row c (values c)

/-- `f = GREATEST(COALESCE(f, 0), COALESCE(VALUES(f), 0))`, for a fence column, which is never
    null. -/
def raise (f : Column) (hf : f.Value = ℤ) : Assignment MirrorRow := fun values row =>
  Function.update row f (cast hf.symm (max (cast hf (row f)) (cast hf (values f))))

/-! ### The upserts -/

/-- The assignments for a call: a final row of no older generation wins. -/
def crossChainCallUpsertSql (cols : List Column) : List (Assignment MirrorRow) :=
  let fence := decide (Column.push_generation ∈ cols)
  let updatable := cols.filter fun c =>
    c ∉ [Column.id, .call_id, .phase, .status, .push_generation]
  let gate (values row : MirrorRow) : Bool := values .status = "finalized" &&
    (!fence || decide (row .push_generation ≤ values .push_generation))
  updatable.map (fun c => gated gate (copy c)) ++
    [gated gate fun _ row => Function.update row .status "finalized"] ++
    if fence then [raise .push_generation rfl] else []

/-- The generation is both the gate and a target, so it comes last. -/
def oraclePriceUpsertSql (cols : List Column) : List (Assignment MirrorRow) :=
  let wins (values row : MirrorRow) : Bool := row .push_generation ≤ values .push_generation
  let updatable := cols.filter fun c =>
    c ∉ [Column.id, .source_chain, .action_index, .push_generation]
  (updatable ++ [Column.push_generation]).map fun c => gated wins (copy c)

/-- Rank of a status among the versions of one effective time. -/
def statusRank (status : String) : ℕ := if status = "finalized" then 0 else 1

/-- The delivered version of a match is not older than the local one. -/
def matchWins (values row : MirrorRow) : Bool :=
  row .effective_time < values .effective_time ||
    (values .effective_time = row .effective_time &&
      statusRank (row .status) ≤ statusRank (values .status))

/-- The columns that belong to no version of a match. -/
def PINNED_MATCH_COLUMNS : List Column :=
  [.id, .match_id, .anchor_txid, .a_push_generation, .b_push_generation]

/-- The columns the gate of a match decides and does not read. -/
def gatedMatchColumns (cols : List Column) : List Column :=
  (cols.filter (· ∉ PINNED_MATCH_COLUMNS)).filter fun c =>
    c ≠ Column.status ∧ c ≠ Column.effective_time

/-- The assignments for a match, its anchor kept once it has one. -/
def crossChainMatchUpsertSql (cols : List Column) : List (Assignment MirrorRow) :=
  let stamp : Assignment MirrorRow := fun values row =>
    Function.update row .anchor_txid ((row .anchor_txid).or (values .anchor_txid))
  if Column.effective_time ∈ cols ∧ Column.status ∈ cols then
    -- the gate reads the last two, so they are assigned behind every other column
    (gatedMatchColumns cols ++ [Column.status, .effective_time]).map
        (fun c => gated matchWins (copy c)) ++
      (if Column.a_push_generation ∈ cols then [raise .a_push_generation rfl] else []) ++
      (if Column.b_push_generation ∈ cols then [raise .b_push_generation rfl] else []) ++ [stamp]
  else [stamp]

/-- The columns that a revived transfer takes over. -/
def BRIDGE_REVIVE_COLUMNS : List Column :=
  [.validator_signatures, .finalizing_view, .effective_time, .snapshot_block, .btc_chain_id]

/-- The assignments for a transfer: a final row of a newer generation revives it. -/
def bridgeTransferUpsertSql (cols : List Column) : List (Assignment MirrorRow) :=
  let gate (values row : MirrorRow) : Bool :=
    values .status = "finalized" && decide (row .push_generation < values .push_generation)
  (BRIDGE_REVIVE_COLUMNS.filter (· ∈ cols)).map (fun c => gated gate (copy c)) ++
    [gated gate fun _ row => Function.update row .status "finalized"] ++
    [raise .push_generation rfl]

/-- The statement for a row of `table` over the columns the local schema accepts. The tables this
    development follows row by row have no upgrade path but these. -/
def mirrorUpsertSql (table : MirrorTable) (cols : List Column) : List (Assignment MirrorRow) :=
  let cols := cols.filter (· ≠ .id)
  match table with
  | .cross_chain_calls => if Column.status ∈ cols then crossChainCallUpsertSql cols else []
  | .oracle_prices => if Column.push_generation ∈ cols then oraclePriceUpsertSql cols else []
  | .cross_chain_matches => if Column.anchor_txid ∈ cols then crossChainMatchUpsertSql cols else []
  | .bridge_transfers =>
    if Column.status ∈ cols ∧ Column.push_generation ∈ cols then bridgeTransferUpsertSql cols else []
  | _ => []

/-- `applyRow` at one natural key. -/
def applyRow (table : MirrorTable) (cols : List Column) (row : Option MirrorRow)
    (values : MirrorRow) : Option MirrorRow :=
  upsert (mirrorUpsertSql table cols) row values

/-! ### Columns and assignments -/

@[simp] theorem copy_apply (c d : Column) (values row : MirrorRow) :
    copy c values row d = if d = c then values d else row d := by
  by_cases h : d = c
  · subst h
    simp [copy]
  · simp [copy, h]

/-- Copying some columns takes the delivered value there and leaves the others. -/
theorem assign_copy (cs : List Column) (values row : MirrorRow) (d : Column) :
    assign (cs.map copy) values row d = if d ∈ cs then values d else row d := by
  induction cs generalizing row with
  | nil => simp
  | cons c cs ih =>
    rw [List.map_cons, assign_cons, ih, copy_apply]
    by_cases hd : d ∈ cs
    · simp [hd]
    · simp [hd]

theorem raise_apply {f : Column} (hf : f.Value = ℤ) (values row : MirrorRow) :
    cast hf (raise f hf values row f) = max (cast hf (row f)) (cast hf (values f)) := by
  simp [raise]

theorem raise_of_ne {f d : Column} (hf : f.Value = ℤ) (hd : d ≠ f) (values row : MirrorRow) :
    raise f hf values row d = row d := by
  simp [raise, hd]

end HubDbSync
