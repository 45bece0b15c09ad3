import XChainExplorer.Hub.HubLog
import Mathlib.Data.List.Nodup
import Mathlib.Logic.Function.Basic

/-! # The mirror's tables and their twin files

    What the schema reconcilers read and write: the live tables of the mirror schema, the DDL statements
    and what the server does with each, and the twin files that declare the tables, with the rewrites
    `migrate.js` adds to them. Identifiers compare without regard to case and are written in lower case
    here. -/

namespace HubMirror

open HubDbSync (MirrorTable)

/-! ### Tables -/

/-- A column as the database reports it. -/
structure LiveColumn where
  name : String
  type : String
  /-- Of the text it holds; the table's own where the definition names none. -/
  collation : String := "utf8_general_ci"

/-- An index: its name and its columns, of which there is at least one. -/
structure Index where
  name : String
  unique : Bool
  columns : List String
  columns_ne_nil : columns ≠ []
  deriving DecidableEq

/-- A table as the database reports it. No two indexes have one name. -/
structure LiveTable where
  columns : List LiveColumn
  indexes : List Index
  names_nodup : (indexes.map Index.name).Nodup

/-- The names of its columns. -/
def LiveTable.columnNames (t : LiveTable) : List String := t.columns.map LiveColumn.name

/-- The tables that are there. -/
abbrev Schema := MirrorTable → Option LiveTable

/-! ### Statements -/

/-- A clause of an ALTER. -/
inductive Clause where
  | addColumn (column : LiveColumn)
  | modifyColumn (column : LiveColumn)
  | addIndex (index : Index)
  | dropIndex (name : String)

/-- One clause of an `ALTER TABLE`, where the server takes it. -/
def Clause.run (t : LiveTable) : Clause → Option LiveTable
  | addColumn column =>
    if column.name ∈ t.columnNames then none else some { t with columns := t.columns ++ [column] }
  | modifyColumn column =>
    if column.name ∈ t.columnNames then
      some { t with columns := t.columns.map fun c => if c.name = column.name then column else c }
    else none
  | addIndex index =>
    if h : index.name ∉ t.indexes.map Index.name ∧ index.columns ⊆ t.columnNames then
      some { t with
        indexes := t.indexes ++ [index]
        names_nodup := by
          rw [List.map_append, List.nodup_append]
          refine ⟨t.names_nodup, List.nodup_singleton _, fun a ha b hb hab => h.1 ?_⟩
          rw [List.mem_singleton.mp hb] at hab
          exact hab ▸ ha }
    else none
  | dropIndex name =>
    if name ∈ t.indexes.map Index.name then
      some { t with
        indexes := t.indexes.filter fun i => i.name ≠ name
        names_nodup := t.names_nodup.sublist (List.filter_sublist.map _) }
    else none

/-- A statement that changes the schema. -/
inductive Ddl where
  | createTable (table : MirrorTable) (columns : List LiveColumn) (indexes : List Index)
  | createIndex (table : MirrorTable) (index : Index)
  | alter (table : MirrorTable) (clauses : List Clause)

/-- A statement changes its table as a whole, or not at all. -/
def Ddl.run (s : Schema) : Ddl → Option Schema
  | createTable table columns indexes =>
    if h : s table = none ∧ (indexes.map Index.name).Nodup then
      some (Function.update s table (some { columns, indexes, names_nodup := h.2 }))
    else none
  | createIndex table index => do
    let t ← s table
    let t ← (Clause.addIndex index).run t
    pure (Function.update s table (some t))
  | alter table clauses => do
    let t ← s table
    let t ← clauses.foldlM Clause.run t
    pure (Function.update s table (some t))

/-! ### Twin files -/

/-- A column of a `CREATE TABLE`, its definition down to what the reconcilers read of it. -/
structure DeclaredColumn extends LiveColumn where
  notNull : Bool
  hasDefault : Bool

/-- It can be added to a table that holds rows. -/
def DeclaredColumn.additive (c : DeclaredColumn) : Bool := !(c.notNull && !c.hasDefault)

/-- `NOT NULL` with no default, as an `AUTO_INCREMENT` key is too. -/
def required (name type : String) (collation : String := "utf8_general_ci") : DeclaredColumn :=
  { name, type, collation, notNull := true, hasDefault := false }

/-- A column that may not be null and has a default. -/
def defaulted (name type : String) (collation : String := "utf8_general_ci") : DeclaredColumn :=
  { name, type, collation, notNull := true, hasDefault := true }

/-- A column that may be null. -/
def nullable (name type : String) (collation : String := "utf8_general_ci") : DeclaredColumn :=
  { name, type, collation, notNull := false, hasDefault := false }

/-- An index that rows may share. -/
def key (name : String) (columns : List String) (h : columns ≠ [] := by decide) : Index :=
  ⟨name, false, columns, h⟩

/-- An index that no two rows share. -/
def uniqueKey (name : String) (columns : List String) (h : columns ≠ [] := by decide) : Index :=
  ⟨name, true, columns, h⟩

/-- The primary key. -/
def primaryKey : Index := uniqueKey "primary" ["id"]

/-- An index to be widened to a column that it lacks. -/
structure WidenIndex where
  index : Index
  requiredColumn : String

/-- A column to be given another charset. -/
structure WidenColumn where
  name : String
  charset : String
  type : String

/-- A text column to be made longer. -/
structure WidenLength where
  name : String
  length : ℕ

/-- A column to be given another type. -/
structure RetypeColumn where
  name : String
  fromType : String
  type : String

/-- The timestamps that became datetimes. -/
def DATETIME_RETYPE : RetypeColumn := { name := "created_at", fromType := "timestamp", type := "datetime" }

/-- A twin file as its parsers read it, and the entry of `TABLE_REWRITES` for its table. No index name
    stands twice in a file, and a widened key is the one unique key it declares. -/
structure Twin where
  columns : List DeclaredColumn
  /-- The `KEY` lines of the `CREATE TABLE`. -/
  keys : List Index := []
  /-- The `CREATE INDEX` statements behind it. -/
  createIndex : List Index := []
  indexes : List Index := []
  widenIndexes : List WidenIndex := []
  widenColumns : List WidenColumn := []
  widenLengths : List WidenLength := []
  retypeColumns : List RetypeColumn := []
  names_nodup : ((primaryKey :: keys ++ createIndex).map Index.name).Nodup := by decide
  indexes_declared : ∀ i ∈ indexes, i ∈ keys ++ createIndex := by decide
  widen_declared : ∀ w ∈ widenIndexes, w.index ∈ keys ++ createIndex ∧ w.index.unique = true := by decide
  widen_required : ∀ w ∈ widenIndexes, ∀ d ∈ keys ++ createIndex, d.unique = true →
    w.requiredColumn ∈ d.columns := by decide
  widen_distinct : (widenIndexes.map fun w => w.index.name).Nodup := by decide

/-- What `parseDeclaredIndexes` reads off a twin file. -/
def Twin.declaredIndexes (twin : Twin) : List Index := twin.keys ++ twin.createIndex

def anchor_reward_attestations_sql : Twin where
  columns := [
    required "id" "bigint unsigned", required "chain" "varchar(10)", required "network" "varchar(20)",
    required "reward_type" "varchar(32)", required "round_reference" "bigint unsigned",
    required "snapshot_block" "bigint unsigned", required "publisher" "varchar(64)",
    required "reward_amount" "varchar(32)", required "publisher_attestations" "text",
    nullable "doge_anchor_txid" "varchar(64)", defaulted "created_at" "datetime"]
  keys := [
    uniqueKey "uq_reward_tuple" ["chain", "network", "reward_type", "round_reference", "snapshot_block", "publisher"],
    key "idx_snapshot_block" ["network", "snapshot_block"]]
  retypeColumns := [DATETIME_RETYPE]

def attestation_responses_sql : Twin where
  columns := [
    required "id" "bigint unsigned", required "network" "varchar(20)", required "request_id" "char(64)",
    nullable "request_action_index" "bigint unsigned", nullable "request_block_index" "bigint unsigned",
    required "provider_id" "varchar(64)", required "status" "varchar(20)",
    nullable "response_payload" "mediumtext" "utf8mb4_general_ci", required "response_hash" "char(64)",
    nullable "meta" "text" "utf8mb4_general_ci", required "effective_time" "bigint unsigned",
    nullable "admit_block_btc" "bigint unsigned", required "signer_pubkeys" "text",
    required "signatures" "text", nullable "widen" "tinyint unsigned",
    nullable "batch_action_index" "bigint unsigned", nullable "finalized_at" "bigint unsigned"]
  createIndex := [
    uniqueKey "uq_attest_response" ["network", "request_id", "effective_time"],
    key "idx_effective_time" ["network", "effective_time"],
    key "idx_request_order" ["network", "request_block_index", "request_action_index"],
    key "idx_batch_action" ["network", "batch_action_index"]]
  widenIndexes := [{
    index := uniqueKey "uq_attest_response" ["network", "request_id", "effective_time"]
    requiredColumn := "effective_time" }]
  widenColumns := [
    { name := "response_payload", charset := "utf8mb4", type := "mediumtext" },
    { name := "meta", charset := "utf8mb4", type := "text" }]

def bridge_transfers_sql : Twin where
  columns := [
    required "id" "bigint unsigned", required "transfer_id" "char(64)",
    required "snapshot_block" "bigint unsigned", required "network" "varchar(20)",
    required "src_chain" "varchar(10)", required "src_action_index" "bigint unsigned",
    required "src_address" "varchar(255)", required "dest_chain" "varchar(10)",
    required "dest_address" "varchar(255)", required "tick" "varchar(250)",
    required "decimals" "tinyint unsigned", required "amount" "varchar(250)",
    required "effective_time" "bigint unsigned", nullable "admit_block_btc" "bigint unsigned",
    nullable "admit_block_ltc" "bigint unsigned", nullable "admit_block_doge" "bigint unsigned",
    defaulted "finalizing_view" "int", required "validator_signatures" "text", defaulted "status" "varchar(20)",
    defaulted "push_generation" "bigint", nullable "btc_chain_id" "char(64)", nullable "created_at" "datetime"]
  keys := [
    uniqueKey "uq_transfer_id" ["transfer_id"], key "idx_snapshot_block" ["snapshot_block"],
    key "idx_src_ref" ["src_chain", "src_action_index"], key "idx_dest_chain" ["dest_chain"],
    key "idx_effective" ["effective_time"], key "idx_status" ["status"], key "idx_tick" ["tick"]]
  retypeColumns := [DATETIME_RETYPE]

def capability_snapshots_sql : Twin where
  columns := [
    required "id" "bigint unsigned", required "snapshot_block" "bigint unsigned",
    required "capability" "varchar(20)", required "signing_pubkey" "varchar(64)",
    required "amount" "varchar(250)", defaulted "source" "varchar(255)", nullable "created_at" "datetime",
    nullable "btc_chain_id" "char(64)"]
  keys := [
    uniqueKey "uq_cap_snap" ["snapshot_block", "capability", "signing_pubkey", "source"],
    key "idx_cap_block" ["capability", "snapshot_block"]]
  widenIndexes := [{
    index := uniqueKey "uq_cap_snap" ["snapshot_block", "capability", "signing_pubkey", "source"]
    requiredColumn := "source" }]
  retypeColumns := [DATETIME_RETYPE]

def cross_chain_calls_sql : Twin where
  columns := [
    required "id" "bigint unsigned", required "call_id" "varchar(80)", required "phase" "varchar(10)",
    required "snapshot_block" "bigint unsigned", required "network" "varchar(20)",
    required "source_chain" "varchar(10)", required "source_action_index" "bigint unsigned",
    required "source_contract_index" "bigint unsigned", required "target_chain" "varchar(10)",
    required "target_contract_index" "bigint unsigned", required "method" "varchar(64)",
    required "params_json" "text", required "gas_limit" "bigint unsigned", defaulted "cross_hops" "int",
    required "effective_time" "bigint unsigned", defaulted "finalizing_view" "int",
    nullable "admit_block_btc" "bigint unsigned", nullable "admit_block_ltc" "bigint unsigned",
    nullable "admit_block_doge" "bigint unsigned", defaulted "status" "varchar(20)",
    nullable "result_status" "varchar(20)", nullable "return_payload_b64" "text",
    required "validator_signatures" "text", defaulted "push_generation" "bigint",
    defaulted "created_at" "datetime", nullable "btc_chain_id" "char(64)"]
  createIndex := [
    uniqueKey "call_phase" ["call_id", "phase"], key "source_ref" ["source_chain", "source_action_index"],
    key "target_ref" ["target_chain", "phase", "status", "effective_time"],
    key "effective_time" ["effective_time"]]
  retypeColumns := [DATETIME_RETYPE]

def cross_chain_matches_sql : Twin where
  columns := [
    required "id" "bigint unsigned", required "match_id" "varchar(80)",
    required "snapshot_block" "bigint unsigned", required "network" "varchar(20)",
    required "a_chain" "varchar(10)", required "a_action_index" "bigint unsigned",
    defaulted "a_kind" "varchar(10)", nullable "a_tick" "varchar(255)", required "a_amount" "varchar(250)",
    defaulted "a_filled_before" "varchar(250)", defaulted "a_ownership" "tinyint(1)",
    required "a_payout_addr" "varchar(255)", nullable "a_payout_legs" "text", required "b_chain" "varchar(10)",
    required "b_action_index" "bigint unsigned", defaulted "b_kind" "varchar(10)",
    nullable "b_tick" "varchar(255)", required "b_amount" "varchar(250)",
    defaulted "b_filled_before" "varchar(250)", defaulted "b_ownership" "tinyint(1)",
    required "b_payout_addr" "varchar(255)", nullable "b_payout_legs" "text",
    required "effective_time" "bigint unsigned", defaulted "finalizing_view" "int",
    nullable "admit_block_btc" "bigint unsigned", nullable "admit_block_ltc" "bigint unsigned",
    nullable "admit_block_doge" "bigint unsigned", required "validator_signatures" "text",
    defaulted "status" "varchar(20)", nullable "batch_root" "varchar(64)", nullable "anchor_txid" "varchar(64)",
    defaulted "a_push_generation" "bigint", defaulted "b_push_generation" "bigint",
    nullable "created_at" "datetime", nullable "btc_chain_id" "char(64)"]
  keys := [
    uniqueKey "uq_match_id" ["match_id"], key "idx_effective" ["effective_time"],
    key "idx_a_ref" ["a_chain", "a_action_index"], key "idx_b_ref" ["b_chain", "b_action_index"],
    key "idx_status" ["status"]]
  retypeColumns := [DATETIME_RETYPE]

def list_snapshots_sql : Twin where
  columns := [
    required "id" "bigint unsigned", required "snapshot_id" "char(64)",
    required "snapshot_block" "bigint unsigned", nullable "network" "varchar(20)",
    nullable "home_chain" "varchar(10)", nullable "home_list_index" "bigint unsigned",
    nullable "list_type" "tinyint unsigned", nullable "seq" "bigint unsigned", nullable "kind" "varchar(8)",
    required "added" "mediumtext", required "removed" "mediumtext", nullable "members_hash" "char(64)",
    nullable "name" "varchar(64)" "utf8mb4_bin", nullable "description" "varchar(512)" "utf8mb4_bin",
    nullable "meta_hash" "char(64)", nullable "origin_block" "bigint unsigned",
    nullable "admit_block_btc" "bigint unsigned", nullable "admit_block_ltc" "bigint unsigned",
    nullable "admit_block_doge" "bigint unsigned", defaulted "finalizing_view" "int",
    required "validator_signatures" "text", defaulted "status" "varchar(20)",
    nullable "btc_chain_id" "char(64)", defaulted "created_at" "datetime"]
  keys := [
    uniqueKey "uq_list_snapshot_seq" ["network", "home_chain", "home_list_index", "seq"],
    uniqueKey "snapshot_id" ["snapshot_id"], key "home_list" ["home_chain", "home_list_index"]]

def oracle_prices_sql : Twin where
  columns := [
    required "id" "bigint", required "source_address" "varchar(100)", required "source_chain" "varchar(10)",
    required "coin" "varchar(10)", required "tick" "varchar(250)", required "fiat" "varchar(10)",
    required "value" "varchar(250)", nullable "fee" "varchar(250)", nullable "memo" "varchar(250)",
    required "block_time" "bigint unsigned", required "effective_at" "bigint unsigned",
    required "action_index" "bigint unsigned", defaulted "push_generation" "bigint",
    nullable "admit_block" "bigint unsigned", nullable "created_at" "datetime"]
  keys := [
    uniqueKey "idx_oracle_action" ["source_chain", "action_index"],
    key "idx_oracle_tick" ["source_address", "coin", "tick", "fiat"],
    key "idx_effective" ["coin", "tick", "fiat", "effective_at"], key "idx_source_chain" ["source_chain"]]
  widenLengths := [{ name := "tick", length := 250 }]
  retypeColumns := [DATETIME_RETYPE]

def policy_snapshots_sql : Twin where
  columns := [
    required "id" "bigint unsigned", required "snapshot_id" "char(64)",
    required "snapshot_block" "bigint unsigned", required "origin_chain" "varchar(10)",
    required "tick" "varchar(250)", required "policy_seq" "bigint unsigned",
    required "origin_block" "bigint unsigned", required "policy_hash" "char(64)",
    nullable "allow_list" "mediumtext", nullable "block_list" "mediumtext", defaulted "sleeping" "tinyint(1)",
    required "effective_time" "bigint unsigned", required "network" "varchar(20)",
    nullable "admit_block_btc" "bigint unsigned", nullable "admit_block_ltc" "bigint unsigned",
    nullable "admit_block_doge" "bigint unsigned", defaulted "finalizing_view" "int",
    required "validator_signatures" "text", defaulted "status" "varchar(20)",
    defaulted "push_generation" "bigint", nullable "btc_chain_id" "char(64)", nullable "created_at" "datetime"]
  keys := [
    uniqueKey "uq_policy_seq" ["network", "origin_chain", "tick", "policy_seq"],
    uniqueKey "uq_snapshot_id" ["snapshot_id"], key "idx_effective" ["effective_time"],
    key "idx_origin_tick" ["origin_chain", "tick"]]
  retypeColumns := [DATETIME_RETYPE]

def price_snapshots_sql : Twin where
  columns := [
    required "id" "bigint", required "round_number" "bigint", required "coin_pair" "varchar(20)",
    nullable "price" "varchar(40)", defaulted "reference_block" "bigint",
    defaulted "reference_chain" "varchar(10)", defaulted "block_timestamp" "bigint",
    required "validator_count" "int", nullable "consensus_round" "int", required "consensus_proof" "text",
    required "status" "enum('finalized','skipped','disputed')", defaulted "source_chain" "varchar(10)",
    nullable "source_action_index" "bigint", defaulted "push_generation" "bigint",
    defaulted "batch_block_time" "bigint", nullable "admit_block_btc" "bigint unsigned",
    nullable "admit_block_ltc" "bigint unsigned", nullable "admit_block_doge" "bigint unsigned",
    nullable "created_at" "datetime"]
  keys := [
    uniqueKey "idx_round_pair" ["round_number", "coin_pair"],
    key "idx_pair_block" ["coin_pair", "reference_block"],
    key "idx_pair_timestamp" ["coin_pair", "block_timestamp"], key "idx_status" ["status"],
    key "idx_source_chain" ["source_chain"],
    key "idx_status_block_round" ["status", "reference_block", "round_number"],
    key "idx_status_timestamp_round" ["status", "block_timestamp", "round_number"],
    key "idx_pair_batchtime_round" ["coin_pair", "batch_block_time", "round_number"],
    key "idx_refchain_block" ["reference_chain", "reference_block"]]
  indexes := [key "idx_source_chain" ["source_chain"]]
  retypeColumns := [DATETIME_RETYPE]

def remote_token_snapshots_sql : Twin where
  columns := [
    required "id" "bigint unsigned", required "snapshot_id" "char(64)",
    required "snapshot_block" "bigint unsigned", required "network" "varchar(20)",
    required "coin" "varchar(10)", required "tick" "varchar(32)" "utf8mb4_bin",
    required "decimals" "tinyint unsigned", required "owner" "varchar(128)" "utf8mb4_bin",
    required "source_action_index" "bigint unsigned", nullable "admit_block_btc" "bigint unsigned",
    nullable "admit_block_ltc" "bigint unsigned", nullable "admit_block_doge" "bigint unsigned",
    defaulted "finalizing_view" "int", required "validator_signatures" "text", defaulted "status" "varchar(20)",
    nullable "btc_chain_id" "char(64)", defaulted "created_at" "datetime"]
  keys := [
    uniqueKey "snapshot_id" ["snapshot_id"],
    key "pinned_remote_token" ["network", "coin", "tick", "snapshot_block"],
    key "idx_source_ref" ["coin", "source_action_index"]]

def state_checkpoints_sql : Twin where
  columns := [
    required "id" "bigint unsigned", required "chain" "varchar(10)", required "network" "varchar(20)",
    required "block_index" "bigint unsigned", required "block_hash" "varchar(64)",
    required "ledger_hash" "varchar(64)", required "actions_hash" "varchar(64)",
    required "contract_hash" "varchar(64)", required "checkpoint_seq" "bigint unsigned",
    required "snapshot_block" "bigint unsigned", nullable "supersedes_from" "bigint unsigned",
    nullable "rules_digest" "char(64)", nullable "state_root" "char(64)",
    nullable "state_root_version" "tinyint unsigned", nullable "block_merkle_root" "char(64)",
    nullable "block_merkle_version" "tinyint unsigned", required "validator_signatures" "text",
    defaulted "created_at" "datetime"]
  keys := [
    uniqueKey "uq_chain_seq" ["chain", "network", "checkpoint_seq"],
    key "idx_checkpoint_seq" ["chain", "network", "checkpoint_seq"]]
  createIndex := [
    key "idx_chain_block" ["chain", "network", "block_index"],
    key "idx_chain_snapshot" ["chain", "network", "snapshot_block"]]
  retypeColumns := [DATETIME_RETYPE]

/-- The twin files of `src/sql/hub-mirror`. -/
def TWINS : MirrorTable → Twin
  | .anchor_reward_attestations => anchor_reward_attestations_sql
  | .attestation_responses => attestation_responses_sql
  | .bridge_transfers => bridge_transfers_sql
  | .capability_snapshots => capability_snapshots_sql
  | .cross_chain_calls => cross_chain_calls_sql
  | .cross_chain_matches => cross_chain_matches_sql
  | .list_snapshots => list_snapshots_sql
  | .oracle_prices => oracle_prices_sql
  | .policy_snapshots => policy_snapshots_sql
  | .price_snapshots => price_snapshots_sql
  | .remote_token_snapshots => remote_token_snapshots_sql
  | .state_checkpoints => state_checkpoints_sql

/-- The files of the directory, sorted. -/
def SQL_FILES : List MirrorTable :=
  [.anchor_reward_attestations, .attestation_responses, .bridge_transfers, .capability_snapshots,
    .cross_chain_calls, .cross_chain_matches, .list_snapshots, .oracle_prices, .policy_snapshots,
    .price_snapshots, .remote_token_snapshots, .state_checkpoints]

theorem mem_SQL_FILES (table : MirrorTable) : table ∈ SQL_FILES := by
  cases table <;> decide

end HubMirror
