import XChainExplorer.Hub.Retractions

/-! # Generations and late retractions

    A key of `oracle_prices`, `cross_chain_calls` or `bridge_transfers` is published again, at a higher
    generation, after a reorganization retracted it. The publication and the retractions of older
    generations come in any order and any number of times, and the newest publication is what
    stays. -/

namespace HubDbSync

open OnDuplicate

/-- The tables whose upserts are gated by the generation of the row. -/
def GENERATION_TABLES : List MirrorTable := [.oracle_prices, .cross_chain_calls, .bridge_transfers]

/-- The columns, the generation apart, that the upsert of a table may update. -/
def updatableColumns (table : MirrorTable) (cols : List Column) : List Column :=
  match table with
  | .oracle_prices =>
    cols.filter fun c => c ∉ [Column.id, .source_chain, .action_index, .push_generation]
  | .cross_chain_calls => cols.filter fun c => c ∉ [Column.id, .call_id, .phase, .push_generation]
  | .bridge_transfers => BRIDGE_REVIVE_COLUMNS.filter (· ∈ cols) ++ [.status]
  | _ => []

/-- What a row holds in those columns. -/
def updatableContent (table : MirrorTable) (cols : List Column) (row : MirrorRow)
    (c : {c // c ∈ updatableColumns table cols}) : c.1.Value := row c

/-- The delivered columns reach the upgrade path of the table. -/
def Upgradable (table : MirrorTable) (cols : List Column) : Prop :=
  Column.push_generation ∈ cols ∧ (table = .oracle_prices ∨ Column.status ∈ cols)

/-- A publication of a finalized row. Oracle prices have no other ones. -/
def FinalizedIn (table : MirrorTable) (row : MirrorRow) : Prop :=
  table = .oracle_prices ∨ row .status = "finalized"

/-- The row that stands, after a version of it was delivered. -/
def upgradeRow (table : MirrorTable) (cols : List Column) (row values : MirrorRow) : MirrorRow :=
  assign (mirrorUpsertSql table cols) values row

theorem applyRow_eq_step (table : MirrorTable) (cols : List Column) (row : Option MirrorRow)
    (values : MirrorRow) : applyRow table cols row values =
      (Delivery.put values).step (upgradeRow table cols) row := rfl

/-! ### One delivery -/

/-- Columns gated by the generation of the row, and the fence raised behind them. -/
theorem assign_gated_raise {gate : MirrorRow → MirrorRow → Bool} {sets : List (Assignment MirrorRow)}
    (hgate : ∀ values row row', row .push_generation = row' .push_generation →
      gate values row = gate values row')
    (hsets : ∀ set ∈ sets, ∀ values row, set values row .push_generation = row .push_generation)
    (values row : MirrorRow) :
    assign (sets.map (gated gate) ++ [raise .push_generation rfl]) values row .push_generation =
        max (row .push_generation) (values .push_generation) ∧
      ∀ d ≠ Column.push_generation,
        assign (sets.map (gated gate) ++ [raise .push_generation rfl]) values row d =
          if gate values row then assign sets values row d else row d := by
  have hopen : ∀ set ∈ sets, ∀ values row, gate values row = true →
      gate values (set values row) = true := fun set hset values row h =>
    (hgate values _ _ (hsets set hset values row)).trans h
  have hframe := assign_frame (fun r : MirrorRow => r .push_generation) hsets values row
  rw [assign_append, assign_gated hopen, assign_cons, assign_nil]
  refine ⟨?_, fun d hd => ?_⟩
  · have h := raise_apply (f := .push_generation) rfl values
      (if gate values row then assign sets values row else row)
    simp only [cast_eq] at h
    rw [h]
    split_ifs
    · exact congrArg (max · _) hframe
    · rfl
  · rw [raise_of_ne rfl hd]
    split_ifs <;> rfl

/-- Copying some columns and setting the status of a finalized row. -/
theorem assign_copy_status (cs : List Column) {values : MirrorRow}
    (hv : values .status = "finalized") (row : MirrorRow) (d : Column) :
    assign (cs.map copy ++ [fun _ row => Function.update row Column.status "finalized"]) values row d =
      if d ∈ cs ++ [Column.status] then values d else row d := by
  rw [assign_append, assign_cons, assign_nil]
  by_cases hd : d = .status
  · subst hd
    simp [hv]
  · simp [hd, assign_copy]

/-- `Follows`, for a delivery that raises the generation and takes some columns from the delivered
    row where its generation is higher, and none where it is lower. -/
theorem follows_of_upgrade {table : MirrorTable} {cols : List Column} {values : MirrorRow}
    (gate : MirrorRow → Bool)
    (hstamp : ∀ row, upgradeRow table cols row values .push_generation =
      max (row .push_generation) (values .push_generation))
    (hcontent : ∀ row, ∀ d ∈ updatableColumns table cols,
      upgradeRow table cols row values d = if gate row then values d else row d)
    (hopen : ∀ row, row .push_generation < values .push_generation → gate row = true)
    (hshut : ∀ row, values .push_generation < row .push_generation → gate row = false) :
    Follows (fun row => row .push_generation) (updatableContent table cols)
      (upgradeRow table cols) values := by
  have hgated : ∀ row, updatableContent table cols (upgradeRow table cols row values) =
      if gate row then updatableContent table cols values else updatableContent table cols row := by
    intro row
    funext c
    unfold updatableContent
    rw [hcontent row c c.2]
    split_ifs <;> rfl
  exact
    { stamp_eq := hstamp
      newer := fun row hlt => by rw [hgated, if_pos (hopen row hlt)]
      older := fun row hlt => by rw [hgated, hshut row hlt, if_neg Bool.false_ne_true]
      level := fun row _ => by
        rw [hgated]
        split_ifs
        · exact .inl rfl
        · exact .inr rfl }

/-! ### The three tables -/

theorem upgradeRow_oracle {cols : List Column} (hcols : Column.push_generation ∈ cols)
    (values row : MirrorRow) (d : Column) : upgradeRow .oracle_prices cols row values d =
      if row .push_generation ≤ values .push_generation ∧
          d ∈ updatableColumns .oracle_prices cols ++ [Column.push_generation] then values d
      else row d := by
  have hfence : Column.push_generation ∈ cols.filter (· ≠ Column.id) := by simp [hcols]
  have hsame : (cols.filter (· ≠ Column.id)).filter
      (fun c => c ∉ [Column.id, .source_chain, .action_index, .push_generation]) =
        updatableColumns .oracle_prices cols := by
    rw [List.filter_filter, updatableColumns]
    refine List.filter_congr fun c _ => ?_
    by_cases hc : c = .id <;> simp [hc]
  let wins (values row : MirrorRow) : Bool := row .push_generation ≤ values .push_generation
  let updatable := updatableColumns .oracle_prices cols
  have hsets : upgradeRow .oracle_prices cols row values =
      assign ((updatable.map copy ++ [copy .push_generation]).map (gated wins)) values row := by
    unfold upgradeRow mirrorUpsertSql
    simp only [hfence, if_true, oraclePriceUpsertSql, hsame, List.map_append, List.map_map,
      List.map_cons, List.map_nil, Function.comp_def, wins, updatable]
  have hopen : ∀ set ∈ updatable.map copy, ∀ values row, wins values row = true →
      wins values (set values row) = true := by
    intro set hset values row hwins
    obtain ⟨c, hc, rfl⟩ := List.mem_map.mp hset
    have hne : Column.push_generation ≠ c := by
      rintro rfl
      simp [updatable, updatableColumns] at hc
    simpa [wins, hne] using hwins
  have hcopies : updatable.map copy ++ [copy .push_generation] =
      (updatable ++ [Column.push_generation]).map copy := by
    simp
  rw [hsets, assign_gated_concat hopen, hcopies]
  by_cases hwins : row .push_generation ≤ values .push_generation
  · rw [if_pos (by simpa [wins] using hwins), assign_copy]
    simp only [hwins, true_and, updatable]
  · rw [if_neg (by simpa [wins] using hwins), if_neg fun h => hwins h.1]

/-- The generation never falls at a delivery. -/
theorem push_generation_oracle {cols : List Column} (hcols : Column.push_generation ∈ cols)
    (values row : MirrorRow) : upgradeRow .oracle_prices cols row values .push_generation =
      max (row .push_generation) (values .push_generation) := by
  rw [upgradeRow_oracle hcols]
  split_ifs with h
  · exact (max_eq_right h.1).symm
  · refine (max_eq_left ?_).symm
    exact (not_le.mp fun hle => h ⟨hle, by simp⟩).le

theorem follows_oracle {cols : List Column} (hcols : Column.push_generation ∈ cols)
    (values : MirrorRow) :
    Follows (fun row => row .push_generation) (updatableContent .oracle_prices cols)
      (upgradeRow .oracle_prices cols) values := by
  refine follows_of_upgrade (fun row => row .push_generation ≤ values .push_generation)
    (push_generation_oracle hcols values) ?_ ?_ ?_
  · intro row d hd
    rw [upgradeRow_oracle hcols]
    simp only [List.mem_append, hd, true_or, and_true, decide_eq_true_eq]
  · intro row hlt
    exact decide_eq_true hlt.le
  · intro row hlt
    exact decide_eq_false (not_le.mpr hlt)

/-- A statement that gates some columns and the status by the generation and then raises it. -/
structure FencedSql (table : MirrorTable) (cols cs : List Column)
    (gate : MirrorRow → MirrorRow → Bool) : Prop where
  sql : mirrorUpsertSql table cols =
    (cs.map copy ++ [fun _ row => Function.update row Column.status "finalized"]).map (gated gate) ++
      [raise .push_generation rfl]
  updates : ∀ d, d ∈ cs ++ [Column.status] ↔ d ∈ updatableColumns table cols
  fence : Column.push_generation ∉ updatableColumns table cols
  reads : ∀ values row row', row .push_generation = row' .push_generation →
    gate values row = gate values row'
  opens : ∀ values row, values .status = "finalized" →
    row .push_generation < values .push_generation → gate values row = true
  shuts : ∀ values row, values .push_generation < row .push_generation → gate values row = false

section fenced
variable {table : MirrorTable} {cols cs : List Column} {gate : MirrorRow → MirrorRow → Bool}

theorem FencedSql.sets (h : FencedSql table cols cs gate) :
    ∀ set ∈ cs.map copy ++ [fun _ row => Function.update row Column.status "finalized"],
      ∀ values row : MirrorRow, set values row .push_generation = row .push_generation := by
  intro set hset values row
  rcases List.mem_append.mp hset with hset | hset
  · obtain ⟨c, hc, rfl⟩ := List.mem_map.mp hset
    have hne : Column.push_generation ≠ c := by
      rintro rfl
      exact h.fence ((h.updates _).mp (List.mem_append_left _ hc))
    simp [hne]
  · obtain rfl := List.mem_singleton.mp hset
    simp

theorem FencedSql.push_generation (h : FencedSql table cols cs gate) (values row : MirrorRow) :
    upgradeRow table cols row values .push_generation =
      max (row .push_generation) (values .push_generation) := by
  rw [upgradeRow, h.sql]
  exact (assign_gated_raise h.reads h.sets values row).1

theorem FencedSql.follows (h : FencedSql table cols cs gate) {values : MirrorRow}
    (hv : values .status = "finalized") :
    Follows (fun row => row .push_generation) (updatableContent table cols)
      (upgradeRow table cols) values := by
  refine follows_of_upgrade (gate values) (h.push_generation values) ?_
    (fun row => h.opens values row hv) (h.shuts values)
  intro row d hd
  have hne : d ≠ .push_generation := by
    rintro rfl
    exact h.fence hd
  rw [upgradeRow, h.sql, (assign_gated_raise h.reads h.sets values row).2 d hne,
    assign_copy_status cs hv, if_pos ((h.updates d).mpr hd)]

end fenced

theorem fencedSql_calls {cols : List Column} (hfence : Column.push_generation ∈ cols)
    (hstatus : Column.status ∈ cols) : FencedSql .cross_chain_calls cols
      ((cols.filter (· ≠ Column.id)).filter fun c =>
        c ∉ [Column.id, .call_id, .phase, .status, .push_generation])
      (fun values row => values .status = "finalized" &&
        decide (row .push_generation ≤ values .push_generation)) where
  sql := by
    simp [mirrorUpsertSql, crossChainCallUpsertSql, hfence, hstatus, Function.comp_def]
  updates d := by
    by_cases hd : d = .status
    · simp [hd, updatableColumns, hstatus]
    · simp only [updatableColumns, List.mem_append, List.mem_filter, List.mem_singleton, hd]
      simp
      tauto
  fence := by simp [updatableColumns]
  reads values row row' h := by simp only [h]
  opens values row hv hlt := by simp [hv, hlt.le]
  shuts values row hlt := by simp [not_le.mpr hlt]

theorem fencedSql_bridge {cols : List Column} (hfence : Column.push_generation ∈ cols)
    (hstatus : Column.status ∈ cols) : FencedSql .bridge_transfers cols
      (BRIDGE_REVIVE_COLUMNS.filter (· ∈ cols.filter (· ≠ Column.id)))
      (fun values row => values .status = "finalized" &&
        decide (row .push_generation < values .push_generation)) where
  sql := by
    simp [mirrorUpsertSql, bridgeTransferUpsertSql, hfence, hstatus, Function.comp_def]
  updates d := by
    have hrevive : d ∈ BRIDGE_REVIVE_COLUMNS → d ≠ .id := by
      rintro hd rfl
      simp [BRIDGE_REVIVE_COLUMNS] at hd
    simp only [updatableColumns, List.mem_append, List.mem_filter, decide_eq_true_eq]
    constructor
    · rintro (⟨hd, hcols, -⟩ | hd)
      · exact .inl ⟨hd, hcols⟩
      · exact .inr hd
    · rintro (⟨hd, hcols⟩ | hd)
      · exact .inl ⟨hd, hcols, hrevive hd⟩
      · exact .inr hd
  fence := by simp [updatableColumns, BRIDGE_REVIVE_COLUMNS]
  reads values row row' h := by simp only [h]
  opens values row hv hlt := by simp [hv, hlt]
  shuts values row hlt := by simp [hlt.le]

section generation
variable {table : MirrorTable} {cols : List Column} (htable : table ∈ GENERATION_TABLES)
  (hcols : Upgradable table cols)

include htable hcols

/-- Every delivery, finalized or not, leaves the higher of the two generations. -/
theorem push_generation_upgradeRow (values row : MirrorRow) :
    upgradeRow table cols row values .push_generation =
      max (row .push_generation) (values .push_generation) := by
  obtain ⟨hfence, hstatus⟩ := hcols
  simp only [GENERATION_TABLES, List.mem_cons, List.not_mem_nil, or_false] at htable
  rcases htable with rfl | rfl | rfl
  · exact push_generation_oracle hfence values row
  · exact (fencedSql_calls hfence (hstatus.resolve_left (by decide))).push_generation values row
  · exact (fencedSql_bridge hfence (hstatus.resolve_left (by decide))).push_generation values row

theorem follows_upgradeRow {values : MirrorRow} (hv : FinalizedIn table values) :
    Follows (fun row => row .push_generation) (updatableContent table cols)
      (upgradeRow table cols) values := by
  obtain ⟨hfence, hstatus⟩ := hcols
  simp only [GENERATION_TABLES, List.mem_cons, List.not_mem_nil, or_false] at htable
  rcases htable with rfl | rfl | rfl
  · exact follows_oracle hfence values
  · exact (fencedSql_calls hfence (hstatus.resolve_left (by decide))).follows
      (hv.resolve_left (by decide))
  · exact (fencedSql_bridge hfence (hstatus.resolve_left (by decide))).follows
      (hv.resolve_left (by decide))

end generation

/-! ### Publications and retractions of one key -/

/-- What the mirror receives about a key: a publication, or a retraction whose range it lies in. -/
inductive KeyMessage where
  | published (row : MirrorRow)
  | retracted (chain : String) (range : RetractionRange)

/-- The row at the key after a message. -/
def receive (table : MirrorTable) (cols : List Column) (row : Option MirrorRow) :
    KeyMessage → Option MirrorRow
  | .published values => applyRow table cols row values
  | .retracted chain range => row.filter fun r => !retracts table chain range r

def KeyMessage.delivery (table : MirrorTable) : KeyMessage → Delivery MirrorRow
  | .published values => .put values
  | .retracted chain range => .delete (retracts table chain range)

theorem receive_eq_step (table : MirrorTable) (cols : List Column) (row : Option MirrorRow)
    (m : KeyMessage) :
    receive table cols row m = (m.delivery table).step (upgradeRow table cols) row := by
  cases m <;> rfl

/-- A fenced retraction dooms no row above its fence. -/
theorem generation_le_of_retracts {table : MirrorTable} (htable : table ∈ GENERATION_TABLES)
    {chain : String} {range : RetractionRange} {row : MirrorRow} {fence : ℚ}
    (hfence : fence ∈ range.fence) (h : retracts table chain range row = true) :
    (row .push_generation : ℚ) ≤ fence := by
  have hcovers : ∃ index, range.covers index (row .push_generation) = true := by
    simp only [GENERATION_TABLES, List.mem_cons, List.not_mem_nil, or_false] at htable
    rcases htable with rfl | rfl | rfl
    · simp only [retracts, retractByColumn, RETRACTION_COLUMNS, Option.any_some,
        Bool.and_eq_true] at h
      exact ⟨_, h.2⟩
    · simp only [retracts, retractCalls, Bool.and_eq_true] at h
      exact ⟨_, h.2⟩
    · simp only [retracts, retractByColumn, RETRACTION_COLUMNS, Option.any_some,
        Bool.and_eq_true] at h
      exact ⟨_, h.2⟩
  obtain ⟨index, hcovers⟩ := hcovers
  rw [RetractionRange.covers, Option.mem_def.mp hfence] at hcovers
  simpa using (Bool.and_eq_true_iff.mp hcovers).2

/-- The publication of the highest generation stands after every order of deliveries it is among,
    as long as every retraction is fenced below it; and no delivery lowers the generation of a
    row. -/
theorem republished_survives {table : MirrorTable} {cols : List Column}
    (htable : table ∈ GENERATION_TABLES) (hcols : Upgradable table cols)
    {publications : List MirrorRow} (hfinal : ∀ v ∈ publications, FinalizedIn table v)
    (hdistinct : ∀ v ∈ publications, ∀ w ∈ publications,
      v .push_generation = w .push_generation → v = w)
    {retractions : List (String × RetractionRange)} {g : MirrorRow}
    (hnewest : ∀ v ∈ publications, v .push_generation ≤ g .push_generation)
    (hfenced : ∀ r ∈ retractions, ∃ fence ∈ r.2.fence, fence < (g .push_generation : ℚ))
    {messages : List KeyMessage}
    (hmessages : ∀ m ∈ messages, (∃ v ∈ publications, m = .published v) ∨
      ∃ r ∈ retractions, m = .retracted r.1 r.2)
    (hg : .published g ∈ messages) :
    (∃ row, messages.foldl (receive table cols) none = some row ∧
      row .push_generation = g .push_generation ∧
      ∀ c ∈ updatableColumns table cols, row c = g c) ∧
    ∀ row m row', receive table cols (some row) m = some row' →
      row .push_generation ≤ row' .push_generation := by
  have hgmem : g ∈ publications := by
    rcases hmessages _ hg with ⟨v, hv, heq⟩ | ⟨r, -, heq⟩
    · exact KeyMessage.published.inj heq ▸ hv
    · cases heq
  constructor
  · have hwithin : ∀ d ∈ messages.map (KeyMessage.delivery table),
        d.Within (fun row => row .push_generation) (updatableContent table cols)
          (upgradeRow table cols) g := by
      intro d hd
      obtain ⟨m, hm, rfl⟩ := List.mem_map.mp hd
      rcases hmessages m hm with ⟨v, hv, rfl⟩ | ⟨r, hr, rfl⟩
      · refine ⟨⟨hnewest v hv, fun heq => ?_⟩, follows_upgradeRow htable hcols (hfinal v hv)⟩
        rw [hdistinct v hv g hgmem heq]
      · intro row hdoomed
        obtain ⟨fence, hfence, hlt⟩ := hfenced r hr
        exact_mod_cast (generation_le_of_retracts htable hfence hdoomed).trans_lt hlt
    have hput : .put g ∈ messages.map (KeyMessage.delivery table) :=
      List.mem_map.mpr ⟨_, hg, rfl⟩
    have hnone : ∀ r ∈ (none : Option MirrorRow), Behind (fun row => row .push_generation)
        (updatableContent table cols) g r := by simp
    obtain ⟨row, hrow, hstamp, hcontent⟩ := foldl_put_holds hwithin hnone hput
    refine ⟨row, ?_, hstamp, fun c hc => congrFun hcontent ⟨c, hc⟩⟩
    have hreceive : receive table cols =
        fun row m => (m.delivery table).step (upgradeRow table cols) row :=
      funext₂ (receive_eq_step table cols)
    rw [hreceive, ← hrow, List.foldl_map]
  · intro row m row' h
    cases m with
    | published values =>
      obtain rfl : upgradeRow table cols row values = row' := Option.some.inj h
      rw [push_generation_upgradeRow htable hcols]
      exact le_max_left _ _
    | retracted chain range =>
      have hkept : (some row).filter (fun r => !retracts table chain range r) = some row' := h
      obtain rfl : row = row' := Option.some.inj (Option.filter_eq_some_iff.mp hkept).1
      exact le_rfl

/-- A price of one generation. -/
def oraclePrice (generation : ℤ) : MirrorRow
  | .push_generation => generation
  | .other "price" => .int generation
  | c => defaultRow c

theorem oraclePrice_injective {m n : ℤ} (h : oraclePrice m .push_generation =
    oraclePrice n .push_generation) : oraclePrice m = oraclePrice n :=
  congrArg oraclePrice h

theorem republished_survives_late_retraction :
    let cols := [Column.source_chain, .action_index, .push_generation, .other "price"]
    let late := KeyMessage.retracted "" ⟨0, none, some 1⟩
    (∃ row, [KeyMessage.published (oraclePrice 2), late, .published (oraclePrice 1), late].foldl
        (receive .oracle_prices cols) none = some row ∧
      row .push_generation = oraclePrice 2 .push_generation ∧
      ∀ c ∈ updatableColumns .oracle_prices cols, row c = oraclePrice 2 c) ∧
    ∀ row m row', receive .oracle_prices cols (some row) m = some row' →
      row .push_generation ≤ row' .push_generation := by
  intro cols late
  have hdistinct : ∀ v ∈ [oraclePrice 1, oraclePrice 2], ∀ w ∈ [oraclePrice 1, oraclePrice 2],
      v .push_generation = w .push_generation → v = w := by
    simp only [List.mem_cons, List.not_mem_nil, or_false]
    rintro v (rfl | rfl) w (rfl | rfl) h
    all_goals exact oraclePrice_injective h
  have hnewest : ∀ v ∈ [oraclePrice 1, oraclePrice 2],
      v .push_generation ≤ oraclePrice 2 .push_generation := by
    simp [oraclePrice]
  have hfenced : ∀ r ∈ [("", (⟨0, none, some 1⟩ : RetractionRange))], ∃ fence ∈ r.2.fence,
      fence < (oraclePrice 2 .push_generation : ℚ) := by
    simp [RetractionRange.fence, Option.filter, oraclePrice]
  exact republished_survives (by decide) ⟨by decide, .inl rfl⟩ (fun _ _ => .inl rfl) hdistinct
    hnewest hfenced (by simp [late]) (by simp)

end HubDbSync
