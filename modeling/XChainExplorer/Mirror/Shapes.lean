import XChainExplorer.Mirror.Migrate

/-! # What every start keeps

    The shape of a mirror table outlasts every statement of the reconcilers, and so every start however it
    ends: what is added is declared, and no index is dropped but one that is widened. -/

namespace HubMirror

open HubDbSync (MirrorTable)
open Program

/-! ### Shapes -/

/-- A table that may lack additive columns and any of the indexes, and may hold a key that is still to be
    widened in a form without the column it was widened by. -/
structure Twin.Shapes (twin : Twin) (t : LiveTable) : Prop where
  required : ∀ c ∈ twin.columns, c.additive = false → c.name ∈ t.columnNames
  keyed : ∀ d ∈ twin.declaredIndexes, d.unique = true → ∀ i ∈ t.indexes, i.name = d.name →
    i.unique = true ∧ (i.columns = d.columns ∨
      ∃ w ∈ twin.widenIndexes, w.index.name = d.name ∧ w.requiredColumn ∉ i.columns)

def Twin.Admits (twin : Twin) (live : Option LiveTable) : Prop := ∀ t ∈ live, twin.Shapes t

/-- The table deduplicates on the key's columns. -/
def LiveTable.Carries (t : LiveTable) (d : Index) : Prop :=
  ∃ i ∈ t.indexes, i.unique = true ∧ i.columns = d.columns

variable {twin : Twin}

theorem Twin.index_inj {i d : Index} (hi : i ∈ primaryKey :: twin.keys) (hd : d ∈ twin.declaredIndexes)
    (h : i.name = d.name) : i = d := by
  have hnodup := twin.names_nodup
  have hi' : i ∈ primaryKey :: twin.keys ++ twin.createIndex := List.mem_append_left _ hi
  have hd' : d ∈ primaryKey :: twin.keys ++ twin.createIndex := List.mem_cons_of_mem _ hd
  exact List.inj_on_of_nodup_map hnodup hi' hd' h

theorem Twin.declaredIndex_inj {i d : Index} (hi : i ∈ twin.declaredIndexes) (hd : d ∈ twin.declaredIndexes)
    (h : i.name = d.name) : i = d :=
  List.inj_on_of_nodup_map twin.names_nodup (List.mem_cons_of_mem _ hi) (List.mem_cons_of_mem _ hd) h

/-! ### What a statement keeps -/

variable {twins : MirrorTable → Twin} {K K' : MirrorTable → Index → Prop}

/-- A table becomes another: it keeps its shape, its columns and the indexes in `K`. -/
structure Twin.Keeps (twin : Twin) (K : Index → Prop) (live live' : Option LiveTable) : Prop where
  admits : twin.Admits live → twin.Admits live'
  table : ∀ t, live = some t → ∃ t', live' = some t' ∧ t.columnNames ⊆ t'.columnNames ∧
    ∀ i ∈ t.indexes, K i → i ∈ t'.indexes

theorem Twin.Keeps.rfl {K : Index → Prop} {live : Option LiveTable} : twin.Keeps K live live :=
  ⟨id, fun t ht => ⟨t, ht, List.Subset.refl _, fun _ hi _ => hi⟩⟩

theorem Twin.Keeps.trans {K : Index → Prop} {live live' live'' : Option LiveTable}
    (h : twin.Keeps K live live') (h' : twin.Keeps K live' live'') : twin.Keeps K live live'' := by
  refine ⟨fun ha => h'.admits (h.admits ha), fun t ht => ?_⟩
  obtain ⟨t', ht', hcols, hidx⟩ := h.table t ht
  obtain ⟨t'', ht'', hcols', hidx'⟩ := h'.table t' ht'
  exact ⟨t'', ht'', fun c hc => hcols' (hcols hc), fun i hi hk => hidx' i (hidx i hi hk) hk⟩

/-- What a program may do to the schema and the log. -/
structure Moves (twins : MirrorTable → Twin) (K : MirrorTable → Index → Prop) (w w' : World) : Prop where
  warned : w.warned ⊆ w'.warned
  keeps : ∀ table, (twins table).Keeps (K table) (w.schema table) (w'.schema table)

instance : Std.Refl (Moves twins K) := ⟨fun _ => ⟨List.Subset.refl _, fun _ => .rfl⟩⟩

instance : IsTrans World (Moves twins K) :=
  ⟨fun _ _ _ h h' => ⟨fun _ hx => h'.warned (h.warned hx), fun table => (h.keeps table).trans (h'.keeps table)⟩⟩

theorem Moves.mono (hK : ∀ table i, K' table i → K table i) {w w' : World} (h : Moves twins K w w') :
    Moves twins K' w w' := by
  refine ⟨h.warned, fun table => ⟨(h.keeps table).admits, fun t ht => ?_⟩⟩
  obtain ⟨t', ht', hcols, hidx⟩ := (h.keeps table).table t ht
  exact ⟨t', ht', hcols, fun i hi hk => hidx i hi (hK table i hk)⟩

/-- The clauses the reconcilers write: they add what is declared, and drop no index of `K`. -/
def Clause.Allowed (twin : Twin) (K : Index → Prop) : Clause → Prop
  | addColumn _ | modifyColumn _ => True
  | addIndex i => i ∈ twin.declaredIndexes
  | dropIndex name => ∀ i, K i → i.name ≠ name

theorem modifyColumn_columnNames (t : LiveTable) (column : LiveColumn) :
    (t.columns.map fun c => if c.name = column.name then column else c).map LiveColumn.name =
      t.columnNames := by
  rw [List.map_map]
  refine List.map_congr_left fun c _ => ?_
  by_cases hname : c.name = column.name
  · simp [hname]
  · simp [hname]

theorem Clause.run_keeps {K : Index → Prop} {c : Clause} (hc : c.Allowed twin K) {t t' : LiveTable}
    (h : c.run t = some t') : twin.Keeps K (some t) (some t') := by
  cases c with
  | addColumn column =>
    simp only [Clause.run] at h
    split_ifs at h
    cases h
    have hcols : t.columnNames ⊆ (t.columns ++ [column]).map LiveColumn.name := by
      rw [List.map_append]
      exact List.subset_append_left _ _
    refine ⟨fun ha => ?_, fun u hu => ?_⟩
    · rintro u ⟨⟩
      have ht := ha t rfl
      exact ⟨fun c hc hadd => hcols (ht.required c hc hadd), ht.keyed⟩
    · cases hu
      exact ⟨_, rfl, hcols, fun i hi _ => hi⟩
  | modifyColumn column =>
    simp only [Clause.run] at h
    split_ifs at h
    cases h
    have hcols := modifyColumn_columnNames t column
    refine ⟨fun ha => ?_, fun u hu => ?_⟩
    · rintro u ⟨⟩
      have ht := ha t rfl
      refine ⟨fun c hc hadd => ?_, ht.keyed⟩
      rw [LiveTable.columnNames, hcols]
      exact ht.required c hc hadd
    · cases hu
      refine ⟨_, rfl, ?_, fun i hi _ => hi⟩
      rw [← hcols]
      exact List.Subset.refl _
  | addIndex index =>
    simp only [Clause.run] at h
    split_ifs at h
    cases h
    refine ⟨fun ha => ?_, fun u hu => ?_⟩
    · rintro u ⟨⟩
      have ht := ha t rfl
      refine ⟨ht.required, fun d hd hu i hi hname => ?_⟩
      rcases List.mem_append.mp hi with hi | hi
      · exact ht.keyed d hd hu i hi hname
      · obtain rfl : i = index := List.mem_singleton.mp hi
        obtain rfl : i = d := Twin.declaredIndex_inj hc hd hname
        exact ⟨hu, .inl rfl⟩
    · cases hu
      exact ⟨_, rfl, List.Subset.refl _, fun i hi _ => List.mem_append_left _ hi⟩
  | dropIndex name =>
    simp only [Clause.run] at h
    split_ifs at h
    cases h
    refine ⟨fun ha => ?_, fun u hu => ?_⟩
    · rintro u ⟨⟩
      have ht := ha t rfl
      exact ⟨ht.required, fun d hd hu i hi hname => ht.keyed d hd hu i (List.mem_of_mem_filter hi) hname⟩
    · cases hu
      refine ⟨_, rfl, List.Subset.refl _, fun i hi hk => List.mem_filter.mpr ⟨hi, ?_⟩⟩
      simpa using hc i hk

theorem clauses_keep {K : Index → Prop} {clauses : List Clause} (hc : ∀ c ∈ clauses, c.Allowed twin K)
    {t t' : LiveTable} (h : clauses.foldlM Clause.run t = some t') : twin.Keeps K (some t) (some t') := by
  induction clauses generalizing t with
  | nil =>
    cases h
    exact .rfl
  | cons c clauses ih =>
    rw [List.foldlM_cons] at h
    obtain ⟨t₁, hfirst, hrest⟩ := Option.bind_eq_some_iff.mp h
    exact (Clause.run_keeps (hc c List.mem_cons_self) hfirst).trans
      (ih (fun c hc' => hc c (List.mem_cons_of_mem _ hc')) hrest)

/-- The statements of the programs: a table is created from its twin file, and altered by clauses that are
    allowed. -/
def Ddl.Allowed (twins : MirrorTable → Twin) (K : MirrorTable → Index → Prop) : Ddl → Prop
  | createTable table columns indexes =>
    columns = (twins table).columns.map DeclaredColumn.toLiveColumn ∧ indexes = primaryKey :: (twins table).keys
  | createIndex table index => index ∈ (twins table).declaredIndexes
  | alter table clauses => ∀ c ∈ clauses, c.Allowed (twins table) (K table)

theorem keeps_update {s : Schema} {table : MirrorTable} {live : Option LiveTable}
    (h : (twins table).Keeps (K table) (s table) live) (b : MirrorTable) :
    (twins b).Keeps (K b) (s b) (Function.update s table live b) := by
  by_cases hb : b = table
  · subst hb
    rwa [Function.update_self]
  · rw [Function.update_of_ne hb]
    exact .rfl

theorem Ddl.run_keeps {d : Ddl} (hd : d.Allowed twins K) {s s' : Schema} (h : d.run s = some s')
    (table : MirrorTable) : (twins table).Keeps (K table) (s table) (s' table) := by
  cases d with
  | createTable b columns indexes =>
    obtain ⟨rfl, rfl⟩ := hd
    simp only [Ddl.run] at h
    split_ifs at h with hnew
    cases h
    refine keeps_update ⟨fun _ => ?_, fun t ht => ?_⟩ table
    · rintro t ⟨⟩
      refine ⟨fun c hc _ => ?_, fun d hd hu i hi hname => ?_⟩
      · exact List.mem_map.mpr ⟨c.toLiveColumn, List.mem_map_of_mem hc, rfl⟩
      · obtain rfl : i = d := Twin.index_inj hi hd hname
        exact ⟨hu, .inl rfl⟩
    · rw [hnew.1] at ht
      cases ht
  | createIndex b index =>
    obtain ⟨t, ht, hrest⟩ := Option.bind_eq_some_iff.mp h
    obtain ⟨t', hclause, hlast⟩ := Option.bind_eq_some_iff.mp hrest
    cases hlast
    refine keeps_update ?_ table
    have hadd : (Clause.addIndex index).Allowed (twins b) (K b) := hd
    rw [ht]
    exact Clause.run_keeps hadd hclause
  | alter b clauses =>
    obtain ⟨t, ht, hrest⟩ := Option.bind_eq_some_iff.mp h
    obtain ⟨t', hclauses, hlast⟩ := Option.bind_eq_some_iff.mp hrest
    cases hlast
    refine keeps_update ?_ table
    rw [ht]
    exact clauses_keep hd hclauses

/-! ### Every program keeps the shapes -/

theorem within_query {α : Type} {q : Query} {run : Schema → Option (α × Schema)}
    (h : ∀ s a s', run s = some (a, s') → ∀ table, (twins table).Keeps (K table) (s table) (s' table)) :
    Within (Moves twins K) (query q run) := by
  intro w
  rw [query]
  split
  · exact ⟨List.Subset.refl _, fun _ => .rfl⟩
  · exact ⟨List.Subset.refl _, fun _ => .rfl⟩
  · split
    case h_1 a s hrun => exact ⟨List.Subset.refl _, h _ a s hrun⟩
    case h_2 => exact ⟨List.Subset.refl _, fun _ => .rfl⟩

theorem within_doQuery {d : Ddl} (hd : d.Allowed twins K) : Within (Moves twins K) (doQuery d) := by
  refine within_query fun s a s' hrun table => ?_
  obtain ⟨s₁, hs₁, hpair⟩ := Option.map_eq_some_iff.mp hrun
  cases hpair
  exact Ddl.run_keeps hd hs₁ table

theorem within_read {α : Type} (f : Schema → α) : Within (Moves twins K) (read f) := by
  refine within_query fun s a s' hrun table => ?_
  cases hrun
  exact .rfl

theorem within_tryCatch {α : Type} {x h : Session α} (hx : Within (Moves twins K) x)
    (hh : Within (Moves twins K) h) : Within (Moves twins K) (tryCatch x h) := hx.rescue hh

theorem within_addDeclaredColumn (table : MirrorTable) (live : List String) (c : DeclaredColumn) :
    Within (Moves twins K) (addDeclaredColumn table live c) := by
  rw [addDeclaredColumn]
  split_ifs
  · exact within_pure _
  · exact within_pure _
  · refine within_tryCatch ?_ (within_pure _)
    have hadd : (Ddl.alter table [.addColumn c.toLiveColumn]).Allowed twins K := by
      simp [Ddl.Allowed, Clause.Allowed]
    exact (within_doQuery hadd).bind fun _ => within_pure _

theorem within_addDeclaredColumns (table : MirrorTable) (declared : List DeclaredColumn) (live : List String) :
    Within (Moves twins K) (addDeclaredColumns table declared live) := by
  induction declared generalizing live with
  | nil => exact within_pure _
  | cons c declared ih => exact (within_addDeclaredColumn table live c).bind fun _ => ih _

theorem within_reconcileDeclaredColumns (table : MirrorTable) :
    Within (Moves twins K) (reconcileDeclaredColumns table (twins table)) := by
  rw [reconcileDeclaredColumns]
  split_ifs
  · exact within_pure _
  · exact (within_read _).bind fun _ => within_addDeclaredColumns _ _ _

theorem within_addDeclaredIndex {table : MirrorTable} {idx : Index} (hidx : idx ∈ (twins table).declaredIndexes)
    (live : List Index) : Within (Moves twins K) (addDeclaredIndex table live idx) := by
  rw [addDeclaredIndex]
  split_ifs
  · exact within_pure _
  · exact within_pure _
  · have hadd : (Ddl.alter table [.addIndex idx]).Allowed twins K := by
      simpa [Ddl.Allowed, Clause.Allowed] using hidx
    refine within_tryCatch (within_doQuery hadd) fun w => ?_
    exact ⟨List.subset_append_left _ _, fun _ => .rfl⟩

theorem within_reconcileDeclaredIndexes (table : MirrorTable) :
    Within (Moves twins K) (reconcileDeclaredIndexes table (twins table)) := by
  rw [reconcileDeclaredIndexes]
  split_ifs
  · exact within_pure _
  · exact (within_read _).bind fun live => within_each fun idx hidx => within_addDeclaredIndex hidx live

theorem statements_allowed {table : MirrorTable} {d : Ddl} (hd : d ∈ (twins table).statements table) :
    d.Allowed twins K := by
  rcases List.mem_cons.mp hd with rfl | hd
  · exact ⟨rfl, rfl⟩
  · obtain ⟨idx, hidx, rfl⟩ := List.mem_map.mp hd
    exact List.mem_append_right _ hidx

theorem within_ensureTable (table : MirrorTable) :
    Within (Moves twins K) (ensureTable table (twins table)) := by
  refine (within_read _).bind fun existing => ?_
  split_ifs
  · exact (within_reconcileDeclaredColumns table).bind fun _ => within_reconcileDeclaredIndexes table
  · exact within_each fun d hd => within_doQuery (statements_allowed hd)

theorem within_attempts {x : Session Unit} (hx : Within (Moves twins K) x) (n : ℕ) :
    Within (Moves twins K) (attempts x n) := by
  induction n with
  | zero => exact within_raise _
  | succ n ih => exact within_tryCatch hx ih

theorem within_ensureTables : Within (Moves twins K) (ensureTables twins) :=
  within_each fun table _ => within_attempts (within_ensureTable table) _

theorem within_alter {table : MirrorTable} {clauses : List Clause}
    (hc : ∀ c ∈ clauses, c.Allowed (twins table) (K table)) : Within (Moves twins K) (alter table clauses) := by
  rw [alter]
  split_ifs
  · exact within_pure _
  · exact within_doQuery hc

theorem modifyColumns_allowed {α : Type} {live : List LiveColumn} {name : α → String}
    {changed : α → LiveColumn → Option LiveColumn} {entries : List α} {K : Index → Prop} {c : Clause}
    (hc : c ∈ modifyColumns live name changed entries) : c.Allowed twin K := by
  obtain ⟨e, -, he⟩ := List.mem_filterMap.mp hc
  obtain ⟨column, -, rfl⟩ := Option.map_eq_some_iff.mp he
  trivial

theorem within_showIndexFor {table : MirrorTable} : Within (Moves twins K) (showIndexFor table twin) := by
  rw [showIndexFor]
  split_ifs
  · exact within_pure _
  · exact within_read _

/-- The additive columns and the indexes of a table's entry. -/
theorem addMissing_allowed {K : Index → Prop} (live : List LiveColumn) (haveIdx : List Index) :
    ∀ c ∈ ((twin.columns.filter DeclaredColumn.additive).filter fun c =>
          c.name ∉ live.map LiveColumn.name).map (fun c => Clause.addColumn c.toLiveColumn) ++
        (twin.indexes.filter fun i => i.name ∉ haveIdx.map Index.name).map Clause.addIndex,
      c.Allowed twin K := by
  intro c hc
  rcases List.mem_append.mp hc with hc | hc
  · obtain ⟨column, -, rfl⟩ := List.mem_map.mp hc
    trivial
  · obtain ⟨i, hi, rfl⟩ := List.mem_map.mp hc
    exact twin.indexes_declared i (List.mem_of_mem_filter hi)

theorem within_addMissing (table : MirrorTable) :
    Within (Moves twins K) (addMissingColumnsAndIndexes table (twins table)) :=
  (within_read _).bind fun live => within_showIndexFor.bind fun haveIdx =>
    within_alter (addMissing_allowed live haveIdx)

theorem within_widenColumnCharsets (table : MirrorTable) :
    Within (Moves twins K) (widenColumnCharsets table (twins table)) := by
  rw [widenColumnCharsets]
  split_ifs
  · exact within_pure _
  · exact (within_read _).bind fun live => within_alter fun c hc => modifyColumns_allowed hc

theorem within_widenColumnLengths (table : MirrorTable) :
    Within (Moves twins K) (widenColumnLengths table (twins table)) := by
  rw [widenColumnLengths]
  split_ifs
  · exact within_pure _
  · exact (within_read _).bind fun live =>
      within_tryCatch (within_alter fun c hc => modifyColumns_allowed hc) (within_pure _)

theorem within_retypeColumnTypes (table : MirrorTable) :
    Within (Moves twins K) (retypeColumnTypes table (twins table)) := by
  rw [retypeColumnTypes]
  split_ifs
  · exact within_pure _
  · exact (within_read _).bind fun live =>
      within_tryCatch (within_alter fun c hc => modifyColumns_allowed hc) (within_pure _)

/-- A key that is widened is gone for a moment, and no other is. -/
theorem within_widenUniqueIndex {table : MirrorTable} {w : WidenIndex} (hw : w ∈ (twins table).widenIndexes)
    (idxRows : List Index) :
    Within (Moves twins fun b i => b = table → i.name ≠ w.index.name) (widenUniqueIndex table idxRows w) := by
  simp only [widenUniqueIndex]
  split_ifs
  · exact within_pure _
  · exact within_pure _
  · have hdrop : (Ddl.alter table [.dropIndex w.index.name]).Allowed twins
        fun b i => b = table → i.name ≠ w.index.name := by
      simp [Ddl.Allowed, Clause.Allowed]
    have hadd : (Ddl.alter table [.addIndex w.index]).Allowed twins
        fun b i => b = table → i.name ≠ w.index.name := by
      rintro c hc
      obtain rfl : c = .addIndex w.index := List.mem_singleton.mp hc
      exact ((twins table).widen_declared w hw).1
    exact (within_doQuery hdrop).bind fun _ => within_doQuery hadd

/-- The other tables keep their indexes while one is migrated. -/
theorem within_widenUniqueIndexes (table : MirrorTable) :
    Within (Moves twins fun b _ => b ≠ table) (widenUniqueIndexes table (twins table)) := by
  rw [widenUniqueIndexes]
  split_ifs
  · exact within_pure _
  · refine (within_read _).bind fun live => within_each fun w hw => ?_
    refine (within_widenUniqueIndex hw live).mono fun _ _ h => h.mono fun b i hb hbt => ?_
    exact absurd hbt hb

theorem within_migrateTable (table : MirrorTable) :
    Within (Moves twins fun b _ => b ≠ table) (migrateTable table (twins table)) := by
  refine (within_read _).bind fun existing => ?_
  split_ifs
  · exact within_pure _
  · exact (within_addMissing table).bind fun _ => (within_widenColumnCharsets table).bind fun _ =>
      (within_widenColumnLengths table).bind fun _ => (within_widenUniqueIndexes table).bind fun _ =>
        within_retypeColumnTypes table

theorem within_createDatabase :
    Within (Moves twins K) (query .createDatabase fun s => some ((), s)) := by
  refine within_query fun s a s' hrun table => ?_
  cases hrun
  exact .rfl

/-- The shapes of the tables outlast every start, however it ends. -/
theorem within_startMirrorInstance : Within (Moves twins fun _ _ => False) (startMirrorInstance twins) := by
  refine within_createDatabase.bind fun _ => within_ensureTables.bind fun _ => within_each fun table _ => ?_
  exact (within_migrateTable table).mono fun _ _ h => h.mono fun _ _ hfalse => hfalse.elim

theorem restarts_admits {s : Schema} (hs : ∀ table, (twins table).Admits (s table))
    (fates : List (ℕ → Query → Fate)) (table : MirrorTable) :
    (twins table).Admits (restarts twins s fates table) := by
  induction fates generalizing s with
  | nil => exact hs table
  | cons fate fates ih =>
    refine ih fun b => ?_
    have hmoves := (within_startMirrorInstance : Within (Moves twins _) _) { schema := s, fate }
    exact (hmoves.keeps b).admits (hs b)

end HubMirror
