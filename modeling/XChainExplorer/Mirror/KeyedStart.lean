import XChainExplorer.Mirror.Shapes

/-! # A client starts over keyed tables

    Whatever schema a mirror is adopted with and whatever its queries come to, over any number of restarts, a
    start that goes on to construct the client leaves every table with its declared columns and with every
    unique key of its twin file, but for keys whose statement failed in that start. -/

namespace HubMirror

open HubDbSync (MirrorTable)
open Program

variable {twins : MirrorTable → Twin} {K : MirrorTable → Index → Prop} {table : MirrorTable}

/-! ### Queries -/

section queries

variable {α : Type} {P : World → Prop} {Q : α → World → Prop}

theorem yields_read {f : Schema → α} (h : ∀ w, P w → Q (f w.schema) { w with clock := w.clock + 1 }) :
    Yields P (read f) Q := by
  intro w a w' hw hrun
  simp only [read, query] at hrun
  split at hrun
  · cases hrun
  · cases hrun
  · cases hrun
    exact h w hw

theorem yields_doQuery {d : Ddl} {Q : Unit → World → Prop}
    (h : ∀ w s, P w → d.run w.schema = some s → Q () { w with clock := w.clock + 1, schema := s }) :
    Yields P (doQuery d) Q := by
  intro w a w' hw hrun
  simp only [doQuery, query] at hrun
  split at hrun
  · cases hrun
  · cases hrun
  · cases hd : d.run w.schema with
    | none =>
      rw [hd] at hrun
      cases hrun
    | some s =>
      rw [hd] at hrun
      cases hrun
      exact h w s hw hd

theorem yields_alter {clauses : List Clause} {Q : Unit → World → Prop}
    (hP : ∀ w, P w → ∃ t, w.schema table = some t)
    (h : ∀ w t t', P w → w.schema table = some t → clauses.foldlM Clause.run t = some t' →
      Q () { w with clock := w.clock + 1, schema := Function.update w.schema table (some t') }) :
    Yields P (doQuery (.alter table clauses)) Q := by
  refine yields_doQuery fun w s hw hrun => ?_
  obtain ⟨t, ht⟩ := hP w hw
  obtain ⟨u, hu, hrest⟩ := Option.bind_eq_some_iff.mp hrun
  obtain ⟨t', ht', hlast⟩ := Option.bind_eq_some_iff.mp hrest
  cases hlast
  exact h w u t' hw hu ht'

end queries

/-! ### ensureTables -/

/-- The name of the key stands, or a unique index on its columns. -/
def LiveTable.Names (t : LiveTable) (d : Index) : Prop :=
  ∃ i ∈ t.indexes, i.name = d.name ∨ i.unique = true ∧ i.columns = d.columns

/-- The table stands, and each of its unique keys, unless the log says that it does not. -/
def Ensured (twins : MirrorTable → Twin) (S : LiveTable → Index → Prop) (table : MirrorTable) (w : World) :
    Prop :=
  ∃ t, w.schema table = some t ∧ ∀ d ∈ (twins table).declaredIndexes, d.unique = true →
    S t d ∨ (table, d) ∈ w.warned

/-- The table is there. -/
def Exists (table : MirrorTable) (w : World) : Prop := ∃ t, w.schema table = some t

/-- It has the indexes that were read. -/
def Lists (table : MirrorTable) (live : List Index) (w : World) : Prop :=
  ∃ t, w.schema table = some t ∧ ∀ i ∈ live, i ∈ t.indexes

theorem lists_exists {live : List Index} (w : World) (h : Lists table live w) : Exists table w := by
  obtain ⟨t, ht, -⟩ := h
  exact ⟨t, ht⟩

theorem exists_stable : Stable (Moves twins K) (Exists table) := by
  rintro w w' h ⟨t, ht⟩
  obtain ⟨t', ht', -⟩ := (h.keeps table).table t ht
  exact ⟨t', ht'⟩

theorem lists_stable (hK : ∀ i, K table i) {live : List Index} :
    Stable (Moves twins K) (Lists table live) := by
  rintro w w' h ⟨t, ht, hlive⟩
  obtain ⟨t', ht', -, hidx⟩ := (h.keeps table).table t ht
  exact ⟨t', ht', fun i hi => hidx i (hlive i hi) (hK i)⟩

theorem names_stable (hK : ∀ i, K table i) : Stable (Moves twins K) (Ensured twins LiveTable.Names table) := by
  rintro w w' h ⟨t, ht, hkeys⟩
  obtain ⟨t', ht', -, hidx⟩ := (h.keeps table).table t ht
  refine ⟨t', ht', fun d hd hu => ?_⟩
  rcases hkeys d hd hu with ⟨i, hi, hname⟩ | hwarned
  · exact .inl ⟨i, hidx i hi (hK i), hname⟩
  · exact .inr (h.warned hwarned)

theorem mem_showIndex {t : LiveTable} {i : Index} :
    i ∈ t.indexes.insertionSort (fun i j => i.name ≤ j.name) ↔ i ∈ t.indexes :=
  List.mem_insertionSort ..

theorem addIndex_mem {t t' : LiveTable} {i : Index} (h : (Clause.addIndex i).run t = some t') : i ∈ t'.indexes := by
  simp only [Clause.run] at h
  split_ifs at h
  cases h
  exact List.mem_append_right _ List.mem_cons_self

/-- The key stands under its name or by its columns, or the log has it. -/
def Settled (table : MirrorTable) (d : Index) (w : World) : Prop :=
  ∃ t, w.schema table = some t ∧ (d.unique = true → t.Names d ∨ (table, d) ∈ w.warned)

theorem settled_stable (hK : ∀ i, K table i) {d : Index} : Stable (Moves twins K) (Settled table d) := by
  rintro w w' h ⟨t, ht, hkey⟩
  obtain ⟨t', ht', -, hidx⟩ := (h.keeps table).table t ht
  refine ⟨t', ht', fun hu => ?_⟩
  rcases hkey hu with ⟨i, hi, hname⟩ | hwarned
  · exact .inl ⟨i, hidx i hi (hK i), hname⟩
  · exact .inr (h.warned hwarned)

theorem settles_addDeclaredIndex {live : List Index} {d : Index} (hd : d ∈ (twins table).declaredIndexes) :
    Yields (Lists table live) (addDeclaredIndex table live d) fun _ => Settled table d := by
  rw [addDeclaredIndex]
  split_ifs with hname hserved
  · refine yields_pure ?_
    rintro w ⟨t, ht, hlive⟩
    refine ⟨t, ht, fun _ => .inl ?_⟩
    obtain ⟨i, hi, hid⟩ := List.mem_map.mp hname
    exact ⟨i, hlive i hi, .inl hid⟩
  · refine yields_pure ?_
    rintro w ⟨t, ht, hlive⟩
    refine ⟨t, ht, fun hu => .inl ?_⟩
    rw [servedByColumns] at hserved
    cases hfind : live.reverse.find? (·.columns = d.columns) with
    | none =>
      rw [hfind] at hserved
      cases hserved
    | some i =>
      rw [hfind] at hserved
      have hi := hlive i (List.mem_reverse.mp (List.mem_of_find?_eq_some hfind))
      have hcols : i.columns = d.columns := by simpa using List.find?_some hfind
      have hiu : i.unique = true := by simpa [hu] using hserved
      exact ⟨i, hi, .inr ⟨hiu, hcols⟩⟩
  · have hadd : Yields (Lists table live) (doQuery (.alter table [.addIndex d])) fun _ => Settled table d := by
      refine yields_alter lists_exists fun w t t' hw ht hrun => ?_
      obtain ⟨u, hu, hlast⟩ := Option.bind_eq_some_iff.mp hrun
      cases hlast
      exact ⟨t', Function.update_self .., fun _ => .inl ⟨d, addIndex_mem hu, .inl rfl⟩⟩
    have hallowed : (Ddl.alter table [.addIndex d]).Allowed twins fun _ _ => True := by
      rintro c hc
      obtain rfl : c = .addIndex d := List.mem_singleton.mp hc
      exact hd
    have hstop : ∀ w, Lists table live w → ∀ e w', doQuery (.alter table [.addIndex d]) w = (.error e, w') →
        Lists table live w' := by
      intro w hw e w' hrun
      have hmoves := within_doQuery hallowed w
      rw [hrun] at hmoves
      exact lists_stable (fun _ => trivial) _ _ hmoves hw
    refine hadd.rescue hstop ?_
    · rintro w a w' ⟨t, ht, hlive⟩ hrun
      cases hrun
      exact ⟨t, ht, fun _ => .inr (List.mem_append_right _ List.mem_cons_self)⟩

theorem ensures_reconcileDeclaredIndexes : Yields (Exists table)
    (reconcileDeclaredIndexes table (twins table)) fun _ => Ensured twins LiveTable.Names table := by
  rw [reconcileDeclaredIndexes]
  split_ifs with hnone
  · refine yields_pure ?_
    rintro w ⟨t, ht⟩
    refine ⟨t, ht, fun d hd => ?_⟩
    rw [List.isEmpty_iff.mp hnone] at hd
    cases hd
  · have hread : Yields (Exists table) (showIndex table) (Lists table) := by
      refine yields_read ?_
      rintro w ⟨t, ht⟩
      refine ⟨t, ht, fun i hi => ?_⟩
      rw [ht] at hi
      exact mem_showIndex.mp hi
    refine hread.bind fun live => ?_
    have hwithin : ∀ d ∈ (twins table).declaredIndexes,
        Within (Moves twins fun _ _ => True) (addDeclaredIndex table live d) :=
      fun d hd => within_addDeclaredIndex hd live
    have hloop : Yields (Lists table live) (each (twins table).declaredIndexes (addDeclaredIndex table live))
        fun _ w => Lists table live w ∧ ∀ d ∈ (twins table).declaredIndexes, Settled table d w := by
      refine yields_each (List.pairwise_of_forall fun _ _ => settled_stable fun _ => trivial) hwithin
        fun d hd => ?_
      exact ((settles_addDeclaredIndex hd).and_stable (hwithin d hd) (lists_stable fun _ => trivial)).mono
        (fun _ hw => ⟨hw, hw⟩) fun _ _ hw => ⟨hw.2, hw.1⟩
    refine hloop.mono (fun _ hw => hw) ?_
    rintro _ w ⟨⟨t, ht, _⟩, hkeys⟩
    refine ⟨t, ht, fun d hd hu => ?_⟩
    obtain ⟨u, hu', hkey⟩ := hkeys d hd
    rw [ht] at hu'
    cases hu'
    exact hkey hu

/-- What a statement of a twin file leaves behind. -/
def Leaves (table : MirrorTable) (d : Ddl) (w : World) : Prop :=
  match d with
  | .createTable _ _ indexes => Lists table indexes w
  | .createIndex _ index => Lists table [index] w
  | .alter _ _ => True

theorem leaves_stable (hK : ∀ i, K table i) (d : Ddl) : Stable (Moves twins K) (Leaves table d) := by
  cases d with
  | createTable b columns indexes => exact lists_stable hK
  | createIndex b index => exact lists_stable hK
  | alter b clauses => exact fun _ _ _ h => h

theorem leaves_statement {d : Ddl} (hd : d ∈ (twins table).statements table) :
    Yields (fun _ => True) (doQuery d) fun _ => Leaves table d := by
  refine yields_doQuery fun w s _ hrun => ?_
  rcases List.mem_cons.mp hd with rfl | hd
  · simp only [Ddl.run] at hrun
    split_ifs at hrun
    cases hrun
    exact ⟨_, Function.update_self .., fun i hi => hi⟩
  · obtain ⟨idx, hidx, rfl⟩ := List.mem_map.mp hd
    obtain ⟨t, ht, hrest⟩ := Option.bind_eq_some_iff.mp hrun
    obtain ⟨t', hclause, hlast⟩ := Option.bind_eq_some_iff.mp hrest
    cases hlast
    refine ⟨t', Function.update_self .., fun i hi => ?_⟩
    obtain rfl : i = idx := List.mem_singleton.mp hi
    exact addIndex_mem hclause

theorem ensures_statements : Yields (fun _ => True) (each ((twins table).statements table) doQuery)
    fun _ => Ensured twins LiveTable.Names table := by
  have hwithin : ∀ d ∈ (twins table).statements table, Within (Moves twins fun _ _ => True) (doQuery d) :=
    fun d hd => within_doQuery (statements_allowed hd)
  have hloop : Yields (fun _ => True) (each ((twins table).statements table) doQuery)
      fun _ w => True ∧ ∀ d ∈ (twins table).statements table, Leaves table d w := by
    refine yields_each (List.pairwise_of_forall fun d _ => leaves_stable (fun _ => trivial) d) hwithin
      fun d hd => ?_
    exact (leaves_statement hd).mono (fun _ hw => hw) fun _ _ hw => ⟨trivial, hw⟩
  refine hloop.mono (fun _ hw => hw) ?_
  rintro _ w ⟨_, hleaves⟩
  obtain ⟨t, ht, hkeys⟩ := hleaves _ List.mem_cons_self
  refine ⟨t, ht, fun d hd _ => .inl ⟨d, ?_, .inl rfl⟩⟩
  rcases List.mem_append.mp hd with hd | hd
  · exact hkeys d (List.mem_cons_of_mem _ hd)
  · obtain ⟨u, hu, hidx⟩ := hleaves _ (List.mem_cons_of_mem _ (List.mem_map_of_mem hd))
    rw [ht] at hu
    cases hu
    exact hidx d List.mem_cons_self

theorem ensures_ensureTable : Yields (fun _ => True) (ensureTable table (twins table))
    fun _ => Ensured twins LiveTable.Names table := by
  have hshow : Yields (fun _ => True) (showTables table) fun existing w => existing = true → Exists table w :=
    yields_read fun w _ h => Option.isSome_iff_exists.mp h
  refine hshow.bind fun existing => ?_
  split_ifs with hexisting
  · have hcolumns : Yields (fun w => existing = true → Exists table w)
        (reconcileDeclaredColumns table (twins table)) fun _ => Exists table := by
      have htrue : Yields (fun _ => True) (reconcileDeclaredColumns table (twins table)) fun _ _ => True :=
        fun _ _ _ _ _ => trivial
      exact (htrue.and_stable (within_reconcileDeclaredColumns (K := fun _ _ => True) table)
        exists_stable).mono (fun _ hw => ⟨trivial, hw hexisting⟩) fun _ _ hw => hw.2
    exact hcolumns.bind fun _ => ensures_reconcileDeclaredIndexes
  · exact ensures_statements.mono (fun _ _ => trivial) fun _ _ hw => hw

theorem ensures_attempts {x : Session Unit} {Q : World → Prop} (h : Yields (fun _ => True) x fun _ => Q) (n : ℕ) :
    Yields (fun _ => True) (attempts x n) fun _ => Q := by
  induction n with
  | zero => exact yields_raise
  | succ n ih => exact h.rescue (fun _ _ _ _ _ => trivial) ih

/-- Behind `ensureTables` every table stands, and a unique key does under its name or by its columns. -/
theorem ensures_ensureTables : Yields (fun _ => True) (ensureTables twins)
    fun _ w => ∀ table, Ensured twins LiveTable.Names table w := by
  have hwithin : ∀ table ∈ SQL_FILES, Within (Moves twins fun _ _ => True)
      (attempts (ensureTable table (twins table)) MAX_ATTEMPTS) :=
    fun table _ => within_attempts (within_ensureTable table) _
  have hloop : Yields (fun _ => True) (ensureTables twins)
      fun _ w => True ∧ ∀ table ∈ SQL_FILES, Ensured twins LiveTable.Names table w := by
    refine yields_each (List.pairwise_of_forall fun _ _ => names_stable fun _ => trivial) hwithin
      fun table _ => ?_
    exact (ensures_attempts ensures_ensureTable _).mono (fun _ hw => hw) fun _ _ hw => ⟨trivial, hw⟩
  exact hloop.mono (fun _ hw => hw) fun _ _ hw table => hw.2 table (mem_SQL_FILES table)

/-! ### ensureMirrorColumns -/

/-- It has every declared column. -/
def Columned (twins : MirrorTable → Twin) (table : MirrorTable) (w : World) : Prop :=
  ∃ t, w.schema table = some t ∧ ∀ c ∈ (twins table).columns, c.name ∈ t.columnNames

/-- Every table that is there is one its declaration admits. -/
def Shaped (twins : MirrorTable → Twin) (w : World) : Prop := ∀ table, (twins table).Admits (w.schema table)

theorem shaped_stable : Stable (Moves twins K) (Shaped twins) :=
  fun _ _ h hw table => (h.keeps table).admits (hw table)

theorem columned_stable : Stable (Moves twins K) (Columned twins table) := by
  rintro w w' h ⟨t, ht, hcols⟩
  obtain ⟨t', ht', hsub, -⟩ := (h.keeps table).table t ht
  exact ⟨t', ht', fun c hc => hsub (hcols c hc)⟩

theorem carries_stable (hK : ∀ i, K table i) :
    Stable (Moves twins K) (Ensured twins LiveTable.Carries table) := by
  rintro w w' h ⟨t, ht, hkeys⟩
  obtain ⟨t', ht', -, hidx⟩ := (h.keeps table).table t ht
  refine ⟨t', ht', fun d hd hu => ?_⟩
  rcases hkeys d hd hu with ⟨i, hi, hiu, hcols⟩ | hwarned
  · exact .inl ⟨i, hidx i hi (hK i), hiu, hcols⟩
  · exact .inr (h.warned hwarned)

/-- A column that a statement adds is there behind it. -/
theorem addColumn_mem {twin : Twin} {clauses : List Clause} (hc : ∀ c ∈ clauses, c.Allowed twin fun _ => True)
    {t t' : LiveTable} (h : clauses.foldlM Clause.run t = some t') {column : LiveColumn}
    (hcolumn : .addColumn column ∈ clauses) : column.name ∈ t'.columnNames := by
  induction clauses generalizing t with
  | nil => cases hcolumn
  | cons c clauses ih =>
    rw [List.foldlM_cons] at h
    obtain ⟨t₁, hfirst, hrest⟩ := Option.bind_eq_some_iff.mp h
    have hc' : ∀ c ∈ clauses, c.Allowed twin fun _ => True := fun c hc₁ => hc c (List.mem_cons_of_mem _ hc₁)
    rcases List.mem_cons.mp hcolumn with rfl | hcolumn
    · simp only [Clause.run] at hfirst
      split_ifs at hfirst
      cases hfirst
      obtain ⟨u, hu, hsub, -⟩ := (clauses_keep hc' hrest).table _ rfl
      cases hu
      refine hsub ?_
      simp [LiveTable.columnNames]
    · exact ih hc' hrest hcolumn

/-- The columns that were read are there, and so are the ones every table of the shape has. -/
def Columns (twins : MirrorTable → Twin) (table : MirrorTable) (live : List LiveColumn) (w : World) : Prop :=
  ∃ t, w.schema table = some t ∧ (∀ c ∈ live, c.name ∈ t.columnNames) ∧
    ∀ c ∈ (twins table).columns, c.additive = false → c.name ∈ t.columnNames

theorem columns_exists {live : List LiveColumn} (w : World) (h : Columns twins table live w) : Exists table w := by
  obtain ⟨t, ht, -⟩ := h
  exact ⟨t, ht⟩

theorem columns_stable {live : List LiveColumn} : Stable (Moves twins K) (Columns twins table live) := by
  rintro w w' h ⟨t, ht, hlive, hrequired⟩
  obtain ⟨t', ht', hsub, -⟩ := (h.keeps table).table t ht
  exact ⟨t', ht', fun c hc => hsub (hlive c hc), fun c hc hadd => hsub (hrequired c hc hadd)⟩

/-- A program that a stable predicate goes through. -/
theorem yields_stable {α : Type} {x : Session α} {P : World → Prop} (hx : Within (Moves twins K) x)
    (hP : Stable (Moves twins K) P) : Yields P x fun _ => P := by
  intro w a w' hw hrun
  have hmoves := hx w
  rw [hrun] at hmoves
  exact hP w w' hmoves hw

theorem columned_addMissing : Yields (fun w => Shaped twins w ∧ Exists table w)
    (addMissingColumnsAndIndexes table (twins table)) fun _ => Columned twins table := by
  have hshow : Yields (fun w => Shaped twins w ∧ Exists table w) (showColumns table) (Columns twins table) := by
    refine yields_read ?_
    rintro w ⟨hshaped, t, ht⟩
    refine ⟨t, ht, fun c hc => ?_, fun c hc hadd => ?_⟩
    · rw [ht] at hc
      exact List.mem_map_of_mem hc
    · exact (hshaped table t ht).required c hc hadd
  refine hshow.bind fun live => ?_
  have hidx : Yields (Columns twins table live) (showIndexFor table (twins table))
      fun _ => Columns twins table live :=
    yields_stable (K := fun _ _ => True) within_showIndexFor columns_stable
  dsimp only
  refine hidx.bind fun haveIdx => ?_
  have hallowed := @addMissing_allowed (twins table) (fun _ => True) live haveIdx
  have hlisted {c : DeclaredColumn} (hc : c ∈ (twins table).columns) (hadd : c.additive = true)
      (hlive : c.name ∉ live.map LiveColumn.name) :
      c ∈ ((twins table).columns.filter DeclaredColumn.additive).filter fun c =>
        c.name ∉ live.map LiveColumn.name :=
    List.mem_filter.mpr ⟨List.mem_filter.mpr ⟨hc, hadd⟩, by simpa using hlive⟩
  rw [alter]
  split_ifs with hnone
  · refine yields_pure ?_
    rintro w ⟨t, ht, hlive, hrequired⟩
    refine ⟨t, ht, fun c hc => ?_⟩
    cases hadd : c.additive with
    | false => exact hrequired c hc hadd
    | true =>
      by_cases hname : c.name ∈ live.map LiveColumn.name
      · obtain ⟨column, hcolumn, hname⟩ := List.mem_map.mp hname
        exact hname ▸ hlive column hcolumn
      · have hmem := List.mem_append_left
          (((twins table).indexes.filter fun i => i.name ∉ haveIdx.map Index.name).map Clause.addIndex)
          (List.mem_map_of_mem (f := fun c : DeclaredColumn => Clause.addColumn c.toLiveColumn)
            (hlisted hc hadd hname))
        rw [List.isEmpty_iff.mp hnone] at hmem
        cases hmem
  · refine yields_alter columns_exists ?_
    rintro w t t' ⟨u, hu, hlive, hrequired⟩ ht hrun
    rw [ht] at hu
    cases hu
    obtain ⟨u, hu, hsub, -⟩ := (clauses_keep hallowed hrun).table t rfl
    cases hu
    refine ⟨t', Function.update_self .., fun c hc => ?_⟩
    cases hadd : c.additive with
    | false => exact hsub (hrequired c hc hadd)
    | true =>
      by_cases hname : c.name ∈ live.map LiveColumn.name
      · obtain ⟨column, hcolumn, hname⟩ := List.mem_map.mp hname
        exact hsub (hname ▸ hlive column hcolumn)
      · exact addColumn_mem hallowed hrun
          (List.mem_append_left _ (List.mem_map.mpr ⟨c, hlisted hc hadd hname, rfl⟩))

/-! ### Widened keys -/

/-- The index has every column that a key of its name was widened by. -/
def Wide (twin : Twin) (i : Index) : Prop :=
  ∀ w ∈ twin.widenIndexes, w.index.name = i.name → w.requiredColumn ∈ i.columns

/-- Over a table of the shape, a key that stands under its name or by its columns is carried once no key is
    left to widen. -/
theorem carries_of_widened {twin : Twin} {t t' : LiveTable} (hshape : twin.Shapes t)
    (hkept : ∀ i ∈ t.indexes, Wide twin i → i ∈ t'.indexes)
    (hwidened : ∀ w ∈ twin.widenIndexes, ∀ i ∈ t.indexes, i.name = w.index.name →
      w.requiredColumn ∈ i.columns ∨ w.index ∈ t'.indexes)
    {d : Index} (hd : d ∈ twin.declaredIndexes) (hu : d.unique = true) (h : t.Names d) : t'.Carries d := by
  obtain ⟨i, hi, hname | ⟨hiu, hcols⟩⟩ := h
  · obtain ⟨hiu, hcase⟩ := hshape.keyed d hd hu i hi hname
    by_cases hwide : Wide twin i
    · refine ⟨i, hkept i hi hwide, hiu, ?_⟩
      rcases hcase with hcols | ⟨w, hw, hwname, hnarrow⟩
      · exact hcols
      · exact absurd (hwide w hw (hwname.trans hname.symm)) hnarrow
    · rw [Wide] at hwide
      push Not at hwide
      obtain ⟨w, hw, hwname, hnarrow⟩ := hwide
      obtain ⟨hdeclared, hwu⟩ := twin.widen_declared w hw
      have heq : w.index = d := Twin.declaredIndex_inj hdeclared hd (hwname.trans hname)
      have hadded := (hwidened w hw i hi hwname.symm).resolve_left hnarrow
      exact ⟨d, heq ▸ hadded, hu, rfl⟩
  · have hwide : Wide twin i := fun w hw _ => hcols ▸ twin.widen_required w hw d hd hu
    exact ⟨i, hkept i hi hwide, hiu, hcols⟩

/-- The indexes of `t` that are wide still stand. -/
def Widening (twin : Twin) (table : MirrorTable) (t : LiveTable) (w : World) : Prop :=
  ∃ t', w.schema table = some t' ∧ ∀ i ∈ t.indexes, Wide twin i → i ∈ t'.indexes

theorem widening_exists {twin : Twin} {t : LiveTable} (w : World) (h : Widening twin table t w) : Exists table w := by
  obtain ⟨t', ht', -⟩ := h
  exact ⟨t', ht'⟩

/-- No key of the entry's name is left to widen. -/
def Widened (table : MirrorTable) (t : LiveTable) (e : WidenIndex) (w : World) : Prop :=
  ∃ t', w.schema table = some t' ∧
    ∀ i ∈ t.indexes, i.name = e.index.name → e.requiredColumn ∈ i.columns ∨ e.index ∈ t'.indexes

theorem widened_stable {t : LiveTable} {e e' : WidenIndex} (hne : e.index.name ≠ e'.index.name) :
    Stable (Moves twins fun b i => b = table → i.name ≠ e'.index.name) (Widened table t e) := by
  rintro w w' h ⟨t', ht', hkey⟩
  obtain ⟨t'', ht'', -, hidx⟩ := (h.keeps table).table t' ht'
  refine ⟨t'', ht'', fun i hi hname => ?_⟩
  exact (hkey i hi hname).imp_right fun hadded => hidx _ hadded fun _ => hne

theorem widens_widenUniqueIndex {t : LiveTable} {e : WidenIndex} (he : e ∈ (twins table).widenIndexes) :
    Yields (Widening (twins table) table t)
      (widenUniqueIndex table (t.indexes.insertionSort fun i j => i.name ≤ j.name) e)
      fun _ w => Widening (twins table) table t w ∧ Widened table t e w := by
  have hcols {i : Index} (hi : i ∈ t.indexes) (hname : i.name = e.index.name) :
      i.columns ⊆ ((t.indexes.insertionSort fun i j => i.name ≤ j.name).filter
        (·.name = e.index.name)).flatMap Index.columns := fun c hc =>
    List.mem_flatMap.mpr ⟨i, List.mem_filter.mpr ⟨mem_showIndex.mpr hi, by simpa using hname⟩, hc⟩
  simp only [widenUniqueIndex]
  split_ifs with hnone hwide
  · refine yields_pure fun w hw => ⟨hw, ?_⟩
    obtain ⟨t', ht', -⟩ := hw
    refine ⟨t', ht', fun i hi hname => absurd ?_ i.columns_ne_nil⟩
    have hsub := hcols hi hname
    rw [List.isEmpty_iff.mp hnone] at hsub
    exact List.eq_nil_of_subset_nil hsub
  · refine yields_pure fun w hw => ⟨hw, ?_⟩
    obtain ⟨t', ht', -⟩ := hw
    refine ⟨t', ht', fun i hi hname => .inl ?_⟩
    obtain ⟨j, hj, hcolumn⟩ := List.mem_flatMap.mp hwide
    obtain ⟨hjt, hjname⟩ := List.mem_filter.mp hj
    have hij : i = j := List.inj_on_of_nodup_map t.names_nodup hi (mem_showIndex.mp hjt)
      (hname.trans (by simpa using hjname : j.name = e.index.name).symm)
    exact hij ▸ hcolumn
  · have hkept {i : Index} (hi : i ∈ t.indexes) (hiwide : Wide (twins table) i) : i.name ≠ e.index.name :=
      fun hname => hwide (hcols hi hname (hiwide e he hname.symm))
    have hdrop : Yields (Widening (twins table) table t) (doQuery (.alter table [.dropIndex e.index.name]))
        fun _ => Widening (twins table) table t := by
      refine yields_alter widening_exists ?_
      rintro w t' t'' ⟨u, hu, hidx⟩ ht' hrun
      rw [ht'] at hu
      cases hu
      obtain ⟨v, hv, hlast⟩ := Option.bind_eq_some_iff.mp hrun
      cases hlast
      have hdrops : (Clause.dropIndex e.index.name).Allowed (twins table) fun i => i.name ≠ e.index.name :=
        fun i hi => hi
      obtain ⟨x, hx, -, hstay⟩ := (Clause.run_keeps hdrops hv).table t' rfl
      cases hx
      exact ⟨t'', Function.update_self .., fun i hi hiwide => hstay i (hidx i hi hiwide) (hkept hi hiwide)⟩
    have hadd : Yields (Widening (twins table) table t) (doQuery (.alter table [.addIndex e.index]))
        fun _ w => Widening (twins table) table t w ∧ Widened table t e w := by
      refine yields_alter widening_exists ?_
      rintro w t' t'' ⟨u, hu, hidx⟩ ht' hrun
      rw [ht'] at hu
      cases hu
      obtain ⟨v, hv, hlast⟩ := Option.bind_eq_some_iff.mp hrun
      cases hlast
      have hadds : (Clause.addIndex e.index).Allowed (twins table) fun _ => True :=
        ((twins table).widen_declared e he).1
      obtain ⟨x, hx, -, hstay⟩ := (Clause.run_keeps hadds hv).table t' rfl
      cases hx
      exact ⟨⟨t'', Function.update_self .., fun i hi hiwide => hstay i (hidx i hi hiwide) trivial⟩,
        t'', Function.update_self .., fun _ _ _ => .inr (addIndex_mem hv)⟩
    exact hdrop.bind fun _ => hadd

/-- A key that is neither named nor replaced is in the log. -/
def Logged (twin : Twin) (table : MirrorTable) (t : LiveTable) (w : World) : Prop :=
  ∀ d ∈ twin.declaredIndexes, d.unique = true → t.Names d ∨ (table, d) ∈ w.warned

theorem logged_stable {twin : Twin} {t : LiveTable} : Stable (Moves twins K) (Logged twin table t) :=
  fun _ _ h hw d hd hu => (hw d hd hu).imp_right fun hwarned => h.warned hwarned

theorem carries_widenUniqueIndexes :
    Yields (fun w => Shaped twins w ∧ Ensured twins LiveTable.Names table w)
      (widenUniqueIndexes table (twins table)) fun _ => Ensured twins LiveTable.Carries table := by
  rw [widenUniqueIndexes]
  split_ifs with hnone
  · have hnil : (twins table).widenIndexes = [] := List.isEmpty_iff.mp hnone
    refine yields_pure ?_
    rintro w ⟨hshaped, t, ht, hkeys⟩
    refine ⟨t, ht, fun d hd hu => ?_⟩
    refine (hkeys d hd hu).imp_left fun hnames =>
      carries_of_widened (hshaped table t ht) (fun i hi _ => hi) (fun e he => ?_) hd hu hnames
    rw [hnil] at he
    cases he
  · have hshow : Yields (fun w => Shaped twins w ∧ Ensured twins LiveTable.Names table w) (showIndex table)
        fun live w => ∃ t : LiveTable, (live = t.indexes.insertionSort (fun i j => i.name ≤ j.name) ∧
          (twins table).Shapes t) ∧ Widening (twins table) table t w ∧ Logged (twins table) table t w := by
      refine yields_read ?_
      rintro w ⟨hshaped, t, ht, hkeys⟩
      refine ⟨t, ⟨?_, hshaped table t ht⟩, ⟨t, ht, fun i hi _ => hi⟩, hkeys⟩
      rw [ht]
      rfl
    refine hshow.bind fun live => yields_exists fun t => yields_and ?_
    rintro ⟨rfl, hshape⟩
    have hwithin : ∀ e ∈ (twins table).widenIndexes,
        Within (Moves twins fun b i => b = table → i.name ≠ e.index.name)
          (widenUniqueIndex table (t.indexes.insertionSort fun i j => i.name ≤ j.name) e) :=
      fun e he => within_widenUniqueIndex he _
    have hdistinct : (twins table).widenIndexes.Pairwise fun e e' =>
        Stable (Moves twins fun b i => b = table → i.name ≠ e'.index.name) (Widened table t e) :=
      (List.pairwise_map.mp (twins table).widen_distinct).imp fun hne => widened_stable hne
    have hloop := yields_each hdistinct hwithin fun e he => widens_widenUniqueIndex he
    have hlog : Within (Moves twins fun b _ => b ≠ table) (each (twins table).widenIndexes
        (widenUniqueIndex table (t.indexes.insertionSort fun i j => i.name ≤ j.name))) :=
      within_each fun e he => (hwithin e he).mono fun _ _ h => h.mono fun b i hb hbt => absurd hbt hb
    refine (hloop.and_stable hlog logged_stable).mono (fun _ hw => hw) fun _ w hw => ?_
    obtain ⟨⟨⟨t', ht', hkept⟩, hwidened⟩, hlogged⟩ := hw
    refine ⟨t', ht', fun d hd hu => (hlogged d hd hu).imp_left fun hnames =>
      carries_of_widened hshape hkept (fun e he i hi hname => ?_) hd hu hnames⟩
    obtain ⟨u, hu', hkey⟩ := hwidened e he
    rw [ht'] at hu'
    cases hu'
    exact hkey i hi hname

/-! ### The start -/

/-- What the client relies on, of one table. -/
def Ready (twins : MirrorTable → Twin) (table : MirrorTable) (w : World) : Prop :=
  Columned twins table w ∧ Ensured twins LiveTable.Carries table w

theorem ready_stable (hK : ∀ i, K table i) : Stable (Moves twins K) (Ready twins table) :=
  fun _ _ h hw => ⟨columned_stable _ _ h hw.1, carries_stable hK _ _ h hw.2⟩

/-- Every table has its shape and names its keys. -/
def Named (twins : MirrorTable → Twin) (w : World) : Prop :=
  Shaped twins w ∧ ∀ table, Ensured twins LiveTable.Names table w

theorem named_stable : Stable (Moves twins fun _ _ => True) (Named twins) :=
  fun _ _ h hw => ⟨shaped_stable _ _ h hw.1, fun _ => names_stable (fun _ => trivial) _ _ h (hw.2 _)⟩

theorem Ensured.exists {S : LiveTable → Index → Prop} {w : World} (h : Ensured twins S table w) :
    Exists table w := ⟨h.choose, h.choose_spec.1⟩

theorem Ensured.names {w : World} (h : Ensured twins LiveTable.Carries table w) :
    Ensured twins LiveTable.Names table w := by
  obtain ⟨t, ht, hkeys⟩ := h
  refine ⟨t, ht, fun d hd hu => (hkeys d hd hu).imp_left ?_⟩
  rintro ⟨i, hi, hkey⟩
  exact ⟨i, hi, .inr hkey⟩

theorem readies_migrateTable : Yields (Named twins) (migrateTable table (twins table))
    fun _ w => Named twins w ∧ Ready twins table w := by
  have hready : Yields (Named twins) (migrateTable table (twins table)) fun _ => Ready twins table := by
    have hshow : Yields (Named twins) (showTables table) fun existing w =>
        existing = true ∧ Named twins w := by
      refine yields_read fun w hw => ⟨?_, hw⟩
      exact Option.isSome_iff_exists.mpr (hw.2 table).exists
    refine hshow.bind fun existing => yields_and fun hexisting => ?_
    rw [hexisting]
    have hcolumns : Yields (Named twins) (addMissingColumnsAndIndexes table (twins table))
        fun _ w => Named twins w ∧ Columned twins table w :=
      (columned_addMissing.and_stable (within_addMissing table) named_stable).mono
        (fun _ hw => ⟨⟨hw.1, (hw.2 table).exists⟩, hw⟩) fun _ _ hw => ⟨hw.2, hw.1⟩
    have hboth : Stable (Moves twins fun _ _ => True) fun w => Named twins w ∧ Columned twins table w :=
      fun w w' h hw => ⟨named_stable w w' h hw.1, columned_stable w w' h hw.2⟩
    have hwiden : Yields (fun w => Named twins w ∧ Columned twins table w)
        (widenUniqueIndexes table (twins table)) fun _ => Ready twins table :=
      (carries_widenUniqueIndexes.and_stable (within_widenUniqueIndexes table) columned_stable).mono
        (fun _ hw => ⟨⟨hw.1.1, hw.1.2 table⟩, hw.2⟩) fun _ _ hw => ⟨hw.2, hw.1⟩
    exact hcolumns.bind fun _ => (yields_stable (within_widenColumnCharsets table) hboth).bind fun _ =>
      (yields_stable (within_widenColumnLengths table) hboth).bind fun _ => hwiden.bind fun _ =>
        yields_stable (K := fun _ _ => True) (within_retypeColumnTypes table) (ready_stable fun _ => trivial)
  -- the other tables are named as before, and this one is by its carried keys
  have hothers : Stable (Moves twins fun b _ => b ≠ table) fun w =>
      Shaped twins w ∧ ∀ b, b ≠ table → Ensured twins LiveTable.Names b w :=
    fun w w' h hw => ⟨shaped_stable w w' h hw.1, fun b hb => names_stable (fun _ => hb) w w' h (hw.2 b hb)⟩
  refine (hready.and_stable (within_migrateTable table) hothers).mono
    (fun _ hw => ⟨hw, hw.1, fun b _ => hw.2 b⟩) fun _ w hw => ?_
  refine ⟨⟨hw.2.1, fun b => ?_⟩, hw.1⟩
  by_cases hb : b = table
  · exact hb ▸ hw.1.2.names
  · exact hw.2.2 b hb

theorem readies_startMirrorInstance : Yields (Shaped twins) (startMirrorInstance twins)
    fun _ w => ∀ table, Ready twins table w := by
  have hcreate : Yields (Shaped twins) (query .createDatabase fun s => some ((), s)) fun _ => Shaped twins :=
    yields_stable within_createDatabase (shaped_stable (K := fun _ _ => True))
  have htables : Yields (Shaped twins) (ensureTables twins) fun _ => Named twins :=
    (ensures_ensureTables.and_stable within_ensureTables (shaped_stable (K := fun _ _ => True))).mono
      (fun _ hw => ⟨trivial, hw⟩) fun _ _ hw => ⟨hw.2, hw.1⟩
  have hkept : SQL_FILES.Pairwise fun b c => Stable (Moves twins fun b' _ => b' ≠ c) (Ready twins b) := by
    have hnodup : SQL_FILES.Nodup := by decide
    exact hnodup.imp fun hne => ready_stable fun _ => hne
  have hmigrate : Yields (Named twins) (ensureMirrorColumns twins)
      fun _ w => Named twins w ∧ ∀ table ∈ SQL_FILES, Ready twins table w :=
    yields_each hkept (fun table _ => within_migrateTable table) fun table _ => readies_migrateTable
  refine hcreate.bind fun _ => htables.bind fun _ => hmigrate.mono (fun _ hw => hw) fun _ w hw table => ?_
  exact hw.2 table (mem_SQL_FILES table)

/-- A start that goes on to construct the client, over any schema a mirror can be adopted with and behind any
    number of starts that failed or died anywhere, does so over every table of the mirror: with all declared
    columns, and with every declared unique key but one whose statement failed in this start, which the log
    names. -/
theorem client_starts_keyed (twins : MirrorTable → Twin) (s : Schema)
    (hs : ∀ table, (twins table).Admits (s table)) (earlier : List (ℕ → Query → Fate)) (fate : ℕ → Query → Fate)
    (hstart : constructs twins (restarts twins s earlier) fate = true) (table : MirrorTable) :
    ∃ t, (start twins (restarts twins s earlier) fate).2.schema table = some t ∧
      (∀ c ∈ (twins table).columns, c.name ∈ t.columnNames) ∧
      ∀ d ∈ (twins table).declaredIndexes, d.unique = true →
        t.Carries d ∨ (table, d) ∈ (start twins (restarts twins s earlier) fate).2.warned := by
  have hadmits := restarts_admits hs earlier
  cases hrun : (start twins (restarts twins s earlier) fate).1 with
  | error e =>
    rw [constructs, hrun] at hstart
    cases hstart
  | ok a =>
    have hshaped : Shaped twins { schema := restarts twins s earlier, fate } := hadmits
    obtain ⟨⟨t, ht, hcols⟩, u, hu, hkeys⟩ := readies_startMirrorInstance _ a _ hshaped
      (Prod.ext hrun rfl) table
    have htu : t = u := Option.some.inj (ht.symm.trans hu)
    exact ⟨t, ht, hcols, htu ▸ hkeys⟩

/-- No table stands yet. -/
def emptySchema : Schema := fun _ => none

theorem emptySchema_admits (table : MirrorTable) : (TWINS table).Admits (emptySchema table) := by
  rintro t ⟨⟩

set_option maxRecDepth 100000 in
theorem client_starts_keyed_fresh :
    ∃ t, (start TWINS (restarts TWINS emptySchema []) fun _ _ => .answered).2.schema .price_snapshots = some t ∧
      (∀ c ∈ (TWINS .price_snapshots).columns, c.name ∈ t.columnNames) ∧
      ∀ d ∈ (TWINS .price_snapshots).declaredIndexes, d.unique = true → t.Carries d ∨
        (.price_snapshots, d) ∈ (start TWINS (restarts TWINS emptySchema []) fun _ _ => .answered).2.warned :=
  client_starts_keyed TWINS emptySchema emptySchema_admits [] _ (by decide +kernel) .price_snapshots

/-! ### A start over a table without its key -/

instance (t : LiveTable) (d : Index) : Decidable (t.Carries d) :=
  inferInstanceAs (Decidable (∃ i ∈ t.indexes, i.unique = true ∧ i.columns = d.columns))

theorem call_phase_columns : ["call_id", "phase"] ≠ [] := List.cons_ne_nil _ _

/-- The unique key of the calls. -/
def call_phase : Index := uniqueKey "call_phase" ["call_id", "phase"] call_phase_columns

/-- The statements that add the unique key of `cross_chain_calls` fail. -/
def noCallPhase : ℕ → Query → Fate
  | _, .ddl (.createIndex .cross_chain_calls i) | _, .ddl (.alter .cross_chain_calls [.addIndex i]) =>
    if i.unique then .fails else .answered
  | _, _ => .answered

set_option maxRecDepth 100000 in
/-- The first attempt fails behind the `CREATE TABLE`, the second one finds the table and goes on without the
    key, and the client starts. -/
theorem fresh_start_unkeyed : (∀ table, (TWINS table).Admits (emptySchema table)) ∧
    constructs TWINS emptySchema noCallPhase = true ∧
    call_phase ∈ (TWINS .cross_chain_calls).declaredIndexes ∧ call_phase.unique = true ∧
    ∀ t, (start TWINS emptySchema noCallPhase).2.schema .cross_chain_calls = some t →
      ¬ t.Carries call_phase := by
  refine ⟨emptySchema_admits, by decide +kernel, by decide +kernel, rfl, ?_⟩
  have hmissing : ∀ t ∈ (start TWINS emptySchema noCallPhase).2.schema .cross_chain_calls,
      ¬ t.Carries call_phase := by
    decide +kernel
  exact fun t ht => hmissing t ht

end HubMirror
