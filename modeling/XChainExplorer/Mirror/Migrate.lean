import XChainExplorer.Mirror.SqlTwins
import XChainExplorer.Lib.Program
import Mathlib.Data.List.Sort

/-! # Bringing up a mirror schema

    What a process does before it constructs the mirror's client: it creates or reconciles every table from
    its twin file, then runs the migrations, and any query on the way may fail or be the last the process
    sends. -/

namespace HubMirror

open HubDbSync (MirrorTable)
open Program (raise modify rescue each)

/-- What a session asks the database for. -/
inductive Query where
  | createDatabase
  | read
  | ddl (statement : Ddl)

/-- What becomes of a query: it reaches the server and is answered, it fails and changes nothing, or the
    process dies before it is sent. -/
inductive Fate where
  | answered
  | fails
  | dies

/-- Why a program stops: it throws, or its process is gone. -/
inductive Stop where
  | thrown
  | died
  deriving DecidableEq

/-- The mirror schema and the server behind it, as one start of the process meets them. -/
structure World where
  schema : Schema
  fate : ℕ → Query → Fate
  /-- Queries so far. -/
  clock : ℕ := 0
  /-- Indexes the log says the process goes on without. -/
  warned : List (MirrorTable × Index) := []

/-- A session with the database. It may stop. -/
abbrev Session := Program World Stop

/-! ### Queries -/

/-- One query: it is answered, it fails or the process ends. -/
def query {α : Type} (q : Query) (run : Schema → Option (α × Schema)) : Session α := fun w =>
  let w' := { w with clock := w.clock + 1 }
  match w.fate w.clock q with
  | .dies => (.error .died, w')
  | .fails => (.error .thrown, w')
  | .answered => match run w.schema with
    | some (a, schema) => (.ok a, { w' with schema })
    | none => (.error .thrown, w')

/-- A statement that changes the schema. -/
def doQuery (statement : Ddl) : Session Unit :=
  query (.ddl statement) fun s => (statement.run s).map fun s => ((), s)

/-- A query that reads it. -/
def read {α : Type} (f : Schema → α) : Session α := query .read fun s => some (f s, s)

/-- `try … catch`: a process that died catches nothing. -/
def tryCatch {α : Type} (x h : Session α) : Session α := rescue (· == .thrown) x h

/-- `SHOW TABLES LIKE`. -/
def showTables (table : MirrorTable) : Session Bool := read fun s => (s table).isSome

/-- `SHOW FULL COLUMNS`, and the column list of `information_schema`. -/
def showColumns (table : MirrorTable) : Session (List LiveColumn) :=
  read fun s => (s table).elim [] LiveTable.columns

/-- `information_schema.statistics`, ordered by the index name, and `SHOW INDEX`. -/
def showIndex (table : MirrorTable) : Session (List Index) :=
  read fun s => (s table).elim [] fun t => t.indexes.insertionSort fun i j => i.name ≤ j.name

/-! ### ensureTables -/

/-- One declared column; whether the table has it now. -/
def addDeclaredColumn (table : MirrorTable) (live : List String) (c : DeclaredColumn) : Session Bool :=
  if c.name ∈ live then pure true
  else if !c.additive then pure false
  else tryCatch (do doQuery (.alter table [.addColumn c.toLiveColumn]); pure true) (pure false)

/-- The declared columns that are missing. -/
def addDeclaredColumns (table : MirrorTable) : List DeclaredColumn → List String → Session Unit
  | [], _ => pure ()
  | c :: declared, live => do
    let added ← addDeclaredColumn table live c
    addDeclaredColumns table declared (if added then c.name :: live else live)

/-- Adds the declared columns the table lacks; a failure is logged and skipped. -/
def reconcileDeclaredColumns (table : MirrorTable) (twin : Twin) : Session Unit :=
  if twin.columns.isEmpty then pure ()
  else do
    let live ← showColumns table
    addDeclaredColumns table twin.columns (live.map LiveColumn.name)

/-- A live index of the same ordered columns serves for the declared one, unless that is the unique one of
    the two. Of several such the map keeps the last. -/
def servedByColumns (live : List Index) (idx : Index) : Bool :=
  (live.reverse.find? (·.columns = idx.columns)).elim false fun i => !idx.unique || i.unique

/-- A declared index that is missing. A failure is warned of. -/
def addDeclaredIndex (table : MirrorTable) (live : List Index) (idx : Index) : Session Unit :=
  if idx.name ∈ live.map Index.name then pure ()
  else if servedByColumns live idx then pure ()
  else tryCatch (doQuery (.alter table [.addIndex idx]))
    (modify fun w => { w with warned := w.warned ++ [(table, idx)] })

/-- Adds the declared indexes the table lacks; a failure is logged and skipped. -/
def reconcileDeclaredIndexes (table : MirrorTable) (twin : Twin) : Session Unit :=
  if twin.declaredIndexes.isEmpty then pure ()
  else do
    let live ← showIndex table
    each twin.declaredIndexes (addDeclaredIndex table live)

/-- The statements of a twin file. -/
def Twin.statements (twin : Twin) (table : MirrorTable) : List Ddl :=
  .createTable table (twin.columns.map DeclaredColumn.toLiveColumn) (primaryKey :: twin.keys) ::
    twin.createIndex.map (.createIndex table)

/-- A table is created, or its columns and indexes are reconciled. -/
def ensureTable (table : MirrorTable) (twin : Twin) : Session Unit := do
  let existing ← showTables table
  if existing then do
    reconcileDeclaredColumns table twin
    reconcileDeclaredIndexes table twin
  else each (twin.statements table) doQuery

/-- The attempts on a table. -/
def MAX_ATTEMPTS : ℕ := 5

/-- A file is tried again until no attempts are left. -/
def attempts (x : Session Unit) : ℕ → Session Unit
  | 0 => raise .thrown
  | n + 1 => tryCatch x (attempts x n)

variable (twins : MirrorTable → Twin)

/-- All the tables. -/
def ensureTables : Session Unit :=
  each SQL_FILES fun table => attempts (ensureTable table (twins table)) MAX_ATTEMPTS

/-! ### ensureMirrorColumns -/

/-- One `ALTER TABLE` for a list of clauses, none for an empty one. -/
def alter (table : MirrorTable) (clauses : List Clause) : Session Unit :=
  if clauses.isEmpty then pure () else doQuery (.alter table clauses)

/-- `SHOW INDEX`, for a table whose entry names indexes. -/
def showIndexFor (table : MirrorTable) (twin : Twin) : Session (List Index) :=
  if twin.indexes.isEmpty then pure [] else showIndex table

/-- What is missing of a table, in one statement. -/
def addMissingColumnsAndIndexes (table : MirrorTable) (twin : Twin) : Session Unit := do
  let live ← showColumns table
  let columns := (twin.columns.filter DeclaredColumn.additive).filter fun c =>
    c.name ∉ live.map LiveColumn.name
  let haveIdx ← showIndexFor table twin
  let indexes := twin.indexes.filter fun i => i.name ∉ haveIdx.map Index.name
  alter table (columns.map (fun c => .addColumn c.toLiveColumn) ++ indexes.map .addIndex)

/-- The clauses that change the type of columns the table has. -/
def modifyColumns {α : Type} (live : List LiveColumn) (name : α → String)
    (changed : α → LiveColumn → Option LiveColumn) (entries : List α) : List Clause :=
  entries.filterMap fun e => ((live.find? (·.name = name e)).bind (changed e)).map .modifyColumn

/-- The columns whose charset is too narrow. -/
def widenColumnCharsets (table : MirrorTable) (twin : Twin) : Session Unit :=
  if twin.widenColumns.isEmpty then pure ()
  else do
    let live ← showColumns table
    alter table (modifyColumns live WidenColumn.name (fun w c =>
      if (w.charset ++ "_").toList.isPrefixOf c.collation.toList then none
      else some { c with type := w.type, collation := w.charset ++ "_general_ci" }) twin.widenColumns)

/-- The length of a `char` or a `varchar`. -/
def charLength (type : String) : Option ℕ :=
  let digits := fun (head : String) =>
    if head.toList.isPrefixOf type.toList then
      let rest := type.toList.drop head.length
      let ds := rest.takeWhile Char.isDigit
      if ds ≠ [] ∧ (rest.drop ds.length).head? = some ')' then some (Nat.ofDigitChars 10 ds 0) else none
    else none
  (digits "varchar(").or (digits "char(")

/-- A failure is logged. -/
def widenColumnLengths (table : MirrorTable) (twin : Twin) : Session Unit :=
  if twin.widenLengths.isEmpty then pure ()
  else do
    let live ← showColumns table
    tryCatch (alter table (modifyColumns live WidenLength.name (fun w c =>
      (charLength c.type).bind fun n =>
        if w.length ≤ n then none else some { c with type := "varchar(" ++ w.length.repr ++ ")" })
      twin.widenLengths)) (pure ())

/-- Drops a key that lacks the column it was widened by, and adds it anew. A key that is absent is left to
    `ensureTables`. -/
def widenUniqueIndex (table : MirrorTable) (idxRows : List Index) (w : WidenIndex) : Session Unit :=
  let cols := (idxRows.filter (·.name = w.index.name)).flatMap Index.columns
  if cols.isEmpty then pure ()
  else if w.requiredColumn ∈ cols then pure ()
  else do
    doQuery (.alter table [.dropIndex w.index.name])
    doQuery (.alter table [.addIndex w.index])

/-- The unique indexes that lack a column. -/
def widenUniqueIndexes (table : MirrorTable) (twin : Twin) : Session Unit :=
  if twin.widenIndexes.isEmpty then pure ()
  else do
    let idxRows ← showIndex table
    each twin.widenIndexes (widenUniqueIndex table idxRows)

/-- A failure is logged. -/
def retypeColumnTypes (table : MirrorTable) (twin : Twin) : Session Unit :=
  if twin.retypeColumns.isEmpty then pure ()
  else do
    let live ← showColumns table
    tryCatch (alter table (modifyColumns live RetypeColumn.name (fun r c =>
      if r.fromType.toList.isPrefixOf c.type.toList then some { c with type := r.type } else none)
      twin.retypeColumns)) (pure ())

/-- A table that is there is brought up to date. -/
def migrateTable (table : MirrorTable) (twin : Twin) : Session Unit := do
  let existing ← showTables table
  if !existing then pure ()
  else do
    addMissingColumnsAndIndexes table twin
    widenColumnCharsets table twin
    widenColumnLengths table twin
    widenUniqueIndexes table twin
    retypeColumnTypes table twin

/-- All the tables that are there. -/
def ensureMirrorColumns : Session Unit := each SQL_FILES fun table => migrateTable table (twins table)

/-! ### The process -/

/-- What comes before the client. -/
def startMirrorInstance : Session Unit := do
  query .createDatabase fun s => some ((), s)
  ensureTables twins
  ensureMirrorColumns twins

/-- One start of the process over the schema it finds. -/
def start (s : Schema) (fate : ℕ → Query → Fate) : Except Stop Unit × World :=
  startMirrorInstance twins { schema := s, fate }

/-- The start goes on to construct the client. -/
def constructs (s : Schema) (fate : ℕ → Query → Fate) : Bool := (start twins s fate).1.isOk

/-- The schema that a number of starts leave behind. -/
def restarts (s : Schema) (fates : List (ℕ → Query → Fate)) : Schema :=
  fates.foldl (fun s fate => (start twins s fate).2.schema) s

end HubMirror
