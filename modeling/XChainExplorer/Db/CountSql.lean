import XChainExplorer.Lib.Scanning

/-! # The text of a count

    The `COUNT` of a list is taken apart into its expression, its table, its joins and its `WHERE`, and put
    together again without the joins that are there for display. Texts that are not read stay as they are. -/

namespace CountJoins

open Scanning

/-! ### Characters and words -/

/-- `\s`. -/
def SPACES : List Char :=
  ['\t', '\n', '\x0b', '\x0c', '\r', ' ', '\u00a0', '\u1680', '\u2000', '\u2001', '\u2002', '\u2003', '\u2004',
    '\u2005', '\u2006', '\u2007', '\u2008', '\u2009', '\u200a', '\u2028', '\u2029', '\u202f', '\u205f', '\u3000',
    '\ufeff']

/-- One of them. -/
def isSpace (c : Char) : Bool := c ∈ SPACES

/-- `\w`. -/
def isWord (c : Char) : Bool := c.isAlphanum || c = '_'

/-- `[\w.$]`. -/
def isTable (c : Char) : Bool := isWord c || c = '.' || c = '$'

/-- `[\w.]`. -/
def isColumn (c : Char) : Bool := isWord c || c = '.'

/-- One character for another, whatever their case. -/
def sameLetter (k c : Char) : Bool := k.toLower = c.toLower

/-- A word of the grammar, its letters in either case. -/
def word (w : String) : Piece Char := .word (w.toList.map sameLetter)

/-- `\b` in front of the rest, after the character `prev`. -/
def boundary (prev : Option Char) (rest : List Char) : Bool := prev.any isWord != rest.head?.any isWord

/-- `/\bW\b/i.test(text)`. -/
def hasWord (w : String) : Option Char → List Char → Bool
  | _, [] => false
  | prev, c :: s =>
    (boundary prev (c :: s) && ((word w).scan (c :: s)).any fun x => boundary x.1.getLast? x.2) ||
      hasWord w (some c) s

/-! ### A count taken apart -/

/-- The two kinds of join that are read. -/
inductive Kind where
  | INNER
  | LEFT
  deriving DecidableEq

/-- A join of the statement, taken apart. -/
structure Join where
  kind : Kind
  table : List Char
  alias' : List Char
  on : List Char
  text : List Char
  deriving DecidableEq

/-- A count statement, taken apart. -/
structure CountSql where
  select : List Char
  table : List Char
  alias' : List Char
  joins : List Join
  where' : List Char
  deriving DecidableEq

/-- `closingParen` behind the parenthesis that is open: what is inside, and what follows. `depth` more are open, and
    `quote` is the quote the text is in. -/
def closingParen : ℕ → Option Char → List Char → Option (List Char × List Char)
  | _, _, [] => none
  | depth, some quote, c :: s =>
    (closingParen depth (if c = quote then none else some quote) s).map fun x => (c :: x.1, x.2)
  | depth, none, c :: s =>
    if c = '\x27' || c = '\x22' then (closingParen depth (some c) s).map fun x => (c :: x.1, x.2)
    else if c = '(' then (closingParen (depth + 1) none s).map fun x => (c :: x.1, x.2)
    else if c = ')' then
      if depth = 0 then some ([], s) else (closingParen (depth - 1) none s).map fun x => (c :: x.1, x.2)
    else (closingParen depth none s).map fun x => (c :: x.1, x.2)

/-- `count\((?:\*|DISTINCT\s+[\w.]+)\)`. -/
def COUNT_ALL : List (Piece Char) := [word "count(*)"]

/-- The pieces of `count(DISTINCT …)`. -/
def COUNT_DISTINCT : List (Piece Char) := [word "count(", word "DISTINCT", .run isSpace, .run isColumn, word ")"]

/-- What is counted. -/
def countExpression (s : List Char) : Option (List (List Char) × List Char) :=
  (scan COUNT_ALL s).or (scan COUNT_DISTINCT s)

/-- The two sides of the expression in `HEAD_RE`. -/
def HEAD_FRONT : List (Piece Char) := [.runs isSpace, word "SELECT", .run isSpace]

/-- The pieces from the count to the first join. -/
def HEAD_BACK : List (Piece Char) :=
  [.run isSpace, word "as", .run isSpace, word "total", .run isSpace, word "FROM", .run isSpace, .run isTable,
    .run isSpace, .run isWord, .run isSpace]

/-- `JOIN_RE` behind the kind of the join. -/
def JOIN_BACK : List (Piece Char) :=
  [.run isSpace, word "JOIN", .run isSpace, .run isTable, .run isSpace, .run isWord, .run isSpace, word "ON",
    .runs isSpace, word "("]

/-- The first word of a join. -/
def joinKind (s : List Char) : Option (Kind × List Char × List Char) :=
  (((word "INNER").scan s).map fun x => (.INNER, x.1, x.2)).or (((word "LEFT").scan s).map fun x => (.LEFT, x.1, x.2))

/-- The head of a join: its kind, the pieces behind it, what it took, and what is behind the parenthesis. -/
def joinHead (s : List Char) : Option (Kind × List (List Char) × List Char × List Char) :=
  (joinKind s).bind fun k => (scan JOIN_BACK k.2.2).map fun x => (k.1, x.1, k.2.1 ++ x.1.flatten, x.2)

/-- The join in front of a text, if there is one, and what follows it; none of it where its parenthesis is never
    closed. -/
def nextJoin (s : List Char) : Option (Option (Join × List Char)) :=
  (joinHead s).map fun (kind, pieces, head, inside) =>
    (closingParen 0 none inside).map fun (on, rest) =>
      ({ kind, table := pieces.getD 3 [], alias' := pieces.getD 5 [], on, text := head ++ on ++ [')'] }, rest)

/-- The joins in front of a text, and the text behind them. -/
def parseJoins : ℕ → List Char → Option (List Join × List Char)
  | 0, s => some ([], s)
  | fuel + 1, s =>
    match nextJoin s with
    | none => some ([], s)
    | some none => none
    | some (some (j, rest)) => (parseJoins fuel (rest.dropWhile isSpace)).map fun x => (j :: x.1, x.2)

/-- `/^WHERE\s/i`. -/
def startsWhere (s : List Char) : Bool := ((word "WHERE").scan s).any fun x => x.2.head?.any isSpace

/-- The statement taken apart, if it has the one shape that is read. -/
def parseCountSql (sql : List Char) : Option CountSql := do
  let (_, s) ← scan HEAD_FRONT sql
  let (select, s) ← countExpression s
  let (head, s) ← scan HEAD_BACK s
  let (joins, where') ← parseJoins s.length s
  if startsWhere where' then
    some { select := select.flatten, table := head.getD 7 [], alias' := head.getD 9 [], joins, where' }
  else none

/-! ### What a text names -/

/-- `namesAlias`, behind the character `prev`. -/
def namesAliasFrom (alias' : List Char) : Option Char → List Char → Bool
  | _, [] => false
  | prev, c :: s =>
    (!prev.any isColumn && ((Piece.word ((alias' ++ ['.']).map sameLetter)).scan (c :: s)).isSome) ||
      namesAliasFrom alias' (some c) s

/-- The text names a column of the alias. -/
def namesAlias (text alias' : List Char) : Bool := namesAliasFrom alias' none text

/-- The bare words that are no column. -/
def SQL_WORDS : List String := ["AND", "OR", "NOT", "NULL", "TRUE", "FALSE", "IS", "IN", "LIKE", "BINARY"]

/-- One of them, in either case. -/
def isSqlWord (w : List Char) : Bool :=
  SQL_WORDS.any fun k => (k.toList.length = w.length) && ((word k).scan w).isSome

/-- The comparisons of `BARE_COLUMN_RE` behind a column: what follows them. -/
def comparison (s : List Char) : Option (List Char) :=
  match s.dropWhile isSpace with
  | '=' :: t => some t
  | '<' :: '>' :: t | '!' :: '=' :: t | '<' :: '=' :: t | '>' :: '=' :: t => some t
  | '<' :: t | '>' :: t => some t
  | t =>
    if s.head?.any isSpace then
      let t := ((scan [word "NOT", .run isSpace] t).map (·.2)).getD t
      (["IS", "IN", "LIKE", "BETWEEN", "REGEXP"].findSome? fun k =>
        ((word k).scan t).bind fun x => if boundary x.1.getLast? x.2 then some x.2 else none)
    else none

/-- A column at the front of a text that is compared: its word, and what follows the comparison. -/
def bareColumn (s : List Char) : Option (List Char × List Char) :=
  if s.head?.any fun c => c.isAlpha || c = '_' then
    (comparison (s.dropWhile isWord)).map fun t => (s.takeWhile isWord, t)
  else none

/-- What may not be in front of the column. -/
def isQualifier (c : Char) : Bool := isColumn c || c ∈ ['\x27', '\x22', '\x60']

/-- `hasBareColumn` from a place of the text on; `start` is its beginning. -/
def hasBareColumnFrom : ℕ → Bool → List Char → Bool
  | 0, _, _ => false
  | _ + 1, _, [] => false
  | fuel + 1, start, c :: s =>
    match (if start then bareColumn (c :: s) else none).or (if isQualifier c then none else bareColumn s) with
    | some (w, t) => !isSqlWord w || hasBareColumnFrom fuel false t
    | none => hasBareColumnFrom fuel false s

/-- The text names a column without an alias. -/
def hasBareColumn (text : List Char) : Bool := hasBareColumnFrom (text.length + 1) true text

/-- `\(\s*SELECT\b` at the front of a text. -/
def opensSubquery (s : List Char) : Bool :=
  (scan [word "(", .runs isSpace, word "SELECT"] s).any fun x => boundary (some 'T') x.2

/-- `outerWhere`. -/
def outerWhere (aliases : List (List Char)) : ℕ → List Char → Option (List Char)
  | _, [] => some []
  | 0, s => some s
  | fuel + 1, c :: s =>
    if opensSubquery (c :: s) then
      (closingParen 0 none s).bind fun x =>
        if x.1.contains '\x60' || hasBareColumn x.1 || aliases.any (namesAlias x.1) then none
        else (outerWhere aliases fuel x.2).map fun out => '(' :: ')' :: out
    else (outerWhere aliases fuel s).map (c :: ·)

/-- The condition names its columns by their aliases, and holds no further statement outside them.
    -/
def whereIsReadable (where' : List Char) (aliases : List (List Char)) : Bool :=
  (outerWhere aliases where'.length where').any fun outer =>
    !hasWord "SELECT" none outer && !hasWord "UNION" none outer && !outer.contains '\x60' &&
      !hasBareColumn (outer.drop 5)

/-! ### The joins that stay -/

/-- The key of each table that no two rows share. -/
def UNIQUE_JOIN_KEYS : List (String × String) :=
  [("actions", "action_index"), ("transactions", "tx_index"), ("index_actions", "id"), ("index_addresses", "id"),
    ("index_coins", "id"), ("index_fiats", "id"), ("index_memos", "id"), ("index_mime_types", "id"),
    ("index_pubkeys", "id"), ("index_statuses", "id"), ("index_tickers", "id"), ("index_transactions", "id")]

/-- The key of a table. -/
def uniqueKey (table : List Char) : Option (List Char) :=
  (UNIQUE_JOIN_KEYS.find? fun k => k.1.toList = table).map fun k => k.2.toList

/-- `ON_KEY_RE`: an alias, its column, and the other side of the equality without the spaces about it. -/
def onKey (on : List Char) : Option (List Char × List Char × List Char) :=
  (scan [.runs isSpace, .run isWord, word ".", .run isWord, .runs isSpace, word "="] on).bind fun x =>
    let value := (x.2.dropWhile isSpace).reverse.dropWhile isSpace |>.reverse
    let value := if value.isEmpty then x.2.getLast?.toList else value
    if value.isEmpty then none else some (x.1.getD 1 [], x.1.getD 3 [], value)

/-- A left join on a unique key neither adds nor takes away rows. -/
def droppableJoin (j : Join) : Bool :=
  decide (j.kind = .LEFT) && !j.on.contains '?' &&
    match uniqueKey j.table, onKey j.on with
    | some key, some (alias', column, value) =>
      decide (alias' = j.alias') && decide (column = key) && !namesAlias value j.alias' &&
        !hasWord "AND" none value && !hasWord "OR" none value
    | _, _ => false

/-- The joins without the first that can be dropped and that no other text names. -/
def dropOne (parsed : CountSql) : List Join → List Join → Option (List Join)
  | _, [] => none
  | before, j :: after =>
    if droppableJoin j && !([parsed.select, parsed.where'] ++ (before ++ after).map (·.on)).any (namesAlias · j.alias')
    then some (before ++ after)
    else dropOne parsed (before ++ [j]) after

/-- The loop of `keptJoins`. -/
def keepJoins (parsed : CountSql) : ℕ → List Join → List Join
  | 0, kept => kept
  | fuel + 1, kept =>
    match dropOne parsed [] kept with
    | some kept' => keepJoins parsed fuel kept'
    | none => kept

/-- The joins that stay. -/
def keptJoins (parsed : CountSql) : List Join := keepJoins parsed parsed.joins.length parsed.joins

/-- The text of a count with these joins. -/
def CountSql.render (parsed : CountSql) (joins : List Join) : List Char :=
  "SELECT ".toList ++ parsed.select ++ " as total FROM ".toList ++ parsed.table ++ [' '] ++ parsed.alias' ++
    (joins.flatMap fun j => ' ' :: j.text) ++ [' '] ++ parsed.where'

/-- The statement without the joins that the count does not need. -/
def pruneCountJoins (sql : List Char) : List Char :=
  match parseCountSql sql with
  | none => sql
  | some parsed =>
    if !whereIsReadable parsed.where' (parsed.joins.map (·.alias')) then sql
    else if (keptJoins parsed).length = parsed.joins.length then sql
    else parsed.render (keptJoins parsed)

end CountJoins
