import HttpFileSharing.Core.Bytes
import HttpFileSharing.Lib.Catalog
import HttpFileSharing.Lib.Lines

/-!
# The Database Engine

What the start of the server uses of SQLite: the tables of a database with
their columns, and the two statements that change them. A statement is a text.
The engine reads it and does what it says, or refuses it and changes nothing.

What is read is the part of SQL that a text without quotes and comments can be in:
one statement, with at most a semicolon at its end, whose names are identifiers
and no keywords, whose types are one word or none, and whose words have one blank
between them. Within that the keywords mean what they mean in SQL, wherever they
stand. Any other text is refused here, whatever SQLite makes of it, so nothing is
to be concluded from a text that is refused.

Identifiers compare exactly. A column is added behind the others, a table behind
the others, and neither a table nor a column can be there twice. A column declared
as the primary key cannot be added to a table that exists.

A statement can also fail for reasons of its own, which is what `fails` tells of
each statement by its number: a full disk, a lock, or what else SQLite asks of a
statement, as that a column it adds is not unique. The tables SQLite keeps for
itself are left out.

## Main definitions

* `DbColInfo`, `DbTable`: A column and the columns of a table.
* `Database`: Tables and columns, each name once.
* `isIdentifier`, `isConstraint`: The words that are names, and the texts that
  are constraints.
* `Statement`, `readColumn`, `readStatement`: What a text says.
* `Database.apply`: What a statement does.
* `Session`, `execQuery`: Executing a text.
* `selectTables`, `tableInfo`: The two queries about a database.
-/

namespace HttpFileSharing

/-- `db_col_info_t`: the name, the type and the constraint of a column. -/
structure DbColInfo where
  name : Bytes
  colType : Bytes
  constraint : Bytes
  deriving DecidableEq, Repr

/-- `db_table_t`. -/
abbrev DbTable := List DbColInfo

/-- The tables of a database in the order they were made, each with its
    columns. -/
structure Database where
  tables : List (Bytes × DbTable)
  distinct : (tables.map Prod.fst).Nodup
  columns : ∀ t ∈ tables, (t.2.map DbColInfo.name).Nodup

/-- What a text can say. -/
inductive Statement where
  | createTable (table : Bytes) (cols : DbTable)
  | addColumn (table : Bytes) (col : DbColInfo)
  deriving DecidableEq, Repr

/-- The text behind a keyword. -/
def dropKeyword (keyword text : Bytes) : Option Bytes :=
  if keyword <+: text then some (text.drop keyword.length) else none

/-- The characters that quote, the backquote as number 96, that separate
    statements, and the one that ends a text. -/
def quoting : Bytes := ['\'', '"', Char.ofNat 96, '[', ']', ';', '\x00']

/-- One statement, without quotes and comments. -/
def IsPlain (text : Bytes) : Prop :=
  (∀ c ∈ text, c ∉ quoting) ∧ ¬ "--".toList <:+: text ∧ ¬ "/*".toList <:+: text

instance (text : Bytes) : Decidable (IsPlain text) :=
  have : Decidable (∀ c ∈ text, c ∉ quoting) := List.decidableBAll _ text
  inferInstanceAs (Decidable (_ ∧ _ ∧ _))

/-- The keywords of SQL, as SQLite lists them. -/
def sqlKeywords : List Bytes :=
  ["abort", "action", "add", "after", "all", "alter", "always", "analyze", "and", "as", "asc",
    "attach", "autoincrement", "before", "begin", "between", "by", "cascade", "case", "cast",
    "check", "collate", "column", "commit", "conflict", "constraint", "create", "cross", "current",
    "current_date", "current_time", "current_timestamp", "database", "default", "deferrable",
    "deferred", "delete", "desc", "detach", "distinct", "do", "drop", "each", "else", "end",
    "escape", "except", "exclude", "exclusive", "exists", "explain", "fail", "filter", "first",
    "following", "for", "foreign", "from", "full", "generated", "glob", "group", "groups",
    "having", "if", "ignore", "immediate", "in", "index", "indexed", "initially", "inner",
    "insert", "instead", "intersect", "into", "is", "isnull", "join", "key", "last", "left",
    "like", "limit", "match", "materialized", "natural", "no", "not", "nothing", "notnull", "null",
    "nulls", "of", "offset", "on", "or", "order", "others", "outer", "over", "partition", "plan",
    "pragma", "preceding", "primary", "query", "raise", "range", "recursive", "references",
    "regexp", "reindex", "release", "rename", "replace", "restrict", "returning", "right",
    "rollback", "row", "rows", "savepoint", "select", "set", "table", "temp", "temporary", "then",
    "ties", "to", "transaction", "trigger", "unbounded", "union", "unique", "update", "using",
    "vacuum", "values", "view", "virtual", "when", "where", "window", "with",
    "without"].map String.toList

/-- The word is a keyword, in any case. -/
def isKeyword (keyword word : Bytes) : Bool := word.map Char.toLower = keyword

/-- A character of an identifier. -/
def isIdChar (c : Char) : Bool := c.isAlphanum || c = '_' || c = '$' || 128 ≤ c.toNat

/-- An identifier that is written without quotes and is no keyword. -/
def isIdentifier (word : Bytes) : Bool :=
  (match word.head? with
    | some c => !(c.isDigit || c = '$')
    | none => false) && word.all isIdChar && !sqlKeywords.contains (word.map Char.toLower)

/-- A table, of the main database where one is named. -/
def readTable (word : Bytes) : Option Bytes :=
  let name := match dropKeyword "main.".toList word with
    | some name => name
    | none => word
  if isIdentifier name = true then some name else none

/-- The keywords a constraint of a column begins with. -/
def constraintKeywords : List Bytes :=
  ["constraint", "primary", "not", "null", "unique", "check", "default", "collate", "references",
    "deferrable", "generated", "as"].map String.toList

/-- Nothing but blanks, or a text that begins with a constraint. -/
def isConstraint (text : Bytes) : Bool :=
  let text := text.dropWhile Char.isWhitespace
  text = [] || constraintKeywords.contains ((text.takeWhile isIdChar).map Char.toLower)

/-- A column definition: a name, a type of one word or none, and constraints. -/
def readColumn (text : Bytes) : Option DbColInfo :=
  let (name, rest) := takeUntil ' ' text
  let (colType, constraint) := takeUntil ' ' rest
  if isIdentifier name = true then
    if isConstraint rest = true then some ⟨name, [], rest⟩
    else if isIdentifier colType = true ∧ isConstraint constraint = true then
      some ⟨name, colType, constraint⟩
    else none
  else none

/-- A constraint of the table that is only a name. -/
def isNamedConstraint (text : Bytes) : Bool :=
  let (keyword, rest) := takeUntil ' ' text
  let (name, rest) := takeUntil ' ' rest
  isKeyword "constraint".toList keyword && isIdentifier name && rest.all Char.isWhitespace

/-- What is between the parentheses: columns, and behind them constraints of the
    table. -/
def readColumns (text : Bytes) : Option DbTable :=
  let parts := (text.splitOn ',').map (fun part => part.dropWhile (· = ' '))
  let columns := parts.takeWhile (fun part => !isNamedConstraint part)
  if columns ≠ [] ∧ (parts.drop columns.length).all isNamedConstraint = true then
    columns.mapM readColumn
  else none

/-- `CREATE TABLE`, behind the keyword. -/
def readCreate (text : Bytes) : Option Statement :=
  let (word, rest) := takeUntil ' ' text
  match readTable word, rest with
  | some table, '(' :: rest =>
    let body := rest.dropLast
    if rest.getLast? = some ')' ∧ '(' ∉ body ∧ ')' ∉ body then
      (readColumns body).map (.createTable table)
    else none
  | _, _ => none

/-- `ALTER TABLE`, behind the keyword. The word `COLUMN` may stand before the
    column, and so is never its name. -/
def readAlter (text : Bytes) : Option Statement :=
  let (word, rest) := takeUntil ' ' text
  match readTable word, dropKeyword "ADD ".toList rest with
  | some table, some column =>
    let (first, behind) := takeUntil ' ' column
    (readColumn (if isKeyword "column".toList first = true then behind else column)).map
      (.addColumn table)
  | _, _ => none

/-- What a text says. -/
def readStatement (query : Bytes) : Option Statement :=
  let text := if query.getLast? = some ';' then query.dropLast else query
  if IsPlain text then
    match dropKeyword "CREATE TABLE ".toList text with
    | some rest => readCreate rest
    | none => match dropKeyword "ALTER TABLE ".toList text with
      | some rest => readAlter rest
      | none => none
  else none

/-- The column is declared as the primary key. -/
def DbColInfo.IsPrimaryKey (col : DbColInfo) : Prop :=
  "primary key".toList <:+: col.constraint.map Char.toLower

instance (col : DbColInfo) : Decidable col.IsPrimaryKey :=
  inferInstanceAs (Decidable (_ <:+: _))

namespace Database

theorem distinct_create (db : Database) (table : Bytes) (cols : DbTable)
    (h : table ∉ db.tables.map Prod.fst) :
    ((db.tables ++ [(table, cols)]).map Prod.fst).Nodup := by
  rw [List.map_append, List.map_singleton]
  refine List.Nodup.append db.distinct (List.nodup_singleton table) (fun t ht hmem => h ?_)
  rw [← show t = table from List.mem_singleton.mp hmem]
  exact ht

theorem columns_create (db : Database) (table : Bytes) (cols : DbTable)
    (h : (cols.map DbColInfo.name).Nodup) :
    ∀ t ∈ db.tables ++ [(table, cols)], (t.2.map DbColInfo.name).Nodup := by
  intro t ht
  rcases List.mem_append.mp ht with ht | ht
  · exact db.columns t ht
  · rw [List.mem_singleton.mp ht]
    exact h

theorem columns_add (db : Database) (table : Bytes) (col : DbColInfo)
    (h : ∀ t ∈ db.tables, t.1 = table → col.name ∉ t.2.map DbColInfo.name) :
    ∀ t ∈ Catalog.addTo table [col] db.tables, (t.2.map DbColInfo.name).Nodup := by
  intro t ht
  rcases List.mem_map.mp ht with ⟨r, hr, rfl⟩
  split
  · rename_i hkey
    rw [List.map_append, List.map_singleton]
    refine List.Nodup.append (db.columns r hr) (List.nodup_singleton col.name)
      (fun name hname hmem => h r hr hkey ?_)
    rw [← List.mem_singleton.mp hmem]
    exact hname
  · exact db.columns r hr

/-- What a statement does, or `none` where it is refused. -/
def apply (db : Database) : Statement → Option Database
  | .createTable table cols =>
    if h : table ∉ db.tables.map Prod.fst ∧ (cols.map DbColInfo.name).Nodup then
      some ⟨db.tables ++ [(table, cols)], db.distinct_create table cols h.1,
        db.columns_create table cols h.2⟩
    else none
  | .addColumn table col =>
    if h : table ∈ db.tables.map Prod.fst ∧ ¬ col.IsPrimaryKey ∧
        ∀ t ∈ db.tables, t.1 = table → col.name ∉ t.2.map DbColInfo.name then
      some ⟨Catalog.addTo table [col] db.tables,
        (Catalog.keys_addTo table [col] db.tables).symm ▸ db.distinct,
        db.columns_add table col h.2.2⟩
    else none

end Database

/-- A database and the texts executed on it, each with its success. -/
structure Session where
  db : Database
  issued : List (Bytes × Bool)

/-- `sqlite3_exec`: whether it succeeded, and the session after it. -/
def execQuery (fails : Nat → Bool) (s : Session) (query : Bytes) : Bool × Session :=
  if fails s.issued.length = true then (false, { s with issued := s.issued ++ [(query, false)] })
  else match (readStatement query).bind s.db.apply with
    | some db => (true, ⟨db, s.issued ++ [(query, true)]⟩)
    | none => (false, { s with issued := s.issued ++ [(query, false)] })

/-- The rows of `SELECT name FROM sqlite_master WHERE type='table'`. -/
def selectTables (db : Database) : List Bytes := db.tables.map Prod.fst

/-- The table a `PRAGMA table_info` is about. -/
def readTableInfo (query : Bytes) : Option Bytes :=
  match dropKeyword "PRAGMA table_info('".toList query with
  | some rest =>
    let (table, rest) := takeUntil '\'' rest
    if rest = [')'] then some table else none
  | none => none

/-- The rows of a `PRAGMA table_info`, none where it is not understood or there
    is no such table. -/
def tableInfo (db : Database) (query : Bytes) : DbTable :=
  ((readTableInfo query).bind (fun table => db.tables.lookup table)).getD []

end HttpFileSharing
