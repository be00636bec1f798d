import HttpFileSharing.Core.FileSystem
import HttpFileSharing.Core.Rows

/-!
# The Calls to SQLite

SQLite is not part of the source, the server is only linked with it. So it is a
parameter: a `Sqlite` has the calls that `db_handle` makes, each with what it
returns. A `db_handle` has one connection and one statement of it, so an open handle
is a single thing here, together with the world it is in. The world is whatever the
answers can depend on.

What the server relies on is `Sqlite.Works`. It is what SQLite documents of the few
texts it is given, said of any text of that kind, and that no call fails for a reason
of its own: the disk is not full, the files can be written, there is a descriptor
left, nothing is too large, nobody else locks the database or writes to it.

To say it, a `Sqlite.View` tells what databases there are and which of them a name
leads to, what is in them, and what an open handle is about to do. Only of a plain
database it is said what is in it: one of columns of texts and of numbers with no
constraint but a primary key or a default, whose names are identifiers in lower case,
without views, indexes or triggers. Nothing is said of what SQLite does with any other
file, one that is no database included.

## Main definitions

* `SqlRow`, `Sqlite`: The calls and what they return.
* `DbPlace`: Where a database is.
* `DbColInfo.Simple`, `Store.Plain`: The databases that are plain.
* `PreparedStmt.Fits`, `Statement.Simple`: The statements they are relied on for.
* `Sqlite.View`: What the calls are about.
* `Sqlite.Works`: What is relied on.
-/

namespace HttpFileSharing

/-- What `sqlite3_column_int` and `sqlite3_column_text` return for the columns of a
    row, the second as a C string. -/
structure SqlRow where
  columnInt : Nat → Int
  columnText : Nat → Option Bytes

/-- What the server calls of SQLite. -/
structure Sqlite where
  World : Type
  /-- An open handle, with its statement and in its world. -/
  Opened : Type
  /-- `sqlite3_open`, from a working directory, or `none` without `SQLITE_OK`. -/
  openDb : World → Location → Bytes → Option Opened
  /-- `sqlite3_prepare_v2`, and whether it returns `SQLITE_OK`. -/
  prepare : Opened → Bytes → Bool × Opened
  bindInt : Opened → Nat → Int → Bool × Opened
  bindText : Opened → Nat → Bytes → Bool × Opened
  /-- One `sqlite3_step`, and whether it returns `SQLITE_DONE`. -/
  step : Opened → Bool × Opened
  /-- One `sqlite3_step` after the other while they return `SQLITE_ROW`, which is as
      often as there are rows. -/
  rows : Opened → List SqlRow × Opened
  /-- `sqlite3_exec`, and whether it returns `SQLITE_OK`. -/
  exec : Opened → Bytes → Bool × Opened
  /-- `sqlite3_finalize` and `sqlite3_close`. -/
  close : Opened → World

/-- Where a database is: in a file, or in no file and gone when it is closed. -/
inductive DbPlace (φ : Type) where
  | file (loc : φ)
  | memory
  deriving DecidableEq, Repr

/-- A row with these values. -/
def SqlRow.ofValues (values : List Value) : SqlRow where
  columnInt i := (values.getD i .null).columnInt
  columnText i := (values.getD i .null).columnText

/-- The values of a statement, with the columns they are for. -/
def PreparedStmt.assigned (p : PreparedStmt) : List (Bytes × Value) :=
  match p.statement with
  | .select _ _ => []
  | .insert _ names => names.zip p.params
  | .update _ col key => [col, key].zip p.params

/-- The column is one for values of this kind. -/
def DbColInfo.Holds (col : DbColInfo) : Value → Prop
  | .null => False
  | .int n => col.colType = "INTEGER".toList ∧ -2 ^ 63 ≤ n ∧ n < 2 ^ 63
  | .text s => col.colType = "TEXT".toList ∧ '\x00' ∉ s

/-- A statement that writes, texts to columns of texts and numbers to columns of
    numbers. -/
def PreparedStmt.Fits (p : PreparedStmt) (cols : DbTable) : Prop :=
  p.assigned ≠ [] ∧ (p.assigned.map Prod.fst).Nodup ∧
    ∀ a ∈ p.assigned, ∃ col ∈ cols, col.name = a.1 ∧ col.Holds a.2

/-- A name that stands for one thing in any case, and for none of SQLite's own. -/
def IsPlainName (name : Bytes) : Prop :=
  isIdentifier name = true ∧ name.map Char.toLower = name ∧ ¬ "sqlite_".toList <+: name

instance (name : Bytes) : Decidable (IsPlainName name) :=
  inferInstanceAs (Decidable (_ ∧ _ ∧ _))

/-- A column of texts or of numbers. -/
def DbColInfo.Simple (col : DbColInfo) : Prop :=
  IsPlainName col.name ∧
    (col.colType = "TEXT".toList ∧ col.constraint ∈ [[], "PRIMARY KEY".toList] ∨
      col.colType = "INTEGER".toList ∧ col.constraint ∈ [[], "DEFAULT 0".toList])

instance (col : DbColInfo) : Decidable col.Simple :=
  inferInstanceAs (Decidable (_ ∧ (_ ∨ _)))

/-- A table of such columns, with one primary key at most. -/
def SimpleTable (t : Bytes × DbTable) : Prop :=
  IsPlainName t.1 ∧ t.2 ≠ [] ∧ (∀ col ∈ t.2, col.Simple) ∧
    (t.2.filter (fun col => col.IsPrimaryKey)).length ≤ 1

instance (t : Bytes × DbTable) : Decidable (SimpleTable t) :=
  inferInstanceAs (Decidable (_ ∧ _ ∧ (∀ col ∈ t.2, col.Simple) ∧ _))

/-- A database of such tables. -/
def Store.Plain (store : Store) : Prop := ∀ t ∈ store.db.tables, SimpleTable t

instance (store : Store) : Decidable store.Plain :=
  inferInstanceAs (Decidable (∀ t ∈ store.db.tables, SimpleTable t))

/-- A statement that makes such a table or column. -/
def Statement.Simple : Statement → Prop
  | .createTable table cols => SimpleTable (table, cols)
  | .addColumn table col => IsPlainName table ∧ col.Simple

/-- The text of `_get_db_tables_list`. -/
def tablesQuery : Bytes := "SELECT name FROM sqlite_master WHERE type='table'".toList

namespace Sqlite

/-- What the calls are about. -/
structure View (sq : Sqlite) where
  /-- The files there can be. -/
  File : Type
  /-- What a name leads to from a working directory, or `none` where that cannot be
      opened. -/
  place : Location → Bytes → Option (DbPlace File)
  /-- What is in a plain database, a new one where there is no such file. -/
  contents : sq.World → File → Option Store
  /-- The database that is open. -/
  target : sq.Opened → DbPlace File
  /-- What is in a database that is in no file. -/
  memory : sq.Opened → Option Store
  /-- The statement that is prepared, up to its first step. -/
  pending : sq.Opened → Option PreparedStmt

namespace View

variable {sq : Sqlite} (v : sq.View)

/-- What an open handle sees. -/
def store (o : sq.Opened) : Option Store :=
  match v.target o with
  | .file loc => v.contents (sq.close o) loc
  | .memory => v.memory o

/-- What is found when a database is opened. -/
def found (w : sq.World) : DbPlace v.File → Option Store
  | .file loc => v.contents w loc
  | .memory => some Store.fresh

/-- Nothing is written. -/
structure Unchanged (o o' : sq.Opened) : Prop where
  target : v.target o' = v.target o
  contents : ∀ loc, v.contents (sq.close o') loc = v.contents (sq.close o) loc
  memory : v.memory o' = v.memory o

/-- The database that is open has other contents, and no other file has. -/
structure Written (o o' : sq.Opened) (store : Store) : Prop where
  target : v.target o' = v.target o
  store : v.store o' = some store
  others : ∀ loc, v.target o ≠ .file loc →
    v.contents (sq.close o') loc = v.contents (sq.close o) loc

end View

/-- SQLite does what it documents, and no call fails for a reason of its own. -/
structure Works (sq : Sqlite) (v : sq.View) : Prop where
  /-- Opening a database writes nothing. -/
  opens : ∀ w cwd name place, v.place cwd name = some place → ∃ o, sq.openDb w cwd name = some o ∧
    v.target o = place ∧ (∀ loc, v.contents (sq.close o) loc = v.contents w loc) ∧
    v.store o = v.found w place
  /-- What cannot be opened is not. -/
  refuses : ∀ w cwd name, v.place cwd name = none → sq.openDb w cwd name = none
  /-- Only of plain databases it is told what is in them. -/
  plain : ∀ o store, v.store o = some store → store.Plain
  /-- A statement about a table and columns that are there is prepared. -/
  prepares : ∀ o store query p, v.store o = some store → store.prepare query = some p →
    ∃ o', sq.prepare o query = (true, o') ∧ v.Unchanged o o' ∧ v.pending o' = some p
  /-- One about a table that is not there is not. -/
  missing : ∀ o store query statement, v.store o = some store →
    readRowStatement query = some statement → statement.table = "stats".toList →
    store.db.tables.lookup statement.table = none → (sq.prepare o query).1 = false
  /-- A value is bound to the parameter with its number. -/
  bindsInt : ∀ o p p' i n, v.pending o = some p → p.bind i (.int n) = some p' →
    -2 ^ 31 ≤ n → n < 2 ^ 31 →
    ∃ o', sq.bindInt o i n = (true, o') ∧ v.Unchanged o o' ∧ v.pending o' = some p'
  bindsText : ∀ o p p' i s, v.pending o = some p → p.bind i (.text s) = some p' → '\x00' ∉ s →
    ∃ o', sq.bindText o i s = (true, o') ∧ v.Unchanged o o' ∧ v.pending o' = some p'
  /-- A row is added or changed as the statement says. -/
  steps : ∀ o store store' p cols, v.store o = some store → v.pending o = some p →
    store.db.tables.lookup p.statement.table = some cols → p.Fits cols →
    store.execute p = some store' → ∃ o', sq.step o = (true, o') ∧ v.Written o o' store'
  /-- Unless two rows would have one key. -/
  stops : ∀ o store p cols, v.store o = some store → v.pending o = some p →
    store.db.tables.lookup p.statement.table = some cols → p.Fits cols →
    store.execute p = none → (sq.step o).1 = false
  /-- A query gives every row of the table once, in any order. -/
  selects : ∀ o store cols table, v.store o = some store →
    v.pending o = some ⟨.select cols table, []⟩ →
    ∃ rows : List (List Value), rows.Perm (store.select ⟨.select cols table, []⟩) ∧
      (sq.rows o).1 = rows.map SqlRow.ofValues ∧ v.Unchanged o (sq.rows o).2
  /-- The names of the tables, in any order. -/
  tables : ∀ o store, v.store o = some store →
    ∃ names : List Bytes, names.Perm (selectTables store.db) ∧
      (sq.rows (sq.prepare o tablesQuery).2).1.map (fun row => row.columnText 0)
        = names.map some ∧
      v.Unchanged o (sq.rows (sq.prepare o tablesQuery).2).2
  /-- The names and types of the columns of a table. -/
  columns : ∀ o store query table cols, v.store o = some store →
    readTableInfo query = some table → store.db.tables.lookup table = some cols →
    (sq.rows (sq.prepare o query).2).1.map (fun row => (row.columnText 1, row.columnText 2))
        = cols.map (fun col => (some col.name, some col.colType)) ∧
      v.Unchanged o (sq.rows (sq.prepare o query).2).2
  /-- A table or a column is made as the text says. -/
  makes : ∀ o store query st db, v.store o = some store → readStatement query = some st →
    st.Simple → store.db.apply st = some db →
    (sq.exec o query).1 = true ∧ v.Written o (sq.exec o query).2 (store.upgrade db)
  /-- One that cannot be made changes nothing. -/
  keeps : ∀ o store query st, v.store o = some store → readStatement query = some st →
    st.Simple → store.db.apply st = none →
    (sq.exec o query).1 = false ∧ v.Unchanged o (sq.exec o query).2

end Sqlite

end HttpFileSharing
