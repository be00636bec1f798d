import HttpFileSharing.Core.Sqlite

/-!
# Setting Up the Database

What the server does with its database before it serves anything. The schema it
expects is compared with the one that is there, tables that are missing are
created and columns that are missing are added. The comparison is with a
snapshot, which is taken before anything is changed.

What the two statements return is not looked at, so the check says that all is
well whatever became of them. The loops go through any `exec` that executes a text
and tells whether it succeeded.

A `db_schema_t` is a `std::map`. The expected one is gone through in the order
of its keys, so it is a list in that order; the actual one is only searched.

## Main definitions

* `DbSchema`: The expected schema.
* `getExpectedDbSchema`, `addInfoOfStats`: The schema the server comes with.
* `getActualDbSchema`, `getDbTablesList`, `getColsForTable`: The snapshot.
* `addColumn`, `createTable`: The two statements.
* `checkAddMissingColumns`, `initDb`: The comparison.
-/

namespace HttpFileSharing

/-- An expected schema, in the order of the keys. -/
structure DbSchema where
  tables : List (Bytes × DbTable)
  ordered : (tables.map Prod.fst).Pairwise (· < ·)

/-- `_add_info_of_stats`: the columns of the table `stats`. -/
def addInfoOfStats : DbTable :=
  [⟨"ipaddr".toList, "TEXT".toList, "PRIMARY KEY".toList⟩,
    ⟨"count".toList, "INTEGER".toList, "DEFAULT 0".toList⟩]

/-- `_get_expected_db_schema`. -/
def getExpectedDbSchema : DbSchema where
  tables := [("stats".toList, addInfoOfStats)]
  ordered := List.pairwise_singleton _ _

/-- `_get_db_tables_list`. -/
def getDbTablesList (db : Database) : List Bytes := selectTables db

/-- `_get_cols_for_table`: the columns, with their constraints left blank. -/
def getColsForTable (db : Database) (table : Bytes) : DbTable :=
  (tableInfo db ("PRAGMA table_info('".toList ++ table ++ "')".toList)).map
    (fun row => ⟨row.name, row.colType, []⟩)

/-- `_get_actual_db_schema`. -/
def getActualDbSchema (db : Database) : StdMap Bytes DbTable :=
  (getDbTablesList db).foldl (fun actual it => StdMap.emplace actual it (getColsForTable db it)) ∅

/-- `_does_column_exist`: a linear search. -/
def doesColumnExist : DbTable → Bytes → Bool
  | [], _ => false
  | it :: rest, colName => if it.name = colName then true else doesColumnExist rest colName

/-- A column as both statements write it. -/
def columnText (col : DbColInfo) : Bytes :=
  col.name ++ " ".toList ++ col.colType ++ " ".toList ++ col.constraint

/-- The text of `_add_column`. -/
def alterQuery (tableName : Bytes) (col : DbColInfo) : Bytes :=
  "ALTER TABLE ".toList ++ tableName ++ " ADD ".toList ++ columnText col

/-- The columns of `_create_table`, each but the first behind a comma. -/
def columnTexts : Bool → DbTable → Bytes
  | _, [] => []
  | isFirst, it :: rest =>
    (if isFirst = true then [] else ", ".toList) ++ columnText it ++ columnTexts false rest

/-- The text of `_create_table`. -/
def createQuery (tableName : Bytes) (tableStructure : DbTable) : Bytes :=
  "CREATE TABLE ".toList ++ tableName ++ " (".toList ++ columnTexts true tableStructure
    ++ ");".toList

section Statements

variable {σ : Type} (exec : σ → Bytes → Bool × σ)

/-- `_add_column`: whether it succeeded, and the database after it. -/
def addColumn (s : σ) (tableName : Bytes) (col : DbColInfo) : Bool × σ :=
  exec s (alterQuery tableName col)

/-- `_create_table`. -/
def createTable (s : σ) (tableName : Bytes) (tableStructure : DbTable) : Bool × σ :=
  exec s (createQuery tableName tableStructure)

/-- The inner loop of `_check_add_missing_columns`, for a table that is there
    with columns `actual`. -/
def checkColumns (actual : DbTable) (tableName : Bytes) (s : σ) : DbTable → σ
  | [] => s
  | col :: cols =>
    let s := if doesColumnExist actual col.name = true then s
      -- What `_add_column` returns is not looked at.
      else (addColumn exec s tableName col).2
    checkColumns actual tableName s cols

/-- The outer loop of `_check_add_missing_columns`. -/
def checkTables (actual : StdMap Bytes DbTable) (s : σ) : List (Bytes × DbTable) → σ
  | [] => s
  | it :: rest =>
    let s := match Finmap.lookup it.1 actual with
      | some cols => checkColumns exec cols it.1 s it.2
      -- Nor is what `_create_table` returns.
      | none => (createTable exec s it.1 it.2).2
    checkTables actual s rest

end Statements

/-- `_check_add_missing_columns`: what it returns, and the session after it. -/
def checkAddMissingColumns (fails : Nat → Bool) (expected : DbSchema) (s : Session) :
    Bool × Session :=
  (true, checkTables (execQuery fails) (getActualDbSchema s.db) s expected.tables)

/-- `init_db` on a database that can be opened: the session it returns with, or
    `none` where it ends the process. -/
def initDb (fails : Nat → Bool) (db : Database) : Option Session :=
  match checkAddMissingColumns fails getExpectedDbSchema ⟨db, []⟩ with
  | (true, s) => some s
  | (false, _) => none

end HttpFileSharing
