import HttpFileSharing.Core.Blacklist
import HttpFileSharing.Core.Engine
import HttpFileSharing.Core.Init
import HttpFileSharing.Core.ProgOptions
import Mathlib.Data.List.TakeWhile

/-!
# The Scores in the Database

The functions of the blacklist and of `init_db` once more, down to the calls they make
to SQLite. Every one of them opens the database by its name, and the name is looked up
in the working directory of that moment, like the name of any other file. What fails
ends the process: where the database cannot be opened the constructor of `db_handle`
throws, and nobody catches it; any other call is followed by an `exit`.

## Main definitions

* `Stop`: How the process ends on its own.
* `getStr`: What is read from a column.
* `StatsDb.insertUpdateStatsDb`, `StatsDb.insertIntoStatsDb`,
  `StatsDb.updateInStatsDb`, `StatsDb.getStatsFromDb`: The statements.
* `StatsDb.getActualDbSchema`, `StatsDb.initDb`, `StatsDb.initBlacklist`: What is done
  before serving.
* `Serving`, `Serving.updateIpAddrStats`: A server and one update of its scores.
* `Serving.run`: One update after the other.
-/

namespace HttpFileSharing

/-- How a process ends on its own: by `exit`, a return from `main` or an `assert`,
    by an exception nobody catches, or where the language gives no result. -/
inductive Stop where
  | exited
  | terminated
  | undefined
  deriving DecidableEq, Repr

/-- `db_handle::get_str`: what it returns, and the string it was given. -/
def getStr (text : Option Bytes) (result : Bytes) : Nat × Bytes :=
  match text with
  | some text => (text.length, text)
  | none => (0, result)

namespace StatsDb

/-- The query of `_insert_into_stats_db`. -/
def insertQuery : Bytes := "INSERT into stats (count,ipaddr) VALUES (?,?)".toList

/-- The query of `_update_in_stats_db`. -/
def updateQuery : Bytes := "UPDATE stats SET count=? where ipaddr=?;".toList

/-- The query of `_get_stats_from_db`. -/
def selectQuery : Bytes := "SELECT ipaddr,count from stats;".toList

/-- The address a string read from the database is. -/
def ipAddrOf (text : Bytes) : IpAddr where
  text := cStr text
  nulFree h := absurd (List.mem_takeWhile_imp h) (by decide)

/-- The loop of `_get_stats_from_db`. -/
def loadRows : List SqlRow → Bytes → StatsList → Option StatsList
  | [], _, stats => some stats
  | row :: rows, ipaddr, stats =>
    match getStr (row.columnText 0) ipaddr with
    | (0, _) => none
    | (_, ipaddr) => loadRows rows ipaddr
        (StdMap.emplace stats (ipAddrOf ipaddr) (row.columnInt 1))

section Calls

variable (sq : Sqlite)

/-- `__insert_update_stats_db`. -/
def insertUpdateStatsDb (w : sq.World) (cwd : Location) (dbFile query : Bytes)
    (ipaddr : IpAddr) (score : Int) : Except Stop sq.World :=
  match sq.openDb w cwd dbFile with
  | none => .error .terminated
  | some db => match sq.prepare db query with
    | (false, _) => .error .exited
    | (true, db) => match sq.bindInt db 1 score with
      | (false, _) => .error .exited
      | (true, db) => match sq.bindText db 2 (cStr ipaddr.text) with
        | (false, _) => .error .exited
        | (true, db) => match sq.step db with
          | (false, _) => .error .exited
          | (true, db) => .ok (sq.close db)

/-- `_insert_into_stats_db`. -/
def insertIntoStatsDb (w : sq.World) (cwd : Location) (dbFile : Bytes) (ipaddr : IpAddr)
    (score : Int) : Except Stop sq.World :=
  insertUpdateStatsDb sq w cwd dbFile insertQuery ipaddr score

/-- `_update_in_stats_db`. -/
def updateInStatsDb (w : sq.World) (cwd : Location) (dbFile : Bytes) (ipaddr : IpAddr)
    (score : Int) : Except Stop sq.World :=
  insertUpdateStatsDb sq w cwd dbFile updateQuery ipaddr score

/-- `_get_stats_from_db`: the scores it adds to those in memory. -/
def getStatsFromDb (w : sq.World) (cwd : Location) (dbFile : Bytes) (stats : StatsList) :
    Except Stop (StatsList × sq.World) :=
  match sq.openDb w cwd dbFile with
  | none => .error .terminated
  | some db => match sq.prepare db selectQuery with
    | (false, _) => .error .exited
    | (true, db) =>
      let (rows, db) := sq.rows db
      match loadRows rows [] stats with
      | none => .error .exited
      | some stats => .ok (stats, sq.close db)

/-- `_get_db_tables_list`. What `prepare_stmt` returns is not looked at. -/
def getDbTablesList (db : sq.Opened) : List Bytes × sq.Opened :=
  let (rows, db) := sq.rows (sq.prepare db tablesQuery).2
  (rows.map (fun row => (getStr (row.columnText 0) []).2), db)

/-- `_get_cols_for_table`: the columns, with their constraints left blank. -/
def getColsForTable (db : sq.Opened) (table : Bytes) : DbTable × sq.Opened :=
  let query := "PRAGMA table_info('".toList ++ table ++ "')".toList
  let (rows, db) := sq.rows (sq.prepare db query).2
  (rows.map (fun row => ⟨(getStr (row.columnText 1) []).2, (getStr (row.columnText 2) []).2, []⟩),
    db)

/-- The loop of `_get_actual_db_schema`. -/
def colsForTables (db : sq.Opened) (actual : StdMap Bytes DbTable) :
    List Bytes → StdMap Bytes DbTable × sq.Opened
  | [] => (actual, db)
  | it :: tables =>
    let (temp, db) := getColsForTable sq db it
    colsForTables db (StdMap.emplace actual it temp) tables

/-- `_get_actual_db_schema`. -/
def getActualDbSchema (db : sq.Opened) : StdMap Bytes DbTable × sq.Opened :=
  let (tables, db) := getDbTablesList sq db
  colsForTables sq db ∅ tables

/-- `_check_add_missing_columns`, with the loops of `Core.Init`. -/
def checkAddMissingColumns (expected : DbSchema) (db : sq.Opened) : Bool × sq.Opened :=
  let (actual, db) := getActualDbSchema sq db
  (true, checkTables sq.exec actual db expected.tables)

/-- `init_db`. -/
def initDb (w : sq.World) (cwd : Location) (dbFile : Bytes) : Except Stop sq.World :=
  match sq.openDb w cwd dbFile with
  | none => .error .terminated
  | some db => match checkAddMissingColumns sq getExpectedDbSchema db with
    | (true, db) => .ok (sq.close db)
    | (false, _) => .error .exited

/-- `init_blacklist`. -/
def initBlacklist (w : sq.World) (cwd : Location) (dbFile : Bytes) :
    Except Stop (StatsList × sq.World) :=
  getStatsFromDb sq w cwd dbFile ∅

end Calls

end StatsDb

/-- A server that is up: what it handles requests with, the name of its database and
    its threshold, the scores in memory, the workers that have nothing to do, and what
    SQLite works on. -/
structure Serving (sq : Sqlite) where
  env : Env
  dbFile : Bytes
  blacklistThreshold : Int
  statsList : StatsList
  idle : Nat
  world : sq.World

namespace Serving

variable {sq : Sqlite}

/-- `update_ip_addr_stats`: what it returns, and the server after it. -/
def updateIpAddrStats (s : Serving sq) (ip : IpAddr) (goodRequest : Bool) :
    Except Stop (Bool × Serving sq) :=
  match Finmap.lookup ip s.statsList with
  | none =>
    let finalScore := delta goodRequest
    match StatsDb.insertIntoStatsDb sq s.world s.env.cwd s.dbFile ip finalScore with
    | .ok world => .ok (goodForNow s.blacklistThreshold finalScore,
        { s with statsList := StdMap.emplace s.statsList ip finalScore, world := world })
    | .error e => .error e
  | some score =>
    let finalScore := score + delta goodRequest
    if IntRange finalScore then
      match StatsDb.updateInStatsDb sq s.world s.env.cwd s.dbFile ip finalScore with
      | .ok world => .ok (goodForNow s.blacklistThreshold finalScore,
          { s with statsList := Finmap.insert ip finalScore s.statsList, world := world })
      | .error e => .error e
    else .error .undefined

/-- One update after the other, as the write lock lets them through. -/
def run (s : Serving sq) : List (IpAddr × Bool) → Except Stop (Serving sq)
  | [] => .ok s
  | (ip, goodRequest) :: requests => match s.updateIpAddrStats ip goodRequest with
    | .ok (_, s') => run s' requests
    | .error e => .error e

end Serving

end HttpFileSharing
