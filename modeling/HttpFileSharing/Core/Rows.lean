import HttpFileSharing.Core.Sqlite

/-!
# The Rows of a Database

What SQLite documents of the statements the scores of the clients use: a query for
some columns of a table, a row added and a column set in the rows with a given key,
each with its values left open and bound to it before it is carried out. These are
the words in which `Core.Engine` says what the server relies on; the calls themselves
are a parameter there.

A statement is a text, read word by word, its keywords in any case. The
parameters are the question marks, numbered from the left and from one on, and
have no value until one is bound. What the text names has to be there when it is
prepared. A row that is added has its default in every column it says nothing of.
After a statement no two rows may have the same value in a column that is a
primary key, unless it is no value, or else the statement is refused and changes
nothing.

A value is stored as it was bound, which is so where only texts are bound to columns
for texts, and numbers to columns for numbers.

## Main definitions

* `Value`, `Row`, `Store`: The contents of a database.
* `tokens`: The words and signs of a text.
* `RowStatement`, `readRowStatement`: What a text says.
* `PreparedStmt`, `Store.prepare`, `PreparedStmt.bind`: A statement and its values.
* `Store.execute`, `Store.select`: Carrying one out.
* `Store.upgrade`: New tables and columns.
* `Value.columnInt`, `Value.columnText`: What is read from a value.
-/

namespace HttpFileSharing

/-- What a column of a row can hold. -/
inductive Value where
  | null
  | int (n : Int)
  | text (s : Bytes)
  deriving DecidableEq, Repr

/-- A row, by the names of its columns. -/
abbrev Row := Bytes → Value

/-- A database with the rows of its tables. -/
structure Store where
  db : Database
  rows : Bytes → List Row
  /-- A table that is not there has no rows. -/
  vacant : ∀ table, table ∉ db.tables.map Prod.fst → rows table = []

/-- A database file that was not there. -/
def Store.fresh : Store where
  db := ⟨[], List.nodup_nil, fun _ h => absurd h List.not_mem_nil⟩
  rows _ := []
  vacant _ _ := rfl

/-- The signs that are words of their own. -/
def signs : Bytes := ['(', ')', ',', '=', '?', ';']

/-- The words and signs of a text, behind the part `word` of the next one. -/
def tokensFrom (word : Bytes) : Bytes → List Bytes
  | [] => if word = [] then [] else [word]
  | c :: text =>
    let before := if word = [] then [] else [word]
    if c = ' ' then before ++ tokensFrom [] text
    else if c ∈ signs then before ++ [c] :: tokensFrom [] text
    else tokensFrom (word ++ [c]) text

/-- The words and signs of a text. -/
def tokens (text : Bytes) : List Bytes := tokensFrom [] text

/-- What a text about rows can say. -/
inductive RowStatement where
  | select (cols : List Bytes) (table : Bytes)
  | insert (table : Bytes) (cols : List Bytes)
  | update (table col key : Bytes)
  deriving DecidableEq, Repr

/-- Names with commas between them, and what comes behind. -/
def readNames : List Bytes → Option (List Bytes × List Bytes)
  | name :: [','] :: rest => (readNames rest).map (fun r => (name :: r.1, r.2))
  | name :: rest => some ([name], rest)
  | [] => none

/-- `SELECT`, behind the keyword. -/
def readSelect (words : List Bytes) : Option RowStatement :=
  match readNames words with
  | some (cols, [kwFrom, table]) =>
    if isKeyword "from".toList kwFrom = true then some (.select cols table) else none
  | _ => none

/-- `INSERT`, behind the keyword, with as many parameters as columns. -/
def readInsert (words : List Bytes) : Option RowStatement :=
  match words with
  | kwInto :: table :: ['('] :: rest => match readNames rest with
    | some (cols, [')'] :: kwValues :: ['('] :: rest) =>
      if isKeyword "into".toList kwInto = true ∧ isKeyword "values".toList kwValues = true ∧
          readNames rest = some (List.replicate cols.length ['?'], [[')']]) then
        some (.insert table cols)
      else none
    | _ => none
  | _ => none

/-- `UPDATE`, behind the keyword. -/
def readUpdate (words : List Bytes) : Option RowStatement :=
  match words with
  | [table, kwSet, col, ['='], ['?'], kwWhere, key, ['='], ['?']] =>
    if isKeyword "set".toList kwSet = true ∧ isKeyword "where".toList kwWhere = true then
      some (.update table col key)
    else none
  | _ => none

/-- What a text says. -/
def readRowStatement (query : Bytes) : Option RowStatement :=
  let text := if query.getLast? = some ';' then query.dropLast else query
  if IsPlain text then
    match tokens text with
    | keyword :: words =>
      if isKeyword "select".toList keyword = true then readSelect words
      else if isKeyword "insert".toList keyword = true then readInsert words
      else if isKeyword "update".toList keyword = true then readUpdate words
      else none
    | [] => none
  else none

namespace RowStatement

/-- The table a statement is about. -/
def table : RowStatement → Bytes
  | .select _ table => table
  | .insert table _ => table
  | .update table _ _ => table

/-- The columns a statement names. -/
def cols : RowStatement → List Bytes
  | .select cols _ => cols
  | .insert _ cols => cols
  | .update _ col key => [col, key]

/-- How many parameters a statement has. -/
def params : RowStatement → Nat
  | .select _ _ => 0
  | .insert _ cols => cols.length
  | .update _ _ _ => 2

end RowStatement

/-- A statement with the values of its parameters. -/
structure PreparedStmt where
  statement : RowStatement
  params : List Value
  deriving DecidableEq, Repr

/-- What a text becomes that `sqlite3_prepare_v2` is given. -/
def Store.prepare (store : Store) (query : Bytes) : Option PreparedStmt :=
  match readRowStatement query with
  | some statement => match store.db.tables.lookup statement.table with
    | some cols =>
      if ∀ col ∈ statement.cols, col ∈ cols.map DbColInfo.name then
        some ⟨statement, List.replicate statement.params .null⟩
      else none
    | none => none
  | none => none

/-- A value for the parameter `offset`, if there is one. -/
def PreparedStmt.bind (p : PreparedStmt) (offset : Nat) (v : Value) : Option PreparedStmt :=
  if 1 ≤ offset ∧ offset ≤ p.params.length then
    some { p with params := p.params.set (offset - 1) v }
  else none

/-- What a column holds in a row that says nothing of it. -/
def DbColInfo.default (col : DbColInfo) : Value :=
  match dropKeyword "DEFAULT ".toList col.constraint with
  | some digits =>
    if digits ≠ [] ∧ digits.all Char.isDigit = true then .int (Nat.ofDigitChars 10 digits 0)
    else .null
  | none => .null

/-- A row with `values` in the columns `names`. -/
def newRow (cols : DbTable) (names : List Bytes) (values : List Value) : Row := fun name =>
  match names.idxOf? name with
  | some i => values.getD i .null
  | none => match cols.find? (fun col => col.name = name) with
    | some col => col.default
    | none => .null

/-- No two rows have the same value in a column that is a primary key. -/
def KeysDistinct (cols : DbTable) (rows : List Row) : Prop :=
  ∀ col ∈ cols, col.IsPrimaryKey →
    ((rows.map (fun r => r col.name)).filter (fun v => v ≠ .null)).Nodup

instance (cols : DbTable) (rows : List Row) : Decidable (KeysDistinct cols rows) :=
  List.decidableBAll _ cols

/-- The rows of a table after a statement. Nothing is equal to no value. -/
def PreparedStmt.rows (p : PreparedStmt) (cols : DbTable) (rows : List Row) : List Row :=
  match p.statement with
  | .select _ _ => rows
  | .insert _ names => rows ++ [newRow cols names p.params]
  | .update _ col key =>
    rows.map (fun r => if r key = p.params.getD 1 .null ∧ r key ≠ .null then
      Function.update r col (p.params.getD 0 .null) else r)

/-- A database with other rows in a table that is there. -/
def Store.put (store : Store) (table : Bytes) (rows : List Row)
    (hthere : table ∈ store.db.tables.map Prod.fst) : Store where
  db := store.db
  rows := Function.update store.rows table rows
  vacant t ht := by
    have hne : t ≠ table := by
      rintro rfl
      exact ht hthere
    rw [Function.update_of_ne hne]
    exact store.vacant t ht

/-- What a statement that gives no rows does, or `none` where it cannot be done. -/
def Store.execute (store : Store) (p : PreparedStmt) : Option Store :=
  match store.db.tables.lookup p.statement.table with
  | some cols =>
    let rows := p.rows cols (store.rows p.statement.table)
    if h : p.statement.table ∈ store.db.tables.map Prod.fst ∧ KeysDistinct cols rows then
      some (store.put p.statement.table rows h.1)
    else none
  | none => none

/-- The rows a query gives. -/
def Store.select (store : Store) (p : PreparedStmt) : List (List Value) :=
  match p.statement with
  | .select cols table => (store.rows table).map (fun r => cols.map r)
  | _ => []

/-- A row of a table that had the columns `old` and has `cols` now. -/
def refill (old cols : DbTable) (r : Row) : Row := fun name =>
  if name ∈ old.map DbColInfo.name then r name
  else match cols.find? (fun col => col.name = name) with
    | some col => col.default
    | none => .null

/-- The rows once the tables and columns of `db` have been made. -/
def Store.upgrade (store : Store) (db : Database) : Store where
  db := db
  rows table := match db.tables.lookup table with
    | some cols =>
      (store.rows table).map (refill ((store.db.tables.lookup table).getD []) cols)
    | none => []
  vacant table ht := by
    rw [(Catalog.lookup_eq_none_iff _ _).mpr ht]

/-- A number at the beginning of a text, behind blanks and a sign. -/
def leadingInt (text : Bytes) : Int :=
  let number := text.dropWhile (fun c => c = ' ' ∨ (9 ≤ c.toNat ∧ c.toNat ≤ 13))
  let value := fun (digits : Bytes) => (Nat.ofDigitChars 10 (digits.takeWhile Char.isDigit) 0 : Int)
  match number with
  | '-' :: digits => -value digits
  | '+' :: digits => value digits
  | digits => value digits

/-- `sqlite3_column_int`: the low half of an `sqlite3_int64`. -/
def Value.columnInt : Value → Int
  | .null => 0
  | .int n => n.bmod (2 ^ 32)
  | .text s => (max (-2 ^ 63) (min (2 ^ 63 - 1) (leadingInt s))).bmod (2 ^ 32)

/-- `sqlite3_column_text`, as a C string. -/
def Value.columnText : Value → Option Bytes
  | .null => none
  | .int n => some (cStr ((if n < 0 then ['-'] else []) ++ Nat.toDigits 10 n.natAbs))
  | .text s => some (cStr s)

end HttpFileSharing
