import HttpFileSharing.Core.ProgOptions
import HttpFileSharing.Theory.Engine
import HttpFileSharing.Theory.Paths
import HttpFileSharing.Theory.Statements

/-!
# An Engine on Stores

A `Sqlite` that does what is relied on, so that `Sqlite.Works` asks for nothing that
cannot be had. Its files are stores by their location in the tree, a text is read by
`readRowStatement` and `readStatement`, and nothing fails for a reason of its own.

A database that is not there is made by opening it, as long as the directory it is to
be in is there. A directory cannot be opened as one, and the name `:memory:` stands for
a new and empty database that is in no file and gone when it is closed.

## Main definitions

* `dbPlace`: Where a name leads to.
* `StoreHandle`: An open handle.
* `storeEngine`, `storeView`: The engine and what it works on.

## Theorems

* `plain_apply`: A plain database stays plain.
* `storeEngine_works`: The engine works.
-/

namespace HttpFileSharing

/-- The database files, each with its contents. A file that is not there is as good
    as an empty one. -/
abbrev Disk := Location → Store

/-- The name SQLite gives to the system, which has the working directory in it. -/
def fullName (cwd : Location) (filename : Bytes) : Bytes :=
  if filename.head? = some '/' then filename else pathOf cwd ++ '/' :: filename

/-- The place a name leads to from working directory `cwd`, or `none` where it cannot
    be opened. The last name need not be there, but what it is to be in does. -/
def dbPlace (fs : FileSystem) (cwd : Location) (filename : Bytes) : Option (DbPlace Location) :=
  if cStr filename = ":memory:".toList then some .memory
  else
    let components := (cStr filename).splitOn '/'
    match fs.refuses (fullName cwd (cStr filename)) with
    | some _ => none
    | none =>
      match walk fs.enter (startOf cwd (cStr filename)) (components.dropLast.map moveOf) with
      | .error _ => none
      | .ok loc => match fs.node loc, moveOf (components.getLastD []) with
        | some (.dir _ _ _), .down name => match fs.node (loc ++ [name]) with
          | some (.dir _ _ _) => none
          | _ => some (.file (loc ++ [name]))
        | _, _ => none

/-- What is prepared: a statement about rows, or a query about the database with the
    rows it gives. -/
inductive Pending where
  | none
  | stmt (p : PreparedStmt)
  | listing (rows : List (List Value))

/-- An open handle: the database it is on, and the files. -/
structure StoreHandle where
  place : DbPlace Location
  disk : Disk
  memory : Store
  pending : Pending

namespace StoreHandle

variable (o : StoreHandle)

/-- The database the handle is on. -/
def store : Store :=
  match o.place with
  | .file loc => o.disk loc
  | .memory => o.memory

/-- The handle once that is `store`. -/
def put (store : Store) : StoreHandle :=
  match o.place with
  | .file loc => { o with disk := Function.update o.disk loc store }
  | .memory => { o with memory := store }

/-- The handle with something else prepared. -/
def await (pending : Pending) : StoreHandle := { o with pending := pending }

/-- A text that is prepared. -/
def prepare (query : Bytes) : Bool × StoreHandle :=
  match readRowStatement query with
  | some _ => match o.store.prepare query with
    | some p => (true, o.await (.stmt p))
    | none => (false, o.await .none)
  | none =>
    if query = tablesQuery then
      let rows := (selectTables o.store.db).map (fun name => [.text name])
      (true, o.await (.listing rows))
    else match readTableInfo query with
      | some _ =>
        let rows := (tableInfo o.store.db query).zipIdx.map
          (fun col => [.int col.2, .text col.1.name, .text col.1.colType])
        (true, o.await (.listing rows))
      | none => (false, o.await .none)

/-- A value that is bound. -/
def bind (offset : Nat) (value : Value) : Bool × StoreHandle :=
  match o.pending with
  | .stmt p => match p.bind offset value with
    | some p => (true, o.await (.stmt p))
    | none => (false, o)
  | _ => (false, o)

/-- A statement that is carried out. -/
def step : Bool × StoreHandle :=
  match o.pending with
  | .stmt p => match o.store.execute p with
    | some store => (true, (o.put store).await .none)
    | none => (false, o.await .none)
  | _ => (false, o)

/-- The rows of a query. -/
def rows : List SqlRow × StoreHandle :=
  match o.pending with
  | .stmt p => ((o.store.select p).map SqlRow.ofValues, o.await .none)
  | .listing rows => (rows.map SqlRow.ofValues, o.await .none)
  | .none => ([], o)

/-- A text that is executed. -/
def exec (query : Bytes) : Bool × StoreHandle :=
  match (readStatement query).bind o.store.db.apply with
  | some db => (true, o.put (o.store.upgrade db))
  | none => (false, o)

end StoreHandle

/-- The engine. -/
def storeEngine (fs : FileSystem) : Sqlite where
  World := Disk
  Opened := StoreHandle
  openDb disk cwd name :=
    (dbPlace fs cwd name).map (fun place => ⟨place, disk, Store.fresh, .none⟩)
  prepare := StoreHandle.prepare
  bindInt o offset n := o.bind offset (.int n)
  bindText o offset s := o.bind offset (.text s)
  step := StoreHandle.step
  rows := StoreHandle.rows
  exec := StoreHandle.exec
  close := StoreHandle.disk

/-- A store, if it is a plain database. -/
def Store.plain? (store : Store) : Option Store := if store.Plain then some store else none

/-- What it works on. -/
def storeView (fs : FileSystem) : (storeEngine fs).View where
  File := Location
  place := dbPlace fs
  contents disk loc := (disk loc).plain?
  target := StoreHandle.place
  memory o := o.memory.plain?
  pending o := match o.pending with
    | .stmt p => some p
    | _ => none

section Plain

theorem plain?_eq_some_iff (store store' : Store) :
    store.plain? = some store' ↔ store.Plain ∧ store' = store := by
  rw [Store.plain?]
  by_cases h : store.Plain
  · rw [if_pos h, Option.some.injEq, and_iff_right h]
    exact eq_comm
  · rw [if_neg h]
    exact iff_of_false (by simp only [reduceCtorEq, not_false_eq_true]) (fun hboth => h hboth.1)

theorem plain?_fresh : Store.fresh.plain? = some Store.fresh :=
  (plain?_eq_some_iff _ _).mpr ⟨fun _ ht => absurd ht List.not_mem_nil, rfl⟩

/-- A column added to a table of such columns. -/
theorem simpleTable_add (t : Bytes × DbTable) (col : DbColInfo) (h : SimpleTable t)
    (hcol : col.Simple) (hkey : ¬ col.IsPrimaryKey) : SimpleTable (t.1, t.2 ++ [col]) := by
  rcases h with ⟨hname, _, hall, hone⟩
  refine ⟨hname, List.append_ne_nil_of_right_ne_nil _ (List.cons_ne_nil _ _), ?_, ?_⟩
  · intro c hc
    rcases List.mem_append.mp hc with hc | hc
    · exact hall c hc
    · exact List.mem_singleton.mp hc ▸ hcol
  · rw [List.filter_append, List.filter_cons_of_neg (by rwa [decide_eq_true_eq]), List.filter_nil,
      List.append_nil]
    exact hone

/-- A plain database stays plain. -/
theorem plain_apply (store : Store) (st : Statement) (db : Database) (h : store.Plain)
    (hst : st.Simple) (happly : store.db.apply st = some db) : ∀ t ∈ db.tables, SimpleTable t := by
  cases st with
  | createTable table cols =>
      rw [Database.apply] at happly
      split at happly
      · rw [← Option.some.inj happly]
        intro t ht
        rcases List.mem_append.mp ht with ht | ht
        · exact h t ht
        · exact List.mem_singleton.mp ht ▸ hst
      · exact absurd happly (by simp only [reduceCtorEq, not_false_eq_true])
  | addColumn table col =>
      rw [Database.apply] at happly
      split at happly
      · rename_i hadd
        rw [← Option.some.inj happly]
        intro t ht
        rcases List.mem_map.mp ht with ⟨r, hr, rfl⟩
        -- The table that gets the column, or another.
        split
        · exact simpleTable_add r col (h r hr) hst.2 hadd.2.1
        · exact h r hr
      · exact absurd happly (by simp only [reduceCtorEq, not_false_eq_true])

/-- Rows change no table. -/
theorem execute_db (store store' : Store) (p : PreparedStmt)
    (h : store.execute p = some store') : store'.db = store.db := by
  rw [Store.execute] at h
  split at h
  · simp only at h
    split at h
    · rw [← Option.some.inj h]
      rfl
    · exact absurd h (by simp only [reduceCtorEq, not_false_eq_true])
  · exact absurd h (by simp only [reduceCtorEq, not_false_eq_true])

end Plain

section Handle

variable (fs : FileSystem) (o : StoreHandle)

/-- What an open handle sees is its store, if that is plain. -/
theorem storeView_store : (storeView fs).store o = o.store.plain? := by
  rcases o with ⟨place, disk, memory, pending⟩
  cases place <;> rfl

theorem storeView_seen (store : Store) (h : (storeView fs).store o = some store) :
    o.store.Plain ∧ store = o.store := by
  rw [storeView_store, plain?_eq_some_iff] at h
  exact h

/-- What is prepared changes no file. -/
theorem storeView_unchanged (pending : Pending) :
    (storeView fs).Unchanged o (o.await pending) :=
  ⟨rfl, fun _ => rfl, rfl⟩

/-- Only the database the handle is on is written. -/
theorem storeView_written (store : Store) (pending : Pending) (h : store.Plain) :
    (storeView fs).Written o ((o.put store).await pending) store := by
  have hplain : store.plain? = some store := (plain?_eq_some_iff store store).mpr ⟨h, rfl⟩
  rcases o with ⟨place, disk, memory, before⟩
  cases place with
  | file loc =>
      -- The files are a function, changed at one place.
      refine ⟨rfl, ?_, fun (other : Location) hother => ?_⟩
      · change (Function.update disk loc store loc).plain? = some store
        rw [Function.update_self, hplain]
      · have hne : other ≠ loc := fun heq => hother (congrArg DbPlace.file heq.symm)
        have hsame : Function.update disk loc store other = disk other :=
          Function.update_of_ne hne _ _
        exact congrArg Store.plain? hsame
  | memory => exact ⟨rfl, hplain, fun _ _ => rfl⟩

/-- A statement that is pending. -/
theorem pending_eq (p : PreparedStmt) (h : (storeView fs).pending o = some p) :
    o.pending = .stmt p := by
  rcases o with ⟨place, disk, memory, pending⟩
  cases pending with
  | stmt p' => rw [Option.some.inj (show some p' = some p from h)]
  | none | listing rows =>
      exact absurd (show none = some p from h) (by simp only [reduceCtorEq, not_false_eq_true])

end Handle

namespace StoreHandle

variable (o : StoreHandle) (query : Bytes)

theorem prepare_eq (p : PreparedStmt) (h : o.store.prepare query = some p) :
    o.prepare query = (true, o.await (.stmt p)) := by
  rw [StoreHandle.prepare]
  cases hread : readRowStatement query with
  | none =>
      rw [Store.prepare, hread] at h
      exact absurd h (by simp only [reduceCtorEq, not_false_eq_true])
  | some statement => simp only [h]

theorem prepare_missing (statement : RowStatement) (hread : readRowStatement query = some statement)
    (hmissing : o.store.db.tables.lookup statement.table = none) : (o.prepare query).1 = false := by
  have hprepare : o.store.prepare query = none := by
    rw [Store.prepare, hread]
    simp only [hmissing]
  rw [StoreHandle.prepare, hread]
  simp only [hprepare]

theorem bind_eq (p p' : PreparedStmt) (offset : Nat) (value : Value) (h : o.pending = .stmt p)
    (hbind : p.bind offset value = some p') : o.bind offset value = (true, o.await (.stmt p')) := by
  rw [StoreHandle.bind, h]
  simp only [hbind]

theorem step_eq (p : PreparedStmt) (store : Store) (h : o.pending = .stmt p)
    (hexecute : o.store.execute p = some store) : o.step = (true, (o.put store).await .none) := by
  rw [StoreHandle.step, h]
  simp only [hexecute]

theorem step_refused (p : PreparedStmt) (h : o.pending = .stmt p)
    (hexecute : o.store.execute p = none) : o.step.1 = false := by
  rw [StoreHandle.step, h]
  simp only [hexecute]

theorem rows_eq (p : PreparedStmt) (h : o.pending = .stmt p) :
    o.rows = ((o.store.select p).map SqlRow.ofValues, o.await .none) := by
  rw [StoreHandle.rows, h]

/-- The query for the tables says nothing about rows. -/
theorem readRowStatement_tables : readRowStatement tablesQuery = none := by decide +kernel

/-- The first column of what it gives. -/
theorem rows_tables (h : o.store.Plain) :
    (o.prepare tablesQuery).2.rows.1.map (fun row => row.columnText 0)
        = (selectTables o.store.db).map some ∧
      (o.prepare tablesQuery).2.rows.2 = o.await .none := by
  have hrows : (o.prepare tablesQuery).2.rows
      = (((selectTables o.store.db).map (fun name => [Value.text name])).map SqlRow.ofValues,
        o.await .none) := by
    rw [StoreHandle.prepare, readRowStatement_tables]
    rfl
  rw [hrows, List.map_map, List.map_map]
  refine ⟨List.map_congr_left (fun name hname => ?_), rfl⟩
  rcases List.mem_map.mp hname with ⟨t, ht, rfl⟩
  exact congrArg some (cStr_of_nulFree _ (isIdentifier_not_mem (h t ht).1.1 '\x00' (by decide)))

/-- Nor does the query for the columns of a table. -/
theorem readRowStatement_tableInfo (table : Bytes) (h : readTableInfo query = some table) :
    readRowStatement query = none := by
  have hprefix : "PRAGMA table_info('".toList <+: query := by
    rw [readTableInfo, dropKeyword] at h
    by_contra hnot
    rw [if_neg hnot] at h
    exact absurd h (by simp only [reduceCtorEq, not_false_eq_true])
  have hquote : '\'' ∈ "PRAGMA table_info('".toList := by decide
  rcases hprefix with ⟨rest, rfl⟩
  rw [readRowStatement]
  -- Its quote is still there without a semicolon at the end.
  refine if_neg (fun hplain => hplain.1 '\'' ?_ (by decide))
  split
  · rename_i hlast
    have hrest : rest ≠ [] := by
      rintro rfl
      exact absurd hlast (by decide)
    rw [List.dropLast_append_of_ne_nil hrest]
    exact List.mem_append_left _ hquote
  · exact List.mem_append_left _ hquote

/-- The second and the third column of what that one gives. -/
theorem rows_columns (h : o.store.Plain) (table : Bytes) (cols : DbTable)
    (hread : readTableInfo query = some table)
    (hthere : o.store.db.tables.lookup table = some cols) :
    (o.prepare query).2.rows.1.map (fun row => (row.columnText 1, row.columnText 2))
        = cols.map (fun col => (some col.name, some col.colType)) ∧
      (o.prepare query).2.rows.2 = o.await .none := by
  have hother : query ≠ tablesQuery := by
    rintro rfl
    rw [show readTableInfo tablesQuery = none by decide] at hread
    exact absurd hread (by simp only [reduceCtorEq, not_false_eq_true])
  have hrows : (o.prepare query).2.rows
      = ((cols.zipIdx.map (fun col => [.int col.2, .text col.1.name, .text col.1.colType])).map
          SqlRow.ofValues, o.await .none) := by
    rw [StoreHandle.prepare, readRowStatement_tableInfo query table hread]
    simp only [if_neg hother, hread, tableInfo, Option.bind_some, hthere, Option.getD_some]
    rfl
  have hsimple : ∀ col ∈ cols, col.Simple :=
    (h (table, cols) ((Rows.lookup_eq_some_iff_mem _ o.store.db.distinct _ _).mp hthere)).2.2.1
  rw [hrows, List.map_map, List.map_map]
  refine ⟨?_, rfl⟩
  rw [← List.zipIdx_map_fst 0 cols, List.map_map, List.zipIdx_map_fst]
  refine List.map_congr_left (fun col hcol => ?_)
  -- No text is cut off.
  rcases hsimple col.1 (List.fst_mem_of_mem_zipIdx hcol) with ⟨hname, htype⟩
  have hname' := isIdentifier_not_mem hname.1 '\x00' (by decide)
  have htype' : '\x00' ∉ col.1.colType := by
    rcases htype with ⟨heq, _⟩ | ⟨heq, _⟩ <;>
      · rw [heq]
        decide
  exact congrArg₂ Prod.mk (congrArg some (cStr_of_nulFree _ hname'))
    (congrArg some (cStr_of_nulFree _ htype'))

theorem exec_eq (st : Statement) (db : Database) (hread : readStatement query = some st)
    (happly : o.store.db.apply st = some db) :
    o.exec query = (true, o.put (o.store.upgrade db)) := by
  rw [StoreHandle.exec, hread, Option.bind_some]
  simp only [happly]

theorem exec_refused (st : Statement) (hread : readStatement query = some st)
    (happly : o.store.db.apply st = none) : o.exec query = (false, o) := by
  rw [StoreHandle.exec, hread, Option.bind_some]
  simp only [happly]

end StoreHandle

/-- **The engine works.** -/
theorem storeEngine_works (fs : FileSystem) : (storeEngine fs).Works (storeView fs) where
  opens w cwd name place hplace := by
    refine ⟨⟨place, w, Store.fresh, .none⟩, ?_, rfl, fun _ => rfl, ?_⟩
    · exact congrArg (Option.map _) hplace
    · rw [storeView_store]
      cases place with
      | file loc => rfl
      | memory => exact plain?_fresh
  refuses w cwd name hplace := congrArg (Option.map _) hplace
  plain o store hstore := by
    rcases storeView_seen fs o store hstore with ⟨hplain, rfl⟩
    exact hplain
  prepares o store query p hstore hprepare := by
    rcases storeView_seen fs o store hstore with ⟨_, rfl⟩
    exact ⟨_, StoreHandle.prepare_eq o query p hprepare, storeView_unchanged fs o _, rfl⟩
  missing o store query statement hstore hread _ hmissing := by
    rcases storeView_seen fs o store hstore with ⟨_, rfl⟩
    exact StoreHandle.prepare_missing o query statement hread hmissing
  bindsInt o p p' i n hpending hbind _ _ :=
    ⟨_, StoreHandle.bind_eq o p p' i (.int n) (pending_eq fs o p hpending) hbind,
      storeView_unchanged fs o _, rfl⟩
  bindsText o p p' i s hpending hbind _ :=
    ⟨_, StoreHandle.bind_eq o p p' i (.text s) (pending_eq fs o p hpending) hbind,
      storeView_unchanged fs o _, rfl⟩
  steps o store store' p cols hstore hpending _ _ hexecute := by
    rcases storeView_seen fs o store hstore with ⟨hplain, rfl⟩
    have hplain' : store'.Plain := by
      rw [Store.Plain, execute_db _ _ _ hexecute]
      exact hplain
    exact ⟨_, StoreHandle.step_eq o p store' (pending_eq fs o p hpending) hexecute,
      storeView_written fs o store' _ hplain'⟩
  stops o store p cols hstore hpending _ _ hexecute := by
    rcases storeView_seen fs o store hstore with ⟨_, rfl⟩
    exact StoreHandle.step_refused o p (pending_eq fs o p hpending) hexecute
  selects o store cols table hstore hpending := by
    rcases storeView_seen fs o store hstore with ⟨_, rfl⟩
    have hrows := StoreHandle.rows_eq o _ (pending_eq fs o _ hpending)
    refine ⟨_, List.Perm.refl _, congrArg Prod.fst hrows, ?_⟩
    exact (congrArg Prod.snd hrows).symm ▸ storeView_unchanged fs o _
  tables o store hstore := by
    rcases storeView_seen fs o store hstore with ⟨hplain, rfl⟩
    rcases StoreHandle.rows_tables o hplain with ⟨hnames, hafter⟩
    exact ⟨_, List.Perm.refl _, hnames, hafter.symm ▸ storeView_unchanged fs o _⟩
  columns o store query table cols hstore hread hthere := by
    rcases storeView_seen fs o store hstore with ⟨hplain, rfl⟩
    rcases StoreHandle.rows_columns o query hplain table cols hread hthere with ⟨hcols, hafter⟩
    exact ⟨hcols, hafter.symm ▸ storeView_unchanged fs o _⟩
  makes o store query st db hstore hread hst happly := by
    rcases storeView_seen fs o store hstore with ⟨hplain, rfl⟩
    have hexec := StoreHandle.exec_eq o query st db hread happly
    have hplain' : (o.store.upgrade db).Plain := plain_apply o.store st db hplain hst happly
    refine ⟨congrArg Prod.fst hexec, (congrArg Prod.snd hexec).symm ▸ ?_⟩
    exact storeView_written fs o _ (o.put (o.store.upgrade db)).pending hplain'
  keeps o store query st hstore hread hst happly := by
    rcases storeView_seen fs o store hstore with ⟨_, rfl⟩
    have hexec := StoreHandle.exec_refused o query st hread happly
    exact ⟨congrArg Prod.fst hexec,
      (congrArg Prod.snd hexec).symm ▸ storeView_unchanged fs o o.pending⟩

end HttpFileSharing
