import HttpFileSharing.Theory.ScoreRows

/-!
# Setting Up through the Calls

`init_db` asks SQLite for the tables and for the columns of each, compares these with
what it expects and executes what is missing. On a plain database the snapshot it gets
call by call is the one of `Core.Init`, in whatever order the tables come. Without the
table of scores the one statement it executes makes it; with a table of the server it
executes nothing.

## Main definitions

* `Sqlite.View.ServerMade`: A file where a table of scores is one of the server.

## Theorems

* `getDbTablesList_works`, `getColsForTable_works`: The two queries.
* `getActualDbSchema_works`: The snapshot.
* `initDb_missing`, `initDb_scores`: What setting up leaves.
-/

namespace HttpFileSharing

variable {sq : Sqlite} {v : sq.View}

/-- The file is a plain database, and a table of scores in it is one the server has
    made. -/
def Sqlite.View.ServerMade (v : sq.View) (w : sq.World) (loc : v.File) : Prop :=
  ∃ store, v.contents w loc = some store ∧
    (store.db.tables.lookup "stats".toList = none ∨
      ∃ table, Keeps store table ∧ ∀ r ∈ table, IntRange r.2)

section Snapshot

variable (hworks : sq.Works v) (o : sq.Opened) (store : Store) (hstore : v.store o = some store)

include hworks hstore

/-- The names of the tables. -/
theorem getDbTablesList_works :
    (StatsDb.getDbTablesList sq o).1.Perm (getDbTablesList store.db) ∧
      v.Unchanged o (StatsDb.getDbTablesList sq o).2 := by
  rcases hworks.tables o store hstore with ⟨names, hperm, hrows, hsame⟩
  refine ⟨?_, hsame⟩
  have hnames : (StatsDb.getDbTablesList sq o).1 = names := by
    have hread := congrArg (List.map (fun text => (getStr text []).2)) hrows
    rw [List.map_map, List.map_map] at hread
    exact hread.trans (List.map_id names)
  rw [hnames]
  exact hperm

/-- The columns of a table. -/
theorem getColsForTable_works (table : Bytes) (hthere : table ∈ getDbTablesList store.db) :
    (StatsDb.getColsForTable sq o table).1 = getColsForTable store.db table ∧
      v.Unchanged o (StatsDb.getColsForTable sq o table).2 := by
  rcases List.mem_map.mp hthere with ⟨t, ht, rfl⟩
  have hlookup := (Rows.lookup_eq_some_iff_mem _ store.db.distinct t.1 t.2).mpr ht
  have hquery := readTableInfo_append t.1
    (isIdentifier_not_mem (hworks.plain o store hstore t ht).1.1 '\'' (by decide))
  rcases hworks.columns o store _ t.1 t.2 hstore hquery hlookup with ⟨hrows, hsame⟩
  refine ⟨?_, hsame⟩
  have hread := congrArg (List.map (fun texts : Option Bytes × Option Bytes =>
    (⟨(getStr texts.1 []).2, (getStr texts.2 []).2, []⟩ : DbColInfo))) hrows
  rw [List.map_map, List.map_map] at hread
  rw [getColsForTable, tableInfo, hquery, Option.bind_some, hlookup, Option.getD_some]
  exact hread

omit hstore in
/-- The columns of some tables, one after the other. -/
theorem colsForTables_works (tables : List Bytes) (actual : StdMap Bytes DbTable)
    (hstore : v.store o = some store) (hthere : ∀ it ∈ tables, it ∈ getDbTablesList store.db) :
    (StatsDb.colsForTables sq o actual tables).1
        = tables.foldl (fun actual it => StdMap.emplace actual it (getColsForTable store.db it))
          actual ∧
      v.Unchanged o (StatsDb.colsForTables sq o actual tables).2 := by
  induction tables generalizing o actual with
  | nil => exact ⟨rfl, rfl, fun _ => rfl, rfl⟩
  | cons it tables ih =>
      rw [List.forall_mem_cons] at hthere
      rcases getColsForTable_works hworks o store hstore it hthere.1 with ⟨hcols, hsame⟩
      rcases ih (StatsDb.getColsForTable sq o it).2
        (StdMap.emplace actual it (StatsDb.getColsForTable sq o it).1)
        (hsame.store_eq.trans hstore) hthere.2 with ⟨hrest, hsame'⟩
      rw [StatsDb.colsForTables, List.foldl_cons, ← hcols]
      exact ⟨hrest, hsame.trans hsame'⟩

/-- The snapshot is that of the database. -/
theorem getActualDbSchema_works :
    (StatsDb.getActualDbSchema sq o).1 = getActualDbSchema store.db ∧
      v.Unchanged o (StatsDb.getActualDbSchema sq o).2 := by
  rcases getDbTablesList_works hworks o store hstore with ⟨hperm, hsame⟩
  rcases colsForTables_works hworks (StatsDb.getDbTablesList sq o).2 store
    (StatsDb.getDbTablesList sq o).1 ∅ (hsame.store_eq.trans hstore)
    (fun it hit => hperm.mem_iff.mp hit) with ⟨hcols, hsame'⟩
  refine ⟨?_, hsame.trans hsame'⟩
  rw [StatsDb.getActualDbSchema]
  -- The map does not depend on the order the tables come in.
  refine hcols.trans (Finmap.ext_lookup (fun a => ?_))
  rw [getActualDbSchema, StdMap.lookup_foldl_emplace, StdMap.lookup_foldl_emplace,
    find?_self, find?_self]
  simp only [hperm.mem_iff]

end Snapshot

/-- Nothing is executed for a table that has its columns. -/
theorem checkColumns_there {σ : Type} (exec : σ → Bytes → Bool × σ) (s : σ)
    (cols : DbTable) (table : Bytes) (expected : DbTable)
    (h : ∀ col ∈ expected, col.name ∈ cols.map DbColInfo.name) :
    checkColumns exec cols table s expected = s := by
  induction expected with
  | nil => rfl
  | cons col expected ih =>
      rw [List.forall_mem_cons] at h
      rw [checkColumns, if_pos ((doesColumnExist_iff cols col.name).mpr h.1)]
      exact ih h.2

section SetUp

variable (hworks : sq.Works v) (w : sq.World) (cwd : Location) (dbFile : Bytes) (loc : v.File)
  (hplace : v.place cwd dbFile = some (.file loc))

include hworks hplace

/-- Setting up a database without the table makes it, with no rows. -/
theorem initDb_missing (store : Store) (hstore : v.contents w loc = some store)
    (hmissing : store.db.tables.lookup "stats".toList = none) :
    ∃ w', StatsDb.initDb sq w cwd dbFile = .ok w' ∧ v.HasScores w' loc [] ∧
      ∀ other, other ≠ loc → v.contents w' other = v.contents w other := by
  rcases hworks.onFile w cwd dbFile loc store hplace hstore with ⟨o, hopen, ho⟩
  rcases getActualDbSchema_works hworks o store ho.store with ⟨hactual, hsame⟩
  have ho₁ := ho.unchanged hsame
  -- The snapshot does not have the table either.
  have hsnapshot := lookup_getActualDbSchema store.db "stats".toList (by decide)
  rw [hmissing] at hsnapshot
  have hnone := Option.map_eq_none_iff.mp hsnapshot
  have hmem := (Catalog.lookup_eq_none_iff _ _).mp hmissing
  -- The one statement is the `CREATE` of the table, and it can be done.
  have hyields := yields_createTable store.db "stats".toList addInfoOfStats (by decide) hmissing
  rcases hyields.1 trivial with ⟨db, hdb⟩
  have hsimple : SimpleTable ("stats".toList, addInfoOfStats) := by decide
  rcases hworks.makes _ store _ _ db ho₁.store readStatement_createStats hsimple hdb with
    ⟨_, hwritten⟩
  have ho₂ := ho₁.written hwritten
  have hcolumns : db.tables.lookup "stats".toList = some addInfoOfStats := by
    rw [(hyields.2 db hdb).2, Catalog.lookup_append_single _ _ _ _ hmem, if_pos rfl]
  refine ⟨_, ?_, ⟨store.upgrade db, ho₂.closed, hcolumns, ?_, List.nodup_nil⟩, ho₂.others⟩
  · rw [StatsDb.initDb, hopen]
    simp only [StatsDb.checkAddMissingColumns, getExpectedDbSchema, checkTables, hactual, hnone]
    rfl
  · simp only [Store.upgrade, hcolumns, store.vacant _ hmem, List.map_nil]

/-- Setting up a database with the table leaves it. -/
theorem initDb_scores (table : StatsTable) (h : v.HasScores w loc table) :
    ∃ w', StatsDb.initDb sq w cwd dbFile = .ok w' ∧ v.HasScores w' loc table ∧
      ∀ other, other ≠ loc → v.contents w' other = v.contents w other := by
  rcases h with ⟨store, hstore, hkeeps⟩
  rcases hworks.onFile w cwd dbFile loc store hplace hstore with ⟨o, hopen, ho⟩
  rcases getActualDbSchema_works hworks o store ho.store with ⟨hactual, hsame⟩
  have ho₁ := ho.unchanged hsame
  have hsnapshot := lookup_getActualDbSchema store.db "stats".toList (by decide)
  rw [hkeeps.columns] at hsnapshot
  rcases Option.map_eq_some_iff.mp hsnapshot with ⟨cols, hcols, hnames⟩
  -- Both columns are there, so nothing is executed.
  have hidle := checkColumns_there sq.exec (StatsDb.getActualDbSchema sq o).2 cols "stats".toList
    addInfoOfStats (fun col hcol => hnames ▸ List.mem_map_of_mem hcol)
  refine ⟨_, ?_, ⟨store, ho₁.closed, hkeeps⟩, ho₁.others⟩
  rw [StatsDb.initDb, hopen]
  simp only [StatsDb.checkAddMissingColumns, getExpectedDbSchema, checkTables, hactual, hcols,
    hidle]

end SetUp

end HttpFileSharing
