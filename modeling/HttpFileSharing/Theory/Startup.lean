import HttpFileSharing.Theory.Migration

/-!
# Starting on a Database

The schema the server comes with has a single table of two columns, one of them
the primary key, and only the first statement of the check can ever do any
good. A table that is not there is created with both columns at once. In a
table that is there the scores can be added, but the key cannot: the engine
refuses a column that is declared as the primary key.

The check does not look at what the statements return, so the server also
starts where one was refused. What it starts with is decided by the database it
finds and by the fate of that first statement.

## Main definitions

* `ipaddrColumn`, `countColumn`: The two columns.
* `CanStart`: The databases the server can bring up to date.

## Theorems

* `initDb_eq`: The server always starts.
* `hasAll_started_iff`: What it finds then.
* `startup_exact`: When it starts with all it expects.
* `startup_fails`: A table without its key.
-/

namespace HttpFileSharing

/-- The key of the table `stats`. -/
def ipaddrColumn : DbColInfo := ⟨"ipaddr".toList, "TEXT".toList, "PRIMARY KEY".toList⟩

/-- The scores of the table `stats`. -/
def countColumn : DbColInfo := ⟨"count".toList, "INTEGER".toList, "DEFAULT 0".toList⟩

/-- The databases the server can bring up to date: the table is not there and
    is created, or its key is there and so are the scores, or these are added. -/
def CanStart (fails : Nat → Bool) (db : Database) : Prop :=
  match db.tables.lookup "stats".toList with
  | none => fails 0 = false
  | some cols => ipaddrColumn.name ∈ cols.map DbColInfo.name ∧
      (countColumn.name ∈ cols.map DbColInfo.name ∨ fails 0 = false)

/-- The check never ends the process. -/
theorem initDb_eq (fails : Nat → Bool) (db : Database) :
    initDb fails db = some (checkTables (execQuery fails) (getActualDbSchema db) ⟨db, []⟩
      [("stats".toList, addInfoOfStats)]) := rfl

section Statements

variable (fails : Nat → Bool) (s : Session)

theorem readStatement_createStats :
    readStatement (createQuery "stats".toList addInfoOfStats)
      = some (.createTable "stats".toList addInfoOfStats) := by decide +kernel

theorem readStatement_alterStats (col : DbColInfo) (h : col ∈ addInfoOfStats) :
    readStatement (alterQuery "stats".toList col) = some (.addColumn "stats".toList col) := by
  revert col
  decide +kernel

/-- Creating the table. -/
theorem createStats_db (hnew : s.db.tables.lookup "stats".toList = none) :
    (createTable (execQuery fails) s "stats".toList addInfoOfStats).2.db.tables
      = if fails s.issued.length = true then s.db.tables
        else s.db.tables ++ [("stats".toList, addInfoOfStats)] := by
  have hyields := yields_createTable s.db "stats".toList addInfoOfStats (by decide) hnew
  rcases hyields.1 trivial with ⟨after, hafter⟩
  rw [createTable, execQuery_db, readStatement_createStats, Option.bind_some, hafter,
    Option.getD_some]
  split
  · rfl
  · exact (hyields.2 after hafter).2

/-- The key cannot be added. -/
theorem addIpaddr_db : (addColumn (execQuery fails) s "stats".toList ipaddrColumn).2.db = s.db := by
  have hkey : ipaddrColumn.IsPrimaryKey := by decide
  rw [addColumn, execQuery_db, readStatement_alterStats ipaddrColumn List.mem_cons_self]
  split
  · rfl
  · rw [Option.bind_some, Database.apply, dif_neg (fun h => h.2.1 hkey)]
    rfl

/-- Adding the scores to a table that does not have them. -/
theorem addCount_db (cols : DbTable) (hthere : s.db.tables.lookup "stats".toList = some cols)
    (hnew : countColumn.name ∉ cols.map DbColInfo.name) :
    (addColumn (execQuery fails) s "stats".toList countColumn).2.db.tables
      = if fails s.issued.length = true then s.db.tables
        else Catalog.addTo "stats".toList [countColumn] s.db.tables := by
  have hkey : ¬ countColumn.IsPrimaryKey := by decide
  have hyields := yields_addColumn s.db "stats".toList countColumn cols hthere hnew
  rcases hyields.1 hkey with ⟨after, hafter⟩
  rw [addColumn, execQuery_db, readStatement_alterStats countColumn
    (List.mem_cons_of_mem _ List.mem_cons_self), Option.bind_some, hafter, Option.getD_some]
  split
  · rfl
  · exact (hyields.2 after hafter).2

end Statements

section Startup

variable (fails : Nat → Bool) (db : Database)

theorem hasAll_stats_iff :
    HasAll db ("stats".toList, addInfoOfStats) ↔
      ∃ cols, db.tables.lookup "stats".toList = some cols ∧
        ipaddrColumn.name ∈ cols.map DbColInfo.name ∧
        countColumn.name ∈ cols.map DbColInfo.name := by
  have hcolumns : addInfoOfStats = [ipaddrColumn, countColumn] := rfl
  simp only [HasAll, hcolumns, List.forall_mem_cons, List.not_mem_nil, false_imp_iff,
    implies_true, and_true]

/-- The columns of a table that is there, after both were looked for: the scores
    behind the others if they were not there and could be added. -/
theorem checkColumns_stats (actual cols : DbTable)
    (hthere : db.tables.lookup "stats".toList = some cols)
    (hnames : actual.map DbColInfo.name = cols.map DbColInfo.name)
    (hkey : ipaddrColumn.name ∈ cols.map DbColInfo.name) :
    (checkColumns (execQuery fails) actual "stats".toList ⟨db, []⟩ addInfoOfStats).db.tables.lookup
        "stats".toList
      = some (if countColumn.name ∈ cols.map DbColInfo.name ∨ fails 0 = true then cols
          else cols ++ [countColumn]) := by
  have hcolumns : addInfoOfStats = [ipaddrColumn, countColumn] := rfl
  rw [hcolumns, checkColumns, if_pos ((doesColumnExist_iff _ _).mpr (hnames ▸ hkey)),
    checkColumns, checkColumns]
  by_cases hcount : countColumn.name ∈ cols.map DbColInfo.name
  · rw [if_pos ((doesColumnExist_iff _ _).mpr (hnames ▸ hcount)), if_pos (Or.inl hcount)]
    exact hthere
  · have hadd : (addColumn (execQuery fails) ⟨db, []⟩ "stats".toList countColumn).2.db.tables
        = if fails 0 = true then db.tables
          else Catalog.addTo "stats".toList [countColumn] db.tables :=
      addCount_db fails ⟨db, []⟩ cols hthere hcount
    rw [if_neg (fun h => hcount (hnames ▸ (doesColumnExist_iff _ _).mp h)), hadd]
    by_cases hfail : fails 0 = true
    · rw [if_pos hfail, if_pos (Or.inr hfail)]
      exact hthere
    · rw [if_neg hfail, if_neg (not_or.mpr ⟨hcount, hfail⟩), Catalog.lookup_addTo, if_pos rfl,
        hthere, Option.map_some]

/-- Without its key the table stays without its key. -/
theorem checkColumns_keyless (actual cols : DbTable)
    (hthere : db.tables.lookup "stats".toList = some cols)
    (hnames : actual.map DbColInfo.name = cols.map DbColInfo.name)
    (hkey : ipaddrColumn.name ∉ cols.map DbColInfo.name) :
    ∃ cols', (checkColumns (execQuery fails) actual "stats".toList ⟨db, []⟩
          addInfoOfStats).db.tables.lookup "stats".toList = some cols' ∧
        ipaddrColumn.name ∉ cols'.map DbColInfo.name := by
  have hcolumns : addInfoOfStats = [ipaddrColumn, countColumn] := rfl
  rw [hcolumns, checkColumns, if_neg (fun h => hkey (hnames ▸ (doesColumnExist_iff _ _).mp h)),
    checkColumns, checkColumns]
  have hrefused := addIpaddr_db fails ⟨db, []⟩
  generalize (addColumn (execQuery fails) ⟨db, []⟩ "stats".toList ipaddrColumn).2 = s at hrefused ⊢
  have hthere' : s.db.tables.lookup "stats".toList = some cols := by
    rw [hrefused]
    exact hthere
  by_cases hcount : countColumn.name ∈ cols.map DbColInfo.name
  · rw [if_pos ((doesColumnExist_iff _ _).mpr (hnames ▸ hcount))]
    exact ⟨cols, hthere', hkey⟩
  · rw [if_neg (fun h => hcount (hnames ▸ (doesColumnExist_iff _ _).mp h)),
      addCount_db fails s cols hthere' hcount]
    split
    · exact ⟨cols, hthere', hkey⟩
    · refine ⟨cols ++ [countColumn], ?_, ?_⟩
      · rw [Catalog.lookup_addTo, if_pos rfl, hthere', Option.map_some]
      · have hother : ipaddrColumn.name ∉ [countColumn].map DbColInfo.name := by decide
        rw [List.map_append, List.mem_append, not_or]
        exact ⟨hkey, hother⟩

/-- What the server finds once it has started. -/
theorem hasAll_started_iff :
    HasAll (checkTables (execQuery fails) (getActualDbSchema db) ⟨db, []⟩
      [("stats".toList, addInfoOfStats)]).db ("stats".toList, addInfoOfStats) ↔
    CanStart fails db := by
  have hsnapshot := lookup_getActualDbSchema db "stats".toList (by decide)
  rw [checkTables, checkTables, CanStart, hasAll_stats_iff]
  cases hthere : db.tables.lookup "stats".toList with
  | none =>
      rw [hthere] at hsnapshot
      have hcreate :
          (createTable (execQuery fails) ⟨db, []⟩ "stats".toList addInfoOfStats).2.db.tables
          = if fails 0 = true then db.tables
            else db.tables ++ [("stats".toList, addInfoOfStats)] :=
        createStats_db fails ⟨db, []⟩ hthere
      simp only [Option.map_eq_none_iff.mp hsnapshot, hcreate]
      by_cases hfail : fails 0 = true
      · rw [if_pos hfail, hthere, hfail]
        exact iff_of_false (fun h => absurd h.choose_spec.1
          (by simp only [reduceCtorEq, not_false_eq_true])) Bool.noConfusion
      · rw [if_neg hfail, Catalog.lookup_append_single _ _ _ _
          ((Catalog.lookup_eq_none_iff _ _).mp hthere), if_pos rfl]
        exact iff_of_true ⟨addInfoOfStats, rfl, by decide, by decide⟩
          (Bool.eq_false_of_not_eq_true hfail)
  | some cols =>
      rw [hthere] at hsnapshot
      rcases Option.map_eq_some_iff.mp hsnapshot with ⟨actual, hactual, hnames⟩
      simp only [hactual]
      by_cases hkey : ipaddrColumn.name ∈ cols.map DbColInfo.name
      · rw [checkColumns_stats fails db actual cols hthere hnames hkey]
        simp only [Option.some.injEq, exists_eq_left', hkey, true_and]
        by_cases hcount : countColumn.name ∈ cols.map DbColInfo.name
        · rw [if_pos (Or.inl hcount)]
          exact iff_of_true ⟨hkey, hcount⟩ (Or.inl hcount)
        · by_cases hfail : fails 0 = true
          · rw [if_pos (Or.inr hfail), hfail]
            exact iff_of_false (fun h => hcount h.2) (not_or.mpr ⟨hcount, Bool.noConfusion⟩)
          · rw [if_neg (not_or.mpr ⟨hcount, hfail⟩), List.map_append]
            exact iff_of_true ⟨List.mem_append_left _ hkey,
              List.mem_append_right _ (List.mem_singleton_self _)⟩
              (Or.inr (Bool.eq_false_of_not_eq_true hfail))
      · rcases checkColumns_keyless fails db actual cols hthere hnames hkey with
          ⟨cols', hcols', hkey'⟩
        rw [hcols']
        refine iff_of_false ?_ (fun h => hkey h.1)
        rintro ⟨cols'', hcols'', hkey'', -⟩
        rw [← Option.some.inj hcols''] at hkey''
        exact hkey' hkey''

end Startup

/-- **When the server starts with all it expects**: exactly where the table is
    not there and can be created, or is there with its key, and with the scores
    or they can be added. Names compare exactly, as the check compares them; to
    SQLite a table `STATS` is the same one, so its `CREATE` fails. -/
theorem startup_exact (fails : Nat → Bool) (db : Database) :
    (∀ s, initDb fails db = some s → ∀ t ∈ getExpectedDbSchema.tables, HasAll s.db t) ↔
      CanStart fails db := by
  rw [← hasAll_started_iff fails db, initDb_eq]
  constructor
  · exact fun h => h _ rfl _ (List.mem_singleton_self _)
  · intro h s hs t ht
    rw [← Option.some.inj hs, List.mem_singleton.mp ht]
    exact h

/-- The scores without the key. -/
def withoutIpaddr : Database where
  tables := [("stats".toList, [countColumn])]
  distinct := by decide
  columns := by decide

/-- With the scores but without the key the server starts, and the key is not
    there, although no statement failed for a reason of its own. -/
theorem startup_fails :
    ¬ ∀ (fails : Nat → Bool) (db : Database), ∀ s, initDb fails db = some s →
      ∀ t ∈ getExpectedDbSchema.tables, HasAll s.db t := by
  intro h
  have hall := h (fun _ => false) withoutIpaddr _ rfl _ (List.mem_singleton_self _)
  have hkey : ¬ CanStart (fun _ => false) withoutIpaddr := fun h => absurd h.1 (by decide)
  exact hkey ((hasAll_started_iff (fun _ => false) withoutIpaddr).mp hall)

end HttpFileSharing
