import HttpFileSharing.Core.StatsDb
import HttpFileSharing.Theory.Engine
import HttpFileSharing.Theory.Ledger
import HttpFileSharing.Theory.Paths
import HttpFileSharing.Theory.Startup

/-!
# What the Statements Do

The blacklist writes its scores with two statements and loads them with a third.
Their texts name the columns in one order and the values are bound in another, so
that each value gets where it belongs has to be seen from both. Here it is, down to
the characters: on a table the server has made, the three calls are the abstract
ones of `Core.Blacklist`.

A table of the server is one with its two columns, whose rows are those of a list of
addresses with their scores, no address twice. A row is refused exactly where its
address is there already, because the address is the primary key and never without a
value. SQLite gives the rows in any order, which for a load of different addresses is
all the same.

## Main definitions

* `statsRow`: The row of an address and its score.
* `Keeps`: The database has a table of the server with these rows.
* `Sqlite.View.HasScores`: A file has one.

## Theorems

* `readRowStatement_insert`, `readRowStatement_update`, `readRowStatement_select`:
  What the texts say.
* `keysDistinct_iff`: When SQLite is content with the rows.
* `execute_insert`, `execute_update`: What the statements do to the table.
* `insertUpdateStatsDb_eq`: A statement is carried out on the file.
* `insertIntoStatsDb_scores`, `updateInStatsDb_scores`, `getStatsFromDb_scores`: The
  three calls.
* `insertUpdateStatsDb_missing`, `getStatsFromDb_missing`: Without the table.
-/

namespace HttpFileSharing

/-- The row of an address and its score. -/
def statsRow (r : IpAddr × Int) : Row := fun name =>
  if name = "ipaddr".toList then .text r.1.text
  else if name = "count".toList then .int r.2
  else .null

/-- The database has a table of the server, with the rows `table`. -/
structure Keeps (store : Store) (table : StatsTable) : Prop where
  columns : store.db.tables.lookup "stats".toList = some addInfoOfStats
  rows : store.rows "stats".toList = table.map statsRow
  distinct : (table.map Prod.fst).Nodup

theorem readRowStatement_insert :
    readRowStatement StatsDb.insertQuery
      = some (.insert "stats".toList ["count".toList, "ipaddr".toList]) := by decide +kernel

theorem readRowStatement_update :
    readRowStatement StatsDb.updateQuery
      = some (.update "stats".toList "count".toList "ipaddr".toList) := by decide +kernel

theorem readRowStatement_select :
    readRowStatement StatsDb.selectQuery
      = some (.select ["ipaddr".toList, "count".toList] "stats".toList) := by decide +kernel

theorem statsRow_ipaddr (r : IpAddr × Int) : statsRow r "ipaddr".toList = .text r.1.text := by
  rw [statsRow, if_pos rfl]

/-- A text is a different value from another. -/
theorem text_injective : Function.Injective (fun r : IpAddr => Value.text r.text) := by
  rintro ⟨a, ha⟩ ⟨b, hb⟩ h
  simp only [Value.text.injEq] at h
  subst h
  rfl

/-- SQLite is content with rows of different addresses. -/
theorem keysDistinct_iff (table : StatsTable) :
    KeysDistinct addInfoOfStats (table.map statsRow) ↔ (table.map Prod.fst).Nodup := by
  have hkey : ipaddrColumn.IsPrimaryKey := by decide
  have hother : ¬ countColumn.IsPrimaryKey := by decide
  have hvalues : ((table.map statsRow).map (fun r => r ipaddrColumn.name)).filter
      (fun v => v ≠ .null) = (table.map Prod.fst).map (fun r : IpAddr => Value.text r.text) := by
    rw [List.map_map, List.map_map, List.filter_eq_self.mpr]
    · exact List.map_congr_left (fun r _ => statsRow_ipaddr r)
    · intro v hv
      rcases List.mem_map.mp hv with ⟨r, _, rfl⟩
      have hr : (((fun r => r ipaddrColumn.name) ∘ statsRow) r : Value) = .text r.1.text :=
        statsRow_ipaddr r
      rw [hr]
      rfl
  rw [KeysDistinct, show addInfoOfStats = [ipaddrColumn, countColumn] from rfl]
  simp only [List.forall_mem_cons, hkey, hother, forall_true_left, false_imp_iff,
    List.not_mem_nil, implies_true, and_true]
  rw [hvalues]
  exact List.nodup_map_iff text_injective

section Tables

variable (store : Store) (table : StatsTable) (ip : IpAddr) (score : Int)

/-- What is prepared for a text about the table. -/
theorem prepare_keeps (query : Bytes) (statement : RowStatement) (h : Keeps store table)
    (hread : readRowStatement query = some statement) (htable : statement.table = "stats".toList)
    (hcols : ∀ col ∈ statement.cols, col ∈ addInfoOfStats.map DbColInfo.name) :
    store.prepare query = some ⟨statement, List.replicate statement.params .null⟩ := by
  rw [Store.prepare, hread]
  simp only [htable, h.columns]
  rw [if_pos hcols]

/-- Carrying out a statement on the table of the server. -/
theorem execute_eq (statement : RowStatement) (table' : StatsTable) (h : Keeps store table)
    (htable : statement.table = "stats".toList)
    (hrows : (PreparedStmt.mk statement [.int score, .text ip.text]).rows addInfoOfStats
      (table.map statsRow) = table'.map statsRow) :
    (¬ (table'.map Prod.fst).Nodup ∧
      store.execute ⟨statement, [.int score, .text ip.text]⟩ = none) ∨
    ∃ store', store.execute ⟨statement, [.int score, .text ip.text]⟩ = some store' ∧
      Keeps store' table' := by
  have hthere : "stats".toList ∈ store.db.tables.map Prod.fst := by
    by_contra hnot
    have hcolumns := h.columns
    rw [(Catalog.lookup_eq_none_iff _ _).mpr hnot] at hcolumns
    exact absurd hcolumns (by simp only [reduceCtorEq, not_false_eq_true])
  rw [Store.execute]
  simp only [htable, h.columns, h.rows, hrows, keysDistinct_iff]
  by_cases hdistinct : (table'.map Prod.fst).Nodup
  · rw [dif_pos ⟨hthere, hdistinct⟩]
    refine Or.inr ⟨_, rfl, h.columns, ?_, hdistinct⟩
    simp only [Store.put, Function.update_self]
  · rw [dif_neg (fun hboth => hdistinct hboth.2)]
    exact Or.inl ⟨hdistinct, rfl⟩

/-- The row of an `INSERT` has the address and the score where they belong. -/
theorem newRow_insert :
    newRow addInfoOfStats ["count".toList, "ipaddr".toList] [.int score, .text ip.text]
      = statsRow (ip, score) := by
  funext name
  rw [newRow, statsRow]
  by_cases hip : name = "ipaddr".toList
  · rw [if_pos hip, hip]
    rfl
  · by_cases hcount : name = "count".toList
    · rw [if_neg hip, if_pos hcount, hcount]
      rfl
    · -- A row of the table has nothing under any other name.
      have hidx : ["count".toList, "ipaddr".toList].idxOf? name = none := by
        rw [List.idxOf?_eq_none_iff]
        simp only [List.mem_cons, List.not_mem_nil, or_false, not_or]
        exact ⟨hcount, hip⟩
      have hfind : addInfoOfStats.find? (fun col => col.name = name) = none := by
        simp only [List.find?_eq_none, addInfoOfStats, List.mem_cons, List.not_mem_nil, or_false,
          decide_eq_true_eq]
        rintro col (rfl | rfl) heq
        · exact hip heq.symm
        · exact hcount heq.symm
      rw [if_neg hip, if_neg hcount]
      simp only [hidx, hfind]

/-- A row is added if its address is not there. -/
theorem execute_insert (h : Keeps store table) :
    match insertIntoStatsDb table ip score with
    | some table' => ∃ store', store.execute ⟨.insert "stats".toList
        ["count".toList, "ipaddr".toList], [.int score, .text ip.text]⟩ = some store' ∧
        Keeps store' table'
    | none => store.execute ⟨.insert "stats".toList ["count".toList, "ipaddr".toList],
        [.int score, .text ip.text]⟩ = none := by
  have hrows : (PreparedStmt.mk (.insert "stats".toList ["count".toList, "ipaddr".toList])
      [.int score, .text ip.text]).rows addInfoOfStats (table.map statsRow)
      = (table ++ [(ip, score)]).map statsRow := by
    rw [PreparedStmt.rows, List.map_append, List.map_singleton, ← newRow_insert]
  have hkeys : ((table ++ [(ip, score)]).map Prod.fst).Nodup ↔ ip ∉ table.map Prod.fst := by
    rw [List.map_append, List.map_singleton]
    refine ⟨fun hd hmem => ?_, fun hnew => List.Nodup.append h.distinct (List.nodup_singleton ip)
      (List.disjoint_singleton.mpr hnew)⟩
    exact (List.nodup_append.mp hd).2.2 ip hmem ip (List.mem_singleton_self ip) rfl
  rw [insertIntoStatsDb]
  rcases execute_eq store table ip score _ _ h rfl hrows with
    ⟨hnot, hnone⟩ | ⟨store', hsome, hkeeps⟩
  · rw [hkeys, not_not] at hnot
    rw [if_pos hnot]
    exact hnone
  · rw [if_neg (hkeys.mp hkeeps.distinct)]
    exact ⟨store', hsome, hkeeps⟩

/-- The score of an address is changed. -/
theorem execute_update (h : Keeps store table) :
    ∃ store', store.execute ⟨.update "stats".toList "count".toList "ipaddr".toList,
        [.int score, .text ip.text]⟩ = some store' ∧
      Keeps store' (Rows.update table ip score) := by
  have hrows : (PreparedStmt.mk (.update "stats".toList "count".toList "ipaddr".toList)
      [.int score, .text ip.text]).rows addInfoOfStats (table.map statsRow)
      = (Rows.update table ip score).map statsRow := by
    simp only [PreparedStmt.rows, Rows.update, List.map_map]
    refine List.map_congr_left (fun r _ => ?_)
    simp only [Function.comp_apply, statsRow_ipaddr]
    by_cases hr : r.1 = ip
    · -- Only the column of the scores is set.
      rw [if_pos ⟨by rw [hr]; rfl, by simp only [ne_eq, reduceCtorEq, not_false_eq_true]⟩,
        if_pos hr]
      funext name
      rw [statsRow, ← hr]
      by_cases hcount : name = "count".toList
      · rw [hcount, Function.update_self]
        rfl
      · rw [Function.update_of_ne hcount, statsRow, if_neg hcount, if_neg hcount]
    · rw [if_neg (fun hboth => hr (text_injective hboth.1)), if_neg hr]
  have hkeys : ((Rows.update table ip score).map Prod.fst).Nodup := by
    rw [Rows.keys_update]
    exact h.distinct
  exact (execute_eq store table ip score _ _ h rfl hrows).resolve_left (fun hnot => hnot.1 hkeys)

end Tables

section Loading

/-- A number in the range of an `int` is read as it is. -/
theorem columnInt_of_inRange (n : Int) (h : IntRange n) : (Value.int n).columnInt = n := by
  rw [Value.columnInt]
  rcases h with ⟨hlow, hhigh⟩
  exact Int.bmod_eq_of_le_mul_two (by omega) (by omega)

theorem getStr_text (ip : IpAddr) (result : Bytes) :
    getStr (Value.text ip.text).columnText result = (ip.text.length, ip.text) := by
  rw [Value.columnText, cStr_of_nulFree _ ip.nulFree, getStr]

theorem ipAddrOf_text (ip : IpAddr) : StatsDb.ipAddrOf ip.text = ip := by
  rcases ip with ⟨text, hfree⟩
  simp only [StatsDb.ipAddrOf, cStr_of_nulFree _ hfree]

/-- What the query gives of a row. -/
def scoreValues (r : IpAddr × Int) : List Value := [.text r.1.text, .int r.2]

/-- The loop of the load, on the rows of a table of the server. -/
theorem loadRows_eq (table : StatsTable) (hrange : ∀ r ∈ table, IntRange r.2) (ipaddr : Bytes)
    (stats : StatsList) :
    StatsDb.loadRows ((table.map scoreValues).map SqlRow.ofValues) ipaddr stats
      = getStatsFromDb table stats := by
  induction table generalizing ipaddr stats with
  | nil => rfl
  | cons r table ih =>
      rcases r with ⟨ip, count⟩
      have hcount : (SqlRow.ofValues (scoreValues (ip, count))).columnInt 1 = count :=
        columnInt_of_inRange count (hrange (ip, count) List.mem_cons_self)
      have htext : getStr ((SqlRow.ofValues (scoreValues (ip, count))).columnText 0) ipaddr
          = (ip.text.length, ip.text) := getStr_text ip ipaddr
      rw [List.map_cons, List.map_cons, StatsDb.loadRows, getStatsFromDb, htext, hcount]
      by_cases hempty : ip.text.length = 0
      · rw [hempty, if_pos rfl]
        rfl
      · rw [if_neg hempty]
        split
        · rename_i heq
          exact absurd (Prod.mk.inj heq).1 hempty
        · rename_i text _ heq
          rw [← (Prod.mk.inj heq).2, ipAddrOf_text]
          exact ih (fun r hr => hrange r (List.mem_cons_of_mem _ hr)) ip.text _

end Loading

section Calls

variable {sq : Sqlite} {v : sq.View} (hworks : sq.Works v) (w : sq.World) (cwd : Location)
  (dbFile : Bytes) (ip : IpAddr) (score : Int)

/-- The file has a table of the server, with the rows `table`. -/
def Sqlite.View.HasScores (v : sq.View) (w : sq.World) (loc : v.File) (table : StatsTable) : Prop :=
  ∃ store, v.contents w loc = some store ∧ Keeps store table

/-- Both statements have a number for the scores and a text for the addresses. -/
theorem fits_stats (statement : RowStatement) (hscore : IntRange score)
    (hassigned : (PreparedStmt.mk statement [.int score, .text ip.text]).assigned
      = [("count".toList, .int score), ("ipaddr".toList, .text ip.text)]) :
    (PreparedStmt.mk statement [.int score, .text ip.text]).Fits addInfoOfStats := by
  rcases hscore with ⟨hlow, hhigh⟩
  rw [PreparedStmt.Fits, hassigned]
  have hnames : ["count".toList, "ipaddr".toList].Nodup := by decide
  refine ⟨List.cons_ne_nil _ _, hnames,
    List.forall_mem_cons.mpr ⟨?_, List.forall_mem_singleton.mpr ?_⟩⟩
  · exact ⟨countColumn, List.mem_cons_of_mem _ List.mem_cons_self, rfl, rfl, by omega, by omega⟩
  · exact ⟨ipaddrColumn, List.mem_cons_self, rfl, rfl, ip.nulFree⟩

include hworks in
/-- A statement with two parameters is carried out with the score as the first and the
    address as the second. -/
theorem insertUpdateStatsDb_eq (query : Bytes) (statement : RowStatement) (loc : v.File)
    (store : Store) (table : StatsTable) (hplace : v.place cwd dbFile = some (.file loc))
    (hstore : v.contents w loc = some store) (h : Keeps store table) (hscore : IntRange score)
    (hread : readRowStatement query = some statement) (htable : statement.table = "stats".toList)
    (hcols : ∀ col ∈ statement.cols, col ∈ addInfoOfStats.map DbColInfo.name)
    (hparams : statement.params = 2)
    (hassigned : (PreparedStmt.mk statement [.int score, .text ip.text]).assigned
      = [("count".toList, .int score), ("ipaddr".toList, .text ip.text)]) :
    match store.execute ⟨statement, [.int score, .text ip.text]⟩ with
    | some store' => ∃ w',
        StatsDb.insertUpdateStatsDb sq w cwd dbFile query ip score = .ok w' ∧
        v.contents w' loc = some store' ∧
        ∀ other, other ≠ loc → v.contents w' other = v.contents w other
    | none => StatsDb.insertUpdateStatsDb sq w cwd dbFile query ip score = .error .exited := by
  have hprepare := prepare_keeps store table query statement h hread htable hcols
  rw [hparams] at hprepare
  have hcolumns : store.db.tables.lookup statement.table = some addInfoOfStats :=
    htable ▸ h.columns
  -- Opening, preparing and binding leave what is in the file as it is.
  rcases hworks.onFile w cwd dbFile loc store hplace hstore with ⟨o, hopen, ho⟩
  rcases hworks.prepares o store query _ ho.store hprepare with ⟨o₁, hcall₁, hsame₁, hpending₁⟩
  have ho₁ := ho.unchanged hsame₁
  rcases hworks.bindsInt o₁ _ ⟨statement, [.int score, .null]⟩ 1 score hpending₁ rfl hscore.1
    hscore.2 with ⟨o₂, hcall₂, hsame₂, hpending₂⟩
  have ho₂ := ho₁.unchanged hsame₂
  rcases hworks.bindsText o₂ _ ⟨statement, [.int score, .text ip.text]⟩ 2 ip.text hpending₂ rfl
    ip.nulFree with ⟨o₃, hcall₃, hsame₃, hpending₃⟩
  have ho₃ := ho₂.unchanged hsame₃
  have hfits := fits_stats ip score statement hscore hassigned
  rw [StatsDb.insertUpdateStatsDb, hopen, cStr_of_nulFree _ ip.nulFree]
  simp only [hcall₁, hcall₂, hcall₃]
  -- The one step writes, or is refused for a key that is there already.
  cases hexecute : store.execute ⟨statement, [.int score, .text ip.text]⟩ with
  | some store' =>
      rcases hworks.steps o₃ store store' _ _ ho₃.store hpending₃ hcolumns hfits hexecute with
        ⟨o₄, hcall₄, hwritten⟩
      have ho₄ := ho₃.written hwritten
      simp only [hcall₄]
      exact ⟨_, rfl, ho₄.closed, ho₄.others⟩
  | none =>
      have hstep := hworks.stops o₃ store _ _ ho₃.store hpending₃ hcolumns hfits hexecute
      simp only
      split
      · rfl
      · rename_i heq
        rw [heq] at hstep
        exact absurd hstep (by simp only [Bool.true_eq_false, not_false_eq_true])

include hworks in
/-- Without the table nothing can be prepared. -/
theorem insertUpdateStatsDb_missing (query : Bytes) (statement : RowStatement)
    (place : DbPlace v.File) (store : Store) (hplace : v.place cwd dbFile = some place)
    (hfound : v.found w place = some store)
    (hread : readRowStatement query = some statement) (htable : statement.table = "stats".toList)
    (hmissing : store.db.tables.lookup "stats".toList = none) :
    StatsDb.insertUpdateStatsDb sq w cwd dbFile query ip score = .error .exited := by
  rcases hworks.unprepared w cwd dbFile place store hplace hfound hmissing query statement hread
    htable with ⟨o, hopen, hprepare⟩
  rw [StatsDb.insertUpdateStatsDb, hopen]
  simp only
  split
  · rfl
  · rename_i heq
    rw [heq] at hprepare
    exact absurd hprepare (by simp only [Bool.true_eq_false, not_false_eq_true])

variable (loc : v.File) (table : StatsTable) (hplace : v.place cwd dbFile = some (.file loc))
  (h : v.HasScores w loc table)

include hworks hplace h

/-- `_insert_into_stats_db` is the abstract one. -/
theorem insertIntoStatsDb_scores (hscore : IntRange score) :
    match insertIntoStatsDb table ip score with
    | some table' => ∃ w', StatsDb.insertIntoStatsDb sq w cwd dbFile ip score = .ok w' ∧
        v.HasScores w' loc table' ∧ ∀ other, other ≠ loc → v.contents w' other = v.contents w other
    | none => StatsDb.insertIntoStatsDb sq w cwd dbFile ip score = .error .exited := by
  rcases h with ⟨store, hstore, hkeeps⟩
  have hcall := insertUpdateStatsDb_eq hworks w cwd dbFile ip score StatsDb.insertQuery _ loc store
    table hplace hstore hkeeps hscore readRowStatement_insert rfl (by decide) rfl rfl
  have hexecute := execute_insert store table ip score hkeeps
  rw [StatsDb.insertIntoStatsDb]
  cases hinsert : insertIntoStatsDb table ip score with
  | none =>
      rw [hinsert] at hexecute
      rw [hexecute] at hcall
      exact hcall
  | some table' =>
      rw [hinsert] at hexecute
      rcases hexecute with ⟨store', hstore', hkeeps'⟩
      rw [hstore'] at hcall
      rcases hcall with ⟨w', hok, hcontents, hothers⟩
      exact ⟨w', hok, ⟨store', hcontents, hkeeps'⟩, hothers⟩

/-- `_update_in_stats_db` is the abstract one. -/
theorem updateInStatsDb_scores (hscore : IntRange score) :
    ∃ w', StatsDb.updateInStatsDb sq w cwd dbFile ip score = .ok w' ∧
      v.HasScores w' loc (Rows.update table ip score) ∧
      ∀ other, other ≠ loc → v.contents w' other = v.contents w other := by
  rcases h with ⟨store, hstore, hkeeps⟩
  have hcall := insertUpdateStatsDb_eq hworks w cwd dbFile ip score StatsDb.updateQuery _ loc store
    table hplace hstore hkeeps hscore readRowStatement_update rfl (by decide) rfl rfl
  rcases execute_update store table ip score hkeeps with ⟨store', hstore', hkeeps'⟩
  rw [hstore'] at hcall
  rcases hcall with ⟨w', hok, hcontents, hothers⟩
  exact ⟨w', hok, ⟨store', hcontents, hkeeps'⟩, hothers⟩

/-- `_get_stats_from_db` is the abstract one on the rows in some order, and writes
    nothing. -/
theorem getStatsFromDb_scores (stats : StatsList) (hrange : ∀ r ∈ table, IntRange r.2) :
    ∃ table' : StatsTable, table'.Perm table ∧ match getStatsFromDb table' stats with
      | some stats' => ∃ w', StatsDb.getStatsFromDb sq w cwd dbFile stats = .ok (stats', w') ∧
          v.HasScores w' loc table ∧ ∀ other, other ≠ loc → v.contents w' other = v.contents w other
      | none => StatsDb.getStatsFromDb sq w cwd dbFile stats = .error .exited := by
  rcases h with ⟨store, hstore, hkeeps⟩
  have hprepare := prepare_keeps store table StatsDb.selectQuery _ hkeeps readRowStatement_select
    rfl (by decide)
  rcases hworks.onFile w cwd dbFile loc store hplace hstore with ⟨o, hopen, ho⟩
  rcases hworks.prepares o store _ _ ho.store hprepare with ⟨o₁, hcall, hsame, hpending⟩
  have ho₁ := ho.unchanged hsame
  rcases hworks.selects o₁ store _ _ ho₁.store hpending with ⟨rows, hperm, hrows, hsame'⟩
  have hselect : store.select ⟨.select ["ipaddr".toList, "count".toList] "stats".toList, []⟩
      = table.map scoreValues := by
    simp only [Store.select, hkeeps.rows, List.map_map]
    rfl
  rw [hselect] at hperm
  rcases exists_map_of_perm scoreValues rows table hperm with ⟨table', htable', rfl⟩
  have hload := loadRows_eq table' (fun r hr => hrange r (htable'.mem_iff.mp hr)) [] stats
  have ho₂ := ho₁.unchanged hsame'
  refine ⟨table', htable', ?_⟩
  rw [StatsDb.getStatsFromDb, hopen]
  simp only [hcall, hrows, hload]
  cases getStatsFromDb table' stats with
  | none => rfl
  | some stats' => exact ⟨_, rfl, ⟨store, ho₂.closed, hkeeps⟩, ho₂.others⟩

end Calls

section Missing

variable {sq : Sqlite} {v : sq.View}

/-- Without the table nothing is loaded. -/
theorem getStatsFromDb_missing (hworks : sq.Works v) (w : sq.World) (cwd : Location)
    (dbFile : Bytes) (stats : StatsList) (place : DbPlace v.File) (store : Store)
    (hplace : v.place cwd dbFile = some place) (hfound : v.found w place = some store)
    (hmissing : store.db.tables.lookup "stats".toList = none) :
    StatsDb.getStatsFromDb sq w cwd dbFile stats = .error .exited := by
  rcases hworks.unprepared w cwd dbFile place store hplace hfound hmissing StatsDb.selectQuery _
    readRowStatement_select rfl with ⟨o, hopen, hprepare⟩
  rw [StatsDb.getStatsFromDb, hopen]
  simp only
  split
  · rfl
  · rename_i heq
    rw [heq] at hprepare
    exact absurd hprepare (by simp only [Bool.true_eq_false, not_false_eq_true])

end Missing

end HttpFileSharing
