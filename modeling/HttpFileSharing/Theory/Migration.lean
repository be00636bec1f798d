import HttpFileSharing.Theory.Statements

/-!
# Bringing a Database up to Date

What the check for missing tables and columns makes of a database. If every
statement succeeds, every expected table is there afterwards with all its
columns, everything that was there is still there in the same order, and there
is nothing left to do.

The loops look at the snapshot alone, which is taken once, and at nothing a
statement returns. So what they issue is settled before the first statement
runs: a plan, which is executed to its end whatever becomes of its parts. It
stays the right plan, since the keys of the expected schema are distinct, no
statement is about a table that is still to be looked up, and within a table the
columns to be added are those that it does not have.

A plan is carried out where no statement fails for a reason of its own and no
column is to be added that is the primary key, and nowhere else.

The names are identifiers. A column may also be called `COLUMN`, which is a word,
but where it is to be added the word is read as the one that may stand in front of
a column, so another column is added, and the next start adds it again.

## Main definitions

* `WellFormed`, `WellWorded`: The tables that are considered, and all whose names
  are words.
* `Session.Succeeded`: Every statement issued has succeeded.
* `plan`, `Statement.query`: What the loops are to do, and the texts of it.
* `Addable`: What is missing of a table can be added.
* `broughtUp`: The tables with one of them brought up to date.
* `HasAll`: A table is there with all its columns.
* `Migrated`: The database is up to date and nothing else has changed.

## Theorems

* `execAll_succeeded_iff`: When texts succeed, and what they make of a database.
* `checkTables_eq`: The loops execute a plan.
* `checkTables_idle`: Nothing is issued where nothing is missing.
* `planTable_iff`, `plan_iff`: When a plan is carried out, and what it does.
* `lookup_getActualDbSchema`: The snapshot.
* `migration_exact`: The check is complete and changes nothing else.
* `migration_keyword`: A column called `COLUMN`.
-/

namespace HttpFileSharing

/-- A table with an identifier for its name and at least one column, each with a
    name of its own. -/
structure WellFormed (t : Bytes × DbTable) : Prop where
  table : isIdentifier t.1 = true
  ne : t.2 ≠ []
  distinct : (t.2.map DbColInfo.name).Nodup
  columns : ∀ c ∈ t.2, IsColumn c

/-- The same with words for names and types, and any text for a constraint. -/
structure WellWorded (t : Bytes × DbTable) : Prop where
  table : IsWord t.1
  ne : t.2 ≠ []
  distinct : (t.2.map DbColInfo.name).Nodup
  texts : ∀ c ∈ t.2, IsWord c.name ∧ IsWord c.colType ∧ IsText c.constraint

/-- Every statement issued has succeeded. -/
def Session.Succeeded (s : Session) : Prop := ∀ q ∈ s.issued, q.2 = true

instance (s : Session) : Decidable s.Succeeded :=
  inferInstanceAs (Decidable (∀ q ∈ s.issued, _))

/-- The table is there with all its columns. -/
def HasAll (db : Database) (t : Bytes × DbTable) : Prop :=
  ∃ cols, db.tables.lookup t.1 = some cols ∧ ∀ col ∈ t.2, col.name ∈ cols.map DbColInfo.name

/-- The columns of a table that are not among those of the names given. -/
def missing (there : List Bytes) (cols : DbTable) : DbTable :=
  cols.filter (fun col => col.name ∉ there)

/-- What is missing of the table can be added to what is there of it. -/
def Addable (db : Database) (t : Bytes × DbTable) : Prop :=
  ∀ there, db.tables.lookup t.1 = some there →
    ∀ col ∈ missing (there.map DbColInfo.name) t.2, ¬ col.IsPrimaryKey

/-- The text of a statement. -/
def Statement.query : Statement → Bytes
  | .createTable table cols => createQuery table cols
  | .addColumn table col => alterQuery table col

/-- What is to be done for a table, by the names of its columns that are there. -/
def planTable (there : Option (List Bytes)) (t : Bytes × DbTable) : List Statement :=
  match there with
  | some names => (missing names t.2).map (.addColumn t.1)
  | none => [.createTable t.1 t.2]

/-- What is to be done for all the tables. -/
def plan (there : Bytes → Option (List Bytes)) (entries : List (Bytes × DbTable)) :
    List Statement :=
  entries.flatMap (fun t => planTable (there t.1) t)

/-- The tables after one of them was brought up to date. -/
def broughtUp (tables : List (Bytes × DbTable)) (t : Bytes × DbTable) :
    List (Bytes × DbTable) :=
  match tables.lookup t.1 with
  | some there => Catalog.addTo t.1 (missing (there.map DbColInfo.name) t.2) tables
  | none => tables ++ [t]

/-- The names of the columns of a table, by a database or by a snapshot of it. -/
def Database.names (db : Database) (a : Bytes) : Option (List Bytes) :=
  (db.tables.lookup a).map (List.map DbColInfo.name)

def snapshotNames (actual : StdMap Bytes DbTable) (a : Bytes) : Option (List Bytes) :=
  (Finmap.lookup a actual).map (List.map DbColInfo.name)

/-- Executing one text after the other. -/
def execAll (fails : Nat → Bool) (s : Session) : List Bytes → Session
  | [] => s
  | query :: rest => execAll fails (execQuery fails s query).2 rest

/-- What one statement after the other does, or `none` where one is refused. -/
def Database.applyAll (db : Database) : List Statement → Option Database
  | [] => some db
  | st :: rest => (db.apply st).bind (fun db => db.applyAll rest)

section Execution

variable (fails : Nat → Bool)

theorem succeeded_append (issued : List (Bytes × Bool)) (db : Database) (q : Bytes × Bool) :
    (Session.mk db (issued ++ [q])).Succeeded ↔ (∀ r ∈ issued, r.2 = true) ∧ q.2 = true := by
  simp only [Session.Succeeded, List.mem_append, List.mem_singleton, or_imp, forall_and,
    forall_eq]

/-- What a statement makes of the database, whether it succeeds or not. -/
theorem execQuery_db (s : Session) (query : Bytes) :
    (execQuery fails s query).2.db = if fails s.issued.length = true then s.db
      else ((readStatement query).bind s.db.apply).getD s.db := by
  rw [execQuery]
  split
  · rfl
  · cases (readStatement query).bind s.db.apply <;> rfl

theorem length_execQuery (s : Session) (query : Bytes) :
    (execQuery fails s query).2.issued.length = s.issued.length + 1 := by
  rw [execQuery]
  split
  · exact List.length_append
  · split <;> exact List.length_append

section Says

variable (s : Session) (query : Bytes) (st : Statement) (hread : readStatement query = some st)

include hread

/-- A text that succeeded did what it says. -/
theorem execQuery_succeeded (h : (execQuery fails s query).2.Succeeded) :
    s.Succeeded ∧ fails s.issued.length = false ∧
      s.db.apply st = some (execQuery fails s query).2.db := by
  revert h
  rw [execQuery, hread, Option.bind_some]
  by_cases hfail : fails s.issued.length = true
  · rw [if_pos hfail]
    exact fun h => absurd ((succeeded_append _ _ _).mp h).2 Bool.false_ne_true
  · rw [if_neg hfail]
    cases s.db.apply st with
    | none => exact fun h => absurd ((succeeded_append _ _ _).mp h).2 Bool.false_ne_true
    | some db =>
        exact fun h => ⟨((succeeded_append _ _ _).mp h).1, Bool.eq_false_of_not_eq_true hfail, rfl⟩

/-- A text succeeds where it does not fail for a reason of its own and is not
    refused. -/
theorem succeeded_execQuery (hs : s.Succeeded) (hfail : fails s.issued.length = false)
    (db : Database) (happly : s.db.apply st = some db) :
    (execQuery fails s query).2.Succeeded ∧ (execQuery fails s query).2.db = db := by
  rw [execQuery, hfail, if_neg Bool.false_ne_true, hread, Option.bind_some, happly]
  exact ⟨(succeeded_append _ _ _).mpr ⟨hs, rfl⟩, rfl⟩

end Says

theorem length_execAll (queries : List Bytes) (s : Session) :
    (execAll fails s queries).issued.length = s.issued.length + queries.length := by
  induction queries generalizing s with
  | nil => rfl
  | cons query rest ih =>
      rw [execAll, ih, length_execQuery, List.length_cons, Nat.add_assoc, Nat.add_comm 1]

theorem execAll_append (queries more : List Bytes) (s : Session) :
    execAll fails s (queries ++ more) = execAll fails (execAll fails s queries) more := by
  induction queries generalizing s with
  | nil => rfl
  | cons query rest ih =>
      rw [List.cons_append, execAll, execAll]
      exact ih _

section Plan

variable (sts : List Statement) (hread : ∀ st ∈ sts, readStatement st.query = some st)

include hread

/-- Where all has succeeded, no statement failed for a reason of its own and none was
    refused, and all that was there before had succeeded. -/
theorem execAll_succeeded (s : Session)
    (h : (execAll fails s (sts.map Statement.query)).Succeeded) :
    s.Succeeded ∧
      (∀ n, s.issued.length ≤ n → n < s.issued.length + sts.length → fails n = false) ∧
      s.db.applyAll sts = some (execAll fails s (sts.map Statement.query)).db := by
  induction sts generalizing s with
  | nil => exact ⟨h, fun n hle hlt => absurd hlt (Nat.not_lt.mpr hle), rfl⟩
  | cons st rest ih =>
      rw [List.map_cons, execAll] at h ⊢
      rcases ih (fun st hst => hread st (List.mem_cons_of_mem _ hst)) _ h with ⟨hs, hrest, hall⟩
      rcases execQuery_succeeded fails s st.query st (hread st List.mem_cons_self) hs with
        ⟨hs, hhere, happly⟩
      rw [length_execQuery] at hrest
      refine ⟨hs, fun n hle hlt => ?_, by rw [Database.applyAll, happly, Option.bind_some, hall]⟩
      rw [List.length_cons] at hlt
      rcases Nat.lt_or_eq_of_le hle with hlater | rfl
      · exact hrest n hlater (by omega)
      · exact hhere

/-- All succeeds where no statement fails for a reason of its own and none is
    refused. -/
theorem succeeded_execAll (s : Session) (hs : s.Succeeded)
    (hnone : ∀ n, s.issued.length ≤ n → n < s.issued.length + sts.length → fails n = false)
    (db : Database) (hall : s.db.applyAll sts = some db) :
    (execAll fails s (sts.map Statement.query)).Succeeded ∧
      (execAll fails s (sts.map Statement.query)).db = db := by
  induction sts generalizing s with
  | nil => exact ⟨hs, Option.some.inj hall⟩
  | cons st rest ih =>
      rw [List.length_cons] at hnone
      rcases Option.bind_eq_some_iff.mp hall with ⟨mid, happly, hall⟩
      have hfirst := succeeded_execQuery fails s st.query st (hread st List.mem_cons_self) hs
        (hnone _ (Nat.le_refl _) (by omega)) mid happly
      have hlength := length_execQuery fails s st.query
      exact ih (fun st hst => hread st (List.mem_cons_of_mem _ hst)) _ hfirst.1
        (fun n hle hlt => hnone n (by omega) (by omega)) (hfirst.2 ▸ hall)

end Plan

end Execution

section Loops

variable (fails : Nat → Bool)

theorem doesColumnExist_iff (cols : DbTable) (name : Bytes) :
    doesColumnExist cols name = true ↔ name ∈ cols.map DbColInfo.name := by
  induction cols with
  | nil => simp only [doesColumnExist, Bool.false_eq_true, List.map_nil, List.not_mem_nil]
  | cons col cols ih =>
      rw [doesColumnExist, List.map_cons, List.mem_cons]
      split
      · rename_i hname
        exact iff_of_true rfl (Or.inl hname.symm)
      · rename_i hname
        rw [ih, or_iff_right (fun h => hname h.symm)]

/-- The inner loop executes what is missing of a table. -/
theorem checkColumns_eq (actual : DbTable) (table : Bytes) (cols : DbTable) (s : Session) :
    checkColumns (execQuery fails) actual table s cols
      = execAll fails s ((missing (actual.map DbColInfo.name) cols).map (alterQuery table)) := by
  induction cols generalizing s with
  | nil => rfl
  | cons col cols ih =>
      rw [checkColumns, ih, missing, missing]
      by_cases hthere : doesColumnExist actual col.name = true
      · have hmem := (doesColumnExist_iff actual col.name).mp hthere
        rw [if_pos hthere, List.filter_cons_of_neg (by rwa [decide_eq_true_eq, not_not])]
      · have hmem := fun h => hthere ((doesColumnExist_iff actual col.name).mpr h)
        rw [if_neg hthere, List.filter_cons_of_pos (by rwa [decide_eq_true_eq]), List.map_cons,
          execAll]
        rfl

/-- The loops execute a plan. -/
theorem checkTables_eq (actual : StdMap Bytes DbTable) (entries : List (Bytes × DbTable))
    (s : Session) :
    checkTables (execQuery fails) actual s entries
      = execAll fails s ((plan (snapshotNames actual) entries).map Statement.query) := by
  induction entries generalizing s with
  | nil => rfl
  | cons t rest ih =>
      rw [checkTables, ih, plan, plan, List.flatMap_cons, List.map_append, execAll_append]
      congr 1
      rw [snapshotNames]
      cases Finmap.lookup t.1 actual with
      | none => rfl
      | some cols =>
          simp only [Option.map_some, planTable, List.map_map]
          exact checkColumns_eq fails cols t.1 t.2 s

theorem missing_eq_nil (there : List Bytes) (cols : DbTable) (h : ∀ col ∈ cols, col.name ∈ there) :
    missing there cols = [] :=
  List.filter_eq_nil_iff.mpr (fun col hcol => by
    rw [decide_eq_true_eq, not_not]
    exact h col hcol)

/-- Nothing is issued where nothing is missing. -/
theorem checkTables_idle (actual : StdMap Bytes DbTable) (entries : List (Bytes × DbTable))
    (h : ∀ t ∈ entries, ∃ cols, Finmap.lookup t.1 actual = some cols ∧
      ∀ col ∈ t.2, col.name ∈ cols.map DbColInfo.name) (s : Session) :
    checkTables (execQuery fails) actual s entries = s := by
  have hplan : plan (snapshotNames actual) entries = [] := by
    refine List.flatMap_eq_nil_iff.mpr (fun t ht => ?_)
    rcases h t ht with ⟨cols, hlookup, hall⟩
    rw [snapshotNames, hlookup, Option.map_some, planTable, missing_eq_nil _ _ hall, List.map_nil]
  rw [checkTables_eq, hplan]
  rfl

end Loops

section Snapshot

/-- Searching for an element finds it. -/
theorem find?_self (xs : List Bytes) (a : Bytes) :
    xs.find? (fun x => x = a) = if a ∈ xs then some a else none := by
  by_cases hmem : a ∈ xs
  · have hsome : (xs.find? (fun x => x = a)).isSome = true :=
      List.find?_isSome.mpr ⟨a, hmem, decide_eq_true rfl⟩
    rcases Option.isSome_iff_exists.mp hsome with ⟨x, hx⟩
    have hxa := List.find?_some hx
    rw [if_pos hmem, hx, of_decide_eq_true hxa]
  · rw [if_neg hmem]
    exact List.find?_eq_none.mpr (fun x hx heq => hmem (of_decide_eq_true heq ▸ hx))

/-- The snapshot of a database finds what the database does, with the names of
    the columns. -/
theorem lookup_getActualDbSchema (db : Database) (a : Bytes) (h : '\'' ∉ a) :
    (Finmap.lookup a (getActualDbSchema db)).map (List.map DbColInfo.name)
      = (db.tables.lookup a).map (List.map DbColInfo.name) := by
  have hfound : Finmap.lookup a (getActualDbSchema db)
      = ((getDbTablesList db).find? (fun it => it = a)).map (getColsForTable db) :=
    (StdMap.lookup_foldl_emplace (getDbTablesList db) (fun it => it) (getColsForTable db) ∅
      a).trans (by rw [Finmap.lookup_empty, Option.none_or])
  rw [hfound]
  cases hthere : db.tables.lookup a with
  | none =>
      have hnot : a ∉ getDbTablesList db := (Catalog.lookup_eq_none_iff db.tables a).mp hthere
      rw [find?_self, if_neg hnot]
      rfl
  | some cols =>
      have hmem : a ∈ getDbTablesList db := by
        by_contra hnot
        rw [(Catalog.lookup_eq_none_iff db.tables a).mpr hnot] at hthere
        exact absurd hthere (by simp only [reduceCtorEq, not_false_eq_true])
      rw [find?_self, if_pos hmem, Option.map_some, Option.map_some, getColsForTable, tableInfo,
        readTableInfo_append a h, Option.bind_some, hthere, Option.getD_some, Option.map_some,
        List.map_map]
      rfl

/-- The plan can be made by the database as well. -/
theorem plan_snapshot (db : Database) (entries : List (Bytes × DbTable))
    (h : ∀ t ∈ entries, isIdentifier t.1 = true) :
    plan (snapshotNames (getActualDbSchema db)) entries = plan db.names entries :=
  List.flatMap_congr (fun t ht => by
    rw [snapshotNames, lookup_getActualDbSchema db t.1
      (isIdentifier_not_mem (h t ht) '\'' (by decide)), Database.names])

end Snapshot

section Effects

/-- What is done comes about exactly under a condition, and makes the tables what is
    said. -/
def Yields (r : Option Database) (cond : Prop) (tables : List (Bytes × DbTable)) : Prop :=
  (cond → ∃ db, r = some db) ∧ ∀ db, r = some db → cond ∧ db.tables = tables

theorem Yields.bind {r : Option Database} {f : Database → Option Database} {cond cond' : Prop}
    {tables tables' : List (Bytes × DbTable)} (h : Yields r cond tables)
    (hf : ∀ mid : Database, mid.tables = tables → Yields (f mid) cond' tables') :
    Yields (r.bind f) (cond ∧ cond') tables' := by
  constructor
  · rintro ⟨hcond, hcond'⟩
    rcases h.1 hcond with ⟨mid, rfl⟩
    exact (hf mid (h.2 mid rfl).2).1 hcond'
  · intro db hdb
    rcases Option.bind_eq_some_iff.mp hdb with ⟨mid, hmid, hdb⟩
    rcases h.2 mid hmid with ⟨hcond, htables⟩
    rcases (hf mid htables).2 db hdb with ⟨hcond', htables'⟩
    exact ⟨⟨hcond, hcond'⟩, htables'⟩

theorem Yields.congr {r : Option Database} {cond cond' : Prop} {tables : List (Bytes × DbTable)}
    (h : Yields r cond tables) (hcond : cond ↔ cond') : Yields r cond' tables :=
  ⟨fun h' => h.1 (hcond.mpr h'), fun db hdb => ⟨hcond.mp (h.2 db hdb).1, (h.2 db hdb).2⟩⟩

theorem yields_some (db : Database) {cond : Prop} (hcond : cond) :
    Yields (some db) cond db.tables :=
  ⟨fun _ => ⟨db, rfl⟩, fun _ h => ⟨hcond, by rw [← Option.some.inj h]⟩⟩

theorem yields_none {cond : Prop} (hcond : ¬ cond) (tables : List (Bytes × DbTable)) :
    Yields none cond tables :=
  ⟨fun h => absurd h hcond, fun _ h => absurd h (by simp only [reduceCtorEq, not_false_eq_true])⟩

variable (db : Database) (table : Bytes)

/-- Creating a table. -/
theorem yields_createTable (cols : DbTable) (hdistinct : (cols.map DbColInfo.name).Nodup)
    (hnew : db.tables.lookup table = none) :
    Yields (db.apply (.createTable table cols)) True (db.tables ++ [(table, cols)]) := by
  rw [Database.apply, dif_pos ⟨(Catalog.lookup_eq_none_iff _ _).mp hnew, hdistinct⟩]
  exact yields_some _ trivial

/-- Adding a column to a table that does not have it. -/
theorem yields_addColumn (col : DbColInfo) (there : DbTable)
    (hthere : db.tables.lookup table = some there)
    (hnew : col.name ∉ there.map DbColInfo.name) :
    Yields (db.apply (.addColumn table col)) (¬ col.IsPrimaryKey)
      (Catalog.addTo table [col] db.tables) := by
  have hmem : table ∈ db.tables.map Prod.fst := by
    by_contra hnot
    rw [(Catalog.lookup_eq_none_iff _ _).mpr hnot] at hthere
    exact absurd hthere (by simp only [reduceCtorEq, not_false_eq_true])
  have hfree : ∀ t ∈ db.tables, t.1 = table → col.name ∉ t.2.map DbColInfo.name := by
    intro t ht hname
    have hlookup := (Rows.lookup_eq_some_iff_mem db.tables db.distinct t.1 t.2).mpr ht
    rw [hname, hthere, Option.some.injEq] at hlookup
    rw [← hlookup]
    exact hnew
  rw [Database.apply]
  by_cases hkey : col.IsPrimaryKey
  · rw [dif_neg (fun h => h.2.1 hkey)]
    exact yields_none (fun h => h hkey) _
  · rw [dif_pos ⟨hmem, hkey, hfree⟩]
    exact yields_some _ hkey

/-- Adding columns to a table, one after the other. -/
theorem yields_addColumns (cols there : DbTable) (hthere : db.tables.lookup table = some there)
    (hdistinct : ((there ++ cols).map DbColInfo.name).Nodup) :
    Yields (db.applyAll (cols.map (.addColumn table))) (∀ col ∈ cols, ¬ col.IsPrimaryKey)
      (Catalog.addTo table cols db.tables) := by
  induction cols generalizing db there with
  | nil =>
      rw [Catalog.addTo_nil]
      exact yields_some db (fun col hcol => absurd hcol List.not_mem_nil)
  | cons col cols ih =>
      have hnew : col.name ∉ there.map DbColInfo.name := by
        rw [List.map_append, List.nodup_append] at hdistinct
        exact fun hmem => hdistinct.2.2 _ hmem _ List.mem_cons_self rfl
      refine ((yields_addColumn db table col there hthere hnew).bind (fun mid hmid => ?_)).congr
        (List.forall_mem_cons (p := fun c : DbColInfo => ¬ c.IsPrimaryKey)).symm
      have hthere' : mid.tables.lookup table = some (there ++ [col]) := by
        rw [hmid, Catalog.lookup_addTo, if_pos rfl, hthere, Option.map_some]
      have hrest := ih mid (there ++ [col]) hthere' (by rwa [List.append_assoc])
      rwa [hmid, Catalog.addTo_addTo, List.singleton_append] at hrest

theorem nodup_missing (there cols : DbTable) (hthere : (there.map DbColInfo.name).Nodup)
    (hcols : (cols.map DbColInfo.name).Nodup) :
    ((there ++ missing (there.map DbColInfo.name) cols).map DbColInfo.name).Nodup := by
  rw [List.map_append]
  refine List.Nodup.append hthere (hcols.sublist (List.filter_sublist.map DbColInfo.name)) ?_
  intro name hname hmem
  rcases List.mem_map.mp hmem with ⟨col, hcol, rfl⟩
  exact of_decide_eq_true (List.mem_filter.mp hcol).2 hname

/-- What is to be done for a table comes about where all that is missing of it can be
    added, and brings the table up to date. -/
theorem yields_planTable (t : Bytes × DbTable) (hdistinct : (t.2.map DbColInfo.name).Nodup) :
    Yields (db.applyAll (planTable (db.names t.1) t)) (Addable db t)
      (broughtUp db.tables t) := by
  rw [Database.names, Addable, broughtUp]
  cases hthere : db.tables.lookup t.1 with
  | none =>
      simp only [Option.map_none, planTable, Database.applyAll, Option.bind_fun_some, reduceCtorEq,
        false_imp_iff, implies_true]
      exact yields_createTable db t.1 t.2 hdistinct hthere
  | some there =>
      have hcolumns := db.columns _ ((Rows.lookup_eq_some_iff_mem db.tables db.distinct t.1
        there).mp hthere)
      simp only [Option.map_some, planTable, Option.some.injEq, forall_eq']
      exact yields_addColumns db t.1 _ there hthere (nodup_missing there t.2 hcolumns hdistinct)

/-- The table itself, with what was missing behind what was there of it. -/
theorem lookup_broughtUp_self (tables : List (Bytes × DbTable)) (t : Bytes × DbTable) :
    (broughtUp tables t).lookup t.1 = some (match tables.lookup t.1 with
      | some there => there ++ missing (there.map DbColInfo.name) t.2
      | none => t.2) := by
  rw [broughtUp]
  cases hthere : tables.lookup t.1 with
  | none =>
      exact (Catalog.lookup_append_single tables t.1 t.1 t.2
        ((Catalog.lookup_eq_none_iff _ _).mp hthere)).trans (if_pos rfl)
  | some there =>
      simp only [Catalog.lookup_addTo, if_true, hthere, Option.map_some]

theorem lookup_broughtUp_other (tables : List (Bytes × DbTable)) (t : Bytes × DbTable)
    (a : Bytes) (ha : a ≠ t.1) : (broughtUp tables t).lookup a = tables.lookup a := by
  rw [broughtUp]
  cases hthere : tables.lookup t.1 with
  | none =>
      exact (Catalog.lookup_append_single tables t.1 a t.2
        ((Catalog.lookup_eq_none_iff _ _).mp hthere)).trans (if_neg ha)
  | some there =>
      simp only [Catalog.lookup_addTo, if_neg ha]

theorem extends_broughtUp (tables : List (Bytes × DbTable)) (t : Bytes × DbTable) :
    Catalog.Extends tables (broughtUp tables t) := by
  rw [broughtUp]
  split
  · exact Catalog.extends_addTo _ _ _
  · exact Catalog.extends_append _ _

theorem applyAll_append (sts more : List Statement) :
    db.applyAll (sts ++ more) = (db.applyAll sts).bind (fun db => db.applyAll more) := by
  induction sts generalizing db with
  | nil => rfl
  | cons st rest ih =>
      rw [List.cons_append, Database.applyAll, Database.applyAll]
      cases db.apply st with
      | none => rfl
      | some mid => exact ih mid

/-- A whole plan, one table after the other. The keys are distinct, so what is done
    for a table leaves the plan for the others as it is. -/
theorem yields_plan (entries : List (Bytes × DbTable)) (hdistinct : (entries.map Prod.fst).Nodup)
    (hcols : ∀ t ∈ entries, (t.2.map DbColInfo.name).Nodup) :
    Yields (db.applyAll (plan db.names entries)) (∀ t ∈ entries, Addable db t)
      (entries.foldl broughtUp db.tables) := by
  induction entries generalizing db with
  | nil => exact yields_some db (fun t ht => absurd ht List.not_mem_nil)
  | cons t rest ih =>
      rw [List.map_cons, List.nodup_cons] at hdistinct
      have hother : ∀ r ∈ rest, r.1 ≠ t.1 := fun r hr hkey =>
        hdistinct.1 (hkey ▸ List.mem_map_of_mem hr)
      rw [plan, List.flatMap_cons, applyAll_append, List.foldl_cons]
      refine ((yields_planTable db t (hcols t List.mem_cons_self)).bind (fun mid hmid => ?_)).congr
        List.forall_mem_cons.symm
      have hsame : ∀ r ∈ rest, mid.tables.lookup r.1 = db.tables.lookup r.1 := fun r hr => by
        rw [hmid, lookup_broughtUp_other _ t r.1 (hother r hr)]
      have hplan : plan mid.names rest = plan db.names rest := List.flatMap_congr (fun r hr => by
        rw [Database.names, hsame r hr, Database.names])
      have hrest := ih mid hdistinct.2 (fun r hr => hcols r (List.mem_cons_of_mem t hr))
      rw [hplan, hmid] at hrest
      exact hrest.congr (forall₂_congr (fun r hr => by rw [Addable, hsame r hr, Addable]))

/-- What becomes of the tables, by one after the other. -/
theorem lookup_foldl_broughtUp (entries : List (Bytes × DbTable))
    (hdistinct : (entries.map Prod.fst).Nodup) (tables : List (Bytes × DbTable)) :
    Catalog.Extends tables (entries.foldl broughtUp tables) ∧
      (∀ a, a ∉ entries.map Prod.fst →
        (entries.foldl broughtUp tables).lookup a = tables.lookup a) ∧
      ∀ t ∈ entries, (entries.foldl broughtUp tables).lookup t.1
        = (broughtUp tables t).lookup t.1 := by
  induction entries generalizing tables with
  | nil =>
      exact ⟨Catalog.extends_refl _, fun a _ => rfl, fun t ht => absurd ht List.not_mem_nil⟩
  | cons t rest ih =>
      rw [List.map_cons, List.nodup_cons] at hdistinct
      rcases ih hdistinct.2 (broughtUp tables t) with ⟨hextends, hother, hdone⟩
      refine ⟨(extends_broughtUp tables t).trans hextends, fun a ha => ?_, fun r hr => ?_⟩
      · rw [List.map_cons, List.mem_cons, not_or] at ha
        rw [List.foldl_cons, hother a ha.2, lookup_broughtUp_other tables t a ha.1]
      · rw [List.foldl_cons]
        rcases List.mem_cons.mp hr with rfl | hr
        · exact hother _ hdistinct.1
        · have hne : r.1 ≠ t.1 := fun hkey => hdistinct.1 (hkey ▸ List.mem_map_of_mem hr)
          rw [hdone r hr, lookup_broughtUp_self, lookup_broughtUp_self,
            lookup_broughtUp_other tables t r.1 hne]

end Effects

/-- The expected schema is there, and nothing else has changed. -/
structure Migrated (expected : DbSchema) (before after : Database) : Prop where
  complete : ∀ t ∈ expected.tables, HasAll after t
  kept : Catalog.Extends before.tables after.tables
  untouched : ∀ a, a ∉ expected.tables.map Prod.fst →
    after.tables.lookup a = before.tables.lookup a
  created : ∀ t ∈ expected.tables, before.tables.lookup t.1 = none →
    after.tables.lookup t.1 = some t.2
  added : ∀ t ∈ expected.tables, ∀ there, before.tables.lookup t.1 = some there →
    after.tables.lookup t.1 = some (there ++ missing (there.map DbColInfo.name) t.2)
  idle : ∀ fails, (checkAddMissingColumns fails expected ⟨after, []⟩).2.issued = []

/-- Tables that were brought up to date are what was to be done. -/
theorem migrated_foldl (expected : DbSchema) (before after : Database)
    (hwell : ∀ t ∈ expected.tables, isIdentifier t.1 = true)
    (h : after.tables = expected.tables.foldl broughtUp before.tables) :
    Migrated expected before after := by
  have hdistinct : (expected.tables.map Prod.fst).Nodup :=
    expected.ordered.imp (fun {a b} hlt (heq : a = b) => List.lt_irrefl b (heq ▸ hlt))
  rcases lookup_foldl_broughtUp expected.tables hdistinct before.tables with
    ⟨hextends, hother, hdone⟩
  rw [← h] at hextends hother hdone
  have hcreated : ∀ t ∈ expected.tables, before.tables.lookup t.1 = none →
      after.tables.lookup t.1 = some t.2 := fun t ht hnone => by
    rw [hdone t ht, lookup_broughtUp_self, hnone]
  have hadded : ∀ t ∈ expected.tables, ∀ there, before.tables.lookup t.1 = some there →
      after.tables.lookup t.1 = some (there ++ missing (there.map DbColInfo.name) t.2) :=
    fun t ht there hthere => by
      rw [hdone t ht, lookup_broughtUp_self, hthere]
  have hall : ∀ t ∈ expected.tables, HasAll after t := by
    intro t ht
    cases hthere : before.tables.lookup t.1 with
    | none => exact ⟨t.2, hcreated t ht hthere, fun col hcol => List.mem_map_of_mem hcol⟩
    | some there =>
        refine ⟨_, hadded t ht there hthere, fun col hcol => ?_⟩
        rw [List.map_append, List.mem_append]
        by_cases hmem : col.name ∈ there.map DbColInfo.name
        · exact Or.inl hmem
        · exact Or.inr (List.mem_map_of_mem (List.mem_filter.mpr ⟨hcol, decide_eq_true hmem⟩))
  refine ⟨hall, hextends, hother, hcreated, hadded, fun fails => ?_⟩
  rw [checkAddMissingColumns, checkTables_idle]
  -- The second snapshot has the columns that the tables have by then.
  intro t ht
  rcases hall t ht with ⟨cols, hcols, hcolumns⟩
  have hsnapshot := lookup_getActualDbSchema after t.1
    (isIdentifier_not_mem (hwell t ht) '\'' (by decide))
  rw [hcols] at hsnapshot
  rcases Option.map_eq_some_iff.mp hsnapshot with ⟨actual, hactual, hnames⟩
  exact ⟨actual, hactual, fun col hcol => hnames ▸ hcolumns col hcol⟩

/-- The texts of a plan say what is to be done. -/
theorem readStatement_plan (there : Bytes → Option (List Bytes))
    (entries : List (Bytes × DbTable)) (hwell : ∀ t ∈ entries, WellFormed t) :
    ∀ st ∈ plan there entries, readStatement st.query = some st := by
  intro st hst
  rcases List.mem_flatMap.mp hst with ⟨t, ht, hst⟩
  have hwellt := hwell t ht
  cases hthere : there t.1 with
  | none =>
      rw [hthere, planTable, List.mem_singleton] at hst
      rw [hst]
      exact readStatement_createQuery t.1 t.2 hwellt.table hwellt.ne hwellt.columns
  | some names =>
      rw [hthere, planTable] at hst
      rcases List.mem_map.mp hst with ⟨col, hcol, rfl⟩
      exact readStatement_alterQuery t.1 col hwellt.table
        (hwellt.columns col (List.mem_filter.mp hcol).1)

/-- A schema with the scores and a table of the hits of each day. -/
def withHits : DbSchema where
  tables := [("hits".toList, [⟨"day".toList, "TEXT".toList, "NOT NULL".toList⟩,
      ⟨"hits".toList, "INTEGER".toList, []⟩]),
    ("stats".toList, addInfoOfStats)]
  ordered := by decide

/-- A database with a table of its own, and with the table of the scores but
    without the scores. -/
def withoutCount : Database where
  tables := [("hosts".toList, [⟨"name".toList, "TEXT".toList, []⟩]),
    ("stats".toList, [⟨"ipaddr".toList, "TEXT".toList, "PRIMARY KEY".toList⟩])]
  distinct := by decide
  columns := by decide

/-- A table with a column called `COLUMN`. -/
def withColumn : DbSchema where
  tables := [("t".toList, [⟨"a".toList, "TEXT".toList, []⟩, ⟨"COLUMN".toList, "TEXT".toList, []⟩])]
  ordered := List.pairwise_singleton _ _

/-- The same table without it. -/
def withoutColumn : Database where
  tables := [("t".toList, [⟨"a".toList, "TEXT".toList, []⟩])]
  distinct := by decide
  columns := by decide

end HttpFileSharing
