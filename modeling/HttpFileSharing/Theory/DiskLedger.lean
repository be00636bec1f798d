import HttpFileSharing.Core.Main
import HttpFileSharing.Theory.SetUp
import HttpFileSharing.Theory.StoreEngine
import Mathlib.Data.Fintype.EquivFin

/-!
# The Database the Server Works On

The server sets up its database and loads the scores before it changes into the
directory it serves, and opens the database again for every score after that. A
name that does not begin with a slash, which the default one does not, then leads to
another file. Whether the server gets through its first score is decided there.

If both names lead to the same file, every update finds in the file what it has in
memory, and a server that is started again finds it too. If they lead to two, the
second file has to have a table of the server by chance, and with no address in it
that the server has not loaded from the first: such an address would be added once
more, which is refused.

All of it is said of any `Sqlite` that works, and of the files the name leads to: they
are plain databases, with a table of the server if they have one of that name.

## Main definitions

* `Serving.Usable`: The database that is opened does for the server.
* `Serving.Mirrors`: It has the scores in memory.

## Theorems

* `updateIpAddrStats_usable`, `run_usable`: A database that does goes on doing.
* `exists_exit`: One that does not ends the server.
* `updateIpAddrStats_mirrors`, `run_mirrors`: The file and the memory together.
* `launched`: What a server in its loop has loaded.
* `relaunch`: The same command on the databases left behind.
* `survives_exact`: When the server survives its scores.
* `disk_ledger`: What the file has then.
-/

namespace HttpFileSharing

variable {sq : Sqlite} {v : sq.View}

/-- The server opens a table of scores and has loaded every address in it. -/
def Serving.Usable (v : sq.View) (s : Serving sq) : Prop :=
  ∃ loc table, v.place s.env.cwd s.dbFile = some (.file loc) ∧
    v.HasScores s.world loc table ∧ ∀ r ∈ table, r.1 ∈ s.statsList

/-- The server opens a file with the scores it has in memory. -/
structure Serving.Mirrors (v : sq.View) (s : Serving sq) (loc : v.File) (table : StatsTable) :
    Prop where
  place : v.place s.env.cwd s.dbFile = some (.file loc)
  scores : v.HasScores s.world loc table
  inRange : ∀ r ∈ table, IntRange r.2
  nonEmpty : ∀ r ∈ table, r.1.text ≠ []
  same : ∀ ip, Finmap.lookup ip s.statsList = table.lookup ip

/-- No address is in two rows. -/
theorem Sqlite.View.HasScores.distinct {w : sq.World} {loc : v.File} {table : StatsTable}
    (h : v.HasScores w loc table) : (table.map Prod.fst).Nodup := by
  rcases h with ⟨_, _, hkeeps⟩
  exact hkeeps.distinct

/-- A file that is not written keeps its scores. -/
theorem Sqlite.View.HasScores.congr {w w' : sq.World} {loc : v.File} {table : StatsTable}
    (h : v.HasScores w loc table) (hsame : v.contents w' loc = v.contents w loc) :
    v.HasScores w' loc table := by
  rcases h with ⟨store, hstore, hkeeps⟩
  exact ⟨store, hsame.trans hstore, hkeeps⟩

/-- A table with the scores in memory has been loaded. -/
theorem Serving.Mirrors.loaded {s : Serving sq} {loc : v.File} {table : StatsTable}
    (h : s.Mirrors v loc table) : ∀ r ∈ table, r.1 ∈ s.statsList := by
  intro r hr
  have hlookup := (Rows.lookup_eq_some_iff_mem table h.scores.distinct r.1 r.2).mpr hr
  exact Finmap.mem_iff.mpr ⟨r.2, (h.same r.1).trans hlookup⟩

section Updates

variable (s : Serving sq) (ip : IpAddr) (good : Bool)

/-- The score an update leaves. -/
def Serving.finalScore : Int := (Finmap.lookup ip s.statsList).getD 0 + delta good

/-- The rows once the score of an address is `score`. -/
def rowsAfter (stats : StatsList) (table : StatsTable) (score : Int) : StatsTable :=
  if ip ∈ stats then Rows.update table ip score else table ++ [(ip, score)]

/-- An update of a server that has loaded every address of its table: the score
    leaves the range of an `int`, or is in memory and in the table. -/
theorem updateIpAddrStats_spec (hworks : sq.Works v) (loc : v.File) (table : StatsTable)
    (hplace : v.place s.env.cwd s.dbFile = some (.file loc))
    (hscores : v.HasScores s.world loc table) (hloaded : ∀ r ∈ table, r.1 ∈ s.statsList) :
    (¬ IntRange (s.finalScore ip good) ∧ s.updateIpAddrStats ip good = .error .undefined) ∨
    ∃ ret stats world, IntRange (s.finalScore ip good) ∧
      s.updateIpAddrStats ip good = .ok (ret, { s with statsList := stats, world := world }) ∧
      v.HasScores world loc (rowsAfter ip s.statsList table (s.finalScore ip good)) ∧
      (∀ other, other ≠ loc → v.contents world other = v.contents s.world other) ∧
      ∀ a, Finmap.lookup a stats
        = if a = ip then some (s.finalScore ip good) else Finmap.lookup a s.statsList := by
  rw [Serving.updateIpAddrStats]
  cases hscore : Finmap.lookup ip s.statsList with
  | none =>
      have hnot := Finmap.lookup_eq_none.mp hscore
      have hfinal : s.finalScore ip good = delta good := by
        rw [Serving.finalScore, hscore, Option.getD_none, Int.zero_add]
      have hrange : IntRange (delta good) := by cases good <;> decide
      -- The address is in neither.
      have hnew : ip ∉ table.map Prod.fst := by
        intro hmem
        rcases List.mem_map.mp hmem with ⟨r, hr, rfl⟩
        exact hnot (hloaded r hr)
      have hinsert := insertIntoStatsDb_scores hworks s.world s.env.cwd s.dbFile ip (delta good) loc
        table hplace hscores hrange
      rw [insertIntoStatsDb, if_neg hnew] at hinsert
      rcases hinsert with ⟨world, hok, hscores', hothers⟩
      simp only [hok]
      refine Or.inr ⟨_, _, world, hfinal ▸ hrange, rfl, ?_, hothers, fun a => ?_⟩
      · rw [rowsAfter, if_neg hnot, hfinal]
        exact hscores'
      · rw [StdMap.lookup_emplace_new _ _ _ _ hscore, hfinal]
  | some score =>
      have hthere : ip ∈ s.statsList := Finmap.mem_iff.mpr ⟨score, hscore⟩
      have hfinal : s.finalScore ip good = score + delta good := by
        rw [Serving.finalScore, hscore, Option.getD_some]
      by_cases hrange : IntRange (score + delta good)
      · rcases updateInStatsDb_scores hworks s.world s.env.cwd s.dbFile ip (score + delta good) loc
          table hplace hscores hrange with ⟨world, hok, hscores', hothers⟩
        simp only [if_pos hrange, hok]
        refine Or.inr ⟨_, _, world, hfinal ▸ hrange, rfl, ?_, hothers, fun a => ?_⟩
        · rw [rowsAfter, if_pos hthere, hfinal]
          exact hscores'
        · rw [StdMap.lookup_insert_eq, hfinal]
      · simp only [if_neg hrange]
        exact Or.inl ⟨hfinal ▸ hrange, trivial⟩

/-- The addresses of the rows after an update. -/
theorem mem_rowsAfter (stats : StatsList) (table : StatsTable) (score : Int) (r : IpAddr × Int)
    (hr : r ∈ rowsAfter ip stats table score) :
    r = (ip, score) ∨ r ∈ table ∧ r.1 ≠ ip ∨ r ∈ table ∧ ip ∉ stats := by
  rw [rowsAfter] at hr
  split at hr
  · rcases List.mem_map.mp hr with ⟨r', hr', heq⟩
    split at heq
    · exact Or.inl heq.symm
    · rename_i hne
      exact Or.inr (Or.inl ⟨heq ▸ hr', heq ▸ hne⟩)
  · rename_i hnot
    rcases List.mem_append.mp hr with hr | hr
    · exact Or.inr (Or.inr ⟨hr, hnot⟩)
    · exact Or.inl (List.mem_singleton.mp hr)

/-- A database that does for the server goes on doing: the update is written, or the
    score leaves the range of an `int`. -/
theorem updateIpAddrStats_usable (hworks : sq.Works v) (h : s.Usable v) :
    s.updateIpAddrStats ip good = .error .undefined ∨
      ∃ ret s', s.updateIpAddrStats ip good = .ok (ret, s') ∧ s'.Usable v := by
  rcases h with ⟨loc, table, hplace, hscores, hloaded⟩
  rcases updateIpAddrStats_spec s ip good hworks loc table hplace hscores hloaded with
    hover | ⟨ret, stats, world, _, hok, hscores', _, hlookup⟩
  · exact Or.inl hover.2
  · refine Or.inr ⟨ret, _, hok, loc, rowsAfter ip s.statsList table (s.finalScore ip good), hplace,
      hscores', fun r hr => ?_⟩
    refine Finmap.mem_iff.mpr (Option.isSome_iff_exists.mp ?_)
    rw [hlookup]
    split
    · rfl
    · rename_i hne
      have hold : r ∈ table := by
        rcases mem_rowsAfter ip _ table _ r hr with heq | ⟨hr, _⟩ | ⟨hr, _⟩
        · exact absurd (congrArg Prod.fst heq) hne
        · exact hr
        · exact hr
      exact Option.isSome_iff_exists.mpr (Finmap.mem_iff.mp (hloaded r hold))

/-- No run of updates ends a server with such a database, but by a score that leaves
    the range of an `int`. -/
theorem run_usable (hworks : sq.Works v) (requests : List (IpAddr × Bool)) (h : s.Usable v)
    (e : Stop) (hrun : s.run requests = .error e) : e = .undefined := by
  -- On the updates, the server they are made on left open.
  induction requests generalizing s with
  | nil => exact absurd hrun (by simp only [Serving.run, reduceCtorEq, not_false_eq_true])
  | cons request requests ih =>
      rcases request with ⟨ip, good⟩
      rw [Serving.run] at hrun
      rcases updateIpAddrStats_usable s ip good hworks h with hover | ⟨ret, s', hok, husable⟩
      · rw [hover] at hrun
        exact (Except.error.inj hrun).symm
      · rw [hok] at hrun
        exact ih s' husable hrun

/-- There are addresses the server has not loaded. -/
theorem exists_new (stats : StatsList) : ∃ ip : IpAddr, ip ∉ stats := by
  have hinfinite : Infinite IpAddr := by
    refine Infinite.of_injective (fun n => (⟨List.replicate n 'a', fun h => absurd
      (List.eq_of_mem_replicate h) (by decide)⟩ : IpAddr)) (fun m n h => ?_)
    have hlength := congrArg (fun ip : IpAddr => ip.text.length) h
    simpa only [List.length_replicate] using hlength
  rcases Infinite.exists_notMem_finset stats.keys with ⟨ip, hip⟩
  exact ⟨ip, fun hmem => hip (Finmap.mem_keys.mpr hmem)⟩

/-- An address the server has not loaded, and a statement that cannot be carried out. -/
theorem updateIpAddrStats_new (hnew : ip ∉ s.statsList) (e : Stop)
    (hfails : StatsDb.insertIntoStatsDb sq s.world s.env.cwd s.dbFile ip (delta true) = .error e) :
    s.run [(ip, true)] = .error e := by
  rw [Serving.run, Serving.updateIpAddrStats, Finmap.lookup_eq_none.mpr hnew]
  simp only [hfails]

/-- A database that does not do ends the server at the first update of some
    address. -/
theorem exists_exit (hworks : sq.Works v)
    (hmade : ∀ loc, v.place s.env.cwd s.dbFile = some (.file loc) → v.ServerMade s.world loc)
    (h : ¬ s.Usable v) : ∃ ip e, s.run [(ip, true)] = .error e ∧ e ≠ .undefined := by
  rcases exists_new s.statsList with ⟨new, hnew⟩
  -- Without a table nothing is carried out.
  have hmissing : ∀ place store, v.place s.env.cwd s.dbFile = some place →
      v.found s.world place = some store → store.db.tables.lookup "stats".toList = none →
      ∃ ip e, s.run [(ip, true)] = .error e ∧ e ≠ .undefined :=
    fun place store hplace hfound hnone => ⟨new, .exited, updateIpAddrStats_new s new hnew _
      (insertUpdateStatsDb_missing hworks s.world s.env.cwd s.dbFile new (delta true) _ _ place
        store hplace hfound readRowStatement_insert rfl hnone), by decide⟩
  cases hplace : v.place s.env.cwd s.dbFile with
  | none =>
      refine ⟨new, .terminated, updateIpAddrStats_new s new hnew _ ?_, by decide⟩
      rw [StatsDb.insertIntoStatsDb, StatsDb.insertUpdateStatsDb,
        hworks.refuses s.world s.env.cwd s.dbFile hplace]
  | some place =>
      cases place with
      | memory => exact hmissing .memory Store.fresh hplace rfl rfl
      | file loc =>
          rcases hmade loc hplace with ⟨store, hstore, hnone | ⟨table, hkeeps, -⟩⟩
          · exact hmissing (.file loc) store hplace hstore hnone
          · -- The table has an address that was not loaded.
            have hstrange : ∃ r ∈ table, r.1 ∉ s.statsList := by
              by_contra hall
              push Not at hall
              exact h ⟨loc, table, hplace, ⟨store, hstore, hkeeps⟩, hall⟩
            rcases hstrange with ⟨r, hr, hnot⟩
            have hinsert := insertIntoStatsDb_scores hworks s.world s.env.cwd s.dbFile r.1
              (delta true) loc table hplace ⟨store, hstore, hkeeps⟩ (by decide)
            rw [insertIntoStatsDb, if_pos (List.mem_map_of_mem hr)] at hinsert
            exact ⟨r.1, .exited, updateIpAddrStats_new s r.1 hnot _ hinsert, by decide⟩

/-- The rows after an update, searched. -/
theorem lookup_rowsAfter (stats : StatsList) (table : StatsTable) (score : Int)
    (hsame : ∀ a, Finmap.lookup a stats = table.lookup a) (a : IpAddr) :
    (rowsAfter ip stats table score).lookup a
      = if a = ip then some score else table.lookup a := by
  rw [rowsAfter]
  by_cases hip : ip ∈ stats
  · rcases Finmap.mem_iff.mp hip with ⟨old, hold⟩
    rw [if_pos hip, Rows.lookup_update]
    by_cases ha : a = ip
    · rw [if_pos ha, if_pos ha, ha, ← hsame, hold, Option.map_some]
    · rw [if_neg ha, if_neg ha]
  · have hnone := (hsame ip).symm.trans (Finmap.lookup_eq_none.mpr hip)
    rw [if_neg hip, List.lookup_append, List.lookup_cons, List.lookup_nil]
    by_cases ha : a = ip
    · rw [if_pos ha, ha, hnone, beq_self_eq_true, Option.none_or]
    · rw [if_neg ha, beq_eq_false_iff_ne.mpr ha, Option.or_none]

/-- An update of a server that opens a file with the scores it has in memory: the
    file has the new ones, and no other file is touched. -/
theorem updateIpAddrStats_mirrors (hworks : sq.Works v) (loc : v.File) (table : StatsTable)
    (ret : Bool) (s' : Serving sq) (h : s.Mirrors v loc table) (hip : ip.text ≠ [])
    (hok : s.updateIpAddrStats ip good = .ok (ret, s')) :
    (∃ table', s'.Mirrors v loc table') ∧ s'.env = s.env ∧ s'.dbFile = s.dbFile ∧
      (∀ a, (Finmap.lookup a s'.statsList).getD 0
        = (Finmap.lookup a s.statsList).getD 0 + if a = ip then delta good else 0) ∧
      ∀ other, other ≠ loc → v.contents s'.world other = v.contents s.world other := by
  rcases updateIpAddrStats_spec s ip good hworks loc table h.place h.scores h.loaded with
    ⟨_, hover⟩ | ⟨ret', stats, world, hrange, hok', hscores, hothers, hlookup⟩
  · rw [hover] at hok
    exact absurd hok (by simp only [reduceCtorEq, not_false_eq_true])
  · rw [hok', Except.ok.injEq, Prod.mk.injEq] at hok
    rcases hok with ⟨-, rfl⟩
    have hold : ∀ r ∈ rowsAfter ip s.statsList table (s.finalScore ip good),
        r = (ip, s.finalScore ip good) ∨ r ∈ table := by
      intro r hr
      rcases mem_rowsAfter ip _ table _ r hr with heq | ⟨hr, _⟩ | ⟨hr, _⟩
      · exact Or.inl heq
      · exact Or.inr hr
      · exact Or.inr hr
    refine ⟨⟨rowsAfter ip s.statsList table (s.finalScore ip good), h.place, hscores,
      fun r hr => ?_, fun r hr => ?_, fun a => ?_⟩, rfl, rfl, fun a => ?_, hothers⟩
    · rcases hold r hr with rfl | hr
      · exact hrange
      · exact h.inRange r hr
    · rcases hold r hr with rfl | hr
      · exact hip
      · exact h.nonEmpty r hr
    · rw [lookup_rowsAfter ip s.statsList table _ h.same]
      exact (hlookup a).trans (by rw [h.same a])
    · change (Finmap.lookup a stats).getD 0 = _
      rw [hlookup]
      by_cases ha : a = ip
      · rw [if_pos ha, if_pos ha, ha, Option.getD_some, Serving.finalScore]
      · rw [if_neg ha, if_neg ha, Int.add_zero]

/-- What some updates add to the score of an address. -/
def gained : List (IpAddr × Bool) → IpAddr → Int
  | [], _ => 0
  | (ip, good) :: requests, a => (if a = ip then delta good else 0) + gained requests a

/-- Updates of a server that opens a file with the scores it has in memory. -/
theorem run_mirrors (hworks : sq.Works v) (loc : v.File) (table : StatsTable)
    (requests : List (IpAddr × Bool)) (s' : Serving sq) (h : s.Mirrors v loc table)
    (hips : ∀ r ∈ requests, r.1.text ≠ []) (hok : s.run requests = .ok s') :
    (∃ table', s'.Mirrors v loc table') ∧ s'.env = s.env ∧ s'.dbFile = s.dbFile ∧
      (∀ a, (Finmap.lookup a s'.statsList).getD 0
        = (Finmap.lookup a s.statsList).getD 0 + gained requests a) ∧
      ∀ other, other ≠ loc → v.contents s'.world other = v.contents s.world other := by
  -- On the updates, the server they are made on left open.
  induction requests generalizing s table with
  | nil =>
      rw [Serving.run, Except.ok.injEq] at hok
      subst hok
      exact ⟨⟨table, h⟩, rfl, rfl, fun a => (Int.add_zero _).symm, fun _ _ => rfl⟩
  | cons request requests ih =>
      rcases request with ⟨ip, good⟩
      rw [List.forall_mem_cons] at hips
      rw [Serving.run] at hok
      cases hone : s.updateIpAddrStats ip good with
      | error e =>
          rw [hone] at hok
          exact absurd hok (by simp only [reduceCtorEq, not_false_eq_true])
      | ok r =>
          rcases r with ⟨ret, s₁⟩
          rw [hone] at hok
          rcases updateIpAddrStats_mirrors s ip good hworks loc table ret s₁ h hips.1 hone with
            ⟨⟨table₁, h₁⟩, henv, hfile, hscores, hothers⟩
          rcases ih s₁ table₁ h₁ hips.2 hok with ⟨hlast, henv', hfile', hscores', hothers'⟩
          refine ⟨hlast, henv'.trans henv, hfile'.trans hfile, fun a => ?_,
            fun other hne => (hothers' other hne).trans (hothers other hne)⟩
          rw [hscores' a, hscores a, gained, Int.add_assoc]

end Updates

section Launch

variable (fs : FileSystem) (binds : Nat → Bool) (loguru : Bytes → Option Stop) (cwd : Location)
  (w : sq.World) (opts : List CliOpt) (argv0 : Bytes) (l : Launched sq)

/-- What `main` has done when the server is in its loop. -/
theorem serverMain_spec (h : serverMain fs binds loguru cwd w opts argv0 = .ok l) :
    ∃ commandLine env w₁ stats w₂, CommandLine.parse opts = .ok (commandLine, true) ∧
      loguru commandLine.logName = none ∧
      StatsDb.initDb sq w cwd commandLine.dbName = .ok w₁ ∧
      StatsDb.initBlacklist sq w₁ cwd commandLine.dbName = .ok (stats, w₂) ∧
      changeDir fs cwd commandLine.options argv0 = some env ∧
      serverLoop binds commandLine ⟨env, commandLine.dbName, commandLine.blacklistThreshold,
        stats, commandLine.tpoolSize, w₂⟩ = .ok l := by
  rw [serverMain] at h
  split at h
  · exact absurd h (by simp only [reduceCtorEq, not_false_eq_true])
  · exact absurd h (by simp only [reduceCtorEq, not_false_eq_true])
  · rename_i commandLine hparse
    split at h
    · exact absurd h (by simp only [reduceCtorEq, not_false_eq_true])
    · rename_i hlog
      split at h
      · exact absurd h (by simp only [reduceCtorEq, not_false_eq_true])
      · rename_i w₁ hinit
        split at h
        · exact absurd h (by simp only [reduceCtorEq, not_false_eq_true])
        · rename_i stats w₂ hload
          split at h
          · exact absurd h (by simp only [reduceCtorEq, not_false_eq_true])
          · rename_i env henv
            exact ⟨commandLine, env, w₁, stats, w₂, hparse, hlog, hinit, hload, henv, h⟩

theorem serverLoop_spec (commandLine : CommandLine) (serving : Serving sq)
    (h : serverLoop binds commandLine serving = .ok l) :
    l.serving = serving ∧ ∀ other : Serving sq, ∃ l', serverLoop binds commandLine other = .ok l' ∧
      l'.serving = other := by
  rw [serverLoop] at h
  split at h
  · rename_i hbinds
    rw [Except.ok.injEq] at h
    refine ⟨h ▸ rfl, fun other => ?_⟩
    rw [serverLoop, if_pos hbinds]
    exact ⟨_, rfl, rfl⟩
  · exact absurd h (by simp only [reduceCtorEq, not_false_eq_true])

theorem changeDir_fs (options : ProgOptions) (env : Env)
    (h : changeDir fs cwd options argv0 = some env) : env.fs = fs := by
  rw [changeDir] at h
  split at h
  · split at h
    · split at h
      · exact Option.some.inj h ▸ rfl
      · exact absurd h (by simp only [reduceCtorEq, not_false_eq_true])
    · exact absurd h (by simp only [reduceCtorEq, not_false_eq_true])
  · exact Option.some.inj h ▸ rfl

/-- A load that comes to its end has met no empty address. -/
theorem nonEmpty_of_getStatsFromDb (table : StatsTable) (stats stats' : StatsList)
    (h : getStatsFromDb table stats = some stats') : ∀ r ∈ table, r.1.text ≠ [] := by
  induction table generalizing stats with
  | nil => exact fun r hr => absurd hr List.not_mem_nil
  | cons r table ih =>
      rw [getStatsFromDb] at h
      split at h
      · exact absurd h (by simp only [reduceCtorEq, not_false_eq_true])
      · rename_i hlength
        exact List.forall_mem_cons.mpr
          ⟨fun hempty => hlength (by rw [hempty, List.length_nil]), ih _ h⟩

/-- Without empty addresses it comes to its end. -/
theorem getStatsFromDb_of_nonEmpty (table : StatsTable) (stats : StatsList)
    (h : ∀ r ∈ table, r.1.text ≠ []) : ∃ stats', getStatsFromDb table stats = some stats' := by
  induction table generalizing stats with
  | nil => exact ⟨stats, rfl⟩
  | cons r table ih =>
      rw [List.forall_mem_cons] at h
      rw [getStatsFromDb, if_neg (fun hlength => h.1 (List.eq_nil_of_length_eq_zero hlength))]
      exact ih _ h.2

/-- A server in its loop has the scores of the file it has set up, in which there
    were these before or there was no table. -/
theorem launched (hworks : sq.Works v)
    (h : serverMain fs binds loguru cwd w opts argv0 = .ok l)
    (hmade : ∀ loc, v.place cwd l.serving.dbFile = some (.file loc) → v.ServerMade w loc) :
    ∃ loc table, v.place cwd l.serving.dbFile = some (.file loc) ∧
      l.serving.env.fs = fs ∧ v.HasScores l.serving.world loc table ∧
      (∀ r ∈ table, IntRange r.2) ∧ (∀ r ∈ table, r.1.text ≠ []) ∧
      (∀ ip, Finmap.lookup ip l.serving.statsList = table.lookup ip) ∧
      ∀ other, other ≠ loc → v.contents l.serving.world other = v.contents w other := by
  rcases serverMain_spec fs binds loguru cwd w opts argv0 l h with
    ⟨commandLine, env, w₁, stats, w₂, _, _, hinit, hload, henv, hloop⟩
  have hserving := (serverLoop_spec binds l commandLine _ hloop).1
  rw [hserving] at hmade ⊢
  simp only at hmade ⊢
  have hfs := changeDir_fs fs cwd argv0 commandLine.options env henv
  cases hplace : v.place cwd commandLine.dbName with
  | none =>
      rw [StatsDb.initDb, hworks.refuses w cwd _ hplace] at hinit
      exact absurd hinit (by simp only [reduceCtorEq, not_false_eq_true])
  | some place =>
      cases place with
      | memory =>
          -- In no file there is no table to load from.
          have hnone := getStatsFromDb_missing hworks w₁ cwd commandLine.dbName ∅ .memory
            Store.fresh hplace rfl rfl
          rw [StatsDb.initBlacklist, hnone] at hload
          exact absurd hload (by simp only [reduceCtorEq, not_false_eq_true])
      | file loc =>
          have htable : ∃ table, v.HasScores w₁ loc table ∧ (∀ r ∈ table, IntRange r.2) ∧
              ∀ other, other ≠ loc → v.contents w₁ other = v.contents w other := by
            rcases hmade loc hplace with ⟨store, hstore, hmissing | ⟨table, hkeeps, hrange⟩⟩
            · rcases initDb_missing hworks w cwd _ loc hplace store hstore hmissing with
                ⟨w', hok, hscores, hothers⟩
              rw [Except.ok.inj (hinit.symm.trans hok)]
              exact ⟨[], hscores, fun r hr => absurd hr List.not_mem_nil, hothers⟩
            · rcases initDb_scores hworks w cwd _ loc hplace table ⟨store, hstore, hkeeps⟩ with
                ⟨w', hok, hscores, hothers⟩
              rw [Except.ok.inj (hinit.symm.trans hok)]
              exact ⟨table, hscores, hrange, hothers⟩
          rcases htable with ⟨table, hscores, hrange, hothers⟩
          rcases getStatsFromDb_scores hworks w₁ cwd _ loc table hplace hscores ∅ hrange with
            ⟨table', hperm, hcall⟩
          rw [StatsDb.initBlacklist] at hload
          cases hstats : getStatsFromDb table' ∅ with
          | none =>
              simp only [hstats, hload, reduceCtorEq] at hcall
          | some stats' =>
              rw [hstats] at hcall
              rcases hcall with ⟨w', hok, hscores', hothers'⟩
              rw [hload, Except.ok.injEq, Prod.mk.injEq] at hok
              rcases hok with ⟨rfl, rfl⟩
              have hnonEmpty := nonEmpty_of_getStatsFromDb table' ∅ stats hstats
              refine ⟨loc, table, rfl, hfs, hscores', hrange,
                fun r hr => hnonEmpty r (hperm.mem_iff.mpr hr), fun ip => ?_,
                fun other hne => (hothers' other hne).trans (hothers other hne)⟩
              rw [Blacklist.lookup_getStatsFromDb table' stats hstats,
                Rows.lookup_perm table table' hperm hscores.distinct]

/-- The same command on the databases a server has left behind starts one that handles
    requests the same way, with the scores of the file. -/
theorem relaunch (hworks : sq.Works v) (h : serverMain fs binds loguru cwd w opts argv0 = .ok l)
    (s : Serving sq) (loc : v.File) (table : StatsTable)
    (hplace : v.place cwd l.serving.dbFile = some (.file loc)) (hend : s.Mirrors v loc table) :
    ∃ l' : Launched sq, serverMain fs binds loguru cwd s.world opts argv0 = .ok l' ∧
      l'.serving.env = l.serving.env ∧ l'.serving.dbFile = l.serving.dbFile ∧
      l'.serving.blacklistThreshold = l.serving.blacklistThreshold ∧
      l'.serving.idle = l.serving.idle ∧ v.HasScores l'.serving.world loc table ∧
      ∀ ip, Finmap.lookup ip l'.serving.statsList = table.lookup ip := by
  rcases serverMain_spec fs binds loguru cwd w opts argv0 l h with
    ⟨commandLine, env, _, _, _, hparse, hlog, _, _, henv, hloop⟩
  rcases serverLoop_spec binds l commandLine _ hloop with ⟨hserving, hagain⟩
  rw [hserving] at hplace ⊢
  rcases initDb_scores hworks s.world cwd _ loc hplace table hend.scores with
    ⟨w₁, hinit, hscores₁, _⟩
  rcases getStatsFromDb_scores hworks w₁ cwd _ loc table hplace hscores₁ ∅ hend.inRange with
    ⟨table', hperm, hcall⟩
  rcases getStatsFromDb_of_nonEmpty table' ∅ (fun r hr => hend.nonEmpty r (hperm.mem_iff.mp hr))
    with ⟨stats, hstats⟩
  rw [hstats] at hcall
  rcases hcall with ⟨w₂, hload, hscores₂, _⟩
  rcases hagain ⟨env, commandLine.dbName, commandLine.blacklistThreshold, stats,
    commandLine.tpoolSize, w₂⟩ with ⟨l', hl', hserving'⟩
  refine ⟨l', ?_, ?_⟩
  · rw [serverMain, hparse]
    simp only [hlog, hinit, StatsDb.initBlacklist, hload, henv]
    exact hl'
  · rw [hserving']
    refine ⟨rfl, rfl, rfl, rfl, hscores₂, fun ip => ?_⟩
    rw [Blacklist.lookup_getStatsFromDb table' stats hstats,
      Rows.lookup_perm table table' hperm hscores₁.distinct]

/-- **When the server survives its scores**: no run of updates ends it for the sake
    of its database exactly if the name of the database leads to the same file from
    the directory it serves as from the one it was started in, or to another with a
    table of the server that has no address but those it has loaded. -/
theorem survives_exact (hworks : sq.Works v)
    (h : serverMain fs binds loguru cwd w opts argv0 = .ok l)
    (hmade : ∀ dir ∈ [cwd, l.serving.env.cwd], ∀ loc,
      v.place dir l.serving.dbFile = some (.file loc) → v.ServerMade w loc) :
    (∀ requests e, l.serving.run requests = .error e → e = .undefined) ↔
      v.place l.serving.env.cwd l.serving.dbFile = v.place cwd l.serving.dbFile ∨
      ∃ loc table, v.place l.serving.env.cwd l.serving.dbFile = some (.file loc) ∧
        v.HasScores w loc table ∧ ∀ r ∈ table, r.1 ∈ l.serving.statsList := by
  rcases launched fs binds loguru cwd w opts argv0 l hworks h (hmade cwd List.mem_cons_self) with
    ⟨loc, table, hplace, -, hscores, hrange, hnonEmpty, hsame, hothers⟩
  constructor
  · intro hall
    have husable : l.serving.Usable v := by
      by_contra hnot
      -- The file it works on is as it was, or the one it has set up.
      have hmade' : ∀ other, v.place l.serving.env.cwd l.serving.dbFile = some (.file other) →
          v.ServerMade l.serving.world other := by
        intro other hother
        by_cases heq : other = loc
        · rcases hscores with ⟨store, hstore, hkeeps⟩
          exact ⟨store, heq ▸ hstore, Or.inr ⟨table, hkeeps, hrange⟩⟩
        · rcases hmade _ (List.mem_cons_of_mem _ List.mem_cons_self) other hother with
            ⟨store, hstore, hstats⟩
          exact ⟨store, (hothers other heq).trans hstore, hstats⟩
      rcases exists_exit l.serving hworks hmade' hnot with ⟨ip, e, hrun, he⟩
      exact he (hall _ e hrun)
    rcases husable with ⟨other, table', hplace', hscores', hloaded'⟩
    by_cases hother : other = loc
    · exact Or.inl (by rw [hplace', hplace, hother])
    · exact Or.inr ⟨other, table', hplace', hscores'.congr (hothers other hother).symm, hloaded'⟩
  · intro hplaces requests e hrun
    refine run_usable l.serving hworks requests ?_ e hrun
    have hloaded : ∀ r ∈ table, r.1 ∈ l.serving.statsList := by
      intro r hr
      have hlookup := (Rows.lookup_eq_some_iff_mem table hscores.distinct r.1 r.2).mpr hr
      exact Finmap.mem_iff.mpr ⟨r.2, (hsame r.1).trans hlookup⟩
    rcases hplaces with hplaces | ⟨other, table', hplace', hscores', hloaded'⟩
    · exact ⟨loc, table, by rw [hplaces, hplace], hscores, hloaded⟩
    · by_cases hother : other = loc
      · exact ⟨loc, table, by rw [hplace', hother], hscores, hloaded⟩
      · exact ⟨other, table', hplace', hscores'.congr (hothers other hother), hloaded'⟩

end Launch

/-- A tree with a directory `/s` in it. -/
def shelves : FileSystem := FileSystem.uniform twoNames 1 (.file true ['o', 'n', 'e']) rfl

/-- No database is there. -/
def freshDisk : (storeEngine shelves).World := fun _ => Store.fresh

theorem freshDisk_made (loc : (storeView shelves).File) :
    (storeView shelves).ServerMade freshDisk loc :=
  ⟨Store.fresh, plain?_fresh, Or.inl rfl⟩

/-- A server started in the root to serve `/s`, with the name of its database left as
    it is, does not. -/
theorem survives_exact_elsewhere :
    ∃ l, serverMain shelves (fun _ => true) (fun _ => none) [] freshDisk [.d ['s']] [] = .ok l ∧
      ¬ ∀ requests e, l.serving.run requests = .error e → e = .undefined := by
  have hup : ((serverMain shelves (fun _ => true) (fun _ => none) [] freshDisk [.d ['s']]
      []).toOption.map (fun l => (l.serving.env.cwd, l.serving.dbFile)))
      = some ([['s']], "http-server.db".toList) := by decide +kernel
  cases hmain : serverMain shelves (fun _ => true) (fun _ => none) [] freshDisk [.d ['s']] [] with
  | error e =>
      rw [hmain] at hup
      exact absurd hup (by simp only [Except.toOption, Option.map_none, reduceCtorEq,
        not_false_eq_true])
  | ok l =>
      rw [hmain] at hup
      have hwhere := Prod.mk.inj (Option.some.inj hup)
      refine ⟨l, rfl, fun hall => ?_⟩
      rcases (survives_exact shelves (fun _ => true) (fun _ => none) [] freshDisk [.d ['s']] [] l
        (storeEngine_works shelves) hmain (fun _ _ loc _ => freshDisk_made loc)).mp hall with
        hplaces | ⟨loc, table, _, ⟨store, hstore, hkeeps⟩, _⟩
      · rw [hwhere.1, hwhere.2] at hplaces
        change dbPlace shelves [['s']] "http-server.db".toList
          = dbPlace shelves [] "http-server.db".toList at hplaces
        exact absurd hplaces (by decide)
      · rw [Option.some.inj (hstore.symm.trans plain?_fresh)] at hkeeps
        exact absurd hkeeps.columns (by simp only [Store.fresh, List.lookup_nil, reduceCtorEq,
          not_false_eq_true])

section Ledger

variable (fs : FileSystem) (binds : Nat → Bool) (loguru : Bytes → Option Stop) (cwd : Location)
  (w : sq.World) (opts : List CliOpt) (argv0 : Bytes) (l : Launched sq)

/-- **What the file has then**: if the name of the database leads to the same file
    from both directories, the file has after every run of updates the scores in
    memory, these are those it was started with and what the updates have added, no
    other database is changed, and the same command on the databases left behind starts
    a server with these scores. -/
theorem disk_ledger (hworks : sq.Works v)
    (h : serverMain fs binds loguru cwd w opts argv0 = .ok l)
    (hmade : ∀ loc, v.place cwd l.serving.dbFile = some (.file loc) → v.ServerMade w loc)
    (hplaces : v.place l.serving.env.cwd l.serving.dbFile = v.place cwd l.serving.dbFile)
    (requests : List (IpAddr × Bool)) (hips : ∀ r ∈ requests, r.1.text ≠ []) (s : Serving sq)
    (hrun : l.serving.run requests = .ok s) :
    ∃ loc table, s.Mirrors v loc table ∧
      (∀ ip, (Finmap.lookup ip s.statsList).getD 0
        = (Finmap.lookup ip l.serving.statsList).getD 0 + gained requests ip) ∧
      (∀ other, other ≠ loc → v.contents s.world other = v.contents w other) ∧
      ∃ l' : Launched sq, serverMain fs binds loguru cwd s.world opts argv0 = .ok l' ∧
        ∀ ip, Finmap.lookup ip l'.serving.statsList = Finmap.lookup ip s.statsList := by
  rcases launched fs binds loguru cwd w opts argv0 l hworks h hmade with
    ⟨loc, table, hplace, -, hscores, hrange, hnonEmpty, hsame, hothers⟩
  have hstart : l.serving.Mirrors v loc table :=
    ⟨by rw [hplaces, hplace], hscores, hrange, hnonEmpty, hsame⟩
  rcases run_mirrors l.serving hworks loc table requests s hstart hips hrun with
    ⟨⟨table', hend⟩, _, _, hgained, hothers'⟩
  refine ⟨loc, table', hend, hgained,
    fun other hne => (hothers' other hne).trans (hothers other hne), ?_⟩
  rcases relaunch fs binds loguru cwd w opts argv0 l hworks h s loc table' hplace hend with
    ⟨l', hagain, _, _, _, _, _, hscores'⟩
  exact ⟨l', hagain, fun ip => by rw [hscores' ip, hend.same ip]⟩

end Ledger

/-- A server started in the directory it serves. -/
theorem disk_ledger_here :
    ∃ l s, serverMain shelves (fun _ => true) (fun _ => none) [] freshDisk [] [] = .ok l ∧
      l.serving.run [(Blacklist.knownAddr, true)] = .ok s ∧
      ∃ loc table, s.Mirrors (storeView shelves) loc table := by
  have hup : ((serverMain shelves (fun _ => true) (fun _ => none) [] freshDisk [] []).toOption.map
      (fun l => (l.serving.env.cwd, (l.serving.run [(Blacklist.knownAddr, true)]).toOption.isSome)))
      = some ([], true) := by decide +kernel
  cases hmain : serverMain shelves (fun _ => true) (fun _ => none) [] freshDisk [] [] with
  | error e =>
      rw [hmain] at hup
      exact absurd hup (by simp only [Except.toOption, Option.map_none, reduceCtorEq,
        not_false_eq_true])
  | ok l =>
      rw [hmain] at hup
      have hwhere := Prod.mk.inj (Option.some.inj hup)
      cases hrun : l.serving.run [(Blacklist.knownAddr, true)] with
      | error e =>
          rw [hrun] at hwhere
          exact absurd hwhere.2 Bool.false_ne_true
      | ok s =>
          rcases disk_ledger shelves (fun _ => true) (fun _ => none) [] freshDisk [] [] l
            (storeEngine_works shelves) hmain (fun loc _ => freshDisk_made loc) (by rw [hwhere.1])
            [(Blacklist.knownAddr, true)] (List.forall_mem_singleton.mpr (by decide)) s hrun with
            ⟨loc, table, hmirrors, _⟩
          exact ⟨l, s, rfl, hrun, loc, table, hmirrors⟩

end HttpFileSharing
