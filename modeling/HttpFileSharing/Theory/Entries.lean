import HttpFileSharing.Theory.Links

/-!
# The Entries of a Listing

Which entries of a directory are listed and with what sizes. Hidden entries and
the favicon are left out by their names. The running binary is left out by its
spelling: the path of an entry, as it is put together from the path that was
asked for, is compared with the path the server was started by. The two are the
same place without being the same path if the server was started by a relative
path, or by one with a dot in it, and then the binary is listed. They are the
same path without being the same place if both are relative and the server has
changed its directory in between, and then something else is not listed.

The size is looked up by the path once more. The kernel can refuse that path
though it opened the directory, and behind a NUL it is the path of the
directory itself.

## Main definitions

* `Shown`: The names that should be listed.
* `ListsExactly`: A directory is listed as it should be.
* `ListsByPath`: What decides whether it is.
* `StartedBy`: A server that was started by a path to its binary.

## Theorems

* `stat_entry`, `fileSize_entry`: Looking up an entry by its path.
* `names_exact_iff`, `entry_exact_iff`: The names that are listed, and what is
  listed with them.
* `target_of_pathElems`: Paths that compare as the same lead to the same place.
* `binary_of_pathElems`, `spelled_iff`: What is left out for its spelling.
* `listing_entries_exact`: The exact condition.
* `listing_entries_fails`: A binary that is listed.
-/

namespace HttpFileSharing

/-- The names that should be listed: all but the hidden ones, the favicon and
    the binary at `exe`. -/
def Shown (exe loc : Location) (name : Bytes) : Prop :=
  name.head? ≠ some '.' ∧ name ≠ "favicon.ico".toList ∧ loc ++ [name] ≠ exe

/-- The directory at `loc` is listed as it should be: each name once, with its
    own kind and, for a regular file, its own size. -/
def ListsExactly (env : Env) (exe : Location) (errno : Errno) (path : Bytes) (loc : Location)
    (names : List Bytes) : Prop :=
  ∃ entries errno', getFileListing env errno path = .ok (some entries, errno') ∧
    (entries.map FSEntry.name).Nodup ∧
    (∀ name, name ∈ entries.map FSEntry.name ↔ name ∈ names ∧ Shown exe loc name) ∧
    ∀ it ∈ entries, it.isDir = ((env.fs.node (loc ++ [it.name])).bind Node.names?).isSome ∧
      ∀ readable content, env.fs.node (loc ++ [it.name]) = some (.file readable content) →
        it.fileSize = content.length

/-- What decides whether it is: the path is short enough, an entry that is not
    left out by its name has the path of the binary exactly if it is the binary,
    and the path of a file that is not empty can be looked up. -/
structure ListsByPath (env : Env) (exe : Location) (path : Bytes) (loc : Location)
    (names : List Bytes) : Prop where
  short : (cookPath env path).length < pathMax
  spelled : ∀ name ∈ names, name.head? ≠ some '.' → name ≠ "favicon.ico".toList →
    (pathElems (joinPath (cookPath env path) name) = pathElems env.executableFileName ↔
      loc ++ [name] = exe)
  sized : ∀ name ∈ names, Shown exe loc name → ∀ readable content,
    env.fs.node (loc ++ [name]) = some (.file readable content) → content ≠ [] →
    '\x00' ∉ cookPath env path ∧ env.fs.refuses (cookPath env path ++ '/' :: name) = none

section Sizes

variable (env : Env) (path : Bytes) (loc : Location) (names : List Bytes)

/-- Looking up an entry by its path, where the path has no NUL in it. -/
theorem stat_entry (hnul : '\x00' ∉ path) (hopen : env.fs.opendir env.cwd path = .ok (loc, names))
    (name : Bytes) (hmem : name ∈ names) (node : Node)
    (hnode : env.fs.node (loc ++ [name]) = some node) :
    env.fs.stat env.cwd (path ++ '/' :: name)
      = match env.fs.refuses (path ++ '/' :: name) with
        | some e => .error e
        | none => .ok node := by
  have hresolve := resolve_of_opendir env path loc names hopen
  have hnames := names_of_opendir env path loc names hopen
  have hvalid := env.fs.names_valid loc names hnames name hmem
  have hlocate := FileSystem.resolve_ok _ _ _ _ hresolve
  have hcut : cStr name = name := cStr_of_nulFree name hvalid.2.2.2.2
  have hthere : env.fs.locate env.cwd (path ++ '/' :: name) = .ok (loc ++ [name]) := by
    rw [env.fs.locate_append_slash env.cwd path name (FileSystem.ne_nil_of_locate _ _ _ _ hlocate)
      hnul, hlocate, hcut, moves_name name hvalid.2.2.2.1, moveOf_validName name hvalid]
    exact (env.fs.walk_down_name loc names hnames name).trans (if_pos hmem)
  have hpath : '\x00' ∉ path ++ '/' :: name := by
    rw [List.mem_append, List.mem_cons, not_or, not_or]
    exact ⟨hnul, by decide, hvalid.2.2.2.2⟩
  rw [FileSystem.stat, FileSystem.resolve, cStr_of_nulFree _ hpath]
  cases env.fs.refuses (path ++ '/' :: name) with
  | some e => rfl
  | none => simp only [hthere, hnode]

/-- Behind a NUL it is the directory that is looked up. -/
theorem getFileSize_nul (hnul : '\x00' ∈ path)
    (hopen : env.fs.opendir env.cwd path = .ok (loc, names)) (name : Bytes) :
    getFileSize env (path ++ '/' :: name) = none := by
  have hresolve := resolve_of_opendir env path loc names hopen
  rcases env.fs.node_of_names loc names (names_of_opendir env path loc names hopen) with
    ⟨readable, size, hnode⟩
  rw [getFileSize, FileSystem.stat, env.fs.resolve_congr env.cwd _ path
    (cStr_append_of_mem path _ hnul), hresolve]
  simp only [hnode]

/-- The size of an entry that is a regular file. -/
theorem fileSize_entry (hopen : env.fs.opendir env.cwd path = .ok (loc, names)) (name : Bytes)
    (hmem : name ∈ names) (readable : Bool) (content : Bytes)
    (hnode : env.fs.node (loc ++ [name]) = some (.file readable content)) :
    (withFileSize env path { isDir := false, name := name }).fileSize = content.length ↔
      (content ≠ [] → '\x00' ∉ path ∧ env.fs.refuses (path ++ '/' :: name) = none) := by
  -- Without a size that is looked up it stays at zero.
  have hzero : 0 = content.length ↔ content = [] := by
    rw [eq_comm, List.length_eq_zero_iff]
  rw [withFileSize, if_neg Bool.false_ne_true]
  by_cases hnul : '\x00' ∈ path
  · simp only [getFileSize_nul env path loc names hnul hopen name, hzero, hnul, not_true,
      false_and, imp_false, not_not]
  · have hstat := stat_entry env path loc names hnul hopen name hmem _ hnode
    rw [getFileSize, hstat]
    cases env.fs.refuses (path ++ '/' :: name) with
    | some e => simp only [hzero, reduceCtorEq, and_false, imp_false, ne_eq, not_not]
    | none => exact iff_of_true rfl (fun _ => ⟨hnul, rfl⟩)

end Sizes

section Entries

variable (env : Env) (exe : Location) (path : Bytes) (loc : Location) (names : List Bytes)

/-- The entries that are listed. -/
theorem entryOf_eq_some_iff (name : Bytes) (it : FSEntry) :
    entryOf env path loc name = some it ↔
      pathElems (joinPath path name) ≠ pathElems env.executableFileName ∧
        name ≠ "favicon.ico".toList ∧ name.head? ≠ some '.' ∧
        it = { isDir := ((env.fs.node (loc ++ [name])).bind Node.names?).isSome,
               name := name } := by
  rw [entryOf]
  split
  · rename_i hexe
    exact iff_of_false (by simp only [reduceCtorEq, not_false_eq_true]) (fun h => h.1 hexe)
  · rename_i hexe
    split
    · rename_i hicon
      exact iff_of_false (by simp only [reduceCtorEq, not_false_eq_true]) (fun h => h.2.1 hicon)
    · rename_i hicon
      split
      · rename_i hdot
        exact iff_of_false (by simp only [reduceCtorEq, not_false_eq_true])
          (fun h => h.2.2.1 hdot)
      · rename_i hdot
        rw [Option.some.injEq]
        exact ⟨fun h => ⟨hexe, hicon, hdot, h.symm⟩, fun h => h.2.2.2.symm⟩

/-- The listing of a directory that opens, entry by entry. -/
theorem mem_listing_iff (it : FSEntry) :
    it ∈ (names.filterMap (entryOf env path loc)).map (withFileSize env path) ↔
      ∃ name ∈ names, ∃ entry, entryOf env path loc name = some entry ∧
        withFileSize env path entry = it := by
  simp only [List.mem_map, List.mem_filterMap]
  constructor
  · rintro ⟨entry, ⟨name, hname, hentry⟩, hit⟩
    exact ⟨name, hname, entry, hentry, hit⟩
  · rintro ⟨name, hname, entry, hentry, hit⟩
    exact ⟨entry, ⟨name, hname, hentry⟩, hit⟩

/-- The names of a listing are those of the directory that are listed, in the
    same order. -/
theorem map_name_listing :
    ((names.filterMap (entryOf env path loc)).map (withFileSize env path)).map FSEntry.name
      = names.filter (fun name => (entryOf env path loc name).isSome) := by
  induction names with
  | nil => rfl
  | cons name names ih =>
      rw [List.filterMap_cons, List.filter_cons]
      cases hentry : entryOf env path loc name with
      | none => exact ih
      | some entry =>
          rw [List.map_cons, List.map_cons, withFileSize_name, entryOf_name env path loc name entry
            hentry, ih]
          rfl

/-- The right names are listed if the paths tell the binary from the others. -/
theorem names_exact_iff :
    (∀ name, name ∈ names.filter (fun name => (entryOf env path loc name).isSome) ↔
      name ∈ names ∧ Shown exe loc name) ↔
    ∀ name ∈ names, name.head? ≠ some '.' → name ≠ "favicon.ico".toList →
      (pathElems (joinPath path name) = pathElems env.executableFileName ↔
        loc ++ [name] = exe) := by
  have hlisted : ∀ name, (entryOf env path loc name).isSome = true ↔
      pathElems (joinPath path name) ≠ pathElems env.executableFileName ∧
        name ≠ "favicon.ico".toList ∧ name.head? ≠ some '.' := by
    intro name
    rw [Option.isSome_iff_exists]
    simp only [entryOf_eq_some_iff, exists_and_left, exists_eq, and_true]
  simp only [List.mem_filter, hlisted, Shown]
  refine forall_congr' (fun name => ?_)
  constructor
  · intro h hmem hdot hicon
    refine not_iff_not.mp ⟨fun hne => ?_, fun hne => ?_⟩
    · exact (h.mp ⟨hmem, hne, hicon, hdot⟩).2.2.2
    · exact (h.mpr ⟨hmem, hdot, hicon, hne⟩).2.1
  · intro h
    refine and_congr_right (fun hmem => ⟨?_, ?_⟩)
    · rintro ⟨hne, hicon, hdot⟩
      exact ⟨hdot, hicon, fun heq => hne ((h hmem hdot hicon).mpr heq)⟩
    · rintro ⟨hdot, hicon, hne⟩
      exact ⟨fun heq => hne ((h hmem hdot hicon).mp heq), hicon, hdot⟩

/-- The kind of a listed entry is right, and its size if it can be looked up. -/
theorem entry_exact_iff (hopen : env.fs.opendir env.cwd path = .ok (loc, names)) (name : Bytes)
    (hmem : name ∈ names) (entry : FSEntry) (hentry : entryOf env path loc name = some entry) :
    (withFileSize env path entry).isDir = ((env.fs.node (loc ++ [name])).bind Node.names?).isSome ∧
      ∀ readable content, env.fs.node (loc ++ [name]) = some (.file readable content) →
        ((withFileSize env path entry).fileSize = content.length ↔
          (content ≠ [] → '\x00' ∉ path ∧ env.fs.refuses (path ++ '/' :: name) = none)) := by
  rcases (entryOf_eq_some_iff env path loc name entry).mp hentry with ⟨_, _, _, rfl⟩
  constructor
  · rw [withFileSize]
    split
    · rfl
    · split <;> rfl
  · intro readable content hnode
    have hfile : ((env.fs.node (loc ++ [name])).bind Node.names?).isSome = false := by
      rw [hnode]
      rfl
    rw [hfile]
    exact fileSize_entry env path loc names hopen name hmem readable content hnode

end Entries

/-- A server that was started by a path to its binary at `exe`. -/
def StartedBy (env : Env) (exe : Location) : Prop :=
  ∃ cwd opts argv0, (∃ names, (env.fs.node cwd).bind Node.names? = some names) ∧
    startup env.fs cwd opts argv0 = .ok (some env) ∧ env.fs.resolve cwd argv0 = .ok exe

section Spelling

/-- A path leads where its components lead that are not empty. -/
theorem target_filter (components : List Bytes) (loc : Location) :
    target loc (components.map moveOf) = target loc ((components.filter (· ≠ [])).map moveOf) := by
  induction components generalizing loc with
  | nil => rfl
  | cons c components ih =>
      rw [List.filter_cons]
      by_cases hc : c = []
      · rw [if_neg (by rw [decide_eq_true_eq, not_not]; exact hc), hc]
        exact ih loc
      · rw [if_pos (decide_eq_true hc)]
        exact ih _

/-- The components of a path that are not empty, from what paths are compared
    by. -/
theorem filter_pathElems (path : Bytes) :
    (pathElems path).2.filter (· ≠ []) = (path.splitOn '/').filter (· ≠ []) := by
  have htwice : ((path.splitOn '/').filter (· ≠ [])).filter (· ≠ [])
      = (path.splitOn '/').filter (· ≠ []) := by
    rw [List.filter_filter]
    simp only [Bool.and_self]
  rw [pathElems]
  dsimp only
  split
  · rw [List.filter_append, htwice]
    exact List.append_nil _
  · exact htwice

theorem target_of_pathElems (p q : Bytes) (loc : Location) (h : pathElems p = pathElems q) :
    target loc (moves p) = target loc (moves q) := by
  rw [moves, moves, target_filter, target_filter (q.splitOn '/'), ← filter_pathElems,
    ← filter_pathElems, h]

/-- A character of a path is one of a component, or a slash. -/
theorem exists_mem_splitOn (p : Bytes) (c : Char) (hc : c ∈ p) (hslash : c ≠ '/') :
    ∃ component ∈ p.splitOn '/', c ∈ component := by
  induction p with
  | nil => exact absurd hc List.not_mem_nil
  | cons x p ih =>
      rw [List.splitOn_cons_eq_if_modifyHead]
      cases hsplit : p.splitOn '/' with
      | nil => exact absurd hsplit (List.splitOn_ne_nil _ _)
      | cons first others =>
          rw [hsplit] at ih
          split
          · rename_i hx
            have hmem : c ∈ p := (List.mem_cons.mp hc).resolve_left (fun h =>
              hslash (h.trans (eq_of_beq hx)))
            rcases ih hmem with ⟨component, hcomponent, hin⟩
            exact ⟨component, List.mem_cons_of_mem _ hcomponent, hin⟩
          · rw [List.modifyHead_cons]
            rcases List.mem_cons.mp hc with rfl | hmem
            · exact ⟨c :: first, List.mem_cons_self, List.mem_cons_self⟩
            · rcases ih hmem with ⟨component, hcomponent, hin⟩
              rcases List.mem_cons.mp hcomponent with rfl | hcomponent
              · exact ⟨x :: component, List.mem_cons_self, List.mem_cons_of_mem _ hin⟩
              · exact ⟨component, List.mem_cons_of_mem _ hcomponent, hin⟩

/-- Paths that compare as the same have the same characters but for slashes. -/
theorem mem_of_pathElems (p q : Bytes) (c : Char) (hslash : c ≠ '/')
    (h : pathElems p = pathElems q) (hc : c ∈ p) : c ∈ q := by
  rcases exists_mem_splitOn p c hc hslash with ⟨component, hcomponent, hin⟩
  have hmem : component ∈ (q.splitOn '/').filter (· ≠ []) := by
    rw [← filter_pathElems, ← h, filter_pathElems]
    exact List.mem_filter.mpr ⟨hcomponent, decide_eq_true (List.ne_nil_of_mem hin)⟩
  exact (mem_splitOn q component (List.mem_filter.mp hmem).1).2.2 c hin

/-- The path of an entry leads down by its name from where the path leads. -/
theorem target_joinPath (path name : Bytes) (hne : path ≠ []) (hname : ValidName name)
    (loc : Location) :
    target loc (moves (joinPath path name)) = target loc (moves path) ++ [name] := by
  have hdown : ∀ l, target l (moves name) = l ++ [name] := by
    intro l
    rw [moves_name name hname.2.2.2.1, moveOf_validName name hname]
    rfl
  rw [joinPath]
  by_cases hslash : path.getLast? = some '/'
  · rw [if_pos (Or.inr hslash)]
    rcases List.getLast?_eq_some_iff.mp hslash with ⟨a, rfl⟩
    rw [List.append_assoc, List.singleton_append, moves_append_slash, moves_append_slash,
      target_append, target_append, hdown]
    rfl
  · rw [if_neg (not_or.mpr ⟨hne, hslash⟩), moves_append_slash, target_append, hdown]

/-- A relative path is not an absolute one. -/
theorem pathElems_ne_of_relative (p q : Bytes) (hp : p.head? = some '/') (hq : q.head? ≠ some '/') :
    pathElems p ≠ pathElems q := by
  intro h
  have hroot := congrArg Prod.fst h
  rw [pathElems, pathElems] at hroot
  dsimp only at hroot
  rw [hp, decide_eq_decide] at hroot
  exact hq (hroot.mp rfl)

/-- What a startup makes of `argv[0]`. -/
theorem executableFileName_startup (fs : FileSystem) (cwd : Location) (opts : List Opt)
    (argv0 : Bytes) (env : Env) (h : startup fs cwd opts argv0 = .ok (some env)) :
    env.executableFileName = cStr argv0 := by
  rw [startup] at h
  split at h
  · exact absurd h (by simp only [reduceCtorEq, not_false_eq_true])
  · exact absurd h (by simp only [Except.ok.injEq, reduceCtorEq, not_false_eq_true])
  · split at h
    · split at h
      · split at h
        · rw [← Option.some.inj (Except.ok.inj h)]
        · exact absurd h (by simp only [Except.ok.injEq, reduceCtorEq, not_false_eq_true])
      · exact absurd h (by simp only [Except.ok.injEq, reduceCtorEq, not_false_eq_true])
    · rw [← Option.some.inj (Except.ok.inj h)]

/-- With an absolute directory option nothing but the binary is left out for its
    spelling. -/
theorem binary_of_pathElems (env : Env) (exe : Location) (hstart : StartedBy env exe)
    (hdir : env.options.dir.head? = some '/') (path : Bytes) (loc : Location) (names : List Bytes)
    (hopen : env.fs.opendir env.cwd (cookPath env path) = .ok (loc, names)) (name : Bytes)
    (hmem : name ∈ names)
    (h : pathElems (joinPath (cookPath env path) name) = pathElems env.executableFileName) :
    loc ++ [name] = exe := by
  rcases hstart with ⟨cwd, opts, argv0, _, hstartup, hresolve⟩
  have hexe := executableFileName_startup env.fs cwd opts argv0 env hstartup
  have hvalid := env.fs.names_valid loc names (names_of_opendir env _ loc names hopen) name hmem
  have hlocate := FileSystem.resolve_ok _ _ _ _ (resolve_of_opendir env _ loc names hopen)
  have hne := FileSystem.ne_nil_of_locate _ _ _ _ hlocate
  have hcooked : (cookPath env path).head? = some '/' := by
    rw [cookPath, List.head?_append, hdir]
    rfl
  have hjoined : (joinPath (cookPath env path) name).head? = some '/' := by
    rw [joinPath]
    split <;> rw [List.head?_append, hcooked] <;> rfl
  have habsolute : env.executableFileName.head? = some '/' := by
    by_contra hrel
    exact pathElems_ne_of_relative _ _ hjoined hrel h
  -- No path has a NUL in it, so both are walked to their ends from the root.
  have hnul : '\x00' ∉ cookPath env path := by
    intro hin
    have hmem : '\x00' ∈ joinPath (cookPath env path) name := by
      rw [joinPath]
      split
      · exact List.mem_append_left _ hin
      · exact List.mem_append_left _ hin
    refine cStr_nulFree argv0 ?_
    rw [← hexe]
    exact mem_of_pathElems _ _ _ (by decide) h hmem
  have hloc := FileSystem.locate_ok _ _ _ _ hlocate
  have hplace := FileSystem.locate_ok _ _ _ _ (FileSystem.resolve_ok _ _ _ _ hresolve)
  rw [cStr_of_nulFree _ hnul, startOf, if_pos hcooked] at hloc
  rw [← hexe, startOf, if_pos habsolute] at hplace
  rw [hplace, ← target_of_pathElems _ _ [] h, target_joinPath _ name hne hvalid, ← hloc]

end Spelling

/-- **Where the paths tell the binary from the others**: with an absolute
    directory option, exactly where the binary is not in the directory, is left
    out by its name, or was started by the path it has there. -/
theorem spelled_iff (env : Env) (exe : Location) (hstart : StartedBy env exe)
    (hdir : env.options.dir.head? = some '/') (path : Bytes) (loc : Location) (names : List Bytes)
    (hopen : env.fs.opendir env.cwd (cookPath env path) = .ok (loc, names)) :
    (∀ name ∈ names, name.head? ≠ some '.' → name ≠ "favicon.ico".toList →
      (pathElems (joinPath (cookPath env path) name) = pathElems env.executableFileName ↔
        loc ++ [name] = exe)) ↔
    ∀ name ∈ names, name.head? ≠ some '.' → name ≠ "favicon.ico".toList → loc ++ [name] = exe →
      pathElems (joinPath (cookPath env path) name) = pathElems env.executableFileName := by
  constructor
  · exact fun h name hmem hdot hicon => (h name hmem hdot hicon).mpr
  · exact fun h name hmem hdot hicon =>
      ⟨binary_of_pathElems env exe hstart hdir path loc names hopen name hmem,
        h name hmem hdot hicon⟩

/-- **The entries of a listing**: a directory that can be opened is listed as it
    should be exactly if its path is short enough, the paths of its entries tell
    the binary from the others, and the files can be looked up by them. -/
theorem listing_entries_exact (env : Env) (hfit : NamesFit env.fs) (exe : Location)
    (errno : Errno) (path : Bytes) (loc : Location) (names : List Bytes)
    (hopen : env.fs.opendir env.cwd (cookPath env path) = .ok (loc, names)) :
    ListsExactly env exe errno path loc names ↔ ListsByPath env exe path loc names := by
  have hnodup := env.fs.names_nodup loc names (names_of_opendir env _ loc names hopen)
  by_cases hshort : pathMax ≤ (cookPath env path).length
  · refine iff_of_false ?_ (fun h => absurd h.short (Nat.not_lt.mpr hshort))
    rintro ⟨entries, errno', hlisting, -⟩
    rw [getFileListing_long env errno path hshort] at hlisting
    exact absurd hlisting (by simp only [Except.ok.injEq, Prod.mk.injEq, reduceCtorEq, false_and,
      not_false_eq_true])
  · have hlisting := getFileListing_eq env hfit errno path hshort loc names hopen
    have hnames := map_name_listing env (cookPath env path) loc names
    have hentry := entry_exact_iff env (cookPath env path) loc names hopen
    constructor
    · rintro ⟨entries, errno', hentries, -, hmem, hdata⟩
      rw [hlisting, Except.ok.injEq, Prod.mk.injEq, Option.some.injEq] at hentries
      rw [← hentries.1] at hmem hdata
      rw [hnames] at hmem
      refine ⟨Nat.lt_of_not_le hshort,
        (names_exact_iff env exe (cookPath env path) loc names).mp hmem, ?_⟩
      intro name hname hshown readable content hnode
      -- The name is listed, so its size was looked up and is right.
      have hlisted := (List.mem_filter.mp ((hmem name).mpr ⟨hname, hshown⟩)).2
      rcases Option.isSome_iff_exists.mp hlisted with ⟨entry, hsome⟩
      have hsize := hdata _ ((mem_listing_iff env (cookPath env path) loc names _).mpr
        ⟨name, hname, entry, hsome, rfl⟩)
      rw [withFileSize_name, entryOf_name env _ loc name entry hsome] at hsize
      exact ((hentry name hname entry hsome).2 readable content hnode).mp
        (hsize.2 readable content hnode)
    · rintro ⟨-, hspelled, hsized⟩
      have hmem := (names_exact_iff env exe (cookPath env path) loc names).mpr hspelled
      refine ⟨_, errno, hlisting, ?_, ?_, ?_⟩
      · rw [hnames]
        exact hnodup.filter _
      · rw [hnames]
        exact hmem
      · intro it hit
        rcases (mem_listing_iff env (cookPath env path) loc names it).mp hit with
          ⟨name, hname, entry, hsome, rfl⟩
        rw [withFileSize_name, entryOf_name env _ loc name entry hsome]
        have hshown := ((hmem name).mp (List.mem_filter.mpr ⟨hname, by rw [hsome]; rfl⟩)).2
        exact ⟨(hentry name hname entry hsome).1, fun readable content hnode =>
          ((hentry name hname entry hsome).2 readable content hnode).mpr
            (hsized name hname hshown readable content hnode)⟩

/-- The sample server, asked for its own directory. -/
theorem listing_entries_exact_sample :
    ListsExactly sampleEnv [] 0 "/".toList [['s']] [['s'], ['x']] ↔
      ListsByPath sampleEnv [] "/".toList [['s']] [['s'], ['x']] :=
  listing_entries_exact sampleEnv sampleEnv_namesFit [] 0 "/".toList [['s']] [['s'], ['x']]
    (by decide)

/-- The server in `/s`, started there as `./x`. -/
def startedEnv : Env := { sampleEnv with executableFileName := "./x".toList }

/-- The binary is listed, since it was started by a relative path. -/
theorem listing_entries_fails :
    ¬ ∀ env exe errno path loc names, NamesFit env.fs → StartedBy env exe →
      env.fs.opendir env.cwd (cookPath env path) = .ok (loc, names) →
      ListsExactly env exe errno path loc names := by
  intro hall
  have hstarted : StartedBy startedEnv [['s'], ['x']] :=
    ⟨[['s']], [], "./x".toList, ⟨twoNames.names, by decide⟩, rfl, by decide⟩
  rcases hall startedEnv [['s'], ['x']] 0 "/".toList [['s']] [['s'], ['x']] sampleEnv_namesFit
    hstarted (by decide) with ⟨entries, errno', hlisting, -, hnames, -⟩
  have hlisted : getFileListing startedEnv 0 "/".toList
      = .ok (some [⟨false, ['s'], 2⟩, ⟨false, ['x'], 2⟩], 0) := by decide
  rw [hlisted, Except.ok.injEq, Prod.mk.injEq, Option.some.injEq] at hlisting
  rw [← hlisting.1] at hnames
  exact ((hnames ['x']).mp (by decide)).2.2.2 rfl

end HttpFileSharing
