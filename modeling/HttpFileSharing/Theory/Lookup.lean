import HttpFileSharing.Core.File
import HttpFileSharing.Theory.Paths

/-!
# One File, Two Look-ups

A request's file is looked up twice, by two different paths, and this is when
both paths name the same place. The first path is the directory option with
the decoded URI behind it. The second is the decoded URI without its first
character, taken from the working directory.

They agree in every file system the server can be started on exactly when the
directory option still names the working directory after the change into it,
and the URI is a slash followed by a character that is not one. A relative
option stops naming the directory once the process is in it. A URI that does
not begin with a slash is glued to the last name of the option, and one that
begins with two slashes is absolute without the first of them. The one other
URI on which the paths agree begins with a NUL and goes on with nothing but
dots and slashes: the first path is then cut to the option itself, and the
second stays where it is.

Whether two paths name the same place can be an accident of the tree, so the
condition on the option is exact over all URIs of the right form, and the
condition on the URI is exact over all trees and options of the right form.
One such accident is told apart: a server in the root looks up both paths from
there, and a second slash does no harm.

## Main definitions

* `Started`: A server that has started up.
* `tested`, `served`: The places the two look-ups find.
* `SameObject`: They are the same place.
* `SelfResolving`: The directory option names the working directory.
* `Ordinary`, `NulDot`: The URIs on which the look-ups agree.
* `gridEnv`: A server in a uniform tree.

## Theorems

* `startup_spec`: What a startup leaves behind.
* `selfResolving_of_absolute`: An absolute option is never the trouble.
* `sameObject_of_ordinary`, `sameObject_of_nulDot`: Where they agree.
* `sameObject_in_root`: When they agree in a server in the root.
* `selfResolving_of_ordinary`: What agreeing on one URI says of the option.
* `walk_glued`, `walk_leaves`: Where the walks in such a tree do not end.
* `exists_differ`: A server on which they differ, for every other URI.
* `same_object_exact`: The two exact conditions.
* `same_object_fails`: A relative option, and a file beside the directory.
-/

namespace HttpFileSharing

/-- A server that has started up, from a working directory that is there. -/
def Started (e : Env) : Prop :=
  ∃ fs cwd opts argv0, (∃ names, (fs.node cwd).bind Node.names? = some names) ∧
    startup fs cwd opts argv0 = .ok (some e)

/-- The place `check_if_file` tests. -/
def tested (e : Env) (uri : Bytes) : Option Location :=
  (e.fs.locate e.cwd (cookPath e (cleanFilename uri))).toOption

/-- The place `get_file` looks at. -/
def served (e : Env) (uri : Bytes) : Option Location :=
  (e.fs.locate e.cwd (cleanFilename (uri.drop 1))).toOption

/-- The two look-ups find the same place, or both find none. -/
def SameObject (e : Env) (uri : Bytes) : Prop := tested e uri = served e uri

/-- The directory option, looked up from the working directory, is the
    working directory. -/
def SelfResolving (e : Env) : Prop := e.fs.locate e.cwd e.options.dir = .ok e.cwd

/-- A slash, and a character that is neither a slash nor a NUL. -/
def Ordinary (uri : Bytes) : Prop :=
  ∃ c rest, uri = '/' :: c :: rest ∧ c ≠ '/' ∧ c ≠ '\x00'

/-- A NUL, and a relative path of dots and slashes up to the next. -/
def NulDot (uri : Bytes) : Prop :=
  ∃ rest, uri = '\x00' :: rest ∧ cStr (cleanFilename rest) ≠ [] ∧
    (cStr (cleanFilename rest)).head? ≠ some '/' ∧
    ∀ m ∈ moves (cStr (cleanFilename rest)), m = .here

section Found

theorem toOption_eq_some_iff {ε α : Type*} (e : Except ε α) (a : α) :
    e.toOption = some a ↔ e = .ok a := by
  cases e with
  | error _ => simp only [Except.toOption, reduceCtorEq]
  | ok b => simp only [Except.toOption, Option.some.injEq, Except.ok.injEq]

theorem tested_eq_some_iff (e : Env) (uri : Bytes) (loc : Location) :
    tested e uri = some loc ↔
      e.fs.locate e.cwd (cookPath e (cleanFilename uri)) = .ok loc := by
  rw [tested, toOption_eq_some_iff]

theorem served_eq_some_iff (e : Env) (uri : Bytes) (loc : Location) :
    served e uri = some loc ↔ e.fs.locate e.cwd (cleanFilename (uri.drop 1)) = .ok loc := by
  rw [served, toOption_eq_some_iff]

end Found

section Startup

/-- The option loop stores no NUL. -/
theorem nulFree_parseOpt (st st' : ProgOptions × Bool) (opt : Opt)
    (hst : '\x00' ∉ st.1.dir) (h : ProgOptions.parseOpt st opt = .ok st') :
    '\x00' ∉ st'.1.dir := by
  cases opt with
  | d optarg =>
      simp only [ProgOptions.parseOpt, ProgOptions.setDir] at h
      split at h
      · rename_i options hset
        split at hset
        · rw [← Except.ok.inj h, ← Except.ok.inj hset]
          split
          · exact fun hmem => cStr_nulFree optarg ((List.dropLast_sublist _).subset hmem)
          · exact cStr_nulFree optarg
        · exact absurd hset (by simp only [reduceCtorEq, not_false_eq_true])
      · exact absurd h (by simp only [reduceCtorEq, not_false_eq_true])
  | V | n _ | other | unknown =>
      rw [← Except.ok.inj h]
      exact hst

theorem nulFree_parse (opts : List Opt) (options : ProgOptions) (known : Bool)
    (h : ProgOptions.parse opts = .ok (options, known)) : '\x00' ∉ options.dir := by
  -- By induction on the options, for any options already parsed.
  have hfold : ∀ (opts : List Opt) (st st' : ProgOptions × Bool), '\x00' ∉ st.1.dir →
      opts.foldlM ProgOptions.parseOpt st = .ok st' → '\x00' ∉ st'.1.dir := by
    intro opts
    induction opts with
    | nil => exact fun st st' hst h => Except.ok.inj h ▸ hst
    | cons opt opts ih =>
        intro st st' hst h
        rw [List.foldlM_cons] at h
        cases hopt : ProgOptions.parseOpt st opt with
        | error e =>
            rw [hopt] at h
            exact absurd h (by simp only [bind, Except.bind, reduceCtorEq, not_false_eq_true])
        | ok st₁ =>
            rw [hopt] at h
            exact ih st₁ st' (nulFree_parseOpt st st₁ opt hst hopt) h
  rw [ProgOptions.parse] at h
  split at h
  · rename_i options' unknown hopts
    have hoptions : options' = options := congrArg Prod.fst (Except.ok.inj h)
    rw [← hoptions]
    exact hfold opts _ _ (by decide) hopts
  · exact absurd h (by simp only [reduceCtorEq, not_false_eq_true])

/-- What a startup leaves behind: a directory option that is a nonempty C
    string, a working directory that is a directory, and somewhere the option
    named it from. -/
theorem startup_spec (e : Env) (h : Started e) :
    e.options.dir ≠ [] ∧ '\x00' ∉ e.options.dir ∧
      (∃ names, (e.fs.node e.cwd).bind Node.names? = some names) ∧
      ∃ cwd, e.fs.locate cwd e.options.dir = .ok e.cwd := by
  rcases h with ⟨fs, cwd, opts, argv0, ⟨names, hnames⟩, hstart⟩
  rw [startup] at hstart
  split at hstart
  · exact absurd hstart (by simp only [reduceCtorEq, not_false_eq_true])
  · exact absurd hstart (by simp only [Except.ok.injEq, reduceCtorEq, not_false_eq_true])
  · rename_i options hparse
    have hnul := nulFree_parse opts options true hparse
    split at hstart
    · split at hstart
      · -- The option was changed into, so it names something.
        rename_i loc hresolve
        split at hstart
        · rename_i readable size dirNames hnode
          have hlocate := FileSystem.resolve_ok fs cwd _ loc hresolve
          rw [← Option.some.inj (Except.ok.inj hstart)]
          exact ⟨FileSystem.ne_nil_of_locate _ _ _ _ hlocate, hnul,
            ⟨dirNames, by rw [hnode]; rfl⟩, cwd, hlocate⟩
        · exact absurd hstart (by simp only [Except.ok.injEq, reduceCtorEq, not_false_eq_true])
      · exact absurd hstart (by simp only [Except.ok.injEq, reduceCtorEq, not_false_eq_true])
    · -- The option was a dot, and has become the name of where the process is.
      rw [← Option.some.inj (Except.ok.inj hstart)]
      have hsome : (fs.node cwd).isSome = true := by
        cases hnode : fs.node cwd with
        | none =>
            rw [hnode, Option.bind_none] at hnames
            exact absurd hnames (by simp only [reduceCtorEq, not_false_eq_true])
        | some node => rfl
      exact ⟨pathOf_ne_nil cwd, nulFree_pathOf cwd (fs.validName_of_node cwd hsome),
        ⟨names, hnames⟩, cwd, fs.locate_pathOf cwd cwd ⟨names, hnames⟩⟩

/-- An absolute directory option names the working directory. -/
theorem selfResolving_of_absolute (e : Env) (h : Started e)
    (habs : e.options.dir.head? = some '/') : SelfResolving e := by
  rcases startup_spec e h with ⟨_, hnul, _, cwd, hlocate⟩
  rw [SelfResolving, ← hlocate, FileSystem.locate, FileSystem.locate, cStr_of_nulFree _ hnul,
    startOf, startOf, if_pos habs, if_pos habs]

end Startup

section Agreement

/-- Decoding keeps a leading slash, or any other leading character that does
    not begin an escape. -/
theorem cleanFilename_cons (c : Char) (rest : Bytes) (hc : c ≠ '%') :
    cleanFilename (c :: rest) = c :: cleanFilename rest :=
  replaceAll_cons_of_ne '%' _ _ c rest hc

/-- What a decoded string begins with: what the string does, or a space. -/
theorem head?_cleanFilename (c : Char) (rest : Bytes) :
    ∃ x tail, cleanFilename (c :: rest) = x :: tail ∧ (x = c ∨ x = ' ') := by
  cases hclean : cleanFilename (c :: rest) with
  | nil =>
      exact absurd hclean (replaceAll_ne_nil _ _ _ (List.cons_ne_nil _ _) (List.cons_ne_nil _ _))
  | cons x tail =>
      have hhead := head?_replaceAll escapedSpace [' '] ' ' c rest rfl
      rw [← cleanFilename, hclean, List.head?_cons, Option.some.injEq, Option.some.injEq] at hhead
      exact ⟨x, tail, rfl, hhead⟩

/-- Decoding leaves a first character that is neither a slash nor a NUL. -/
theorem cleanFilename_relative (c : Char) (rest : Bytes) (hslash : c ≠ '/') (hnul : c ≠ '\x00') :
    ∃ x tail, cleanFilename (c :: rest) = x :: tail ∧ x ≠ '/' ∧ x ≠ '\x00' := by
  rcases head?_cleanFilename c rest with ⟨x, tail, hclean, hx⟩
  refine ⟨x, tail, hclean, ?_⟩
  rcases hx with rfl | rfl
  · exact ⟨hslash, hnul⟩
  · decide

/-- The first look-up of a URI with a leading slash. -/
theorem tested_slash (e : Env) (h : Started e) (rest : Bytes) :
    e.fs.locate e.cwd (cookPath e (cleanFilename ('/' :: rest)))
      = (e.fs.locate e.cwd e.options.dir).bind
          (fun loc => walk e.fs.enter loc (moves (cStr (cleanFilename rest)))) := by
  rcases startup_spec e h with ⟨hne, hnul, _⟩
  rw [cleanFilename_cons '/' rest (by decide), cookPath]
  exact FileSystem.locate_append_slash e.fs e.cwd e.options.dir _ hne hnul

theorem sameObject_of_ordinary (e : Env) (h : Started e) (hself : SelfResolving e) (uri : Bytes)
    (huri : Ordinary uri) : SameObject e uri := by
  rcases huri with ⟨c, rest, rfl, hslash, hnul⟩
  rcases cleanFilename_relative c rest hslash hnul with ⟨x, tail, hclean, hx'⟩
  have hcut : cStr (cleanFilename (c :: rest)) = x :: cStr tail := by
    rw [hclean, cStr_cons x tail hx'.2]
  -- Both walks start at the working directory and take the same way.
  rw [SameObject, tested, served, tested_slash e h, hself, List.drop_one, List.tail_cons,
    FileSystem.locate_relative e.fs e.cwd _ (by rw [hcut]; exact List.cons_ne_nil _ _)
      (by rw [hcut]; simpa using hx'.1)]
  rfl

theorem sameObject_of_nulDot (e : Env) (h : Started e) (hself : SelfResolving e) (uri : Bytes)
    (huri : NulDot uri) : SameObject e uri := by
  rcases huri with ⟨rest, rfl, hne, hrel, hhere⟩
  rcases startup_spec e h with ⟨_, hnul, hdir, _⟩
  -- The first path is cut to the option, the second stays in the directory.
  rw [SameObject, tested, served, cleanFilename_cons _ rest (by decide), cookPath,
    FileSystem.locate_append_nul e.fs e.cwd _ _ hnul, hself, List.drop_one, List.tail_cons,
    FileSystem.locate_relative e.fs e.cwd _ hne hrel, e.fs.walk_here e.cwd hdir _ hhere]

/-- A server in the root looks both paths up from the root, so a second slash
    changes nothing, and only a URI with nothing behind its slash goes wrong. -/
theorem sameObject_in_root (e : Env) (h : Started e) (hself : SelfResolving e) (hroot : e.cwd = [])
    (rest : Bytes) : SameObject e ('/' :: rest) ↔ cStr (cleanFilename rest) ≠ [] := by
  rcases startup_spec e h with ⟨_, _, hdir, _⟩
  have hstart : startOf e.cwd (cStr (cleanFilename rest)) = e.cwd := by
    rw [startOf, hroot, ite_self]
  rw [SelfResolving] at hself
  by_cases hnone : cStr (cleanFilename rest) = []
  · -- The first path is the directory, and there is no second.
    have htested : tested e ('/' :: rest) = some e.cwd := by
      rw [tested_eq_some_iff, tested_slash e h, hself, hnone]
      exact e.fs.walk_here e.cwd hdir _ (by decide)
    refine iff_of_false (fun hsame => ?_) (not_not_intro hnone)
    rw [SameObject, htested, served, List.drop_one, List.tail_cons, FileSystem.locate,
      if_pos hnone] at hsame
    exact absurd hsame (by simp only [Except.toOption, reduceCtorEq, not_false_eq_true])
  · refine iff_of_true ?_ hnone
    rw [SameObject, tested, served, tested_slash e h, hself, List.drop_one, List.tail_cons,
      FileSystem.locate, if_neg hnone, hstart]
    rfl

/-- Agreeing on the one URI that stays in the directory takes an option that
    names it. -/
theorem selfResolving_of_ordinary (e : Env) (h : Started e)
    (hsame : ∀ uri, Ordinary uri → SameObject e uri) : SelfResolving e := by
  rcases startup_spec e h with ⟨_, _, hdir, _⟩
  -- The URI `/.` is ordinary, and its second path stays where it is.
  have hdot := hsame ['/', '.'] ⟨'.', [], rfl, by decide, by decide⟩
  have hserved : served e ['/', '.'] = some e.cwd := (served_eq_some_iff e _ _).mpr
    ((FileSystem.locate_relative e.fs e.cwd ['.'] (by decide) (by decide)).trans
      (e.fs.walk_here e.cwd hdir _ (by decide)))
  rw [SameObject, hserved, tested_eq_some_iff, tested_slash e h] at hdot
  rw [SelfResolving]
  cases hlocate : e.fs.locate e.cwd e.options.dir with
  | error n =>
      rw [hlocate] at hdot
      exact absurd hdot (by simp only [Except.bind, reduceCtorEq, not_false_eq_true])
  | ok loc =>
      rw [hlocate] at hdot
      -- Staying where the option leads can only end there.
      have hstay : e.cwd = loc := walk_ok e.fs.enter _ _ _ hdot
      rw [← hstay]

end Agreement

section Difference

/-- A name longer than `n`. -/
def freshName (n : Nat) : Bytes := List.replicate (n + 1) 'd'

theorem validName_freshName (n : Nat) (rest : Bytes) (hslash : '/' ∉ rest) (hnul : '\x00' ∉ rest) :
    ValidName (freshName n ++ rest) := by
  have hcons : freshName n ++ rest = 'd' :: (List.replicate n 'd' ++ rest) := rfl
  -- What is not in `rest` and is not `d` is not in the name.
  have hnot : ∀ c : Char, c ≠ 'd' → c ∉ rest → c ∉ freshName n ++ rest := by
    intro c hc hrest hmem
    rcases List.mem_append.mp hmem with hmem | hmem
    · exact hc (List.eq_of_mem_replicate hmem)
    · exact hrest hmem
  refine ⟨?_, ?_, ?_, hnot '/' (by decide) hslash, hnot '\x00' (by decide) hnul⟩
  · rw [hcons]
    exact List.cons_ne_nil _ _
  · rw [hcons]
    exact fun h => absurd (List.cons.inj h).1 (by decide)
  · rw [hcons]
    exact fun h => absurd (List.cons.inj h).1 (by decide)

/-- The valid names of a list. -/
def nameSetOf (names : List Bytes) : NameSet where
  names := (names.filter (fun name => ValidName name)).dedup
  nodup := List.nodup_dedup _
  valid _ h := of_decide_eq_true (List.mem_filter.mp (List.mem_dedup.mp h)).2

theorem mem_nameSetOf (names : List Bytes) (name : Bytes) :
    name ∈ (nameSetOf names).names ↔ name ∈ names ∧ ValidName name := by
  rw [nameSetOf, List.mem_dedup, List.mem_filter, decide_eq_true_eq]

/-- The names of some moves. -/
def downNames : List (Move Bytes) → List Bytes
  | [] => []
  | .here :: ms => downNames ms
  | .up :: ms => downNames ms
  | .down name :: ms => name :: downNames ms

theorem mem_downNames (ms : List (Move Bytes)) (name : Bytes) :
    name ∈ downNames ms ↔ Move.down name ∈ ms := by
  induction ms with
  | nil => exact iff_of_false List.not_mem_nil List.not_mem_nil
  | cons m ms ih =>
      cases m with
      | here | up =>
          rw [downNames, ih, List.mem_cons]
          exact ⟨Or.inr, fun h => h.resolve_left (by simp only [reduceCtorEq,
            not_false_eq_true])⟩
      | down other =>
          rw [downNames, List.mem_cons, ih, List.mem_cons, Move.down.injEq]

/-- A server started in a uniform tree, `levels` directories down by the name
    `freshName n`, in a tree that has the names of `ms` as well. -/
def gridEnv (n levels : Nat) (ms : List (Move Bytes)) : Env where
  fs := FileSystem.uniform (nameSetOf (freshName n :: downNames ms)) (levels + ms.length)
    (.other false 0) rfl
  cwd := List.replicate levels (freshName n)
  options := { dir := pathOf (List.replicate levels (freshName n)) }
  executableFileName := []

theorem freshName_mem (n : Nat) (ms : List (Move Bytes)) :
    freshName n ∈ (nameSetOf (freshName n :: downNames ms)).names := by
  have hvalid := validName_freshName n [] List.not_mem_nil List.not_mem_nil
  rw [List.append_nil] at hvalid
  exact (mem_nameSetOf _ _).mpr ⟨List.mem_cons_self, hvalid⟩

theorem gridEnv_cwd (n levels : Nat) (ms : List (Move Bytes)) :
    ∀ name ∈ (gridEnv n levels ms).cwd, name ∈ (nameSetOf (freshName n :: downNames ms)).names :=
  fun name hname => by
    rw [List.eq_of_mem_replicate hname]
    exact freshName_mem n ms

theorem gridEnv_started (n levels : Nat) (ms : List (Move Bytes)) :
    Started (gridEnv n levels ms) ∧ SelfResolving (gridEnv n levels ms) := by
  have hdir : ∃ names, ((gridEnv n levels ms).fs.node (gridEnv n levels ms).cwd).bind
      Node.names? = some names := by
    refine ⟨_, (uniformNode_names _ _ _ rfl _ _).mpr ⟨rfl, gridEnv_cwd n levels ms, ?_⟩⟩
    rw [gridEnv, List.length_replicate]
    exact Nat.le_add_right _ _
  exact ⟨⟨(gridEnv n levels ms).fs, (gridEnv n levels ms).cwd, [.d ['.']], [], hdir, rfl⟩,
    FileSystem.locate_pathOf _ _ _ hdir⟩

/-- In such a tree every walk over its own names goes through. -/
theorem gridEnv_walk (n levels : Nat) (ms : List (Move Bytes)) (loc : Location)
    (hloc : loc = [] ∨ loc = (gridEnv n levels ms).cwd)
    (hvalid : ∀ name, Move.down name ∈ ms → ValidName name) :
    walk (gridEnv n levels ms).fs.enter loc ms = .ok (target loc ms) := by
  refine walk_uniform _ _ _ rfl ms loc ?_ ?_ (fun name hname => ?_)
  · rcases hloc with rfl | rfl
    · exact fun name hname => absurd hname List.not_mem_nil
    · exact gridEnv_cwd n levels ms
  · rcases hloc with rfl | rfl
    · rw [List.length_nil]
      omega
    · rw [gridEnv, List.length_replicate]
      omega
  · exact (mem_nameSetOf _ _).mpr
      ⟨List.mem_cons_of_mem _ ((mem_downNames ms name).mpr hname), hvalid name hname⟩

/-- Walks from the root and from far enough below it do not end in one
    place. -/
theorem target_ne_target (levels : Nat) (name : Bytes) (ms : List (Move Bytes))
    (h : 2 * ms.length < levels) :
    target (List.replicate levels name) ms ≠ target [] ms := by
  intro heq
  have hlow := le_length_target ms (List.replicate levels name)
  have hhigh := length_target_le ms ([] : Location)
  rw [heq, List.length_replicate] at hlow
  rw [List.length_nil] at hhigh
  omega

/-- A URI with nothing to serve, whose first look-up finds the directory. -/
theorem differ_nothing (e : Env) (uri : Bytes)
    (hnone : cStr (cleanFilename (uri.drop 1)) = [])
    (hdir : tested e uri = some e.cwd) : ¬ SameObject e uri := by
  intro hsame
  rw [SameObject, hdir, served, FileSystem.locate, if_pos hnone] at hsame
  exact absurd hsame (by simp only [Except.toOption, reduceCtorEq, not_false_eq_true])

theorem differ_absolute (rest : Bytes) :
    ∃ e, Started e ∧ SelfResolving e ∧ ¬ SameObject e ('/' :: '/' :: rest) := by
  let ms := moves ('/' :: cStr (cleanFilename rest))
  refine ⟨gridEnv 0 (2 * ms.length + 1) ms, (gridEnv_started _ _ _).1, (gridEnv_started _ _ _).2,
    fun hsame => ?_⟩
  have hcut : cStr (cleanFilename ('/' :: rest)) = '/' :: cStr (cleanFilename rest) := by
    rw [cleanFilename_cons '/' rest (by decide), cStr_cons '/' _ (by decide)]
  have hvalid : ∀ name, Move.down name ∈ ms → ValidName name := by
    refine fun name hname => (down_mem_moves _ name ?_ hname).1
    rw [← hcut]
    exact cStr_nulFree _
  have hself := (gridEnv_started 0 (2 * ms.length + 1) ms).2
  rw [SelfResolving] at hself
  -- The first walk starts at the working directory, the second at the root.
  rw [SameObject, tested, served, tested_slash _ (gridEnv_started _ _ _).1, hself, hcut,
    List.drop_one, List.tail_cons, FileSystem.locate, hcut, if_neg (List.cons_ne_nil _ _),
    startOf, List.head?_cons, if_pos rfl, gridEnv_walk 0 _ ms [] (Or.inl rfl) hvalid,
    Except.bind, gridEnv_walk 0 _ ms _ (Or.inr rfl) hvalid] at hsame
  exact target_ne_target (2 * ms.length + 1) (freshName 0) ms (by omega)
    (Option.some.inj hsame)

/-- Gluing text to the name of the directory makes a longer name. -/
theorem glued_name (n : Nat) (x : Char) (v : Bytes) (hx : x ≠ '/') (hnul : '\x00' ∉ x :: v) :
    ∃ name, Move.down name ∈ moves (freshName n ++ x :: v) ∧ n + 1 < name.length := by
  -- The name goes on up to the first slash of the text.
  let piece := (x :: v).takeWhile (fun c => c ≠ '/')
  have hpiece : piece = x :: v.takeWhile (fun c => c ≠ '/') :=
    List.takeWhile_cons_of_pos (decide_eq_true hx)
  have hslash : '/' ∉ piece := fun hmem => absurd (List.mem_takeWhile_imp hmem) (by decide)
  have hpnul : '\x00' ∉ piece := fun hmem => hnul (List.takeWhile_subset _ hmem)
  have hvalid := validName_freshName n piece hslash hpnul
  refine ⟨freshName n ++ piece, ?_, ?_⟩
  · have hsplit : x :: v = piece ++ (x :: v).dropWhile (fun c => c ≠ '/') :=
      List.takeWhile_append_dropWhile.symm
    rw [hsplit, ← List.append_assoc]
    cases hrest : (x :: v).dropWhile (fun c => c ≠ '/') with
    | nil =>
        rw [List.append_nil, moves_name _ hvalid.2.2.2.1, moveOf_validName _ hvalid]
        exact List.mem_singleton_self _
    | cons y rest =>
        have hy : y = '/' := by
          have hne : (x :: v).dropWhile (fun c => c ≠ '/') ≠ [] := by
            rw [hrest]
            exact List.cons_ne_nil _ _
          have hhead := List.head_dropWhile_not _ hne
          simp only [hrest, List.head_cons, decide_eq_false_iff_not, ne_eq, not_not] at hhead
          exact hhead
        rw [hy, moves_append_slash, moves_name _ hvalid.2.2.2.1, moveOf_validName _ hvalid]
        exact List.mem_append_left _ (List.mem_singleton_self _)
  · rw [List.length_append, freshName, List.length_replicate, hpiece, List.length_cons]
    omega

theorem head?_pathOf (loc : Location) : (pathOf loc).head? = some '/' := by
  rw [pathOf]
  split
  · rfl
  · rename_i hloc
    cases loc with
    | nil => exact absurd rfl hloc
    | cons name loc => rfl

/-- The first look-up of a glued path walks it from the root. -/
theorem locate_glued (n levels : Nat) (ms : List (Move Bytes)) (uri : Bytes) (x : Char)
    (tail : Bytes) (hclean : cleanFilename uri = x :: tail) (hx : x ≠ '\x00') :
    (gridEnv n levels ms).fs.locate (gridEnv n levels ms).cwd
        (cookPath (gridEnv n levels ms) (cleanFilename uri))
      = walk (gridEnv n levels ms).fs.enter []
        (moves (pathOf (List.replicate levels (freshName n)) ++ x :: cStr tail)) := by
  rcases startup_spec _ (gridEnv_started n levels ms).1 with ⟨hne, hfree, _⟩
  rw [cookPath, hclean, FileSystem.locate, cStr_append _ _ hfree, cStr_cons x tail hx,
    if_neg (fun h => hne (List.append_eq_nil_iff.mp h).1), startOf_append _ _ _ hne, startOf]
  -- The path still begins with the slash of the option.
  exact congrArg (fun start => walk _ start _) (if_pos (head?_pathOf _))

/-- The name a glued path begins with is longer than any in the tree. -/
theorem walk_glued (n : Nat) (ms : List (Move Bytes)) (x : Char) (v : Bytes) (hx : x ≠ '/')
    (hnul : '\x00' ∉ x :: v) (hms : ∀ name, Move.down name ∈ ms → name.length ≤ n)
    (loc : Location) :
    walk (gridEnv n 1 ms).fs.enter [] (moves (pathOf (List.replicate 1 (freshName n)) ++ x :: v))
      ≠ .ok loc := by
  intro hwalk
  rcases glued_name n x v hx hnul with ⟨name, hname, hlen⟩
  have hpath : pathOf (List.replicate 1 (freshName n)) ++ x :: v
      = [] ++ '/' :: (freshName n ++ x :: v) := by
    simp only [pathOf, List.replicate_one, List.cons_ne_nil, if_false, List.flatMap_cons,
      List.flatMap_nil, List.append_nil, List.cons_append, List.nil_append]
  have hmem := mem_names_of_walk_uniform _ _ _ rfl _ [] loc hwalk name (by
    rw [hpath, moves_append_slash]
    exact List.mem_append_right _ hname)
  -- A name of the tree is the fresh name or one of the moves'.
  rcases List.mem_cons.mp ((mem_nameSetOf _ _).mp hmem).1 with rfl | hdown
  · rw [freshName, List.length_replicate] at hlen
    omega
  · have hshort := hms name ((mem_downNames ms name).mp hdown)
    omega

theorem differ_glued (c : Char) (rest : Bytes) (hslash : c ≠ '/') (hnul : c ≠ '\x00') :
    ∃ e, Started e ∧ SelfResolving e ∧ ¬ SameObject e (c :: rest) := by
  rcases cleanFilename_relative c rest hslash hnul with ⟨x, tail, hclean, hx'⟩
  have hfree : '\x00' ∉ x :: cStr tail := by
    rw [← cStr_cons x tail hx'.2]
    exact cStr_nulFree _
  by_cases hnone : cStr (cleanFilename rest) = []
  · -- There is nothing to serve, so let the first look-up find something.
    let ms := moves (pathOf (List.replicate 1 (freshName 0)) ++ x :: cStr tail)
    have hpath : '\x00' ∉ pathOf (List.replicate 1 (freshName 0)) ++ x :: cStr tail := by
      rw [List.mem_append]
      rintro (hmem | hmem)
      · exact (startup_spec _ (gridEnv_started 0 1 ms).1).2.1 hmem
      · exact hfree hmem
    refine ⟨gridEnv 0 1 ms, (gridEnv_started 0 1 ms).1, (gridEnv_started 0 1 ms).2, fun hsame => ?_⟩
    rw [SameObject, tested, locate_glued 0 1 ms _ x tail hclean hx'.2,
      gridEnv_walk 0 1 ms [] (Or.inl rfl) (fun name hname => (down_mem_moves _ name hpath hname).1),
      served, List.drop_one, List.tail_cons, FileSystem.locate, if_pos hnone] at hsame
    exact absurd hsame (by simp only [Except.toOption, reduceCtorEq, not_false_eq_true])
  · -- The second look-up finds something, and the glued name is not there.
    let ms := moves (cStr (cleanFilename rest))
    let n := (cStr (cleanFilename rest)).length
    have hms : ∀ name, Move.down name ∈ ms → ValidName name ∧ name.length ≤ n :=
      fun name hname => down_mem_moves _ name (cStr_nulFree _) hname
    refine ⟨gridEnv n 1 ms, (gridEnv_started n 1 ms).1, (gridEnv_started n 1 ms).2, fun hsame => ?_⟩
    have hstart : startOf (gridEnv n 1 ms).cwd (cStr (cleanFilename rest)) = []
        ∨ startOf (gridEnv n 1 ms).cwd (cStr (cleanFilename rest)) = (gridEnv n 1 ms).cwd := by
      rw [startOf]
      split
      · exact Or.inl rfl
      · exact Or.inr rfl
    rw [SameObject, tested, locate_glued n 1 ms _ x tail hclean hx'.2, served, List.drop_one,
      List.tail_cons, FileSystem.locate, if_neg hnone,
      gridEnv_walk n 1 ms _ hstart (fun name hname => (hms name hname).1)] at hsame
    cases hwalk : walk (gridEnv n 1 ms).fs.enter []
        (moves (pathOf (List.replicate 1 (freshName n)) ++ x :: cStr tail)) with
    | error e =>
        rw [hwalk] at hsame
        exact absurd hsame (by simp only [Except.toOption, reduceCtorEq, not_false_eq_true])
    | ok loc =>
        exact walk_glued n ms x (cStr tail) hx'.1 hfree (fun name hname => (hms name hname).2) loc
          hwalk

/-- From deep enough in a tree whose names it does not use, only a path of
    dots and slashes leads back to where it starts. -/
theorem walk_leaves (q : Bytes) (hnul : '\x00' ∉ q) (levels : Nat)
    (hlevels : (moves q).length < levels) (loc : Location)
    (hwalk : walk (gridEnv q.length levels []).fs.enter
      (startOf (gridEnv q.length levels []).cwd q) (moves q) = .ok loc)
    (hnot : q.head? = some '/' ∨ ∃ m ∈ moves q, m ≠ .here) :
    loc ≠ (gridEnv q.length levels []).cwd := by
  rintro rfl
  have hcwd : (gridEnv q.length levels []).cwd.length = levels := List.length_replicate
  have hend := walk_ok _ _ _ _ hwalk
  by_cases habs : q.head? = some '/'
  · -- From the root the walk cannot get that deep.
    have hlen := length_target_le (moves q) ([] : Location)
    rw [startOf, if_pos habs] at hend
    rw [← hend, hcwd, List.length_nil] at hlen
    omega
  · rw [startOf, if_neg habs] at hend hwalk
    have hno : ∀ name, Move.down name ∉ moves q := by
      intro name hname
      have hmem := mem_names_of_walk_uniform _ _ _ rfl _ _ _ hwalk name hname
      rw [mem_nameSetOf, downNames, List.mem_singleton] at hmem
      have hshort := (down_mem_moves q name hnul hname).2
      rw [hmem.1, freshName, List.length_replicate] at hshort
      omega
    -- Without going down, going up leads away for good.
    rcases hnot.resolve_left habs with ⟨m, hm, hhere⟩
    have hup : Move.up ∈ moves q := by
      cases m with
      | here => exact absurd rfl hhere
      | up => exact hm
      | down name => exact absurd hm (hno name)
    have hlow := (length_target_of_no_down (moves q) _ hno).2 hup
      (List.ne_nil_of_length_pos (by rw [hcwd]; omega))
    rw [← hend] at hlow
    omega

theorem differ_nul (rest : Bytes) (hnot : ¬ NulDot ('\x00' :: rest)) :
    ∃ e, Started e ∧ SelfResolving e ∧ ¬ SameObject e ('\x00' :: rest) := by
  let q := cStr (cleanFilename rest)
  let levels := (moves q).length + 1
  refine ⟨gridEnv q.length levels [], (gridEnv_started _ _ _).1, (gridEnv_started _ _ _).2,
    fun hsame => ?_⟩
  have hself := (gridEnv_started q.length levels []).2
  rw [SelfResolving] at hself
  rcases startup_spec _ (gridEnv_started q.length levels []).1 with ⟨_, hfree, _⟩
  rw [SameObject, tested, cleanFilename_cons _ rest (by decide), cookPath,
    FileSystem.locate_append_nul _ _ _ _ hfree, hself, served, List.drop_one, List.tail_cons,
    FileSystem.locate] at hsame
  split at hsame
  · exact absurd hsame (by simp only [Except.toOption, reduceCtorEq, not_false_eq_true])
  · rename_i hne
    cases hwalk : walk (gridEnv q.length levels []).fs.enter
        (startOf (gridEnv q.length levels []).cwd q) (moves q) with
    | error e =>
        rw [hwalk] at hsame
        exact absurd hsame (by simp only [Except.toOption, reduceCtorEq, not_false_eq_true])
    | ok loc =>
        rw [hwalk] at hsame
        refine walk_leaves q (cStr_nulFree _) levels (Nat.lt_succ_self _) loc hwalk ?_
          (Option.some.inj hsame).symm
        by_contra hall
        push Not at hall
        exact hnot ⟨rest, rfl, hne, hall.1, hall.2⟩

/-- For every URI of another form there is a server on which the look-ups
    differ. -/
theorem exists_differ (uri : Bytes) (hord : ¬ Ordinary uri) (hnul : ¬ NulDot uri) :
    ∃ e, Started e ∧ SelfResolving e ∧ ¬ SameObject e uri := by
  have hgrid := gridEnv_started 0 1 []
  have hself := hgrid.2
  rw [SelfResolving] at hself
  rcases startup_spec _ hgrid.1 with ⟨_, _, hdir, _⟩
  cases uri with
  | nil =>
      -- The empty URI tests the directory and serves nothing.
      refine ⟨gridEnv 0 1 [], hgrid.1, hgrid.2, differ_nothing _ _ rfl ?_⟩
      have hcook : cookPath (gridEnv 0 1 []) (cleanFilename []) = (gridEnv 0 1 []).options.dir :=
        List.append_nil _
      rw [tested, hcook, hself]
      rfl
  | cons c rest =>
      by_cases hslash : c = '/'
      · rw [hslash] at hord ⊢
        by_cases hdouble : rest.head? = some '/'
        · rcases List.head?_eq_some_iff.mp hdouble with ⟨rest', rfl⟩
          exact differ_absolute rest'
        · -- Nothing, or a NUL, after the slash.
          have hnone : cStr (cleanFilename rest) = [] := by
            cases rest with
            | nil => rfl
            | cons d rest =>
                by_cases hd : d = '\x00'
                · rw [hd, cleanFilename_cons _ rest (by decide)]
                  rfl
                · exact absurd ⟨d, rest, rfl, fun h => hdouble (h ▸ rfl), hd⟩ hord
          refine ⟨gridEnv 0 1 [], hgrid.1, hgrid.2, differ_nothing _ _ hnone ?_⟩
          rw [tested, tested_slash _ hgrid.1, hself, hnone, Except.bind,
            FileSystem.walk_here _ _ hdir _ (by decide)]
          rfl
      · by_cases hc : c = '\x00'
        · rw [hc] at hnul ⊢
          exact differ_nul rest hnul
        · exact differ_glued c rest hslash hc

end Difference

/-- The two look-ups find the same place when the directory option names the
    working directory and the URI is ordinary, or a NUL and dots. The option
    does so exactly when they agree on every ordinary URI, and the URI is of
    these forms exactly when they agree on every server with such an
    option. In a server whose directory is the root a second slash is no
    trouble: there they agree on a slash exactly when something follows it. -/
theorem same_object_exact (e : Env) (h : Started e) (uri : Bytes) :
    (SelfResolving e → Ordinary uri ∨ NulDot uri → SameObject e uri) ∧
    (SelfResolving e ↔ ∀ uri', Ordinary uri' → SameObject e uri') ∧
    (Ordinary uri ∨ NulDot uri ↔
      ∀ e', Started e' → SelfResolving e' → SameObject e' uri) ∧
    (SelfResolving e → e.cwd = [] → ∀ rest, uri = '/' :: rest →
      (SameObject e uri ↔ cStr (cleanFilename rest) ≠ [])) := by
  have hagree : ∀ e', Started e' → SelfResolving e' → Ordinary uri ∨ NulDot uri →
      SameObject e' uri := by
    rintro e' h' hself (huri | huri)
    · exact sameObject_of_ordinary e' h' hself uri huri
    · exact sameObject_of_nulDot e' h' hself uri huri
  refine ⟨hagree e h, ⟨fun hself uri' => sameObject_of_ordinary e h hself uri',
    selfResolving_of_ordinary e h⟩, ⟨fun huri e' h' hself => hagree e' h' hself huri,
    fun hall => ?_⟩, fun hself hroot rest huri => huri ▸ sameObject_in_root e h hself hroot rest⟩
  by_contra hnot
  rw [not_or] at hnot
  rcases exists_differ uri hnot.1 hnot.2 with ⟨e', h', hself, hdiff⟩
  exact hdiff (hall e' h' hself)

/-- The server after starting with `-d s` in the root. -/
def relativeEnv : Env where
  fs := FileSystem.uniform twoNames 2 (.file true []) rfl
  cwd := [['s']]
  options := { dir := ['s'] }
  executableFileName := []

theorem relativeEnv_started : Started relativeEnv :=
  ⟨relativeEnv.fs, [], [.d ['s']], [], ⟨twoNames.names, rfl⟩, rfl⟩

/-- The server after starting with no `-d` in the root. -/
def rootEnv : Env where
  fs := relativeEnv.fs
  cwd := []
  options := { dir := ['/'] }
  executableFileName := []

theorem rootEnv_started : Started rootEnv :=
  ⟨relativeEnv.fs, [], [], [], ⟨twoNames.names, rfl⟩, rfl⟩

theorem rootEnv_selfResolving : SelfResolving rootEnv :=
  selfResolving_of_absolute rootEnv rootEnv_started rfl

/-- A relative option and the URI `/x`, and the root and the URI `//x`. -/
theorem same_object_exact_relative :
    (SelfResolving relativeEnv → Ordinary ['/', 'x'] ∨ NulDot ['/', 'x'] →
      SameObject relativeEnv ['/', 'x']) ∧
    (SelfResolving relativeEnv ↔ ∀ uri', Ordinary uri' → SameObject relativeEnv uri') ∧
    (Ordinary ['/', 'x'] ∨ NulDot ['/', 'x'] ↔
      ∀ e', Started e' → SelfResolving e' → SameObject e' ['/', 'x']) ∧
    SameObject rootEnv ['/', '/', 'x'] :=
  ⟨(same_object_exact relativeEnv relativeEnv_started ['/', 'x']).1,
    (same_object_exact relativeEnv relativeEnv_started ['/', 'x']).2.1,
    (same_object_exact relativeEnv relativeEnv_started ['/', 'x']).2.2.1,
    ((same_object_exact rootEnv rootEnv_started ['/', '/', 'x']).2.2.2 rootEnv_selfResolving rfl
      ['/', 'x'] rfl).mpr (by decide)⟩

/-- With a relative option the first look-up of `/x` finds a file in the
    directory of that name inside the served one, the second a directory. -/
theorem same_object_fails : ¬ ∀ e, Started e → ∀ uri, SameObject e uri := by
  intro hall
  have hsame := hall relativeEnv relativeEnv_started ['/', 'x']
  exact absurd hsame (by unfold SameObject; decide)

end HttpFileSharing
