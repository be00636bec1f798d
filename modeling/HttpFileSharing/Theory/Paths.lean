import HttpFileSharing.Core.ProgOptions
import Mathlib.Data.List.Induction
import Mathlib.Data.List.TakeWhile

/-!
# Reading Paths

What the text of a path says about the place it names. A path put together
from two parts with a slash between them is walked in two parts, the second
from where the first led. A look-up that succeeds ends where the components
of the path lead, whatever the tree, so the text alone decides which subtree
the place is in.

The uniform trees are for the other direction, where a difference has to be
shown: the same names in every directory down to a depth, and the same leaf
below. A walk in one succeeds as long as it keeps to the names, and fails
otherwise.

## Main definitions

* `FileSystem.uniform`: The uniform trees.
* `sampleEnv`: A server in a small one.

## Theorems

* `cStr_append`, `moves_append_slash`: A path in two parts.
* `down_mem_moves`: The names a path goes down by are valid names.
* `locate_pathOf`: The absolute name of a directory leads to it.
* `locate_ok`, `resolve_ok`: A look-up ends where the path leads.
* `ne_nil_of_locate`: The empty path names nothing.
* `locate_append_slash`, `locate_slash`: Looking up a path in two parts.
* `locate_entry`, `bind_walk_eq_ok_iff`: Looking up a name in a directory.
* `walk_uniform`: Keeping to the names of a uniform tree.
* `mem_names_of_walk_uniform`: Straying from them.
-/

namespace HttpFileSharing

/-- A string without a NUL goes through to the end of it. -/
theorem cStr_append (a b : Bytes) (ha : '\x00' ∉ a) : cStr (a ++ b) = a ++ cStr b := by
  rw [cStr, List.takeWhile_append_of_pos (fun c hc => ?_)]
  · rfl
  · exact decide_eq_true (fun h => ha (h ▸ hc))

theorem cStr_of_nulFree (a : Bytes) (ha : '\x00' ∉ a) : cStr a = a := by
  have h := cStr_append a [] ha
  rw [List.append_nil] at h
  exact h.trans (List.append_nil a)

theorem cStr_nulFree (a : Bytes) : '\x00' ∉ cStr a := by
  intro h
  rw [cStr] at h
  exact absurd (List.mem_takeWhile_imp h) (by decide)

theorem cStr_cons (c : Char) (a : Bytes) (hc : c ≠ '\x00') : cStr (c :: a) = c :: cStr a :=
  List.takeWhile_cons_of_pos (decide_eq_true hc)

/-- Nothing after a NUL goes through. -/
theorem cStr_append_of_mem (a b : Bytes) (ha : '\x00' ∈ a) : cStr (a ++ b) = cStr a := by
  induction a with
  | nil => exact absurd ha List.not_mem_nil
  | cons c a ih =>
      by_cases hc : c = '\x00'
      · rw [hc]
        rfl
      · rw [List.cons_append, cStr_cons c _ hc, cStr_cons c a hc,
          ih ((List.mem_cons.mp ha).resolve_left (fun h => hc h.symm))]

/-- The components of two parts with a slash between them. -/
theorem moves_append_slash (a b : Bytes) : moves (a ++ '/' :: b) = moves a ++ moves b := by
  rw [moves, List.splitOn_append_cons_self, List.map_append]
  rfl

/-- The components of a path are made of its characters, and short of its
    slashes. -/
theorem mem_splitOn (p : Bytes) (c : Bytes) (h : c ∈ p.splitOn '/') :
    '/' ∉ c ∧ c.length ≤ p.length ∧ ∀ x ∈ c, x ∈ p := by
  induction p generalizing c with
  | nil =>
      rw [List.splitOn_nil, List.mem_singleton] at h
      rw [h]
      exact ⟨List.not_mem_nil, Nat.le_refl 0, fun x hx => hx⟩
  | cons y p ih =>
      rw [List.splitOn_cons_eq_if_modifyHead] at h
      -- What holds of a component of the rest holds of it here.
      have htail : ∀ c' : Bytes, '/' ∉ c' ∧ c'.length ≤ p.length ∧ (∀ x ∈ c', x ∈ p) →
          '/' ∉ c' ∧ c'.length ≤ (y :: p).length ∧ ∀ x ∈ c', x ∈ y :: p := fun c' h' =>
        ⟨h'.1, Nat.le_succ_of_le h'.2.1, fun x hx => List.mem_cons_of_mem _ (h'.2.2 x hx)⟩
      split at h
      · rcases List.mem_cons.mp h with rfl | h
        · exact ⟨List.not_mem_nil, Nat.zero_le _, fun x hx => absurd hx List.not_mem_nil⟩
        · exact htail c (ih c h)
      · rename_i hy
        cases hsplit : p.splitOn '/' with
        | nil =>
            rw [hsplit] at h
            exact absurd h List.not_mem_nil
        | cons first others =>
            rw [hsplit, List.modifyHead_cons] at h
            rw [hsplit] at ih
            -- The first component has grown by a character that is not a slash.
            rcases List.mem_cons.mp h with rfl | h
            · rcases ih first List.mem_cons_self with ⟨hslash, hlen, hmem⟩
              refine ⟨fun hin => ?_, Nat.succ_le_succ hlen, fun x hx => ?_⟩
              · rcases List.mem_cons.mp hin with heq | hin
                · exact hy (by rw [← heq]; rfl)
                · exact hslash hin
              · rcases List.mem_cons.mp hx with rfl | hx
                · exact List.mem_cons_self
                · exact List.mem_cons_of_mem _ (hmem x hx)
            · exact htail c (ih c (List.mem_cons_of_mem _ h))

/-- The names a path goes down by. -/
theorem down_mem_moves (p name : Bytes) (hnul : '\x00' ∉ p) (h : Move.down name ∈ moves p) :
    ValidName name ∧ name.length ≤ p.length := by
  rcases List.mem_map.mp h with ⟨c, hc, hmove⟩
  rcases mem_splitOn p c hc with ⟨hslash, hlen, hmem⟩
  rw [moveOf] at hmove
  split at hmove
  · exact absurd hmove (by simp only [reduceCtorEq, not_false_eq_true])
  · split at hmove
    · exact absurd hmove (by simp only [reduceCtorEq, not_false_eq_true])
    · split at hmove
      · exact absurd hmove (by simp only [reduceCtorEq, not_false_eq_true])
      · rename_i hne hdot hdotdot
        rw [← Move.down.inj hmove]
        exact ⟨⟨hne, hdot, hdotdot, hslash, fun hin => hnul (hmem _ hin)⟩, hlen⟩

/-- A name is its own only component. -/
theorem moves_name (name : Bytes) (h : '/' ∉ name) : moves name = [moveOf name] := by
  rw [moves, List.splitOn_eq_singleton h]
  rfl

theorem moveOf_validName (name : Bytes) (h : ValidName name) : moveOf name = .down name := by
  rw [moveOf, if_neg h.1, if_neg h.2.1, if_neg h.2.2.1]

theorem moves_validNames (loc : Location) (a : Bytes) (h : ∀ name ∈ loc, ValidName name) :
    moves (a ++ loc.flatMap (fun name => '/' :: name)) = moves a ++ loc.map Move.down := by
  induction loc generalizing a with
  | nil => rw [List.flatMap_nil, List.append_nil, List.map_nil, List.append_nil]
  | cons name loc ih =>
      -- The first name is the component between its slash and the next.
      have hname := h name List.mem_cons_self
      rw [List.flatMap_cons, List.cons_append, ← List.cons_append, ← List.append_assoc,
        ih _ (fun n hn => h n (List.mem_cons_of_mem _ hn)), moves_append_slash,
        moves_name name hname.2.2.2.1, moveOf_validName name hname, List.map_cons,
        List.append_assoc, List.singleton_append]

theorem nulFree_pathOf (loc : Location) (h : ∀ name ∈ loc, ValidName name) :
    '\x00' ∉ pathOf loc := by
  rw [pathOf]
  split
  · decide
  · rw [List.mem_flatMap]
    rintro ⟨name, hname, hmem⟩
    rcases List.mem_cons.mp hmem with hslash | hmem
    · exact absurd hslash (by decide)
    · exact (h name hname).2.2.2.2 hmem

theorem pathOf_ne_nil (loc : Location) : pathOf loc ≠ [] := by
  rw [pathOf]
  split
  · exact List.cons_ne_nil _ _
  · rename_i hloc
    cases loc with
    | nil => exact absurd rfl hloc
    | cons name loc =>
        rw [List.flatMap_cons]
        exact List.cons_ne_nil _ _

theorem startOf_append (cwd : Location) (a b : Bytes) (ha : a ≠ []) :
    startOf cwd (a ++ b) = startOf cwd a := by
  cases a with
  | nil => exact absurd rfl ha
  | cons c a => rfl

namespace FileSystem

/-- A look-up that succeeds ends where the path leads. -/
theorem locate_ok (fs : FileSystem) (cwd : Location) (path : Bytes) (loc : Location)
    (h : fs.locate cwd path = .ok loc) :
    loc = target (startOf cwd (cStr path)) (moves (cStr path)) := by
  rw [locate] at h
  split at h
  · exact absurd h (by simp only [reduceCtorEq, not_false_eq_true])
  · exact walk_ok fs.enter _ _ _ h

/-- What a system call finds is what its path names. -/
theorem resolve_ok (fs : FileSystem) (cwd : Location) (path : Bytes) (loc : Location)
    (h : fs.resolve cwd path = .ok loc) : fs.locate cwd path = .ok loc := by
  rw [resolve] at h
  split at h
  · exact absurd h (by simp only [reduceCtorEq, not_false_eq_true])
  · exact h

/-- The empty path names nothing. -/
theorem ne_nil_of_locate (fs : FileSystem) (cwd : Location) (path : Bytes) (loc : Location)
    (h : fs.locate cwd path = .ok loc) : path ≠ [] := by
  rintro rfl
  exact absurd h (by simp only [locate, cStr, List.takeWhile_nil, if_true, reduceCtorEq,
    not_false_eq_true])

/-- Looking up a path in two parts, the second from where the first led. -/
theorem locate_append_slash (fs : FileSystem) (cwd : Location) (a b : Bytes)
    (ha : a ≠ []) (hnul : '\x00' ∉ a) :
    fs.locate cwd (a ++ '/' :: b)
      = (fs.locate cwd a).bind (fun loc => walk fs.enter loc (moves (cStr b))) := by
  -- The slash and the first part have no NUL, so they are not cut off.
  have hcut : cStr (a ++ '/' :: b) = a ++ '/' :: cStr b := by
    rw [cStr_append a _ hnul, cStr_cons '/' b (by decide)]
  rw [locate, locate, hcut, cStr_of_nulFree a hnul, if_neg ha,
    if_neg (fun h => ha (List.append_eq_nil_iff.mp h).1), startOf_append cwd a _ ha,
    moves_append_slash, walk_append]

/-- A relative path is walked from the working directory. -/
theorem locate_relative (fs : FileSystem) (cwd : Location) (path : Bytes)
    (hne : cStr path ≠ []) (hrel : (cStr path).head? ≠ some '/') :
    fs.locate cwd path = walk fs.enter cwd (moves (cStr path)) := by
  rw [locate, if_neg hne, startOf, if_neg hrel]

/-- The same where the first part may be empty, which leaves a slash. -/
theorem locate_slash (fs : FileSystem) (cwd : Location) (a b : Bytes) (hnul : '\x00' ∉ a) :
    fs.locate cwd (a ++ '/' :: b)
      = (walk fs.enter (startOf cwd (a ++ ['/'])) (moves a)).bind
          (fun loc => walk fs.enter loc (moves (cStr b))) := by
  have hcut : cStr (a ++ '/' :: b) = a ++ '/' :: cStr b := by
    rw [cStr_append a _ hnul, cStr_cons '/' b (by decide)]
  have hstart : startOf cwd (a ++ '/' :: cStr b) = startOf cwd (a ++ ['/']) := by
    cases a <;> rfl
  rw [locate, hcut, if_neg (List.append_ne_nil_of_right_ne_nil a (List.cons_ne_nil _ _)), hstart,
    moves_append_slash, walk_append]

/-- Going down by a name takes a directory, as staying does. -/
theorem walk_here_down (fs : FileSystem) (loc : Location) (name : Bytes) :
    (walk fs.enter loc [.here]).bind (fun l => walk fs.enter l [.down name])
      = walk fs.enter loc [.down name] := by
  -- What is at `loc` decides both.
  have hhere : (∃ e, fs.enter loc .here = .error e ∧ fs.enter loc (.down name) = .error e) ∨
      fs.enter loc .here = .ok () := by
    unfold enter
    cases fs.node loc with
    | none => exact Or.inl ⟨enoent, rfl, rfl⟩
    | some node =>
        cases node with
        | dir => exact Or.inr rfl
        | file | other => exact Or.inl ⟨enotdir, rfl, rfl⟩
  rcases hhere with ⟨e, hhere, hdown⟩ | hhere
  · simp only [walk, hhere, hdown, Except.bind]
  · simp only [walk, hhere, Except.bind, Move.apply]

/-- A name in a directory is looked up in what a dot there names. -/
theorem locate_entry (fs : FileSystem) (cwd : Location) (q name : Bytes) (hnul : '\x00' ∉ q)
    (hend : q = [] ∨ q.getLast? = some '/') (hname : ValidName name) :
    fs.locate cwd (q ++ name)
      = (fs.locate cwd (q ++ ['.'])).bind (fun l => walk fs.enter l [.down name]) := by
  have hcut : cStr name = name := cStr_of_nulFree name hname.2.2.2.2
  have hmoves : moves name = [.down name] := by
    rw [moves_name name hname.2.2.2.1, moveOf_validName name hname]
  rcases hend with rfl | hend
  · -- In the working directory.
    have hhead : name.head? ≠ some '/' := fun h => hname.2.2.2.1 (List.mem_of_head? h)
    rw [List.nil_append, List.nil_append,
      locate_relative fs cwd name (by rw [hcut]; exact hname.1) (by rw [hcut]; exact hhead),
      locate_relative fs cwd ['.'] (by decide) (by decide), hcut, hmoves]
    exact (fs.walk_here_down cwd name).symm
  · rcases List.getLast?_eq_some_iff.mp hend with ⟨a, rfl⟩
    rw [List.mem_append, not_or] at hnul
    rw [List.append_assoc, List.append_assoc, List.singleton_append, List.singleton_append,
      fs.locate_slash cwd a name hnul.1, fs.locate_slash cwd a ['.'] hnul.1, hcut, hmoves]
    cases walk fs.enter (startOf cwd (a ++ ['/'])) (moves a) with
    | error e => rfl
    | ok loc => exact (fs.walk_here_down loc name).symm

/-- What leads to a node is there. -/
theorem isSome_node_append (fs : FileSystem) (loc more : Location)
    (h : (fs.node (loc ++ more)).isSome = true) : (fs.node loc).isSome = true := by
  induction more using List.reverseRecOn with
  | nil =>
      rw [List.append_nil] at h
      exact h
  | append_singleton more name ih =>
      rw [← List.append_assoc] at h
      -- A node is listed in the one above it, which is then there.
      rcases (fs.child_iff (loc ++ more) name).mp h with ⟨names, hnames, _⟩
      refine ih ?_
      cases hnode : fs.node (loc ++ more) with
      | none =>
          rw [hnode, Option.bind_none] at hnames
          exact absurd hnames (by simp only [reduceCtorEq, not_false_eq_true])
      | some node => rfl

/-- A directory, by what is listed in it. -/
theorem node_of_names (fs : FileSystem) (loc : Location) (names : List Bytes)
    (h : (fs.node loc).bind Node.names? = some names) :
    ∃ readable size, fs.node loc = some (.dir readable size names) := by
  cases hnode : fs.node loc with
  | none =>
      rw [hnode, Option.bind_none] at h
      exact absurd h (by simp only [reduceCtorEq, not_false_eq_true])
  | some node =>
      rw [hnode, Option.bind_some] at h
      cases node with
      | dir readable size names' =>
          rw [Node.names?, Option.some.injEq] at h
          exact ⟨readable, size, by rw [h]⟩
      | file | other => exact absurd h (by simp only [Node.names?, reduceCtorEq,
          not_false_eq_true])

/-- Going down by a name in a directory. -/
theorem walk_down_name (fs : FileSystem) (loc : Location) (names : List Bytes)
    (hnames : (fs.node loc).bind Node.names? = some names) (name : Bytes) :
    walk fs.enter loc [.down name]
      = if name ∈ names then .ok (loc ++ [name]) else .error enoent := by
  rcases fs.node_of_names loc names hnames with ⟨readable, size, hdir⟩
  simp only [walk, enter, hdir]
  by_cases hmem : name ∈ names
  · rw [if_pos hmem, if_pos hmem]
    rfl
  · rw [if_neg hmem, if_neg hmem]

/-- Going down to a node by its names. -/
theorem walk_down (fs : FileSystem) (loc more : Location)
    (h : (fs.node (loc ++ more)).isSome = true) :
    walk fs.enter loc (more.map Move.down) = .ok (loc ++ more) := by
  induction more generalizing loc with
  | nil =>
      rw [List.append_nil]
      rfl
  | cons name more ih =>
      have hsplit : loc ++ name :: more = (loc ++ [name]) ++ more := by
        rw [List.append_assoc, List.singleton_append]
      rw [hsplit] at h
      rcases (fs.child_iff loc name).mp (fs.isSome_node_append _ _ h) with ⟨names, hnames, hmem⟩
      rcases fs.node_of_names loc names hnames with ⟨readable, size, hdir⟩
      -- The directory at `loc` lists the next name.
      have henter : fs.enter loc (.down name) = .ok () := by
        rw [enter, hdir]
        exact if_pos hmem
      rw [List.map_cons, walk, henter, hsplit]
      exact ih _ h

/-- A look-up goes down by a name where that leads to a node. -/
theorem bind_walk_eq_ok_iff (fs : FileSystem) (found : Except Errno Location) (name : Bytes)
    (loc : Location) :
    found.bind (fun l => walk fs.enter l [.down name]) = .ok loc ↔
      ∃ l, found = .ok l ∧ loc = l ++ [name] ∧ (fs.node loc).isSome = true := by
  constructor
  · intro h
    cases found with
    | error e => exact absurd h (by simp only [Except.bind, reduceCtorEq, not_false_eq_true])
    | ok l =>
        have hwalk : walk fs.enter l [.down name] = .ok loc := h
        have hloc : loc = l ++ [name] := walk_ok fs.enter _ _ _ hwalk
        refine ⟨l, rfl, hloc, ?_⟩
        rw [hloc, fs.child_iff]
        -- The walk has looked the name up in a directory.
        cases hnames : (fs.node l).bind Node.names? with
        | some names =>
            rw [fs.walk_down_name l names hnames name] at hwalk
            refine ⟨names, rfl, ?_⟩
            by_contra hmem
            rw [if_neg hmem] at hwalk
            exact absurd hwalk (by simp only [reduceCtorEq, not_false_eq_true])
        | none =>
            simp only [walk, enter] at hwalk
            cases hnode : fs.node l with
            | none => simp only [hnode, reduceCtorEq] at hwalk
            | some node =>
                rw [hnode] at hnames hwalk
                cases node with
                | dir => exact absurd hnames (by simp only [Option.bind_some, Node.names?,
                    reduceCtorEq, not_false_eq_true])
                | file | other => simp only [reduceCtorEq] at hwalk
  · rintro ⟨l, rfl, rfl, hsome⟩
    exact fs.walk_down l [name] hsome

/-- A directory can be stayed in. -/
theorem walk_here (fs : FileSystem) (loc : Location)
    (hdir : ∃ names, (fs.node loc).bind Node.names? = some names) (ms : List (Move Bytes))
    (hms : ∀ m ∈ ms, m = .here) : walk fs.enter loc ms = .ok loc := by
  rcases hdir with ⟨names, hnames⟩
  rcases fs.node_of_names loc names hnames with ⟨readable, size, hdir⟩
  have henter : fs.enter loc .here = .ok () := by rw [enter, hdir]
  induction ms with
  | nil => rfl
  | cons m ms ih =>
      rw [hms m List.mem_cons_self, walk, henter]
      exact ih (fun m' hm' => hms m' (List.mem_cons_of_mem _ hm'))

/-- The names that lead to a node are valid. -/
theorem validName_of_node (fs : FileSystem) (loc : Location)
    (h : (fs.node loc).isSome = true) : ∀ name ∈ loc, ValidName name := by
  induction loc using List.reverseRecOn with
  | nil => exact fun name hname => absurd hname List.not_mem_nil
  | append_singleton loc name ih =>
      rcases (fs.child_iff loc name).mp h with ⟨names, hnames, hmem⟩
      rw [List.forall_mem_append, List.forall_mem_singleton]
      exact ⟨ih (fs.isSome_node_append loc [name] h), fs.names_valid loc names hnames name hmem⟩

/-- The absolute name of a directory leads to it from anywhere. -/
theorem locate_pathOf (fs : FileSystem) (cwd loc : Location)
    (hdir : ∃ names, (fs.node loc).bind Node.names? = some names) :
    fs.locate cwd (pathOf loc) = .ok loc := by
  have hsome : (fs.node loc).isSome = true := by
    rcases hdir with ⟨names, hnames⟩
    rcases fs.node_of_names loc names hnames with ⟨readable, size, hnode⟩
    rw [hnode]
    rfl
  have hvalid := fs.validName_of_node loc hsome
  have hroot : ∃ names, (fs.node []).bind Node.names? = some names := by
    rcases fs.root_dir with ⟨readable, size, names, hnode⟩
    exact ⟨names, by rw [hnode]; rfl⟩
  rw [locate, cStr_of_nulFree _ (nulFree_pathOf loc hvalid), if_neg (pathOf_ne_nil loc)]
  cases loc with
  | nil => exact fs.walk_here [] hroot _ (by decide)
  | cons name loc =>
      have hpath : pathOf (name :: loc) = (name :: loc).flatMap (fun n => '/' :: n) :=
        if_neg (List.cons_ne_nil _ _)
      -- The text of the path is an empty component and then the names.
      have hmoves := moves_validNames (name :: loc) [] hvalid
      rw [List.nil_append] at hmoves
      rw [hpath, hmoves, walk_append, fs.walk_here _ _ _ (by decide)]
      · exact fs.walk_down [] (name :: loc) hsome
      · exact hroot

/-- Nothing after a NUL is looked at. -/
theorem locate_append_nul (fs : FileSystem) (cwd : Location) (a b : Bytes) (hnul : '\x00' ∉ a) :
    fs.locate cwd (a ++ '\x00' :: b) = fs.locate cwd a := by
  have hcut : cStr (a ++ '\x00' :: b) = cStr a := by
    rw [cStr_append a _ hnul, cStr_of_nulFree a hnul]
    exact List.append_nil a
  rw [locate, locate, hcut]

end FileSystem

section Uniform

/-- The names a uniform tree uses. -/
structure NameSet where
  names : List Bytes
  nodup : names.Nodup
  valid : ∀ name ∈ names, ValidName name

/-- The node of a uniform tree. -/
def uniformNode (S : NameSet) (depth : Nat) (leaf : Node) (loc : Location) : Option Node :=
  if ∀ name ∈ loc, name ∈ S.names then
    if loc.length ≤ depth then some (.dir true 0 S.names)
    else if loc.length = depth + 1 then some leaf else none
  else none

/-- What is listed where in a uniform tree. -/
theorem uniformNode_names (S : NameSet) (depth : Nat) (leaf : Node)
    (hleaf : leaf.names? = none) (loc : Location) (names : List Bytes) :
    (uniformNode S depth leaf loc).bind Node.names? = some names
      ↔ names = S.names ∧ (∀ name ∈ loc, name ∈ S.names) ∧ loc.length ≤ depth := by
  rw [uniformNode]
  by_cases hall : ∀ name ∈ loc, name ∈ S.names
  · rw [if_pos hall]
    -- Only down to `depth` is there a directory.
    by_cases hlen : loc.length ≤ depth
    · rw [if_pos hlen, Option.bind_some, Node.names?, Option.some.injEq]
      exact ⟨fun h => ⟨h.symm, hall, hlen⟩, fun h => h.1.symm⟩
    · rw [if_neg hlen]
      refine iff_of_false (fun h => ?_) (fun h => hlen h.2.2)
      split at h
      · rw [Option.bind_some, hleaf] at h
        exact absurd h (by simp only [reduceCtorEq, not_false_eq_true])
      · exact absurd h (by simp only [Option.bind_none, reduceCtorEq, not_false_eq_true])
  · rw [if_neg hall]
    exact iff_of_false (fun h => absurd h (by simp only [Option.bind_none, reduceCtorEq,
      not_false_eq_true])) (fun h => hall h.2.1)

/-- The tree with the names `S` in every directory, directories down to
    `depth` and `leaf` below them. -/
def FileSystem.uniform (S : NameSet) (depth : Nat) (leaf : Node)
    (hleaf : leaf.names? = none) : FileSystem where
  node := uniformNode S depth leaf
  refuses _ := none
  root_dir := ⟨true, 0, S.names, rfl⟩
  child_iff loc name := by
    have hboth : (∀ n ∈ loc ++ [name], n ∈ S.names)
        ↔ (∀ n ∈ loc, n ∈ S.names) ∧ name ∈ S.names := by
      rw [List.forall_mem_append, List.forall_mem_singleton]
    constructor
    · intro h
      rw [uniformNode] at h
      split at h
      · rename_i hall
        refine ⟨S.names, (uniformNode_names S depth leaf hleaf loc S.names).mpr
          ⟨rfl, (hboth.mp hall).1, ?_⟩, (hboth.mp hall).2⟩
        rw [List.length_append, List.length_singleton] at h
        split at h
        · omega
        · split at h
          · omega
          · exact absurd h (by decide)
      · exact absurd h (by decide)
    · rintro ⟨names, hnames, hmem⟩
      rcases (uniformNode_names S depth leaf hleaf loc names).mp hnames with ⟨rfl, hall, hlen⟩
      rw [uniformNode, if_pos (hboth.mpr ⟨hall, hmem⟩), List.length_append,
        List.length_singleton]
      split
      · rfl
      · rw [if_pos (by omega)]
        rfl
  names_nodup loc names h := by
    rw [((uniformNode_names S depth leaf hleaf loc names).mp h).1]
    exact S.nodup
  names_valid loc names h := by
    rw [((uniformNode_names S depth leaf hleaf loc names).mp h).1]
    exact S.valid

theorem enter_uniform (S : NameSet) (depth : Nat) (leaf : Node) (hleaf : leaf.names? = none)
    (loc : Location) (m : Move Bytes) (hloc : ∀ name ∈ loc, name ∈ S.names)
    (hlen : loc.length ≤ depth) (hm : ∀ name, m = .down name → name ∈ S.names) :
    (FileSystem.uniform S depth leaf hleaf).enter loc m = .ok () := by
  have hnode : (FileSystem.uniform S depth leaf hleaf).node loc = some (.dir true 0 S.names) := by
    change uniformNode S depth leaf loc = _
    rw [uniformNode, if_pos hloc, if_pos hlen]
  rw [FileSystem.enter, hnode]
  cases m with
  | here => rfl
  | up => rfl
  | down name => exact if_pos (hm name rfl)

/-- A walk that keeps to the names and does not go below the leaves
    succeeds. -/
theorem walk_uniform (S : NameSet) (depth : Nat) (leaf : Node) (hleaf : leaf.names? = none)
    (ms : List (Move Bytes)) (loc : Location) (hloc : ∀ name ∈ loc, name ∈ S.names)
    (hlen : loc.length + ms.length ≤ depth + 1)
    (hms : ∀ name, Move.down name ∈ ms → name ∈ S.names) :
    walk (FileSystem.uniform S depth leaf hleaf).enter loc ms = .ok (target loc ms) := by
  induction ms generalizing loc with
  | nil => rfl
  | cons m ms ih =>
      rw [List.length_cons] at hlen
      have hm : ∀ name, m = .down name → name ∈ S.names :=
        fun name hname => hms name (hname ▸ List.mem_cons_self)
      -- One move keeps to the names and goes down by one level at most.
      have hnext : (∀ name ∈ m.apply loc, name ∈ S.names) ∧
          (m.apply loc).length ≤ loc.length + 1 := by
        cases m with
        | here => exact ⟨hloc, Nat.le_succ _⟩
        | up =>
            refine ⟨fun name hname => hloc name ((List.dropLast_sublist loc).subset hname), ?_⟩
            rw [Move.apply, List.length_dropLast]
            omega
        | down name =>
            rw [Move.apply, List.length_append, List.length_singleton, List.forall_mem_append,
              List.forall_mem_singleton]
            exact ⟨⟨hloc, hm name rfl⟩, Nat.le_refl _⟩
      rw [walk, enter_uniform S depth leaf hleaf loc m hloc (by omega) hm]
      exact ih _ hnext.1 (by omega) (fun name hname => hms name (List.mem_cons_of_mem _ hname))

/-- A walk that succeeds has kept to the names. -/
theorem mem_names_of_walk_uniform (S : NameSet) (depth : Nat) (leaf : Node)
    (hleaf : leaf.names? = none) (ms : List (Move Bytes)) (loc loc' : Location)
    (h : walk (FileSystem.uniform S depth leaf hleaf).enter loc ms = .ok loc')
    (name : Bytes) (hname : Move.down name ∈ ms) : name ∈ S.names := by
  induction ms generalizing loc with
  | nil => exact absurd hname List.not_mem_nil
  | cons m ms ih =>
      rw [walk] at h
      split at h
      · rename_i hok
        rcases List.mem_cons.mp hname with rfl | hrest
        · -- Going down was allowed, so the directory lists the name.
          rw [FileSystem.enter] at hok
          split at hok
          · rename_i readable size names hdir
            have hnames : (uniformNode S depth leaf loc).bind Node.names? = some names := by
              change uniformNode S depth leaf loc = _ at hdir
              rw [hdir]
              rfl
            rw [← ((uniformNode_names S depth leaf hleaf loc names).mp hnames).1]
            by_contra hnot
            simp only [if_neg hnot, reduceCtorEq] at hok
          · exact absurd hok (by simp only [reduceCtorEq, not_false_eq_true])
          · exact absurd hok (by simp only [reduceCtorEq, not_false_eq_true])
        · exact ih _ h hrest
      · exact absurd h (by simp only [reduceCtorEq, not_false_eq_true])

/-- The names `s` and `x`. -/
def twoNames : NameSet where
  names := [['s'], ['x']]
  nodup := by decide
  valid := by decide

/-- A server in `/s`, in a tree with the directories `/s` and `/x` and with
    the files `s` and `x` in both. -/
def sampleEnv : Env where
  fs := FileSystem.uniform twoNames 1 (.file true ['a', 'b']) rfl
  cwd := [['s']]
  options := { dir := ['/', 's'] }
  executableFileName := []

end Uniform

end HttpFileSharing
