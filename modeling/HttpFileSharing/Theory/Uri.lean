import HttpFileSharing.Theory.PageLinks

/-!
# The URIs of the Tree

The URI under which a node of the served tree is linked: a slash and the
encoded name for each directory on the way to it. Decoding gives back the path
that leads to the node from the served directory, and both look-ups of a
request find it there. Going up and going down agree with it: the links on the
page for a directory are the URIs of the directories above and, for an entry,
the URI of the entry.

## Main definitions

* `uriOf`: The URI of a node.
* `above`: The directories above a node.

## Theorems

* `cleanFilename_uriOf`: Decoding the URI of a node.
* `href_uriOf`: The link to an entry is its URI.
* `locate_cookPath_pathOf`, `locate_drop_pathOf`: Where the two look-ups lead.
* `upAnchors_uriOf`: The links up are the URIs of the directories above.
-/

namespace HttpFileSharing

/-- The URI of the node that `names` lead to from the served directory. -/
def uriOf (names : Location) : Bytes :=
  if names = [] then ['/'] else names.flatMap (fun name => '/' :: makeHttpFriendly name)

/-- The directories above a node, from the served one on. -/
def above (names : Location) : List Location := names.inits.dropLast

/-- A URI has the characters of the names, encoded, and slashes. -/
theorem mem_uriOf (names : Location) (c : Char) (h : c ∈ uriOf names) :
    c = '/' ∨ c ≠ ' ' ∧ (c ∈ escapedSpace ∨ ∃ name ∈ names, c ∈ name) := by
  rw [uriOf] at h
  split at h
  · exact Or.inl (List.mem_singleton.mp h)
  · rcases List.mem_flatMap.mp h with ⟨name, hname, hmem⟩
    rcases List.mem_cons.mp hmem with hslash | hmem
    · exact Or.inl hslash
    · rcases mem_makeHttpFriendly name c hmem with ⟨hspace, hin | hin⟩
      · exact Or.inr ⟨hspace, Or.inr ⟨name, hname, hin⟩⟩
      · exact Or.inr ⟨hspace, Or.inl hin⟩

/-- Where no name has a space, the URI is the path. -/
theorem uriOf_eq_pathOf (names : Location) (h : ∀ name ∈ names, ' ' ∉ name) :
    uriOf names = pathOf names := by
  have hnames : names.flatMap (fun name => '/' :: makeHttpFriendly name)
      = names.flatMap (fun name => '/' :: name) := by
    refine List.flatMap_congr (fun name hname => ?_)
    rw [(makeHttpFriendly_eq_self_iff name).mpr (h name hname)]
  rw [uriOf, pathOf, hnames]

/-- Decoding the URI of a node gives its path. -/
theorem cleanFilename_uriOf (names : Location) (h : ∀ name ∈ names, ¬ escapedSpace <:+: name) :
    cleanFilename (uriOf names) = pathOf names := by
  -- A slash ends the part that is decoded with the name before it.
  have hgen : ∀ (names : Location) (a : Bytes), (∀ name ∈ names, ¬ escapedSpace <:+: name) →
      cleanFilename (a ++ names.flatMap (fun name => '/' :: makeHttpFriendly name))
        = cleanFilename a ++ names.flatMap (fun name => '/' :: name) := by
    intro names
    induction names with
    | nil => exact fun a _ => by rw [List.flatMap_nil, List.append_nil, List.flatMap_nil,
        List.append_nil]
    | cons name names ih =>
        intro a h
        rw [List.flatMap_cons, List.flatMap_cons, List.cons_append, cleanFilename_append_slash,
          ih _ (fun n hn => h n (List.mem_cons_of_mem _ hn)),
          cleanFilename_link name (h name List.mem_cons_self), List.cons_append]
  have hpath := hgen names [] h
  rw [List.nil_append] at hpath
  rw [uriOf, pathOf]
  split
  · decide
  · rw [hpath]
    rfl

section Links

/-- A URI with a slash at its end. -/
theorem withSlash_uriOf (names : Location) (hvalid : ∀ name ∈ names, ValidName name) :
    withSlash (uriOf names)
      = names.flatMap (fun name => '/' :: makeHttpFriendly name) ++ ['/'] := by
  rcases List.eq_nil_or_concat' names with rfl | ⟨init, name, rfl⟩
  · decide
  · have hlast := hvalid name (List.mem_append_right _ (List.mem_singleton_self _))
    have henc := validName_makeHttpFriendly name hlast
    -- The last character is one of the last name.
    have hend : (uriOf (init ++ [name])).getLast? ≠ some '/' := by
      intro h
      rw [uriOf, if_neg (List.append_ne_nil_of_right_ne_nil _ (List.cons_ne_nil _ _)),
        List.flatMap_append, List.flatMap_singleton, List.getLast?_append,
        List.getLast?_cons_of_ne_nil henc.1, List.getLast?_eq_some_getLast henc.1,
        Option.some_or, Option.some.injEq] at h
      exact henc.2.2.2.1 (h ▸ List.getLast_mem henc.1)
    rw [withSlash, if_neg hend, uriOf,
      if_neg (List.append_ne_nil_of_right_ne_nil _ (List.cons_ne_nil _ _))]

/-- The link to an entry is its URI. -/
theorem href_uriOf (names : Location) (hvalid : ∀ name ∈ names, ValidName name) (name : Bytes) :
    href (uriOf names) name = uriOf (names ++ [name]) := by
  rw [href, withSlash_uriOf names hvalid, uriOf,
    if_neg (List.append_ne_nil_of_right_ne_nil _ (List.cons_ne_nil _ _)), List.flatMap_append,
    List.flatMap_singleton, List.append_assoc, List.singleton_append]

/-- The page for the URI of a node can be built. -/
theorem safeUri_uriOf (names : Location) (hvalid : ∀ name ∈ names, ValidName name) :
    SafeUri (uriOf names) := by
  rcases List.eq_nil_or_concat' names with rfl | ⟨init, name, rfl⟩
  · exact Or.inl rfl
  · rw [← href_uriOf init (fun n hn => hvalid n (List.mem_append_left _ hn)) name]
    exact safeUri_href _ name (hvalid name (List.mem_append_right _ (List.mem_singleton_self _)))

/-- The links to the directories above, behind those that have been written. -/
theorem href_backAnchors (done rest : Location) (hvalid : ∀ name ∈ done ++ rest, ValidName name) :
    (backAnchors (withSlash (uriOf done)) (rest.map makeHttpFriendly)).map Anchor.href
      = rest.inits.tail.map (fun names => uriOf (done ++ names)) := by
  induction rest generalizing done with
  | nil => rfl
  | cons name rest ih =>
      have hdone : ∀ n ∈ done, ValidName n := fun n hn => hvalid n (List.mem_append_left _ hn)
      have hsplit : done ++ name :: rest = (done ++ [name]) ++ rest := by
        rw [List.append_assoc, List.singleton_append]
      have hnext := ih (done ++ [name]) (hsplit ▸ hvalid)
      have hslash := withSlash_uriOf (done ++ [name]) (fun n hn =>
        hvalid n (hsplit ▸ List.mem_append_left _ hn))
      -- What the next links begin with.
      have hpath : withSlash (uriOf done) ++ makeHttpFriendly name ++ ['/']
          = withSlash (uriOf (done ++ [name])) := by
        rw [hslash, withSlash_uriOf done hdone, List.flatMap_append, List.flatMap_singleton,
          List.append_assoc (done.flatMap _), List.singleton_append]
      have hlink := href_uriOf done hdone name
      rw [href] at hlink
      have hinits :
          (name :: rest).inits.tail = [name] :: rest.inits.tail.map (fun t => name :: t) := by
        cases rest with
        | nil => rfl
        | cons n rest => rfl
      rw [List.map_cons, backAnchors, hpath, List.map_cons, hnext, hlink, hinits, List.map_cons,
        List.map_map]
      refine congrArg (List.cons _) (List.map_congr_left (fun t _ => ?_))
      rw [List.append_assoc, List.singleton_append]
      rfl

/-- The links up on the page for a directory are the URIs of the directories
    above it. -/
theorem upAnchors_uriOf (names : Location) (hvalid : ∀ name ∈ names, ValidName name)
    (hlen : (uriOf names).length < 2 ^ 32) :
    (upAnchors (uriOf names)).map Anchor.href = (above names).map uriOf := by
  rcases List.eq_nil_or_concat' names with rfl | ⟨init, name, rfl⟩
  · rfl
  · have hinit : ∀ n ∈ init, ValidName n := fun n hn => hvalid n (List.mem_append_left _ hn)
    have henc := validName_makeHttpFriendly name
      (hvalid name (List.mem_append_right _ (List.mem_singleton_self _)))
    rw [← href_uriOf init hinit name] at hlen ⊢
    -- The parent is the directory the entry is in.
    have hcut : href (uriOf init) name
        = init.flatMap (fun name => '/' :: makeHttpFriendly name)
          ++ '/' :: ((makeHttpFriendly name).dropLast
            ++ [(makeHttpFriendly name).getLast henc.1]) := by
      rw [href, withSlash_uriOf init hinit, List.dropLast_append_getLast, List.append_assoc,
        List.singleton_append]
    have hparent : getParentDir (href (uriOf init) name)
        = .ok (init.flatMap (fun name => '/' :: makeHttpFriendly name) ++ ['/']) := by
      rw [hcut] at hlen ⊢
      exact getParentDir_slash _ _ _ (fun h => henc.2.2.2.1 (List.dropLast_subset _ h)) hlen
    have hroot : href (uriOf init) name ≠ "/".toList := by
      intro h
      have hsize := congrArg List.length h
      rw [hcut, List.length_append, List.length_cons, List.length_append] at hsize
      simp only [List.length_singleton] at hsize
      exact absurd hsize (by
        have : "/".toList.length = 1 := rfl
        omega)
    -- Each component of the parent is a line that its slash ends.
    have hnodes : getVectorOfPathNodes
        (init.flatMap (fun name => '/' :: makeHttpFriendly name) ++ ['/'])
          = init.map makeHttpFriendly := by
      have hshift : ∀ init : Location,
          init.flatMap (fun name => '/' :: makeHttpFriendly name) ++ ['/']
            = '/' :: (init.map (fun name => makeHttpFriendly name ++ ['/'])).flatten := by
        intro init
        induction init with
        | nil => rfl
        | cons n init ih =>
            rw [List.flatMap_cons, List.append_assoc, ih, List.map_cons, List.flatten_cons,
              List.cons_append, List.append_assoc, List.singleton_append]
      have hlines : ∀ l ∈ init.map (fun name => makeHttpFriendly name ++ ['/']), IsLine '/' l := by
        intro l hl
        rcases List.mem_map.mp hl with ⟨n, hn, rfl⟩
        exact ⟨makeHttpFriendly n, (validName_makeHttpFriendly n (hinit n hn)).2.2.2.1, rfl⟩
      have hcomplete := completeLines_flatten '/' _ [] hlines
      rw [List.append_nil] at hcomplete
      rw [getVectorOfPathNodes, hshift, List.drop_one, List.tail_cons, hcomplete,
        completeLines, completeFrom, List.append_nil, List.map_map]
      refine List.map_congr_left (fun n _ => ?_)
      exact List.dropLast_concat
    have hback := href_backAnchors [] init (by rwa [List.nil_append])
    have hinits : (init ++ [name]).inits.dropLast = [] :: init.inits.tail := by
      have hcons : init.inits = [] :: init.inits.tail := by
        cases init with
        | nil => rfl
        | cons n init => rfl
      rw [List.inits_append, show [name].inits.tail = [[name]] from rfl, List.map_singleton,
        List.dropLast_concat]
      exact hcons
    have hne : init.flatMap (fun name => '/' :: makeHttpFriendly name) ++ ['/'] ≠ [] :=
      List.append_ne_nil_of_right_ne_nil _ (List.cons_ne_nil _ _)
    rw [upAnchors, if_pos hroot, hparent]
    simp only [if_pos hne]
    rw [hnodes, above, hinits, List.map_cons, List.map_cons]
    exact congrArg (List.cons _) hback

end Links

section Lookups

variable (env : Env) (names : Location)

/-- The names that lead to a node, from a directory. -/
theorem walk_pathOf (loc : Location) (name : Bytes)
    (hsome : (env.fs.node (loc ++ name :: names)).isSome = true) :
    walk env.fs.enter loc (moves (name ++ names.flatMap (fun name => '/' :: name)))
      = .ok (loc ++ name :: names) := by
  have hvalid := env.fs.validName_of_node _ hsome
  have hname := hvalid name (List.mem_append_right _ List.mem_cons_self)
  rw [moves_validNames names name (fun n hn =>
      hvalid n (List.mem_append_right _ (List.mem_cons_of_mem _ hn))),
    moves_name name hname.2.2.2.1, moveOf_validName name hname, List.singleton_append,
    ← List.map_cons]
  exact env.fs.walk_down loc (name :: names) hsome

/-- Behind the directory option, the path of a node leads to it. -/
theorem locate_cookPath_pathOf (hserves : ServesFrom env)
    (hdir : ∃ children, (env.fs.node env.cwd).bind Node.names? = some children)
    (hsome : (env.fs.node (env.cwd ++ names)).isSome = true) :
    env.fs.locate env.cwd (cookPath env (pathOf names)) = .ok (env.cwd ++ names) := by
  have hne : env.options.dir ≠ [] := FileSystem.ne_nil_of_locate _ _ _ _ hserves.2.2
  have hnul := nulFree_pathOf names (fun name hname =>
    env.fs.validName_of_node _ hsome name (List.mem_append_right _ hname))
  cases names with
  | nil =>
      rw [cookPath, show pathOf [] = '/' :: [] from rfl,
        env.fs.locate_append_slash env.cwd _ [] hne hserves.2.1, hserves.2.2, List.append_nil]
      exact env.fs.walk_here env.cwd hdir _ (by decide)
  | cons name names =>
      have hpath : pathOf (name :: names)
          = '/' :: (name ++ names.flatMap (fun name => '/' :: name)) :=
        if_neg (List.cons_ne_nil _ _)
      rw [hpath, List.mem_cons, not_or] at hnul
      rw [cookPath, hpath, env.fs.locate_append_slash env.cwd _ _ hne hserves.2.1, hserves.2.2,
        cStr_of_nulFree _ hnul.2]
      exact walk_pathOf env names env.cwd name hsome

/-- Without its first slash, the path of a node leads to it from the working
    directory. -/
theorem locate_drop_pathOf (hne : names ≠ [])
    (hsome : (env.fs.node (env.cwd ++ names)).isSome = true) :
    env.fs.locate env.cwd ((pathOf names).drop 1) = .ok (env.cwd ++ names) := by
  have hvalid : ∀ name ∈ names, ValidName name := fun name hname =>
    env.fs.validName_of_node _ hsome name (List.mem_append_right _ hname)
  have hnul := nulFree_pathOf names hvalid
  cases names with
  | nil => exact absurd rfl hne
  | cons name names =>
      have hpath : pathOf (name :: names)
          = '/' :: (name ++ names.flatMap (fun name => '/' :: name)) :=
        if_neg (List.cons_ne_nil _ _)
      have hname := hvalid name List.mem_cons_self
      rw [hpath, List.mem_cons, not_or] at hnul
      have hcut := cStr_of_nulFree _ hnul.2
      -- The path begins with the first name, which is not empty and has no slash.
      have hhead : (name ++ names.flatMap (fun name => '/' :: name)).head? ≠ some '/' := by
        rw [List.head?_append_of_ne_nil _ hname.1]
        exact fun h => hname.2.2.2.1 (List.mem_of_head? h)
      rw [hpath, List.drop_one, List.tail_cons, env.fs.locate_relative env.cwd _ (by
        rw [hcut]
        exact fun h => hname.1 (List.append_eq_nil_iff.mp h).1) (by rwa [hcut]), hcut]
      exact walk_pathOf env names env.cwd name hsome

end Lookups

end HttpFileSharing
