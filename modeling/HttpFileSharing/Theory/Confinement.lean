import HttpFileSharing.Theory.Processing

/-!
# Staying in the Served Directory

Which requests are answered from inside the served directory. Nothing in the
code keeps them there, so it is the text of the URI that decides, and this is
how: a path that starts at the directory ends inside it exactly when the names
it goes down by, after the levels it climbs, lead back in. Where it climbs no
level that is always so.

There are three ways out. A URI with more `..` than names before them climbs.
A URI that begins with two slashes is served by an absolute path, which has to
name the directory itself. And a URI that does not begin with a slash is glued
to the last name of the directory when it is listed, which names something
beside it.

## Main definitions

* `ServesFrom`: The directory option is absolute and names where the process
  is.
* `Confined`: What is opened or listed for a URI is inside the directory.
* `Serves`, `Lists`: The two branches that open something.
* `ReturnsTo`: A relative path that ends inside where it starts.
* `FileStays`, `ListingStays`: What the text of the URI has to be.

## Theorems

* `prefix_target`: Ending inside, read off the path.
* `filename_processGetRequest`: The file a processed GET leaves to be opened.
* `file_confined_iff`, `listing_confined_iff`: The two branches.
* `confined_exact`: The exact condition.
* `confined_fails`: A file beside the directory.
-/

namespace HttpFileSharing

/-- The directory option is absolute, a C string, and names the working
    directory. -/
def ServesFrom (env : Env) : Prop :=
  env.options.dir.head? = some '/' ∧ '\x00' ∉ env.options.dir ∧
    env.fs.locate env.cwd env.options.dir = .ok env.cwd

/-- Every file that processing `uri` leaves in the response to be opened, and
    every directory it lists, is inside the served directory. -/
structure Confined (env : Env) (errno : Errno) (uri : Bytes) : Prop where
  file : ∀ req src rsp, req.mUri = uri →
    processGetRequest env errno req { mContentType := textPlain } src = .ok rsp →
    ∀ loc, env.fs.resolve env.cwd rsp.mRspFilename = .ok loc → env.cwd <+: loc
  listing : (checkIfFile env errno uri).1 = false →
    ∀ tree errno', getFileListing env (checkIfFile env errno uri).2 uri
        = .ok (some tree, errno') →
    ∀ loc names, env.fs.opendir env.cwd (cookPath env uri) = .ok (loc, names) →
      env.cwd <+: loc

/-- The request is answered with a file. -/
def Serves (env : Env) (errno : Errno) (uri : Bytes) : Prop :=
  (checkIfFile env errno uri).1 = true ∧
    ∃ node, env.fs.stat env.cwd (cleanFilename (uri.drop 1)) = .ok node

/-- The request is answered with a listing. -/
def Lists (env : Env) (errno : Errno) (uri : Bytes) : Prop :=
  (checkIfFile env errno uri).1 = false ∧
    ∃ tree errno', getFileListing env (checkIfFile env errno uri).2 uri
      = .ok (some tree, errno')

/-- A relative path from `root` that ends inside it: after the levels it
    climbs, the names it goes down by begin with those of the levels. -/
def ReturnsTo (root : Location) (path : Bytes) : Prop :=
  root.drop (root.length - (net (moves path)).ups) <+: (net (moves path)).names

/-- What the URI has to be for a file: a path that returns to the directory,
    or an absolute one that names it. -/
def FileStays (root : Location) (uri : Bytes) : Prop :=
  let path := cStr (cleanFilename (uri.drop 1))
  if path.head? = some '/' then root <+: (net (moves path)).names else ReturnsTo root path

/-- What the URI has to be for a listing: empty, a slash and a path that
    returns to the directory, or a text that glued to the directory's name
    makes an absolute path that names it. -/
def ListingStays (root : Location) (dir uri : Bytes) : Prop :=
  match cStr uri with
  | [] => True
  | c :: path =>
    if c = '/' then ReturnsTo root path
    else root <+: (net (moves (dir ++ c :: path))).names

/-- A path from `root` ends inside it when it returns to it. -/
theorem prefix_target (root : Location) (path : Bytes) :
    root <+: target root (moves path) ↔ ReturnsTo root path := by
  rw [target_eq_net, prefix_net_apply, ReturnsTo]

/-- A path from the top ends inside `root` when its names begin with it. -/
theorem prefix_target_nil (root : Location) (path : Bytes) :
    root <+: target [] (moves path) ↔ root <+: (net (moves path)).names := by
  rw [target_eq_net, Net.apply_nil]

theorem file_confined_iff (env : Env) (uri : Bytes) (loc : Location)
    (h : env.fs.resolve env.cwd (cleanFilename (uri.drop 1)) = .ok loc) :
    env.cwd <+: loc ↔ FileStays env.cwd uri := by
  rw [FileSystem.locate_ok _ _ _ _ (FileSystem.resolve_ok _ _ _ _ h), FileStays, startOf]
  split
  · exact prefix_target_nil _ _
  · exact prefix_target _ _

theorem listing_confined_iff (env : Env) (hdir : ServesFrom env) (uri : Bytes) (loc : Location)
    (h : env.fs.resolve env.cwd (cookPath env uri) = .ok loc) :
    env.cwd <+: loc ↔ ListingStays env.cwd env.options.dir uri := by
  rcases hdir with ⟨habs, hnul, hself⟩
  have hne : env.options.dir ≠ [] := fun hempty => by
    rw [hempty] at habs
    exact absurd habs (by decide)
  -- The option makes the path absolute, whatever the URI is.
  have hstart : startOf env.cwd (cStr (cookPath env uri)) = [] := by
    rw [cookPath, cStr_append _ _ hnul, startOf_append _ _ _ hne, startOf, if_pos habs]
  have hroot := FileSystem.locate_ok _ _ _ _ hself
  rw [cStr_of_nulFree _ hnul, startOf, if_pos habs] at hroot
  rw [FileSystem.locate_ok _ _ _ _ (FileSystem.resolve_ok _ _ _ _ h), hstart, cookPath,
    cStr_append _ _ hnul, ListingStays]
  cases cStr uri with
  | nil =>
      rw [List.append_nil, ← hroot]
      exact iff_of_true (List.prefix_refl _) trivial
  | cons c path =>
      by_cases hc : c = '/'
      · -- The option leads to the directory, and the rest goes on from there.
        rw [hc, moves_append_slash, target_append, ← hroot]
        exact prefix_target _ _
      · simp only [if_neg hc]
        exact prefix_target_nil _ _

/-- The file a processed GET leaves to be opened: the decoded URI without its
    first character where the request is answered with a file, else none. -/
theorem filename_processGetRequest (env : Env) (errno : Errno) (req : HTTPRequest)
    (src : Bytes) (rsp : HTTPResponse)
    (h : processGetRequest env errno req { mContentType := textPlain } src = .ok rsp) :
    (Serves env errno req.mUri ∧ rsp.mRspFilename = cleanFilename (req.mUri.drop 1)) ∨
      rsp.mRspFilename = [] := by
  cases responds_of_get env errno req src rsp h with
  | file node contentType hregular hnode _ => exact Or.inl ⟨⟨hregular, node, hnode⟩, rfl⟩
  | notFound | listing | failed => exact Or.inr rfl

/-- A listing that succeeds has opened its directory. -/
theorem opendir_of_listing (env : Env) (errno errno' : Errno) (uri : Bytes)
    (tree : List FSEntry) (h : getFileListing env errno uri = .ok (some tree, errno')) :
    ∃ loc names, env.fs.opendir env.cwd (cookPath env uri) = .ok (loc, names) := by
  rw [getFileListing] at h
  split at h
  · exact absurd h (by simp only [Except.ok.injEq, Prod.mk.injEq, reduceCtorEq, false_and,
      not_false_eq_true])
  · rw [getFilesysStructure] at h
    cases hopen : env.fs.opendir env.cwd (cookPath env uri) with
    | error e =>
        rw [hopen] at h
        exact absurd h (by simp only [Except.ok.injEq, Prod.mk.injEq, reduceCtorEq, false_and,
          not_false_eq_true])
    | ok dir => exact ⟨dir.1, dir.2, rfl⟩

/-- What is opened or listed for a URI is inside the served directory exactly
    when its text keeps the branch that is taken inside. -/
theorem confined_exact (env : Env) (hdir : ServesFrom env) (errno : Errno) (uri : Bytes) :
    Confined env errno uri ↔
      (Serves env errno uri → FileStays env.cwd uri) ∧
      (Lists env errno uri → ListingStays env.cwd env.options.dir uri) := by
  constructor
  · intro hconf
    refine ⟨fun hserves => ?_, fun hlists => ?_⟩
    · -- A request that is served stores the name it is served by.
      rcases hserves with ⟨hregular, node, hstat⟩
      rcases resolve_of_stat env _ node hstat with ⟨loc, hloc⟩
      rcases processGetRequest_file env errno { mUri := uri } [] hregular node hstat with
        ⟨contentType, _, hrsp⟩
      exact (file_confined_iff env uri loc hloc).mp
        (hconf.file { mUri := uri } [] _ rfl hrsp loc hloc)
    · rcases hlists with ⟨hdirectory, tree, errno', hlisting⟩
      rcases opendir_of_listing env _ errno' uri tree hlisting with ⟨loc, names, hopen⟩
      exact (listing_confined_iff env hdir uri loc (resolve_of_opendir env _ loc names hopen)).mp
        (hconf.listing hdirectory tree errno' hlisting loc names hopen)
  · rintro ⟨hfile, hlisting⟩
    refine ⟨fun req src rsp huri hrsp loc hloc => ?_,
      fun hdirectory tree errno' hlist loc names hopen => ?_⟩
    · -- A name was stored only if the request is served.
      rcases filename_processGetRequest env errno req src rsp hrsp with ⟨hserves, hname⟩ | hname
      · rw [huri] at hserves hname
        rw [hname] at hloc
        exact (file_confined_iff env uri loc hloc).mpr (hfile hserves)
      · -- No name was stored, and the empty path names nothing.
        have hlocate := FileSystem.resolve_ok _ _ _ _ hloc
        exact absurd hname (FileSystem.ne_nil_of_locate _ _ _ _ hlocate)
    · exact (listing_confined_iff env hdir uri loc (resolve_of_opendir env _ loc names hopen)).mpr
        (hlisting ⟨hdirectory, tree, errno', hlist⟩)

theorem sampleEnv_servesFrom : ServesFrom sampleEnv := ⟨rfl, by decide, rfl⟩

/-- A path that climbs out of the directory and comes back. -/
theorem confined_exact_return :
    Confined sampleEnv 0 "/../s/x".toList ↔
      (Serves sampleEnv 0 "/../s/x".toList → FileStays sampleEnv.cwd "/../s/x".toList) ∧
      (Lists sampleEnv 0 "/../s/x".toList →
        ListingStays sampleEnv.cwd sampleEnv.options.dir "/../s/x".toList) :=
  confined_exact sampleEnv sampleEnv_servesFrom 0 "/../s/x".toList

/-- A path that climbs out of the directory to a file beside it. -/
theorem confined_fails :
    ¬ ∀ env, ServesFrom env → ∀ errno uri, Confined env errno uri := by
  intro hall
  have hconf := hall sampleEnv sampleEnv_servesFrom 0 "/../x/x".toList
  have hrsp : processGetRequest sampleEnv 0 { mUri := "/../x/x".toList }
      { mContentType := textPlain } [] = .ok ⟨.httpOk, 2, octetStream, [], "../x/x".toList⟩ := by
    decide
  exact absurd (hconf.file _ _ _ rfl hrsp [['x'], ['x']] (by decide)) (by decide)

end HttpFileSharing
