import HttpFileSharing.Theory.Answer
import HttpFileSharing.Theory.Codec
import HttpFileSharing.Theory.Confinement
import HttpFileSharing.Theory.Lookup

/-!
# Following Links

Where the links of a listing lead. A link is the URI of the page, with a slash
at its end, and the encoded name of the entry. A request for it makes the two
look-ups for a file with the decoded link, and the one for a directory with the
link as it is.

So a file is found where the decoded URI leads to the directory that was
listed, whatever the file is called, since decoding undoes the encoding of the
name. A directory is found where its name needs no encoding: nothing decodes a
`%20` on the way to `opendir`, and a directory whose name has a space is looked
for under another name.

## Main definitions

* `withSlash`, `href`: A link.
* `AnsweredByFile`, `AnsweredByListing`: What a request is answered with.
* `DecodedHasFile`: A file where the decoded link is looked up.
* `FileLinkHolds`, `DirectoryLinkHolds`, `LinkHolds`: Where a link leads to its
  entry.
* `Listed`: A directory that is served.
* `LinkLeads`: The answer comes from the entry.
* `PlainLink`: A URI without escapes, and paths that the kernel takes.

## Theorems

* `fillHtmlBody_href`, `parseHttpMethod_href`: The links of a page, and how
  they go through the request line.
* `answeredByFile_iff`, `answeredByListing_iff`: What such an answer takes.
* `locate_tested`, `locate_served`, `locate_listed`: What the three look-ups of
  a link find.
* `file_link_iff`, `directory_link_iff`, `link_exact`: When a link leads to its
  entry.
* `linkHolds_plain`: Under a plain URI, the name of a directory decides.
-/

namespace HttpFileSharing

/-- A path with a slash at its end. -/
def withSlash (path : Bytes) : Bytes := if path.getLast? = some '/' then path else path ++ ['/']

/-- The link to the entry `name` on the page for `uri`. -/
def href (uri name : Bytes) : Bytes := withSlash uri ++ makeHttpFriendly name

section Href

theorem withSlash_eq (path : Bytes) : ∃ a, withSlash path = a ++ ['/'] ∧ a <+: path := by
  rw [withSlash]
  split
  · rename_i hslash
    rcases List.getLast?_eq_some_iff.mp hslash with ⟨a, rfl⟩
    exact ⟨a, rfl, List.prefix_append a _⟩
  · exact ⟨path, rfl, List.prefix_refl path⟩

theorem getLast?_withSlash (path : Bytes) : (withSlash path).getLast? = some '/' := by
  rcases withSlash_eq path with ⟨a, ha, _⟩
  rw [ha, List.getLast?_append, List.getLast?_singleton, Option.some_or]

theorem mem_withSlash (path : Bytes) (c : Char) (hc : c ≠ '/') : c ∈ withSlash path ↔ c ∈ path := by
  rw [withSlash]
  split
  · exact Iff.rfl
  · rw [List.mem_append, List.mem_singleton]
    exact or_iff_left hc

theorem withSlash_append (a path : Bytes) (hne : path ≠ []) :
    withSlash (a ++ path) = a ++ withSlash path := by
  have hlast : (a ++ path).getLast? = path.getLast? := by
    rw [List.getLast?_append, List.getLast?_eq_some_getLast hne, Option.some_or]
  rw [withSlash, withSlash, hlast]
  split
  · rfl
  · rw [List.append_assoc]

/-- What is left of a path with a slash at its end. -/
theorem getLast?_drop_withSlash (path : Bytes) :
    (withSlash path).drop 1 = [] ∨ ((withSlash path).drop 1).getLast? = some '/' := by
  rcases withSlash_eq path with ⟨a, ha, _⟩
  rw [ha]
  cases a with
  | nil => exact Or.inl rfl
  | cons c a =>
      rw [List.cons_append, List.drop_one, List.tail_cons]
      exact Or.inr (by rw [List.getLast?_append, List.getLast?_singleton, Option.some_or])

/-- The list of a page that lists something. -/
theorem fillHtmlBody_slash (tree : List FSEntry) (htree : tree ≠ []) (uri : Bytes) (hne : uri ≠ [])
    (hlen : uri.length < 2 ^ 32) :
    fillHtmlBody tree uri = .ok ("<ul style=\"list-style-type:none;\">".toList ++ lf
      ++ tree.flatMap (listItem (withSlash uri)) ++ "</ul>".toList ++ lf) := by
  have hlast : charAt uri (sizeSub uri.length 1) = .ok (uri.getLast hne) := by
    have hpos := List.length_pos_iff.mpr hne
    rw [charAt, sizeSub_eq _ _ hpos (by omega), ← List.getLast?_eq_getElem?,
      List.getLast?_eq_some_getLast hne]
  -- The prefix of the links is the URI with a slash at its end.
  have hslashed : (if uri.getLast hne ≠ '/' then uri ++ "/".toList else uri) = withSlash uri := by
    rw [withSlash, List.getLast?_eq_some_getLast hne]
    by_cases hslash : uri.getLast hne = '/'
    · rw [if_neg (fun h => h hslash), if_pos (by rw [hslash])]
    · rw [if_pos hslash, if_neg (fun h => hslash (Option.some.inj h))]
      rfl
  rw [fillHtmlBody, hlast]
  simp only [hslashed]
  exact if_neg htree

/-- The same, between its first line and its last. -/
theorem fillHtmlBody_eq (tree : List FSEntry) (htree : tree ≠ []) (uri : Bytes) (hne : uri ≠ [])
    (hlen : uri.length < 2 ^ 32) :
    ∃ opened closed, fillHtmlBody tree uri
      = .ok (opened ++ tree.flatMap (listItem (withSlash uri)) ++ closed) :=
  ⟨_, _, (fillHtmlBody_slash tree htree uri hne hlen).trans
    (congrArg Except.ok (List.append_assoc _ _ _))⟩

/-- The links of a page that lists something. -/
theorem fillHtmlBody_href (tree : List FSEntry) (uri : Bytes) (hne : uri ≠ [])
    (hlen : uri.length < 2 ^ 32) (it : FSEntry) (hit : it ∈ tree) :
    ∃ before after, fillHtmlBody tree uri
      = .ok (before ++ ("<a href=\"".toList ++ href uri it.name ++ "\">".toList) ++ after) := by
  rcases fillHtmlBody_eq tree (List.ne_nil_of_mem hit) uri hne hlen with ⟨opened, closed, hbody⟩
  have hitem : ∃ a b, listItem (withSlash uri) it
      = a ++ ("<a href=\"".toList ++ href uri it.name ++ "\">".toList) ++ b := by
    -- Six texts put together, grouped around the link.
    have hgroup : ∀ li a u q n r e l : Bytes, li ++ a ++ u ++ q ++ n ++ r ++ e ++ l
        = li ++ (a ++ u ++ q) ++ (n ++ r ++ e ++ l) := by
      intro li a u q n r e l
      simp only [List.append_assoc]
    exact ⟨_, _, hgroup _ _ _ _ _ _ _ _⟩
  rcases hitem with ⟨a, b, hitem⟩
  rcases List.append_of_mem hit with ⟨pre, post, rfl⟩
  rw [hbody, List.flatMap_append, List.flatMap_cons, hitem]
  refine ⟨opened ++ pre.flatMap (listItem (withSlash uri)) ++ a,
    b ++ post.flatMap (listItem (withSlash uri)) ++ closed, ?_⟩
  generalize "<a href=\"".toList ++ href uri it.name ++ "\">".toList = link
  simp only [List.append_assoc]

/-- A link goes through the request line. -/
theorem parseHttpMethod_href (uri name rest : Bytes) (huri : ' ' ∉ uri) :
    (parseHttpMethod (methodGet ++ ' ' :: (href uri name ++ ' ' :: rest))).1 = methodGet ∧
      (parseHttpMethod (methodGet ++ ' ' :: (href uri name ++ ' ' :: rest))).2.1
        = href uri name := by
  have hlink : ' ' ∉ href uri name := by
    rw [href, List.mem_append, not_or]
    exact ⟨fun h => huri ((mem_withSlash uri ' ' (by decide)).mp h),
      fun h => (mem_makeHttpFriendly name ' ' h).1 rfl⟩
  rw [parseHttpMethod, takeUntil_append ' ' methodGet _ (by decide)]
  simp only [takeUntil_append ' ' (href uri name) _ hlink, and_self]

end Href

/-- The request is answered with status 200 and the contents of the file at
    `loc`. -/
def AnsweredByFile (ndebug : Bool) (env : Env) (answers : Answers) (errno : Errno)
    (lines : List Bytes) (src : Bytes) (loc : Location) (content : Bytes) : Prop :=
  ∃ n, ∀ fuel, n ≤ fuel → ∃ p,
    processRequest ndebug env answers fuel errno lines src = .ok (some p) ∧
    p.rsp.mStatus = .httpOk ∧ env.fs.resolve env.cwd p.rsp.mRspFilename = .ok loc ∧
    readResponse p.out.wire = some ⟨200, p.rsp.mContentType, content.length, content⟩

/-- The request is answered with status 200 and the page that lists the
    directory at `loc`. -/
def AnsweredByListing (ndebug : Bool) (env : Env) (answers : Answers) (errno : Errno)
    (lines : List Bytes) (src : Bytes) (loc : Location) (names : List Bytes) : Prop :=
  let req := (HTTPRequest.parse {} lines).2
  ∃ tree errno' page,
    env.fs.opendir env.cwd (cookPath env req.mUri) = .ok (loc, names) ∧
    getFileListing env (checkIfFile env errno req.mUri).2 req.mUri = .ok (some tree, errno') ∧
    buildRspHtml env [] req tree src = .ok (.httpOk, page) ∧
    ∃ n, ∀ fuel, n ≤ fuel → ∃ p,
      processRequest ndebug env answers fuel errno lines src = .ok (some p) ∧
      p.rsp.mStatus = .httpOk ∧ p.rsp.mRspFilename = [] ∧
      readResponse p.out.wire = some ⟨200, textHtml, page.length, page⟩

section Lookups

/-- What a system call finds is what the kernel lets through and the path
    names. -/
theorem FileSystem.resolve_eq_ok_iff (fs : FileSystem) (cwd : Location) (path : Bytes)
    (loc : Location) :
    fs.resolve cwd path = .ok loc ↔
      fs.refuses (cStr path) = none ∧ fs.locate cwd path = .ok loc := by
  rw [FileSystem.resolve]
  cases fs.refuses (cStr path) with
  | none => exact ⟨fun h => ⟨rfl, h⟩, fun h => h.2⟩
  | some e =>
      exact iff_of_false (by simp only [reduceCtorEq, not_false_eq_true])
        (fun h => absurd h.1 (by simp only [reduceCtorEq, not_false_eq_true]))

theorem FileSystem.stat_eq_ok_iff (fs : FileSystem) (cwd : Location) (path : Bytes)
    (node : Node) :
    fs.stat cwd path = .ok node ↔
      ∃ loc, fs.resolve cwd path = .ok loc ∧ fs.node loc = some node := by
  rw [FileSystem.stat]
  cases fs.resolve cwd path with
  | error e =>
      refine iff_of_false (by simp only [reduceCtorEq, not_false_eq_true]) ?_
      rintro ⟨loc, h, _⟩
      exact absurd h (by simp only [reduceCtorEq, not_false_eq_true])
  | ok loc =>
      simp only [Except.ok.injEq]
      rw [exists_eq_left']
      cases fs.node loc with
      | none =>
          exact iff_of_false (by simp only [reduceCtorEq, not_false_eq_true])
            (by simp only [reduceCtorEq, not_false_eq_true])
      | some node' => simp only [Except.ok.injEq, Option.some.injEq]

/-- What a system call finds depends on the C string alone. -/
theorem FileSystem.resolve_congr (fs : FileSystem) (cwd : Location) (p q : Bytes)
    (h : cStr p = cStr q) : fs.resolve cwd p = fs.resolve cwd q := by
  rw [FileSystem.resolve, FileSystem.resolve, FileSystem.locate, FileSystem.locate, h]

theorem checkIfFile_eq_true_iff (env : Env) (errno : Errno) (uri : Bytes) :
    (checkIfFile env errno uri).1 = true ↔ ∃ readable content,
      env.fs.stat env.cwd (cookPath env (cleanFilename uri)) = .ok (.file readable content) := by
  rw [checkIfFile, isFile]
  cases env.fs.stat env.cwd (cookPath env (cleanFilename uri)) with
  | error e =>
      simp only [Bool.false_eq_true, reduceCtorEq, exists_false]
  | ok node =>
      cases node with
      | file readable content => exact iff_of_true rfl ⟨readable, content, rfl⟩
      | dir | other => simp only [Bool.false_eq_true, Except.ok.injEq, reduceCtorEq, exists_false]

end Lookups

section Answers

variable (ndebug : Bool) (env : Env) (answers : Answers) (errno : Errno) (lines : List Bytes)
  (src : Bytes)

/-- The file at `loc` answers a GET when the first look-up finds a file, the
    second finds this one, and it can be read. -/
theorem answeredByFile_iff (hsent : AllSent answers) (req : HTTPRequest)
    (hreq : (HTTPRequest.parse {} lines).2 = req) (hget : req.mMethod = methodGet)
    (loc : Location) (readable : Bool) (content : Bytes)
    (hnode : env.fs.node loc = some (.file readable content)) :
    AnsweredByFile ndebug env answers errno lines src loc content ↔
      (checkIfFile env errno req.mUri).1 = true ∧
        env.fs.resolve env.cwd (cleanFilename (req.mUri.drop 1)) = .ok loc ∧ readable = true := by
  have hprepare := prepareResponse_get env errno req src hget
  constructor
  · rintro ⟨n, hanswered⟩
    rcases hanswered n (Nat.le_refl n) with ⟨p, hp, _, hresolve, _⟩
    rcases prepared_of_processRequest ndebug env answers errno lines src n p hp with ⟨hrsp, hsend⟩
    rw [hreq, hprepare] at hrsp
    have hname := FileSystem.ne_nil_of_locate _ _ _ _ (FileSystem.resolve_ok _ _ _ _ hresolve)
    -- A response that names a file is that of the file branch.
    cases hp' : p.rsp with
    | mk status len contentType body name =>
        rw [hp'] at hrsp hsend hresolve hname
        cases responds_of_get env errno req src _ hrsp with
        | notFound | listing | failed => exact absurd rfl hname
        | file node _ hregular hstat _ =>
            refine ⟨hregular, hresolve, ?_⟩
            rcases sendHttpRsp_file_ok ndebug env answers hsent _ contentType node.size hname n
              _ hsend with ⟨out, tail, _, hfile, _⟩
            -- An unreadable file is not opened, and sending it faults.
            cases readable with
            | true => rfl
            | false =>
                have hopen : env.fs.fopen env.cwd (cleanFilename (req.mUri.drop 1)) = none := by
                  rw [FileSystem.fopen, (env.fs.stat_eq_ok_iff _ _ _).mpr ⟨loc, hresolve, hnode⟩]
                rw [hopen] at hfile
                exact absurd hfile (by simp only [TCPConnection.sendFile, reduceCtorEq,
                  not_false_eq_true])
  · rintro ⟨hregular, hresolve, rfl⟩
    have hstat : env.fs.stat env.cwd (cleanFilename (req.mUri.drop 1))
        = .ok (.file true content) := (env.fs.stat_eq_ok_iff _ _ _).mpr ⟨loc, hresolve, hnode⟩
    have hopen : env.fs.fopen env.cwd (cleanFilename (req.mUri.drop 1))
        = some (.regular content) := by
      rw [FileSystem.fopen, hstat]
    have hname := ne_nil_of_stat env _ _ hstat
    rcases processGetRequest_file env errno req src hregular _ hstat with
      ⟨contentType, _, hserve⟩
    rw [hserve, ← hreq] at hprepare
    rcases processRequest_framed ndebug env answers errno lines src hsent _ hprepare
      HTTPStatus.noConfusion (fun _ => ⟨.regular content, by rw [hreq]; exact hopen,
        Nat.le_refl _⟩) with ⟨n, hframed⟩
    refine ⟨n, fun fuel hfuel => ?_⟩
    rcases hframed fuel hfuel with ⟨p, hp, hrsp, hwire⟩
    rw [hreq] at hrsp hwire
    refine ⟨p, hp, by rw [hrsp], by rw [hrsp]; exact hresolve, ?_⟩
    rw [hwire.read_eq, payload, if_neg hname, hrsp]
    simp only [hopen, Stream.bytes, Node.size, HTTPStatus.toInt, List.take_length]

/-- The page that lists the directory at `loc` answers a GET when the first
    look-up finds no file, and the path of the listing is short enough and
    opens this directory. -/
theorem answeredByListing_iff (hfit : NamesFit env.fs) (hsent : AllSent answers)
    (req : HTTPRequest) (hreq : (HTTPRequest.parse {} lines).2 = req)
    (hget : req.mMethod = methodGet) (hsafe : SafeUri req.mUri) (loc : Location)
    (names : List Bytes) :
    AnsweredByListing ndebug env answers errno lines src loc names ↔
      (checkIfFile env errno req.mUri).1 = false ∧
        (cookPath env req.mUri).length < pathMax ∧
        env.fs.opendir env.cwd (cookPath env req.mUri) = .ok (loc, names) := by
  have hprepare := prepareResponse_get env errno req src hget
  rw [AnsweredByListing]
  simp only [hreq]
  constructor
  · rintro ⟨tree, errno', page, hopen, hlisting, hpage, n, hanswered⟩
    refine ⟨?_, short_of_listing env _ errno' req.mUri tree hlisting, hopen⟩
    by_contra hregular
    rw [Bool.not_eq_false] at hregular
    rcases hanswered n (Nat.le_refl n) with ⟨p, hp, hstatus, hname, _⟩
    rcases prepared_of_processRequest ndebug env answers errno lines src n p hp with ⟨hrsp, _⟩
    rw [hreq, hprepare] at hrsp
    -- The response would say that nothing was found, or name a file.
    cases hstat : env.fs.stat env.cwd (cleanFilename (req.mUri.drop 1)) with
    | error e =>
        rw [processGetRequest_missing env errno req src hregular e hstat] at hrsp
        rw [← Except.ok.inj hrsp] at hstatus
        exact HTTPStatus.noConfusion hstatus
    | ok node =>
        rcases processGetRequest_file env errno req src hregular node hstat with ⟨_, _, hserve⟩
        rw [hserve] at hrsp
        rw [← Except.ok.inj hrsp] at hname
        exact ne_nil_of_stat env _ node hstat hname
  · rintro ⟨hother, hshort, hopen⟩
    have hlisting := getFileListing_eq env hfit (checkIfFile env errno req.mUri).2 req.mUri
      (Nat.not_le_of_lt hshort) loc names hopen
    have hlen := length_of_listing env _ _ req.mUri _ hlisting
    rcases buildRspHtml_ok env [] req _ src hlen hsafe with ⟨page, hpage, hne⟩
    refine ⟨_, _, page, hopen, hlisting, hpage, ?_⟩
    rw [processGetRequest_listed env errno req src hother _ _ hlisting page hpage,
      ← hreq] at hprepare
    rcases processRequest_framed ndebug env answers errno lines src hsent _ hprepare
      HTTPStatus.noConfusion (fun hname => absurd rfl hname) with ⟨n, hframed⟩
    refine ⟨n, fun fuel hfuel => ?_⟩
    rcases hframed fuel hfuel with ⟨p, hp, hrsp, hwire⟩
    exact ⟨p, hp, by rw [hrsp], by rw [hrsp], hwire.read_eq⟩

end Answers

section Decoding

/-- Decoding what is looked up in a directory. -/
theorem cleanFilename_append_name (q name : Bytes) (hq : q = [] ∨ q.getLast? = some '/')
    (hname : ¬ escapedSpace <:+: name) :
    cleanFilename (q ++ makeHttpFriendly name) = cleanFilename q ++ name := by
  rcases hq with rfl | hq
  · exact cleanFilename_link name hname
  · rcases List.getLast?_eq_some_iff.mp hq with ⟨a, rfl⟩
    rw [List.append_assoc, List.singleton_append, cleanFilename_append_slash,
      cleanFilename_append_slash a [], cleanFilename_link name hname, List.append_assoc]
    rfl

theorem cleanFilename_append_dot (q : Bytes) (hq : q = [] ∨ q.getLast? = some '/') :
    cleanFilename (q ++ ['.']) = cleanFilename q ++ ['.'] :=
  cleanFilename_append_name q ['.'] hq (by decide)

theorem cleanFilename_ends (q : Bytes) (hq : q = [] ∨ q.getLast? = some '/') :
    cleanFilename q = [] ∨ (cleanFilename q).getLast? = some '/' := by
  rcases hq with rfl | hq
  · exact Or.inl rfl
  · rcases List.getLast?_eq_some_iff.mp hq with ⟨a, rfl⟩
    rw [cleanFilename_append_slash a []]
    exact Or.inr (List.getLast?_eq_some_iff.mpr ⟨cleanFilename a, rfl⟩)

theorem nulFree_cleanFilename (s : Bytes) (h : '\x00' ∉ s) : '\x00' ∉ cleanFilename s := fun hmem =>
  (mem_cleanFilename s '\x00' hmem).elim h (by decide)

theorem drop_one_append (a b : Bytes) (ha : a ≠ []) : (a ++ b).drop 1 = a.drop 1 ++ b := by
  cases a with
  | nil => exact absurd rfl ha
  | cons c a => rfl

theorem withSlash_ne_nil (path : Bytes) : withSlash path ≠ [] := fun h => by
  have hlast := getLast?_withSlash path
  rw [h] at hlast
  exact absurd hlast (by decide)

end Decoding

/-- A dot in a directory names the directory. -/
theorem FileSystem.locate_dot (fs : FileSystem) (cwd : Location) (path : Bytes) (loc : Location)
    (hnul : '\x00' ∉ path) (hdir : ∃ names, (fs.node loc).bind Node.names? = some names)
    (h : fs.locate cwd path = .ok loc) : fs.locate cwd (withSlash path ++ ['.']) = .ok loc := by
  have hne := FileSystem.ne_nil_of_locate _ _ _ _ h
  have hhere : moves (cStr ['.']) = [.here] := by decide
  rw [withSlash]
  split
  · -- A slash at the end makes an empty component, which stays as well.
    rename_i hslash
    rcases List.getLast?_eq_some_iff.mp hslash with ⟨a, rfl⟩
    rw [List.mem_append, not_or] at hnul
    rw [fs.locate_slash cwd a [] hnul.1] at h
    rw [List.append_assoc, List.singleton_append, fs.locate_slash cwd a ['.'] hnul.1]
    exact h
  · rw [List.append_assoc, List.singleton_append, fs.locate_append_slash cwd path _ hne hnul, h,
      hhere]
    exact fs.walk_here loc hdir _ (by decide)

section Places

variable (env : Env) (uri name : Bytes)

/-- The first look-up of a link looks the name up where the decoded URI leads
    behind the directory option. -/
theorem locate_tested (hdir : '\x00' ∉ env.options.dir) (hnul : '\x00' ∉ uri)
    (hvalid : ValidName name) (hname : ¬ escapedSpace <:+: name) :
    env.fs.locate env.cwd (cookPath env (cleanFilename (href uri name)))
      = (env.fs.locate env.cwd (cookPath env (cleanFilename (withSlash uri ++ ['.'])))).bind
          (fun l => walk env.fs.enter l [.down name]) := by
  have hends : withSlash uri = [] ∨ (withSlash uri).getLast? = some '/' :=
    Or.inr (getLast?_withSlash uri)
  have hslash := (cleanFilename_ends _ hends).resolve_left
    (replaceAll_ne_nil _ _ _ (List.cons_ne_nil _ _) (withSlash_ne_nil uri))
  rw [href, cleanFilename_append_name _ name hends hname, cleanFilename_append_dot _ hends,
    cookPath, cookPath, ← List.append_assoc, ← List.append_assoc]
  refine env.fs.locate_entry env.cwd _ name ?_ (Or.inr ?_) hvalid
  · rw [List.mem_append, not_or]
    exact ⟨hdir, nulFree_cleanFilename _ (fun h => hnul ((mem_withSlash uri _ (by decide)).mp h))⟩
  · rw [List.getLast?_append, hslash, Option.some_or]

/-- The second look-up of a link looks the name up where the decoded URI leads
    without its first character. -/
theorem locate_served (hnul : '\x00' ∉ uri) (hvalid : ValidName name)
    (hname : ¬ escapedSpace <:+: name) :
    env.fs.locate env.cwd (cleanFilename ((href uri name).drop 1))
      = (env.fs.locate env.cwd (cleanFilename ((withSlash uri ++ ['.']).drop 1))).bind
          (fun l => walk env.fs.enter l [.down name]) := by
  have hends := getLast?_drop_withSlash uri
  rw [href, drop_one_append _ _ (withSlash_ne_nil uri), drop_one_append _ _ (withSlash_ne_nil uri),
    cleanFilename_append_name _ name hends hname, cleanFilename_append_dot _ hends]
  refine env.fs.locate_entry env.cwd _ name ?_ (cleanFilename_ends _ hends) hvalid
  exact nulFree_cleanFilename _ (fun h => hnul ((mem_withSlash uri _ (by decide)).mp
    (List.mem_of_mem_drop h)))

variable (loc : Location) (names : List Bytes)

/-- Behind the directory option, a dot at the URI names the directory that was
    listed. -/
theorem locate_listed_dot (hdir : '\x00' ∉ env.options.dir) (hnul : '\x00' ∉ uri) (hne : uri ≠ [])
    (hopen : env.fs.opendir env.cwd (cookPath env uri) = .ok (loc, names)) :
    env.fs.locate env.cwd (cookPath env (withSlash uri ++ ['.'])) = .ok loc := by
  have hlocate := FileSystem.resolve_ok _ _ _ _ (resolve_of_opendir env _ loc names hopen)
  have hdot := env.fs.locate_dot env.cwd (cookPath env uri) loc
    (by rw [cookPath, List.mem_append, not_or]; exact ⟨hdir, hnul⟩)
    ⟨names, names_of_opendir env _ loc names hopen⟩ hlocate
  rw [cookPath, withSlash_append _ _ hne, List.append_assoc] at hdot
  exact hdot

/-- The path of a listing looks a name up in the directory at the URI. -/
theorem locate_listed (hdir : '\x00' ∉ env.options.dir) (hnul : '\x00' ∉ uri) (hne : uri ≠ [])
    (hvalid : ValidName name)
    (hopen : env.fs.opendir env.cwd (cookPath env uri) = .ok (loc, names)) :
    env.fs.locate env.cwd (cookPath env (withSlash uri ++ name))
      = if name ∈ names then .ok (loc ++ [name]) else .error enoent := by
  have hdot := locate_listed_dot env uri loc names hdir hnul hne hopen
  rw [cookPath, ← List.append_assoc] at hdot
  rw [cookPath, ← List.append_assoc, env.fs.locate_entry env.cwd _ name ?_ (Or.inr ?_) hvalid, hdot]
  · exact env.fs.walk_down_name loc names (names_of_opendir env _ loc names hopen) name
  · rw [List.mem_append, not_or]
    exact ⟨hdir, fun h => hnul ((mem_withSlash _ _ (by decide)).mp h)⟩
  · rw [List.getLast?_append, getLast?_withSlash, Option.some_or]

/-- A URI with a NUL is cut there, and its links with it. -/
theorem resolve_nul (hnul : '\x00' ∈ uri) :
    env.fs.resolve env.cwd (cookPath env (href uri name))
        = env.fs.resolve env.cwd (cookPath env uri) ∧
      env.fs.resolve env.cwd (cookPath env (cleanFilename (href uri name)))
        = env.fs.resolve env.cwd (cookPath env (cleanFilename uri)) := by
  have hgrow : ∃ more, href uri name = uri ++ more := by
    rw [href, withSlash]
    split
    · exact ⟨_, rfl⟩
    · exact ⟨_, List.append_assoc _ _ _⟩
  rcases hgrow with ⟨more, hgrow⟩
  rcases List.append_of_mem hnul with ⟨a, b, rfl⟩
  rw [hgrow]
  constructor
  · refine env.fs.resolve_congr env.cwd _ _ ?_
    rw [cookPath, cookPath, ← List.append_assoc]
    exact cStr_append_of_mem _ _ (List.mem_append_right _ hnul)
  · -- Decoding keeps the NUL, and what is before it is decoded as before.
    refine env.fs.resolve_congr env.cwd _ _ ?_
    have hcut : ∀ rest, cStr (cookPath env (cleanFilename a ++ '\x00' :: rest))
        = cStr (cookPath env (cleanFilename a ++ ['\x00'])) := by
      intro rest
      have hsplit : cookPath env (cleanFilename a ++ '\x00' :: rest)
          = cookPath env (cleanFilename a ++ ['\x00']) ++ rest := by
        simp only [cookPath, List.append_assoc, List.singleton_append]
      rw [hsplit]
      refine cStr_append_of_mem _ _ ?_
      rw [cookPath, List.mem_append]
      exact Or.inr (List.mem_append_right _ (List.mem_singleton_self _))
    rw [List.append_assoc, List.cons_append, cleanFilename_append_nul, cleanFilename_append_nul]
    exact (hcut _).trans (hcut _).symm

end Places

/-- The decoded URI, behind the directory option, leads to a directory with a
    regular file called `name`, and the kernel lets the path of the link
    through. -/
def DecodedHasFile (env : Env) (uri name : Bytes) : Prop :=
  env.fs.refuses (cStr (cookPath env (cleanFilename (href uri name)))) = none ∧
    ∃ loc readable content, tested env (withSlash uri ++ ['.']) = some loc ∧
      env.fs.node (loc ++ [name]) = some (.file readable content)

/-- Where the link to a file in the directory at `loc` leads to it: the file
    can be read, and both look-ups of the decoded link go where they should,
    the second to this very directory. -/
structure FileLinkHolds (env : Env) (uri name : Bytes) (loc : Location) (readable : Bool) :
    Prop where
  nulFree : '\x00' ∉ uri
  first : DecodedHasFile env uri name
  second : served env (withSlash uri ++ ['.']) = some loc
  accepted : env.fs.refuses (cStr (cleanFilename ((href uri name).drop 1))) = none
  readable : readable = true

/-- Where the link to a directory leads to it: its name has no space, the path
    is not too long, and the decoded link is not that of a file elsewhere. -/
structure DirectoryLinkHolds (env : Env) (uri name : Bytes) : Prop where
  nulFree : '\x00' ∉ uri
  noSpace : ' ' ∉ name
  notFile : ¬ DecodedHasFile env uri name
  short : (cookPath env (href uri name)).length < pathMax
  accepted : env.fs.refuses (cStr (cookPath env (href uri name))) = none

section Holds

variable (env : Env) (uri name : Bytes)

theorem checkIfFile_href (errno : Errno) (hdir : '\x00' ∉ env.options.dir) (hnul : '\x00' ∉ uri)
    (hvalid : ValidName name) (hname : ¬ escapedSpace <:+: name) :
    (checkIfFile env errno (href uri name)).1 = true ↔ DecodedHasFile env uri name := by
  rw [checkIfFile_eq_true_iff, DecodedHasFile]
  constructor
  · rintro ⟨readable, content, hstat⟩
    rcases (env.fs.stat_eq_ok_iff _ _ _).mp hstat with ⟨loc, hresolve, hnode⟩
    rcases (env.fs.resolve_eq_ok_iff _ _ _).mp hresolve with ⟨haccepted, hlocate⟩
    rw [locate_tested env uri name hdir hnul hvalid hname, env.fs.bind_walk_eq_ok_iff] at hlocate
    rcases hlocate with ⟨l, hl, rfl, _⟩
    exact ⟨haccepted, l, readable, content, (tested_eq_some_iff env _ l).mpr hl, hnode⟩
  · rintro ⟨haccepted, l, readable, content, hl, hnode⟩
    rw [tested_eq_some_iff] at hl
    refine ⟨readable, content, (env.fs.stat_eq_ok_iff _ _ _).mpr ⟨l ++ [name], ?_, hnode⟩⟩
    refine (env.fs.resolve_eq_ok_iff _ _ _).mpr ⟨haccepted, ?_⟩
    rw [locate_tested env uri name hdir hnul hvalid hname, env.fs.bind_walk_eq_ok_iff]
    exact ⟨l, hl, rfl, by rw [hnode]; rfl⟩

/-- The second look-up of a link finds the entry where the decoded URI leads to
    its directory. -/
theorem resolve_served_iff (hnul : '\x00' ∉ uri) (hvalid : ValidName name)
    (hname : ¬ escapedSpace <:+: name) (loc : Location)
    (hsome : (env.fs.node (loc ++ [name])).isSome = true) :
    env.fs.resolve env.cwd (cleanFilename ((href uri name).drop 1)) = .ok (loc ++ [name]) ↔
      env.fs.refuses (cStr (cleanFilename ((href uri name).drop 1))) = none ∧
        served env (withSlash uri ++ ['.']) = some loc := by
  rw [env.fs.resolve_eq_ok_iff, locate_served env uri name hnul hvalid hname,
    env.fs.bind_walk_eq_ok_iff, served_eq_some_iff]
  refine and_congr_right (fun _ => ⟨?_, fun hserved => ⟨loc, hserved, rfl, hsome⟩⟩)
  rintro ⟨l, hl, happ, _⟩
  rw [hl, (List.append_inj' happ rfl).1]

theorem checkIfFile_congr (errno errno' : Errno) (p q : Bytes)
    (h : env.fs.resolve env.cwd (cookPath env (cleanFilename p))
      = env.fs.resolve env.cwd (cookPath env (cleanFilename q))) :
    (checkIfFile env errno p).1 = (checkIfFile env errno' q).1 := by
  rw [Bool.eq_iff_iff, checkIfFile_eq_true_iff, checkIfFile_eq_true_iff, FileSystem.stat,
    FileSystem.stat, h]

/-- What `opendir` opens is a directory that can be read. -/
theorem opendir_eq_ok_iff (path : Bytes) (loc : Location) (size : Nat) (names : List Bytes)
    (hnode : env.fs.node loc = some (.dir true size names)) :
    env.fs.opendir env.cwd path = .ok (loc, names) ↔ env.fs.resolve env.cwd path = .ok loc := by
  refine ⟨resolve_of_opendir env path loc names, fun h => ?_⟩
  rw [FileSystem.opendir, h]
  simp only [hnode]

theorem validName_makeHttpFriendly (hvalid : ValidName name) :
    ValidName (makeHttpFriendly name) := by
  have hnil : ∀ s, makeHttpFriendly s = [] → s = [] := fun s h => by
    by_contra hs
    exact replaceAll_ne_nil _ _ _ (List.cons_ne_nil _ _) hs h
  refine ⟨fun h => hvalid.1 (hnil name h), fun h => ?_, fun h => ?_, fun h => ?_, fun h => ?_⟩
  · rcases makeHttpFriendly_eq_cons name '.' [] (by decide) h with ⟨s, hs, h₁⟩
    exact hvalid.2.1 (by rw [hs, hnil s h₁])
  · rcases makeHttpFriendly_eq_cons name '.' ['.'] (by decide) h with ⟨s, hs, h₁⟩
    rcases makeHttpFriendly_eq_cons s '.' [] (by decide) h₁ with ⟨s₁, hs₁, h₂⟩
    exact hvalid.2.2.1 (by rw [hs, hs₁, hnil s₁ h₂])
  · exact (mem_makeHttpFriendly name '/' h).2.elim hvalid.2.2.2.1 (by decide)
  · exact (mem_makeHttpFriendly name '\x00' h).2.elim hvalid.2.2.2.2 (by decide)

/-- The page for a link can be built. -/
theorem safeUri_href (hvalid : ValidName name) : SafeUri (href uri name) := by
  rcases withSlash_eq uri with ⟨a, ha, _⟩
  refine Or.inr ?_
  rw [href, ha, List.append_assoc, List.singleton_append, List.dropLast_append_of_ne_nil
    (List.cons_ne_nil _ _), List.dropLast_cons_of_ne_nil (validName_makeHttpFriendly name hvalid).1]
  exact List.mem_append_right a List.mem_cons_self

/-- The path of a listing finds an entry by its link when the link is its
    name. -/
theorem resolve_listed_iff (hdir : '\x00' ∉ env.options.dir) (hnul : '\x00' ∉ uri)
    (hne : uri ≠ []) (hvalid : ValidName name) (loc : Location) (names : List Bytes)
    (hopen : env.fs.opendir env.cwd (cookPath env uri) = .ok (loc, names)) (hmem : name ∈ names) :
    env.fs.resolve env.cwd (cookPath env (href uri name)) = .ok (loc ++ [name]) ↔
      env.fs.refuses (cStr (cookPath env (href uri name))) = none ∧ ' ' ∉ name := by
  rw [env.fs.resolve_eq_ok_iff, href, locate_listed env uri _ loc names hdir hnul hne
    (validName_makeHttpFriendly name hvalid) hopen]
  refine and_congr_right (fun _ => ?_)
  rw [← makeHttpFriendly_eq_self_iff]
  constructor
  · intro h
    split at h
    · exact List.singleton_inj.mp (List.append_cancel_left (Except.ok.inj h))
    · exact absurd h (by simp only [reduceCtorEq, not_false_eq_true])
  · intro h
    rw [h, if_pos hmem]

end Holds

/-- A directory that is served at a URI that begins with a slash. -/
structure Listed (env : Env) (errno : Errno) (uri : Bytes) (tree : List FSEntry) (loc : Location)
    (names : List Bytes) : Prop where
  slash : uri.head? = some '/'
  notFile : (checkIfFile env errno uri).1 = false
  listing : ∃ errno', getFileListing env (checkIfFile env errno uri).2 uri = .ok (some tree, errno')
  opened : env.fs.opendir env.cwd (cookPath env uri) = .ok (loc, names)

/-- The request is answered from the node at `loc`, if that is a regular file
    or a directory that can be read. -/
def LinkLeads (ndebug : Bool) (env : Env) (answers : Answers) (errno : Errno) (lines : List Bytes)
    (src : Bytes) (loc : Location) : Prop :=
  match env.fs.node loc with
  | some (.file _ content) => AnsweredByFile ndebug env answers errno lines src loc content
  | some (.dir true _ names) => AnsweredByListing ndebug env answers errno lines src loc names
  | _ => True

/-- Where the link to an entry of the directory at `loc` leads to it. -/
def LinkHolds (env : Env) (uri name : Bytes) (loc : Location) : Prop :=
  match env.fs.node (loc ++ [name]) with
  | some (.file readable _) => FileLinkHolds env uri name loc readable
  | some (.dir true _ _) => DirectoryLinkHolds env uri name
  | _ => True

section Listed

variable (env : Env) (errno : Errno) (uri : Bytes) (tree : List FSEntry) (loc : Location)
  (names : List Bytes)

theorem Listed.ne_nil (h : Listed env errno uri tree loc names) : uri ≠ [] := by
  rintro rfl
  exact absurd h.slash (by decide)

/-- The entries of a listing are names of the directory. -/
theorem Listed.mem_names (hfit : NamesFit env.fs) (h : Listed env errno uri tree loc names)
    (it : FSEntry) (hit : it ∈ tree) : it.name ∈ names ∧ ValidName it.name := by
  rcases h.listing with ⟨errno', hlisting⟩
  have hshort := short_of_listing env _ errno' uri tree hlisting
  rw [getFileListing_eq env hfit _ uri (Nat.not_le_of_lt hshort) loc names h.opened,
    Except.ok.injEq, Prod.mk.injEq, Option.some.injEq] at hlisting
  rw [← hlisting.1] at hit
  rcases List.mem_map.mp hit with ⟨entry, hentry, rfl⟩
  rcases List.mem_filterMap.mp hentry with ⟨name, hmem, hof⟩
  rw [withFileSize_name, entryOf_name env _ loc name entry hof]
  exact ⟨hmem, env.fs.names_valid loc names (names_of_opendir env _ loc names h.opened) name hmem⟩

end Listed

section Follow

variable (ndebug : Bool) (env : Env) (answers : Answers) (errno errno' : Errno)
  (lines : List Bytes) (src uri : Bytes) (tree : List FSEntry) (loc : Location)
  (names : List Bytes) (name : Bytes)

/-- The link to a file. -/
theorem file_link_iff (hsent : AllSent answers) (hdir : '\x00' ∉ env.options.dir)
    (hlisted : Listed env errno uri tree loc names) (hvalid : ValidName name)
    (hname : ¬ escapedSpace <:+: name) (hget : (HTTPRequest.parse {} lines).2.mMethod = methodGet)
    (huri : (HTTPRequest.parse {} lines).2.mUri = href uri name) (readable : Bool)
    (content : Bytes) (hnode : env.fs.node (loc ++ [name]) = some (.file readable content)) :
    AnsweredByFile ndebug env answers errno' lines src (loc ++ [name]) content ↔
      FileLinkHolds env uri name loc readable := by
  rw [answeredByFile_iff ndebug env answers errno' lines src hsent _ rfl hget _ readable content
    hnode, huri]
  by_cases hnul : '\x00' ∈ uri
  · -- The link is cut to the URI, which is no file.
    refine iff_of_false (fun h => ?_) (fun h => h.nulFree hnul)
    have hcut := checkIfFile_congr env errno' errno _ _ (resolve_nul env uri name hnul).2
    rw [hlisted.notFile, h.1] at hcut
    exact Bool.noConfusion hcut
  · rw [checkIfFile_href env uri name errno' hdir hnul hvalid hname,
      resolve_served_iff env uri name hnul hvalid hname loc (by rw [hnode]; rfl)]
    exact ⟨fun h => ⟨hnul, h.1, h.2.1.2, h.2.1.1, h.2.2⟩,
      fun h => ⟨h.first, ⟨h.accepted, h.second⟩, h.readable⟩⟩

/-- The link to a directory. -/
theorem directory_link_iff (hfit : NamesFit env.fs) (hsent : AllSent answers)
    (hdir : '\x00' ∉ env.options.dir) (hlisted : Listed env errno uri tree loc names)
    (hmem : name ∈ names) (hvalid : ValidName name) (hname : ¬ escapedSpace <:+: name)
    (hget : (HTTPRequest.parse {} lines).2.mMethod = methodGet)
    (huri : (HTTPRequest.parse {} lines).2.mUri = href uri name) (size : Nat)
    (names' : List Bytes) (hnode : env.fs.node (loc ++ [name]) = some (.dir true size names')) :
    AnsweredByListing ndebug env answers errno' lines src (loc ++ [name]) names' ↔
      DirectoryLinkHolds env uri name := by
  rw [answeredByListing_iff ndebug env answers errno' lines src hfit hsent _ rfl hget
    (by rw [huri]; exact safeUri_href uri name hvalid), huri,
    opendir_eq_ok_iff env _ _ size names' hnode]
  by_cases hnul : '\x00' ∈ uri
  · -- The link is cut to the URI, which lists the directory it is in.
    refine iff_of_false (fun h => ?_) (fun h => h.nulFree hnul)
    have hcut := (resolve_nul env uri name hnul).1
    rw [h.2.2, resolve_of_opendir env _ loc names hlisted.opened] at hcut
    have hlen := congrArg List.length (Except.ok.inj hcut)
    rw [List.length_append, List.length_singleton] at hlen
    omega
  · rw [← Bool.not_eq_true, checkIfFile_href env uri name errno' hdir hnul hvalid hname,
      resolve_listed_iff env uri name hdir hnul hlisted.ne_nil hvalid loc names hlisted.opened hmem]
    exact ⟨fun h => ⟨hnul, h.2.2.2, h.1, h.2.1, h.2.2.1⟩,
      fun h => ⟨h.notFile, h.short, h.accepted, h.noSpace⟩⟩

end Follow

section Plain

/-- A URI that decoding leaves alone and whose second character is no slash,
    and paths that the kernel takes. -/
structure PlainLink (env : Env) (uri name : Bytes) : Prop where
  noEscape : ¬ escapedSpace <:+: uri
  nulFree : '\x00' ∉ uri
  single : (uri.drop 1).head? ≠ some '/'
  short : (cookPath env (withSlash uri ++ name)).length < pathMax
  accepted : env.fs.refuses (cStr (cookPath env (withSlash uri ++ name))) = none ∧
    env.fs.refuses (cStr ((withSlash uri ++ name).drop 1)) = none

theorem cleanFilename_withSlash (uri : Bytes) (h : ¬ escapedSpace <:+: uri) :
    cleanFilename (withSlash uri) = withSlash uri := by
  rcases withSlash_eq uri with ⟨a, ha, hpre⟩
  have hclean : cleanFilename a = a :=
    replaceAll_of_not_infix _ _ a (fun hin => h (hin.trans hpre.isInfix))
  rw [ha, cleanFilename_append_slash a [], hclean]
  rfl

/-- Without escapes, both look-ups lead to the directory that was listed. -/
theorem tested_served_plain (env : Env) (hserves : ServesFrom env) (errno : Errno) (uri : Bytes)
    (tree : List FSEntry) (loc : Location) (names : List Bytes)
    (hlisted : Listed env errno uri tree loc names) (hplain : ¬ escapedSpace <:+: uri)
    (hnul : '\x00' ∉ uri) (hsingle : (uri.drop 1).head? ≠ some '/') :
    tested env (withSlash uri ++ ['.']) = some loc ∧
      served env (withSlash uri ++ ['.']) = some loc := by
  have hends : withSlash uri = [] ∨ (withSlash uri).getLast? = some '/' :=
    Or.inr (getLast?_withSlash uri)
  have hclean : cleanFilename (withSlash uri ++ ['.']) = withSlash uri ++ ['.'] := by
    rw [cleanFilename_append_dot _ hends, cleanFilename_withSlash uri hplain]
  have hlisting := locate_listed_dot env uri loc names hserves.2.1 hnul hlisted.ne_nil
    hlisted.opened
  -- A slash, and a relative path behind it.
  have hsplit : ∃ w, withSlash uri ++ ['.'] = '/' :: w ∧ w ≠ [] ∧ w.head? ≠ some '/' := by
    rcases List.head?_eq_some_iff.mp hlisted.slash with ⟨v, rfl⟩
    cases v with
    | nil => exact ⟨['.'], rfl, by decide, by decide⟩
    | cons c v =>
        rw [← List.singleton_append, withSlash_append _ _ (List.cons_ne_nil c v),
          List.append_assoc]
        refine ⟨withSlash (c :: v) ++ ['.'], rfl,
          List.append_ne_nil_of_right_ne_nil _ (List.cons_ne_nil _ _), ?_⟩
        rw [withSlash]
        split <;> exact hsingle
  rcases hsplit with ⟨w, hw, hne, hhead⟩
  have hwnul : '\x00' ∉ w := by
    intro hmem
    have hin : '\x00' ∈ withSlash uri ++ ['.'] := hw ▸ List.mem_cons_of_mem _ hmem
    rcases List.mem_append.mp hin with hin | hin
    · exact hnul ((mem_withSlash uri _ (by decide)).mp hin)
    · exact absurd hin (by decide)
  have hdirne : env.options.dir ≠ [] := FileSystem.ne_nil_of_locate _ _ _ _ hserves.2.2
  have hcut : cStr w = w := cStr_of_nulFree w hwnul
  rw [tested_eq_some_iff, served_eq_some_iff]
  refine ⟨by rw [hclean, hlisting], ?_⟩
  -- Both walks go from the working directory.
  rw [hw, cookPath, env.fs.locate_append_slash env.cwd _ w hdirne hserves.2.1, hserves.2.2]
    at hlisting
  rw [hw, cleanFilename_cons '/' w (by decide), List.cons.injEq] at hclean
  rw [hw, List.drop_one, List.tail_cons, hclean.2,
    env.fs.locate_relative env.cwd w (by rw [hcut]; exact hne) (by rw [hcut]; exact hhead)]
  exact hlisting

/-- Under a plain URI the name alone decides: every file that can be read is
    reached by its link, and every directory that can be read and has no space
    in its name. -/
theorem linkHolds_plain (env : Env) (hserves : ServesFrom env) (errno : Errno) (uri : Bytes)
    (tree : List FSEntry) (loc : Location) (names : List Bytes)
    (hlisted : Listed env errno uri tree loc names) (name : Bytes)
    (hname : ¬ escapedSpace <:+: name) (hplain : PlainLink env uri name) :
    LinkHolds env uri name loc ↔
      match env.fs.node (loc ++ [name]) with
      | some (.file readable _) => readable = true
      | some (.dir true _ _) => ' ' ∉ name
      | _ => True := by
  rcases tested_served_plain env hserves errno uri tree loc names hlisted hplain.noEscape
    hplain.nulFree hplain.single with ⟨htested, hserved⟩
  -- The decoded link is the directory's path and the name.
  have hfirst : cleanFilename (href uri name) = withSlash uri ++ name := by
    rw [href, cleanFilename_append_name _ name (Or.inr (getLast?_withSlash uri)) hname,
      cleanFilename_withSlash uri hplain.noEscape]
  have hsecond : cleanFilename ((href uri name).drop 1) = (withSlash uri ++ name).drop 1 := by
    rcases List.head?_eq_some_iff.mp hlisted.slash with ⟨v, rfl⟩
    have hslash : ∃ w, withSlash ('/' :: v) = '/' :: w := by
      rw [withSlash]
      split
      · exact ⟨v, rfl⟩
      · exact ⟨v ++ ['/'], rfl⟩
    rcases hslash with ⟨w, hw⟩
    rw [href, hw, List.cons_append, cleanFilename_cons '/' _ (by decide), List.cons_append,
      List.cons.injEq] at hfirst
    rw [href, hw, List.cons_append, List.drop_one, List.tail_cons, hfirst.2]
    rfl
  have hhas : DecodedHasFile env uri name ↔
      ∃ readable content, env.fs.node (loc ++ [name]) = some (.file readable content) := by
    rw [DecodedHasFile, hfirst, htested]
    constructor
    · rintro ⟨_, l, readable, content, hl, hnode⟩
      rw [Option.some.inj hl]
      exact ⟨readable, content, hnode⟩
    · rintro ⟨readable, content, hnode⟩
      exact ⟨hplain.accepted.1, loc, readable, content, rfl, hnode⟩
  rw [LinkHolds]
  split
  · rename_i readable content hnode
    refine ⟨fun h => h.readable, fun h => ⟨hplain.nulFree, hhas.mpr ⟨_, _, hnode⟩, hserved, ?_, h⟩⟩
    rw [hsecond]
    exact hplain.accepted.2
  · rename_i size names' hnode
    refine ⟨fun h => h.noSpace, fun h => ⟨hplain.nulFree, h, fun hfile => ?_, ?_, ?_⟩⟩
    · rcases hhas.mp hfile with ⟨_, _, hother⟩
      rw [hnode] at hother
      exact absurd hother (by simp only [Option.some.injEq, reduceCtorEq, not_false_eq_true])
    · rw [href, (makeHttpFriendly_eq_self_iff name).mpr h]
      exact hplain.short
    · rw [href, (makeHttpFriendly_eq_self_iff name).mpr h]
      exact hplain.accepted.1
  · exact Iff.rfl

end Plain

/-- On the page of a directory that is served, each entry whose name has no
    escape has its link, and a request for the link is answered from the entry
    exactly when the link holds: for a file, when it can be read and both
    look-ups of the decoded link go where they should, and for a directory,
    when its name has no space and no file is found in its place. -/
theorem link_exact (ndebug : Bool) (env : Env) (answers : Answers) (errno errno' : Errno)
    (uri : Bytes) (tree : List FSEntry) (loc : Location) (names : List Bytes) (it : FSEntry)
    (lines : List Bytes) (src : Bytes) (hfit : NamesFit env.fs) (hsent : AllSent answers)
    (hserves : ServesFrom env) (hlisted : Listed env errno uri tree loc names) (hit : it ∈ tree)
    (hname : ¬ escapedSpace <:+: it.name)
    (hget : (HTTPRequest.parse {} lines).2.mMethod = methodGet)
    (huri : (HTTPRequest.parse {} lines).2.mUri = href uri it.name) :
    (∃ before after, fillHtmlBody tree uri = .ok
      (before ++ ("<a href=\"".toList ++ href uri it.name ++ "\">".toList) ++ after)) ∧
    (LinkLeads ndebug env answers errno' lines src (loc ++ [it.name]) ↔
      LinkHolds env uri it.name loc) := by
  rcases hlisted.mem_names env errno uri tree loc names hfit it hit with ⟨hmem, hvalid⟩
  constructor
  · rcases hlisted.listing with ⟨_, hlisting⟩
    exact fillHtmlBody_href tree uri hlisted.ne_nil
      (length_of_listing env _ _ uri tree hlisting) it hit
  · rw [LinkLeads, LinkHolds]
    -- By what the entry is.
    split
    · rename_i readable content hnode
      exact file_link_iff ndebug env answers errno errno' lines src uri tree loc names it.name hsent
        hserves.2.1 hlisted hvalid hname hget huri readable content hnode
    · rename_i size names' hnode
      exact directory_link_iff ndebug env answers errno errno' lines src uri tree loc names it.name
        hfit hsent hserves.2.1 hlisted hmem hvalid hname hget huri size names' hnode
    · exact Iff.rfl

theorem sampleEnv_listed : Listed sampleEnv 0 "/".toList
    [{ isDir := false, name := ['s'], fileSize := 2 },
      { isDir := false, name := ['x'], fileSize := 2 }] [['s']] [['s'], ['x']] :=
  ⟨by decide, by decide, ⟨0, by decide⟩, by decide⟩

theorem link_exact_file :
    (∃ before after, fillHtmlBody [{ isDir := false, name := ['s'], fileSize := 2 },
        { isDir := false, name := ['x'], fileSize := 2 }] "/".toList = .ok
      (before ++ ("<a href=\"".toList ++ href "/".toList ['x'] ++ "\">".toList) ++ after)) ∧
    (LinkLeads true sampleEnv (fun _ => some 1) 0 ["GET /x HTTP/1.0\r\n".toList] []
        ([['s']] ++ [['x']]) ↔
      LinkHolds sampleEnv "/".toList ['x'] [['s']]) :=
  link_exact true sampleEnv (fun _ => some 1) 0 0 "/".toList _ [['s']] [['s'], ['x']]
    { isDir := false, name := ['x'], fileSize := 2 } ["GET /x HTTP/1.0\r\n".toList] []
    sampleEnv_namesFit (fun _ => ⟨0, rfl⟩) sampleEnv_servesFrom sampleEnv_listed (by decide)
    (by decide) (by decide) (by decide)

/-- The names `s` and `a b`. -/
def spacedNames : NameSet where
  names := [['s'], ['a', ' ', 'b']]
  nodup := by decide
  valid := by decide

/-- A server in `/s`, where there is a directory with a space in its name. -/
def spacedEnv : Env where
  fs := FileSystem.uniform spacedNames 2 (.file true ['c']) rfl
  cwd := [['s']]
  options := { dir := ['/', 's'] }
  executableFileName := []

theorem spacedEnv_namesFit : NamesFit spacedEnv.fs := by
  intro loc names hnames
  rw [((uniformNode_names spacedNames 2 (.file true ['c']) rfl loc names).mp hnames).1]
  decide

theorem spacedEnv_listed : Listed spacedEnv 0 "/".toList
    [{ isDir := true, name := ['s'] }, { isDir := true, name := ['a', ' ', 'b'] }] [['s']]
    [['s'], ['a', ' ', 'b']] :=
  ⟨by decide, by decide, ⟨0, by decide⟩, by decide⟩

/-- The link to a directory with a space in its name does not lead to it. -/
theorem link_fails :
    ¬ ∀ ndebug env answers errno errno' uri tree loc names (it : FSEntry) lines src,
      NamesFit env.fs → AllSent answers → ServesFrom env →
      Listed env errno uri tree loc names → it ∈ tree →
      (∀ c ∈ it.name, 32 ≤ c.toNat ∧ c.toNat ≠ 127 ∧ c ≠ '"') → ¬ escapedSpace <:+: it.name →
      (HTTPRequest.parse {} lines).2.mMethod = methodGet →
      (HTTPRequest.parse {} lines).2.mUri = href uri it.name →
      LinkLeads ndebug env answers errno' lines src (loc ++ [it.name]) := by
  intro hall
  have hprintable : ∀ c ∈ ['a', ' ', 'b'], 32 ≤ c.toNat ∧ c.toNat ≠ 127 ∧ c ≠ '"' := by
    simp only [List.mem_cons, List.not_mem_nil, or_false]
    rintro c (rfl | rfl | rfl) <;> decide
  have hleads := hall true spacedEnv (fun _ => some 1) 0 0 "/".toList _ _ _
    { isDir := true, name := ['a', ' ', 'b'] } ["GET /a%20b HTTP/1.0\r\n".toList] []
    spacedEnv_namesFit (fun _ => ⟨0, rfl⟩) ⟨rfl, by decide, rfl⟩ spacedEnv_listed (by decide)
    hprintable (by decide) (by decide) (by decide)
  have hholds := (directory_link_iff true spacedEnv (fun _ => some 1) 0 0
    ["GET /a%20b HTTP/1.0\r\n".toList] [] "/".toList _ _ _ ['a', ' ', 'b'] spacedEnv_namesFit
    (fun _ => ⟨0, rfl⟩) (by decide) spacedEnv_listed (by decide) (by decide) (by decide) (by decide)
    (by decide) 0 spacedNames.names (by decide)).mp hleads
  exact hholds.noSpace (by decide)

end HttpFileSharing
