import HttpFileSharing.Core.Server
import HttpFileSharing.Lib.System
import HttpFileSharing.Theory.Acceptance
import HttpFileSharing.Theory.Entries
import HttpFileSharing.Theory.Request
import HttpFileSharing.Theory.Truncation
import HttpFileSharing.Theory.Uri

/-!
# Browsing the Tree

What a client sees that starts at the root and only ever follows links. Each
fetch is a request whose line arrives with the first part of it, however the rest
is cut, sending may go wrong anywhere, and the client takes what it gets only if it
has the length that was promised. Links are taken from pages alone, which are the
responses of type HTML; a file is never one, whatever is in it.

What such a client can come to is exactly the tree below the served directory,
short of the entries that are not shown and of what is below them. A node that
is there is reached, and gives its contents, or for a directory the links to
the directories above it and to the entries in it; nothing else is reached, and
no request on the way counts against the client.

`Tidy` says what the tree has to be like: what is shown can be read, and no
name has a character that means something in a page or in a request line.

## Main definitions

* `Shows`, `Visible`: What is shown of a directory and of the tree.
* `Tidy`: A tree that can be browsed.
* `Fetch`, `taken`, `fetch`: A request of the client and what it makes of the
  response.
* `Stands`: What the client is to get for a node.
* `browser`: The client.

## Theorems

* `prepareResponse_file`, `prepareResponse_directory`: The responses.
* `stands_of_fetch`: What is fetched is what is there.
* `fetch_all`: What is there can be fetched.
* `crawl_exact`: What the client can come to.
* `crawl_served`: What it gets there.
-/

namespace HttpFileSharing

/-- The entry `name` of the directory that `names` lead to is on its page. -/
def Shows (env : Env) (names : Location) (name : Bytes) : Prop :=
  name.head? ≠ some '.' ∧ name ≠ "favicon.ico".toList ∧
    pathElems (joinPath (cookPath env (uriOf names)) name) ≠ pathElems env.executableFileName

instance (env : Env) (names : Location) (name : Bytes) : Decidable (Shows env names name) :=
  inferInstanceAs (Decidable (_ ∧ _ ∧ _))

/-- The nodes below the served directory that are on a page, each in a directory
    that is. -/
inductive Visible (env : Env) : Location → Prop where
  | root : Visible env []
  | entry (names children : List Bytes) (size : Nat) (name : Bytes) (h : Visible env names)
      (hdir : env.fs.node (env.cwd ++ names) = some (.dir true size children))
      (hname : name ∈ children) (hshown : Shows env names name) : Visible env (names ++ [name])

/-- A tree that can be browsed: the server is started in a directory, what is
    visible is a file or a directory that can be read, a directory without a
    space in its name, the names go through pages and requests as they are, and
    the kernel takes the paths. -/
structure Tidy (env : Env) : Prop where
  serves : ServesFrom env
  fit : NamesFit env.fs
  title : AnchorReads .outside env.options.serverName [] .outside
  root : ∃ size children, env.fs.node env.cwd = some (.dir true size children)
  kind : ∀ names, Visible env names →
    (∃ content, env.fs.node (env.cwd ++ names) = some (.file true content)) ∨
      (∀ name ∈ names, ' ' ∉ name) ∧
        ∃ size children, env.fs.node (env.cwd ++ names) = some (.dir true size children)
  plain : ∀ names, Visible env names → ∀ name ∈ names,
    '<' ∉ name ∧ '"' ∉ name ∧ '\n' ∉ name ∧ ¬ escapedSpace <:+: name
  short : ∀ names, Visible env names → (cookPath env (pathOf names)).length < pathMax
  accepted : ∀ names, Visible env names →
    env.fs.refuses (cookPath env (pathOf names)) = none ∧
      (names ≠ [] → env.fs.refuses ((pathOf names).drop 1) = none)

/-- One request of a client, what the calls of the server for it do, and the
    address it comes from. It is a GET, and the first part of it that arrives has
    the request line, which fits in the receive buffer. -/
structure Fetch where
  ndebug : Bool
  answers : Answers
  fuel : Nat
  errno : Errno
  src : Bytes
  request : Request
  first : Bytes
  rest : Inbound
  get : request.method = methodGet
  part : first <+: request.render
  line : request.requestLine.length ≤ first.length
  fits : request.requestLine.length < defaultBufferSize
  address : '<' ∉ src

/-- What the handler of a fetch comes to. -/
def Fetch.handled (env : Env) (f : Fetch) : Except Fault (Option Processed) :=
  handleConnection f.ndebug env f.answers f.fuel f.errno (some f.first :: f.rest) f.src

/-- What the client takes from what a handler sent: a response with all the bytes
    it was promised. -/
def taken : Except Fault (Option Processed) → Option Reading
  | .ok (some p) => (readResponse p.out.wire).filter (fun r => r.body.length = r.length)
  | _ => none

/-- What the client takes from a fetch. -/
def fetch (env : Env) (f : Fetch) : Option Reading := taken (f.handled env)

/-- What the client is to get for the node that `names` lead to. -/
def Stands (env : Env) (names : Location) (r : Reading) : Prop :=
  r.status = 200 ∧ match env.fs.node (env.cwd ++ names) with
    | some (.file _ content) => r.contentType ≠ textHtml ∧ r.body = content
    | some (.dir _ _ children) => r.contentType = textHtml ∧
        (anchors r.body).map Anchor.href = (above names ++
          (children.filter (fun name => Shows env names name)).map
            (fun name => names ++ [name])).map uriOf
    | _ => False

/-- The client, at a URI: fetch it, and follow the link with a number if what
    comes is a page. -/
def browser (env : Env) : System Bytes (Fetch × Nat) where
  init uri := uri = ['/']
  step uri a :=
    if a.1.request.uri = uri then
      (fetch env a.1).bind (fun r =>
        if r.contentType = textHtml then ((anchors r.body)[a.2]?).map Anchor.href else none)
    else none

section Tree

variable {env : Env} (names : Location)

/-- A visible node is there. -/
theorem Tidy.isSome (h : Tidy env) (hvisible : Visible env names) :
    (env.fs.node (env.cwd ++ names)).isSome = true := by
  rcases h.kind names hvisible with ⟨content, hnode⟩ | ⟨_, size, children, hnode⟩
  · rw [hnode]
    rfl
  · rw [hnode]
    rfl

theorem Tidy.validNames (h : Tidy env) (hvisible : Visible env names) :
    ∀ name ∈ names, ValidName name := fun name hname =>
  env.fs.validName_of_node _ (h.isSome names hvisible) name (List.mem_append_right _ hname)

/-- The directories above a visible node are visible. -/
theorem visible_of_prefix (names upper : Location) (hvisible : Visible env names)
    (hpre : upper <+: names) : Visible env upper := by
  induction hvisible with
  | root => exact List.prefix_nil.mp hpre ▸ .root
  | entry names children size name h hdir hname hshown ih =>
      rcases List.prefix_concat_iff.mp hpre with rfl | hpre
      · exact .entry names children size name h hdir hname hshown
      · exact ih hpre

theorem visible_of_above (upper : Location) (hvisible : Visible env names)
    (habove : upper ∈ above names) : Visible env upper :=
  visible_of_prefix names upper hvisible
    ((List.mem_inits upper names).mp ((List.dropLast_sublist _).subset habove))

/-- The URI of a visible node in a page. -/
theorem Tidy.plainUri (h : Tidy env) (hvisible : Visible env names) :
    '<' ∉ uriOf names ∧ '"' ∉ uriOf names ∧ ' ' ∉ uriOf names ∧ '\n' ∉ uriOf names := by
  have hplain := h.plain names hvisible
  refine ⟨fun hmem => ?_, fun hmem => ?_, fun hmem => ?_, fun hmem => ?_⟩
  · rcases mem_uriOf names _ hmem with heq | ⟨_, hin | ⟨name, hname, hin⟩⟩
    · exact absurd heq (by decide)
    · exact absurd hin (by decide)
    · exact (hplain name hname).1 hin
  · rcases mem_uriOf names _ hmem with heq | ⟨_, hin | ⟨name, hname, hin⟩⟩
    · exact absurd heq (by decide)
    · exact absurd hin (by decide)
    · exact (hplain name hname).2.1 hin
  · rcases mem_uriOf names _ hmem with heq | ⟨hspace, _⟩
    · exact absurd heq (by decide)
    · exact hspace rfl
  · rcases mem_uriOf names _ hmem with heq | ⟨_, hin | ⟨name, hname, hin⟩⟩
    · exact absurd heq (by decide)
    · exact absurd hin (by decide)
    · exact (hplain name hname).2.2.1 hin

/-- The first look-up finds a visible node. -/
theorem Tidy.resolve_tested (h : Tidy env) (hvisible : Visible env names) :
    env.fs.resolve env.cwd (cookPath env (cleanFilename (uriOf names)))
      = .ok (env.cwd ++ names) := by
  rcases h.root with ⟨size, children, hroot⟩
  have hnul : '\x00' ∉ cookPath env (pathOf names) := by
    rw [cookPath, List.mem_append, not_or]
    exact ⟨h.serves.2.1, nulFree_pathOf names (h.validNames names hvisible)⟩
  rw [cleanFilename_uriOf names (fun name hname => (h.plain names hvisible name hname).2.2.2),
    env.fs.resolve_eq_ok_iff, cStr_of_nulFree _ hnul]
  exact ⟨(h.accepted names hvisible).1, locate_cookPath_pathOf env names h.serves
    ⟨children, by rw [hroot]; rfl⟩ (h.isSome names hvisible)⟩

/-- The second look-up finds one below the served directory. -/
theorem Tidy.resolve_served (h : Tidy env) (hvisible : Visible env names) (hne : names ≠ []) :
    env.fs.resolve env.cwd (cleanFilename ((uriOf names).drop 1)) = .ok (env.cwd ++ names) := by
  have hclean := cleanFilename_uriOf names
    (fun name hname => (h.plain names hvisible name hname).2.2.2)
  have hdrop : cleanFilename ((uriOf names).drop 1) = (pathOf names).drop 1 := by
    rw [← hclean]
    cases names with
    | nil => exact absurd rfl hne
    | cons name names =>
        rw [uriOf, if_neg (List.cons_ne_nil _ _), List.flatMap_cons, List.cons_append,
          cleanFilename_cons '/' _ (by decide)]
        rfl
  have hnul : '\x00' ∉ (pathOf names).drop 1 := fun hmem =>
    nulFree_pathOf names (h.validNames names hvisible) (List.mem_of_mem_drop hmem)
  rw [hdrop, env.fs.resolve_eq_ok_iff, cStr_of_nulFree _ hnul]
  exact ⟨(h.accepted names hvisible).2 hne, locate_drop_pathOf env names hne
    (h.isSome names hvisible)⟩

end Tree

section Responses

variable {env : Env} (names : Location) (errno : Errno) (req : HTTPRequest) (src : Bytes)

/-- The response to a request for a visible file. -/
theorem prepareResponse_file (h : Tidy env) (hvisible : Visible env names)
    (hget : req.mMethod = methodGet) (huri : req.mUri = uriOf names) (content : Bytes)
    (hnode : env.fs.node (env.cwd ++ names) = some (.file true content)) :
    ∃ rsp, prepareResponse env errno req src = .ok rsp ∧ rsp.mStatus = .httpOk ∧
      rsp.mContentType ≠ textHtml ∧ rsp.mRspFilename ≠ [] ∧ rsp.mLen = content.length ∧
      env.fs.fopen env.cwd rsp.mRspFilename = some (.regular content) := by
  have hne : names ≠ [] := by
    rintro rfl
    rcases h.root with ⟨size, children, hroot⟩
    rw [List.append_nil, hroot] at hnode
    exact absurd hnode (by simp only [Option.some.injEq, reduceCtorEq, not_false_eq_true])
  have htested : (checkIfFile env errno req.mUri).1 = true := by
    rw [checkIfFile_eq_true_iff, huri]
    exact ⟨true, content, (env.fs.stat_eq_ok_iff _ _ _).mpr
      ⟨_, h.resolve_tested names hvisible, hnode⟩⟩
  have hstat : env.fs.stat env.cwd (cleanFilename (req.mUri.drop 1))
      = .ok (.file true content) := by
    rw [huri]
    exact (env.fs.stat_eq_ok_iff _ _ _).mpr ⟨_, h.resolve_served names hvisible hne, hnode⟩
  rcases processGetRequest_file env errno req src htested _ hstat with ⟨contentType, htype, hserve⟩
  have hother : contentType ≠ textHtml := by
    rcases htype with rfl | rfl
    · decide
    · decide
  refine ⟨_, (prepareResponse_get env errno req src hget).trans hserve, rfl, hother,
    ne_nil_of_stat env _ _ hstat, rfl, ?_⟩
  rw [FileSystem.fopen, hstat]

/-- The response to a request for a visible directory. -/
theorem prepareResponse_directory (h : Tidy env) (hvisible : Visible env names)
    (hget : req.mMethod = methodGet) (huri : req.mUri = uriOf names) (hsrc : '<' ∉ src)
    (hspace : ∀ name ∈ names, ' ' ∉ name) (size : Nat) (children : List Bytes)
    (hnode : env.fs.node (env.cwd ++ names) = some (.dir true size children)) :
    ∃ page, prepareResponse env errno req src = .ok ⟨.httpOk, page.length, textHtml, page, []⟩ ∧
      (anchors page).map Anchor.href = (above names ++
        (children.filter (fun name => Shows env names name)).map
          (fun name => names ++ [name])).map uriOf := by
  have hvalid := h.validNames names hvisible
  have hpath := uriOf_eq_pathOf names hspace
  have hclean := cleanFilename_uriOf names
    (fun name hname => (h.plain names hvisible name hname).2.2.2)
  have hresolve := h.resolve_tested names hvisible
  have hother : (checkIfFile env errno req.mUri).1 = false := by
    rw [← Bool.not_eq_true, checkIfFile_eq_true_iff, huri]
    rintro ⟨readable, content, hstat⟩
    rcases (env.fs.stat_eq_ok_iff _ _ _).mp hstat with ⟨loc, hloc, hfile⟩
    rw [hresolve, Except.ok.injEq] at hloc
    rw [← hloc, hnode] at hfile
    exact absurd hfile (by simp only [Option.some.injEq, reduceCtorEq, not_false_eq_true])
  have hshort : (cookPath env req.mUri).length < pathMax := by
    rw [huri, hpath]
    exact h.short names hvisible
  have hopen : env.fs.opendir env.cwd (cookPath env req.mUri)
      = .ok (env.cwd ++ names, children) := by
    rw [opendir_eq_ok_iff env _ _ size children hnode, huri, hpath, ← hclean]
    exact hresolve
  have hlisting := getFileListing_eq env h.fit (checkIfFile env errno req.mUri).2 req.mUri
    (Nat.not_le_of_lt hshort) _ children hopen
  -- The names that are listed are those that are shown.
  have hentries : ((children.filterMap (entryOf env (cookPath env req.mUri)
      (env.cwd ++ names))).map (withFileSize env (cookPath env req.mUri))).map FSEntry.name
        = children.filter (fun name => Shows env names name) := by
    rw [map_name_listing]
    refine List.filter_congr (fun name _ => ?_)
    rw [Bool.eq_iff_iff, Option.isSome_iff_exists, decide_eq_true_eq, Shows, ← huri]
    simp only [entryOf_eq_some_iff, exists_and_left, exists_eq, and_true]
    exact ⟨fun hs => ⟨hs.2.2, hs.2.1, hs.1⟩, fun hs => ⟨hs.2.2, hs.2.1, hs.1⟩⟩
  generalize (children.filterMap (entryOf env (cookPath env req.mUri) (env.cwd ++ names))).map
    (withFileSize env (cookPath env req.mUri)) = tree at hlisting hentries
  have hlen := length_of_listing env _ _ req.mUri tree hlisting
  rcases buildRspHtml_ok env [] req tree src hlen (by rw [huri]; exact safeUri_uriOf names hvalid)
    with ⟨page, hpage, _⟩
  have hplainUri := h.plainUri names hvisible
  have hplain : PlainTexts req.mUri tree src := by
    refine ⟨by rw [huri]; exact ⟨hplainUri.1, hplainUri.2.1⟩, fun it hit => ?_, hsrc⟩
    have hlisted : it.name ∈ children.filter (fun name => Shows env names name) := by
      rw [← hentries]
      exact List.mem_map_of_mem hit
    rcases List.mem_filter.mp hlisted with ⟨hmem, hshown⟩
    have hchild := h.plain _ (.entry names children size it.name hvisible hnode hmem
      (of_decide_eq_true hshown)) it.name (List.mem_append_right _ (List.mem_singleton_self _))
    exact ⟨hchild.1, hchild.2.1⟩
  refine ⟨page, ?_, ?_⟩
  · rw [prepareResponse_get env errno req src hget]
    exact processGetRequest_listed env errno req src hother tree _ hlisting page hpage
  · have hanchors := (anchorReads_buildRspHtml env req tree src page hlen h.title hplain
      hpage).anchors_eq
    rw [hanchors, List.map_append, List.map_append, huri,
      upAnchors_uriOf names hvalid (by rw [← huri]; exact hlen), ← hentries,
      List.map_map, List.map_map, List.map_map]
    refine congrArg (List.append _) (List.map_congr_left (fun it _ => ?_))
    exact href_uriOf names hvalid it.name

/-- A request for a visible node has a response that can be sent, and whoever
    gets all of it gets what is there. -/
theorem prepareResponse_visible (h : Tidy env) (hvisible : Visible env names)
    (hget : req.mMethod = methodGet) (huri : req.mUri = uriOf names) (hsrc : '<' ∉ src) :
    ∃ rsp, prepareResponse env errno req src = .ok rsp ∧ rsp.mStatus = .httpOk ∧
      (rsp.mRspFilename ≠ [] → ∃ stream,
        env.fs.fopen env.cwd rsp.mRspFilename = some stream ∧
          rsp.mLen ≤ stream.bytes.length) ∧
      ∀ r, TakenFor env rsp r → r.body.length = r.length → Stands env names r := by
  rcases h.kind names hvisible with ⟨content, hnode⟩ | ⟨hspace, size, children, hnode⟩
  · rcases prepareResponse_file names errno req src h hvisible hget huri content hnode with
      ⟨rsp, hrsp, hstatus, htype, hname, hlen, hopen⟩
    refine ⟨rsp, hrsp, hstatus, fun _ => ⟨_, hopen, Nat.le_of_eq hlen⟩, fun r htaken hfull => ?_⟩
    refine ⟨by rw [htaken.head.1, hstatus]; rfl, ?_⟩
    rw [hnode]
    refine ⟨by rw [htaken.head.2.1]; exact htype, ?_⟩
    rw [htaken.whole hfull, payload, if_neg hname, hopen]
    simp only [Stream.bytes, hlen, List.take_length]
  · rcases prepareResponse_directory names errno req src h hvisible hget huri hsrc hspace size
      children hnode with ⟨page, hrsp, hanchors⟩
    refine ⟨_, hrsp, rfl, fun hname => absurd rfl hname, fun r htaken hfull => ?_⟩
    refine ⟨htaken.head.1, ?_⟩
    rw [hnode]
    refine ⟨htaken.head.2.1, ?_⟩
    rw [htaken.whole hfull]
    exact hanchors

end Responses

section Fetching

variable {env : Env} (names : Location) (f : Fetch)

/-- The lines of a fetch that are passed on. -/
def Fetch.lines : List Bytes :=
  HttpFileSharing.fits (min (defaultBufferSize - 1) f.first.length) f.request.lines

/-- The lines that arrive first are processed. -/
theorem handled_eq :
    f.handled env = processRequest f.ndebug env f.answers f.fuel f.errno f.lines f.src := by
  have hpos : 0 < f.request.requestLine.length := by
    simp only [Request.requestLine, List.length_append, List.length_cons]
    omega
  have hline := f.line
  have hlines : ∀ size, 0 < size → receiveLines size (some f.first :: f.rest)
      = some (HttpFileSharing.fits (min (size - 1) f.first.length) f.request.lines) := by
    intro size hsize
    rw [receiveLines_chunk size f.first f.rest (List.ne_nil_of_length_pos (by omega)) hsize,
      List.prefix_iff_eq_take.mp f.part, List.take_take, ← List.prefix_iff_eq_take.mp f.part,
      Request.render, completeLines_take '\n' f.request.lines _ f.request.lines_isLine]
  rw [Fetch.handled, handleConnection, hlines defaultBufferSize (by decide)]
  rfl

/-- The request that is processed. -/
theorem parse_fetch (huri : f.request.uri = uriOf names) :
    (HTTPRequest.parse {} f.lines).2.mMethod = methodGet ∧
      (HTTPRequest.parse {} f.lines).2.mUri = uriOf names := by
  have hfits := f.fits
  have hline := f.line
  have hcons : ∃ more, f.lines = f.request.requestLine :: more := by
    rw [Fetch.lines, Request.lines, Request.head, List.cons_append, HttpFileSharing.fits,
      if_pos (by omega)]
    exact ⟨_, rfl⟩
  rcases hcons with ⟨more, hcons⟩
  rw [hcons, HTTPRequest.parse_cons, parseHttpMethod_line]
  exact ⟨f.get, huri⟩

/-- What is fetched is what is there. -/
theorem stands_of_fetch (h : Tidy env) (hvisible : Visible env names)
    (huri : f.request.uri = uriOf names) (r : Reading) (hr : fetch env f = some r) :
    Stands env names r := by
  rcases parse_fetch names f huri with ⟨hget, huri⟩
  rcases prepareResponse_visible names f.errno _ f.src h hvisible hget huri f.address with
    ⟨rsp, hrsp, _, _, hstands⟩
  rw [fetch, handled_eq] at hr
  cases hrun : processRequest f.ndebug env f.answers f.fuel f.errno f.lines f.src with
  | error e => simp only [hrun, taken, reduceCtorEq] at hr
  | ok result =>
      cases result with
      | none => simp only [hrun, taken, reduceCtorEq] at hr
      | some p =>
          simp only [hrun, taken, Option.filter_eq_some_iff, decide_eq_true_eq] at hr
          rcases prepared_of_processRequest f.ndebug env f.answers f.errno f.lines f.src
            f.fuel p hrun with ⟨hprepare, hsend⟩
          rw [hrsp, Except.ok.injEq] at hprepare
          have hprepared := prepareResponse_prepared env f.errno _ f.src rsp hrsp
          rw [hprepare] at hprepared hstands
          have hpre := sendHttpRsp_prefix f.ndebug env f.answers f.fuel p.rsp hprepared p.bytes
            p.out hsend
          exact hstands r (takenFor_of_isPrefix env p.rsp hprepared p.out.wire hpre r hr.1).2.1
            hr.2

/-- A request for what is there counts as a good one, whatever becomes of the
    response. -/
theorem good_of_fetch (h : Tidy env) (hvisible : Visible env names)
    (huri : f.request.uri = uriOf names) (p : Processed)
    (hrun : f.handled env = .ok (some p)) : p.goodRequest = true := by
  rcases parse_fetch names f huri with ⟨hget, huri⟩
  rcases prepareResponse_visible names f.errno _ f.src h hvisible hget huri f.address with
    ⟨rsp, hrsp, hstatus, _, _⟩
  rw [handled_eq, processRequest_eq, hrsp] at hrun
  cases hsend : sendHttpRsp f.ndebug env f.answers f.fuel {} rsp with
  | error e => simp only [hsend, reduceCtorEq] at hrun
  | ok result =>
      simp only [hsend, Except.ok.injEq, Option.some.injEq] at hrun
      rw [← hrun]
      exact decide_eq_true hstatus

/-- What is there is fetched, if what is sent is taken. -/
theorem fetch_all (h : Tidy env) (hvisible : Visible env names)
    (huri : f.request.uri = uriOf names) (hsent : AllSent f.answers) :
    ∃ n, ∀ fuel, n ≤ fuel → ∃ r, fetch env { f with fuel := fuel } = some r := by
  rcases parse_fetch names f huri with ⟨hget, huri⟩
  rcases prepareResponse_visible names f.errno _ f.src h hvisible hget huri f.address with
    ⟨rsp, hrsp, hstatus, hfile, _⟩
  rcases processRequest_framed f.ndebug env f.answers f.errno f.lines f.src hsent rsp hrsp
    (by rw [hstatus]; exact HTTPStatus.noConfusion) hfile with ⟨n, hframed⟩
  refine ⟨n, fun fuel hfuel => ?_⟩
  rcases hframed fuel hfuel with ⟨p, hrun, rfl, hwire⟩
  refine ⟨⟨p.rsp.mStatus.toInt, p.rsp.mContentType, p.rsp.mLen, payload env p.rsp⟩, ?_⟩
  rw [fetch, handled_eq]
  change taken (processRequest f.ndebug env f.answers fuel f.errno f.lines f.src) = _
  rw [hrun, taken]
  exact Option.filter_eq_some_iff.mpr ⟨hwire.read_eq, decide_eq_true hwire.length_eq⟩

end Fetching

theorem space_not_mem_methodGet : ' ' ∉ methodGet := by decide

theorem lf_not_mem_methodGet : '\n' ∉ methodGet := by decide

theorem isLine_of_mem_nil : ∀ l ∈ ([] : List Bytes), IsLine '\n' l :=
  fun _ hl => absurd hl List.not_mem_nil

/-- The request of a client that sends no headers. -/
def plainRequest (uri : Bytes) (hspace : ' ' ∉ uri) (hlf : '\n' ∉ uri) : Request where
  method := methodGet
  uri := uri
  version := "HTTP/1.0".toList
  headers := []
  body := []
  method_space := space_not_mem_methodGet
  method_lf := lf_not_mem_methodGet
  uri_space := hspace
  uri_lf := hlf
  version_space := by decide
  version_lf := by decide
  body_lines := isLine_of_mem_nil

theorem length_plainRequest (uri : Bytes) (hspace : ' ' ∉ uri) (hlf : '\n' ∉ uri) :
    (plainRequest uri hspace hlf).render.length = uri.length + 17 := by
  simp only [Request.render, Request.lines, Request.head, Request.requestLine, plainRequest,
    methodGet, crlf, List.map_nil, List.flatten_append, List.flatten_cons, List.flatten_nil,
    List.length_append, List.length_cons, List.length_nil, List.append_nil]
  have : "HTTP/1.0".toList.length = 8 := rfl
  omega

theorem length_requestLine_le (r : Request) : r.requestLine.length ≤ r.render.length := by
  simp only [Request.render, Request.lines, Request.head, List.flatten_append, List.flatten_cons,
    List.length_append]
  omega

section Crawling

variable {env : Env}

/-- Where the links on a page lead. -/
theorem visible_of_link (h : Tidy env) (names : Location) (hvisible : Visible env names)
    (r : Reading) (hr : Stands env names r) (hpage : r.contentType = textHtml) (uri : Bytes)
    (huri : uri ∈ (anchors r.body).map Anchor.href) :
    ∃ names', Visible env names' ∧ uri = uriOf names' := by
  rcases h.kind names hvisible with ⟨content, hnode⟩ | ⟨_, size, children, hnode⟩
  · rw [Stands, hnode] at hr
    exact absurd hpage hr.2.1
  · rw [Stands, hnode] at hr
    rw [hr.2.2] at huri
    rcases List.mem_map.mp huri with ⟨names', hmem, rfl⟩
    refine ⟨names', ?_, rfl⟩
    rcases List.mem_append.mp hmem with hup | hdown
    · exact visible_of_above names names' hvisible hup
    · rcases List.mem_map.mp hdown with ⟨name, hname, rfl⟩
      rcases List.mem_filter.mp hname with ⟨hmem, hshown⟩
      exact .entry names children size name hvisible hnode hmem (of_decide_eq_true hshown)

/-- What the client comes to is visible. -/
theorem visible_of_reachable (h : Tidy env) (uri : Bytes) (hr : (browser env).Reachable uri) :
    ∃ names, Visible env names ∧ uri = uriOf names := by
  refine hr.invariant (fun uri => ∃ names, Visible env names ∧ uri = uriOf names)
    (fun uri huri => ⟨[], .root, huri⟩) ?_
  rintro uri a next ⟨names, hvisible, rfl⟩ hstep
  rw [browser] at hstep
  dsimp only at hstep
  split at hstep
  · rename_i huri
    rcases Option.bind_eq_some_iff.mp hstep with ⟨r, hfetch, hlink⟩
    split at hlink
    · rename_i hpage
      rcases Option.map_eq_some_iff.mp hlink with ⟨link, hget, rfl⟩
      exact visible_of_link h names hvisible r
        (stands_of_fetch names a.1 h hvisible huri r hfetch) hpage link.href
        (List.mem_map_of_mem (List.mem_of_getElem? hget))
    · exact absurd hlink (by simp only [reduceCtorEq, not_false_eq_true])
  · exact absurd hstep (by simp only [reduceCtorEq, not_false_eq_true])

/-- The client can go from a directory to each entry on its page. -/
theorem reachable_entry (h : Tidy env) (names children : List Bytes) (size : Nat) (name : Bytes)
    (hvisible : Visible env names)
    (hdir : env.fs.node (env.cwd ++ names) = some (.dir true size children))
    (hname : name ∈ children) (hshown : Shows env names name)
    (hfits : (uriOf names).length + 17 < defaultBufferSize)
    (hr : (browser env).Reachable (uriOf names)) :
    (browser env).Reachable (uriOf (names ++ [name])) := by
  have hplain := h.plainUri names hvisible
  let f : Fetch := {
    ndebug := true
    answers := fun _ => some 1
    fuel := 0
    errno := 0
    src := []
    request := plainRequest (uriOf names) hplain.2.2.1 hplain.2.2.2
    first := (plainRequest (uriOf names) hplain.2.2.1 hplain.2.2.2).render
    rest := []
    get := rfl
    part := List.prefix_refl _
    line := length_requestLine_le _
    fits := by
      refine Nat.lt_of_le_of_lt (length_requestLine_le _) ?_
      rw [length_plainRequest]
      exact hfits
    address := List.not_mem_nil }
  rcases fetch_all names f h hvisible rfl (fun _ => ⟨0, rfl⟩) with ⟨n, hall⟩
  rcases hall n (Nat.le_refl n) with ⟨r, hfetch⟩
  have hstands := stands_of_fetch names { f with fuel := n } h hvisible rfl r hfetch
  rw [Stands, hdir] at hstands
  -- The entry is among the links, so it has a number.
  have hlink : uriOf (names ++ [name]) ∈ (anchors r.body).map Anchor.href := by
    rw [hstands.2.2]
    exact List.mem_map_of_mem (List.mem_append_right _ (List.mem_map_of_mem
      (List.mem_filter.mpr ⟨hname, decide_eq_true hshown⟩)))
  rcases List.mem_map.mp hlink with ⟨link, hmem, hhref⟩
  rcases List.mem_iff_getElem?.mp hmem with ⟨i, hi⟩
  refine .step _ ({ f with fuel := n }, i) _ hr ?_
  rw [browser]
  dsimp only
  rw [if_pos (show f.request.uri = uriOf names from rfl), hfetch, Option.bind_some,
    if_pos hstands.2.1, hi, Option.map_some, hhref]

/-- The client can come to everything that is visible. -/
theorem reachable_of_visible (h : Tidy env)
    (hfits : ∀ names, Visible env names → (uriOf names).length + 17 < defaultBufferSize)
    (names : Location) (hvisible : Visible env names) :
    (browser env).Reachable (uriOf names) := by
  induction hvisible with
  | root => exact .init _ rfl
  | entry names children size name hnames hdir hname hshown ih =>
      exact reachable_entry h names children size name hnames hdir hname hshown
        (hfits names hnames) ih

end Crawling

/-- A server in `/s`, with two directories of two files each. -/
def shelfEnv : Env where
  fs := FileSystem.uniform twoNames 2 (.file true ['c', 'd', 'e']) rfl
  cwd := [['s']]
  options := { dir := ['/', 's'] }
  executableFileName := []

/-- What is visible there is at most two levels down. -/
theorem shelfEnv_visible (names : Location) (h : Visible shelfEnv names) :
    (∀ name ∈ names, name ∈ twoNames.names) ∧ names.length ≤ 2 := by
  cases h with
  | root => exact ⟨fun _ hname => absurd hname List.not_mem_nil, Nat.zero_le _⟩
  | entry names children size name h hdir hname hshown =>
      have hnames :
          (shelfEnv.fs.node (shelfEnv.cwd ++ names)).bind Node.names? = some children := by
        rw [hdir]
        rfl
      rcases (uniformNode_names twoNames 2 (.file true ['c', 'd', 'e']) rfl _ _).mp hnames with
        ⟨rfl, hall, hlen⟩
      refine ⟨List.forall_mem_append.mpr ⟨fun n hn => hall n (List.mem_append_right _ hn),
        List.forall_mem_singleton.mpr hname⟩, ?_⟩
      rw [List.length_append, show shelfEnv.cwd.length = 1 from rfl] at hlen
      rw [List.length_append, List.length_singleton]
      omega

theorem shelfEnv_short (names : Location) (h : Visible shelfEnv names) :
    (pathOf names).length ≤ 4 ∧ (uriOf names).length ≤ 4 := by
  rcases shelfEnv_visible names h with ⟨hall, hlen⟩
  have hone : ∀ name ∈ twoNames.names, name.length = 1 ∧ ' ' ∉ name := by decide
  have hpath : uriOf names = pathOf names :=
    uriOf_eq_pathOf names (fun name hname => (hone name (hall name hname)).2)
  have hbound : (pathOf names).length ≤ 4 := by
    rw [pathOf]
    split
    · decide
    · -- Each name adds itself and a slash.
      have hflat : ∀ names : Location, (∀ name ∈ names, name ∈ twoNames.names) →
          (names.flatMap (fun name => '/' :: name)).length = 2 * names.length := by
        intro names
        induction names with
        | nil => exact fun _ => rfl
        | cons name names ih =>
            intro hall
            rw [List.flatMap_cons, List.length_append, List.length_cons, List.length_cons,
              ih (fun n hn => hall n (List.mem_cons_of_mem _ hn)),
              (hone name (hall name List.mem_cons_self)).1]
            omega
      rw [hflat names hall]
      omega
  exact ⟨hbound, hpath ▸ hbound⟩

theorem shelfEnv_tidy : Tidy shelfEnv where
  serves := ⟨rfl, by decide, rfl⟩
  fit := by
    intro loc names hnames
    rw [((uniformNode_names twoNames 2 (.file true ['c', 'd', 'e']) rfl loc names).mp hnames).1]
    decide
  title := rfl
  root := ⟨0, twoNames.names, rfl⟩
  kind := by
    intro names h
    rcases shelfEnv_visible names h with ⟨hall, hlen⟩
    have hmem : ∀ name ∈ shelfEnv.cwd ++ names, name ∈ twoNames.names :=
      List.forall_mem_append.mpr ⟨by decide, hall⟩
    have hnode : shelfEnv.fs.node (shelfEnv.cwd ++ names)
        = if (shelfEnv.cwd ++ names).length ≤ 2 then some (.dir true 0 twoNames.names)
          else if (shelfEnv.cwd ++ names).length = 3 then some (.file true ['c', 'd', 'e'])
          else none := if_pos hmem
    have hspace : ∀ name ∈ twoNames.names, ' ' ∉ name := by decide
    rw [hnode, List.length_append, show shelfEnv.cwd.length = 1 from rfl]
    by_cases htwo : names.length ≤ 1
    · rw [if_pos (by omega)]
      exact Or.inr ⟨fun name hname => hspace name (hall name hname), 0, _, rfl⟩
    · rw [if_neg (by omega), if_pos (by omega)]
      exact Or.inl ⟨_, rfl⟩
  plain := by
    intro names h name hname
    have hplain : ∀ name ∈ twoNames.names,
        '<' ∉ name ∧ '"' ∉ name ∧ '\n' ∉ name ∧ ¬ escapedSpace <:+: name := by decide
    exact hplain name ((shelfEnv_visible names h).1 name hname)
  short := by
    intro names h
    have hshort := (shelfEnv_short names h).1
    rw [cookPath, List.length_append, show shelfEnv.options.dir.length = 2 from rfl, pathMax]
    omega
  accepted := fun _ _ => ⟨rfl, fun _ => rfl⟩

theorem shelfEnv_fits (names : Location) (h : Visible shelfEnv names) :
    (uriOf names).length + 17 < defaultBufferSize := by
  have hshort := (shelfEnv_short names h).2
  rw [defaultBufferSize]
  omega

theorem shelfEnv_file : Visible shelfEnv [['s'], ['x']] :=
  .entry [['s']] twoNames.names 0 ['x'] (.entry [] twoNames.names 0 ['s'] .root rfl (by decide)
    (by decide)) rfl (by decide) (by decide)

/-- **What such a client gets**: whatever it takes from a fetch, and however
    sending went, is what stands at the node; every request it makes that is
    processed is a good one; and if what is sent is taken, it gets an answer. -/
theorem crawl_served (env : Env) (h : Tidy env) (uri : Bytes) (hr : (browser env).Reachable uri) :
    ∃ names, Visible env names ∧ uri = uriOf names ∧
      ∀ f : Fetch, f.request.uri = uri →
        (∀ r, fetch env f = some r → Stands env names r) ∧
        (∀ p, f.handled env = .ok (some p) → p.goodRequest = true) ∧
        (AllSent f.answers → ∃ n, ∀ fuel, n ≤ fuel → ∃ r,
          fetch env { f with fuel := fuel } = some r) := by
  rcases visible_of_reachable h uri hr with ⟨names, hvisible, rfl⟩
  exact ⟨names, hvisible, rfl, fun f huri =>
    ⟨stands_of_fetch names f h hvisible huri, good_of_fetch names f h hvisible huri,
      fetch_all names f h hvisible huri⟩⟩

theorem crawl_served_shelf :
    ∃ names, Visible shelfEnv names ∧ uriOf [['s'], ['x']] = uriOf names ∧
      ∀ f : Fetch, f.request.uri = uriOf [['s'], ['x']] →
        (∀ r, fetch shelfEnv f = some r → Stands shelfEnv names r) ∧
        (∀ p, f.handled shelfEnv = .ok (some p) → p.goodRequest = true) ∧
        (AllSent f.answers → ∃ n, ∀ fuel, n ≤ fuel → ∃ r,
          fetch shelfEnv { f with fuel := fuel } = some r) :=
  crawl_served shelfEnv shelfEnv_tidy (uriOf [['s'], ['x']])
    (reachable_of_visible shelfEnv_tidy shelfEnv_fits _ shelfEnv_file)

end HttpFileSharing
