import HttpFileSharing.Theory.Listing
import HttpFileSharing.Theory.Response

/-!
# Which Requests Get an Answer

A request is answered when its response is a status other than the failure,
`build_rsp` writes it, and a reader finds one complete response on the wire.
The status starts as the failure and is left so in one branch: where a listing
fails for another reason than that nothing is there. Two more branches end the
request without an answer: a listing whose page reads out of range, and a file
that is found but cannot be opened or has fewer bytes than it promised.

Every other request is answered. So what decides is the outcome of the two
look-ups, the text of the URI where a directory is listed, and the `errno` the
request started with where a path is too long to be listed, since no system
call has then set it.

## Main definitions

* `NamesFit`: The names of directories are no longer than the kernel allows.
* `Answered`: The request gets one complete response.
* `Node.Sendable`: A node that gives the bytes it promises.
* `entryOf`: The entry of a listing for a name.
* `AnswersFile`, `AnswersDirectory`, `Answerable`: What decides whether it
  does.

## Theorems

* `visitEntries_eq`: No entry of a directory is read out of range.
* `getFileListing_eq`: A directory that opens is listed.
* `answered_of_prepareResponse`: A response that is prepared is sent whole
  when its file can be.
* `answered_file`, `answered_directory`: The two branches of a GET.
* `answered_exact`: The exact condition.
* `answered_fails`: A path that goes on below a regular file.
-/

namespace HttpFileSharing

/-- `NAME_MAX`. -/
def nameMax : Nat := 255

/-- The names of directories fit into a `dirent`. -/
def NamesFit (fs : FileSystem) : Prop :=
  ∀ loc names, (fs.node loc).bind Node.names? = some names →
    ∀ name ∈ names, name.length ≤ nameMax

/-- The request reaches `send_http_rsp` with a status other than the failure
    and a response `build_rsp` writes, and one complete response is sent. -/
def Answered (ndebug : Bool) (env : Env) (answers : Answers) (errno : Errno)
    (lines : List Bytes) (src : Bytes) : Prop :=
  ∃ n, ∀ fuel, n ≤ fuel → ∃ p,
    processRequest ndebug env answers fuel errno lines src = .ok (some p) ∧
    p.rsp.mStatus ≠ .httpGenErr ∧ (p.rsp.buildRsp []).1 = true ∧
    ∃ r, readResponse p.out.wire = some r ∧ r.body.length = r.length ∧
      r.status ∈ [200, 404, 405]

/-- What is found can be opened and has the bytes it promises: a regular file
    that can be read, or an empty node of another kind. -/
def Node.Sendable : Node → Prop
  | .file readable _ => readable = true
  | .dir readable size _ => readable = true ∧ size = 0
  | .other opens size => opens = true ∧ size = 0

/-- A request for a file is answered: what the second look-up finds, if it
    finds anything, can be sent. -/
def AnswersFile (env : Env) (uri : Bytes) : Prop :=
  ∀ node, env.fs.stat env.cwd (cleanFilename (uri.drop 1)) = .ok node → node.Sendable

/-- A request for a directory is answered: the path is short enough, and the
    directory is either listed for a URI whose page can be built or not there.
    A path that is too long counts as not there if that is what `errno` says
    by then. -/
def AnswersDirectory (env : Env) (errno : Errno) (uri : Bytes) : Prop :=
  if pathMax ≤ (cookPath env uri).length then errno = enoent
  else match env.fs.opendir env.cwd (cookPath env uri) with
    | .error e => e = enoent
    | .ok _ => SafeUri uri

/-- What decides whether a request is answered. -/
def Answerable (env : Env) (errno : Errno) (req : HTTPRequest) : Prop :=
  req.mMethod = methodGet →
    match env.fs.stat env.cwd (cookPath env (cleanFilename req.mUri)) with
    | .ok (.file _ _) => AnswersFile env req.mUri
    | .ok _ => AnswersDirectory env errno req.mUri
    | .error e => AnswersDirectory env e req.mUri

section Listing

/-- A name is put behind a path with a slash before it. -/
theorem joinPath_eq (path name : Bytes) (hne : path ≠ []) :
    ∃ a, joinPath path name = a ++ '/' :: name ∧ a.length ≤ path.length := by
  rw [joinPath]
  by_cases hslash : path.getLast? = some '/'
  · rw [if_pos (Or.inr hslash)]
    -- The slash the path ends in is the one before the name.
    refine ⟨path.dropLast, ?_, by rw [List.length_dropLast]; omega⟩
    rw [← List.singleton_append, ← List.append_assoc]
    rw [List.getLast?_eq_some_getLast hne, Option.some.injEq] at hslash
    rw [← hslash, List.dropLast_append_getLast hne]
  · rw [if_neg (not_or.mpr ⟨hne, hslash⟩)]
    exact ⟨path, rfl, Nat.le_refl _⟩

/-- The entry for `name` in the directory at `loc` opened as `path`, if it is
    listed. -/
def entryOf (env : Env) (path : Bytes) (loc : Location) (name : Bytes) : Option FSEntry :=
  if pathElems (joinPath path name) = pathElems env.executableFileName then none
  else if name = "favicon.ico".toList then none
  else if name.head? = some '.' then none
  else some { isDir := ((env.fs.node (loc ++ [name])).bind Node.names?).isSome, name := name }

theorem entryOf_name (env : Env) (path : Bytes) (loc : Location) (name : Bytes) (entry : FSEntry)
    (h : entryOf env path loc name = some entry) : entry.name = name := by
  rw [entryOf] at h
  split at h
  · exact absurd h (by simp only [reduceCtorEq, not_false_eq_true])
  · split at h
    · exact absurd h (by simp only [reduceCtorEq, not_false_eq_true])
    · split at h
      · exact absurd h (by simp only [reduceCtorEq, not_false_eq_true])
      · rw [← Option.some.inj h]

/-- The size that is looked up leaves the name alone. -/
theorem withFileSize_name (env : Env) (path : Bytes) (entry : FSEntry) :
    (withFileSize env path entry).name = entry.name := by
  rw [withFileSize]
  split
  · rfl
  · split <;> rfl

/-- The entries of a directory are read without a fault. -/
theorem visitEntries_eq (env : Env) (path : Bytes) (loc : Location) (hne : path ≠ [])
    (hshort : path.length < pathMax) (names : List Bytes)
    (hnames : ∀ name ∈ names, '/' ∉ name ∧ name.length ≤ nameMax) :
    visitEntries env path loc names = .ok (names.filterMap (entryOf env path loc)) := by
  induction names with
  | nil => rfl
  | cons name names ih =>
      rcases hnames name List.mem_cons_self with ⟨hslash, hlen⟩
      rcases joinPath_eq path name hne with ⟨a, hjoin, ha⟩
      -- The path and the name together are far from wrapping the index.
      have hbound : (a ++ '/' :: name).length < 2 ^ 32 := by
        rw [List.length_append, List.length_cons]
        rw [nameMax] at hlen
        rw [pathMax] at hshort
        omega
      -- The scan finds the slash before the name, whatever is done with it then.
      have hentry : visitEntry env path loc name = .ok (entryOf env path loc name) := by
        rw [visitEntry, entryOf]
        simp only [hjoin, extractNameFromPath_append a name hslash hbound]
        split
        · rfl
        · split
          · rfl
          · split
            · rfl
            · rfl
      rw [visitEntries, hentry, ih (fun n hn => hnames n (List.mem_cons_of_mem _ hn)),
        List.filterMap_cons]
      cases entryOf env path loc name <;> rfl

/-- A directory that opens is listed. -/
theorem getFileListing_eq (env : Env) (hfit : NamesFit env.fs) (errno : Errno) (uri : Bytes)
    (hshort : ¬ pathMax ≤ (cookPath env uri).length) (loc : Location) (names : List Bytes)
    (hopen : env.fs.opendir env.cwd (cookPath env uri) = .ok (loc, names)) :
    getFileListing env errno uri
      = .ok (some ((names.filterMap (entryOf env (cookPath env uri) loc)).map
        (withFileSize env (cookPath env uri))), errno) := by
  have hresolve := resolve_of_opendir env _ loc names hopen
  have hnames := names_of_opendir env _ loc names hopen
  have hne : cookPath env uri ≠ [] :=
    FileSystem.ne_nil_of_locate _ _ _ _ (FileSystem.resolve_ok _ _ _ _ hresolve)
  have hvec := visitEntries_eq env (cookPath env uri) loc hne (Nat.lt_of_not_le hshort) names
    (fun name hname => ⟨(env.fs.names_valid loc names hnames name hname).2.2.2.1,
      hfit loc names hnames name hname⟩)
  rw [getFileListing]
  simp only [if_neg hshort, getFilesysStructure, hopen, hvec]

/-- A directory that does not open is not listed. -/
theorem getFileListing_error (env : Env) (errno : Errno) (uri : Bytes)
    (hshort : ¬ pathMax ≤ (cookPath env uri).length) (e : Errno)
    (hopen : env.fs.opendir env.cwd (cookPath env uri) = .error e) :
    getFileListing env errno uri = .ok (none, e) := by
  rw [getFileListing]
  simp only [if_neg hshort, getFilesysStructure, hopen]

/-- A path that is too long is not listed, and leaves `errno` alone. -/
theorem getFileListing_long (env : Env) (errno : Errno) (uri : Bytes)
    (hlong : pathMax ≤ (cookPath env uri).length) :
    getFileListing env errno uri = .ok (none, errno) := by
  rw [getFileListing]
  exact if_pos hlong

end Listing

/-- A node that is no regular file opens as a stream that sends nothing. -/
theorem special_iff (opens : Bool) (size : Nat) :
    (opens = true ∧ size = 0) ↔
      ∃ stream, (if opens = true then some Stream.special else none) = some stream ∧
        size ≤ stream.bytes.length := by
  cases opens with
  | true =>
      refine ⟨fun h => ⟨_, rfl, Nat.le_of_eq h.2⟩, ?_⟩
      rintro ⟨stream, hopen, hsize⟩
      rw [← Option.some.inj hopen] at hsize
      exact ⟨rfl, Nat.le_zero.mp hsize⟩
  | false =>
      refine iff_of_false (fun h => Bool.false_ne_true h.1) ?_
      rintro ⟨stream, hopen, _⟩
      exact absurd hopen (by simp only [Bool.false_eq_true, if_false, reduceCtorEq,
        not_false_eq_true])

/-- What a node can send is what opening it gives. -/
theorem sendable_iff (env : Env) (path : Bytes) (node : Node)
    (hnode : env.fs.stat env.cwd path = .ok node) :
    node.Sendable ↔ ∃ stream, env.fs.fopen env.cwd path = some stream ∧
      node.size ≤ stream.bytes.length := by
  rw [FileSystem.fopen, hnode]
  -- By the kind of node and whether it can be opened.
  cases node with
  | file readable content =>
      cases readable with
      | true => exact iff_of_true rfl ⟨_, rfl, Nat.le_refl _⟩
      | false =>
          refine iff_of_false Bool.false_ne_true ?_
          rintro ⟨stream, hopen, _⟩
          exact absurd hopen (by simp only [reduceCtorEq, not_false_eq_true])
  | dir readable size names => cases readable <;> exact special_iff _ size
  | other opens size => cases opens <;> exact special_iff _ size

section Answers

variable (ndebug : Bool) (env : Env) (answers : Answers) (errno : Errno) (lines : List Bytes)
  (src : Bytes)

/-- A request whose response cannot be prepared is not answered. -/
theorem not_answered_of_fault (fault : Fault)
    (hrsp : prepareResponse env errno (HTTPRequest.parse {} lines).2 src = .error fault) :
    ¬ Answered ndebug env answers errno lines src := by
  rintro ⟨n, hanswered⟩
  rcases hanswered n (Nat.le_refl n) with ⟨p, hp, _⟩
  rw [processRequest_eq, hrsp] at hp
  exact absurd hp (by simp only [reduceCtorEq, not_false_eq_true])

/-- `build_rsp` writes every response but the failure. -/
theorem buildRsp_of_prepared (rsp : HTTPResponse) (hrsp : Prepared env rsp)
    (hstatus : rsp.mStatus ≠ .httpGenErr) : (rsp.buildRsp []).1 = true := by
  have htype := (contentType_spec _ hrsp.contentType).1
  rw [HTTPResponse.buildRsp, if_neg hstatus]
  cases hrsp with
  | page status contentType body _ _ hbody =>
      have hlen : body.length ≠ 0 := fun h => hbody (List.length_eq_zero_iff.mp h)
      rw [if_neg]
      rintro ⟨_, hzero | hnil | hnil⟩
      · exact hlen hzero
      · exact htype hnil
      · exact hbody hnil
  | file name node contentType hname _ _ => rw [if_neg (fun h => hname h.1)]
  | failed => exact absurd rfl hstatus

/-- The codes an answer can have. -/
theorem status_of_prepared (rsp : HTTPResponse) (hrsp : Prepared env rsp)
    (hstatus : rsp.mStatus ≠ .httpGenErr) : rsp.mStatus.toInt ∈ [200, 404, 405] := by
  have hcode : rsp.mStatus = .httpOk ∨ rsp.mStatus = .httpNotFound ∨
      rsp.mStatus = .httpUnsuppMethod := by
    cases hrsp with
    | page status contentType body hok => exact hok
    | file => exact Or.inl rfl
    | failed => exact absurd rfl hstatus
  rcases hcode with h | h | h
  · rw [h]
    decide
  · rw [h]
    decide
  · rw [h]
    decide

/-- Sending a file response that ends has sent the head, and then the
    file. -/
theorem sendHttpRsp_file_ok (hsent : AllSent answers) (name contentType : Bytes) (size : Nat)
    (hname : name ≠ []) (fuel : Nat) (result : Int × Outbound)
    (h : sendHttpRsp ndebug env answers fuel {} ⟨.httpOk, size, contentType, [], name⟩
      = .ok result) :
    ∃ out tail, out.wire = rspHead .httpOk contentType size ∧
      TCPConnection.sendFile answers fuel out (env.fs.fopen env.cwd name) size = .ok tail ∧
      result.2.wire = tail.2.wire := by
  unfold sendHttpRsp at h
  simp only [HTTPResponse.buildRsp, hname, reduceCtorEq, false_and, and_false, if_false,
    List.nil_append, List.append_nil, ne_eq, not_false_eq_true, if_true] at h
  cases hhead : sendWrapper answers fuel {} (rspHead .httpOk contentType size) with
  | error e => simp only [hhead, reduceCtorEq] at h
  | ok sent =>
      rcases sent with ⟨ret, out⟩
      have hspec := sendWrapper_ok answers hsent fuel {} _ (ret, out) hhead
      simp only [List.nil_append] at hspec
      have hcount : ret ≠ -1 := by omega
      cases hfile : TCPConnection.sendFile answers fuel out (env.fs.fopen env.cwd name) size with
      | error e => simp only [hhead, if_neg hcount, hfile, reduceCtorEq] at h
      | ok tail =>
          simp only [hhead, if_neg hcount, hfile, Except.ok.injEq] at h
          exact ⟨out, tail, hspec.2, hfile, by rw [← h]⟩

/-- A file response that is sent whole had a stream with all its bytes. -/
theorem stream_of_sent (hsent : AllSent answers) (name contentType : Bytes) (node : Node)
    (hname : name ≠ []) (hnode : env.fs.stat env.cwd name = .ok node)
    (htype : contentType ∈ [textPlain, textHtml, octetStream]) (fuel : Nat)
    (result : Int × Outbound)
    (hsend : sendHttpRsp ndebug env answers fuel {} ⟨.httpOk, node.size, contentType, [], name⟩
      = .ok result) (r : Reading) (hread : readResponse result.2.wire = some r)
    (hlen : r.body.length = r.length) :
    ∃ stream, env.fs.fopen env.cwd name = some stream ∧ node.size ≤ stream.bytes.length := by
  rcases sendHttpRsp_file_ok ndebug env answers hsent name contentType node.size hname fuel result
    hsend with ⟨out, tail, hhead, hfile, hwire⟩
  cases hopen : env.fs.fopen env.cwd name with
  | none =>
      rw [hopen] at hfile
      exact absurd hfile (by simp only [TCPConnection.sendFile, reduceCtorEq, not_false_eq_true])
  | some stream =>
      refine ⟨stream, rfl, ?_⟩
      cases stream with
      | regular content => exact Nat.le_of_eq (size_of_regular env name content node hnode hopen)
      | special =>
          by_contra hsize
          -- The head is all there is on the wire, and it promises more.
          rw [hopen] at hfile
          have htail := sendFile_short answers fuel out node.size (Nat.lt_of_not_le hsize) tail
            hfile
          rcases contentType_spec contentType htype with ⟨_, hcr, hlf⟩
          have hback := readResponse_rspHead .httpOk contentType node.size [] (by decide) hcr hlf
          rw [List.append_nil, ← hhead, ← htail, ← hwire, hread, Option.some.injEq] at hback
          rw [hback] at hlen
          exact hsize (Nat.le_of_eq hlen.symm)

/-- A response that is prepared is sent whole exactly when it is not the
    failure and the file it names, if any, can be sent. -/
theorem answered_of_prepareResponse (hsent : AllSent answers) (rsp : HTTPResponse)
    (hrsp : prepareResponse env errno (HTTPRequest.parse {} lines).2 src = .ok rsp) :
    Answered ndebug env answers errno lines src ↔
      rsp.mStatus ≠ .httpGenErr ∧ (rsp.mRspFilename ≠ [] → ∃ stream,
        env.fs.fopen env.cwd rsp.mRspFilename = some stream ∧
        rsp.mLen ≤ stream.bytes.length) := by
  have hprepared := prepareResponse_prepared env errno _ src rsp hrsp
  have htype := hprepared.contentType
  constructor
  · rintro ⟨n, hanswered⟩
    rcases hanswered n (Nat.le_refl n) with ⟨p, hp, hstatus, _, r, hread, hlen, _⟩
    -- The request ended, so the response was sent to some end.
    rcases prepared_of_processRequest ndebug env answers errno lines src n p hp with
      ⟨hrsp', hsend⟩
    rw [← Except.ok.inj (hrsp.symm.trans hrsp')] at hstatus hsend
    refine ⟨hstatus, fun hname => ?_⟩
    cases hprepared with
    | page | failed => exact absurd rfl hname
    | file name node contentType _ hnode _ =>
        exact stream_of_sent ndebug env answers hsent name contentType node hname hnode
          htype n (p.bytes, p.out) hsend r hread hlen
  · rintro ⟨hstatus, hfile⟩
    rcases processRequest_framed ndebug env answers errno lines src hsent rsp hrsp hstatus hfile
      with ⟨n, hframed⟩
    refine ⟨n, fun fuel hfuel => ?_⟩
    rcases hframed fuel hfuel with ⟨p, hp, rfl, hwire⟩
    exact ⟨p, hp, hstatus, buildRsp_of_prepared env p.rsp hprepared hstatus, _, hwire.read_eq,
      hwire.length_eq, status_of_prepared env p.rsp hprepared hstatus⟩

/-- The page that says nothing was found is always sent. -/
theorem answered_notFound (hsent : AllSent answers) (req : HTTPRequest)
    (hreq : (HTTPRequest.parse {} lines).2 = req)
    (hrsp : prepareResponse env errno req src = .ok (notFound req src)) :
    Answered ndebug env answers errno lines src := by
  rw [← hreq] at hrsp
  refine (answered_of_prepareResponse ndebug env answers errno lines src hsent _ hrsp).mpr
    ⟨?_, fun hname => absurd rfl hname⟩
  exact HTTPStatus.noConfusion

/-- A request for a file. -/
theorem answered_file (hsent : AllSent answers) (req : HTTPRequest)
    (hreq : (HTTPRequest.parse {} lines).2 = req) (hget : req.mMethod = methodGet)
    (hregular : (checkIfFile env errno req.mUri).1 = true) :
    Answered ndebug env answers errno lines src ↔ AnswersFile env req.mUri := by
  have hprepare := prepareResponse_get env errno req src hget
  cases hstat : env.fs.stat env.cwd (cleanFilename (req.mUri.drop 1)) with
  | error e =>
      -- The second look-up finds nothing, which has a page.
      rw [processGetRequest_missing env errno req src hregular e hstat] at hprepare
      refine iff_of_true
        (answered_notFound ndebug env answers errno lines src hsent req hreq hprepare) ?_
      intro node hnode
      exact absurd (hstat.symm.trans hnode) (by simp only [reduceCtorEq, not_false_eq_true])
  | ok node =>
      rcases processGetRequest_file env errno req src hregular node hstat with
        ⟨contentType, _, hserve⟩
      rw [hserve, ← hreq] at hprepare
      rw [answered_of_prepareResponse ndebug env answers errno lines src hsent _ hprepare]
      simp only [hreq]
      have hsendable := sendable_iff env _ node hstat
      have hname := ne_nil_of_stat env _ node hstat
      constructor
      · rintro ⟨_, hstream⟩ node' hnode'
        rw [← Except.ok.inj (hstat.symm.trans hnode')]
        exact hsendable.mpr (hstream hname)
      · intro hanswers
        exact ⟨HTTPStatus.noConfusion, fun _ => hsendable.mp (hanswers node hstat)⟩

/-- A request whose listing fails is answered when `errno` says that nothing
    is there. -/
theorem answered_unlisted (hsent : AllSent answers) (req : HTTPRequest)
    (hreq : (HTTPRequest.parse {} lines).2 = req) (hget : req.mMethod = methodGet)
    (hother : (checkIfFile env errno req.mUri).1 = false) (e : Errno)
    (hlisting : getFileListing env (checkIfFile env errno req.mUri).2 req.mUri
      = .ok (none, e)) :
    Answered ndebug env answers errno lines src ↔ e = enoent := by
  have hprepare := prepareResponse_get env errno req src hget
  rw [processGetRequest_unlisted env errno req src hother e hlisting] at hprepare
  by_cases he : e = enoent
  · rw [if_pos he] at hprepare
    exact iff_of_true
      (answered_notFound ndebug env answers errno lines src hsent req hreq hprepare) he
  · rw [if_neg he, ← hreq] at hprepare
    refine iff_of_false (fun hanswered => ?_) he
    exact ((answered_of_prepareResponse ndebug env answers errno lines src hsent _ hprepare).mp
      hanswered).1 rfl

/-- A request for anything but a file. -/
theorem answered_directory (hfit : NamesFit env.fs) (hsent : AllSent answers)
    (req : HTTPRequest) (hreq : (HTTPRequest.parse {} lines).2 = req)
    (hget : req.mMethod = methodGet)
    (hother : (checkIfFile env errno req.mUri).1 = false) :
    Answered ndebug env answers errno lines src ↔
      AnswersDirectory env (checkIfFile env errno req.mUri).2 req.mUri := by
  have hunlisted := answered_unlisted ndebug env answers errno lines src hsent req hreq hget hother
  rw [AnswersDirectory]
  by_cases hlong : pathMax ≤ (cookPath env req.mUri).length
  · rw [if_pos hlong]
    exact hunlisted _ (getFileListing_long env _ req.mUri hlong)
  · rw [if_neg hlong]
    cases hopen : env.fs.opendir env.cwd (cookPath env req.mUri) with
    | error e => exact hunlisted e (getFileListing_error env _ req.mUri hlong e hopen)
    | ok dir =>
        -- The directory is listed; what is left is the page.
        have hlisted : ∃ tree, getFileListing env (checkIfFile env errno req.mUri).2 req.mUri
            = .ok (some tree, (checkIfFile env errno req.mUri).2) :=
          ⟨_, getFileListing_eq env hfit _ req.mUri hlong dir.1 dir.2 hopen⟩
        rcases hlisted with ⟨tree, hlisting⟩
        have hlen := length_of_listing env _ _ req.mUri tree hlisting
        have hprepare := prepareResponse_get env errno req src hget
        by_cases hsafe : SafeUri req.mUri
        · rcases buildRspHtml_ok env [] req tree src hlen hsafe with ⟨page, hpage, _⟩
          rw [processGetRequest_listed env errno req src hother tree _ hlisting page hpage,
            ← hreq] at hprepare
          refine iff_of_true ?_ hsafe
          refine (answered_of_prepareResponse ndebug env answers errno lines src hsent _
            hprepare).mpr ⟨HTTPStatus.noConfusion, fun hname => absurd rfl hname⟩
        · have hfails := buildRspHtml_fails env [] req tree src hlen hsafe
          refine iff_of_false ?_ hsafe
          refine not_answered_of_fault ndebug env answers errno lines src .outOfRange ?_
          rw [hreq, hprepare, processGetRequest]
          simp only [hother, Bool.false_eq_true, if_false, hlisting, hfails]

/-- A request is answered exactly when it is not a GET, when the file it is
    for can be sent or is not found, or when the directory it is for can be
    listed, under a URI whose page can be built, or is not there. -/
theorem answered_exact (hfit : NamesFit env.fs) (hsent : AllSent answers) :
    Answered ndebug env answers errno lines src ↔
      Answerable env errno (HTTPRequest.parse {} lines).2 := by
  cases hreq : HTTPRequest.parse {} lines with
  | mk parsed req =>
      have hsnd : (HTTPRequest.parse {} lines).2 = req := by rw [hreq]
      rw [Answerable]
      by_cases hget : req.mMethod = methodGet
      · rw [forall_prop_of_true hget]
        have hfile := answered_file ndebug env answers errno lines src hsent req hsnd hget
        have hdir := answered_directory ndebug env answers errno lines src hfit hsent req hsnd hget
        -- The first look-up picks the branch, and its error is the one left behind.
        rw [checkIfFile, isFile] at hfile hdir
        cases hstat : env.fs.stat env.cwd (cookPath env (cleanFilename req.mUri)) with
        | error e =>
            rw [hstat] at hdir
            exact hdir rfl
        | ok node =>
            rw [hstat] at hfile hdir
            cases node with
            | file readable content => exact hfile rfl
            | dir readable size names => exact hdir rfl
            | other opens size => exact hdir rfl
      · refine iff_of_true ?_ (fun h => absurd h hget)
        have hprepare := prepareResponse_other env errno req src hget
        rw [← hsnd] at hprepare
        exact (answered_of_prepareResponse ndebug env answers errno lines src hsent _ hprepare).mpr
          ⟨HTTPStatus.noConfusion, fun hname => absurd rfl hname⟩

end Answers

theorem sampleEnv_namesFit : NamesFit sampleEnv.fs := by
  intro loc names hnames
  rw [((uniformNode_names twoNames 1 (.file true ['a', 'b']) rfl loc names).mp hnames).1]
  decide

/-- A file, sent a byte at a time. -/
theorem answered_exact_file :
    Answered false sampleEnv (fun _ => some 1) 0 ["GET /x HTTP/1.0\r\n".toList] [] ↔
      Answerable sampleEnv 0 (HTTPRequest.parse {} ["GET /x HTTP/1.0\r\n".toList]).2 :=
  answered_exact false sampleEnv (fun _ => some 1) 0 ["GET /x HTTP/1.0\r\n".toList] []
    sampleEnv_namesFit (fun _ => ⟨0, rfl⟩)

/-- A path that goes on below a regular file is neither a file nor a
    directory, and neither is it told that it is not there. -/
theorem answered_fails :
    ¬ ∀ ndebug env answers errno lines src, NamesFit env.fs → AllSent answers →
      Answered ndebug env answers errno lines src := by
  intro hall
  have hanswered := hall true sampleEnv (fun _ => some 1) 0 ["GET /s/x HTTP/1.0\r\n".toList] []
    sampleEnv_namesFit (fun _ => ⟨0, rfl⟩)
  have hrsp : prepareResponse sampleEnv 0
      (HTTPRequest.parse {} ["GET /s/x HTTP/1.0\r\n".toList]).2 []
      = .ok ⟨.httpGenErr, 0, textPlain, [], []⟩ := by decide
  exact ((answered_of_prepareResponse true sampleEnv (fun _ => some 1) 0 _ []
    (fun _ => ⟨0, rfl⟩) _ hrsp).mp hanswered).1 rfl

end HttpFileSharing
