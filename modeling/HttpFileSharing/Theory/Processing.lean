import HttpFileSharing.Core.ProcessRequest
import HttpFileSharing.Theory.Paths

/-!
# The Branches of a Request

What a request is answered with, branch by branch. A GET makes two look-ups
for a file and one for a directory, and their outcomes pick the response: the
file's name and size, the listing, the page that says nothing was found, or
nothing at all. Each branch has its lemma here, and `responds_of_get` says
that there is no other, so what comes after does not look into the code
again.

## Main definitions

* `notFound`: The page that says nothing was found, as a response.
* `Responds`: What a GET leaves, one constructor for each way it can go.

## Theorems

* `resolve_of_stat`, `resolve_of_opendir`: What is found has been resolved.
* `names_of_opendir`: What `opendir` gives are the names of the directory.
* `ne_nil_of_stat`: A path that `stat` finds is not empty.
* `get404Page_ne_nil`, `buildRspHtml_eq_ok`: No page is empty.
* `processGetRequest_missing`, `processGetRequest_file`,
  `processGetRequest_unlisted`, `processGetRequest_listed`: The branches of a
  GET.
* `responds_of_get`: A GET goes one of those ways.
* `prepareResponse_get`, `prepareResponse_other`: The response to a request,
  by its method.
* `processRequest_eq`: Processing is preparing and sending.
-/

namespace HttpFileSharing

/-- What `stat` finds has been resolved. -/
theorem resolve_of_stat (env : Env) (path : Bytes) (node : Node)
    (h : env.fs.stat env.cwd path = .ok node) :
    ∃ loc, env.fs.resolve env.cwd path = .ok loc := by
  rw [FileSystem.stat] at h
  split at h
  · exact absurd h (by simp only [reduceCtorEq, not_false_eq_true])
  · rename_i loc hloc
    exact ⟨loc, hloc⟩

/-- A path that `stat` finds is not empty. -/
theorem ne_nil_of_stat (env : Env) (path : Bytes) (node : Node)
    (h : env.fs.stat env.cwd path = .ok node) : path ≠ [] := by
  rcases resolve_of_stat env path node h with ⟨loc, hloc⟩
  exact FileSystem.ne_nil_of_locate _ _ _ _ (FileSystem.resolve_ok _ _ _ _ hloc)

/-- What `opendir` opens has been resolved. -/
theorem resolve_of_opendir (env : Env) (path : Bytes) (loc : Location) (names : List Bytes)
    (h : env.fs.opendir env.cwd path = .ok (loc, names)) :
    env.fs.resolve env.cwd path = .ok loc := by
  rw [FileSystem.opendir] at h
  split at h
  · exact absurd h (by simp only [reduceCtorEq, not_false_eq_true])
  · rename_i loc' hresolve
    split at h
    · rw [hresolve, (Prod.mk.inj (Except.ok.inj h)).1]
    · exact absurd h (by simp only [reduceCtorEq, not_false_eq_true])
    · exact absurd h (by simp only [reduceCtorEq, not_false_eq_true])
    · exact absurd h (by simp only [reduceCtorEq, not_false_eq_true])

/-- What `opendir` gives are the names of the directory. -/
theorem names_of_opendir (env : Env) (path : Bytes) (loc : Location) (names : List Bytes)
    (h : env.fs.opendir env.cwd path = .ok (loc, names)) :
    (env.fs.node loc).bind Node.names? = some names := by
  rw [FileSystem.opendir, resolve_of_opendir env path loc names h] at h
  simp only at h
  split at h
  · rename_i size names' hnode
    rw [hnode, ← (Prod.mk.inj (Except.ok.inj h)).2]
    rfl
  · exact absurd h (by simp only [reduceCtorEq, not_false_eq_true])
  · exact absurd h (by simp only [reduceCtorEq, not_false_eq_true])
  · exact absurd h (by simp only [reduceCtorEq, not_false_eq_true])

theorem get404Page_ne_nil (req : HTTPRequest) (src : Bytes) : get404Page req [] src ≠ [] := by
  unfold get404Page lf
  simp only [ne_eq, List.append_eq_nil_iff, List.cons_ne_nil, and_false, not_false_eq_true]

/-- A page that lists a directory is a success, and is not empty. -/
theorem buildRspHtml_eq_ok (env : Env) (req : HTTPRequest) (tree : List FSEntry) (src : Bytes)
    (status : HTTPStatus) (page : Bytes)
    (h : buildRspHtml env [] req tree src = .ok (status, page)) :
    status = .httpOk ∧ page ≠ [] := by
  rw [buildRspHtml] at h
  split at h
  · exact absurd h (by simp only [reduceCtorEq, not_false_eq_true])
  · split at h
    · exact absurd h (by simp only [reduceCtorEq, not_false_eq_true])
    · rw [Except.ok.injEq, Prod.mk.injEq] at h
      refine ⟨h.1.symm, fun hnil => ?_⟩
      rw [hnil] at h
      simp only [List.append_eq_nil_iff, lf, List.cons_ne_nil, and_false] at h

/-- The page that says nothing was found, as a response. -/
def notFound (req : HTTPRequest) (src : Bytes) : HTTPResponse :=
  ⟨.httpNotFound, (get404Page req [] src).length, textHtml, get404Page req [] src, []⟩

section Branches

variable (env : Env) (errno : Errno) (req : HTTPRequest) (src : Bytes)

/-- A file that the second look-up does not find. -/
theorem processGetRequest_missing (hregular : (checkIfFile env errno req.mUri).1 = true)
    (e : Errno) (hstat : env.fs.stat env.cwd (cleanFilename (req.mUri.drop 1)) = .error e) :
    processGetRequest env errno req { mContentType := textPlain } src
      = .ok (notFound req src) := by
  unfold processGetRequest
  simp only [hregular, if_true, getFile, hstat, HTTPResponse.setBody, List.nil_append]
  rfl

/-- A file that both look-ups find, the second a node of any kind. -/
theorem processGetRequest_file (hregular : (checkIfFile env errno req.mUri).1 = true)
    (node : Node)
    (hstat : env.fs.stat env.cwd (cleanFilename (req.mUri.drop 1)) = .ok node) :
    ∃ contentType, (contentType = textPlain ∨ contentType = octetStream) ∧
      processGetRequest env errno req { mContentType := textPlain } src
        = .ok ⟨.httpOk, node.size, contentType, [], cleanFilename (req.mUri.drop 1)⟩ := by
  unfold processGetRequest
  simp only [hregular, if_true, getFile, hstat, reduceCtorEq, if_false]
  refine ⟨_, ?_, rfl⟩
  split
  · exact Or.inl rfl
  · exact Or.inr rfl

/-- A directory that cannot be listed. -/
theorem processGetRequest_unlisted (hother : (checkIfFile env errno req.mUri).1 = false)
    (e : Errno) (hlisting : getFileListing env (checkIfFile env errno req.mUri).2 req.mUri
      = .ok (none, e)) :
    processGetRequest env errno req { mContentType := textPlain } src
      = .ok (if e = enoent then notFound req src else ⟨.httpGenErr, 0, textPlain, [], []⟩) := by
  -- The page is not empty, so it is always set.
  have hpos := List.length_pos_iff.mpr (get404Page_ne_nil req src)
  unfold processGetRequest
  simp only [hother, Bool.false_eq_true, if_false, hlisting]
  split
  · simp only [HTTPResponse.setBody, List.nil_append]
    rfl
  · rfl

/-- A directory that is listed. -/
theorem processGetRequest_listed (hother : (checkIfFile env errno req.mUri).1 = false)
    (tree : List FSEntry) (e : Errno)
    (hlisting : getFileListing env (checkIfFile env errno req.mUri).2 req.mUri
      = .ok (some tree, e)) (page : Bytes)
    (hpage : buildRspHtml env [] req tree src = .ok (.httpOk, page)) :
    processGetRequest env errno req { mContentType := textPlain } src
      = .ok ⟨.httpOk, page.length, textHtml, page, []⟩ := by
  have hpos := List.length_pos_iff.mpr (buildRspHtml_eq_ok env req tree src _ page hpage).2
  unfold processGetRequest
  simp only [hother, Bool.false_eq_true, if_false, hlisting, hpage, if_pos hpos,
    HTTPResponse.setBody, List.nil_append]

/-- What a GET leaves, one constructor for each way it can go. -/
inductive Responds : HTTPResponse → Prop where
  | notFound : Responds (notFound req src)
  | file (node : Node) (contentType : Bytes)
      (hregular : (checkIfFile env errno req.mUri).1 = true)
      (hnode : env.fs.stat env.cwd (cleanFilename (req.mUri.drop 1)) = .ok node)
      (htype : contentType = textPlain ∨ contentType = octetStream) :
      Responds ⟨.httpOk, node.size, contentType, [], cleanFilename (req.mUri.drop 1)⟩
  | listing (page : Bytes) (hpage : page ≠ []) :
      Responds ⟨.httpOk, page.length, textHtml, page, []⟩
  | failed : Responds ⟨.httpGenErr, 0, textPlain, [], []⟩

/-- A GET that does not fault goes one of those ways. -/
theorem responds_of_get (rsp : HTTPResponse)
    (h : processGetRequest env errno req { mContentType := textPlain } src = .ok rsp) :
    Responds env errno req src rsp := by
  -- By the look-ups, in the order the request makes them.
  cases hregular : (checkIfFile env errno req.mUri).1 with
  | true =>
      cases hstat : env.fs.stat env.cwd (cleanFilename (req.mUri.drop 1)) with
      | error e =>
          rw [processGetRequest_missing env errno req src hregular e hstat] at h
          exact Except.ok.inj h ▸ .notFound
      | ok node =>
          rcases processGetRequest_file env errno req src hregular node hstat with
            ⟨contentType, htype, hfile⟩
          rw [hfile] at h
          exact Except.ok.inj h ▸ .file node contentType hregular hstat htype
  | false =>
      cases hlisting : getFileListing env (checkIfFile env errno req.mUri).2 req.mUri with
      | error e =>
          unfold processGetRequest at h
          simp only [hregular, Bool.false_eq_true, if_false, hlisting, reduceCtorEq] at h
      | ok listed =>
          rcases listed with ⟨_ | tree, e⟩
          · rw [processGetRequest_unlisted env errno req src hregular e hlisting] at h
            rw [← Except.ok.inj h]
            split
            · exact .notFound
            · exact .failed
          · cases hbuild : buildRspHtml env [] req tree src with
            | error f =>
                unfold processGetRequest at h
                simp only [hregular, Bool.false_eq_true, if_false, hlisting, hbuild,
                  reduceCtorEq] at h
            | ok built =>
                rcases built with ⟨status, page⟩
                rcases buildRspHtml_eq_ok env req tree src status page hbuild with ⟨rfl, hne⟩
                rw [processGetRequest_listed env errno req src hregular tree e hlisting page
                  hbuild] at h
                exact Except.ok.inj h ▸ .listing page hne

/-- The response to a GET is that of the two look-ups. -/
theorem prepareResponse_get (hget : req.mMethod = methodGet) :
    prepareResponse env errno req src
      = processGetRequest env errno req { mContentType := textPlain } src := by
  rw [prepareResponse]
  exact if_pos hget

/-- The response to any other request says so. -/
theorem prepareResponse_other (hget : req.mMethod ≠ methodGet) :
    prepareResponse env errno req src
      = .ok ⟨.httpUnsuppMethod, "Unsupported HTTP method".length, textPlain,
        "Unsupported HTTP method".toList, []⟩ := by
  rw [prepareResponse]
  exact if_neg hget

end Branches

/-- The parser takes every request. -/
theorem parse_fst (req : HTTPRequest) (lines : List Bytes) :
    (HTTPRequest.parse req lines).1 = true := by
  rw [HTTPRequest.parse]
  split <;> rfl

/-- Processing a request is preparing its response and sending it. -/
theorem processRequest_eq (fuel : Nat) :
    processRequest ndebug env answers fuel errno lines src
      = match prepareResponse env errno (HTTPRequest.parse {} lines).2 src with
        | .error e => .error e
        | .ok rsp => match sendHttpRsp ndebug env answers fuel {} rsp with
          | .error e => .error e
          | .ok (bytes, out) => .ok (some ⟨rsp, bytes, out, decide (rsp.mStatus = .httpOk)⟩) := by
  have hparsed : ¬ (HTTPRequest.parse {} lines).1 = false := by
    rw [parse_fst]
    exact Bool.noConfusion
  exact if_neg hparsed

end HttpFileSharing
