import HttpFileSharing.Theory.Answer
import HttpFileSharing.Theory.Delivery
import HttpFileSharing.Theory.Links
import HttpFileSharing.Theory.Visits

/-!
# What Ends the Server

One process serves everybody, so whatever ends a handler the hard way ends it for
all. There are four ways, and a request decides by itself which of them it takes: a
file that is found and cannot be opened, where closing the stream that is not there is
undefined; a listing that fails for another reason than that nothing is there, where an
assertion fails if it is compiled in; a listing under a URI whose page reads out of
range; and an update that takes a score out of the range of an `int`.

A server that finds its database goes on until the first visit of one of these kinds,
by a client that is not dropped and for which there is a worker, and ends there. That is
so as far as SQLite works, and as far as the tree of files goes: it has no links in it.

## Main definitions

* `Stops`: A result that ends the process.
* `HeadSent`: The head of a response goes out whole.
* `EndsFile`, `EndsListing`, `EndsGet`: What a GET ends the process by.
* `Serving.EndedBy`: What a visit ends the process by.

## Theorems

* `sendHttpRsp_stops`: What sending a response can end.
* `stops_file`, `stops_listing`: The two branches of a GET.
* `handleConnection_stops`: What a handler can end.
* `visit_error_iff`: What a visit can end.
* `ended_exact`: What a run of visits ends by.
-/

namespace HttpFileSharing

/-- A result that ends the process. -/
def Stops {α : Type} (r : Except Fault α) (e : Stop) : Prop :=
  ∃ fault, r = .error fault ∧ fault.stops = some e

/-- The head of a response goes out whole. -/
def HeadSent (answers : Answers) (fuel : Nat) (head : Bytes) : Prop :=
  ∃ ret out, sendWrapper answers fuel {} head = .ok (ret, out) ∧ ret ≠ -1

/-- The head of the response for a file. -/
def fileHead (name : Bytes) (size : Nat) : Bytes :=
  rspHead .httpOk (if isTextFile name = true then textPlain else octetStream) size

/-- A request for a file ends the process: the second look-up finds a node that cannot
    be opened, and the client has taken the head by then. -/
def EndsFile (env : Env) (answers : Answers) (fuel : Nat) (uri : Bytes) (e : Stop) : Prop :=
  ∃ node, env.fs.stat env.cwd (cleanFilename (uri.drop 1)) = .ok node ∧
    env.fs.fopen env.cwd (cleanFilename (uri.drop 1)) = none ∧
    HeadSent answers fuel (fileHead (cleanFilename (uri.drop 1)) node.size) ∧ e = .undefined

/-- A request for a directory ends the process: it cannot be listed, and `errno` is
    not that nothing is there, or its page cannot be built. -/
def EndsListing (ndebug : Bool) (env : Env) (errno : Errno) (uri : Bytes) (e : Stop) : Prop :=
  if pathMax ≤ (cookPath env uri).length then errno ≠ enoent ∧ ndebug = false ∧ e = .exited
  else match env.fs.opendir env.cwd (cookPath env uri) with
    | .error e' => e' ≠ enoent ∧ ndebug = false ∧ e = .exited
    | .ok _ => ¬ SafeUri uri ∧ e = .undefined

/-- What a GET ends the process by. -/
def EndsGet (ndebug : Bool) (env : Env) (answers : Answers) (fuel : Nat) (errno : Errno)
    (uri : Bytes) (e : Stop) : Prop :=
  match env.fs.stat env.cwd (cookPath env (cleanFilename uri)) with
  | .ok (.file _ _) => EndsFile env answers fuel uri e
  | .ok _ => EndsListing ndebug env errno uri e
  | .error e' => EndsListing ndebug env e' uri e

theorem stops_ok {α : Type} (a : α) (e : Stop) : ¬ Stops (.ok a) e := by
  rintro ⟨fault, hfault, _⟩
  exact absurd hfault (by simp only [reduceCtorEq, not_false_eq_true])

theorem stops_error {α : Type} (fault : Fault) (e : Stop) :
    Stops (.error fault : Except Fault α) e ↔ fault.stops = some e := by
  constructor
  · rintro ⟨fault', hfault, hstops⟩
    exact Except.error.inj hfault ▸ hstops
  · exact fun hstops => ⟨fault, rfl, hstops⟩

section Handler

variable (ndebug : Bool) (env : Env) (answers : Answers) (fuel : Nat)

/-- A file that is sent ends the process if it was not opened. -/
theorem sendFile_stops (out : Outbound) (opened : Option Stream) (size : Nat) (e : Stop) :
    Stops (TCPConnection.sendFile answers fuel out opened size) e ↔
      opened = none ∧ e = .undefined := by
  cases opened with
  | none =>
      rw [TCPConnection.sendFile, stops_error]
      exact ⟨fun h => ⟨rfl, (Option.some.inj h).symm⟩, fun h => congrArg some h.2.symm⟩
  | some stream =>
      refine iff_of_false ?_ (fun h => absurd h.1 (by simp only [reduceCtorEq, not_false_eq_true]))
      rintro ⟨fault, hfault, hstops⟩
      rw [sendFile_error answers fuel out stream size fault hfault] at hstops
      exact absurd hstops (by simp only [Fault.stops, reduceCtorEq, not_false_eq_true])

/-- What sending a response can end: it is the failure, with assertions compiled in, or
    it names a file that cannot be opened. -/
theorem sendHttpRsp_stops (rsp : HTTPResponse) (e : Stop) :
    Stops (sendHttpRsp ndebug env answers fuel {} rsp) e ↔
      if ndebug = false ∧ rsp.mStatus = .httpGenErr then e = .exited
      else HeadSent answers fuel (rsp.buildRsp []).2 ∧ rsp.mRspFilename ≠ [] ∧
        env.fs.fopen env.cwd rsp.mRspFilename = none ∧ e = .undefined := by
  unfold sendHttpRsp
  by_cases hassert : ndebug = false ∧ rsp.mStatus = .httpGenErr
  · simp only [if_pos hassert, stops_error]
    exact ⟨fun h => (Option.some.inj h).symm, fun h => congrArg some h.symm⟩
  simp only [if_neg hassert]
  cases hhead : sendWrapper answers fuel {} (rsp.buildRsp []).2 with
  | error fault =>
      -- The send loop has not ended.
      rw [sendWrapper_error answers _ fuel {} fault hhead, stops_error]
      refine iff_of_false (by simp only [Fault.stops, reduceCtorEq, not_false_eq_true]) ?_
      rintro ⟨⟨ret, out, hok, _⟩, _⟩
      rw [hhead] at hok
      exact absurd hok (by simp only [reduceCtorEq, not_false_eq_true])
  | ok sent =>
      rcases sent with ⟨ret, out⟩
      have hsent : HeadSent answers fuel (rsp.buildRsp []).2 ↔ ret ≠ -1 := by
        constructor
        · rintro ⟨ret', out', hok, hret⟩
          rw [hhead, Except.ok.injEq, Prod.mk.injEq] at hok
          exact hok.1 ▸ hret
        · exact fun hret => ⟨ret, out, hhead, hret⟩
      rw [hsent]
      by_cases hret : ret = -1
      · simp only [if_pos hret]
        exact iff_of_false (stops_ok _ e) (fun h => h.1 hret)
      simp only [if_neg hret]
      by_cases hname : rsp.mRspFilename ≠ []
      · simp only [if_pos hname]
        have hfile := sendFile_stops answers fuel out (env.fs.fopen env.cwd rsp.mRspFilename)
          rsp.mLen e
        rw [and_iff_right hret, and_iff_right hname, ← hfile]
        split
        · rename_i fault hfault
          rw [hfault, stops_error]
        · rename_i n out' hok
          rw [hok]
          exact iff_of_false (stops_ok _ e) (stops_ok _ e)
      · simp only [if_neg hname]
        exact iff_of_false (stops_ok _ e) (fun h => hname h.2.1)

variable (errno : Errno) (lines : List Bytes) (src : Bytes) (e : Stop)

/-- A response that is prepared ends the process where sending it does. -/
theorem processRequest_stops (rsp : HTTPResponse)
    (hrsp : prepareResponse env errno (HTTPRequest.parse {} lines).2 src = .ok rsp) :
    Stops (processRequest ndebug env answers fuel errno lines src) e ↔
      Stops (sendHttpRsp ndebug env answers fuel {} rsp) e := by
  simp only [processRequest_eq, hrsp]
  cases hsend : sendHttpRsp ndebug env answers fuel {} rsp with
  | error fault => simp only [stops_error]
  | ok sent => exact iff_of_false (stops_ok _ e) (stops_ok _ e)

/-- A page does not end the process. -/
theorem not_stops_page (status : HTTPStatus) (contentType body : Bytes)
    (hstatus : status ≠ .httpGenErr)
    (hrsp : prepareResponse env errno (HTTPRequest.parse {} lines).2 src
      = .ok ⟨status, body.length, contentType, body, []⟩) :
    ¬ Stops (processRequest ndebug env answers fuel errno lines src) e := by
  rw [processRequest_stops ndebug env answers fuel errno lines src e _ hrsp, sendHttpRsp_stops,
    if_neg (fun h => hstatus h.2)]
  exact fun h => h.2.1 rfl

/-- A request for a file. -/
theorem stops_file (req : HTTPRequest) (hreq : (HTTPRequest.parse {} lines).2 = req)
    (hget : req.mMethod = methodGet) (hregular : (checkIfFile env errno req.mUri).1 = true) :
    Stops (processRequest ndebug env answers fuel errno lines src) e ↔
      EndsFile env answers fuel req.mUri e := by
  have hprepare := prepareResponse_get env errno req src hget
  rw [EndsFile]
  cases hstat : env.fs.stat env.cwd (cleanFilename (req.mUri.drop 1)) with
  | error e' =>
      rw [processGetRequest_missing env errno req src hregular e' hstat, ← hreq] at hprepare
      refine iff_of_false (not_stops_page ndebug env answers fuel errno lines src e _ _ _
        HTTPStatus.noConfusion hprepare) ?_
      rintro ⟨node, hnode, _⟩
      exact absurd hnode (by simp only [reduceCtorEq, not_false_eq_true])
  | ok node =>
      have hfile : processGetRequest env errno req { mContentType := textPlain } src
          = .ok ⟨.httpOk, node.size, if isTextFile (cleanFilename (req.mUri.drop 1)) = true
              then textPlain else octetStream, [], cleanFilename (req.mUri.drop 1)⟩ := by
        unfold processGetRequest
        simp only [hregular, if_true, getFile, hstat, reduceCtorEq, if_false]
      have hname := ne_nil_of_stat env _ node hstat
      rw [hfile, ← hreq] at hprepare
      rw [processRequest_stops ndebug env answers fuel errno lines src e _ hprepare,
        sendHttpRsp_stops, if_neg (fun h => HTTPStatus.noConfusion h.2)]
      simp only [hreq, HTTPResponse.buildRsp, reduceCtorEq, if_false, hname, false_and,
        List.nil_append, List.append_nil]
      constructor
      · rintro ⟨hhead, _, hopen, he⟩
        exact ⟨node, rfl, hopen, hhead, he⟩
      · rintro ⟨node', hnode', hopen, hhead, he⟩
        rw [← Except.ok.inj hnode'] at hhead
        exact ⟨hhead, hname, hopen, he⟩

/-- A request whose listing fails. -/
theorem stops_unlisted (req : HTTPRequest) (hreq : (HTTPRequest.parse {} lines).2 = req)
    (hget : req.mMethod = methodGet) (hother : (checkIfFile env errno req.mUri).1 = false)
    (e' : Errno) (hlisting : getFileListing env (checkIfFile env errno req.mUri).2 req.mUri
      = .ok (none, e')) :
    Stops (processRequest ndebug env answers fuel errno lines src) e ↔
      e' ≠ enoent ∧ ndebug = false ∧ e = .exited := by
  have hprepare := prepareResponse_get env errno req src hget
  rw [processGetRequest_unlisted env errno req src hother e' hlisting, ← hreq] at hprepare
  by_cases he : e' = enoent
  · rw [if_pos he] at hprepare
    exact iff_of_false (not_stops_page ndebug env answers fuel errno lines src e _ _ _
      HTTPStatus.noConfusion hprepare) (fun h => h.1 he)
  · rw [if_neg he] at hprepare
    rw [processRequest_stops ndebug env answers fuel errno lines src e _ hprepare,
      sendHttpRsp_stops, and_iff_right he]
    by_cases hassert : ndebug = false
    · rw [if_pos ⟨hassert, rfl⟩, and_iff_right hassert]
    · rw [if_neg (fun h => hassert h.1)]
      exact iff_of_false (fun h => h.2.1 rfl) (fun h => hassert h.1)

/-- A request for anything but a file. -/
theorem stops_listing (hfit : NamesFit env.fs) (req : HTTPRequest)
    (hreq : (HTTPRequest.parse {} lines).2 = req) (hget : req.mMethod = methodGet)
    (hother : (checkIfFile env errno req.mUri).1 = false) :
    Stops (processRequest ndebug env answers fuel errno lines src) e ↔
      EndsListing ndebug env (checkIfFile env errno req.mUri).2 req.mUri e := by
  have hunlisted := stops_unlisted ndebug env answers fuel errno lines src e req hreq hget hother
  rw [EndsListing]
  by_cases hlong : pathMax ≤ (cookPath env req.mUri).length
  · rw [if_pos hlong]
    exact hunlisted _ (getFileListing_long env _ req.mUri hlong)
  rw [if_neg hlong]
  cases hopen : env.fs.opendir env.cwd (cookPath env req.mUri) with
  | error e' => exact hunlisted e' (getFileListing_error env _ req.mUri hlong e' hopen)
  | ok dir =>
      -- The directory is listed; what is left is the page.
      have hlisted : ∃ tree, getFileListing env (checkIfFile env errno req.mUri).2 req.mUri
          = .ok (some tree, (checkIfFile env errno req.mUri).2) :=
        ⟨_, getFileListing_eq env hfit _ req.mUri hlong dir.1 dir.2 hopen⟩
      rcases hlisted with ⟨tree, hlisting⟩
      have hlen := length_of_listing env _ _ req.mUri tree hlisting
      have hprepare := prepareResponse_get env errno req src hget
      by_cases hsafe : SafeUri req.mUri
      · rcases buildRspHtml_ok env [] req tree src hlen hsafe with ⟨page, hpage, _⟩
        rw [processGetRequest_listed env errno req src hother tree _ hlisting page hpage,
          ← hreq] at hprepare
        exact iff_of_false (not_stops_page ndebug env answers fuel errno lines src e _ _ _
          HTTPStatus.noConfusion hprepare) (fun h => h.1 hsafe)
      · have hfails := buildRspHtml_fails env [] req tree src hlen hsafe
        have hfault : prepareResponse env errno (HTTPRequest.parse {} lines).2 src
            = .error .outOfRange := by
          rw [hreq, hprepare, processGetRequest]
          simp only [hother, Bool.false_eq_true, if_false, hlisting, hfails]
        rw [processRequest_eq, hfault, stops_error, and_iff_right hsafe]
        exact ⟨fun h => (Option.some.inj h).symm, fun h => congrArg some h.symm⟩

/-- What a request can end: it is a GET, and its URI decides. -/
theorem processRequest_stops_iff (hfit : NamesFit env.fs) :
    Stops (processRequest ndebug env answers fuel errno lines src) e ↔
      (HTTPRequest.parse {} lines).2.mMethod = methodGet ∧
        EndsGet ndebug env answers fuel errno (HTTPRequest.parse {} lines).2.mUri e := by
  cases hreq : HTTPRequest.parse {} lines with
  | mk parsed req =>
      have hsnd : (HTTPRequest.parse {} lines).2 = req := by rw [hreq]
      by_cases hget : req.mMethod = methodGet
      · rw [and_iff_right hget, EndsGet]
        have hfile := stops_file ndebug env answers fuel errno lines src e req hsnd hget
        have hdir := stops_listing ndebug env answers fuel errno lines src e hfit req hsnd hget
        -- The first look-up picks the branch, and its error is the one left behind.
        rw [checkIfFile, isFile] at hfile hdir
        cases hstat : env.fs.stat env.cwd (cookPath env (cleanFilename req.mUri)) with
        | error e' =>
            rw [hstat] at hdir
            exact hdir rfl
        | ok node =>
            rw [hstat] at hfile hdir
            cases node with
            | file readable content => exact hfile rfl
            | dir readable size names => exact hdir rfl
            | other opens size => exact hdir rfl
      · have hprepare := prepareResponse_other env errno req src hget
        rw [← hsnd] at hprepare
        exact iff_of_false (not_stops_page ndebug env answers fuel errno lines src e _ _ _
          HTTPStatus.noConfusion hprepare) (fun h => hget h.1)

/-- What a handler can end. -/
theorem handleConnection_stops (hfit : NamesFit env.fs) (inbound : Inbound) :
    Stops (handleConnection ndebug env answers fuel errno inbound src) e ↔
      ∃ req, parsedRequest defaultBufferSize inbound = some req ∧ req.mMethod = methodGet ∧
        EndsGet ndebug env answers fuel errno req.mUri e := by
  rw [handleConnection, parsedRequest]
  cases receiveLines defaultBufferSize inbound with
  | none =>
      refine iff_of_false (stops_ok _ e) ?_
      rintro ⟨req, hreq, _⟩
      exact absurd hreq (by simp only [Option.map_none, reduceCtorEq, not_false_eq_true])
  | some lines =>
      simp only [processRequest_stops_iff ndebug env answers fuel errno lines src e hfit,
        Option.map_some, Option.some.injEq, exists_eq_left']

end Handler

section Life

variable {sq : Sqlite} {v : sq.View} (ndebug : Bool) (fuel : Nat)

/-- What a visit ends the process by: its client is not dropped and gets a worker, and it
    sends a GET that ends it, or gets a response that takes its score out of the range of
    an `int`. -/
def Serving.EndedBy (s : Serving sq) (u : Visit) (e : Stop) : Prop :=
  isIpaddrBlacklisted s.blacklistThreshold s.statsList u.src.ip = false ∧ 0 < s.idle ∧
    ((∃ req, parsedRequest defaultBufferSize u.inbound = some req ∧ req.mMethod = methodGet ∧
        EndsGet ndebug s.env u.answers fuel u.errno req.mUri e) ∨
      ∃ p, handleConnection ndebug s.env u.answers fuel u.errno u.inbound u.src.ip.text
          = .ok (some p) ∧
        ¬ IntRange (s.finalScore u.src.ip p.goodRequest) ∧ e = .undefined)

/-- What a visit can end. -/
theorem visit_error_iff (hworks : sq.Works v) (s : Serving sq) (hfit : NamesFit s.env.fs)
    (loc : v.File) (h : s.Backed v loc) (u : Visit) (e : Stop) :
    s.visit ndebug fuel u = .error e ↔ s.EndedBy ndebug fuel u e := by
  rw [visit_eq, Serving.EndedBy, ← handleConnection_stops ndebug s.env u.answers fuel u.errno
    u.src.ip.text e hfit u.inbound]
  cases hdrop : isIpaddrBlacklisted s.blacklistThreshold s.statsList u.src.ip with
  | true =>
      rw [if_pos rfl]
      exact iff_of_false (by simp only [reduceCtorEq, not_false_eq_true])
        (fun h => Bool.noConfusion h.1)
  | false =>
      rw [if_neg Bool.false_ne_true, and_iff_right rfl]
      by_cases hidle : s.idle = 0
      · rw [if_pos hidle]
        exact iff_of_false (by simp only [reduceCtorEq, not_false_eq_true])
          (fun h => h.1.ne' hidle)
      rw [if_neg hidle, and_iff_right (Nat.pos_of_ne_zero hidle)]
      cases handleConnection ndebug s.env u.answers fuel u.errno u.inbound u.src.ip.text with
      | error fault =>
          rw [stops_error]
          have hno : ¬ ∃ p, (.error fault : Except Fault (Option Processed)) = .ok (some p) ∧
              ¬ IntRange (s.finalScore u.src.ip p.goodRequest) ∧ e = .undefined := by
            rintro ⟨p, hp, _⟩
            exact absurd hp (by simp only [reduceCtorEq, not_false_eq_true])
          rw [or_iff_left hno]
          cases hstops : fault.stops with
          | none => simp only [hstops, reduceCtorEq]
          | some e' => simp only [hstops, Except.error.injEq, Option.some.injEq]
      | ok handled =>
          rw [or_iff_right (stops_ok _ e)]
          cases handled with
          | none =>
              refine iff_of_false (by simp only [reduceCtorEq, not_false_eq_true]) ?_
              rintro ⟨p, hp, _⟩
              exact absurd hp (by simp only [Except.ok.injEq, reduceCtorEq, not_false_eq_true])
          | some p =>
              simp only [Except.ok.injEq, Option.some.injEq, exists_eq_left']
              rcases updateIpAddrStats_backed s u.src.ip p.goodRequest hworks loc h
                (ip_nonEmpty u.src) with ⟨hover, hupdate⟩ | ⟨ret, s', hrange, hupdate, _⟩
              · simp only [hupdate, Except.error.injEq, and_iff_right hover]
                exact eq_comm
              · simp only [hupdate]
                exact iff_of_false (by simp only [reduceCtorEq, not_false_eq_true])
                  (fun h => h.1 hrange)

/-- What a run of visits can end: the first of them that ends the process. -/
theorem visits_error_iff (hworks : sq.Works v) (s : Serving sq) (hfit : NamesFit s.env.fs)
    (loc : v.File) (h : s.Backed v loc) (vs : List Visit) (e : Stop) :
    s.visits ndebug fuel vs = .error e ↔
      ∃ before u after os s', vs = before ++ u :: after ∧
        s.visits ndebug fuel before = .ok (os, s') ∧ s'.EndedBy ndebug fuel u e := by
  constructor
  · -- On the visits: the first one ends the process, or one of the others does.
    intro hrun
    induction vs generalizing s with
    | nil => exact absurd hrun (by simp only [Serving.visits, reduceCtorEq, not_false_eq_true])
    | cons u vs ih =>
        rw [Serving.visits] at hrun
        cases hone : s.visit ndebug fuel u with
        | error e' =>
            rw [hone] at hrun
            have hended := (visit_error_iff ndebug fuel hworks s hfit loc h u e').mp hone
            exact ⟨[], u, vs, [], s, rfl, rfl, Except.error.inj hrun ▸ hended⟩
        | ok one =>
            rcases one with ⟨o, s₁⟩
            have h₁ := visit_backed ndebug fuel hworks s u loc h o s₁ hone
            simp only [hone] at hrun
            cases hrest : s₁.visits ndebug fuel vs with
            | ok rest =>
                exact absurd hrun (by simp only [hrest, reduceCtorEq, not_false_eq_true])
            | error e' =>
                rw [hrest] at hrun
                rcases ih s₁ (h₁.env ▸ hfit) h₁.backed
                  (hrest.trans (congrArg _ (Except.error.inj hrun))) with
                  ⟨before, x, after, os, s', rfl, hbefore, hended⟩
                refine ⟨u :: before, x, after, (u.src, o) :: os, s', rfl, ?_, hended⟩
                simp only [Serving.visits, hone, hbefore]
  · rintro ⟨before, u, after, os, s', rfl, hbefore, hended⟩
    rcases visits_backed ndebug fuel hworks s before loc h os s' hbefore with ⟨h', henv, _⟩
    have hlast := (visit_error_iff ndebug fuel hworks s' (henv ▸ hfit) loc h' u e).mpr hended
    rw [visits_append, hbefore]
    simp only [Serving.visits, hlast]

/-- **What ends a server**: a server that finds its database goes through a run of
    visits unless one of them is by a client that is not dropped and gets a worker, and
    sends a GET that ends the process, or gets a response that takes its score out of the
    range of an `int`. It ends at the first such visit. -/
theorem ended_exact (hworks : sq.Works v) (fs : FileSystem) (hfit : NamesFit fs)
    (binds : Nat → Bool) (loguru : Bytes → Option Stop) (cwd : Location) (w : sq.World)
    (opts : List CliOpt) (argv0 : Bytes) (l : Launched sq)
    (h : serverMain fs binds loguru cwd w opts argv0 = .ok l)
    (hmade : ∀ loc, v.place cwd l.serving.dbFile = some (.file loc) → v.ServerMade w loc)
    (hplaces : v.place l.serving.env.cwd l.serving.dbFile = v.place cwd l.serving.dbFile)
    (vs : List Visit) (e : Stop) :
    l.serving.visits ndebug fuel vs = .error e ↔
      ∃ before u after os s, vs = before ++ u :: after ∧
        l.serving.visits ndebug fuel before = .ok (os, s) ∧ s.EndedBy ndebug fuel u e := by
  rcases launched_backed fs binds loguru cwd w opts argv0 l hworks h hmade hplaces with
    ⟨loc, _, hbacked⟩
  rcases launched fs binds loguru cwd w opts argv0 l hworks h hmade with ⟨_, _, _, hfs, _⟩
  exact visits_error_iff ndebug fuel hworks l.serving (hfs ▸ hfit) loc hbacked vs e

/-- A GET with nothing between its spaces. -/
def emptyVisit (src : InAddr) (answers : Answers) (errno : Errno) : Visit :=
  ⟨src, [some "GET  HTTP/1.1\r\n\r\n".toList], answers, errno⟩

/-- It ends a server that can open its directory, whoever sends it, is not dropped and
    gets a worker. -/
theorem endedBy_emptyVisit (s : Serving sq) (src : InAddr) (answers : Answers) (errno : Errno)
    (hdrop : isIpaddrBlacklisted s.blacklistThreshold s.statsList src.ip = false)
    (hidle : 0 < s.idle)
    (hshort : s.env.options.dir.length < pathMax) (dir : Location × List Bytes)
    (hopen : s.env.fs.opendir s.env.cwd s.env.options.dir = .ok dir) :
    s.EndedBy ndebug fuel (emptyVisit src answers errno) .undefined := by
  -- The request has no URI, and the served directory itself is looked up.
  have hreq : (parsedRequest defaultBufferSize (emptyVisit src answers errno).inbound).map
      (fun req => (req.mMethod, req.mUri)) = some (methodGet, []) := by
    rw [emptyVisit, parsedRequest,
      receiveLines_chunk defaultBufferSize _ [] (by decide) (by decide)]
    decide
  rcases Option.map_eq_some_iff.mp hreq with ⟨req, hparsed, hparts⟩
  rw [Prod.mk.injEq] at hparts
  refine ⟨hdrop, hidle, Or.inl ⟨req, hparsed, hparts.1, ?_⟩⟩
  have hcook : cookPath s.env [] = s.env.options.dir := List.append_nil _
  have hends : ∀ errno', EndsListing ndebug s.env errno' [] .undefined := by
    intro errno'
    rw [EndsListing, hcook, if_neg (Nat.not_le_of_lt hshort), hopen]
    exact ⟨by unfold SafeUri; decide, rfl⟩
  -- A directory that opens is no file.
  have hnames := names_of_opendir s.env _ dir.1 dir.2 hopen
  have hresolve := resolve_of_opendir s.env _ dir.1 dir.2 hopen
  rw [hparts.2, EndsGet, show cleanFilename [] = [] from rfl, hcook]
  split
  · rename_i readable content hstat
    rcases (s.env.fs.stat_eq_ok_iff _ _ _).mp hstat with ⟨loc, hloc, hnode⟩
    rw [hresolve, Except.ok.injEq] at hloc
    rw [hloc, hnode] at hnames
    exact absurd hnames (by simp only [Option.bind_some, Node.names?, reduceCtorEq,
      not_false_eq_true])
  · exact hends _
  · exact hends _

end Life

theorem shelves_namesFit : NamesFit shelves := by
  intro loc names hnames
  rw [((uniformNode_names twoNames 1 (.file true ['o', 'n', 'e']) rfl loc names).mp hnames).1]
  decide

/-- A client ends the server for another that was answered before it. -/
theorem ended_exact_emptyVisit :
    ∃ l, serverMain shelves (fun _ => true) (fun _ => none) [] freshDisk [.T ['0']] [] = .ok l ∧
      l.serving.visits true 5 [badVisit firstClient, emptyVisit otherClient (fun _ => none) 0,
        badVisit firstClient] = .error .undefined := by
  have hup : (serverMain shelves (fun _ => true) (fun _ => none) [] freshDisk [.T ['0']]
      []).toOption.map (fun l => (l.serving.env.cwd, l.serving.env.options.dir,
        (l.serving.visits true 5 [badVisit firstClient]).toOption.map (fun r =>
          (r.2.idle, isIpaddrBlacklisted r.2.blacklistThreshold r.2.statsList otherClient.ip))))
      = some ([], ['/'], some (5, false)) := by
    simp only [Serving.visits, visit_eq, handleConnection_badVisit]
    decide +kernel
  cases hmain : serverMain shelves (fun _ => true) (fun _ => none) [] freshDisk [.T ['0']] [] with
  | error e =>
      rw [hmain] at hup
      exact absurd hup (by simp only [Except.toOption, Option.map_none, reduceCtorEq,
        not_false_eq_true])
  | ok l =>
      rw [hmain] at hup
      have hparts := Prod.mk.inj (Option.some.inj hup)
      have hparts' := Prod.mk.inj hparts.2
      cases hrun : l.serving.visits true 5 [badVisit firstClient] with
      | error e =>
          rw [hrun] at hparts'
          exact absurd hparts'.2 (by simp only [Except.toOption, Option.map_none, reduceCtorEq,
            not_false_eq_true])
      | ok r =>
          rw [hrun] at hparts'
          have hlast := Prod.mk.inj (Option.some.inj hparts'.2)
          have hworks := storeEngine_works shelves
          have hplaces : (storeView shelves).place l.serving.env.cwd l.serving.dbFile
              = (storeView shelves).place [] l.serving.dbFile := by rw [hparts.1]
          have hmade := fun loc (_ : (storeView shelves).place [] l.serving.dbFile
            = some (.file loc)) => freshDisk_made loc
          rcases launched_backed shelves _ _ [] freshDisk _ [] l hworks hmain hmade hplaces with
            ⟨loc, _, hbacked⟩
          rcases launched shelves _ _ [] freshDisk _ [] l hworks hmain hmade with ⟨_, _, _, hfs, _⟩
          have henv := (visits_backed true 5 hworks l.serving _ loc hbacked r.1 r.2 hrun).2.1
          have hopen : r.2.env.fs.opendir r.2.env.cwd r.2.env.options.dir
              = .ok ([], twoNames.names) := by
            rw [henv, hfs, hparts.1, hparts'.1]
            decide
          have hshort : r.2.env.options.dir.length < pathMax := by
            rw [henv, hparts'.1]
            decide
          have hended := endedBy_emptyVisit true 5 r.2 otherClient (fun _ => none) 0 hlast.2
            (by rw [hlast.1]; decide) hshort _ hopen
          refine ⟨l, rfl, (ended_exact true 5 hworks shelves shelves_namesFit (fun _ => true)
            (fun _ => none) [] freshDisk [.T ['0']] [] l hmain hmade hplaces _ .undefined).mpr ?_⟩
          exact ⟨[badVisit firstClient], _, [badVisit firstClient], r.1, r.2, rfl, hrun, hended⟩

end HttpFileSharing
