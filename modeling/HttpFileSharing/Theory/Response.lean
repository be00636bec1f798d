import HttpFileSharing.Core.Server
import HttpFileSharing.Lib.HttpReader
import HttpFileSharing.Theory.Processing
import HttpFileSharing.Theory.Sending

/-!
# What a Client Reads

The responses the server sends are well framed: a client that cuts at the
first blank line and believes the length finds the status, the content type
and the body the server meant, and no byte after it.

A response comes in three forms (`Prepared`). A page carries its body and the
body's length, a file response carries a name and the size that `stat` gave
for it, and the third form is the failure that sends nothing. The head is made
of the status, the content type and the length alone. None of these comes from
the request or from the file system as text, so nothing a client or a file
name can say appears in it, and `readResponse_rspHead` reads it back for every
body.

## Main definitions

* `Prepared`: The forms of a response.
* `payload`: The body of a response.
* `Framed`: A reader gets the response back.

## Theorems

* `rspHead_append`: A framed response, line by line.
* `readResponse_rspHead`: A client reads back what was framed.
* `prepareResponse_prepared`: Every response is in one of the forms.
* `sendHttpRsp_page`, `sendHttpRsp_file`: What is on the wire.
* `framed_of_prepared`: A response that can be sent is framed.
* `processRequest_framed`, `prepared_of_processRequest`: Processing, and what
  was processed.
* `response_framing`: The framing law.
-/

namespace HttpFileSharing

section Head

/-- The status line. -/
def statusLine (status : HTTPStatus) : Bytes :=
  "HTTP/".toList ++ serverHttpVer ++ " ".toList ++ status.toString

theorem not_mem_decimal (n : Nat) (c : Char) (hc : c.isDigit = false) : c ∉ decimal n := by
  intro hmem
  rw [Nat.isDigit_of_mem_toDigits (by decide) (by decide) hmem] at hc
  exact absurd hc (by decide)

/-- The four fields of a head. -/
def rspFields (contentType : Bytes) (len : Nat) (hcr : '\r' ∉ contentType)
    (hlf : '\n' ∉ contentType) : List Field :=
  [⟨"Server".toList, serverInfo, by decide, by decide, by decide, by decide, by decide⟩,
    ⟨"Connection".toList, "close".toList, by decide, by decide, by decide, by decide, by decide⟩,
    ⟨"Content-type".toList, contentType, by decide, by decide, by decide, hcr, hlf⟩,
    ⟨"Content-Length".toList, decimal len, by decide, by decide, by decide,
      not_mem_decimal len '\r' (by decide), not_mem_decimal len '\n' (by decide)⟩]

/-- A framed response is a message of a status line and four fields. -/
theorem rspHead_append (status : HTTPStatus) (contentType : Bytes) (len : Nat) (body : Bytes)
    (hcr : '\r' ∉ contentType) (hlf : '\n' ∉ contentType) :
    rspHead status contentType len ++ body
      = renderMessage (statusLine status) (rspFields contentType len hcr hlf) body := by
  -- Each text of the head is a name, a colon, a space and a value.
  have hserver : "Server: ".toList = "Server".toList ++ [':', ' '] := by decide
  have hconnection : "Connection: close".toList
      = "Connection".toList ++ [':', ' '] ++ "close".toList := by decide
  have htype : "Content-type: ".toList = "Content-type".toList ++ [':', ' '] := by decide
  have hlength : "Content-Length: ".toList = "Content-Length".toList ++ [':', ' '] := by decide
  unfold rspHead renderMessage statusLine
  rw [hserver, hconnection, htype, hlength]
  simp only [rspFields, List.flatMap_cons, List.flatMap_nil, Field.text, lineEnd, crlf,
    List.append_assoc, List.cons_append, List.nil_append]

/-- A client reads back what was framed, whatever the body is. -/
theorem readResponse_rspHead (status : HTTPStatus) (contentType : Bytes) (len : Nat)
    (body : Bytes) (hstatus : status ≠ .httpGenErr) (hcr : '\r' ∉ contentType)
    (hlf : '\n' ∉ contentType) :
    readResponse (rspHead status contentType len ++ body)
      = some ⟨status.toInt, contentType, len, body⟩ := by
  rw [rspHead_append status contentType len body hcr hlf]
  refine readResponse_render _ _ body status.toInt len contentType ?_ ?_ ?_ rfl rfl
  · cases status <;> decide
  · cases status <;> decide
  · cases status with
    | httpGenErr => exact absurd rfl hstatus
    | httpOk | httpBadRequest | httpUnsuppMethod | httpNotFound => decide

end Head

/-- The forms of a response: a page, a file, or the failure. -/
inductive Prepared (env : Env) : HTTPResponse → Prop where
  | page (status : HTTPStatus) (contentType body : Bytes)
      (hstatus : status = .httpOk ∨ status = .httpNotFound ∨ status = .httpUnsuppMethod)
      (htype : contentType = textPlain ∨ contentType = textHtml) (hbody : body ≠ []) :
      Prepared env ⟨status, body.length, contentType, body, []⟩
  | file (name : Bytes) (node : Node) (contentType : Bytes)
      (hname : name ≠ []) (hnode : env.fs.stat env.cwd name = .ok node)
      (htype : contentType = textPlain ∨ contentType = octetStream) :
      Prepared env ⟨.httpOk, node.size, contentType, [], name⟩
  | failed : Prepared env ⟨.httpGenErr, 0, textPlain, [], []⟩

theorem prepared_notFound (env : Env) (req : HTTPRequest) (src : Bytes) :
    Prepared env (notFound req src) :=
  .page _ _ _ (Or.inr (Or.inl rfl)) (Or.inr rfl) (get404Page_ne_nil req src)

/-- Every response is in one of the forms. -/
theorem prepareResponse_prepared (env : Env) (errno : Errno) (req : HTTPRequest) (src : Bytes)
    (rsp : HTTPResponse) (h : prepareResponse env errno req src = .ok rsp) :
    Prepared env rsp := by
  by_cases hget : req.mMethod = methodGet
  · rw [prepareResponse_get env errno req src hget] at h
    cases responds_of_get env errno req src rsp h with
    | notFound => exact prepared_notFound env req src
    | file node contentType _ hnode htype =>
        exact .file _ node contentType (ne_nil_of_stat env _ node hnode) hnode htype
    | listing page hpage => exact .page _ _ _ (Or.inl rfl) (Or.inr rfl) hpage
    | failed => exact .failed
  · -- What is not a GET gets the fixed text.
    rw [prepareResponse_other env errno req src hget] at h
    rw [← Except.ok.inj h]
    exact .page _ _ _ (Or.inr (Or.inr rfl)) (Or.inl rfl) (by decide)

section Sent

variable (ndebug : Bool) (env : Env) (answers : Answers)

/-- A page is its head and its body on the wire. -/
theorem sendHttpRsp_page (hsent : AllSent answers) (status : HTTPStatus)
    (contentType body : Bytes) (hstatus : status ≠ .httpGenErr) (htype : contentType ≠ [])
    (hbody : body ≠ []) (fuel : Nat)
    (hfuel : (rspHead status contentType body.length ++ body).length < fuel) :
    ∃ ret out, sendHttpRsp ndebug env answers fuel {}
        ⟨status, body.length, contentType, body, []⟩ = .ok (ret, out) ∧
      out.wire = rspHead status contentType body.length ++ body := by
  have hlen : body.length ≠ 0 := fun h => hbody (List.length_eq_zero_iff.mp h)
  rcases sendWrapper_spec answers hsent fuel {} _ hfuel with ⟨asked, hsend⟩
  refine ⟨(rspHead status contentType body.length ++ body).length, { asked := asked, wire := _ },
    ?_, rfl⟩
  -- None of the tests of `build_rsp` holds, and no file follows.
  unfold sendHttpRsp
  simp only [HTTPResponse.buildRsp, hlen, htype, hbody, or_self, and_false,
    if_false, List.nil_append, hstatus, hsend, ne_eq, not_true_eq_false]
  exact ite_self _

/-- A file is its head and its first bytes on the wire. -/
theorem sendHttpRsp_file (hsent : AllSent answers) (status : HTTPStatus)
    (contentType name : Bytes) (size : Nat) (hstatus : status ≠ .httpGenErr) (hname : name ≠ [])
    (stream : Stream) (hopen : env.fs.fopen env.cwd name = some stream)
    (hsize : size ≤ stream.bytes.length) (fuel : Nat)
    (hfuel : (rspHead status contentType size).length + size < fuel) :
    ∃ ret out, sendHttpRsp ndebug env answers fuel {} ⟨status, size, contentType, [], name⟩
        = .ok (ret, out) ∧
      out.wire = rspHead status contentType size ++ stream.bytes.take size := by
  rcases sendWrapper_spec answers hsent fuel {} (rspHead status contentType size) (by omega) with
    ⟨asked, hhead⟩
  rcases sendFile_spec answers hsent fuel
    { asked := asked, wire := rspHead status contentType size } stream size hsize (by omega) with
    ⟨asked', hfile⟩
  refine ⟨(rspHead status contentType size).length + size, {
    asked := asked'
    wire := rspHead status contentType size ++ stream.bytes.take size
    streams := [.fopen, .fclose] }, ?_, rfl⟩
  -- The count of the head is not taken for an error.
  have hcount : ((rspHead status contentType size).length : Int) ≠ -1 := by omega
  unfold sendHttpRsp
  simp only [HTTPResponse.buildRsp, hname, false_and, and_false, if_false,
    List.nil_append, List.append_nil, hstatus, hhead, hcount, ne_eq, not_false_eq_true, if_true,
    hopen, hfile]

end Sent

/-- The body of a response: the one it carries, or the first bytes of the
    file it names. -/
def payload (env : Env) (rsp : HTTPResponse) : Bytes :=
  if rsp.mRspFilename = [] then rsp.mBody
  else match env.fs.fopen env.cwd rsp.mRspFilename with
    | some stream => stream.bytes.take rsp.mLen
    | none => []

/-- What is on the wire is the response: a head made of its status, type and
    length, from which a reader gets these back, and a body of that length. -/
structure Framed (env : Env) (rsp : HTTPResponse) (wire : Bytes) : Prop where
  wire_eq : wire = rspHead rsp.mStatus rsp.mContentType rsp.mLen ++ payload env rsp
  length_eq : (payload env rsp).length = rsp.mLen
  read_eq : readResponse wire
    = some ⟨rsp.mStatus.toInt, rsp.mContentType, rsp.mLen, payload env rsp⟩

section Framing

variable (ndebug : Bool) (env : Env) (answers : Answers) (errno : Errno) (lines : List Bytes)
  (src : Bytes)

/-- No content type breaks a line, and none is empty. -/
theorem contentType_spec (contentType : Bytes)
    (h : contentType ∈ [textPlain, textHtml, octetStream]) :
    contentType ≠ [] ∧ '\r' ∉ contentType ∧ '\n' ∉ contentType := by
  simp only [List.mem_cons, List.not_mem_nil, or_false] at h
  rcases h with rfl | rfl | rfl
  · decide
  · decide
  · decide

theorem Prepared.contentType (rsp : HTTPResponse) (h : Prepared env rsp) :
    rsp.mContentType ∈ [textPlain, textHtml, octetStream] := by
  simp only [List.mem_cons, List.not_mem_nil, or_false]
  cases h with
  | page status contentType body hstatus htype hbody =>
      exact htype.imp id Or.inl
  | file name node contentType hname hnode htype =>
      exact htype.imp id Or.inr
  | failed => exact Or.inl rfl

/-- A response other than the failure is framed once it is sent, if the file
    it names has the bytes it promises. -/
theorem framed_of_prepared (hsent : AllSent answers) (rsp : HTTPResponse)
    (hrsp : Prepared env rsp) (hstatus : rsp.mStatus ≠ .httpGenErr)
    (hfile : rsp.mRspFilename ≠ [] → ∃ stream,
      env.fs.fopen env.cwd rsp.mRspFilename = some stream ∧ rsp.mLen ≤ stream.bytes.length) :
    ∃ n, ∀ fuel, n ≤ fuel → ∃ ret out,
      sendHttpRsp ndebug env answers fuel {} rsp = .ok (ret, out) ∧ Framed env rsp out.wire := by
  -- What is on the wire says the rest.
  have hread : ∀ wire, wire = rspHead rsp.mStatus rsp.mContentType rsp.mLen ++ payload env rsp →
      (payload env rsp).length = rsp.mLen → Framed env rsp wire := by
    intro wire hwire hlen
    rcases contentType_spec _ hrsp.contentType with ⟨_, hcr, hlf⟩
    refine ⟨hwire, hlen, ?_⟩
    rw [hwire]
    exact readResponse_rspHead rsp.mStatus rsp.mContentType rsp.mLen _ hstatus hcr hlf
  have htype := (contentType_spec _ hrsp.contentType).1
  cases hrsp with
  | page status contentType body hok _ hbody =>
      refine ⟨(rspHead status contentType body.length ++ body).length + 1, fun fuel hfuel => ?_⟩
      rcases sendHttpRsp_page ndebug env answers hsent status contentType body hstatus htype hbody
        fuel hfuel with ⟨ret, out, hsend, hwire⟩
      exact ⟨ret, out, hsend, hread out.wire hwire rfl⟩
  | file name node contentType hname hnode _ =>
      rcases hfile hname with ⟨stream, hopen, hsize⟩
      -- The body is what the stream gives.
      have hpayload : payload env ⟨.httpOk, node.size, contentType, [], name⟩
          = stream.bytes.take node.size := by
        rw [payload, if_neg hname]
        simp only [hopen]
      refine ⟨(rspHead .httpOk contentType node.size).length + node.size + 1,
        fun fuel hfuel => ?_⟩
      rcases sendHttpRsp_file ndebug env answers hsent .httpOk contentType name node.size hstatus
        hname stream hopen hsize fuel hfuel with ⟨ret, out, hsend, hwire⟩
      refine ⟨ret, out, hsend, hread out.wire (by rw [hpayload]; exact hwire) ?_⟩
      rw [hpayload, List.length_take]
      exact Nat.min_eq_left hsize
  | failed => exact absurd rfl hstatus

/-- A request whose response can be sent is processed, and the response is
    framed. -/
theorem processRequest_framed (hsent : AllSent answers) (rsp : HTTPResponse)
    (hrsp : prepareResponse env errno (HTTPRequest.parse {} lines).2 src = .ok rsp)
    (hstatus : rsp.mStatus ≠ .httpGenErr)
    (hfile : rsp.mRspFilename ≠ [] → ∃ stream,
      env.fs.fopen env.cwd rsp.mRspFilename = some stream ∧ rsp.mLen ≤ stream.bytes.length) :
    ∃ n, ∀ fuel, n ≤ fuel → ∃ p,
      processRequest ndebug env answers fuel errno lines src = .ok (some p) ∧
      p.rsp = rsp ∧ Framed env rsp p.out.wire := by
  rcases framed_of_prepared ndebug env answers hsent rsp
    (prepareResponse_prepared env errno _ src rsp hrsp) hstatus hfile with ⟨n, hframed⟩
  refine ⟨n, fun fuel hfuel => ?_⟩
  rcases hframed fuel hfuel with ⟨ret, out, hsend, hwire⟩
  refine ⟨⟨rsp, ret, out, decide (rsp.mStatus = .httpOk)⟩, ?_, rfl, hwire⟩
  rw [processRequest_eq, hrsp]
  simp only [hsend]

/-- A request that is processed had its response prepared and sent. -/
theorem prepared_of_processRequest (fuel : Nat) (p : Processed)
    (h : processRequest ndebug env answers fuel errno lines src = .ok (some p)) :
    prepareResponse env errno (HTTPRequest.parse {} lines).2 src = .ok p.rsp ∧
      sendHttpRsp ndebug env answers fuel {} p.rsp = .ok (p.bytes, p.out) := by
  rw [processRequest_eq] at h
  cases hrsp : prepareResponse env errno (HTTPRequest.parse {} lines).2 src with
  | error e => simp only [hrsp, reduceCtorEq] at h
  | ok rsp =>
      cases hsend : sendHttpRsp ndebug env answers fuel {} rsp with
      | error e => simp only [hrsp, hsend, reduceCtorEq] at h
      | ok result =>
          simp only [hrsp, hsend, Except.ok.injEq, Option.some.injEq] at h
          rw [← h]
          exact ⟨rfl, hsend⟩

/-- The length promised for a regular file is its own. -/
theorem size_of_regular (path content : Bytes) (node : Node)
    (hnode : env.fs.stat env.cwd path = .ok node)
    (hopen : env.fs.fopen env.cwd path = some (.regular content)) :
    node.size = content.length := by
  rw [FileSystem.fopen, hnode] at hopen
  split at hopen
  · rename_i content' heq
    rw [Except.ok.inj heq, Node.size, Stream.regular.inj (Option.some.inj hopen)]
  · exact absurd hopen (by simp only [Option.some.injEq, reduceCtorEq, not_false_eq_true])
  · exact absurd hopen (by simp only [Option.some.injEq, reduceCtorEq, not_false_eq_true])
  · exact absurd hopen (by simp only [reduceCtorEq, not_false_eq_true])

/-- Every response that is sent is framed, whatever the request says, the
    files hold and the entries are called: nothing but the status, one of
    three content types and the length is in its head. -/
theorem response_framing (hsent : AllSent answers) (rsp : HTTPResponse)
    (hrsp : prepareResponse env errno (HTTPRequest.parse {} lines).2 src = .ok rsp)
    (hstatus : rsp.mStatus ≠ .httpGenErr)
    (hfile : rsp.mRspFilename ≠ [] →
      ∃ content, env.fs.fopen env.cwd rsp.mRspFilename = some (.regular content)) :
    rsp.mContentType ∈ [textPlain, textHtml, octetStream] ∧
      ∃ n, ∀ fuel, n ≤ fuel → ∃ p,
        processRequest ndebug env answers fuel errno lines src = .ok (some p) ∧
        p.rsp = rsp ∧ Framed env rsp p.out.wire := by
  have hprepared := prepareResponse_prepared env errno _ src rsp hrsp
  -- A file that can be read has the bytes `stat` counted.
  have hstream : rsp.mRspFilename ≠ [] → ∃ stream,
      env.fs.fopen env.cwd rsp.mRspFilename = some stream ∧ rsp.mLen ≤ stream.bytes.length := by
    intro hname
    rcases hfile hname with ⟨content, hopen⟩
    refine ⟨_, hopen, ?_⟩
    cases hprepared with
    | page | failed => exact absurd rfl hname
    | file name node contentType _ hnode _ =>
        exact Nat.le_of_eq (size_of_regular env name content node hnode hopen)
  exact ⟨hprepared.contentType,
    processRequest_framed ndebug env answers errno lines src hsent rsp hrsp hstatus hstream⟩

end Framing

/-- A file, sent a byte at a time. -/
theorem response_framing_file :
    textPlain ∈ [textPlain, textHtml, octetStream] ∧
      ∃ n, ∀ fuel, n ≤ fuel → ∃ p,
        processRequest true sampleEnv (fun _ => some 1) fuel 0 ["GET /x HTTP/1.0\r\n".toList] []
          = .ok (some p) ∧
        p.rsp = ⟨.httpOk, 2, textPlain, [], ['x']⟩ ∧
        Framed sampleEnv ⟨.httpOk, 2, textPlain, [], ['x']⟩ p.out.wire :=
  response_framing true sampleEnv (fun _ => some 1) 0 ["GET /x HTTP/1.0\r\n".toList] []
    (fun _ => ⟨0, rfl⟩) ⟨.httpOk, 2, textPlain, [], ['x']⟩ (by decide) (by decide)
    (fun _ => ⟨['a', 'b'], by decide⟩)

end HttpFileSharing
