import HttpFileSharing.Theory.Delivery
import HttpFileSharing.Theory.Response

/-!
# Downloads That Are Cut Short

What a client can tell from the bytes it got when sending went wrong on the way.
The head of a response promises a length, and `send` and `sendfile` may take any
part of what they are given or fail at any call, in the head or in the body.

The bytes on the wire are always a leading part of the whole response. So a
reader that finds the head finds the right status, type and length, and what it
has of the body is a leading part of the right one. A client that compares the
length it was promised with what it got never takes a part for the whole.

## Main definitions

* `wholeRsp`: The bytes of a whole response.
* `Sendable`: A response whose body can be sent.
* `TakenFor`: What a reader of the bytes on the wire takes them for.

## Theorems

* `sendHttpRsp_prefix`: What is sent is a leading part of the response.
* `takenFor_of_isPrefix`: What a reader makes of such a part.
* `complete_download`: A response that looks complete is.
-/

namespace HttpFileSharing

/-- The bytes of a response that is sent to its end. The failure has none. -/
def wholeRsp (env : Env) (rsp : HTTPResponse) : Bytes :=
  if rsp.mStatus = .httpGenErr then []
  else rspHead rsp.mStatus rsp.mContentType rsp.mLen ++ payload env rsp

/-- A response whose body can be sent: it carries it, or names a regular file. -/
def Sendable (env : Env) (rsp : HTTPResponse) : Prop :=
  rsp.mRspFilename = [] ∨ ∃ content, env.fs.fopen env.cwd rsp.mRspFilename = some (.regular content)

/-- What a reader finds on the wire is the status, type and length of the
    response and a leading part of its body, which is all of it if it has the
    length that was promised. All of a body that can be sent has that length. -/
structure TakenFor (env : Env) (rsp : HTTPResponse) (r : Reading) : Prop where
  head : r.status = rsp.mStatus.toInt ∧ r.contentType = rsp.mContentType ∧ r.length = rsp.mLen
  part : r.body <+: payload env rsp
  whole : r.body.length = r.length → r.body = payload env rsp
  promised : Sendable env rsp → r.body = payload env rsp → r.body.length = r.length

section Parts

variable (answers : Answers)

/-- A buffer that is sent is on the wire up to some point. -/
theorem sendWrapper_part (fuel : Nat) (out : Outbound) (buffer : Bytes) (ret : Int)
    (out' : Outbound) (h : sendWrapper answers fuel out buffer = .ok (ret, out')) :
    ∃ sent, sent <+: buffer ∧ out'.wire = out.wire ++ sent ∧
      (ret ≠ -1 → sent = buffer) := by
  have hdelivers := sendLoop_delivers answers buffer fuel out 0 buffer.length (Nat.zero_add _) ret
    out' h
  by_cases hret : ret = -1
  · rcases hdelivers.2 hret with ⟨sent, hsent, hwire⟩
    exact ⟨sent, hsent, hwire, fun h => absurd hret h⟩
  · exact ⟨buffer, List.prefix_refl _, (hdelivers.1 hret).2, fun _ => rfl⟩

/-- A file that is sent is on the wire up to some point. -/
theorem sendFile_part (fuel : Nat) (out : Outbound) (stream : Stream) (size : Nat)
    (hsize : stream = .special ∨ size ≤ stream.bytes.length) (ret : Int) (out' : Outbound)
    (h : TCPConnection.sendFile answers fuel out (some stream) size = .ok (ret, out')) :
    ∃ sent, sent <+: stream.bytes.take size ∧ out'.wire = out.wire ++ sent := by
  cases stream with
  | special =>
      refine ⟨[], List.nil_prefix, ?_⟩
      rw [List.append_nil]
      cases size with
      | succ size => exact sendFile_short answers fuel out (size + 1) (Nat.succ_pos size) _ h
      | zero =>
          -- Nothing is asked for, and the loop is over at once.
          rw [TCPConnection.sendFile] at h
          cases fuel with
          | zero => exact absurd h (by simp only [sendFileLoop, reduceCtorEq, not_false_eq_true])
          | succ fuel =>
              simp only [sendFileLoop, Nat.lt_irrefl, if_false, Except.ok.injEq,
                Prod.mk.injEq] at h
              rw [← h.2]
  | regular content =>
      have hle : size ≤ content.length := hsize.elim (fun h => absurd h (by
        simp only [reduceCtorEq, not_false_eq_true])) id
      have hlen : (content.take size).length = size := by
        rw [List.length_take]
        omega
      rw [TCPConnection.sendFile] at h
      simp only [sendFileLoop_eq_sendLoop answers content size hle fuel _ 0 size
        (Nat.zero_add _)] at h
      split at h
      · exact absurd h (by simp only [reduceCtorEq, not_false_eq_true])
      · rename_i ret' sent hloop
        rw [Except.ok.injEq, Prod.mk.injEq] at h
        have hdelivers := sendLoop_delivers answers (content.take size) fuel _ 0 size
          (by omega) ret' sent hloop
        rw [List.drop_zero] at hdelivers
        rw [← h.2]
        by_cases hret : ret' = -1
        · exact hdelivers.2 hret
        · exact ⟨_, List.prefix_refl _, (hdelivers.1 hret).2⟩

end Parts

section Whole

variable (ndebug : Bool) (env : Env) (answers : Answers) (errno : Errno) (lines : List Bytes)
  (src : Bytes)

/-- A file that was found has the bytes that are promised of it, if it is one
    that can be sent at all. -/
theorem size_of_stream (name : Bytes) (node : Node)
    (hnode : env.fs.stat env.cwd name = .ok node) (stream : Stream)
    (hopen : env.fs.fopen env.cwd name = some stream) :
    stream = .special ∨ node.size = stream.bytes.length := by
  cases stream with
  | special => exact Or.inl rfl
  | regular content => exact Or.inr (size_of_regular env name content node hnode hopen)

/-- No more is sent behind a head than it promises. -/
theorem length_payload_le (rsp : HTTPResponse) (hrsp : Prepared env rsp) :
    (payload env rsp).length ≤ rsp.mLen := by
  rw [payload]
  cases hrsp with
  | page => exact Nat.le_refl _
  | failed => exact Nat.le_refl _
  | file name node contentType hname hnode htype =>
      rw [if_neg hname]
      split
      · exact List.length_take_le _ _
      · exact Nat.zero_le _

/-- What can be sent is as long as it is promised to be. -/
theorem length_payload_of_sendable (rsp : HTTPResponse) (hrsp : Prepared env rsp)
    (hsend : Sendable env rsp) : (payload env rsp).length = rsp.mLen := by
  rw [payload]
  cases hrsp with
  | page => rfl
  | failed => rfl
  | file name node contentType hname hnode htype =>
      rcases hsend with hpage | ⟨content, hopen⟩
      · exact absurd hpage hname
      · have hsize := size_of_regular env name content node hnode hopen
        rw [if_neg hname]
        simp only [hopen, Stream.bytes, hsize, List.take_length]

/-- What is sent of a response is a leading part of it. -/
theorem sendHttpRsp_prefix (fuel : Nat) (rsp : HTTPResponse) (hrsp : Prepared env rsp) (ret : Int)
    (out : Outbound) (h : sendHttpRsp ndebug env answers fuel {} rsp = .ok (ret, out)) :
    out.wire <+: wholeRsp env rsp := by
  -- What `build_rsp` writes is the part of the response that comes before a file.
  have hfront : (rsp.buildRsp []).2 <+: wholeRsp env rsp ∧
      (rsp.mRspFilename ≠ [] → (rsp.buildRsp []).2
        = rspHead rsp.mStatus rsp.mContentType rsp.mLen) := by
    cases hrsp with
    | page status contentType body hstatus htype hbody =>
        have hok : status ≠ .httpGenErr := by
          rintro rfl
          exact absurd hstatus (by decide)
        refine ⟨?_, fun hname => absurd rfl hname⟩
        rw [HTTPResponse.buildRsp, if_neg hok, wholeRsp, if_neg hok]
        split
        · exact List.nil_prefix
        · exact List.prefix_refl _
    | file name node contentType hname hnode htype =>
        have hwrites : (HTTPResponse.buildRsp ⟨.httpOk, node.size, contentType, [], name⟩ []).2
            = rspHead .httpOk contentType node.size := by
          rw [HTTPResponse.buildRsp, if_neg HTTPStatus.noConfusion, if_neg (fun h => hname h.1)]
          exact List.append_nil _
        exact ⟨hwrites ▸ List.prefix_append _ _, fun _ => hwrites⟩
    | failed => exact ⟨List.nil_prefix, fun hname => absurd rfl hname⟩
  unfold sendHttpRsp at h
  simp only at h
  split at h
  · exact absurd h (by simp only [reduceCtorEq, not_false_eq_true])
  · cases hhead : sendWrapper answers fuel {} (rsp.buildRsp []).2 with
    | error e => simp only [hhead, reduceCtorEq] at h
    | ok sent =>
        rcases sent with ⟨n, next⟩
        rcases sendWrapper_part answers fuel {} _ n next hhead with ⟨part, hpart, hwire, hall⟩
        rw [List.nil_append] at hwire
        simp only [hhead] at h
        split at h
        · -- The head was not sent to its end.
          rw [Except.ok.injEq, Prod.mk.injEq] at h
          rw [← h.2, hwire]
          exact hpart.trans hfront.1
        · rename_i hn
          split at h
          · rename_i hname
            cases hopen : env.fs.fopen env.cwd rsp.mRspFilename with
            | none => simp only [hopen, TCPConnection.sendFile, reduceCtorEq] at h
            | some stream =>
                cases hfile : TCPConnection.sendFile answers fuel next (some stream) rsp.mLen with
                | error e => simp only [hopen, hfile, reduceCtorEq] at h
                | ok tail =>
                    simp only [hopen, hfile, Except.ok.injEq, Prod.mk.injEq] at h
                    have hsize : stream = .special ∨ rsp.mLen ≤ stream.bytes.length := by
                      cases hrsp with
                      | page | failed => exact absurd rfl hname
                      | file name node contentType _ hnode _ =>
                          exact (size_of_stream env name node hnode stream hopen).imp id
                            Nat.le_of_eq
                    rcases sendFile_part answers fuel next stream rsp.mLen hsize tail.1 tail.2
                      hfile with ⟨more, hmore, hnext⟩
                    have hok : rsp.mStatus ≠ .httpGenErr := by
                      cases hrsp with
                      | page | failed => exact absurd rfl hname
                      | file => exact HTTPStatus.noConfusion
                    rw [← h.2, hnext, hwire, hall hn, hfront.2 hname, wholeRsp, if_neg hok,
                      payload, if_neg hname, hopen]
                    exact (List.prefix_append_right_inj _).mpr hmore
          · rw [Except.ok.injEq, Prod.mk.injEq] at h
            rw [← h.2, hwire]
            exact hpart.trans hfront.1

/-- What a reader makes of a leading part of a response: its head, a leading
    part of its body, and the whole response if the body has the length that was
    promised. -/
theorem takenFor_of_isPrefix (rsp : HTTPResponse) (hrsp : Prepared env rsp) (wire : Bytes)
    (hpre : wire <+: wholeRsp env rsp) (r : Reading) (hread : readResponse wire = some r) :
    rsp.mStatus ≠ .httpGenErr ∧ TakenFor env rsp r ∧
      (r.body.length = r.length → wire = wholeRsp env rsp) := by
  rcases hpre with ⟨rest, hrest⟩
  have hmore := readResponse_extend wire rest r hread
  rw [hrest] at hmore
  by_cases hok : rsp.mStatus = .httpGenErr
  · -- The failure has no head to be found.
    rw [wholeRsp, if_pos hok] at hmore
    exact absurd hmore (by simp only [readResponse, splitFirst, reduceCtorEq, not_false_eq_true])
  rcases contentType_spec _ hrsp.contentType with ⟨_, hcr, hlf⟩
  have hwhole : wholeRsp env rsp
      = rspHead rsp.mStatus rsp.mContentType rsp.mLen ++ payload env rsp := if_neg hok
  rw [hwhole, readResponse_rspHead rsp.mStatus rsp.mContentType rsp.mLen _ hok hcr hlf,
    Option.some.injEq, Reading.mk.injEq] at hmore
  rcases hmore with ⟨hstatus, htype, hlen, hbody⟩
  -- A body is never longer than what was promised.
  have hbound : (payload env rsp).length ≤ rsp.mLen := length_payload_le env rsp hrsp
  have hcut : r.body.length = r.length → rest = [] := by
    intro hfull
    have hsum := congrArg List.length hbody
    rw [List.length_append] at hsum
    exact List.length_eq_zero_iff.mp (by omega)
  refine ⟨hok, ⟨⟨hstatus.symm, htype.symm, hlen.symm⟩, ⟨rest, hbody.symm⟩, fun hfull => ?_,
    fun hsend hall => ?_⟩, fun hfull => ?_⟩
  · rw [hbody, hcut hfull, List.append_nil]
  · rw [hall, length_payload_of_sendable env rsp hrsp hsend, hlen]
  · rw [← hrest, hcut hfull, List.append_nil]

/-- What a client gets of a response is never taken for another one: however
    much each call sent and wherever sending failed, the bytes on the wire are a
    leading part of the whole response, a reader that finds the head in them
    finds the status, type and length of the response, and a body of the length
    that was promised is the right one. The right one has that length, but for a
    file that cannot be sent, of which nothing comes. -/
theorem complete_download (fuel : Nat) (p : Processed)
    (h : processRequest ndebug env answers fuel errno lines src = .ok (some p)) :
    p.out.wire <+: wholeRsp env p.rsp ∧
      ∀ r, readResponse p.out.wire = some r →
        TakenFor env p.rsp r ∧ (r.body.length = r.length → p.out.wire = wholeRsp env p.rsp) := by
  rcases prepared_of_processRequest ndebug env answers errno lines src fuel p h with
    ⟨hprepare, hsend⟩
  have hprepared := prepareResponse_prepared env errno _ src p.rsp hprepare
  have hpre := sendHttpRsp_prefix ndebug env answers fuel p.rsp hprepared p.bytes p.out hsend
  exact ⟨hpre, fun r hread =>
    (takenFor_of_isPrefix env p.rsp hprepared p.out.wire hpre r hread).2⟩

end Whole

/-- A send that fails after the first byte of a file. -/
def failsAtThird : Answers := fun i => if i = 0 then some 200 else if i = 1 then some 1 else none

/-- What is left of a file of two bytes. -/
def halfSent : Processed where
  rsp := fileRsp
  bytes := 110
  out := ⟨[(0, 111), (0, 2), (1, 1)], rspHead .httpOk textPlain 2 ++ ['a'], [.fopen, .fclose]⟩
  goodRequest := true

theorem complete_download_cut :
    halfSent.out.wire <+: wholeRsp sampleEnv fileRsp ∧
      ∀ r, readResponse halfSent.out.wire = some r → TakenFor sampleEnv fileRsp r ∧
        (r.body.length = r.length → halfSent.out.wire = wholeRsp sampleEnv fileRsp) := by
  have hprepare : prepareResponse sampleEnv 0
      (HTTPRequest.parse {} ["GET /x HTTP/1.0\r\n".toList]).2 [] = .ok fileRsp := by decide
  have hsend : sendHttpRsp true sampleEnv failsAtThird 4 {} fileRsp
      = .ok (halfSent.bytes, halfSent.out) := by decide +kernel
  have hrun : processRequest true sampleEnv failsAtThird 4 0
      ["GET /x HTTP/1.0\r\n".toList] [] = .ok (some halfSent) := by
    rw [processRequest_eq, hprepare]
    simp only [hsend]
    rfl
  exact complete_download true sampleEnv failsAtThird 0 ["GET /x HTTP/1.0\r\n".toList] [] 4
    halfSent hrun

/-- The promise of two bytes shows that one is missing. -/
example : readResponse halfSent.out.wire = some ⟨200, textPlain, 2, ['a']⟩ := by decide +kernel

end HttpFileSharing
