import HttpFileSharing.Core.HtmlRsp
import HttpFileSharing.Core.Tcp

/-!
# Receiving and Sending HTTP Messages

`recv_req` receives once and cuts what it received into lines. The cut runs
over the whole buffer, padding included, and finishes a line only when it
sees the byte after its LF, so a line whose LF is the last byte of the buffer
is not finished and neither is the padding.

`send_http_rsp` sends what `build_rsp` wrote, whether or not it wrote
anything, and then the file if the response has one. Its `assert` is compiled
out of a release build.

## Main definitions

* `Poll`: What `poll` says about the connection.
* `Splitter`, `splitStep`, `splitBuffer`: Cutting a buffer into lines.
* `recvReq`: Receiving a request.
* `sendHttpRsp`: Sending a response.
-/

namespace HttpFileSharing

/-- What `poll` returns: 0, −1 or 1. -/
inductive Poll where
  | timedOut
  | failed
  | ready
  deriving DecidableEq, Repr

/-- `HTTP_READ_TIMEDOUT`. -/
def httpReadTimedout : Int := -2

/-- `HTTP_CLIENT_DISCONNECTED`. -/
def httpClientDisconnected : Int := 0

/-- The loop of `recv_req` between two bytes. -/
structure Splitter where
  buffer : List Bytes
  tempStr : Bytes
  newLineBegin : Bool

/-- What the loop does with one byte: finish the line before it if that line
    has had its LF, then add the byte. -/
def splitStep (st : Splitter) (it : Char) : Splitter :=
  let st := if st.newLineBegin = true then ⟨st.buffer ++ [st.tempStr], [], false⟩ else st
  { st with newLineBegin := if it = '\n' then true else st.newLineBegin
            tempStr := st.tempStr ++ [it] }

/-- The lines the loop leaves in `buffer`. -/
def splitBuffer (tmpBuffer : Bytes) : List Bytes :=
  (tmpBuffer.foldl splitStep ⟨[], [], false⟩).buffer

/-- `recv_req` with a receive buffer of `size` bytes: the count, the lines,
    and what is left to receive. -/
def recvReq (size : Nat) (inbound : Inbound) (buffer : List Bytes) (timeout : Nat)
    (poll : Poll) : Int × List Bytes × Inbound :=
  let (ret, tmpBuffer, rest) :=
    if timeout = 0 then TCPConnection.recv size inbound
    else match poll with
      | .timedOut => (httpReadTimedout, [], inbound)
      | .failed => (-1, [], inbound)
      | .ready => TCPConnection.recv size inbound
  if 0 < ret then (ret, splitBuffer tmpBuffer, rest) else (ret, buffer, rest)

/-- `send_http_rsp`: the count it returns, and what has been sent. `ndebug`
    says whether asserts are compiled out. -/
def sendHttpRsp (ndebug : Bool) (env : Env) (answers : Answers) (fuel : Nat) (out : Outbound)
    (rsp : HTTPResponse) : Except Fault (Int × Outbound) :=
  -- What `build_rsp` returns is not looked at.
  let (_, rspbuff) := rsp.buildRsp []
  if ndebug = false ∧ rsp.mStatus = .httpGenErr then .error .assertion
  else match sendWrapper answers fuel out rspbuff with
    | .error e => .error e
    | .ok (ret, out) =>
      if ret = -1 then .ok (ret, out)
      else if rsp.mRspFilename ≠ [] then
        match TCPConnection.sendFile answers fuel out
            (env.fs.fopen env.cwd rsp.mRspFilename) rsp.mLen with
        | .error e => .error e
        | .ok (n, out) => .ok (ret + n, out)
      else .ok (ret, out)

end HttpFileSharing
