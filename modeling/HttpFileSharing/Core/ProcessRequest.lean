import HttpFileSharing.Core.Http

/-!
# Processing a Request

From the lines of a request to the response on the wire. A request that is
not a GET gets a fixed text. A GET for a file gets the file, a GET for a
directory gets its listing, and where neither is found the page that says so.
The status starts as `HTTP_GEN_ERR` and is left so where the listing fails
for another reason than that nothing is there, which is told by `errno`.

The score of the client is updated with the outcome afterwards; that update
is a transition system of its own.

## Main definitions

* `processGetRequest`: The response to a GET.
* `prepareResponse`: The response to any request.
* `Processed`: What is left of a processed request.
* `processRequest`: The whole of it.
-/

namespace HttpFileSharing

/-- `text/html; charset=utf-8`. -/
def textHtml : Bytes := "text/html; charset=utf-8".toList

/-- `process_get_request`: the response it leaves. -/
def processGetRequest (env : Env) (errno : Errno) (req : HTTPRequest) (rsp : HTTPResponse)
    (src : Bytes) : Except Fault HTTPResponse :=
  let (isRegular, errno) := checkIfFile env errno req.mUri
  if isRegular = true then
    let (status, rsp) := getFile env rsp req
    let rsp := { rsp with mStatus := status }
    if status = .httpNotFound then
      .ok { rsp.setBody (get404Page req [] src) with mContentType := textHtml }
    else .ok rsp
  else match getFileListing env errno req.mUri with
    | .error e => .error e
    | .ok (none, errno) =>
      -- Any other error leaves the response as it started.
      if errno = enoent then
        let rspbuff := get404Page req [] src
        let rsp := { rsp with mStatus := .httpNotFound }
        if 0 < rspbuff.length then .ok { rsp.setBody rspbuff with mContentType := textHtml }
        else .ok rsp
      else .ok { rsp with mStatus := .httpGenErr }
    | .ok (some tree, _) => match buildRspHtml env [] req tree src with
      | .error e => .error e
      | .ok (status, rspbuff) =>
        let rsp := { rsp with mStatus := status }
        if 0 < rspbuff.length then .ok { rsp.setBody rspbuff with mContentType := textHtml }
        else .ok rsp

/-- The method that is supported. -/
def methodGet : Bytes := ['G', 'E', 'T']

/-- `process_request` from the parsed request to the response it sends. -/
def prepareResponse (env : Env) (errno : Errno) (req : HTTPRequest) (src : Bytes) :
    Except Fault HTTPResponse :=
  let rsp : HTTPResponse := { mContentType := textPlain }
  if req.mMethod = methodGet then processGetRequest env errno req rsp src
  else .ok { rsp.setBody "Unsupported HTTP method".toList with mStatus := .httpUnsuppMethod }

/-- What is left of a processed request: the response, what `send_http_rsp`
    returned, what has been sent, and whether the request counts as good. -/
structure Processed where
  rsp : HTTPResponse
  bytes : Int
  out : Outbound
  goodRequest : Bool

/-- `process_request` up to the update of the score, or `none` where the
    request does not parse. -/
def processRequest (ndebug : Bool) (env : Env) (answers : Answers) (fuel : Nat) (errno : Errno)
    (lines : List Bytes) (src : Bytes) : Except Fault (Option Processed) :=
  let (parsed, req) := HTTPRequest.parse {} lines
  if parsed = false then .ok none
  else match prepareResponse env errno req src with
    | .error e => .error e
    | .ok rsp => match sendHttpRsp ndebug env answers fuel {} rsp with
      | .error e => .error e
      | .ok (bytes, out) =>
        .ok (some ⟨rsp, bytes, out, decide (rsp.mStatus = .httpOk)⟩)

end HttpFileSharing
