import HttpFileSharing.Core.Bytes

/-!
# The HTTP Response

The fields of a response and the function that frames it. A response with a
generated body carries it in `m_body`; a response that serves a file carries
the file's name instead, and the file is sent after the framed part. The
framing takes the length from `m_len` in both cases.

## Main definitions

* `HTTPStatus`, `HTTPStatus.toString`, `HTTPStatus.toInt`: The status codes.
* `decimal`: A number as it is printed.
* `HTTPResponse`: The fields of a response.
* `HTTPResponse.setBody`: Appending to the body.
* `rspHead`: The head of a response.
* `HTTPResponse.buildRsp`: Framing a response.
-/

namespace HttpFileSharing

/-- `HTTPStatus`. -/
inductive HTTPStatus where
  | httpOk
  | httpBadRequest
  | httpUnsuppMethod
  | httpNotFound
  | httpGenErr
  deriving DecidableEq, Repr

/-- `http::to_string`. Its `assert` on `HTTP_GEN_ERR` is not reached: the one
    caller has returned by then. -/
def HTTPStatus.toString : HTTPStatus → Bytes
  | .httpOk => "200 OK".toList
  | .httpBadRequest => "400 Bad Request".toList
  | .httpUnsuppMethod => "405 Method Not Allowed".toList
  | .httpNotFound => "404 Not Found".toList
  | .httpGenErr => "HTTP_GEN_ERR".toList

/-- `http::to_int`. -/
def HTTPStatus.toInt : HTTPStatus → Nat
  | .httpOk => 200
  | .httpBadRequest => 400
  | .httpUnsuppMethod => 405
  | .httpNotFound => 404
  | .httpGenErr => 999

/-- An unsigned number in decimal, as `std::to_string` and streams print
    it. -/
def decimal (n : Nat) : Bytes := Nat.toDigits 10 n

/-- `SERVER_HTTP_VER`. -/
def serverHttpVer : Bytes := "1.0".toList

/-- `SERVER_INFO`. -/
def serverInfo : Bytes := "Ashwin HTTP Server".toList

/-- The response being put together. -/
structure HTTPResponse where
  mStatus : HTTPStatus := .httpGenErr
  mLen : Nat := 0
  mContentType : Bytes := []
  mBody : Bytes := []
  mRspFilename : Bytes := []
  deriving DecidableEq, Repr

/-- The head of a response, up to and including the blank line. -/
def rspHead (status : HTTPStatus) (contentType : Bytes) (len : Nat) : Bytes :=
  "HTTP/".toList ++ serverHttpVer ++ " ".toList ++ status.toString ++ crlf
    ++ "Server: ".toList ++ serverInfo ++ crlf
    ++ "Connection: close".toList ++ crlf
    ++ "Content-type: ".toList ++ contentType ++ crlf
    ++ "Content-Length: ".toList ++ decimal len ++ crlf
    ++ crlf

namespace HTTPResponse

/-- `set_body`: the data is appended, the length is assigned. -/
def setBody (rsp : HTTPResponse) (data : Bytes) : HTTPResponse :=
  { rsp with mBody := rsp.mBody ++ data, mLen := data.length }

/-- `build_rsp`: whether it wrote the response, and the buffer. -/
def buildRsp (rsp : HTTPResponse) (buffer : Bytes) : Bool × Bytes :=
  if rsp.mStatus = .httpGenErr then (false, buffer)
  -- A response that serves no file has to have a body.
  else if rsp.mRspFilename = [] ∧ (rsp.mLen = 0 ∨ rsp.mContentType = [] ∨ rsp.mBody = []) then
    (false, buffer)
  else (true, buffer ++ rspHead rsp.mStatus rsp.mContentType rsp.mLen ++ rsp.mBody)

end HTTPResponse

end HttpFileSharing
