import HttpFileSharing.Core.Bytes
import HttpFileSharing.Lib.Lines
import HttpFileSharing.Lib.StdMap

/-!
# The HTTP Request

The fields of a request and the parser that fills them from the lines of a
message. The first line is cut at its spaces into method, URI and version.
The lines after it are headers, cut at the colon, up to the blank line, and
body lines after that. A header is inserted into a map, so a name that occurs
twice keeps its first value.

The parser never refuses a request: whatever the lines are, it returns true.
Each line is shorter than the receive buffer, so the `unsigned` index that
runs over it never wraps and the scans are written over the list itself.

## Main definitions

* `HTTPRequest`: The fields of a request.
* `splitLineColon`: A header line cut into name and value.
* `parseHttpMethod`: The request line cut into method, URI and version.
* `HTTPRequest.parseLine`: What the parser does with one line.
* `HTTPRequest.parse`: The parser.
* `HTTPRequest.clear`: Forgetting headers and body.
-/

namespace HttpFileSharing

/-- The request as parsed. A fresh object has every field empty. -/
structure HTTPRequest where
  mMethod : Bytes := []
  mUri : Bytes := []
  mVer : Bytes := []
  mHost : Bytes := []
  mHeader : StdMap Bytes Bytes := ∅
  mBody : List Bytes := []

/-- `_split_line_colon`: the name before the first colon, and what follows it
    without leading spaces, up to a CR. -/
def splitLineColon (input : Bytes) : Bytes × Bytes :=
  let (first, rest) := takeUntil ':' input
  (first, ((rest.dropWhile (· = ' ')).takeWhile (· ≠ '\r')))

/-- `_parse_http_method`: three fields, each up to a space. -/
def parseHttpMethod (input : Bytes) : Bytes × Bytes × Bytes :=
  let (method, rest) := takeUntil ' ' input
  let (uri, rest) := takeUntil ' ' rest
  let (ver, _) := takeUntil ' ' rest
  (method, uri, ver)

namespace HTTPRequest

/-- The parser between two lines: the request so far, and the flags
    `is_header` and `first_line`. -/
structure ParseState where
  req : HTTPRequest
  isHeader : Bool
  firstLine : Bool

/-- What the parser does with one line. -/
def parseLine (st : ParseState) (line : Bytes) : ParseState :=
  if st.firstLine = true then
    let (method, uri, ver) := parseHttpMethod line
    { st with firstLine := false,
              req := { st.req with mMethod := method, mUri := uri, mVer := ver } }
  else if st.isHeader = true then
    -- The blank line ends the headers.
    if line = crlf then { st with isHeader := false }
    else
      let (name, value) := splitLineColon line
      { st with req := { st.req with mHeader := StdMap.emplace st.req.mHeader name value } }
  else { st with req := { st.req with mBody := st.req.mBody ++ [line] } }

/-- The header whose value becomes `m_host`. -/
def hostName : Bytes := ['H', 'o', 's', 't']

/-- `HTTPRequest::parse`. -/
def parse (req : HTTPRequest) (lines : List Bytes) : Bool × HTTPRequest :=
  let parsed := (lines.foldl parseLine ⟨req, true, true⟩).req
  match Finmap.lookup hostName parsed.mHeader with
  | some host => (true, { parsed with mHost := host })
  | none => (true, parsed)

/-- `HTTPRequest::clear`, which leaves the request line and the host. -/
def clear (req : HTTPRequest) : HTTPRequest := { req with mHeader := ∅, mBody := [] }

end HTTPRequest

end HttpFileSharing
