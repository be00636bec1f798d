import HttpFileSharing.Core.Server

/-!
# Decoding Undoes Encoding

A request message as a client writes it, and what the server reads back from
it. The message is a list of lines, each with its LF, so receiving it is
cutting its bytes into these lines again. The receive buffer is padded with
NULs, which complete no line, and its last byte is lost to the cut, which
costs the blank line of a message that fills the buffer exactly.

The parser is followed line by line: the request line gives method, URI and
version, each header line gives the pair it was written from, and the map
that collects the pairs keeps the first of each name.

## Main definitions

* `Header`, `Header.line`: A header and the line it is written as.
* `Request`, `Request.lines`, `Request.render`: A message and its bytes.
* `firstValue`: The value of the first header of a name.

## Theorems

* `splitBuffer_eq`: The loop cuts all but the last byte into lines.
* `recvReq_chunk`, `receiveLines_chunk`: One receive, and what it passes on.
* `splitLineColon_line`, `parseHttpMethod_line`: The two line parsers undo
  the rendering.
* `foldl_parseLine_headers`, `foldl_parseLine_body`: The parser over a block
  of header lines and of body lines.
* `parse_lines`, `parse_head`: The parser over a message.
* `recv_parse_render`: Receiving and parsing a rendered request gives it
  back.
-/

namespace HttpFileSharing

/-- A header as the client writes it. -/
structure Header where
  name : Bytes
  /-- How many spaces follow the colon. -/
  spaces : Nat
  value : Bytes
  name_colon : ':' ∉ name
  name_lf : '\n' ∉ name
  value_cr : '\r' ∉ value
  value_lf : '\n' ∉ value
  value_space : value.head? ≠ some ' '

/-- `name: value CRLF`. -/
def Header.line (h : Header) : Bytes :=
  h.name ++ ':' :: (List.replicate h.spaces ' ' ++ (h.value ++ crlf))

/-- A request message. -/
structure Request where
  method : Bytes
  uri : Bytes
  version : Bytes
  headers : List Header
  body : List Bytes
  method_space : ' ' ∉ method
  method_lf : '\n' ∉ method
  uri_space : ' ' ∉ uri
  uri_lf : '\n' ∉ uri
  version_space : ' ' ∉ version
  version_lf : '\n' ∉ version
  body_lines : ∀ l ∈ body, IsLine '\n' l

namespace Request

/-- `method SP uri SP version CRLF`. -/
def requestLine (r : Request) : Bytes :=
  r.method ++ ' ' :: (r.uri ++ ' ' :: (r.version ++ crlf))

/-- The request line and the header lines. -/
def head (r : Request) : List Bytes := r.requestLine :: r.headers.map Header.line

/-- All lines of the message. -/
def lines (r : Request) : List Bytes := r.head ++ crlf :: r.body

/-- The bytes of the message. -/
def render (r : Request) : Bytes := r.lines.flatten

end Request

/-- The value of the first header called `name`. -/
def firstValue (name : Bytes) (headers : List Header) : Option Bytes :=
  (headers.find? (fun h => h.name = name)).map Header.value

section Cutting

/-- Finishing a line when its LF has been seen is starting an empty one. -/
theorem splitStep_newLine (buffer : List Bytes) (tempStr : Bytes) (it : Char) :
    splitStep ⟨buffer, tempStr, true⟩ it = splitStep ⟨buffer ++ [tempStr], [], false⟩ it := rfl

theorem foldl_splitStep (data : Bytes) (buffer : List Bytes) (tempStr : Bytes) :
    (data.foldl splitStep ⟨buffer, tempStr, false⟩).buffer
      = buffer ++ completeFrom '\n' tempStr data.dropLast := by
  induction data generalizing buffer tempStr with
  | nil => exact (List.append_nil buffer).symm
  | cons x data ih =>
      have hstep : splitStep ⟨buffer, tempStr, false⟩ x
          = ⟨buffer, tempStr ++ [x], if x = '\n' then true else false⟩ := rfl
      rw [List.foldl_cons, hstep]
      cases data with
      | nil => exact (List.append_nil buffer).symm
      | cons y data =>
          rw [List.dropLast_cons_cons, completeFrom]
          -- The line that an LF ends is finished by the byte after it.
          by_cases hx : x = '\n'
          · rw [if_pos hx, if_pos hx, List.foldl_cons, splitStep_newLine, ← List.foldl_cons, ih,
              List.append_assoc, List.singleton_append]
          · rw [if_neg hx, if_neg hx]
            exact ih buffer (tempStr ++ [x])

/-- The loop cuts everything but the last byte of the buffer into lines. -/
theorem splitBuffer_eq (data : Bytes) :
    splitBuffer data = completeLines '\n' data.dropLast := by
  rw [splitBuffer, foldl_splitStep, List.nil_append]
  rfl

/-- One receive of a chunk: as much of it as the buffer holds, and the complete
    lines among all but the last byte of the buffer. -/
theorem recvReq_chunk (size : Nat) (chunk : Bytes) (rest : Inbound) (buffer : List Bytes)
    (timeout : Nat) (hne : chunk ≠ []) (hsize : 0 < size) :
    (recvReq size (some chunk :: rest) buffer timeout .ready).1 = ((chunk.take size).length : Int) ∧
      (recvReq size (some chunk :: rest) buffer timeout .ready).2.1
        = completeLines '\n' (chunk.take (size - 1)) := by
  have hpos : 0 < (chunk.take size).length := by
    have hlen := List.length_pos_iff.mpr hne
    rw [List.length_take]
    omega
  have hret : (0 : Int) < ((chunk.take size).length : Int) := by omega
  -- The cut never looks at the last byte of the buffer.
  have hcut : completeLines '\n' (chunk.take size
        ++ List.replicate (size - (chunk.take size).length) '\x00').dropLast
      = completeLines '\n' (chunk.take (size - 1)) := by
    by_cases hfull : (chunk.take size).length = size
    · rw [hfull, Nat.sub_self, List.replicate_zero, List.append_nil, List.dropLast_eq_take, hfull,
        List.take_take, Nat.min_eq_left (Nat.sub_le size 1)]
    · -- With room to spare, all that is dropped is padding.
      have hshort : chunk.length < size := by
        rw [List.length_take] at hfull
        omega
      rw [List.take_of_length_le (Nat.le_of_lt hshort), List.take_of_length_le (by omega),
        List.dropLast_append_of_ne_nil, completeLines_pad]
      · exact fun hmem => absurd (List.eq_of_mem_replicate (List.mem_of_mem_dropLast hmem))
          (by decide)
      · exact List.ne_nil_of_length_pos (by rw [List.length_replicate]; omega)
  simp only [recvReq, ite_self, TCPConnection.recv, recvWrapper, List.length_replicate,
    List.drop_replicate, if_pos hret, splitBuffer_eq, hcut, and_self]

/-- What one receive of a chunk passes on. -/
theorem receiveLines_chunk (size : Nat) (chunk : Bytes) (rest : Inbound) (hne : chunk ≠ [])
    (hsize : 0 < size) :
    receiveLines size (some chunk :: rest) = some (completeLines '\n' (chunk.take (size - 1))) := by
  have hlen : 0 < chunk.length := List.length_pos_iff.mpr hne
  rcases recvReq_chunk size chunk rest [] 0 hne hsize with ⟨hret, hlines⟩
  rw [List.length_take] at hret
  rw [receiveLines]
  simp only [hret, hlines]
  rw [if_neg (by simp only [httpClientDisconnected]; omega),
    if_neg (by simp only [httpReadTimedout]; omega)]

end Cutting

section Lines

theorem crlf_isLine : IsLine '\n' crlf := ⟨['\r'], by decide, rfl⟩

/-- A line ended by a CRLF. -/
theorem isLine_crlf (body : Bytes) (h : '\n' ∉ body) : IsLine '\n' (body ++ crlf) := by
  refine ⟨body ++ ['\r'], ?_, by rw [List.append_assoc]; rfl⟩
  rw [List.mem_append]
  rintro (hmem | hmem)
  · exact h hmem
  · exact absurd hmem (by decide)

theorem Header.isLine (h : Header) : IsLine '\n' h.line := by
  have hrw : h.line = (h.name ++ ':' :: (List.replicate h.spaces ' ' ++ h.value)) ++ crlf := by
    simp only [Header.line, List.append_assoc, List.cons_append]
  rw [hrw]
  refine isLine_crlf _ (fun hmem => ?_)
  simp only [List.mem_append, List.mem_cons, Char.reduceEq, false_or] at hmem
  rcases hmem with hmem | hmem | hmem
  · exact h.name_lf hmem
  · exact absurd (List.eq_of_mem_replicate hmem) (by decide)
  · exact h.value_lf hmem

theorem Request.requestLine_isLine (r : Request) : IsLine '\n' r.requestLine := by
  have hrw : r.requestLine = (r.method ++ ' ' :: (r.uri ++ ' ' :: r.version)) ++ crlf := by
    simp only [Request.requestLine, List.append_assoc, List.cons_append]
  rw [hrw]
  refine isLine_crlf _ (fun hmem => ?_)
  simp only [List.mem_append, List.mem_cons, Char.reduceEq, false_or] at hmem
  rcases hmem with hmem | hmem | hmem
  · exact r.method_lf hmem
  · exact r.uri_lf hmem
  · exact r.version_lf hmem

theorem Request.lines_isLine (r : Request) : ∀ l ∈ r.lines, IsLine '\n' l := by
  intro l hl
  simp only [Request.lines, Request.head, List.cons_append, List.mem_cons, List.mem_append,
    List.mem_map] at hl
  rcases hl with rfl | ⟨h, _, rfl⟩ | rfl | hbody
  · exact r.requestLine_isLine
  · exact h.isLine
  · exact crlf_isLine
  · exact r.body_lines l hbody

theorem Request.render_ne_nil (r : Request) : r.render ≠ [] := by
  intro h
  have hlen := congrArg List.length h
  simp only [Request.render, Request.lines, List.flatten_append, List.flatten_cons, crlf,
    List.length_append, List.length_cons, List.length_nil] at hlen
  omega

end Lines

section Parsing

/-- The header parser undoes the rendering of a header. -/
theorem splitLineColon_line (h : Header) : splitLineColon h.line = (h.name, h.value) := by
  -- The value does not begin with a space, so all that is skipped is padding.
  have hspaces : (List.replicate h.spaces ' ' ++ (h.value ++ crlf)).dropWhile (fun c => c = ' ')
      = h.value ++ crlf := by
    rw [List.dropWhile_append_of_pos (fun c hc => by
      rw [List.eq_of_mem_replicate hc]
      decide)]
    cases hvalue : h.value with
    | nil => rfl
    | cons c value =>
        have hc : ¬ c = ' ' := fun hc => h.value_space (by rw [hvalue, hc]; rfl)
        rw [List.cons_append, List.dropWhile_cons_of_neg (by simpa using hc)]
  -- The first CR is that of the line end.
  have hvalue : (h.value ++ crlf).takeWhile (fun c => c ≠ '\r') = h.value := by
    rw [List.takeWhile_append_of_pos (fun c hc => by
      have hcr : c ≠ '\r' := fun hcr => h.value_cr (hcr ▸ hc)
      simpa using hcr)]
    exact List.append_nil _
  simp only [splitLineColon, Header.line, takeUntil_append ':' h.name _ h.name_colon, hspaces,
    hvalue]

/-- The request-line parser undoes the rendering; the version keeps its line
    end. -/
theorem parseHttpMethod_line (r : Request) :
    parseHttpMethod r.requestLine = (r.method, r.uri, r.version ++ crlf) := by
  -- The version runs to the end of the line, its CRLF included.
  have hver : ' ' ∉ r.version ++ crlf := by
    rw [List.mem_append]
    rintro (hmem | hmem)
    · exact r.version_space hmem
    · exact absurd hmem (by decide)
  simp only [parseHttpMethod, Request.requestLine, takeUntil_append ' ' r.method _ r.method_space,
    takeUntil_append ' ' r.uri _ r.uri_space, takeUntil_of_not_mem ' ' _ hver]

/-- A header line is not the blank line. -/
theorem Header.line_ne_crlf (h : Header) : h.line ≠ crlf := by
  intro heq
  have hmem : ':' ∈ h.line :=
    List.mem_append_right _ List.mem_cons_self
  rw [heq] at hmem
  exact absurd hmem (by decide)

/-- The map after a block of headers. -/
def emplaceAll (m : StdMap Bytes Bytes) (headers : List Header) : StdMap Bytes Bytes :=
  headers.foldl (fun m h => StdMap.emplace m h.name h.value) m

/-- Emplacing keeps the first value of each name and adds nothing else. -/
theorem lookup_emplaceAll (headers : List Header) (name : Bytes) :
    Finmap.lookup name (emplaceAll ∅ headers) = firstValue name headers := by
  rw [emplaceAll, StdMap.lookup_foldl_emplace, Finmap.lookup_empty, Option.none_or, firstValue]

namespace HTTPRequest

/-- The parser over a block of header lines. -/
theorem foldl_parseLine_headers (headers : List Header) (req : HTTPRequest) :
    (headers.map Header.line).foldl parseLine ⟨req, true, false⟩
      = ⟨{ req with mHeader := emplaceAll req.mHeader headers }, true, false⟩ := by
  induction headers generalizing req with
  | nil => rfl
  | cons h headers ih =>
      -- A header line is never taken for the blank one.
      have hstep : parseLine ⟨req, true, false⟩ h.line
          = ⟨{ req with mHeader := StdMap.emplace req.mHeader h.name h.value }, true, false⟩ := by
        simp only [parseLine, Bool.false_eq_true, if_false, if_true, if_neg h.line_ne_crlf,
          splitLineColon_line]
      rw [List.map_cons, List.foldl_cons, hstep, ih]
      rfl

/-- The parser over a block of body lines. -/
theorem foldl_parseLine_body (body : List Bytes) (req : HTTPRequest) :
    body.foldl parseLine ⟨req, false, false⟩
      = ⟨{ req with mBody := req.mBody ++ body }, false, false⟩ := by
  induction body generalizing req with
  | nil => rw [List.foldl_nil, List.append_nil]
  | cons l body ih =>
      have hstep : parseLine ⟨req, false, false⟩ l
          = ⟨{ req with mBody := req.mBody ++ [l] }, false, false⟩ := rfl
      rw [List.foldl_cons, hstep, ih, List.append_assoc, List.singleton_append]

/-- The fields a message is parsed to. -/
def parsed (r : Request) (headers : List Header) (body : List Bytes) : HTTPRequest where
  mMethod := r.method
  mUri := r.uri
  mVer := r.version ++ crlf
  mHost := (firstValue hostName headers).getD []
  mHeader := emplaceAll ∅ headers
  mBody := body

/-- The parser over the request line and some headers of a message. -/
theorem foldl_parseLine_head (r : Request) (headers : List Header) :
    (r.requestLine :: headers.map Header.line).foldl parseLine ⟨{}, true, true⟩
      = ⟨{ parsed r headers [] with mHost := [] }, true, false⟩ := by
  have hfirst : parseLine ⟨{}, true, true⟩ r.requestLine
      = ⟨{ mMethod := r.method, mUri := r.uri, mVer := r.version ++ crlf }, true, false⟩ := by
    simp only [parseLine, if_true, parseHttpMethod_line]
  rw [List.foldl_cons, hfirst, foldl_parseLine_headers]
  rfl

/-- Finishing the parse looks up the host. -/
theorem parse_eq (lines : List Bytes) (r : Request) (headers : List Header) (body : List Bytes)
    (isHeader firstLine : Bool)
    (h : lines.foldl parseLine ⟨{}, true, true⟩
      = ⟨{ parsed r headers body with mHost := [] }, isHeader, firstLine⟩) :
    parse {} lines = (true, parsed r headers body) := by
  unfold parse
  rw [h]
  simp only [parsed, lookup_emplaceAll]
  cases firstValue hostName headers with
  | none => rfl
  | some host => rfl

/-- The parser over a message that lost everything from the blank line on. -/
theorem parse_head (r : Request) (headers : List Header) :
    parse {} (r.requestLine :: headers.map Header.line) = (true, parsed r headers []) :=
  parse_eq _ r headers [] true false (foldl_parseLine_head r headers)

/-- The parser over a whole message. -/
theorem parse_lines (r : Request) : parse {} r.lines = (true, parsed r r.headers r.body) := by
  refine parse_eq _ r r.headers r.body false false ?_
  -- From the blank line on, lines are body.
  have hblank : parseLine ⟨{ parsed r r.headers [] with mHost := [] }, true, false⟩ crlf
      = ⟨{ parsed r r.headers [] with mHost := [] }, false, false⟩ := rfl
  rw [Request.lines, Request.head, List.foldl_append, foldl_parseLine_head, List.foldl_cons,
    hblank, foldl_parseLine_body]
  rfl

end HTTPRequest

end Parsing

/-- A rendered request that arrives in one receive and leaves the last byte
    of the buffer free, or has no body and fills the buffer, is parsed back
    to what it was rendered from. -/
theorem recv_parse_render (r : Request)
    (hlen : r.render.length < defaultBufferSize ∨
      r.render.length = defaultBufferSize ∧ r.body = []) :
    ∃ req, parsedRequest defaultBufferSize [some r.render] = some req ∧
      req.mMethod = r.method ∧ req.mUri = r.uri ∧ req.mVer = r.version ++ crlf ∧
      (∀ name, Finmap.lookup name req.mHeader = firstValue name r.headers) ∧
      req.mHost = (firstValue HTTPRequest.hostName r.headers).getD [] ∧
      req.mBody = r.body := by
  refine ⟨HTTPRequest.parsed r r.headers r.body, ?_, rfl, rfl, rfl, lookup_emplaceAll r.headers,
    rfl, rfl⟩
  have hle : r.render.length ≤ defaultBufferSize := by
    rcases hlen with h | h
    · exact Nat.le_of_lt h
    · exact Nat.le_of_eq h.1
  rw [parsedRequest, receiveLines_chunk defaultBufferSize r.render [] r.render_ne_nil (by decide),
    Option.map_some]
  rcases hlen with h | ⟨hfull, hbody⟩
  · -- Every line is complete, the last one included.
    rw [List.take_of_length_le (by omega), Request.render, ← List.append_nil r.lines.flatten,
      completeLines_flatten '\n' r.lines [] r.lines_isLine, completeLines, completeFrom,
      List.append_nil, HTTPRequest.parse_lines]
  · -- The blank line is the one that does not fit, and it said nothing more.
    have hlines : r.lines = r.head ++ [crlf] := by rw [Request.lines, hbody]
    have hflat : r.render.length = r.head.flatten.length + 2 := by
      rw [Request.render, hlines, List.flatten_append, List.length_append, List.flatten_singleton]
      rfl
    have hshort : ¬ crlf.length ≤ defaultBufferSize - 1 - r.head.flatten.length := by
      rw [show crlf.length = 2 from rfl]
      omega
    rw [Request.render, completeLines_take '\n' r.lines _ r.lines_isLine, hlines,
      fits_append _ _ _ (by omega), fits, if_neg hshort, List.append_nil, Request.head,
      HTTPRequest.parse_head, hbody]

/-- `GET / 1` with two headers of one name. -/
def sampleRequest : Request where
  method := ['G', 'E', 'T']
  uri := ['/']
  version := ['1']
  headers := [⟨HTTPRequest.hostName, 1, ['a'], by decide, by decide, by decide, by decide,
      by decide⟩,
    ⟨HTTPRequest.hostName, 0, ['b'], by decide, by decide, by decide, by decide, by decide⟩]
  body := [['x', '\n']]
  method_space := by decide
  method_lf := by decide
  uri_space := by decide
  uri_lf := by decide
  version_space := by decide
  version_lf := by decide
  body_lines := by
    intro l hl
    rw [List.mem_singleton.mp hl]
    exact ⟨['x'], by decide, rfl⟩

theorem recv_parse_render_sample :
    ∃ req, parsedRequest defaultBufferSize [some sampleRequest.render] = some req ∧
      req.mHost = ['a'] ∧ req.mBody = [['x', '\n']] := by
  rcases recv_parse_render sampleRequest (Or.inl (by decide)) with
    ⟨req, hreq, _, _, _, _, hhost, hbody⟩
  exact ⟨req, hreq, hhost, hbody⟩

end HttpFileSharing
