import HttpFileSharing.Theory.Request

/-!
# What the Parser Accepts

The parser over any lines at all, whether a client wrote them or not. The first
line gives method, URI and version whatever it looks like, the lines up to the
first blank one are all taken for headers, and the rest is body.

Nothing is ever refused. The result is always true, so the parser accepts too
much, and what a caller gets for a line that is no request line are three
fields that need not stand for anything. For a line that is one, method and URI
are right and the version has the end of the line behind it.

## Main definitions

* `headerBlock`: The lines that are taken for headers.
* `emplaceLines`: The map after a block of lines.
* `IsToken`, `IsRequestLine`, `WellFormedLines`: What should be accepted.
* `ParsesExactly`: What should become of it.

## Theorems

* `parse_nil`, `parse_cons`: The parser over any lines.
* `parseHttpMethod_requestLine`: A request line, cut.
* `acceptance_exact`: What is accepted and what becomes of it.
* `acceptance_fails`: No lines at all.
-/

namespace HttpFileSharing

/-- The lines behind the first one, up to a blank one. -/
def headerBlock (lines : List Bytes) : List Bytes := lines.tail.takeWhile (· ≠ crlf)

/-- The map after a block of lines that are all taken for headers. -/
def emplaceLines (m : StdMap Bytes Bytes) (block : List Bytes) : StdMap Bytes Bytes :=
  block.foldl (fun m l => StdMap.emplace m (splitLineColon l).1 (splitLineColon l).2) m

/-- A non-empty word of a request line. -/
structure IsToken (s : Bytes) : Prop where
  ne : s ≠ []
  space : ' ' ∉ s
  cr : '\r' ∉ s
  lf : '\n' ∉ s

/-- `method SP uri SP version CRLF`. -/
structure IsRequestLine (line method uri version : Bytes) : Prop where
  method_token : IsToken method
  uri_token : IsToken uri
  version_token : IsToken version
  words : line = method ++ ' ' :: (uri ++ ' ' :: (version ++ crlf))

/-- A request line, and a colon in every line up to a blank one. -/
def WellFormedLines (lines : List Bytes) : Prop :=
  (∃ line method uri version, lines.head? = some line ∧ IsRequestLine line method uri version) ∧
    ∀ l ∈ headerBlock lines, ':' ∈ l

namespace HTTPRequest

/-- The parser accepts the lines exactly if they are well formed, and then has
    the three words of the request line. -/
def ParsesExactly (req : HTTPRequest) (lines : List Bytes) : Prop :=
  ((req.parse lines).1 = true ↔ WellFormedLines lines) ∧
    ((req.parse lines).1 = true → ∃ line, lines.head? = some line ∧
      IsRequestLine line (req.parse lines).2.mMethod (req.parse lines).2.mUri
        (req.parse lines).2.mVer)

section Lines

/-- The parser over the lines behind the first one. -/
theorem foldl_parseLine_tail (lines : List Bytes) (req : HTTPRequest) :
    (lines.foldl parseLine ⟨req, true, false⟩).req
      = { req with
          mHeader := emplaceLines req.mHeader (lines.takeWhile (· ≠ crlf))
          mBody := req.mBody ++ (lines.dropWhile (· ≠ crlf)).tail } := by
  induction lines generalizing req with
  | nil =>
      rw [List.dropWhile_nil, List.tail_nil, List.append_nil]
      rfl
  | cons l lines ih =>
      rw [List.foldl_cons]
      by_cases hl : l = crlf
      · -- The blank line: what is behind it is body.
        have hstep : parseLine ⟨req, true, false⟩ l = ⟨req, false, false⟩ := by
          rw [parseLine, if_neg Bool.false_ne_true, if_pos rfl, if_pos hl]
        have hblank : ¬ decide (l ≠ crlf) = true := by
          rw [decide_eq_true_eq, not_not]
          exact hl
        rw [hstep, foldl_parseLine_body, List.takeWhile_cons, List.dropWhile_cons, if_neg hblank,
          if_neg hblank, List.tail_cons]
        rfl
      · have hstep : parseLine ⟨req, true, false⟩ l
            = ⟨{ req with
                  mHeader := StdMap.emplace req.mHeader (splitLineColon l).1
                    (splitLineColon l).2 }, true, false⟩ := by
          rw [parseLine, if_neg Bool.false_ne_true, if_pos rfl, if_neg hl]
        rw [hstep, ih, List.takeWhile_cons, List.dropWhile_cons, if_pos (decide_eq_true hl),
          if_pos (decide_eq_true hl)]
        rfl

/-- No lines: only the host is looked up. -/
theorem parse_nil (req : HTTPRequest) :
    req.parse [] = (true, { req with
      mHost := (Finmap.lookup hostName req.mHeader).getD req.mHost }) := by
  rw [parse, List.foldl_nil]
  cases Finmap.lookup hostName req.mHeader <;> rfl

/-- The parser over any lines. -/
theorem parse_cons (req : HTTPRequest) (line : Bytes) (rest : List Bytes) :
    req.parse (line :: rest) = (true, {
      mMethod := (parseHttpMethod line).1
      mUri := (parseHttpMethod line).2.1
      mVer := (parseHttpMethod line).2.2
      mHost := (Finmap.lookup hostName (emplaceLines req.mHeader
        (rest.takeWhile (· ≠ crlf)))).getD req.mHost
      mHeader := emplaceLines req.mHeader (rest.takeWhile (· ≠ crlf))
      mBody := req.mBody ++ (rest.dropWhile (· ≠ crlf)).tail }) := by
  have hfirst : parseLine ⟨req, true, true⟩ line
      = ⟨{ req with mMethod := (parseHttpMethod line).1, mUri := (parseHttpMethod line).2.1,
                    mVer := (parseHttpMethod line).2.2 }, true, false⟩ := by
    rw [parseLine, if_pos rfl]
  rw [parse, List.foldl_cons, hfirst, foldl_parseLine_tail]
  cases Finmap.lookup hostName (emplaceLines req.mHeader (rest.takeWhile (· ≠ crlf))) <;> rfl

theorem parse_accepts (req : HTTPRequest) (lines : List Bytes) : (req.parse lines).1 = true := by
  cases lines with
  | nil => rw [parse_nil]
  | cons line rest => rw [parse_cons]

end Lines

/-- A request line is cut into its words, the last with the end of the line. -/
theorem parseHttpMethod_requestLine (line method uri version : Bytes)
    (h : IsRequestLine line method uri version) :
    parseHttpMethod line = (method, uri, version ++ crlf) := by
  have hver : ' ' ∉ version ++ crlf := by
    rw [List.mem_append]
    rintro (hmem | hmem)
    · exact h.version_token.space hmem
    · exact absurd hmem (by decide)
  rw [h.words]
  simp only [parseHttpMethod, takeUntil_append ' ' method _ h.method_token.space,
    takeUntil_append ' ' uri _ h.uri_token.space, takeUntil_of_not_mem ' ' _ hver]

theorem parse_requestLine (req : HTTPRequest) (lines : List Bytes) (line method uri version : Bytes)
    (hhead : lines.head? = some line) (h : IsRequestLine line method uri version) :
    (req.parse lines).2.mMethod = method ∧ (req.parse lines).2.mUri = uri ∧
      (req.parse lines).2.mVer = version ++ crlf := by
  cases lines with
  | nil => exact absurd hhead (by simp only [List.head?_nil, reduceCtorEq, not_false_eq_true])
  | cons first rest =>
      rw [List.head?_cons, Option.some.injEq] at hhead
      rw [parse_cons, hhead, parseHttpMethod_requestLine line method uri version h]
      exact ⟨rfl, rfl, rfl⟩

end HTTPRequest

/-- **What the parser accepts**: everything, which is right only for lines that
    are well formed. Of a request line it has method and URI, and the version
    with the end of the line. So it never does what it should. -/
theorem acceptance_exact (req : HTTPRequest) (lines : List Bytes) :
    (((req.parse lines).1 = true ↔ WellFormedLines lines) ↔ WellFormedLines lines) ∧
      (∀ line method uri version, lines.head? = some line →
        IsRequestLine line method uri version →
        (req.parse lines).2.mMethod = method ∧ (req.parse lines).2.mUri = uri ∧
          (req.parse lines).2.mVer = version ++ crlf) ∧
      ¬ req.ParsesExactly lines := by
  have haccepts := req.parse_accepts lines
  refine ⟨?_, req.parse_requestLine lines, ?_⟩
  · rw [haccepts, eq_self, true_iff]
  · rintro ⟨-, hfields⟩
    rcases hfields haccepts with ⟨line, hhead, hline⟩
    -- The version would be followed by the end of the line once more.
    have hver := (req.parse_requestLine lines line _ _ _ hhead hline).2.2
    have hlen := congrArg List.length hver
    rw [List.length_append, show crlf.length = 2 from rfl] at hlen
    omega

/-- No lines at all are accepted. -/
theorem acceptance_fails :
    ¬ ∀ (req : HTTPRequest) (lines : List Bytes), req.ParsesExactly lines := by
  intro h
  rcases (h {} []).1.mp rfl with ⟨⟨line, _, _, _, hhead, _⟩, _⟩
  exact absurd hhead (by simp only [List.head?_nil, reduceCtorEq, not_false_eq_true])

end HttpFileSharing
