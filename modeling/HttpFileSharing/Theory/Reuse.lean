import HttpFileSharing.Theory.Acceptance

/-!
# Using a Request Again

A request object that has been parsed into before, cleared, and parsed into
once more, beside a new object parsed into for the first time. Clearing forgets
headers and body but leaves the request line and the host. The next parse
overwrites the request line if it has a line at all, and the host if there is a
header of that name, so whether anything of the past shows depends on both
sides.

What an object remembers of its past is read off the past alone: the last first
line that was parsed, and the host of the last stretch between two clears in
which a host came along, the first one of that stretch.

## Main definitions

* `Call`, `run`: A history of calls and the object after it.
* `firstHost`, `HasHost`: The first host of a block of lines.
* `Settled`: Headers and host that go together.
* `lastRequestLine`: The last first line of a history.
* `stretches`, `hostLeft`: The host a history leaves behind.

## Theorems

* `lookup_emplaceLines`: The first host of a block is the one that is found.
* `run_requestLine`, `run_host`: What an object remembers.
* `parse_clear_eq_iff`: When it does not show.
* `reuse_exact`: The same, over every history.
* `reuse_fails`: A host that is not forgotten.
-/

namespace HttpFileSharing

namespace HTTPRequest

/-- A call on a request object. -/
inductive Call where
  | parse (lines : List Bytes)
  | clear
  deriving DecidableEq, Repr

/-- The object after one more call. -/
def Call.apply (req : HTTPRequest) : Call → HTTPRequest
  | parse lines => (req.parse lines).2
  | clear => req.clear

/-- The object after a history of calls. -/
def run (req : HTTPRequest) (history : List Call) : HTTPRequest := history.foldl Call.apply req

/-- The value of the first host among some header lines. -/
def firstHost (block : List Bytes) : Option Bytes :=
  (block.find? (fun l => (splitLineColon l).1 = hostName)).map (fun l => (splitLineColon l).2)

/-- The headers of a request include a host. -/
def HasHost (lines : List Bytes) : Prop :=
  ∃ l ∈ headerBlock lines, (splitLineColon l).1 = hostName

/-- The last first line of a history. -/
def lastRequestLine : List Call → Option Bytes
  | [] => none
  | .parse lines :: history => (lastRequestLine history).or lines.head?
  | .clear :: history => lastRequestLine history

/-- The header lines of a history: those in front of the first clear, and those
    of each stretch from one clear to the next. -/
def stretches : List Call → List Bytes × List (List Bytes)
  | [] => ([], [])
  | .parse lines :: history =>
    (headerBlock lines ++ (stretches history).1, (stretches history).2)
  | .clear :: history => ([], (stretches history).1 :: (stretches history).2)

/-- The last host among some stretches, each with its first one. -/
def lastHost (host : Bytes) (blocks : List (List Bytes)) : Bytes :=
  blocks.foldl (fun host block => (firstHost block).getD host) host

/-- The host that a history leaves behind, if there was none before it. -/
def hostLeft (history : List Call) : Bytes :=
  lastHost [] ((stretches history).1 :: (stretches history).2)

section Hosts

theorem lookup_emplaceLines (m : StdMap Bytes Bytes) (block : List Bytes) :
    Finmap.lookup hostName (emplaceLines m block)
      = (Finmap.lookup hostName m).or (firstHost block) :=
  StdMap.lookup_foldl_emplace block (fun l => (splitLineColon l).1)
    (fun l => (splitLineColon l).2) m hostName

theorem firstHost_append (block more : List Bytes) :
    firstHost (block ++ more) = (firstHost block).or (firstHost more) := by
  rw [firstHost, List.find?_append, Option.map_or]
  rfl

theorem hasHost_iff (lines : List Bytes) :
    HasHost lines ↔ (firstHost (headerBlock lines)).isSome = true := by
  rw [firstHost, Option.isSome_map, List.find?_isSome]
  simp only [HasHost, decide_eq_true_eq]

end Hosts

section Memory

/-- The parser without the request line: the headers and the host. -/
theorem parse_header_host (req : HTTPRequest) (lines : List Bytes) :
    (req.parse lines).2.mHeader = emplaceLines req.mHeader (headerBlock lines) ∧
      (req.parse lines).2.mHost
        = ((Finmap.lookup hostName req.mHeader).or (firstHost (headerBlock lines))).getD
            req.mHost := by
  cases lines with
  | nil =>
      rw [parse_nil, show headerBlock [] = [] from rfl, show firstHost [] = none from rfl,
        Option.or_none]
      exact ⟨rfl, rfl⟩
  | cons line rest =>
      rw [parse_cons, ← lookup_emplaceLines]
      exact ⟨rfl, rfl⟩

/-- Headers and host that go together: a host among the headers is the host. -/
def Settled (req : HTTPRequest) : Prop :=
  ∀ host, Finmap.lookup hostName req.mHeader = some host → req.mHost = host

theorem Settled.getD {req : HTTPRequest} (h : req.Settled) :
    (Finmap.lookup hostName req.mHeader).getD req.mHost = req.mHost := by
  cases hhost : Finmap.lookup hostName req.mHeader with
  | none => rfl
  | some host => exact (h host hhost).symm

/-- Either call leaves headers and host that go together. -/
theorem settled_apply (req : HTTPRequest) (call : Call) : (call.apply req).Settled := by
  cases call with
  | parse lines =>
      rcases parse_header_host req lines with ⟨hheader, hhost⟩
      intro host hlookup
      rw [Call.apply, hheader, lookup_emplaceLines] at hlookup
      rw [Call.apply, hhost, hlookup, Option.getD_some]
  | clear =>
      intro host hlookup
      rw [Call.apply, clear, Finmap.lookup_empty] at hlookup
      exact absurd hlookup (by simp only [reduceCtorEq, not_false_eq_true])

/-- The host an object remembers, by induction on what is still to come. -/
theorem run_host_from (history : List Call) (req : HTTPRequest) (hreq : req.Settled) :
    (run req history).mHost
      = lastHost (((Finmap.lookup hostName req.mHeader).or
          (firstHost (stretches history).1)).getD req.mHost) (stretches history).2 := by
  induction history generalizing req with
  | nil =>
      rw [stretches, show firstHost [] = none from rfl, Option.or_none, hreq.getD]
      rfl
  | cons call history ih =>
      have hrest := ih (call.apply req) (settled_apply req call)
      cases call with
      | parse lines =>
          rcases parse_header_host req lines with ⟨hheader, hhost⟩
          rw [Call.apply, hheader, lookup_emplaceLines, hhost] at hrest
          refine hrest.trans ?_
          rw [stretches, firstHost_append, ← Option.or_assoc]
          -- The host of this request is one of the two that are tried first.
          cases (Finmap.lookup hostName req.mHeader).or (firstHost (headerBlock lines)) <;> rfl
      | clear =>
          rw [Call.apply, clear, Finmap.lookup_empty, Option.none_or] at hrest
          refine hrest.trans ?_
          rw [stretches, show firstHost [] = none from rfl, Option.or_none, hreq.getD]
          rfl

theorem run_host (history : List Call) : (run {} history).mHost = hostLeft history := by
  refine (run_host_from history {} (fun host hhost => ?_)).trans ?_
  · exact absurd hhost (by
      rw [Finmap.lookup_empty]
      simp only [reduceCtorEq, not_false_eq_true])
  · rw [Finmap.lookup_empty, Option.none_or]
    rfl

/-- The request line an object remembers. -/
theorem run_requestLine_from (history : List Call) (req : HTTPRequest) :
    ((run req history).mMethod, (run req history).mUri, (run req history).mVer)
      = match lastRequestLine history with
        | some line => parseHttpMethod line
        | none => (req.mMethod, req.mUri, req.mVer) := by
  induction history generalizing req with
  | nil => rfl
  | cons call history ih =>
      refine (ih (call.apply req)).trans ?_
      cases call with
      | clear => rfl
      | parse lines =>
          rw [lastRequestLine]
          cases lastRequestLine history with
          | some line => rfl
          | none =>
              rw [Option.none_or]
              cases lines with
              | nil => simp only [Call.apply, parse_nil, List.head?_nil]
              | cons line rest => simp only [Call.apply, parse_cons, List.head?_cons]

theorem run_requestLine (history : List Call) :
    ((run {} history).mMethod, (run {} history).mUri, (run {} history).mVer)
      = parseHttpMethod ((lastRequestLine history).getD []) := by
  rw [run_requestLine_from]
  cases lastRequestLine history <;> rfl

end Memory

/-- When an object that was cleared is parsed into like a new one. -/
theorem parse_clear_eq_iff (req : HTTPRequest) (lines : List Bytes) :
    (req.clear.parse lines).2 = (({} : HTTPRequest).parse lines).2 ↔
      (lines ≠ [] ∨ (req.mMethod, req.mUri, req.mVer) = ([], [], [])) ∧
        (HasHost lines ∨ req.mHost = []) := by
  cases lines with
  | nil =>
      have hno : ¬ HasHost [] := fun h => absurd h.choose_spec.1 List.not_mem_nil
      rw [parse_nil, parse_nil]
      simp only [clear, Finmap.lookup_empty, Option.getD_none, HTTPRequest.mk.injEq, ne_eq,
        not_true, false_or, hno, Prod.mk.injEq, and_true, and_assoc]
  | cons line rest =>
      rw [parse_cons, parse_cons]
      simp only [clear, HTTPRequest.mk.injEq, ne_eq, reduceCtorEq, not_false_eq_true, true_or,
        true_and, and_true, hasHost_iff]
      rw [lookup_emplaceLines, Finmap.lookup_empty, Option.none_or]
      rw [show headerBlock (line :: rest) = rest.takeWhile (· ≠ crlf) from rfl]
      cases firstHost (rest.takeWhile (· ≠ crlf)) with
      | none => simp only [Option.getD_none, Option.isSome_none, Bool.false_eq_true, false_or]
      | some host => simp only [Option.getD_some, Option.isSome_some, true_or]

end HTTPRequest

open HTTPRequest

/-- **Using a request again**: after any history, an object that is cleared and
    parsed into is like a new one exactly if there is a line to parse or the last
    first line of the history left no words, and there is a host to parse or the
    history left none. -/
theorem reuse_exact (history : List Call) (lines : List Bytes) :
    ((run {} history).clear.parse lines).2 = (({} : HTTPRequest).parse lines).2 ↔
      (lines ≠ [] ∨ parseHttpMethod ((lastRequestLine history).getD []) = ([], [], [])) ∧
        (HasHost lines ∨ hostLeft history = []) := by
  rw [parse_clear_eq_iff, run_requestLine, run_host]

/-- A request with a host, and one without. -/
theorem reuse_fails :
    ¬ ∀ (history : List Call) (lines : List Bytes),
      ((run {} history).clear.parse lines).2 = (({} : HTTPRequest).parse lines).2 := by
  intro h
  have hhost := congrArg mHost (h [.parse ["GET / 1\r\n".toList, "Host: a\r\n".toList]]
    ["GET / 1\r\n".toList])
  exact absurd hhost (by decide)

end HttpFileSharing
