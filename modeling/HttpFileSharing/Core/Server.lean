import HttpFileSharing.Core.Blacklist
import HttpFileSharing.Core.ProcessRequest

/-!
# The Connection Handler

What a worker does with one accepted connection. The handler is written as an
endless loop, but every way through the body leaves it, so it receives once
and processes what that gave.

A `recv` that fails is not told apart from one that succeeds: only a closed
connection and a timeout drop the connection, and after an error the request
is processed with no lines at all.

## Main definitions

* `receiveLines`: The lines the handler passes on, if it does.
* `parsedRequest`: The request that is parsed from them.
* `handleConnection`: The handler.
* `receiveWithin`: Receiving with a timeout.
* `Scores`, `Handled`: The scores, and what a handler did.
* `processScored`, `handleScored`: Processing and handling up to the update of
  the score.
-/

namespace HttpFileSharing

/-- `_handle_connection` up to `process_request`: the lines it passes on, or
    `none` where it drops the connection. `recv_req` is called without a
    timeout. -/
def receiveLines (size : Nat) (inbound : Inbound) : Option (List Bytes) :=
  -- An error is −1, which is neither of the two and goes on.
  let (bytes, lines, _) := recvReq size inbound [] 0 .ready
  if bytes = httpClientDisconnected then none
  else if bytes = httpReadTimedout then none
  else some lines

/-- The request `process_request` parses on a connection, with a receive
    buffer of `size` bytes. -/
def parsedRequest (size : Nat) (inbound : Inbound) : Option HTTPRequest :=
  (receiveLines size inbound).map (fun lines => (HTTPRequest.parse {} lines).2)

/-- `_handle_connection`: the request it processes, if it does. -/
def handleConnection (ndebug : Bool) (env : Env) (answers : Answers) (fuel : Nat)
    (errno : Errno) (inbound : Inbound) (src : Bytes) : Except Fault (Option Processed) :=
  match receiveLines defaultBufferSize inbound with
  | none => .ok none
  | some lines => processRequest ndebug env answers fuel errno lines src

/-- `_handle_connection` up to `process_request`, were `recv_req` called with a
    timeout: what it returned, and the lines that are passed on. -/
def receiveWithin (size timeout : Nat) (poll : Poll) (inbound : Inbound) :
    Int × Option (List Bytes) :=
  let (bytes, lines, _) := recvReq size inbound [] timeout poll
  (bytes, if bytes = httpClientDisconnected then none
    else if bytes = httpReadTimedout then none
    else some lines)

/-- The scores, in the map and in the table. -/
structure Scores where
  statsList : StatsList
  table : StatsTable

/-- What a handler did: the lines it called `process_request` with if it did,
    what it sent, and the scores it left. -/
structure Handled where
  processed : Option (List Bytes)
  out : Outbound
  scores : Scores

/-- `process_request` to its end, or `none` where the update of the score does
    not return. -/
def processScored (threshold : Int) (ndebug : Bool) (env : Env) (answers : Answers) (fuel : Nat)
    (errno : Errno) (lines : List Bytes) (src : IpAddr) (scores : Scores) :
    Except Fault (Option Handled) :=
  match processRequest ndebug env answers fuel errno lines src.text with
  | .error e => .error e
  | .ok none => .ok (some ⟨some lines, {}, scores⟩)
  | .ok (some p) =>
    match updateIpAddrStats threshold scores.statsList scores.table src p.goodRequest with
    | none => .ok none
    | some (_, statsList, table) => .ok (some ⟨some lines, p.out, ⟨statsList, table⟩⟩)

/-- `_handle_connection` to its end. -/
def handleScored (threshold : Int) (ndebug : Bool) (env : Env) (answers : Answers) (fuel : Nat)
    (errno : Errno) (timeout : Nat) (poll : Poll) (inbound : Inbound) (src : IpAddr)
    (scores : Scores) : Except Fault (Option Handled) :=
  match (receiveWithin defaultBufferSize timeout poll inbound).2 with
  | none => .ok (some ⟨none, {}, scores⟩)
  | some lines => processScored threshold ndebug env answers fuel errno lines src scores

end HttpFileSharing
