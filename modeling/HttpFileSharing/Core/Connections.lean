import HttpFileSharing.Core.TPool
import HttpFileSharing.Lib.Progress
import HttpFileSharing.Lib.Shared

/-!
# Connections and their Descriptors

The life of a connection. `TCPServer::accept_connection` makes a
`TCPConnection` from the descriptor that `accept` returned, its destructor
closes that descriptor, and in between nothing but a `shared_ptr` to it goes
from hand to hand: from `server_loop` through `add_job` into the queue, out of
it in `get_job`, and from `_tpool_worker_fn` down through `_handle_connection`,
`recv_req`, `process_request` and `send_http_rsp`, each of which takes it by
value. The kernel gives a closed descriptor to the next connection.

Every variable that holds the pointer is counted here, and its construction
and destruction are steps of their own or part of the step that makes or ends
the call it belongs to. The loop and the workers take their steps in any order, so
the last variable may be one of the loop, which comes out of `add_job` after the
job was handled, or one of the worker.

The pool is that of `Core.TPool`, with the accept loop as its one producer. The
verdict of the blacklist and the outcomes of the calls are left open: a
connection may be dropped or not, and a handler may turn back wherever its
source has a way to. `recv_req` and `send_http_rsp` go around in loops of calls
that the client has a hand in, so they have a step that leads nowhere. Whether
they ever take the other one is left open as well.

## Main definitions

* `Connections.LoopPc`: Where `server_loop` is, and what it holds.
* `Connections.HandlerPc`: Where a handler is in its calls.
* `Connections.HandlerPc.calls`, `Connections.HandlerPc.returns`,
  `Connections.HandlerPc.loops`: How it goes on.
* `Connections.State`, `Connections.Action`, `Connections.step`: The server.
* `Connections.isAccept`, `Connections.isTurn`: The step that brings a connection,
  and the one that leads nowhere.
* `Connections.system`: The server from its start.
* `Connections.held`: How many variables hold a connection.
-/

namespace HttpFileSharing

namespace Connections

/-- Where `server_loop` is: at `accept_connection`, with the connection it
    returned, or in `add_job` or past it, where `left` of the two variables of
    `add_job` are still there. -/
inductive LoopPc where
  | accepting
  | accepted (conn : Nat)
  | adding (conn : Nat) (left : Nat)
  deriving DecidableEq, Repr

/-- Where a handler is: `_handle_connection` not called yet, called, in
    `recv_req`, past it, in `process_request`, in `send_http_rsp`, past that, back
    in `_handle_connection`, or returned from it. -/
inductive HandlerPc where
  | entering
  | handling
  | receiving
  | received
  | processing
  | sending
  | sent
  | handled
  | returned
  deriving DecidableEq, Repr

/-- How many parameters of the handler's calls hold the connection. -/
def HandlerPc.copies : HandlerPc → Nat
  | .entering | .returned => 0
  | .handling | .received | .handled => 1
  | .receiving | .processing | .sent => 2
  | .sending => 3

/-- The calls that pass the connection on. -/
def HandlerPc.calls : HandlerPc → HandlerPc → Bool
  | .entering, .handling => true
  | .handling, .receiving => true
  | .received, .processing => true
  | .processing, .sending => true
  | _, _ => false

/-- The returns from these calls. Nothing says that `recv_req` and `send_http_rsp`
    ever do. -/
def HandlerPc.returns : HandlerPc → HandlerPc → Bool
  | .receiving, .received => true
  -- The client has gone or `poll` timed out.
  | .received, .returned => true
  -- The request did not parse.
  | .processing, .handled => true
  | .sending, .sent => true
  | .sent, .handled => true
  | .handled, .returned => true
  | _, _ => false

/-- The calls that can go around once more: for the next part of the request, or of
    the response. -/
def HandlerPc.loops : HandlerPc → Bool
  | .receiving | .sending => true
  | _ => false

/-- The server with workers `ω`. The resource of a connection is its
    descriptor. -/
structure State (ω : Type*) where
  pool : TPool.State ω Unit Nat
  loop : LoopPc
  handler : ω → HandlerPc
  conns : Shared Nat

/-- One step of the loop or of a worker. -/
inductive Action (ω : Type*) where
  | accept (fd : Nat)
  | drop
  | addJob
  | push
  | destroy
  | endTurn
  | pop (w : ω)
  | call (w : ω) (pc : HandlerPc)
  | leave (w : ω) (pc : HandlerPc)
  | turn (w : ω)
  | finish (w : ω)
  | pool (a : TPool.Action ω Unit Nat)

/-- The steps of the pool that neither copy nor destroy a job. -/
def isPlain {ω : Type*} : TPool.Action ω Unit Nat → Bool
  | .lockQueue _ | .post _ | .unlockQueue _ | .semWait _ | .lock _ | .unlock _ => true
  | _ => false

/-- The step that brings a connection. -/
def isAccept {ω : Type*} : Action ω → Bool
  | .accept _ => true
  | _ => false

/-- One more turn of a loop of a handler. -/
def isTurn {ω : Type*} : Action ω → Bool
  | .turn _ => true
  | _ => false

variable {ω : Type*} [DecidableEq ω]

/-- Worker `w` has come to `pc` in its handler. -/
def State.atPoint (s : State ω) (w : ω) (pc : HandlerPc) : State ω :=
  { s with handler := Function.update s.handler w pc }

/-- One step. -/
def step (s : State ω) : Action ω → Option (State ω)
  -- The kernel returns a descriptor that is not open.
  | .accept fd => match s.loop, s.conns.owner fd with
    | .accepting, none => some { s with
        loop := .accepted s.conns.next, conns := s.conns.make fd }
    | _, _ => none
  | .drop => match s.loop with
    | .accepted c => some { s with loop := .accepting, conns := s.conns.release c }
    | _ => none
  -- The parameter `connection` and the field `job.connection`.
  | .addJob => match s.loop with
    | .accepted c => (TPool.step s.pool (.addJob () c)).map (fun q => { s with
        pool := q, loop := .adding c 2, conns := (s.conns.copy c).copy c })
    | _ => none
  | .push => match s.pool.producer () with
    | .locked c => (TPool.step s.pool (.push ())).map (fun q => { s with
        pool := q, conns := s.conns.copy c })
    | _ => none
  | .destroy => match s.loop, s.pool.producer () with
    | .adding c (left + 1), .idle => some { s with
        loop := .adding c left, conns := s.conns.release c }
    | _, _ => none
  | .endTurn => match s.loop with
    | .adding c 0 => some { s with loop := .accepting, conns := s.conns.release c }
    | _ => none
  -- `front` is copied before `pop` destroys it.
  | .pop w => match s.pool.queue with
    | c :: _ => (TPool.step s.pool (.pop w)).map (fun q => { s with
        pool := q, conns := (s.conns.copy c).release c })
    | [] => none
  | .call w pc => match s.pool.worker w with
    | .running c =>
      if (s.handler w).calls pc = true then
        some { s.atPoint w pc with conns := s.conns.copy c }
      else none
    | _ => none
  | .leave w pc => match s.pool.worker w with
    | .running c =>
      if (s.handler w).returns pc = true then
        some { s.atPoint w pc with conns := s.conns.release c }
      else none
    | _ => none
  | .turn w => match s.pool.worker w with
    | .running _ => if (s.handler w).loops = true then some s else none
    | _ => none
  -- The `ret` of `_tpool_worker_fn` goes with its turn.
  | .finish w => match s.pool.worker w, s.handler w with
    | .running c, .returned => (TPool.step s.pool (.finish w)).map (fun q =>
        { s.atPoint w .entering with pool := q, conns := s.conns.release c })
    | _, _ => none
  | .pool a =>
    if isPlain a = true then (TPool.step s.pool a).map (fun q => { s with pool := q }) else none

/-- The server before its first connection. -/
def State.fresh : State ω where
  pool := TPool.State.fresh
  loop := .accepting
  handler := fun _ => .entering
  conns := Shared.empty

/-- The server with any workers. -/
def system (ω : Type*) [DecidableEq ω] : System (State ω) (Action ω) where
  init s := s = State.fresh
  step := step

/-- How many variables of `server_loop` and `add_job` hold `c`. -/
def LoopPc.holds (c : Nat) : LoopPc → Nat
  | .accepting => 0
  | .accepted d => if c = d then 1 else 0
  | .adding d left => if c = d then 1 + left else 0

/-- How many variables of a worker hold `c`: the one `get_job` returned it in
    and the parameters of its handler's calls. -/
def workerHolds (c : Nat) (worker : TPool.WorkerPc Nat) (pc : HandlerPc) : Nat :=
  match worker with
  | .popped d => if c = d then 1 else 0
  | .running d => if c = d then 1 + pc.copies else 0
  | _ => 0

omit [DecidableEq ω] in
/-- How many variables hold `c`, the jobs in the queue included. -/
def held [Fintype ω] (s : State ω) (c : Nat) : Nat :=
  s.loop.holds c + s.pool.queue.count c
    + total (fun w => workerHolds c (s.pool.worker w) (s.handler w))

end Connections

end HttpFileSharing
