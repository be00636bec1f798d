import HttpFileSharing.Core.Blacklist
import HttpFileSharing.Core.TPool

/-!
# The Server Loop

The server as it runs: the accept loop, the thread pool and the blacklist
module put together. `server_loop` accepts a connection, asks
`is_ipaddr_blacklisted` about its address, and either drops it or adds it to
the pool. A worker takes it from the queue some time later and handles it. The
handler may look the score up, for its log, and it may update it, at most once
and as the last thing it does; a handler that gives up before that leaves the
score alone.

The pool is that of `Core.TPool`, with the accept loop as its one producer, and
the blacklist module is that of `Core.Blacklist`, with the accept loop as
thread `none` and the workers as the others. A step of the server is a step of
one of the two, or of both parties to a call. The loop is inside `add_job` for
as long as the producer is.

The process can be killed between any two steps. What comes up after it has an
empty queue and idle threads, and the table.

## Main definitions

* `ServerLoop.Conn`: A connection.
* `ServerLoop.LoopPc`, `ServerLoop.Stage`: Where the loop is, and how far a
  handler has come with its update.
* `ServerLoop.State`: The module, the pool, the loop and the handlers.
* `ServerLoop.Action`, `ServerLoop.step`: One step.
* `ServerLoop.system`: The server started from a given table.
* `ServerLoop.inFlight`: The connections of an address that were let through
  and are not finished.
-/

namespace HttpFileSharing

namespace ServerLoop

/-- A connection, by the address it comes from. -/
structure Conn where
  src : IpAddr
  deriving DecidableEq

/-- Where `server_loop` is: accepting or in `add_job`, in
    `is_ipaddr_blacklisted` before or after it looks the address up, or past
    it with a connection to add. -/
inductive LoopPc where
  | accepting
  | checking (conn : Conn)
  | checked (conn : Conn) (blacklisted : Bool)
  | passed (conn : Conn)
  deriving DecidableEq

/-- How far a handler has come with `update_ip_addr_stats`: not called, before
    its map write, after it, or returned. -/
inductive Stage where
  | fresh
  | called
  | stored
  | returned
  deriving DecidableEq

/-- The server with workers `ω`. -/
structure State (ω : Type*) where
  ledger : Blacklist.Ledger (Option ω)
  pool : TPool.State ω Unit Conn
  loop : LoopPc
  stage : ω → Stage

/-- One step of the loop, of a worker, of the pool or of the module. -/
inductive Action (ω : Type*) where
  | accept (conn : Conn)
  | check
  | verdict
  | addJob
  | pool (a : TPool.Action ω Unit Conn)
  | lookUp (w : ω)
  | update (w : ω) (good : Bool)
  | storeMap (w : ω)
  | returned (w : ω)
  | finish (w : ω)
  | stats (a : Blacklist.Action (Option ω))
  | kill
  | restart

/-- The steps of the pool that are not also a step of the loop or of a
    handler. -/
def isQueueing {ω : Type*} : TPool.Action ω Unit Conn → Bool
  | .addJob _ _ | .finish _ => false
  | _ => true

/-- The steps of the module that are not also a step of the loop or of a
    handler. -/
def isLocking {ω : Type*} : Blacklist.Action (Option ω) → Bool
  | .acquire _ | .find _ | .storeDb _ | .readAcquire _ => true
  | .read t | .readRelease t => t.isSome
  | _ => false

variable {ω : Type*} [DecidableEq ω]

/-- A process with nothing queued and nothing under way. -/
def State.fresh (ledger : Blacklist.Ledger (Option ω)) : State ω where
  ledger := ledger
  pool := TPool.State.fresh
  loop := .accepting
  stage _ := .fresh

/-- The module has gone on to `ledger`; if that was its end, so it was for the
    process. -/
def State.withLedger (s : State ω) (ledger : Blacklist.Ledger (Option ω)) : State ω :=
  match ledger.process with
  | some _ => { s with ledger := ledger }
  | none => State.fresh ledger

/-- Worker `w` has come to `stage` with its update. -/
def State.atStage (s : State ω) (w : ω) (stage : Stage) : State ω :=
  { s with stage := Function.update s.stage w stage }

/-- One step of a running server. -/
def stepRunning (threshold : Int) (s : State ω) (p : Blacklist.Process (Option ω)) :
    Action ω → Option (State ω)
  | .accept conn => match s.loop, s.pool.producer () with
    | .accepting, .idle => (Blacklist.step s.ledger (.readCall none conn.src)).map
        (fun l => { s with ledger := l, loop := .checking conn })
    | _, _ => none
  -- The verdict is made while the map is locked, and returned later.
  | .check => match s.loop with
    | .checking conn => (Blacklist.step s.ledger (.read none)).map
        (fun l => { s with
          ledger := l
          loop := .checked conn (isIpaddrBlacklisted threshold p.statsList conn.src) })
    | _ => none
  | .verdict => match s.loop with
    | .checked conn blacklisted => (Blacklist.step s.ledger (.readRelease none)).map
        (fun l => { s with
          ledger := l
          loop := if blacklisted = true then .accepting else .passed conn })
    | _ => none
  | .addJob => match s.loop with
    | .passed conn => (TPool.step s.pool (.addJob () conn)).map
        (fun q => { s with pool := q, loop := .accepting })
    | _ => none
  | .pool a =>
    if isQueueing a = true then (TPool.step s.pool a).map (fun q => { s with pool := q }) else none
  -- The score is looked up for the log, before the update.
  | .lookUp w => match s.pool.worker w, s.stage w with
    | .running conn, .fresh => (Blacklist.step s.ledger (.readCall (some w) conn.src)).map
        (fun l => { s with ledger := l })
    | _, _ => none
  | .update w good => match s.pool.worker w, s.stage w with
    | .running conn, .fresh => (Blacklist.step s.ledger (.call (some w) conn.src good)).map
        (fun l => { s.atStage w .called with ledger := l })
    | _, _ => none
  | .storeMap w => match s.stage w with
    | .called => (Blacklist.step s.ledger (.storeMap (some w))).map
        (fun l => { s.atStage w .stored with ledger := l })
    | _ => none
  | .returned w => match s.stage w with
    | .stored => (Blacklist.step s.ledger (.release (some w))).map
        (fun l => { s.atStage w .returned with ledger := l })
    | _ => none
  -- Also a handler that never came to its update ends here.
  | .finish w => match p.pc (some w) with
    | .idle => (TPool.step s.pool (.finish w)).map
        (fun q => { s.atStage w .fresh with pool := q })
    | _ => none
  | .stats a => if isLocking a = true then (Blacklist.step s.ledger a).map s.withLedger else none
  | .kill => (Blacklist.step s.ledger .kill).map State.fresh
  | .restart => none

/-- One step: of a running server, or the start of one that is down. -/
def step (threshold : Int) (s : State ω) (a : Action ω) : Option (State ω) :=
  match s.ledger.process, a with
  | some p, a => stepRunning threshold s p a
  | none, .restart => (Blacklist.step s.ledger .restart).map State.fresh
  | none, _ => none

/-- The server started from a table, with the process not up yet. -/
def system (ω : Type*) [DecidableEq ω] (threshold : Int) (start : Blacklist.StartTable) :
    System (State ω) (Action ω) where
  init s := s = State.fresh ⟨start.rows, none, []⟩
  step := step threshold

/-- The connection comes from address `ip`. -/
def Conn.isFrom (ip : IpAddr) (conn : Conn) : Bool := conn.src = ip

/-- Whether the loop has let a connection of `ip` through that is not in the
    pool yet. -/
def LoopPc.carries (ip : IpAddr) : LoopPc → Bool
  | .checked conn false | .passed conn => conn.isFrom ip
  | _ => false

/-- The producer has a job that passes the test and has not pushed it. -/
def producerCarries (test : Conn → Bool) : TPool.ProducerPc Conn → Bool
  | .entered conn | .locked conn => test conn
  | _ => false

/-- The worker has popped a job that passes the test and not finished it. -/
def workerCarries (test : Conn → Bool) : TPool.WorkerPc Conn → Bool
  | .popped conn | .running conn => test conn
  | _ => false

/-- The connections of `ip` that were let through and that the loop, the queue
    or a worker in `counted` has. -/
def carried [Fintype ω] (ip : IpAddr) (counted : ω → Bool) (s : State ω) : Nat :=
  (if s.loop.carries ip = true then 1 else 0)
    + (if producerCarries (Conn.isFrom ip) (s.pool.producer ()) = true then 1 else 0)
    + s.pool.queue.countP (Conn.isFrom ip)
    + countAt id (fun w => workerCarries (Conn.isFrom ip) (s.pool.worker w) && counted w)

/-- The connections of `ip` in flight: let through and not finished. -/
def inFlight [Fintype ω] (ip : IpAddr) (s : State ω) : Nat := carried ip (fun _ => true) s

end ServerLoop

end HttpFileSharing
