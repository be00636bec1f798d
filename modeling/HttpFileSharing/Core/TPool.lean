import HttpFileSharing.Lib.System

/-!
# The Thread Pool

The job queue between the accept loop and the workers. `add_job` locks the
queue mutex, pushes the job, posts the semaphore and unlocks; `get_job` waits
on the semaphore, locks the queue mutex, reads and pops the front of the
queue and unlocks. A worker then runs the job and comes back for the next
one.

Each of these is a step of its own. `post` and the return from `wait` are
single steps here, the latter enabled only while the value is positive. What
the semaphore does inside them is the subject of `Core.Semaphore`.

`front` and `pop` on an empty queue are undefined behaviour in C++, so the
step that performs them has no result there.

Two fields record history and are read by no step: the jobs pushed so far,
in push order, and the jobs popped so far, in pop order and with the worker
that popped each.

## Main definitions

* `TPool.WorkerPc`: The program points of `get_job` and `_tpool_worker_fn`.
* `TPool.ProducerPc`: The program points of `add_job`.
* `TPool.State`: The queue, the semaphore value, the mutex and the threads.
* `TPool.Action`: What one thread does next.
* `TPool.step`: One step of `add_job` or `get_job`.
* `TPool.system`: The pool as a transition system.
* `TPool.WorkerPc.isOwed`: The worker has a unit and no job for it yet.
* `TPool.WorkerPc.holdsMutex`, `TPool.ProducerPc.holdsMutex`: The points
  inside the two critical sections.
-/

namespace HttpFileSharing

namespace TPool

/-- Where a worker is: in `m_sem.wait`, past it, holding the queue mutex,
    holding it with the job popped, or running the job. -/
inductive WorkerPc (J : Type*) where
  | waiting
  | passed
  | locked
  | popped (job : J)
  | running (job : J)
  deriving DecidableEq, Repr

/-- Where a producer is: outside `add_job`, about to lock the queue mutex,
    about to push, about to post, or about to unlock. -/
inductive ProducerPc (J : Type*) where
  | idle
  | entered (job : J)
  | locked (job : J)
  | pushed
  | posted
  deriving DecidableEq, Repr

/-- The pool and its threads, with workers `ω`, producers `π` and jobs `J`. -/
structure State (ω π J : Type*) where
  /-- `m_queue`, front first. -/
  queue : List J
  /-- The value of `m_sem`. -/
  sem : Nat
  /-- The thread that holds `m_queue_mutex`. -/
  mutex : Option (ω ⊕ π)
  worker : ω → WorkerPc J
  producer : π → ProducerPc J
  /-- Every job pushed so far, in push order. -/
  pushed : List J
  /-- Every job popped so far with the worker that popped it, in pop order. -/
  popped : List (ω × J)

/-- One step of a producer in `add_job` or of a worker in `get_job`. -/
inductive Action (ω π J : Type*) where
  | addJob (p : π) (job : J)
  | lockQueue (p : π)
  | push (p : π)
  | post (p : π)
  | unlockQueue (p : π)
  | semWait (w : ω)
  | lock (w : ω)
  | pop (w : ω)
  | unlock (w : ω)
  | finish (w : ω)

variable {ω π J : Type*} [DecidableEq ω] [DecidableEq π]

/-- Producer `p` goes on to point `pc`. -/
def State.setProducer (s : State ω π J) (p : π) (pc : ProducerPc J) : State ω π J :=
  { s with producer := Function.update s.producer p pc }

/-- Worker `w` goes on to point `pc`. -/
def State.setWorker (s : State ω π J) (w : ω) (pc : WorkerPc J) : State ω π J :=
  { s with worker := Function.update s.worker w pc }

/-- One step of the pool. -/
def step (s : State ω π J) : Action ω π J → Option (State ω π J)
  | .addJob p job => match s.producer p with
    | .idle => some (s.setProducer p (.entered job))
    | _ => none
  | .lockQueue p => match s.producer p, s.mutex with
    | .entered job, none => some { s.setProducer p (.locked job) with mutex := some (.inr p) }
    | _, _ => none
  | .push p => match s.producer p with
    | .locked job => some { s.setProducer p .pushed with
        queue := s.queue ++ [job], pushed := s.pushed ++ [job] }
    | _ => none
  | .post p => match s.producer p with
    | .pushed => some { s.setProducer p .posted with sem := s.sem + 1 }
    | _ => none
  | .unlockQueue p => match s.producer p with
    | .posted => some { s.setProducer p .idle with mutex := none }
    | _ => none
  | .semWait w => match s.worker w, s.sem with
    | .waiting, n + 1 => some { s.setWorker w .passed with sem := n }
    | _, _ => none
  | .lock w => match s.worker w, s.mutex with
    | .passed, none => some { s.setWorker w .locked with mutex := some (.inl w) }
    | _, _ => none
  -- `front` and `pop` have no result on an empty queue.
  | .pop w => match s.worker w, s.queue with
    | .locked, job :: rest => some { s.setWorker w (.popped job) with
        queue := rest, popped := s.popped ++ [(w, job)] }
    | _, _ => none
  | .unlock w => match s.worker w with
    | .popped job => some { s.setWorker w (.running job) with mutex := none }
    | _ => none
  | .finish w => match s.worker w with
    | .running _ => some (s.setWorker w .waiting)
    | _ => none

/-- A pool just constructed: nothing queued, every worker in its first wait. -/
def State.fresh : State ω π J where
  queue := []
  sem := 0
  mutex := none
  worker := fun _ => .waiting
  producer := fun _ => .idle
  pushed := []
  popped := []

/-- The pool with any workers and any producers. -/
def system (ω π J : Type*) [DecidableEq ω] [DecidableEq π] :
    System (State ω π J) (Action ω π J) where
  init s := s = State.fresh
  step := step

/-- The worker has passed the semaphore and not popped its job yet. -/
def WorkerPc.isOwed : WorkerPc J → Bool
  | .passed | .locked => true
  | _ => false

/-- The worker is inside the critical section of `get_job`. -/
def WorkerPc.holdsMutex : WorkerPc J → Bool
  | .locked | .popped _ => true
  | _ => false

/-- The producer is inside the critical section of `add_job`. -/
def ProducerPc.holdsMutex : ProducerPc J → Bool
  | .locked _ | .pushed | .posted => true
  | _ => false

end TPool

end HttpFileSharing
