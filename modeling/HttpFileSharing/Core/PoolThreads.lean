import Mathlib.Data.Fintype.Sum
import HttpFileSharing.Core.Semaphore
import HttpFileSharing.Core.TPool

/-!
# The Thread Pool on its Semaphore

The thread pool once more, with the semaphore it really has: `add_job` calls
`Semaphore::post` while it holds the queue mutex, and `get_job` calls
`Semaphore::wait` before it locks it. Between the call and the return the thread
is at one of the points of the semaphore, every one of which is a step here as
well. So a run may have a producer in the middle of `post`, with the queue mutex
and the mutex of the semaphore both held, while workers sleep on the condition
variable, have been woken, or come in from their last job.

The thread returns from `wait` or `post` in the step that unlocks the mutex of
the semaphore.

## Main definitions

* `PoolThreads.State`: The queue, the threads and the semaphore.
* `PoolThreads.Action`: What one thread, or the scheduler, does next.
* `PoolThreads.isInner`: The steps inside `wait` and `post`.
* `PoolThreads.step`: One step of `add_job`, `get_job`, `wait` or `post`.
* `PoolThreads.system`: The pool as a transition system.
* `PoolThreads.Action.isInternal`: The steps of threads that are at work.
-/

namespace HttpFileSharing

namespace PoolThreads

open TPool (WorkerPc ProducerPc)

/-- The pool and its threads, with workers `ω`, producers `π` and jobs `J`. A
    worker in `wait` and a producer in `post` are where the semaphore says. -/
structure State (ω π J : Type*) where
  /-- `m_queue`, front first. -/
  queue : List J
  /-- `m_sem`. -/
  mSem : Semaphore.State (ω ⊕ π)
  /-- The thread that holds `m_queue_mutex`. -/
  mutex : Option (ω ⊕ π)
  worker : ω → WorkerPc J
  producer : π → ProducerPc J
  /-- Every job pushed so far, in push order. -/
  pushed : List J
  /-- Every job popped so far with the worker that popped it, in pop order. -/
  popped : List (ω × J)

/-- One step: of a producer in `add_job`, of a worker in `get_job`, or of a
    thread inside the semaphore. -/
inductive Action (ω π J : Type*) where
  | addJob (p : π) (job : J)
  | lockQueue (p : π)
  | push (p : π)
  | callPost (p : π)
  | returnPost (p : π)
  | unlockQueue (p : π)
  | callWait (w : ω)
  | returnWait (w : ω)
  | lock (w : ω)
  | pop (w : ω)
  | unlock (w : ω)
  | finish (w : ω)
  | inner (a : Semaphore.Action (ω ⊕ π))

/-- The steps of the semaphore between a call and its return. -/
def isInner {τ : Type*} : Semaphore.Action τ → Bool
  | .callWait _ | .callPost _ | .unlock _ => false
  | _ => true

variable {ω π J : Type*} [Fintype ω] [Fintype π] [DecidableEq ω] [DecidableEq π]

/-- Producer `p` goes on to point `pc`. -/
def State.setProducer (s : State ω π J) (p : π) (pc : ProducerPc J) : State ω π J :=
  { s with producer := Function.update s.producer p pc }

/-- Worker `w` goes on to point `pc`. -/
def State.setWorker (s : State ω π J) (w : ω) (pc : WorkerPc J) : State ω π J :=
  { s with worker := Function.update s.worker w pc }

/-- One step of the pool. -/
def step (s : State ω π J) : Action ω π J → Option (State ω π J)
  | .addJob p job => match s.producer p with
    | .idle => some (s.setProducer p (.entered job))
    | _ => none
  | .lockQueue p => match s.producer p, s.mutex with
    | .entered job, none => some { s.setProducer p (.locked job) with mutex := some (.inr p) }
    | _, _ => none
  | .push p => match s.producer p with
    | .locked job => some { s.setProducer p .pushed with
        queue := s.queue ++ [job], pushed := s.pushed ++ [job] }
    | _ => none
  | .callPost p => match s.producer p with
    | .pushed => (Semaphore.step s.mSem (.callPost (.inr p))).map (fun sem => { s with mSem := sem })
    | _ => none
  | .returnPost p => match s.producer p, s.mSem.pc (.inr p) with
    | .pushed, .postUnlock => (Semaphore.step s.mSem (.unlock (.inr p))).map
        (fun sem => { s.setProducer p .posted with mSem := sem })
    | _, _ => none
  | .unlockQueue p => match s.producer p with
    | .posted => some { s.setProducer p .idle with mutex := none }
    | _ => none
  | .callWait w => match s.worker w with
    | .waiting => (Semaphore.step s.mSem (.callWait (.inl w))).map (fun sem => { s with mSem := sem })
    | _ => none
  | .returnWait w => match s.worker w, s.mSem.pc (.inl w) with
    | .waiting, .waitUnlock => (Semaphore.step s.mSem (.unlock (.inl w))).map
        (fun sem => { s.setWorker w .passed with mSem := sem })
    | _, _ => none
  | .lock w => match s.worker w, s.mutex with
    | .passed, none => some { s.setWorker w .locked with mutex := some (.inl w) }
    | _, _ => none
  -- `front` and `pop` have no result on an empty queue.
  | .pop w => match s.worker w, s.queue with
    | .locked, job :: rest => some { s.setWorker w (.popped job) with
        queue := rest, popped := s.popped ++ [(w, job)] }
    | _, _ => none
  | .unlock w => match s.worker w with
    | .popped job => some { s.setWorker w (.running job) with mutex := none }
    | _ => none
  | .finish w => match s.worker w with
    | .running _ => some (s.setWorker w .waiting)
    | _ => none
  | .inner a =>
    if isInner a = true then (Semaphore.step s.mSem a).map (fun sem => { s with mSem := sem })
    else none

/-- A pool just constructed: nothing queued, the semaphore at zero, every worker
    about to wait. -/
def State.fresh : State ω π J where
  queue := []
  mSem := ⟨0, none, fun _ => .out⟩
  mutex := none
  worker := fun _ => .waiting
  producer := fun _ => .idle
  pushed := []
  popped := []

/-- The pool with any workers and any producers. -/
def system (ω π J : Type*) [Fintype ω] [Fintype π] [DecidableEq ω] [DecidableEq π] :
    System (State ω π J) (Action ω π J) where
  init s := s = State.fresh
  step := step

/-- A step of a thread that is at work: not a new call of `add_job`, not the end
    of a job, and not a wakeup for no reason. -/
def Action.isInternal : Action ω π J → Bool
  | .addJob _ _ | .finish _ | .inner (.spurious _) => false
  | _ => true

end PoolThreads

end HttpFileSharing
