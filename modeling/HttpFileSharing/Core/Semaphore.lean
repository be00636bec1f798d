import HttpFileSharing.Lib.System

/-!
# The Semaphore

The counting semaphore the thread pool blocks on: a mutex, a condition
variable and a counter. `post` locks the mutex, increments the counter,
notifies one waiter and unlocks; `wait` locks the mutex, sleeps on the
condition variable for as long as the counter is zero, decrements it and
unlocks.

Every one of these is a step of its own, so a run may interleave any number
of threads anywhere between them. The condition variable is the documented
one. Going to sleep releases the mutex in the same step, `notify_one` makes
one sleeper runnable and does nothing when there is none, a sleeper may be
woken for no reason at all, and a woken thread has to lock the mutex again
and re-test the counter before it goes on.

The counter is an `unsigned long` in the source and a natural number here.

## Main definitions

* `Semaphore.Pc`: The program points of `post` and `wait`.
* `Semaphore.State`: The counter, the mutex and where each thread is.
* `Semaphore.Action`: What one thread, or the scheduler, does next.
* `Semaphore.step`: One step of `post` or `wait`.
* `Semaphore.system`: The semaphore as a transition system.
* `Semaphore.Pc.isInside`, `Semaphore.Pc.isRunnable`: The threads in `wait`,
  and those of them that are not asleep.
-/

namespace HttpFileSharing

namespace Semaphore

/-- Where a thread is. `out` is outside both calls; the other points are
    named after the call and what it does next. -/
inductive Pc where
  | out
  | waitLock
  | waitTest
  | asleep
  | woken
  | waitDec
  | waitUnlock
  | postLock
  | postInc
  | postNotify
  | postUnlock
  deriving DecidableEq, Repr

/-- The semaphore object and the threads that use it. -/
structure State (τ : Type*) where
  /-- `m_val`. -/
  val : Nat
  /-- The thread that holds `m_mutex`. -/
  mutex : Option τ
  pc : τ → Pc

/-- One step: of a thread, or of the scheduler for `spurious`. `notify t w`
    is the `notify_one` of thread `t`, with the sleeper it picks if any. -/
inductive Action (τ : Type*) where
  | callWait (t : τ)
  | callPost (t : τ)
  | lock (t : τ)
  | test (t : τ)
  | spurious (t : τ)
  | decrement (t : τ)
  | increment (t : τ)
  | notify (t : τ) (w : Option τ)
  | unlock (t : τ)

variable {τ : Type*} [Fintype τ] [DecidableEq τ]

/-- Thread `t` goes on to point `pc`. -/
def State.goto (s : State τ) (t : τ) (pc : Pc) : State τ :=
  { s with pc := Function.update s.pc t pc }

/-- The program point a thread is at once it holds the mutex, if it was at a
    point that locks it. -/
def Pc.locked : Pc → Option Pc
  | .waitLock => some .waitTest
  | .woken => some .waitTest
  | .postLock => some .postInc
  | _ => none

/-- One step of the semaphore. -/
def step (s : State τ) : Action τ → Option (State τ)
  | .callWait t => if s.pc t = .out then some (s.goto t .waitLock) else none
  | .callPost t => if s.pc t = .out then some (s.goto t .postLock) else none
  | .lock t => match s.mutex, (s.pc t).locked with
    | none, some pc => some { s.goto t pc with mutex := some t }
    | _, _ => none
  | .test t =>
    if s.pc t = .waitTest then
      -- while (0 == m_val) m_cv.wait (lock)
      if s.val = 0 then some { s.goto t .asleep with mutex := none }
      else some (s.goto t .waitDec)
    else none
  | .spurious t => if s.pc t = .asleep then some (s.goto t .woken) else none
  | .decrement t =>
    if s.pc t = .waitDec then some { s.goto t .waitUnlock with val := s.val - 1 } else none
  | .increment t =>
    if s.pc t = .postInc then some { s.goto t .postNotify with val := s.val + 1 } else none
  | .notify t w =>
    if s.pc t = .postNotify then
      match w with
      | some w =>
        if s.pc w = .asleep then some ((s.goto w .woken).goto t .postUnlock) else none
      | none => if ∀ u, s.pc u ≠ .asleep then some (s.goto t .postUnlock) else none
    else none
  | .unlock t =>
    if s.pc t = .waitUnlock ∨ s.pc t = .postUnlock then
      some { s.goto t .out with mutex := none }
    else none

/-- A semaphore constructed with any initial value, used by no thread yet. -/
def system (τ : Type*) [Fintype τ] [DecidableEq τ] : System (State τ) (Action τ) where
  init s := s.mutex = none ∧ ∀ t, s.pc t = .out
  step := step

/-- The thread has called `wait` and not returned from it. -/
def Pc.isInside : Pc → Bool
  | .waitLock | .waitTest | .asleep | .woken | .waitDec | .waitUnlock => true
  | _ => false

/-- The thread is inside `wait` and not asleep on the condition variable. -/
def Pc.isRunnable : Pc → Bool
  | .waitLock | .waitTest | .woken | .waitDec | .waitUnlock => true
  | _ => false

/-- The thread holds `m_mutex` at this point. -/
def Pc.holdsMutex : Pc → Bool
  | .waitTest | .waitDec | .waitUnlock | .postInc | .postNotify | .postUnlock => true
  | _ => false

end Semaphore

end HttpFileSharing
