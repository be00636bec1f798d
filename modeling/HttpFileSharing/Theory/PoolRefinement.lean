import HttpFileSharing.Core.PoolThreads
import HttpFileSharing.Theory.Pool
import HttpFileSharing.Theory.Wakeup

/-!
# The Pool Refines its Abstraction

`Core.TPool` has `post` and the return from `wait` as single steps. Here the
pool that runs on the mutex and the condition variable is shown to do nothing
that the one with single steps could not do. A `wait` takes its unit where the
counter is decremented and a `post` gives one where it is incremented, so a
worker that has decremented and not returned counts as past its wait, and a
producer that has incremented and not returned as past its post. Every other
step inside the semaphore is not seen.

Two facts about the semaphore are needed for that, and one about the calls.
A thread that is about to decrement holds the mutex and has seen a positive
counter, which nobody has changed since. The thread that holds the mutex is at
a point that holds it. And a thread is in `wait` only as a worker that waits,
in `post` only as a producer that has pushed.

## Main definitions

* `Semaphore.Call`, `Semaphore.Pc.call`: The call a thread is in.
* `Semaphore.Moves`: What a step inside a call can do.
* `Semaphore.Ready`, `Semaphore.Owned`: The two facts about the semaphore.
* `PoolThreads.Fires`: What a step of the pool can do.
* `PoolThreads.Calls`: Who is in which call.
* `PoolThreads.abs`: The state of the pool with single steps.

## Theorems

* `Semaphore.ready_step`, `Semaphore.owned_step`: Every step keeps the facts.
* `PoolThreads.fires_of_step`: Every enabled action goes one of those ways.
* `PoolThreads.reachable_sem`: The semaphore of the pool is a semaphore.
* `PoolThreads.abs_step`: Every step is a step of the pool with single steps, or
  not seen.
* `PoolThreads.threads_refine`: So is every run, and what is known of such runs.
-/

namespace HttpFileSharing

namespace Semaphore

/-- The call a thread is in. -/
inductive Call where
  | none
  | wait
  | post
  deriving DecidableEq, Repr

/-- The call a program point belongs to. -/
def Pc.call : Pc → Call
  | .out => .none
  | .waitLock | .waitTest | .asleep | .woken | .waitDec | .waitUnlock => .wait
  | .postLock | .postInc | .postNotify | .postUnlock => .post

variable {τ : Type*} [Fintype τ] [DecidableEq τ]

/-- What a thread that is inside a call can do, one constructor for each way. -/
inductive Moves (s : State τ) : State τ → Prop where
  | lock (t : τ) (pc : Pc) (hfree : s.mutex = none) (hpc : (s.pc t).locked = some pc) :
      Moves s { s.goto t pc with mutex := some t }
  | sleep (t : τ) (hpc : s.pc t = .waitTest) (hval : s.val = 0) :
      Moves s { s.goto t .asleep with mutex := none }
  | pass (t : τ) (hpc : s.pc t = .waitTest) (hval : s.val ≠ 0) : Moves s (s.goto t .waitDec)
  | decrement (t : τ) (hpc : s.pc t = .waitDec) :
      Moves s { s.goto t .waitUnlock with val := s.val - 1 }
  | increment (t : τ) (hpc : s.pc t = .postInc) :
      Moves s { s.goto t .postNotify with val := s.val + 1 }
  | wake (t w : τ) (hpc : s.pc t = .postNotify) (hw : s.pc w = .asleep) :
      Moves s ((s.goto w .woken).goto t .postUnlock)
  | noSleeper (t : τ) (hpc : s.pc t = .postNotify) (hnone : ∀ u, s.pc u ≠ .asleep) :
      Moves s (s.goto t .postUnlock)

/-- A thread that is about to decrement the counter has something to take. -/
def Ready (s : State τ) : Prop := ∀ t, s.pc t = .waitDec → s.val ≠ 0

/-- The thread that holds the mutex is at a point that holds it. -/
def Owned (s : State τ) : Prop := ∀ t, s.mutex = some t → (s.pc t).holdsMutex = true

omit [Fintype τ] in
/-- Moving a thread keeps who is ready, if it finds something to take where it
    goes and the others still do. -/
theorem ready_move (s s' : State τ) (t : τ) (x : Pc) (hs : Ready s)
    (hpc : s'.pc = Function.update s.pc t x) (hmine : x = .waitDec → s'.val ≠ 0)
    (hothers : ∀ u, u ≠ t → s.pc u = .waitDec → s.val ≠ 0 → s'.val ≠ 0) : Ready s' := by
  intro u hu
  by_cases hut : u = t
  · rw [hut, hpc, Function.update_self] at hu
    exact hmine hu
  · rw [hpc, Function.update_of_ne hut] at hu
    exact hothers u hut hu (hs u hu)

/-- Every step keeps who is ready. -/
theorem ready_step (s : State τ) (a : Action τ) (s' : State τ) (hheld : Held s) (hs : Ready s)
    (hstep : step s a = some s') : Ready s' := by
  cases fires_of_step s a s' hstep with
  | callWait t hpc =>
      exact ready_move s _ t .waitLock hs rfl Pc.noConfusion (fun _ _ _ hval => hval)
  | callPost t hpc =>
      exact ready_move s _ t .postLock hs rfl Pc.noConfusion (fun _ _ _ hval => hval)
  | lock t pc hfree hpc =>
      refine ready_move s _ t pc hs rfl (fun hpc' => ?_) (fun _ _ _ hval => hval)
      -- Locking leads to no such point.
      rw [hpc'] at hpc
      revert hpc
      cases s.pc t <;> simp only [Pc.locked, reduceCtorEq, Option.some.injEq, IsEmpty.forall_iff]
  | sleep t hpc hval =>
      refine ready_move s _ t .asleep hs rfl Pc.noConfusion (fun _ _ _ hval => hval)
  | pass t hpc hval =>
      exact ready_move s _ t .waitDec hs rfl (fun _ => hval) (fun _ _ _ hval => hval)
  | spurious t hpc =>
      exact ready_move s _ t .woken hs rfl Pc.noConfusion (fun _ _ _ hval => hval)
  | decrement t hpc =>
      refine ready_move s _ t .waitUnlock hs rfl Pc.noConfusion (fun u hut hu _ => ?_)
      -- Two threads would hold the mutex.
      have hmine := hheld t (hpc ▸ rfl)
      rw [hheld u (hu ▸ rfl), Option.some.injEq] at hmine
      exact absurd hmine hut
  | increment t hpc =>
      exact ready_move s _ t .postNotify hs rfl Pc.noConfusion
        (fun _ _ _ _ => Nat.succ_ne_zero _)
  | wake t w hpc hw =>
      have hwoken : Ready (s.goto w .woken) :=
        ready_move s _ w .woken hs rfl Pc.noConfusion (fun _ _ _ hval => hval)
      exact ready_move _ _ t .postUnlock hwoken rfl Pc.noConfusion (fun _ _ _ hval => hval)
  | noSleeper t hpc hnone =>
      exact ready_move s _ t .postUnlock hs rfl Pc.noConfusion (fun _ _ _ hval => hval)
  | unlock t hpc =>
      exact ready_move s _ t .out hs rfl Pc.noConfusion (fun _ _ _ hval => hval)

omit [Fintype τ] in
/-- Moving a thread keeps the owner where it should be, if the mutex is free
    afterwards, or the thread's and it goes to a point that holds it, or whose it
    was and the thread is still at such a point if it was before. -/
theorem owned_move (s s' : State τ) (t : τ) (x : Pc) (hs : Owned s)
    (hpc : s'.pc = Function.update s.pc t x)
    (hmutex : s'.mutex = none ∨ s'.mutex = some t ∧ x.holdsMutex = true ∨
      s'.mutex = s.mutex ∧ ((s.pc t).holdsMutex = true → x.holdsMutex = true)) : Owned s' := by
  intro u hu
  rw [hpc]
  rcases hmutex with hfree | ⟨hmine, hx⟩ | ⟨hsame, hx⟩
  · rw [hfree] at hu
    exact absurd hu (by simp only [reduceCtorEq, not_false_eq_true])
  · rw [hmine, Option.some.injEq] at hu
    rw [← hu, Function.update_self]
    exact hx
  · rw [hsame] at hu
    by_cases hut : u = t
    · rw [hut, Function.update_self]
      exact hx (hut ▸ hs u hu)
    · rw [Function.update_of_ne hut]
      exact hs u hu

/-- Every step keeps the owner where it should be. -/
theorem owned_step (s : State τ) (a : Action τ) (s' : State τ) (hs : Owned s)
    (hstep : step s a = some s') : Owned s' := by
  -- A thread at a point that does not hold the mutex may go anywhere.
  have hfree : ∀ t pc x, s.pc t = pc → pc.holdsMutex = false →
      ((s.pc t).holdsMutex = true → x = true) := by
    intro t pc x hpc hno hyes
    rw [hpc, hno] at hyes
    exact Bool.noConfusion hyes
  cases fires_of_step s a s' hstep with
  | callWait t hpc =>
      exact owned_move s _ t .waitLock hs rfl (Or.inr (Or.inr ⟨rfl, hfree t _ _ hpc rfl⟩))
  | callPost t hpc =>
      exact owned_move s _ t .postLock hs rfl (Or.inr (Or.inr ⟨rfl, hfree t _ _ hpc rfl⟩))
  | lock t pc _ hpc =>
      have hholds : pc.holdsMutex = true := by
        revert hpc
        cases s.pc t <;>
          simp only [Pc.locked, reduceCtorEq, Option.some.injEq, IsEmpty.forall_iff] <;>
          rintro rfl <;> rfl
      exact owned_move s _ t pc hs rfl (Or.inr (Or.inl ⟨rfl, hholds⟩))
  | sleep t hpc _ => exact owned_move s _ t .asleep hs rfl (Or.inl rfl)
  | pass t hpc _ => exact owned_move s _ t .waitDec hs rfl (Or.inr (Or.inr ⟨rfl, fun _ => rfl⟩))
  | spurious t hpc =>
      exact owned_move s _ t .woken hs rfl (Or.inr (Or.inr ⟨rfl, hfree t _ _ hpc rfl⟩))
  | decrement t hpc =>
      exact owned_move s _ t .waitUnlock hs rfl (Or.inr (Or.inr ⟨rfl, fun _ => rfl⟩))
  | increment t hpc =>
      exact owned_move s _ t .postNotify hs rfl (Or.inr (Or.inr ⟨rfl, fun _ => rfl⟩))
  | wake t w hpc hw =>
      have hwoken : Owned (s.goto w .woken) :=
        owned_move s _ w .woken hs rfl (Or.inr (Or.inr ⟨rfl, hfree w _ _ hw rfl⟩))
      exact owned_move _ _ t .postUnlock hwoken rfl (Or.inr (Or.inr ⟨rfl, fun _ => rfl⟩))
  | noSleeper t hpc _ =>
      exact owned_move s _ t .postUnlock hs rfl (Or.inr (Or.inr ⟨rfl, fun _ => rfl⟩))
  | unlock t hpc => exact owned_move s _ t .out hs rfl (Or.inl rfl)

theorem reachable_ready {s : State τ} (hr : (system τ).Reachable s) : Ready s := by
  have hboth : Held s ∧ Ready s := by
    refine System.Reachable.invariant (fun s => Held s ∧ Ready s) (fun s hinit => ?_)
      (fun s a s' hs hstep => ⟨held_step s a s' hs.1 hstep, ready_step s a s' hs.1 hs.2 hstep⟩) hr
    refine ⟨fun t ht => ?_, fun t ht => ?_⟩
    · rw [hinit.2 t] at ht
      exact absurd ht (by decide)
    · rw [hinit.2 t] at ht
      exact absurd ht (by decide)
  exact hboth.2

theorem reachable_owned {s : State τ} (hr : (system τ).Reachable s) : Owned s := by
  refine System.Reachable.invariant Owned (fun s hinit t ht => ?_) owned_step hr
  rw [hinit.1] at ht
  exact absurd ht (by simp only [reduceCtorEq, not_false_eq_true])

/-- A thread in no call is outside. -/
theorem out_of_call (pc : Pc) (h : pc.call = .none) : pc = .out := by
  revert h
  cases pc <;> decide

omit [Fintype τ] in
/-- A thread is in the call it goes to. -/
theorem call_self (pc : τ → Pc) (t : τ) (x : Pc) :
    (Function.update pc t x t).call = x.call := by
  rw [Function.update_self]

omit [Fintype τ] in
/-- A thread stays in its call until it returns from it. -/
theorem call_goto (s : State τ) (t : τ) (x : Pc) (h : x.call = (s.pc t).call) (u : τ) :
    (Function.update s.pc t x u).call = (s.pc u).call := by
  by_cases hut : u = t
  · rw [hut, Function.update_self, h]
  · rw [Function.update_of_ne hut]

omit [Fintype τ] in
theorem call_moves (s s' : State τ) (h : Moves s s') (u : τ) :
    (s'.pc u).call = (s.pc u).call := by
  cases h with
  | lock t pc _ hpc =>
      refine call_goto s t pc ?_ u
      revert hpc
      cases s.pc t <;>
        simp only [Pc.locked, reduceCtorEq, Option.some.injEq, IsEmpty.forall_iff] <;>
        rintro rfl <;> rfl
  | sleep t hpc _ => exact call_goto s t _ (by rw [hpc]; rfl) u
  | pass t hpc _ => exact call_goto s t _ (by rw [hpc]; rfl) u
  | decrement t hpc => exact call_goto s t _ (by rw [hpc]; rfl) u
  | increment t hpc => exact call_goto s t _ (by rw [hpc]; rfl) u
  | wake t w hpc hw =>
      have htw : t ≠ w := by
        rintro rfl
        rw [hpc] at hw
        exact absurd hw (by decide)
      have hpost := call_goto (s.goto w .woken) t .postUnlock (by
        simp only [State.goto, Function.update_of_ne htw, hpc]
        rfl) u
      exact hpost.trans (call_goto s w .woken (by rw [hw]; rfl) u)
  | noSleeper t hpc _ => exact call_goto s t _ (by rw [hpc]; rfl) u

/-- Every enabled step inside a call that is no wakeup for no reason goes one of
    those ways. -/
theorem moves_of_inner (s : State τ) (a : Action τ) (s' : State τ)
    (hinner : PoolThreads.isInner a = true) (hreason : ∀ t, a ≠ .spurious t)
    (hstep : step s a = some s') : Moves s s' := by
  cases a with
  | callWait t | callPost t | unlock t => exact absurd hinner Bool.noConfusion
  | spurious t => exact absurd rfl (hreason t)
  | lock t =>
      simp only [step] at hstep
      split at hstep
      · rename_i pc hfree hlocked
        rw [Option.some.injEq] at hstep
        exact hstep ▸ Moves.lock t pc hfree hlocked
      · exact absurd hstep (by simp only [reduceCtorEq, not_false_eq_true])
  | test t =>
      simp only [step, Option.ite_none_right_eq_some] at hstep
      rcases hstep with ⟨hpc, hstep⟩
      by_cases hval : s.val = 0
      · rw [if_pos hval, Option.some.injEq] at hstep
        exact hstep ▸ Moves.sleep t hpc hval
      · rw [if_neg hval, Option.some.injEq] at hstep
        exact hstep ▸ Moves.pass t hpc hval
  | decrement t =>
      simp only [step, Option.ite_none_right_eq_some, Option.some.injEq] at hstep
      exact hstep.2 ▸ Moves.decrement t hstep.1
  | increment t =>
      simp only [step, Option.ite_none_right_eq_some, Option.some.injEq] at hstep
      exact hstep.2 ▸ Moves.increment t hstep.1
  | notify t w =>
      simp only [step, Option.ite_none_right_eq_some] at hstep
      rcases hstep with ⟨hpc, hstep⟩
      cases w with
      | none =>
          simp only [Option.ite_none_right_eq_some, Option.some.injEq] at hstep
          exact hstep.2 ▸ Moves.noSleeper t hpc hstep.1
      | some w =>
          simp only [Option.ite_none_right_eq_some, Option.some.injEq] at hstep
          exact hstep.2 ▸ Moves.wake t w hpc hstep.1

end Semaphore

namespace TPool

/-- A worker that has a unit finds a job in the queue. -/
theorem Paid.queue_ne_nil {ω π J : Type*} [Fintype ω] (s : State ω π J) (h : Paid s) (w : ω)
    (hw : (s.worker w).isOwed = true) : s.queue ≠ [] := by
  intro hempty
  have hpos := countAt_pos WorkerPc.isOwed s.worker w hw
  rw [Paid, hempty, List.length_nil] at h
  omega

end TPool

namespace PoolThreads

open TPool (WorkerPc ProducerPc)

variable {ω π J : Type*} [Fintype ω] [Fintype π] [DecidableEq ω] [DecidableEq π]

/-- What a step can do, one constructor for each way it can go, and whether it is
    internal. -/
inductive Fires (s : State ω π J) : Bool → State ω π J → Prop where
  | addJob (p : π) (job : J) (hpc : s.producer p = .idle) :
      Fires s false (s.setProducer p (.entered job))
  | lockQueue (p : π) (job : J) (hpc : s.producer p = .entered job) (hfree : s.mutex = none) :
      Fires s true { s.setProducer p (.locked job) with mutex := some (.inr p) }
  | push (p : π) (job : J) (hpc : s.producer p = .locked job) :
      Fires s true { s.setProducer p .pushed with
        queue := s.queue ++ [job], pushed := s.pushed ++ [job] }
  | callPost (p : π) (hpc : s.producer p = .pushed) (hout : s.mSem.pc (.inr p) = .out) :
      Fires s true { s with mSem := s.mSem.goto (.inr p) .postLock }
  | returnPost (p : π) (hpc : s.producer p = .pushed)
      (hend : s.mSem.pc (.inr p) = .postUnlock) :
      Fires s true { s.setProducer p .posted with
        mSem := { s.mSem.goto (.inr p) .out with mutex := none } }
  | unlockQueue (p : π) (hpc : s.producer p = .posted) :
      Fires s true { s.setProducer p .idle with mutex := none }
  | callWait (w : ω) (hpc : s.worker w = .waiting) (hout : s.mSem.pc (.inl w) = .out) :
      Fires s true { s with mSem := s.mSem.goto (.inl w) .waitLock }
  | returnWait (w : ω) (hpc : s.worker w = .waiting)
      (hend : s.mSem.pc (.inl w) = .waitUnlock) :
      Fires s true { s.setWorker w .passed with
        mSem := { s.mSem.goto (.inl w) .out with mutex := none } }
  | lock (w : ω) (hpc : s.worker w = .passed) (hfree : s.mutex = none) :
      Fires s true { s.setWorker w .locked with mutex := some (.inl w) }
  | pop (w : ω) (job : J) (rest : List J) (hpc : s.worker w = .locked)
      (hqueue : s.queue = job :: rest) :
      Fires s true { s.setWorker w (.popped job) with
        queue := rest, popped := s.popped ++ [(w, job)] }
  | unlock (w : ω) (job : J) (hpc : s.worker w = .popped job) :
      Fires s true { s.setWorker w (.running job) with mutex := none }
  | finish (w : ω) (job : J) (hpc : s.worker w = .running job) :
      Fires s false (s.setWorker w .waiting)
  | spurious (t : ω ⊕ π) (hpc : s.mSem.pc t = .asleep) :
      Fires s false { s with mSem := s.mSem.goto t .woken }
  | inner (a : Semaphore.Action (ω ⊕ π)) (sem : Semaphore.State (ω ⊕ π))
      (ha : Semaphore.step s.mSem a = some sem) (hmoves : Semaphore.Moves s.mSem sem) :
      Fires s true { s with mSem := sem }

/-- Every enabled action goes one of those ways. -/
theorem fires_of_step (s : State ω π J) (a : Action ω π J) (s' : State ω π J)
    (hstep : step s a = some s') : Fires s a.isInternal s' := by
  cases a with
  | addJob p job =>
      simp only [step] at hstep
      split at hstep
      · rename_i hpc
        exact Option.some.inj hstep ▸ Fires.addJob p job hpc
      · exact absurd hstep (by simp only [reduceCtorEq, not_false_eq_true])
  | lockQueue p =>
      simp only [step] at hstep
      split at hstep
      · rename_i job hpc hfree
        exact Option.some.inj hstep ▸ Fires.lockQueue p job hpc hfree
      · exact absurd hstep (by simp only [reduceCtorEq, not_false_eq_true])
  | push p =>
      simp only [step] at hstep
      split at hstep
      · rename_i job hpc
        exact Option.some.inj hstep ▸ Fires.push p job hpc
      · exact absurd hstep (by simp only [reduceCtorEq, not_false_eq_true])
  | callPost p =>
      simp only [step] at hstep
      split at hstep
      · rename_i hpc
        simp only [Semaphore.step, Option.map_eq_some_iff, Option.ite_none_right_eq_some,
          Option.some.injEq] at hstep
        rcases hstep with ⟨sem, ⟨hout, rfl⟩, rfl⟩
        exact Fires.callPost p hpc hout
      · exact absurd hstep (by simp only [reduceCtorEq, not_false_eq_true])
  | returnPost p =>
      simp only [step] at hstep
      split at hstep
      · rename_i hpc hend
        simp only [Semaphore.step, Option.map_eq_some_iff, Option.ite_none_right_eq_some,
          Option.some.injEq] at hstep
        rcases hstep with ⟨sem, ⟨_, rfl⟩, rfl⟩
        exact Fires.returnPost p hpc hend
      · exact absurd hstep (by simp only [reduceCtorEq, not_false_eq_true])
  | unlockQueue p =>
      simp only [step] at hstep
      split at hstep
      · rename_i hpc
        exact Option.some.inj hstep ▸ Fires.unlockQueue p hpc
      · exact absurd hstep (by simp only [reduceCtorEq, not_false_eq_true])
  | callWait w =>
      simp only [step] at hstep
      split at hstep
      · rename_i hpc
        simp only [Semaphore.step, Option.map_eq_some_iff, Option.ite_none_right_eq_some,
          Option.some.injEq] at hstep
        rcases hstep with ⟨sem, ⟨hout, rfl⟩, rfl⟩
        exact Fires.callWait w hpc hout
      · exact absurd hstep (by simp only [reduceCtorEq, not_false_eq_true])
  | returnWait w =>
      simp only [step] at hstep
      split at hstep
      · rename_i hpc hend
        simp only [Semaphore.step, Option.map_eq_some_iff, Option.ite_none_right_eq_some,
          Option.some.injEq] at hstep
        rcases hstep with ⟨sem, ⟨_, rfl⟩, rfl⟩
        exact Fires.returnWait w hpc hend
      · exact absurd hstep (by simp only [reduceCtorEq, not_false_eq_true])
  | lock w =>
      simp only [step] at hstep
      split at hstep
      · rename_i hpc hfree
        exact Option.some.inj hstep ▸ Fires.lock w hpc hfree
      · exact absurd hstep (by simp only [reduceCtorEq, not_false_eq_true])
  | pop w =>
      simp only [step] at hstep
      split at hstep
      · rename_i job rest hpc hqueue
        exact Option.some.inj hstep ▸ Fires.pop w job rest hpc hqueue
      · exact absurd hstep (by simp only [reduceCtorEq, not_false_eq_true])
  | unlock w =>
      simp only [step] at hstep
      split at hstep
      · rename_i job hpc
        exact Option.some.inj hstep ▸ Fires.unlock w job hpc
      · exact absurd hstep (by simp only [reduceCtorEq, not_false_eq_true])
  | finish w =>
      simp only [step] at hstep
      split at hstep
      · rename_i job hpc
        exact Option.some.inj hstep ▸ Fires.finish w job hpc
      · exact absurd hstep (by simp only [reduceCtorEq, not_false_eq_true])
  | inner a =>
      simp only [step, Option.ite_none_right_eq_some, Option.map_eq_some_iff] at hstep
      rcases hstep with ⟨hinner, sem, hsem, rfl⟩
      by_cases hreason : ∃ t, a = .spurious t
      · rcases hreason with ⟨t, rfl⟩
        simp only [Semaphore.step, Option.ite_none_right_eq_some, Option.some.injEq] at hsem
        rcases hsem with ⟨hpc, rfl⟩
        exact Fires.spurious t hpc
      · push Not at hreason
        have hinternal : (Action.inner a : Action ω π J).isInternal = true := by
          cases a with
          | spurious t => exact absurd rfl (hreason t)
          | callWait | callPost | lock | test | decrement | increment | notify | unlock => rfl
        rw [hinternal]
        exact Fires.inner a sem hsem (Semaphore.moves_of_inner s.mSem a sem hinner hreason hsem)

/-- The semaphore of the pool is in a state it can reach itself. -/
theorem reachable_sem {s : State ω π J} (hr : (system ω π J).Reachable s) :
    (Semaphore.system (ω ⊕ π)).Reachable s.mSem := by
  refine hr.map (Semaphore.system (ω ⊕ π)) State.mSem (fun s hinit => ?_) (fun s a s' hstep => ?_)
  · rw [show s = State.fresh from hinit]
    exact ⟨rfl, fun _ => rfl⟩
  · have hfires := fires_of_step s a s' hstep
    generalize a.isInternal = internal at hfires
    cases hfires with
    | addJob | lockQueue | push | unlockQueue | lock | pop | unlock | finish =>
        exact Or.inr (Or.inl rfl)
    | callPost p _ hout => exact Or.inr (Or.inr ⟨.callPost (.inr p), if_pos hout⟩)
    | returnPost p _ hend => exact Or.inr (Or.inr ⟨.unlock (.inr p), if_pos (Or.inr hend)⟩)
    | callWait w _ hout => exact Or.inr (Or.inr ⟨.callWait (.inl w), if_pos hout⟩)
    | returnWait w _ hend => exact Or.inr (Or.inr ⟨.unlock (.inl w), if_pos (Or.inl hend)⟩)
    | spurious t hpc => exact Or.inr (Or.inr ⟨.spurious t, if_pos hpc⟩)
    | inner a sem ha _ => exact Or.inr (Or.inr ⟨a, ha⟩)

/-- Who is in which call: a worker in `wait` if it waits, a producer in `post` if
    it has pushed. -/
structure Calls (s : State ω π J) : Prop where
  worker : ∀ w, (s.mSem.pc (.inl w)).call = .none ∨
    (s.mSem.pc (.inl w)).call = .wait ∧ s.worker w = .waiting
  producer : ∀ p, (s.mSem.pc (.inr p)).call = .none ∨
    (s.mSem.pc (.inr p)).call = .post ∧ s.producer p = .pushed

omit [Fintype ω] [Fintype π] [DecidableEq ω] [DecidableEq π] in
/-- A step of the semaphore keeps who is in which call, if the threads stay where
    they are and each is in the call it was in or one it may be in. -/
theorem calls_sem (s s' : State ω π J) (hs : Calls s) (hw : s'.worker = s.worker)
    (hp : s'.producer = s.producer)
    (hworker : ∀ w, (s'.mSem.pc (.inl w)).call = (s.mSem.pc (.inl w)).call ∨
      (s'.mSem.pc (.inl w)).call = .wait ∧ s.worker w = .waiting)
    (hproducer : ∀ p, (s'.mSem.pc (.inr p)).call = (s.mSem.pc (.inr p)).call ∨
      (s'.mSem.pc (.inr p)).call = .post ∧ s.producer p = .pushed) : Calls s' := by
  refine ⟨fun w => ?_, fun p => ?_⟩
  · rw [hw]
    rcases hworker w with hsame | hin
    · rw [hsame]
      exact hs.worker w
    · exact Or.inr hin
  · rw [hp]
    rcases hproducer p with hsame | hin
    · rw [hsame]
      exact hs.producer p
    · exact Or.inr hin

omit [Fintype ω] [Fintype π] [DecidableEq π] in
/-- A worker that moves is in no call afterwards, and so is one that was in none. -/
theorem calls_worker (s s' : State ω π J) (w : ω) (x : WorkerPc J) (hs : Calls s)
    (hw : s'.worker = Function.update s.worker w x) (hp : s'.producer = s.producer)
    (hout : (s'.mSem.pc (.inl w)).call = .none)
    (hsem : ∀ t, t ≠ .inl w → s'.mSem.pc t = s.mSem.pc t) : Calls s' := by
  refine ⟨fun v => ?_, fun p => ?_⟩
  · by_cases hvw : v = w
    · exact Or.inl (hvw ▸ hout)
    · rw [hw, Function.update_of_ne hvw, hsem _ (fun h => hvw (Sum.inl.inj h))]
      exact hs.worker v
  · rw [hp, hsem _ Sum.inr_ne_inl]
    exact hs.producer p

omit [Fintype ω] [Fintype π] [DecidableEq ω] in
/-- The same for a producer. -/
theorem calls_producer (s s' : State ω π J) (p : π) (x : ProducerPc J) (hs : Calls s)
    (hp : s'.producer = Function.update s.producer p x) (hw : s'.worker = s.worker)
    (hout : (s'.mSem.pc (.inr p)).call = .none)
    (hsem : ∀ t, t ≠ .inr p → s'.mSem.pc t = s.mSem.pc t) : Calls s' := by
  refine ⟨fun w => ?_, fun q => ?_⟩
  · rw [hw, hsem _ Sum.inl_ne_inr]
    exact hs.worker w
  · by_cases hqp : q = p
    · exact Or.inl (hqp ▸ hout)
    · rw [hp, Function.update_of_ne hqp, hsem _ (fun h => hqp (Sum.inr.inj h))]
      exact hs.producer q

/-- Every step keeps who is in which call. -/
theorem calls_step (s : State ω π J) (a : Action ω π J) (s' : State ω π J) (hs : Calls s)
    (hstep : step s a = some s') : Calls s' := by
  -- A thread at another point than the one a call is made from is in none.
  have hworker : ∀ w x, s.worker w = x → x ≠ .waiting → (s.mSem.pc (.inl w)).call = .none :=
    fun w x hx hne => (hs.worker w).resolve_right (fun h => hne (hx ▸ h.2))
  have hproducer : ∀ p x, s.producer p = x → x ≠ .pushed → (s.mSem.pc (.inr p)).call = .none :=
    fun p x hx hne => (hs.producer p).resolve_right (fun h => hne (hx ▸ h.2))
  have hfires := fires_of_step s a s' hstep
  generalize a.isInternal = internal at hfires
  cases hfires with
  | addJob p job hpc =>
      exact calls_producer s _ p _ hs rfl rfl (hproducer p _ hpc (by
        simp only [ne_eq, reduceCtorEq, not_false_eq_true])) (fun _ _ => rfl)
  | lockQueue p job hpc _ =>
      exact calls_producer s _ p _ hs rfl rfl (hproducer p _ hpc (by
        simp only [ne_eq, reduceCtorEq, not_false_eq_true])) (fun _ _ => rfl)
  | push p job hpc =>
      exact calls_producer s _ p _ hs rfl rfl (hproducer p _ hpc (by
        simp only [ne_eq, reduceCtorEq, not_false_eq_true])) (fun _ _ => rfl)
  | unlockQueue p hpc =>
      exact calls_producer s _ p _ hs rfl rfl (hproducer p _ hpc (by
        simp only [ne_eq, reduceCtorEq, not_false_eq_true])) (fun _ _ => rfl)
  | callPost p hpc hout =>
      have hother : ∀ t, t ≠ .inr p → (s.mSem.goto (.inr p) .postLock).pc t = s.mSem.pc t :=
        fun t ht => Function.update_of_ne ht _ _
      refine calls_sem s _ hs rfl rfl
        (fun w => Or.inl (congrArg Semaphore.Pc.call (hother _ Sum.inl_ne_inr))) (fun q => ?_)
      by_cases hqp : q = p
      · rw [hqp]
        exact Or.inr ⟨Semaphore.call_self _ _ _, hpc⟩
      · exact Or.inl (congrArg Semaphore.Pc.call (hother _ (fun h => hqp (Sum.inr.inj h))))
  | returnPost p hpc hend =>
      exact calls_producer s _ p _ hs rfl rfl (Semaphore.call_self _ _ _)
        (fun t ht => Function.update_of_ne ht _ _)
  | callWait w hpc hout =>
      have hother : ∀ t, t ≠ .inl w → (s.mSem.goto (.inl w) .waitLock).pc t = s.mSem.pc t :=
        fun t ht => Function.update_of_ne ht _ _
      refine calls_sem s _ hs rfl rfl (fun v => ?_)
        (fun p => Or.inl (congrArg Semaphore.Pc.call (hother _ Sum.inr_ne_inl)))
      by_cases hvw : v = w
      · rw [hvw]
        exact Or.inr ⟨Semaphore.call_self _ _ _, hpc⟩
      · exact Or.inl (congrArg Semaphore.Pc.call (hother _ (fun h => hvw (Sum.inl.inj h))))
  | returnWait w hpc hend =>
      exact calls_worker s _ w _ hs rfl rfl (Semaphore.call_self _ _ _)
        (fun t ht => Function.update_of_ne ht _ _)
  | lock w hpc _ =>
      exact calls_worker s _ w _ hs rfl rfl (hworker w _ hpc (by
        simp only [ne_eq, reduceCtorEq, not_false_eq_true])) (fun _ _ => rfl)
  | pop w job rest hpc _ =>
      exact calls_worker s _ w _ hs rfl rfl (hworker w _ hpc (by
        simp only [ne_eq, reduceCtorEq, not_false_eq_true])) (fun _ _ => rfl)
  | unlock w job hpc =>
      exact calls_worker s _ w _ hs rfl rfl (hworker w _ hpc (by
        simp only [ne_eq, reduceCtorEq, not_false_eq_true])) (fun _ _ => rfl)
  | finish w job hpc =>
      exact calls_worker s _ w _ hs rfl rfl (hworker w _ hpc (by
        simp only [ne_eq, reduceCtorEq, not_false_eq_true])) (fun _ _ => rfl)
  | spurious t hpc =>
      have hcall := Semaphore.call_goto s.mSem t .woken (by rw [hpc]; rfl)
      exact calls_sem s _ hs rfl rfl (fun w => Or.inl (hcall _)) (fun p => Or.inl (hcall _))
  | inner a sem ha hmoves =>
      have hcall := Semaphore.call_moves s.mSem sem hmoves
      exact calls_sem s _ hs rfl rfl (fun w => Or.inl (hcall _)) (fun p => Or.inl (hcall _))

theorem reachable_calls {s : State ω π J} (hr : (system ω π J).Reachable s) : Calls s := by
  refine System.Reachable.invariant Calls (fun s hinit => ?_) calls_step hr
  rw [show s = State.fresh from hinit]
  exact ⟨fun _ => Or.inl rfl, fun _ => Or.inl rfl⟩

/-- Where a worker is once its unit counts as taken. -/
def workerView (worker : WorkerPc J) : Semaphore.Pc → WorkerPc J
  | .waitUnlock => .passed
  | _ => worker

/-- Where a producer is once its unit counts as given. -/
def producerView (producer : ProducerPc J) : Semaphore.Pc → ProducerPc J
  | .postNotify | .postUnlock => .posted
  | _ => producer

/-- The state of the pool with single steps. -/
def abs (s : State ω π J) : TPool.State ω π J where
  queue := s.queue
  sem := s.mSem.val
  mutex := s.mutex
  worker w := workerView (s.worker w) (s.mSem.pc (.inl w))
  producer p := producerView (s.producer p) (s.mSem.pc (.inr p))
  pushed := s.pushed
  popped := s.popped

omit [Fintype ω] [Fintype π] [DecidableEq π] in
/-- A step that moves one worker, as it is seen. -/
theorem abs_worker (s s' : State ω π J) (w : ω) (x : WorkerPc J)
    (hmine : workerView (s'.worker w) (s'.mSem.pc (.inl w)) = x)
    (hworker : ∀ v, v ≠ w → workerView (s'.worker v) (s'.mSem.pc (.inl v))
      = workerView (s.worker v) (s.mSem.pc (.inl v)))
    (hproducer : ∀ p, producerView (s'.producer p) (s'.mSem.pc (.inr p))
      = producerView (s.producer p) (s.mSem.pc (.inr p))) :
    abs s' = { (abs s).setWorker w x with
      queue := s'.queue, sem := s'.mSem.val, mutex := s'.mutex, pushed := s'.pushed,
      popped := s'.popped } := by
  have hw : (abs s').worker = Function.update (abs s).worker w x := by
    funext v
    by_cases hvw : v = w
    · rw [hvw, Function.update_self]
      exact hmine
    · rw [Function.update_of_ne hvw]
      exact hworker v hvw
  have hp : (abs s').producer = (abs s).producer := funext hproducer
  rw [TPool.State.setWorker, ← hw, ← hp]
  rfl

omit [Fintype ω] [Fintype π] [DecidableEq ω] in
/-- A step that moves one producer, as it is seen. -/
theorem abs_producer (s s' : State ω π J) (p : π) (x : ProducerPc J)
    (hmine : producerView (s'.producer p) (s'.mSem.pc (.inr p)) = x)
    (hproducer : ∀ q, q ≠ p → producerView (s'.producer q) (s'.mSem.pc (.inr q))
      = producerView (s.producer q) (s.mSem.pc (.inr q)))
    (hworker : ∀ w, workerView (s'.worker w) (s'.mSem.pc (.inl w))
      = workerView (s.worker w) (s.mSem.pc (.inl w))) :
    abs s' = { (abs s).setProducer p x with
      queue := s'.queue, sem := s'.mSem.val, mutex := s'.mutex, pushed := s'.pushed,
      popped := s'.popped } := by
  have hp : (abs s').producer = Function.update (abs s).producer p x := by
    funext q
    by_cases hqp : q = p
    · rw [hqp, Function.update_self]
      exact hmine
    · rw [Function.update_of_ne hqp]
      exact hproducer q hqp
  have hw : (abs s').worker = (abs s).worker := funext hworker
  rw [TPool.State.setProducer, ← hw, ← hp]
  rfl

omit [Fintype ω] [Fintype π] [DecidableEq ω] [DecidableEq π] in
/-- A step that moves nobody, as it is seen. -/
theorem abs_same (s s' : State ω π J) (hqueue : s'.queue = s.queue) (hval : s'.mSem.val = s.mSem.val)
    (hmutex : s'.mutex = s.mutex) (hpushed : s'.pushed = s.pushed) (hpopped : s'.popped = s.popped)
    (hworker : ∀ w, workerView (s'.worker w) (s'.mSem.pc (.inl w))
      = workerView (s.worker w) (s.mSem.pc (.inl w)))
    (hproducer : ∀ p, producerView (s'.producer p) (s'.mSem.pc (.inr p))
      = producerView (s.producer p) (s.mSem.pc (.inr p))) : abs s' = abs s := by
  have hw : (abs s').worker = (abs s).worker := funext hworker
  have hp : (abs s').producer = (abs s).producer := funext hproducer
  change TPool.State.mk s'.queue s'.mSem.val s'.mutex (abs s').worker (abs s').producer s'.pushed
    s'.popped = _
  rw [hqueue, hval, hmutex, hpushed, hpopped, hw, hp]
  rfl

omit [Fintype ω] [Fintype π] in
/-- A thread inside the semaphore that goes between points that look the same. -/
theorem abs_goto (s : State ω π J) (sem : Semaphore.State (ω ⊕ π)) (t : ω ⊕ π) (x : Semaphore.Pc)
    (hpc : sem.pc = Function.update s.mSem.pc t x) (hval : sem.val = s.mSem.val)
    (hw : ∀ a : WorkerPc J, workerView a x = workerView a (s.mSem.pc t))
    (hp : ∀ a : ProducerPc J, producerView a x = producerView a (s.mSem.pc t)) :
    abs { s with mSem := sem } = abs s := by
  refine abs_same s _ rfl hval rfl rfl rfl (fun w => ?_) (fun p => ?_)
  · change workerView (s.worker w) (sem.pc (.inl w)) = _
    rw [hpc]
    by_cases hwt : Sum.inl w = t
    · rw [hwt, Function.update_self, hw]
    · rw [Function.update_of_ne hwt]
  · change producerView (s.producer p) (sem.pc (.inr p)) = _
    rw [hpc]
    by_cases hpt : Sum.inr p = t
    · rw [hpt, Function.update_self, hp]
    · rw [Function.update_of_ne hpt]

omit [Fintype ω] [Fintype π] [DecidableEq π] in
/-- A worker in no call that moves, as it is seen. -/
theorem abs_setWorker (s s' : State ω π J) (w : ω) (x : WorkerPc J)
    (hw : s'.worker = Function.update s.worker w x) (hp : s'.producer = s.producer)
    (hsem : s'.mSem = s.mSem) (hout : s.mSem.pc (.inl w) = .out) :
    abs s' = { (abs s).setWorker w x with
      queue := s'.queue, sem := s'.mSem.val, mutex := s'.mutex, pushed := s'.pushed,
      popped := s'.popped } := by
  refine abs_worker s s' w x ?_ (fun v hvw => ?_) (fun p => ?_)
  · rw [hw, hsem, Function.update_self, hout]
    rfl
  · rw [hw, hsem, Function.update_of_ne hvw]
  · rw [hp, hsem]

omit [Fintype ω] [Fintype π] [DecidableEq ω] in
/-- A producer in no call that moves, as it is seen. -/
theorem abs_setProducer (s s' : State ω π J) (p : π) (x : ProducerPc J)
    (hp : s'.producer = Function.update s.producer p x) (hw : s'.worker = s.worker)
    (hsem : s'.mSem = s.mSem) (hout : s.mSem.pc (.inr p) = .out) :
    abs s' = { (abs s).setProducer p x with
      queue := s'.queue, sem := s'.mSem.val, mutex := s'.mutex, pushed := s'.pushed,
      popped := s'.popped } := by
  refine abs_producer s s' p x ?_ (fun q hqp => ?_) (fun w => ?_)
  · rw [hp, hsem, Function.update_self, hout]
    rfl
  · rw [hp, hsem, Function.update_of_ne hqp]
  · rw [hw, hsem]

omit [Fintype ω] [Fintype π] [DecidableEq ω] [DecidableEq π] in
/-- A worker away from its wait is outside the semaphore. -/
theorem Calls.worker_out (s : State ω π J) (h : Calls s) (w : ω) (x : WorkerPc J)
    (hx : s.worker w = x) (hne : x ≠ .waiting) : s.mSem.pc (.inl w) = .out :=
  Semaphore.out_of_call _ ((h.worker w).resolve_right (fun hin => hne (hx ▸ hin.2)))

omit [Fintype ω] [Fintype π] [DecidableEq ω] [DecidableEq π] in
/-- A producer away from its post is outside the semaphore. -/
theorem Calls.producer_out (s : State ω π J) (h : Calls s) (p : π) (x : ProducerPc J)
    (hx : s.producer p = x) (hne : x ≠ .pushed) : s.mSem.pc (.inr p) = .out :=
  Semaphore.out_of_call _ ((h.producer p).resolve_right (fun hin => hne (hx ▸ hin.2)))

omit [Fintype ω] [Fintype π] [DecidableEq ω] [DecidableEq π] in
/-- A thread in `wait` is a worker that waits. -/
theorem Calls.waiting (s : State ω π J) (h : Calls s) (t : ω ⊕ π)
    (ht : (s.mSem.pc t).call = .wait) : ∃ w, t = .inl w ∧ s.worker w = .waiting := by
  cases t with
  | inl w =>
      rcases h.worker w with hout | hin
      · rw [ht] at hout
        exact absurd hout (by decide)
      · exact ⟨w, rfl, hin.2⟩
  | inr p =>
      rcases h.producer p with hout | hin
      · rw [ht] at hout
        exact absurd hout (by decide)
      · rw [ht] at hin
        exact absurd hin.1 (by decide)

omit [Fintype ω] [Fintype π] [DecidableEq ω] [DecidableEq π] in
/-- A thread in `post` is a producer that has pushed. -/
theorem Calls.posting (s : State ω π J) (h : Calls s) (t : ω ⊕ π)
    (ht : (s.mSem.pc t).call = .post) : ∃ p, t = .inr p ∧ s.producer p = .pushed := by
  cases t with
  | inl w =>
      rcases h.worker w with hout | hin
      · rw [ht] at hout
        exact absurd hout (by decide)
      · rw [ht] at hin
        exact absurd hin.1 (by decide)
  | inr p =>
      rcases h.producer p with hout | hin
      · rw [ht] at hout
        exact absurd hout (by decide)
      · exact ⟨p, rfl, hin.2⟩

omit [Fintype ω] [Fintype π] in
/-- A step inside the semaphore takes a unit, gives one, or is not seen. -/
theorem abs_moves (s : State ω π J) (sem : Semaphore.State (ω ⊕ π)) (hcalls : Calls s)
    (hready : Semaphore.Ready s.mSem) (hmoves : Semaphore.Moves s.mSem sem) :
    abs { s with mSem := sem } = abs s ∨
      ∃ b, TPool.step (abs s) b = some (abs { s with mSem := sem }) := by
  cases hmoves with
  | lock t pc _ hpc =>
      refine Or.inl (abs_goto s _ t pc rfl rfl (fun a => ?_) (fun a => ?_)) <;>
        revert hpc <;>
        cases s.mSem.pc t <;>
        simp only [Semaphore.Pc.locked, reduceCtorEq, Option.some.injEq, IsEmpty.forall_iff] <;>
        rintro rfl <;> rfl
  | sleep t hpc _ =>
      exact Or.inl (abs_goto s _ t .asleep rfl rfl (by rw [hpc]; exact fun _ => rfl)
        (by rw [hpc]; exact fun _ => rfl))
  | pass t hpc _ =>
      exact Or.inl (abs_goto s _ t .waitDec rfl rfl (by rw [hpc]; exact fun _ => rfl)
        (by rw [hpc]; exact fun _ => rfl))
  | decrement t hpc =>
      rcases hcalls.waiting s t (by rw [hpc]; rfl) with ⟨w, rfl, hwaiting⟩
      rcases Nat.exists_eq_succ_of_ne_zero (hready _ hpc) with ⟨n, hn⟩
      -- The worker takes its unit here.
      have hworker : (abs s).worker w = .waiting := by
        change workerView (s.worker w) (s.mSem.pc (.inl w)) = _
        rw [hpc, hwaiting]
        rfl
      have hsem : (abs s).sem = n + 1 := hn
      refine Or.inr ⟨.semWait w, ?_⟩
      simp only [TPool.step, hworker, hsem]
      have hleft : s.mSem.val - 1 = n := by
        rw [hn]
        rfl
      rw [← hleft]
      refine congrArg some ?_
      symm
      refine abs_worker s _ w .passed ?_ ?_ ?_
      · change workerView _ (Function.update s.mSem.pc (.inl w) .waitUnlock (.inl w)) = _
        rw [Function.update_self]
        rfl
      · intro v hvw
        change workerView _ (Function.update s.mSem.pc (.inl w) .waitUnlock (.inl v)) = _
        rw [Function.update_of_ne (fun h => hvw (Sum.inl.inj h))]
      · intro p
        change producerView _ (Function.update s.mSem.pc (.inl w) .waitUnlock (.inr p)) = _
        rw [Function.update_of_ne Sum.inr_ne_inl]
  | increment t hpc =>
      rcases hcalls.posting s t (by rw [hpc]; rfl) with ⟨p, rfl, hpushed⟩
      have hproducer : (abs s).producer p = .pushed := by
        change producerView (s.producer p) (s.mSem.pc (.inr p)) = _
        rw [hpc, hpushed]
        rfl
      refine Or.inr ⟨.post p, ?_⟩
      simp only [TPool.step, hproducer]
      refine congrArg some ?_
      symm
      refine abs_producer s _ p .posted ?_ ?_ ?_
      · change producerView _ (Function.update s.mSem.pc (.inr p) .postNotify (.inr p)) = _
        rw [Function.update_self]
        rfl
      · intro q hqp
        change producerView _ (Function.update s.mSem.pc (.inr p) .postNotify (.inr q)) = _
        rw [Function.update_of_ne (fun h => hqp (Sum.inr.inj h))]
      · intro w
        change workerView _ (Function.update s.mSem.pc (.inr p) .postNotify (.inl w)) = _
        rw [Function.update_of_ne Sum.inl_ne_inr]
  | wake t w hpc hw =>
      have htw : t ≠ w := by
        rintro rfl
        rw [hpc] at hw
        exact absurd hw (by decide)
      have hwoken : abs { s with mSem := s.mSem.goto w .woken } = abs s :=
        abs_goto s _ w .woken rfl rfl (by rw [hw]; exact fun _ => rfl)
          (by rw [hw]; exact fun _ => rfl)
      have hstay : (s.mSem.goto w .woken).pc t = .postNotify :=
        (Function.update_of_ne htw _ _).trans hpc
      refine Or.inl (Eq.trans ?_ hwoken)
      exact abs_goto { s with mSem := s.mSem.goto w .woken }
        ((s.mSem.goto w .woken).goto t .postUnlock) t .postUnlock rfl rfl
        (by rw [hstay]; exact fun _ => rfl) (by rw [hstay]; exact fun _ => rfl)
  | noSleeper t hpc _ =>
      exact Or.inl (abs_goto s _ t .postUnlock rfl rfl (by rw [hpc]; exact fun _ => rfl)
        (by rw [hpc]; exact fun _ => rfl))

/-- Every step is a step of the pool with single steps, or is not seen. -/
theorem abs_step (s : State ω π J) (a : Action ω π J) (s' : State ω π J)
    (hcalls : Calls s) (hready : Semaphore.Ready s.mSem) (hstep : step s a = some s') :
    abs s' = abs s ∨ ∃ b, TPool.step (abs s) b = some (abs s') := by
  -- A thread outside the semaphore is seen where it is.
  have hworker : ∀ w x, s.worker w = x → s.mSem.pc (.inl w) = .out → (abs s).worker w = x := by
    intro w x hx hout
    change workerView (s.worker w) (s.mSem.pc (.inl w)) = x
    rw [hout]
    exact hx
  have hproducer : ∀ p x, s.producer p = x → s.mSem.pc (.inr p) = .out →
      (abs s).producer p = x := by
    intro p x hx hout
    change producerView (s.producer p) (s.mSem.pc (.inr p)) = x
    rw [hout]
    exact hx
  have hfires := fires_of_step s a s' hstep
  generalize a.isInternal = internal at hfires
  cases hfires with
  | addJob p job hpc =>
      have hout := hcalls.producer_out s p _ hpc (by simp only [ne_eq, reduceCtorEq,
        not_false_eq_true])
      refine Or.inr ⟨.addJob p job, ?_⟩
      simp only [TPool.step, hproducer p _ hpc hout]
      refine congrArg some ?_
      symm
      exact abs_setProducer s _ p (.entered job) rfl rfl rfl hout
  | lockQueue p job hpc hfree =>
      have hout := hcalls.producer_out s p _ hpc (by simp only [ne_eq, reduceCtorEq,
        not_false_eq_true])
      have hmutex : (abs s).mutex = none := hfree
      refine Or.inr ⟨.lockQueue p, ?_⟩
      simp only [TPool.step, hproducer p _ hpc hout, hmutex]
      refine congrArg some ?_
      symm
      exact abs_setProducer s _ p (.locked job) rfl rfl rfl hout
  | push p job hpc =>
      have hout := hcalls.producer_out s p _ hpc (by simp only [ne_eq, reduceCtorEq,
        not_false_eq_true])
      refine Or.inr ⟨.push p, ?_⟩
      simp only [TPool.step, hproducer p _ hpc hout]
      refine congrArg some ?_
      symm
      exact abs_setProducer s _ p .pushed rfl rfl rfl hout
  | callPost p hpc hout =>
      exact Or.inl (abs_goto s _ (.inr p) .postLock rfl rfl (by rw [hout]; exact fun _ => rfl)
        (by rw [hout]; exact fun _ => rfl))
  | returnPost p hpc hend =>
      refine Or.inl (abs_same s _ rfl rfl rfl rfl rfl (fun w => ?_) (fun q => ?_))
      · change workerView _ (Function.update s.mSem.pc (.inr p) .out (.inl w)) = _
        rw [Function.update_of_ne Sum.inl_ne_inr]
        rfl
      · change producerView (Function.update s.producer p .posted q)
          (Function.update s.mSem.pc (.inr p) .out (.inr q)) = _
        by_cases hqp : q = p
        · rw [hqp, Function.update_self, Function.update_self, hend]
          rfl
        · rw [Function.update_of_ne hqp, Function.update_of_ne (fun h => hqp (Sum.inr.inj h))]
  | unlockQueue p hpc =>
      have hout := hcalls.producer_out s p _ hpc (by simp only [ne_eq, reduceCtorEq,
        not_false_eq_true])
      refine Or.inr ⟨.unlockQueue p, ?_⟩
      simp only [TPool.step, hproducer p _ hpc hout]
      refine congrArg some ?_
      symm
      exact abs_setProducer s _ p .idle rfl rfl rfl hout
  | callWait w hpc hout =>
      exact Or.inl (abs_goto s _ (.inl w) .waitLock rfl rfl (by rw [hout]; exact fun _ => rfl)
        (by rw [hout]; exact fun _ => rfl))
  | returnWait w hpc hend =>
      refine Or.inl (abs_same s _ rfl rfl rfl rfl rfl (fun v => ?_) (fun p => ?_))
      · change workerView (Function.update s.worker w .passed v)
          (Function.update s.mSem.pc (.inl w) .out (.inl v)) = _
        by_cases hvw : v = w
        · rw [hvw, Function.update_self, Function.update_self, hend]
          rfl
        · rw [Function.update_of_ne hvw, Function.update_of_ne (fun h => hvw (Sum.inl.inj h))]
      · change producerView _ (Function.update s.mSem.pc (.inl w) .out (.inr p)) = _
        rw [Function.update_of_ne Sum.inr_ne_inl]
        rfl
  | lock w hpc hfree =>
      have hout := hcalls.worker_out s w _ hpc (by simp only [ne_eq, reduceCtorEq,
        not_false_eq_true])
      have hmutex : (abs s).mutex = none := hfree
      refine Or.inr ⟨.lock w, ?_⟩
      simp only [TPool.step, hworker w _ hpc hout, hmutex]
      refine congrArg some ?_
      symm
      exact abs_setWorker s _ w .locked rfl rfl rfl hout
  | pop w job rest hpc hqueue =>
      have hout := hcalls.worker_out s w _ hpc (by simp only [ne_eq, reduceCtorEq,
        not_false_eq_true])
      have hfront : (abs s).queue = job :: rest := hqueue
      refine Or.inr ⟨.pop w, ?_⟩
      simp only [TPool.step, hworker w _ hpc hout, hfront]
      refine congrArg some ?_
      symm
      exact abs_setWorker s _ w (.popped job) rfl rfl rfl hout
  | unlock w job hpc =>
      have hout := hcalls.worker_out s w _ hpc (by simp only [ne_eq, reduceCtorEq,
        not_false_eq_true])
      refine Or.inr ⟨.unlock w, ?_⟩
      simp only [TPool.step, hworker w _ hpc hout]
      refine congrArg some ?_
      symm
      exact abs_setWorker s _ w (.running job) rfl rfl rfl hout
  | finish w job hpc =>
      have hout := hcalls.worker_out s w _ hpc (by simp only [ne_eq, reduceCtorEq,
        not_false_eq_true])
      refine Or.inr ⟨.finish w, ?_⟩
      simp only [TPool.step, hworker w _ hpc hout]
      refine congrArg some ?_
      symm
      exact abs_setWorker s _ w .waiting rfl rfl rfl hout
  | spurious t hpc =>
      exact Or.inl (abs_goto s _ t .woken rfl rfl (by rw [hpc]; exact fun _ => rfl)
        (by rw [hpc]; exact fun _ => rfl))
  | inner a sem ha hmoves => exact abs_moves s sem hcalls hready hmoves

/-- The pool on its semaphore does nothing that the pool with single steps could
    not. -/
theorem reachable_abs {s : State ω π J} (hr : (system ω π J).Reachable s) :
    (TPool.system ω π J).Reachable (abs s) := by
  have hsim := hr.simulated (TPool.system ω π J) (fun s t => t = abs s) (fun s hinit => ?_)
    (fun s a s' t hr hstep ht hR => ?_)
  · rcases hsim with ⟨t, ht, rfl⟩
    exact ht
  · rw [show s = State.fresh from hinit]
    exact ⟨_, .init _ rfl, rfl⟩
  · subst hR
    have hready := Semaphore.reachable_ready (reachable_sem hr)
    rcases abs_step s a s' (reachable_calls hr) hready hstep with hsame | ⟨b, hb⟩
    · exact ⟨abs s', hsame ▸ ht, rfl⟩
    · exact ⟨abs s', .step _ b _ ht hb, rfl⟩

open Classical in
/-- **The pool on its semaphore**: with the mutex and the condition variable, and
    whoever is woken when and for whatever reason, the pool is always in a state
    that the pool with single steps can be in. So no worker pops an empty queue,
    the queue is as long as the counter says together with who has taken a unit
    and not popped and who has pushed and not given one, and no job is lost,
    duplicated or overtaken. -/
theorem threads_refine (s : State ω π J) (hr : (system ω π J).Reachable s) :
    (TPool.system ω π J).Reachable (abs s) ∧
    (∀ w, s.worker w = .locked → s.queue ≠ []) ∧
    s.queue.length = s.mSem.val + countAt WorkerPc.isOwed (abs s).worker
      + (if TPool.Posting (abs s) then 1 else 0) ∧
    s.pushed = s.popped.map Prod.snd ++ s.queue := by
  have habs := reachable_abs hr
  have hpaid := (TPool.reachable_paid habs).2
  refine ⟨habs, fun w hw => ?_, hpaid, TPool.reachable_inOrder habs⟩
  -- The worker has taken a unit, also as it is seen.
  refine hpaid.queue_ne_nil (abs s) w ?_
  have hout := (reachable_calls hr).worker_out s w _ hw (by simp only [ne_eq, reduceCtorEq,
    not_false_eq_true])
  change (workerView (s.worker w) (s.mSem.pc (.inl w))).isOwed = true
  rw [hout, hw]
  rfl

/-- A worker falls asleep, a producer adds a job and wakes it, and the worker takes
    its unit while the producer still holds the queue mutex. -/
def handover : List (Action Bool Unit Nat) :=
  [.callWait true, .inner (.lock (.inl true)), .inner (.test (.inl true)), .addJob () 7,
    .lockQueue (), .push (), .callPost (), .inner (.lock (.inr ())), .inner (.increment (.inr ())),
    .inner (.notify (.inr ()) (some (.inl true))), .returnPost (), .inner (.lock (.inl true)),
    .inner (.test (.inl true)), .inner (.decrement (.inl true)), .returnWait true, .unlockQueue (),
    .lock true]

theorem threads_refine_handover :
    ∃ s : State Bool Unit Nat, (system Bool Unit Nat).Reachable s ∧
      s.worker true = .locked ∧ s.queue ≠ [] := by
  have hstart : (system Bool Unit Nat).Reachable State.fresh := System.Reachable.init _ rfl
  rcases hrun : (system Bool Unit Nat).run State.fresh handover with _ | s
  · exact absurd hrun (by decide)
  · have hr := System.reachable_of_run _ _ hstart hrun
    have hend : s.worker true = .locked := by
      have hsome := congrArg (Option.map (fun s => s.worker true)) hrun
      rw [show Option.map (fun s => s.worker true)
        ((system Bool Unit Nat).run State.fresh handover)
        = some .locked by decide, Option.map_some, Option.some.injEq] at hsome
      exact hsome.symm
    exact ⟨s, hr, hend, (threads_refine s hr).2.1 true hend⟩

end PoolThreads

end HttpFileSharing
