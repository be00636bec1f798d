import HttpFileSharing.Lib.Progress
import HttpFileSharing.Theory.PoolRefinement

/-!
# The Pool Gets On

Nothing bad happens in the pool, by `Theory.Pool` and `Theory.PoolRefinement`.
Here is that something good does. Let no job be added, no running job end and
nobody be woken for no reason; then whatever the threads do, in whatever order,
they do finitely much of it, and when they are done every job that was added has
been taken, unless every worker is busy with one. No thread is stuck with a mutex
held, and no worker sleeps while a job is queued.

That they come to an end is a measure. Every thread has so many steps before it,
a worker up to its job or to its sleep, a producer up to its return, and every
step is one of them. Only a notification gives steps to another thread, the one
it wakes, and it is paid for them in advance: a producer counts nine more before
its notification than after it.

What they have come to is read off the invariants. A thread that holds a mutex has
a next step, so both are free, and then so has every thread that is not asleep or
at its job. With everybody else asleep nobody is a credit, so the counter is zero,
and the counter is what pays for the queue.

## Main definitions

* `TPool.Owned`: The thread that holds the queue mutex is inside its critical
  section.
* `PoolThreads.workerRank`, `PoolThreads.producerRank`: The steps before a thread.
* `PoolThreads.rank`: The steps before each thread.
* `PoolThreads.Settled`: What the pool has come to.
* `PoolThreads.Idle`: No thread that is at work has a step.

## Theorems

* `TPool.owned_step`: Every step keeps the owner where it should be.
* `PoolThreads.rank_lowers`: Every internal step lowers the ranks.
* `PoolThreads.settled_of_idle`: A pool with no internal step has settled.
* `PoolThreads.comes_to_rest`: The pool settles, and it takes no more than so many
  steps.
-/

namespace HttpFileSharing

namespace TPool

variable {ω π J : Type*} [DecidableEq ω] [DecidableEq π]

/-- The thread is inside its critical section. -/
def State.holds (s : State ω π J) : ω ⊕ π → Bool
  | .inl w => (s.worker w).holdsMutex
  | .inr p => (s.producer p).holdsMutex

/-- The thread that holds the queue mutex is inside its critical section. -/
def Owned (s : State ω π J) : Prop := ∀ t, s.mutex = some t → s.holds t = true

/-- Moving one thread keeps the owner where it should be, if the mutex is free
    afterwards, or it is the thread's and the thread is inside, or it is whose it
    was and the thread is still inside if it was before. -/
theorem owned_move (s s' : State ω π J) (t : ω ⊕ π) (hs : Owned s)
    (hothers : ∀ u, u ≠ t → s'.holds u = s.holds u)
    (hmutex : s'.mutex = none ∨ s'.mutex = some t ∧ s'.holds t = true ∨
      s'.mutex = s.mutex ∧ (s.holds t = true → s'.holds t = true)) : Owned s' := by
  intro u hu
  rcases hmutex with hfree | ⟨hmine, ht⟩ | ⟨hsame, ht⟩
  · rw [hfree] at hu
    exact absurd hu (by simp only [reduceCtorEq, not_false_eq_true])
  · rw [hmine, Option.some.injEq] at hu
    exact hu ▸ ht
  · rw [hsame] at hu
    by_cases hut : u = t
    · exact hut ▸ ht (hut ▸ hs u hu)
    · rw [hothers u hut]
      exact hs u hu

omit [DecidableEq ω] in
/-- Moving a producer leaves who is inside among the others. -/
theorem holds_producer (s s' : State ω π J) (p : π) (x : ProducerPc J)
    (hp : s'.producer = Function.update s.producer p x) (hw : s'.worker = s.worker) (u : ω ⊕ π)
    (hu : u ≠ .inr p) : s'.holds u = s.holds u := by
  cases u with
  | inl w => rw [State.holds, State.holds, hw]
  | inr q =>
      rw [State.holds, State.holds, hp,
        Function.update_of_ne (fun h => hu (congrArg Sum.inr h))]

omit [DecidableEq π] in
/-- Moving a worker leaves who is inside among the others. -/
theorem holds_worker (s s' : State ω π J) (w : ω) (x : WorkerPc J)
    (hw : s'.worker = Function.update s.worker w x) (hp : s'.producer = s.producer) (u : ω ⊕ π)
    (hu : u ≠ .inl w) : s'.holds u = s.holds u := by
  cases u with
  | inl v =>
      rw [State.holds, State.holds, hw,
        Function.update_of_ne (fun h => hu (congrArg Sum.inl h))]
  | inr p => rw [State.holds, State.holds, hp]

/-- A step of producer `p` to point `x` keeps the owner where it should be. -/
theorem owned_producer (s s' : State ω π J) (p : π) (x : ProducerPc J) (hs : Owned s)
    (hp : s'.producer = Function.update s.producer p x) (hw : s'.worker = s.worker)
    (hmutex : s'.mutex = none ∨ s'.mutex = some (.inr p) ∧ x.holdsMutex = true ∨
      s'.mutex = s.mutex ∧ ((s.producer p).holdsMutex = true → x.holdsMutex = true)) :
    Owned s' := by
  refine owned_move s s' (.inr p) hs (holds_producer s s' p x hp hw) ?_
  rw [State.holds, State.holds, hp, Function.update_self]
  exact hmutex

/-- A step of worker `w` to point `x` keeps the owner where it should be. -/
theorem owned_worker (s s' : State ω π J) (w : ω) (x : WorkerPc J) (hs : Owned s)
    (hw : s'.worker = Function.update s.worker w x) (hp : s'.producer = s.producer)
    (hmutex : s'.mutex = none ∨ s'.mutex = some (.inl w) ∧ x.holdsMutex = true ∨
      s'.mutex = s.mutex ∧ ((s.worker w).holdsMutex = true → x.holdsMutex = true)) :
    Owned s' := by
  refine owned_move s s' (.inl w) hs (holds_worker s s' w x hw hp) ?_
  rw [State.holds, State.holds, hw, Function.update_self]
  exact hmutex

/-- Every step keeps the owner where it should be. -/
theorem owned_step (s : State ω π J) (a : Action ω π J) (s' : State ω π J) (hs : Owned s)
    (hstep : step s a = some s') : Owned s' := by
  cases fires_of_step s a s' hstep with
  | addJob p job hpc =>
      exact owned_producer s _ p _ hs rfl rfl (Or.inr (Or.inr ⟨rfl, fun h => by
        rw [hpc] at h
        exact h⟩))
  | lockQueue p job hpc hfree =>
      exact owned_producer s _ p _ hs rfl rfl (Or.inr (Or.inl ⟨rfl, rfl⟩))
  | push p job hpc => exact owned_producer s _ p _ hs rfl rfl (Or.inr (Or.inr ⟨rfl, fun _ => rfl⟩))
  | post p hpc => exact owned_producer s _ p _ hs rfl rfl (Or.inr (Or.inr ⟨rfl, fun _ => rfl⟩))
  | unlockQueue p hpc => exact owned_producer s _ p _ hs rfl rfl (Or.inl rfl)
  | semWait w n hpc hsem =>
      exact owned_worker s _ w _ hs rfl rfl (Or.inr (Or.inr ⟨rfl, fun h => by
        rw [hpc] at h
        exact h⟩))
  | lock w hpc hfree => exact owned_worker s _ w _ hs rfl rfl (Or.inr (Or.inl ⟨rfl, rfl⟩))
  | pop w job rest hpc hqueue =>
      exact owned_worker s _ w _ hs rfl rfl (Or.inr (Or.inr ⟨rfl, fun _ => rfl⟩))
  | unlock w job hpc => exact owned_worker s _ w _ hs rfl rfl (Or.inl rfl)
  | finish w job hpc =>
      exact owned_worker s _ w _ hs rfl rfl (Or.inr (Or.inr ⟨rfl, fun h => by
        rw [hpc] at h
        exact h⟩))

theorem reachable_owned {s : State ω π J} (hr : (system ω π J).Reachable s) : Owned s := by
  refine System.Reachable.invariant Owned (fun s hinit t ht => ?_) owned_step hr
  rw [show s = State.fresh from hinit] at ht
  exact absurd ht (by simp only [State.fresh, reduceCtorEq, not_false_eq_true])

end TPool

namespace PoolThreads

open TPool (WorkerPc ProducerPc)

variable {ω π J : Type*} [Fintype ω] [Fintype π] [DecidableEq ω] [DecidableEq π]

/-- The steps a waiting worker has before it, by where it is in `wait`. -/
def waitRank : Semaphore.Pc → Nat
  | .out => 9
  | .waitLock | .woken => 8
  | .waitTest => 7
  | .waitDec => 6
  | .waitUnlock => 5
  | _ => 0

/-- The steps a worker has before it to its job, or to its sleep. -/
def workerRank (sem : Semaphore.Pc) : WorkerPc J → Nat
  | .waiting => waitRank sem
  | .passed => 4
  | .locked => 3
  | .popped _ => 2
  | .running _ => 0

/-- The steps a producer has before it, by where it is in `post`, and up to the
    notification those of the worker it may wake. -/
def postRank : Semaphore.Pc → Nat
  | .out => 14
  | .postLock => 13
  | .postInc => 12
  | .postNotify => 11
  | .postUnlock => 2
  | _ => 0

/-- The steps a producer has before it to its return. -/
def producerRank (sem : Semaphore.Pc) : ProducerPc J → Nat
  | .idle => 0
  | .entered _ => 16
  | .locked _ => 15
  | .pushed => postRank sem
  | .posted => 1

/-- The steps before each thread. -/
def rank (s : State ω π J) : ω ⊕ π → Nat
  | .inl w => workerRank (s.mSem.pc (.inl w)) (s.worker w)
  | .inr p => producerRank (s.mSem.pc (.inr p)) (s.producer p)

theorem waitRank_le (pc : Semaphore.Pc) : waitRank pc ≤ 16 := by
  cases pc <;> decide

theorem postRank_le (pc : Semaphore.Pc) : postRank pc ≤ 16 := by
  cases pc <;> decide

omit [Fintype ω] [Fintype π] [DecidableEq ω] [DecidableEq π] in
/-- No thread has more than sixteen steps before it. -/
theorem rank_le (s : State ω π J) (t : ω ⊕ π) : rank s t ≤ 16 := by
  cases t with
  | inl w =>
      rw [rank]
      cases s.worker w with
      | waiting => exact waitRank_le _
      | passed | locked | popped _ | running _ => simp only [workerRank]; omega
  | inr p =>
      rw [rank]
      cases s.producer p with
      | pushed => exact postRank_le _
      | idle | entered _ | locked _ | posted => simp only [producerRank]; omega

/-- A step that lowers the rank of one thread and leaves the others. -/
theorem rank_lower (s s' : State ω π J) (t : ω ⊕ π) (hothers : ∀ u, u ≠ t → rank s' u = rank s u)
    (ht : rank s' t < rank s t) : total (rank s') < total (rank s) := by
  have hchange := total_change (rank s) (rank s') t hothers
  omega

/-- A step that moves worker `w`, in the semaphore or outside. -/
theorem rank_worker (s s' : State ω π J) (w : ω)
    (hworker : ∀ v, v ≠ w → s'.worker v = s.worker v) (hp : s'.producer = s.producer)
    (hpc : ∀ u, u ≠ .inl w → s'.mSem.pc u = s.mSem.pc u)
    (hw : workerRank (s'.mSem.pc (.inl w)) (s'.worker w)
      < workerRank (s.mSem.pc (.inl w)) (s.worker w)) : total (rank s') < total (rank s) := by
  refine rank_lower s s' (.inl w) (fun u hu => ?_) hw
  cases u with
  | inl v => rw [rank, rank, hpc _ hu, hworker v (fun h => hu (congrArg Sum.inl h))]
  | inr p => rw [rank, rank, hpc _ hu, hp]

/-- A step that moves producer `p`, in the semaphore or outside. -/
theorem rank_producer (s s' : State ω π J) (p : π)
    (hproducer : ∀ q, q ≠ p → s'.producer q = s.producer q) (hw : s'.worker = s.worker)
    (hpc : ∀ u, u ≠ .inr p → s'.mSem.pc u = s.mSem.pc u)
    (hp : producerRank (s'.mSem.pc (.inr p)) (s'.producer p)
      < producerRank (s.mSem.pc (.inr p)) (s.producer p)) : total (rank s') < total (rank s) := by
  refine rank_lower s s' (.inr p) (fun u hu => ?_) hp
  cases u with
  | inl w => rw [rank, rank, hpc _ hu, hw]
  | inr q => rw [rank, rank, hpc _ hu, hproducer q (fun h => hu (congrArg Sum.inr h))]

/-- A step inside the semaphore that moves one thread, a worker in `wait` down its
    rank or a producer in `post` down its own. -/
theorem rank_inner (s : State ω π J) (sem : Semaphore.State (ω ⊕ π)) (hcalls : Calls s)
    (t : ω ⊕ π) (x : Semaphore.Pc) (hpc : sem.pc = Function.update s.mSem.pc t x)
    (hx : (s.mSem.pc t).call = .wait ∧ waitRank x < waitRank (s.mSem.pc t) ∨
      (s.mSem.pc t).call = .post ∧ postRank x < postRank (s.mSem.pc t)) :
    total (rank { s with mSem := sem }) < total (rank s) := by
  have hothers : ∀ u, u ≠ t → sem.pc u = s.mSem.pc u := by
    intro u hu
    rw [hpc, Function.update_of_ne hu]
  have hmine : sem.pc t = x := by rw [hpc, Function.update_self]
  rcases hx with ⟨hcall, hlow⟩ | ⟨hcall, hlow⟩
  · rcases hcalls.waiting s t hcall with ⟨w, rfl, hw⟩
    refine rank_worker s _ w (fun _ _ => rfl) rfl hothers ?_
    simp only [hw, workerRank, hmine]
    exact hlow
  · rcases hcalls.posting s t hcall with ⟨p, rfl, hp⟩
    refine rank_producer s _ p (fun _ _ => rfl) rfl hothers ?_
    simp only [hp, producerRank, hmine]
    exact hlow

/-- Locking the mutex of the semaphore lowers a rank. -/
theorem rank_locked (pc pc' : Semaphore.Pc) (h : pc.locked = some pc') :
    pc.call = .wait ∧ waitRank pc' < waitRank pc ∨
      pc.call = .post ∧ postRank pc' < postRank pc := by
  revert h
  cases pc <;>
    simp only [Semaphore.Pc.locked, reduceCtorEq, Option.some.injEq, IsEmpty.forall_iff] <;>
    rintro rfl <;> decide

/-- A notification that wakes a worker lowers the ranks: what the worker has to do
    again, the producer had counted. -/
theorem rank_wake (s : State ω π J) (hcalls : Calls s) (t u : ω ⊕ π)
    (hpc : s.mSem.pc t = .postNotify) (hu : s.mSem.pc u = .asleep) :
    total (rank { s with mSem := (s.mSem.goto u .woken).goto t .postUnlock })
      < total (rank s) := by
  rcases hcalls.posting s t (by rw [hpc]; rfl) with ⟨p, rfl, hp⟩
  rcases hcalls.waiting s u (by rw [hu]; rfl) with ⟨w, rfl, hw⟩
  -- The worker is moved first, then the producer.
  have hasleep : rank s (.inl w) = 0 := by rw [rank, hw, hu]; rfl
  have hnotify : rank { s with mSem := s.mSem.goto (.inl w) .woken } (.inr p) = 11 := by
    simp only [rank, Semaphore.State.goto, Function.update_of_ne Sum.inr_ne_inl, hp, hpc]
    rfl
  have hwoken := total_change (rank s) (rank { s with mSem := s.mSem.goto (.inl w) .woken })
    (.inl w) (fun v hv => by
      cases v <;> simp only [rank, Semaphore.State.goto, Function.update_of_ne hv])
  have hposted := total_change (rank { s with mSem := s.mSem.goto (.inl w) .woken })
    (rank { s with mSem := (s.mSem.goto (.inl w) .woken).goto (.inr p) .postUnlock }) (.inr p)
    (fun v hv => by
      cases v <;> simp only [rank, Semaphore.State.goto, Function.update_of_ne hv])
  rw [show rank { s with mSem := s.mSem.goto (.inl w) .woken } (.inl w) = 8 by
    simp only [rank, Semaphore.State.goto, Function.update_self, hw]; rfl] at hwoken
  rw [show rank { s with mSem := (s.mSem.goto (.inl w) .woken).goto (.inr p) .postUnlock } (.inr p)
    = 2 by simp only [rank, Semaphore.State.goto, Function.update_self, hp]; rfl] at hposted
  omega

/-- A step inside the semaphore lowers the ranks. -/
theorem rank_moves (s : State ω π J) (sem : Semaphore.State (ω ⊕ π)) (hcalls : Calls s)
    (hmoves : Semaphore.Moves s.mSem sem) :
    total (rank { s with mSem := sem }) < total (rank s) := by
  cases hmoves with
  | lock t pc _ hpc => exact rank_inner s _ hcalls t pc rfl (rank_locked _ _ hpc)
  | sleep t hpc _ =>
      exact rank_inner s _ hcalls t .asleep rfl (Or.inl (by rw [hpc]; decide))
  | pass t hpc _ =>
      exact rank_inner s _ hcalls t .waitDec rfl (Or.inl (by rw [hpc]; decide))
  | decrement t hpc =>
      exact rank_inner s _ hcalls t .waitUnlock rfl (Or.inl (by rw [hpc]; decide))
  | increment t hpc =>
      exact rank_inner s _ hcalls t .postNotify rfl (Or.inr (by rw [hpc]; decide))
  | wake t u hpc hu => exact rank_wake s hcalls t u hpc hu
  | noSleeper t hpc _ =>
      exact rank_inner s _ hcalls t .postUnlock rfl (Or.inr (by rw [hpc]; decide))

/-- Every internal step lowers the ranks. -/
theorem rank_lowers :
    (system ω π J).Lowers (fun a => a.isInternal = true) (fun s => total (rank s)) := by
  intro s a s' hr ha hstep
  have hcalls := reachable_calls hr
  have hfires := fires_of_step s a s' hstep
  rw [ha] at hfires
  cases hfires with
  | lockQueue p job hpc _ =>
      refine rank_producer s _ p (fun q hq => Function.update_of_ne hq _ _) rfl (fun _ _ => rfl) ?_
      simp only [State.setProducer, Function.update_self, hpc, producerRank]
      omega
  | push p job hpc =>
      refine rank_producer s _ p (fun q hq => Function.update_of_ne hq _ _) rfl (fun _ _ => rfl) ?_
      have hout := hcalls.producer_out s p _ hpc (by simp only [ne_eq, reduceCtorEq,
        not_false_eq_true])
      simp only [State.setProducer, Function.update_self, hpc, hout, producerRank, postRank]
      omega
  | callPost p hpc hout =>
      refine rank_producer s _ p (fun _ _ => rfl) rfl (fun u hu => Function.update_of_ne hu _ _) ?_
      simp only [Semaphore.State.goto, Function.update_self, hpc, hout, producerRank, postRank]
      omega
  | returnPost p hpc hend =>
      refine rank_producer s _ p (fun q hq => Function.update_of_ne hq _ _) rfl
        (fun u hu => Function.update_of_ne hu _ _) ?_
      simp only [State.setProducer, Function.update_self, hpc, hend, producerRank, postRank]
      omega
  | unlockQueue p hpc =>
      refine rank_producer s _ p (fun q hq => Function.update_of_ne hq _ _) rfl (fun _ _ => rfl) ?_
      simp only [State.setProducer, Function.update_self, hpc, producerRank]
      omega
  | callWait w hpc hout =>
      refine rank_worker s _ w (fun _ _ => rfl) rfl (fun u hu => Function.update_of_ne hu _ _) ?_
      simp only [Semaphore.State.goto, Function.update_self, hpc, hout, workerRank, waitRank]
      omega
  | returnWait w hpc hend =>
      refine rank_worker s _ w (fun v hv => Function.update_of_ne hv _ _) rfl
        (fun u hu => Function.update_of_ne hu _ _) ?_
      simp only [State.setWorker, Function.update_self, hpc, hend, workerRank, waitRank]
      omega
  | lock w hpc _ =>
      refine rank_worker s _ w (fun v hv => Function.update_of_ne hv _ _) rfl (fun _ _ => rfl) ?_
      simp only [State.setWorker, Function.update_self, hpc, workerRank]
      omega
  | pop w job rest hpc _ =>
      refine rank_worker s _ w (fun v hv => Function.update_of_ne hv _ _) rfl (fun _ _ => rfl) ?_
      simp only [State.setWorker, Function.update_self, hpc, workerRank]
      omega
  | unlock w job hpc =>
      refine rank_worker s _ w (fun v hv => Function.update_of_ne hv _ _) rfl (fun _ _ => rfl) ?_
      simp only [State.setWorker, Function.update_self, hpc, workerRank]
      omega
  | inner a sem ha hmoves => exact rank_moves s sem hcalls hmoves

/-- What the pool has come to: nobody is in `add_job`, every worker runs a job or
    sleeps, no mutex is held, and if a worker sleeps every job added has been taken. -/
structure Settled (s : State ω π J) : Prop where
  producer : ∀ p, s.producer p = .idle
  worker : ∀ w, (∃ job, s.worker w = .running job) ∨
    (s.worker w = .waiting ∧ s.mSem.pc (.inl w) = .asleep)
  mutex : s.mutex = none
  semMutex : s.mSem.mutex = none
  taken : (∃ w, s.worker w = .waiting) → s.queue = [] ∧ s.popped.map Prod.snd = s.pushed

/-- No step of a thread that is at work is enabled. -/
def Idle (s : State ω π J) : Prop := (system ω π J).Resting (fun a => a.isInternal = true) s

theorem Idle.stuck (s : State ω π J) (h : Idle s) (a : Action ω π J) (ha : a.isInternal = true) :
    step s a = none :=
  h a ha

/-- An idle pool has no step inside the semaphore either. -/
theorem Idle.inner (s : State ω π J) (h : Idle s) (a : Semaphore.Action (ω ⊕ π))
    (ha : isInner a = true) (hinternal : (Action.inner a : Action ω π J).isInternal = true) :
    Semaphore.step s.mSem a = none := by
  have hnone := h.stuck s (.inner a) hinternal
  simp only [step, ha, if_true, Option.map_eq_none_iff] at hnone
  exact hnone

/-- The mutex of the semaphore of an idle pool is free: whoever held it would go
    on. -/
theorem Idle.sem_free (s : State ω π J) (h : Idle s) (hcalls : Calls s)
    (howned : Semaphore.Owned s.mSem) : s.mSem.mutex = none := by
  cases hmutex : s.mSem.mutex with
  | none => rfl
  | some t =>
      exfalso
      have hholds := howned t hmutex
      cases hpc : s.mSem.pc t with
      | out | waitLock | asleep | woken | postLock =>
          rw [hpc] at hholds
          exact absurd hholds (by decide)
      | waitTest =>
          have hnone := h.inner s (.test t) rfl rfl
          simp only [Semaphore.step, hpc, if_true] at hnone
          split at hnone <;> exact absurd hnone (by simp only [reduceCtorEq, not_false_eq_true])
      | waitDec =>
          have hnone := h.inner s (.decrement t) rfl rfl
          simp only [Semaphore.step, hpc, if_true, reduceCtorEq] at hnone
      | waitUnlock =>
          rcases hcalls.waiting s t (by rw [hpc]; rfl) with ⟨w, rfl, hw⟩
          have hnone := h.stuck s (.returnWait w) rfl
          simp only [step, hw, hpc, Semaphore.step, true_or, if_true, Option.map_some,
            reduceCtorEq] at hnone
      | postInc =>
          have hnone := h.inner s (.increment t) rfl rfl
          simp only [Semaphore.step, hpc, if_true, reduceCtorEq] at hnone
      | postNotify =>
          -- It wakes a sleeper if there is one.
          by_cases hsleeper : ∃ u, s.mSem.pc u = .asleep
          · rcases hsleeper with ⟨u, hu⟩
            have hnone := h.inner s (.notify t (some u)) rfl rfl
            simp only [Semaphore.step, hpc, hu, if_true, reduceCtorEq] at hnone
          · have hnone := h.inner s (.notify t none) rfl rfl
            push Not at hsleeper
            simp only [Semaphore.step, hpc, if_true, if_pos hsleeper, reduceCtorEq] at hnone
      | postUnlock =>
          rcases hcalls.posting s t (by rw [hpc]; rfl) with ⟨p, rfl, hp⟩
          have hnone := h.stuck s (.returnPost p) rfl
          simp only [step, hp, hpc, Semaphore.step, or_true, if_true, Option.map_some,
            reduceCtorEq] at hnone

/-- A thread in the semaphore of an idle pool is asleep. -/
theorem Idle.asleep (s : State ω π J) (h : Idle s) (hheld : Semaphore.Held s.mSem)
    (hfree : s.mSem.mutex = none) (t : ω ⊕ π) (hin : s.mSem.pc t ≠ .out) :
    s.mSem.pc t = .asleep := by
  have hnot : (s.mSem.pc t).holdsMutex = false := by
    rw [Bool.eq_false_iff]
    intro hholds
    rw [hheld t hholds] at hfree
    exact absurd hfree (by simp only [reduceCtorEq, not_false_eq_true])
  -- With the mutex free, who is about to lock it can.
  have hlock : (s.mSem.pc t).locked = none := by
    have hnone := h.inner s (.lock t) rfl rfl
    simp only [Semaphore.step, hfree] at hnone
    cases hlocked : (s.mSem.pc t).locked with
    | none => rfl
    | some pc =>
        rw [hlocked] at hnone
        exact absurd hnone (by simp only [reduceCtorEq, not_false_eq_true])
  revert hin hnot hlock
  cases s.mSem.pc t <;> decide

/-- A producer in an idle pool has returned, or waits for the queue mutex. -/
theorem Idle.producer (s : State ω π J) (h : Idle s) (p : π)
    (hout : s.mSem.pc (.inr p) = .out) :
    s.producer p = .idle ∨ (s.producer p).holdsMutex = false ∧ s.mutex ≠ none := by
  cases hp : s.producer p with
  | idle => exact Or.inl rfl
  | entered job =>
      refine Or.inr ⟨rfl, fun hfree => ?_⟩
      have hnone := h.stuck s (.lockQueue p) rfl
      simp only [step, hp, hfree, reduceCtorEq] at hnone
  | locked job =>
      have hnone := h.stuck s (.push p) rfl
      simp only [step, hp, reduceCtorEq] at hnone
  | pushed =>
      have hnone := h.stuck s (.callPost p) rfl
      simp only [step, hp, Semaphore.step, hout, if_true, Option.map_some, reduceCtorEq] at hnone
  | posted =>
      have hnone := h.stuck s (.unlockQueue p) rfl
      simp only [step, hp, reduceCtorEq] at hnone

/-- A worker in an idle pool runs a job, sleeps, or waits for the queue mutex. -/
theorem Idle.worker (s : State ω π J) (h : Idle s) (w : ω)
    (hqueue : (s.worker w).isOwed = true → s.queue ≠ [])
    (hpc : s.mSem.pc (.inl w) = .out ∨ s.mSem.pc (.inl w) = .asleep) :
    (∃ job, s.worker w = .running job) ∨ s.worker w = .waiting ∧ s.mSem.pc (.inl w) = .asleep ∨
      s.worker w = .passed ∧ s.mutex ≠ none := by
  cases hw : s.worker w with
  | waiting =>
      refine Or.inr (Or.inl ⟨rfl, hpc.resolve_left (fun hout => ?_)⟩)
      have hnone := h.stuck s (.callWait w) rfl
      simp only [step, hw, Semaphore.step, hout, if_true, Option.map_some, reduceCtorEq] at hnone
  | passed =>
      refine Or.inr (Or.inr ⟨rfl, fun hfree => ?_⟩)
      have hnone := h.stuck s (.lock w) rfl
      simp only [step, hw, hfree, reduceCtorEq] at hnone
  | locked =>
      rcases List.exists_cons_of_ne_nil (hqueue (by rw [hw]; rfl)) with ⟨job, rest, hcons⟩
      have hnone := h.stuck s (.pop w) rfl
      simp only [step, hw, hcons, reduceCtorEq] at hnone
  | popped job =>
      have hnone := h.stuck s (.unlock w) rfl
      simp only [step, hw, reduceCtorEq] at hnone
  | running job => exact Or.inl ⟨job, rfl⟩

/-- A pool with no internal step has settled. -/
theorem settled_of_idle (s : State ω π J) (hr : (system ω π J).Reachable s) (h : Idle s) :
    Settled s := by
  have hcalls := reachable_calls hr
  have hsem := reachable_sem hr
  have habs := reachable_abs hr
  have hfree := h.sem_free s hcalls (Semaphore.reachable_owned hsem)
  have hasleep := h.asleep s (Semaphore.reachable_held hsem) hfree
  -- A producer is never asleep, so it is in no call.
  have hpout : ∀ p, s.mSem.pc (.inr p) = .out := by
    intro p
    by_contra hin
    rcases hcalls.waiting s (.inr p) (by rw [hasleep _ hin]; rfl) with ⟨w, hw, _⟩
    exact absurd hw Sum.inr_ne_inl
  have hwpc : ∀ w, s.mSem.pc (.inl w) = .out ∨ s.mSem.pc (.inl w) = .asleep :=
    fun w => or_iff_not_imp_left.mpr (hasleep _)
  -- So every thread is seen where it is.
  have hwview : ∀ w, (abs s).worker w = s.worker w := by
    intro w
    change workerView (s.worker w) (s.mSem.pc (.inl w)) = _
    rcases hwpc w with hpc | hpc <;> rw [hpc] <;> rfl
  have hpview : ∀ p, (abs s).producer p = s.producer p := by
    intro p
    change producerView (s.producer p) (s.mSem.pc (.inr p)) = _
    rw [hpout p]
    rfl
  have hpaid := (TPool.reachable_paid habs).2
  have hworker := fun w => h.worker s w
    (fun how => hpaid.queue_ne_nil (abs s) w ((hwview w).symm ▸ how)) (hwpc w)
  have hproducer := fun p => h.producer s p (hpout p)
  -- The queue mutex is free: whoever held it would go on.
  have hmutex : s.mutex = none := by
    cases hm : s.mutex with
    | none => rfl
    | some t =>
        exfalso
        have hholds := TPool.reachable_owned habs t hm
        cases t with
        | inl w =>
            rw [TPool.State.holds, hwview] at hholds
            rcases hworker w with ⟨job, hw⟩ | ⟨hw, _⟩ | ⟨hw, _⟩ <;>
              · rw [hw] at hholds
                exact Bool.noConfusion hholds
        | inr p =>
            rw [TPool.State.holds, hpview] at hholds
            rcases hproducer p with hp | ⟨hp, _⟩
            · rw [hp] at hholds
              exact Bool.noConfusion hholds
            · rw [hp] at hholds
              exact Bool.noConfusion hholds
  have hidle : ∀ p, s.producer p = .idle :=
    fun p => (hproducer p).resolve_right (fun hstuck => hstuck.2 hmutex)
  have hsettled : ∀ w, (∃ job, s.worker w = .running job) ∨
      (s.worker w = .waiting ∧ s.mSem.pc (.inl w) = .asleep) := by
    intro w
    rcases hworker w with hrun | hsleep | ⟨_, hstuck⟩
    · exact Or.inl hrun
    · exact Or.inr hsleep
    · exact absurd hmutex hstuck
  refine ⟨hidle, hsettled, hmutex, hfree, fun hwaiting => ?_⟩
  rcases hwaiting with ⟨w, hw⟩
  have hsleeps : s.mSem.pc (.inl w) = .asleep := by
    rcases hsettled w with ⟨job, hrun⟩ | hsleep
    · rw [hw] at hrun
      exact absurd hrun (by simp only [reduceCtorEq, not_false_eq_true])
    · exact hsleep.2
  -- Nobody is a credit, so the counter is zero.
  have hzero : s.mSem.val = 0 := by
    have hcovered := Semaphore.reachable_covered hsem ⟨_, hsleeps⟩
    rw [(countAt_eq_zero _ _).mpr (fun t => ?_)] at hcovered
    · omega
    · by_cases hout : s.mSem.pc t = .out
      · rw [hout]
        rfl
      · rw [hasleep t hout]
        rfl
  -- Nobody has taken a unit or is to give one, so the queue is empty.
  have howed : countAt WorkerPc.isOwed (abs s).worker = 0 := by
    refine (countAt_eq_zero _ _).mpr (fun v => ?_)
    rw [hwview]
    rcases hsettled v with ⟨job, hv⟩ | ⟨hv, _⟩ <;> rw [hv] <;> rfl
  have hposting : ¬ TPool.Posting (abs s) := by
    rintro ⟨p, hp⟩
    rw [hpview, hidle p] at hp
    exact absurd hp (by simp only [reduceCtorEq, not_false_eq_true])
  have hempty : s.queue = [] := by
    rw [TPool.Paid, howed, if_neg hposting] at hpaid
    exact List.eq_nil_of_length_eq_zero (hpaid.trans (by rw [show (abs s).sem = 0 from hzero]))
  have horder : s.pushed = s.popped.map Prod.snd ++ s.queue := TPool.reachable_inOrder habs
  rw [hempty, List.append_nil] at horder
  exact ⟨hempty, horder.symm⟩

/-- **The pool gets on**: with no job added, no job ending and nobody woken for no
    reason, the threads take no more than sixteen steps each, in whatever order, and
    whenever they have none left, which they come to from any reachable state, the
    pool has settled: every worker is busy, or every job added has been taken. -/
theorem comes_to_rest (s : State ω π J) (hr : (system ω π J).Reachable s) :
    (∀ as t, (∀ a ∈ as, a.isInternal = true) → (system ω π J).run s as = some t →
      as.length ≤ (Fintype.card ω + Fintype.card π) * 16 ∧ (Idle t → Settled t)) ∧
    (∃ as t, (∀ a ∈ as, a.isInternal = true) ∧ (system ω π J).run s as = some t ∧ Idle t) := by
  refine ⟨fun as t has hrun => ⟨?_, fun hidle => ?_⟩, ?_⟩
  · have hlength := rank_lowers.length_le as has hr hrun
    have hbound := total_le (rank s) 16 (rank_le s)
    rw [Fintype.card_sum] at hbound
    omega
  · exact settled_of_idle t (System.reachable_of_run _ as hr hrun) hidle
  · exact rank_lowers.exists_resting hr

/-- Two workers not started yet and a producer that has just entered `add_job`. -/
def entered : State Bool Unit Nat := State.fresh.setProducer () (.entered 7)

theorem comes_to_rest_entered :
    (system Bool Unit Nat).Reachable entered ∧
      ∃ as t, (∀ a ∈ as, a.isInternal = true) ∧ as.length ≤ 48 ∧
        (system Bool Unit Nat).run entered as = some t ∧ Settled t := by
  have hr : (system Bool Unit Nat).Reachable entered :=
    System.Reachable.step State.fresh (.addJob () 7) entered (System.Reachable.init _ rfl) rfl
  rcases comes_to_rest entered hr with ⟨hbound, as, t, has, hrun, hidle⟩
  exact ⟨hr, as, t, has, (hbound as t has hrun).1, hrun, (hbound as t has hrun).2 hidle⟩

end PoolThreads

end HttpFileSharing
