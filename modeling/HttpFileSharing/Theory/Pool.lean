import HttpFileSharing.Core.TPool

/-!
# Thread Pool Exactness

The semaphore and the queue are two separately locked objects, and a worker
pops without looking whether anything is there. What makes that safe is a
count across both. Every queued job is paid for exactly once: by a unit of
the semaphore still to be taken, by a worker that has taken one and not
popped yet, or by a producer that has pushed and not posted yet. A worker at
the front of the queue is itself one of those payments, so the queue is not
empty.

At most one producer is between its push and its post, because it holds the
queue mutex there. That is a second invariant and it is needed only to turn
the count of such producers into "one or none".

The order half is a history invariant: what was pushed is what was popped
followed by what is queued. Only `push` and `pop` touch it, each on its own
end.

## Main definitions

* `TPool.Paid`: Each queued job is paid for exactly once.
* `TPool.Guarded`: Only the mutex holder is inside a critical section.
* `TPool.InOrder`: Pushed jobs are the popped ones followed by the queue.
* `TPool.Recorded`: The job a worker has is among those popped.
* `TPool.Fires`: What a step can do, one constructor for each way.

## Theorems

* `TPool.fires_of_step`: Every enabled action goes one of those ways.
* `TPool.paid_step`, `TPool.guarded_step`, `TPool.inOrder_step`,
  `TPool.recorded_step`: Every step keeps each invariant.
* `TPool.reachable_paid`, `TPool.reachable_inOrder`, `TPool.reachable_recorded`:
  They hold in every reachable state.
* `TPool.jobs_apart`: No two workers have the same job.
* `TPool.pool_exact`: No worker pops an empty queue, the length is accounted
  for, and no job is lost, duplicated or overtaken.
-/

namespace HttpFileSharing

namespace TPool

variable {ω π J : Type*} [Fintype ω] [DecidableEq ω] [DecidableEq π]

/-- What a step can do, one constructor for each way it can go. -/
inductive Fires (s : State ω π J) : State ω π J → Prop where
  | addJob (p : π) (job : J) (hpc : s.producer p = .idle) :
      Fires s (s.setProducer p (.entered job))
  | lockQueue (p : π) (job : J) (hpc : s.producer p = .entered job) (hfree : s.mutex = none) :
      Fires s { s.setProducer p (.locked job) with mutex := some (.inr p) }
  | push (p : π) (job : J) (hpc : s.producer p = .locked job) :
      Fires s { s.setProducer p .pushed with
        queue := s.queue ++ [job], pushed := s.pushed ++ [job] }
  | post (p : π) (hpc : s.producer p = .pushed) :
      Fires s { s.setProducer p .posted with sem := s.sem + 1 }
  | unlockQueue (p : π) (hpc : s.producer p = .posted) :
      Fires s { s.setProducer p .idle with mutex := none }
  | semWait (w : ω) (n : Nat) (hpc : s.worker w = .waiting) (hsem : s.sem = n + 1) :
      Fires s { s.setWorker w .passed with sem := n }
  | lock (w : ω) (hpc : s.worker w = .passed) (hfree : s.mutex = none) :
      Fires s { s.setWorker w .locked with mutex := some (.inl w) }
  | pop (w : ω) (job : J) (rest : List J) (hpc : s.worker w = .locked)
      (hqueue : s.queue = job :: rest) :
      Fires s { s.setWorker w (.popped job) with
        queue := rest, popped := s.popped ++ [(w, job)] }
  | unlock (w : ω) (job : J) (hpc : s.worker w = .popped job) :
      Fires s { s.setWorker w (.running job) with mutex := none }
  | finish (w : ω) (job : J) (hpc : s.worker w = .running job) :
      Fires s (s.setWorker w .waiting)

omit [Fintype ω] in
/-- Every enabled action goes one of those ways. -/
theorem fires_of_step (s : State ω π J) (a : Action ω π J) (s' : State ω π J)
    (hstep : step s a = some s') : Fires s s' := by
  cases a with
  | addJob p job =>
      simp only [step] at hstep
      split at hstep
      · rename_i hpc
        exact Option.some.inj hstep ▸ Fires.addJob p job hpc
      · exact absurd hstep (by simp only [reduceCtorEq, not_false_eq_true])
  | lockQueue p =>
      simp only [step] at hstep
      split at hstep
      · rename_i job hpc hfree
        exact Option.some.inj hstep ▸ Fires.lockQueue p job hpc hfree
      · exact absurd hstep (by simp only [reduceCtorEq, not_false_eq_true])
  | push p =>
      simp only [step] at hstep
      split at hstep
      · rename_i job hpc
        exact Option.some.inj hstep ▸ Fires.push p job hpc
      · exact absurd hstep (by simp only [reduceCtorEq, not_false_eq_true])
  | post p =>
      simp only [step] at hstep
      split at hstep
      · rename_i hpc
        exact Option.some.inj hstep ▸ Fires.post p hpc
      · exact absurd hstep (by simp only [reduceCtorEq, not_false_eq_true])
  | unlockQueue p =>
      simp only [step] at hstep
      split at hstep
      · rename_i hpc
        exact Option.some.inj hstep ▸ Fires.unlockQueue p hpc
      · exact absurd hstep (by simp only [reduceCtorEq, not_false_eq_true])
  | semWait w =>
      simp only [step] at hstep
      split at hstep
      · rename_i n hpc hsem
        exact Option.some.inj hstep ▸ Fires.semWait w n hpc hsem
      · exact absurd hstep (by simp only [reduceCtorEq, not_false_eq_true])
  | lock w =>
      simp only [step] at hstep
      split at hstep
      · rename_i hpc hfree
        exact Option.some.inj hstep ▸ Fires.lock w hpc hfree
      · exact absurd hstep (by simp only [reduceCtorEq, not_false_eq_true])
  | pop w =>
      simp only [step] at hstep
      split at hstep
      · rename_i job rest hpc hqueue
        exact Option.some.inj hstep ▸ Fires.pop w job rest hpc hqueue
      · exact absurd hstep (by simp only [reduceCtorEq, not_false_eq_true])
  | unlock w =>
      simp only [step] at hstep
      split at hstep
      · rename_i job hpc
        exact Option.some.inj hstep ▸ Fires.unlock w job hpc
      · exact absurd hstep (by simp only [reduceCtorEq, not_false_eq_true])
  | finish w =>
      simp only [step] at hstep
      split at hstep
      · rename_i job hpc
        exact Option.some.inj hstep ▸ Fires.finish w job hpc
      · exact absurd hstep (by simp only [reduceCtorEq, not_false_eq_true])

/-- Some producer is between its push and its post. -/
def Posting (s : State ω π J) : Prop := ∃ p, s.producer p = .pushed

open Classical in
/-- Each queued job is paid for exactly once: by a unit of the semaphore, by a
    worker past its wait that has not popped yet, or by a producer that has
    pushed and not posted yet. -/
def Paid (s : State ω π J) : Prop :=
  s.queue.length = s.sem + countAt WorkerPc.isOwed s.worker + (if Posting s then 1 else 0)

/-- Only the holder of the queue mutex is inside a critical section. -/
structure Guarded (s : State ω π J) : Prop where
  producer : ∀ p, (s.producer p).holdsMutex = true → s.mutex = some (.inr p)
  worker : ∀ w, (s.worker w).holdsMutex = true → s.mutex = some (.inl w)

/-- The jobs pushed are the jobs popped followed by the jobs still queued. -/
def InOrder (s : State ω π J) : Prop := s.pushed = s.popped.map Prod.snd ++ s.queue

omit [Fintype ω] [DecidableEq ω] in
/-- A producer that moves between points other than the one before its post
    does not change whether somebody is there. -/
theorem posting_move (s s' : State ω π J) (p : π) (x : ProducerPc J)
    (hp : s'.producer = Function.update s.producer p x)
    (hold : s.producer p ≠ .pushed) (hx : x ≠ .pushed) : Posting s' ↔ Posting s := by
  constructor
  · rintro ⟨q, hq⟩
    rw [hp] at hq
    by_cases hqp : q = p
    · rw [hqp, Function.update_self] at hq
      exact absurd hq hx
    · rw [Function.update_of_ne hqp] at hq
      exact ⟨q, hq⟩
  · rintro ⟨q, hq⟩
    -- Who is there is not the one that moves.
    have hqp : q ≠ p := by
      rintro rfl
      exact hold hq
    exact ⟨q, by rw [hp, Function.update_of_ne hqp, hq]⟩

omit [Fintype ω] [DecidableEq ω] [DecidableEq π] in
/-- The mutex admits one producer: when `p` is inside its critical section,
    nobody else is between push and post. -/
theorem posting_only (s : State ω π J) (hg : Guarded s) (p : π)
    (hpc : (s.producer p).holdsMutex = true) : ∀ q, s.producer q = .pushed → q = p := by
  intro q hq
  have hown := hg.producer q (hq ▸ rfl)
  rw [hg.producer p hpc, Option.some.injEq, Sum.inr.injEq] at hown
  exact hown.symm

omit [Fintype ω] [DecidableEq ω] in
/-- A step of producer `p` to point `x` keeps the mutex with its holder. -/
theorem guarded_producer (s s' : State ω π J) (p : π) (x : ProducerPc J) (hg : Guarded s)
    (hp : s'.producer = Function.update s.producer p x) (hw : s'.worker = s.worker)
    (hmine : x.holdsMutex = false ∨ s'.mutex = some (.inr p))
    (hothers : ∀ t, t ≠ .inr p → s.mutex = some t → s'.mutex = some t) : Guarded s' := by
  refine ⟨fun q hq => ?_, fun w hpc => ?_⟩
  · rw [hp] at hq
    by_cases hqp : q = p
    · rw [hqp, Function.update_self] at hq
      -- The producer itself: its new point is outside, or it has the mutex.
      rcases hmine with hmine | hmine
      · rw [hmine] at hq
        exact absurd hq (by decide)
      · exact hqp ▸ hmine
    · rw [Function.update_of_ne hqp] at hq
      exact hothers _ (fun h => hqp (Sum.inr.inj h)) (hg.producer q hq)
  · rw [hw] at hpc
    exact hothers _ Sum.inl_ne_inr (hg.worker w hpc)

omit [Fintype ω] [DecidableEq π] in
/-- A step of worker `w` to point `x` keeps the mutex with its holder. -/
theorem guarded_worker (s s' : State ω π J) (w : ω) (x : WorkerPc J) (hg : Guarded s)
    (hw : s'.worker = Function.update s.worker w x) (hp : s'.producer = s.producer)
    (hmine : x.holdsMutex = false ∨ s'.mutex = some (.inl w))
    (hothers : ∀ t, t ≠ .inl w → s.mutex = some t → s'.mutex = some t) : Guarded s' := by
  refine ⟨fun q hq => ?_, fun v hv => ?_⟩
  · rw [hp] at hq
    exact hothers _ Sum.inr_ne_inl (hg.producer q hq)
  · rw [hw] at hv
    by_cases hvw : v = w
    · rw [hvw, Function.update_self] at hv
      rcases hmine with hmine | hmine
      · rw [hmine] at hv
        exact absurd hv (by decide)
      · exact hvw ▸ hmine
    · rw [Function.update_of_ne hvw] at hv
      exact hothers _ (fun h => hvw (Sum.inl.inj h)) (hg.worker v hv)

omit [Fintype ω] in
/-- Every step keeps the mutex with its holder. -/
theorem guarded_step (s : State ω π J) (a : Action ω π J) (s' : State ω π J) (hg : Guarded s)
    (hstep : step s a = some s') : Guarded s' := by
  -- Locking a free mutex takes it from nobody.
  have hnobody : s.mutex = none → ∀ t, s.mutex = some t → ∀ m : Option (ω ⊕ π), m = some t := by
    intro hfree t ht
    rw [hfree] at ht
    exact absurd ht (by simp only [reduceCtorEq, not_false_eq_true])
  -- Unlocking it as its holder takes it from nobody else.
  have hsole : ∀ u, s.mutex = some u → ∀ t, t ≠ u → s.mutex = some t →
      ∀ m : Option (ω ⊕ π), m = some t := by
    intro u hu t htu ht
    rw [hu, Option.some.injEq] at ht
    exact absurd ht.symm htu
  cases fires_of_step s a s' hstep with
  | addJob p job _ =>
      exact guarded_producer s _ p _ hg rfl rfl (Or.inl rfl) (fun _ _ ht => ht)
  | lockQueue p job _ hfree =>
      exact guarded_producer s _ p _ hg rfl rfl (Or.inr rfl)
        (fun t _ ht => hnobody hfree t ht _)
  | push p job hpc =>
      exact guarded_producer s _ p _ hg rfl rfl (Or.inr (hg.producer p (hpc ▸ rfl)))
        (fun _ _ ht => ht)
  | post p hpc =>
      exact guarded_producer s _ p _ hg rfl rfl (Or.inr (hg.producer p (hpc ▸ rfl)))
        (fun _ _ ht => ht)
  | unlockQueue p hpc =>
      exact guarded_producer s _ p _ hg rfl rfl (Or.inl rfl)
        (fun t htp ht => hsole _ (hg.producer p (hpc ▸ rfl)) t htp ht _)
  | semWait w n _ _ =>
      exact guarded_worker s _ w _ hg rfl rfl (Or.inl rfl) (fun _ _ ht => ht)
  | lock w _ hfree =>
      exact guarded_worker s _ w _ hg rfl rfl (Or.inr rfl)
        (fun t _ ht => hnobody hfree t ht _)
  | pop w job rest hpc _ =>
      exact guarded_worker s _ w _ hg rfl rfl (Or.inr (hg.worker w (hpc ▸ rfl)))
        (fun _ _ ht => ht)
  | unlock w job hpc =>
      exact guarded_worker s _ w _ hg rfl rfl (Or.inl rfl)
        (fun t htw ht => hsole _ (hg.worker w (hpc ▸ rfl)) t htw ht _)
  | finish w job _ =>
      exact guarded_worker s _ w _ hg rfl rfl (Or.inl rfl) (fun _ _ ht => ht)

omit [DecidableEq ω] in
/-- A producer step away from the push and the post leaves the account
    unchanged. -/
theorem paid_producer (s s' : State ω π J) (p : π) (x : ProducerPc J) (hpaid : Paid s)
    (hp : s'.producer = Function.update s.producer p x)
    (hold : s.producer p ≠ .pushed) (hx : x ≠ .pushed)
    (hq : s'.queue = s.queue) (hsem : s'.sem = s.sem) (hw : s'.worker = s.worker) :
    Paid s' := by
  classical
  -- No term of the account changes.
  unfold Paid at hpaid ⊢
  rw [hq, hsem, hw, hpaid, if_congr (posting_move s s' p x hp hold hx) rfl rfl]

omit [DecidableEq π] in
/-- A worker step keeps the account balanced if what it takes from the
    semaphore or the queue is what its own debt changes by. -/
theorem paid_worker (s s' : State ω π J) (w : ω) (x : WorkerPc J) (hpaid : Paid s)
    (hw : s'.worker = Function.update s.worker w x) (hp : s'.producer = s.producer)
    (hbal : s'.queue.length + s.sem + (if (s.worker w).isOwed = true then 1 else 0)
      = s.queue.length + s'.sem + (if x.isOwed = true then 1 else 0)) : Paid s' := by
  classical
  -- The worker is the only one whose debt changes.
  have hcount := countAt_update WorkerPc.isOwed s.worker w x
  have hpost : Posting s' ↔ Posting s := by rw [Posting, Posting, hp]
  unfold Paid at hpaid ⊢
  rw [hw, if_congr hpost rfl rfl]
  omega

/-- Every step keeps each queued job paid for exactly once. -/
theorem paid_step (s : State ω π J) (a : Action ω π J) (s' : State ω π J)
    (hs : Guarded s ∧ Paid s) (hstep : step s a = some s') : Guarded s' ∧ Paid s' := by
  classical
  rcases hs with ⟨hg, hpaid⟩
  refine ⟨guarded_step s a s' hg hstep, ?_⟩
  cases fires_of_step s a s' hstep with
  | addJob p job hpc =>
      exact paid_producer s _ p _ hpaid rfl (by simp only [hpc, ne_eq, reduceCtorEq,
        not_false_eq_true]) (by simp only [ne_eq, reduceCtorEq, not_false_eq_true]) rfl rfl rfl
  | lockQueue p job hpc _ =>
      exact paid_producer s _ p _ hpaid rfl (by simp only [hpc, ne_eq, reduceCtorEq,
        not_false_eq_true]) (by simp only [ne_eq, reduceCtorEq, not_false_eq_true]) rfl rfl rfl
  | push p job hpc =>
      -- Nobody was posting while `p` held the mutex; now `p` is.
      have hnone : ¬ Posting s := by
        rintro ⟨q, hq⟩
        rw [posting_only s hg p (hpc ▸ rfl) q hq, hpc] at hq
        exact absurd hq (by simp only [reduceCtorEq, not_false_eq_true])
      rw [Paid, if_neg hnone] at hpaid
      rw [Paid, if_pos ⟨p, Function.update_self p _ _⟩, List.length_append]
      simp only [State.setProducer, List.length_singleton]
      omega
  | post p hpc =>
      -- `p` was the one posting, and it leaves.
      have hnone : ¬ Posting ({ s.setProducer p .posted with sem := s.sem + 1 } :
          State ω π J) := by
        rintro ⟨q, hq⟩
        by_cases hqp : q = p
        · rw [hqp] at hq
          simp only [State.setProducer, Function.update_self, reduceCtorEq] at hq
        · simp only [State.setProducer, Function.update_of_ne hqp] at hq
          exact hqp (posting_only s hg p (hpc ▸ rfl) q hq)
      rw [Paid, if_pos ⟨p, hpc⟩] at hpaid
      rw [Paid, if_neg hnone]
      simp only [State.setProducer]
      omega
  | unlockQueue p hpc =>
      exact paid_producer s _ p _ hpaid rfl (by simp only [hpc, ne_eq, reduceCtorEq,
        not_false_eq_true]) (by simp only [ne_eq, reduceCtorEq, not_false_eq_true]) rfl rfl rfl
  | semWait w n hpc hsem =>
      refine paid_worker s _ w .passed hpaid rfl rfl ?_
      simp only [hpc, hsem, State.setWorker, WorkerPc.isOwed, Bool.false_eq_true, if_false,
        if_true]
      omega
  | lock w hpc _ =>
      refine paid_worker s _ w .locked hpaid rfl rfl ?_
      simp only [hpc, State.setWorker, WorkerPc.isOwed]
  | pop w job rest hpc hqueue =>
      refine paid_worker s _ w (.popped job) hpaid rfl rfl ?_
      simp only [hpc, hqueue, State.setWorker, WorkerPc.isOwed, Bool.false_eq_true, if_false,
        if_true, List.length_cons]
      omega
  | unlock w job hpc =>
      refine paid_worker s _ w (.running job) hpaid rfl rfl ?_
      simp only [hpc, State.setWorker, WorkerPc.isOwed, Bool.false_eq_true, if_false]
  | finish w job hpc =>
      refine paid_worker s _ w .waiting hpaid rfl rfl ?_
      simp only [hpc, State.setWorker, WorkerPc.isOwed, Bool.false_eq_true, if_false]

omit [Fintype ω] in
/-- Every step keeps the jobs in order: only `push` and `pop` touch them. -/
theorem inOrder_step (s : State ω π J) (a : Action ω π J) (s' : State ω π J) (hs : InOrder s)
    (hstep : step s a = some s') : InOrder s' := by
  unfold InOrder at hs ⊢
  cases fires_of_step s a s' hstep with
  | push p job _ =>
      -- The job joins the end of both sides.
      change s.pushed ++ [job] = s.popped.map Prod.snd ++ (s.queue ++ [job])
      rw [hs, List.append_assoc]
  | pop w job rest _ hqueue =>
      -- The job moves from the queue to the popped ones.
      change s.pushed = (s.popped ++ [(w, job)]).map Prod.snd ++ rest
      rw [hs, hqueue, List.map_append, List.append_assoc]
      rfl
  | addJob | lockQueue | post | unlockQueue | semWait | lock | unlock | finish => exact hs

theorem reachable_paid {s : State ω π J} (hr : (system ω π J).Reachable s) :
    Guarded s ∧ Paid s := by
  refine System.Reachable.invariant (fun s => Guarded s ∧ Paid s) (fun s hinit => ?_) paid_step hr
  rw [show s = State.fresh from hinit]
  refine ⟨⟨fun p hp => ?_, fun w hw => ?_⟩, ?_⟩
  · exact absurd hp (by simp only [State.fresh, ProducerPc.holdsMutex, Bool.false_eq_true,
      not_false_eq_true])
  · exact absurd hw (by simp only [State.fresh, WorkerPc.holdsMutex, Bool.false_eq_true,
      not_false_eq_true])
  · -- Nothing is queued in a new pool, and nobody owes anything.
    have hcount : countAt WorkerPc.isOwed (State.fresh : State ω π J).worker = 0 :=
      (countAt_eq_zero _ _).mpr (fun _ => rfl)
    have hnone : ¬ Posting (State.fresh : State ω π J) := by
      rintro ⟨p, hp⟩
      exact absurd hp (by simp only [State.fresh, reduceCtorEq, not_false_eq_true])
    rw [Paid, hcount, if_neg hnone]
    rfl

omit [Fintype ω] in
theorem reachable_inOrder {s : State ω π J} (hr : (system ω π J).Reachable s) : InOrder s := by
  refine System.Reachable.invariant InOrder (fun s hinit => ?_) inOrder_step hr
  rw [show s = State.fresh from hinit]
  rfl

/-- The job a worker has is among those popped. -/
def Recorded (s : State ω π J) : Prop :=
  ∀ w job, s.worker w = .popped job ∨ s.worker w = .running job → (w, job) ∈ s.popped

omit [Fintype ω] [DecidableEq π] in
/-- A worker that goes on has its job recorded if it was before. -/
theorem recorded_worker (s s' : State ω π J) (w : ω) (x : WorkerPc J) (hs : Recorded s)
    (hw : s'.worker = Function.update s.worker w x) (hpopped : ∀ e ∈ s.popped, e ∈ s'.popped)
    (hx : ∀ job, x = .popped job ∨ x = .running job → (w, job) ∈ s'.popped) : Recorded s' := by
  intro v job hv
  rw [hw] at hv
  by_cases hvw : v = w
  · rw [hvw, Function.update_self] at hv
    exact hvw ▸ hx job hv
  · rw [Function.update_of_ne hvw] at hv
    exact hpopped _ (hs v job hv)

omit [Fintype ω] in
/-- Every step keeps the jobs of the workers recorded. -/
theorem recorded_step (s : State ω π J) (a : Action ω π J) (s' : State ω π J) (hs : Recorded s)
    (hstep : step s a = some s') : Recorded s' := by
  cases fires_of_step s a s' hstep with
  | addJob | lockQueue | push | post | unlockQueue => exact hs
  | semWait w n hpc hsem =>
      exact recorded_worker s _ w _ hs rfl (fun _ h => h) (by simp only [reduceCtorEq, or_self,
        IsEmpty.forall_iff, implies_true])
  | lock w hpc hfree =>
      exact recorded_worker s _ w _ hs rfl (fun _ h => h) (by simp only [reduceCtorEq, or_self,
        IsEmpty.forall_iff, implies_true])
  | pop w job rest hpc hqueue =>
      refine recorded_worker s _ w _ hs rfl (fun _ h => List.mem_append_left _ h) ?_
      simp only [WorkerPc.popped.injEq, reduceCtorEq, or_false, forall_eq', List.mem_append,
        List.mem_singleton, or_true]
  | unlock w job hpc =>
      refine recorded_worker s _ w _ hs rfl (fun _ h => h) ?_
      simp only [WorkerPc.running.injEq, reduceCtorEq, false_or, forall_eq']
      exact hs w job (Or.inl hpc)
  | finish w job hpc =>
      exact recorded_worker s _ w _ hs rfl (fun _ h => h) (by simp only [reduceCtorEq, or_self,
        IsEmpty.forall_iff, implies_true])

omit [Fintype ω] in
theorem reachable_recorded {s : State ω π J} (hr : (system ω π J).Reachable s) : Recorded s := by
  refine System.Reachable.invariant Recorded (fun s hinit w job hw => ?_) recorded_step hr
  rw [show s = State.fresh from hinit] at hw
  exact absurd hw (by simp only [State.fresh, reduceCtorEq, or_self, not_false_eq_true])

omit [Fintype ω] in
/-- Where every job is pushed once, no two workers have the same one. -/
theorem jobs_apart (s : State ω π J) (hr : (system ω π J).Reachable s) (honce : s.pushed.Nodup)
    (v w : ω) (job : J) (hv : s.worker v = .popped job ∨ s.worker v = .running job)
    (hw : s.worker w = .popped job ∨ s.worker w = .running job) : v = w := by
  have horder : s.pushed = s.popped.map Prod.snd ++ s.queue := reachable_inOrder hr
  rw [horder] at honce
  have hinj := List.inj_on_of_nodup_map (List.Nodup.of_append_left honce)
  exact congrArg Prod.fst (hinj (reachable_recorded hr v job hv) (reachable_recorded hr w job hw) rfl)

open Classical in
/-- The pool is exact. A worker at `front` and `pop` finds a job, the queue
    length is the semaphore value plus the workers past their wait plus one
    if a producer is between push and post, and the jobs pushed are the jobs
    popped followed by the jobs queued. -/
theorem pool_exact (s : State ω π J) (hr : (system ω π J).Reachable s) :
    (∀ w, s.worker w = .locked → s.queue ≠ []) ∧
    s.queue.length = s.sem + countAt WorkerPc.isOwed s.worker
      + (if ∃ p, s.producer p = .pushed then 1 else 0) ∧
    s.pushed = s.popped.map Prod.snd ++ s.queue := by
  have hpaid := (reachable_paid hr).2
  refine ⟨fun w hw hempty => ?_, hpaid, reachable_inOrder hr⟩
  -- The worker itself is one of the payments, so the queue has a job.
  have hpos := countAt_pos WorkerPc.isOwed s.worker w (hw ▸ rfl)
  rw [Paid, hempty, List.length_nil] at hpaid
  omega

/-- One producer adds a job and one of two workers takes it. -/
def takeSchedule : List (Action Bool Unit Nat) :=
  [.addJob () 7, .lockQueue (), .push (), .post (), .semWait true, .unlockQueue (), .lock true]

theorem pool_exact_schedule :
    ∃ s : State Bool Unit Nat, (system Bool Unit Nat).Reachable s ∧
      s.worker true = .locked ∧ s.queue ≠ [] := by
  have hstart : (system Bool Unit Nat).Reachable State.fresh :=
    System.Reachable.init _ rfl
  rcases hrun : (system Bool Unit Nat).run State.fresh takeSchedule with _ | s
  · exact absurd hrun (by decide)
  · have hr := System.reachable_of_run _ _ hstart hrun
    have hend : s.worker true = .locked := by
      have hsome := congrArg (Option.map (fun s => s.worker true)) hrun
      rw [show Option.map (fun s => s.worker true)
        ((system Bool Unit Nat).run State.fresh takeSchedule)
        = some .locked by decide, Option.map_some, Option.some.injEq] at hsome
      exact hsome.symm
    exact ⟨s, hr, hend, (pool_exact s hr).1 true hend⟩

end TPool

end HttpFileSharing
