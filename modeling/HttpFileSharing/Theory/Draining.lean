import HttpFileSharing.Theory.Connections
import HttpFileSharing.Theory.PoolProgress

/-!
# Every Connection is Closed

What becomes of the connections when no more of them come. The threads have so
many steps left, the loop up to the end of its turn, a worker up to the end of
its job, the turns of its loops aside, and every unit of the semaphore and every
job in the queue stands for the steps of the worker that will take it. Each step
but those turns is one of them, so in whatever order the threads go they come to
an end, if the loops of the handlers do.

There is nobody in the middle of anything then. A worker with a connection has a
next step wherever it is, a thread that holds the mutex has one, and with the
mutex free so has every other one that is past its wait. So the workers wait,
nothing is queued, and no variable holds a connection: every connection ever
accepted was closed.

## Main definitions

* `Connections.HandlerPc.rank`, `Connections.workerRank`, `Connections.producerRank`,
  `Connections.loopRank`: The steps before a thread.
* `Connections.rank`: The steps before all of them.
* `Connections.Quiet`: No other step is enabled.
* `Connections.Still`: None but those of handlers.
* `Connections.Drained`: Every connection made was closed.

## Theorems

* `Connections.step_turn`: A turn leads nowhere.
* `Connections.rank_lowers`: Every other step lowers the rank.
* `Connections.rank_le`: A bound on it.
* `Connections.drained_of_quiet`: A quiet server has closed every connection.
* `Connections.drains`: The server comes to be quiet, in so many steps.
-/

namespace HttpFileSharing

namespace Connections

/-- The steps a handler has before it to the end of its job. -/
def HandlerPc.rank : HandlerPc → Nat
  | .entering => 9
  | .handling => 8
  | .receiving => 7
  | .received => 6
  | .processing => 5
  | .sending => 4
  | .sent => 3
  | .handled => 2
  | .returned => 1

/-- The steps a worker has before it, without those for a job it has not taken. -/
def workerRank (pc : HandlerPc) : TPool.WorkerPc Nat → Nat
  | .waiting => 0
  | .passed => 2
  | .locked => 1
  | .popped _ => 10
  | .running _ => pc.rank

/-- The steps the producer has before it, and those a worker will have for the job
    it is adding. -/
def producerRank : TPool.ProducerPc Nat → Nat
  | .idle => 0
  | .entered _ => 17
  | .locked _ => 16
  | .pushed => 5
  | .posted => 1

/-- The steps the loop has before it to the end of its turn. -/
def loopRank : LoopPc → Nat
  | .accepting => 0
  | .accepted _ => 21
  | .adding _ left => left + 1

/-- The steps before all threads. A unit of the semaphore stands for the three
    up to the job, and a job for the ten up to its end. -/
def rank {ω : Type*} [Fintype ω] (s : State ω) : Nat :=
  loopRank s.loop + producerRank (s.pool.producer ()) + 3 * s.pool.sem
    + 10 * s.pool.queue.length
    + total (fun w => workerRank (s.handler w) (s.pool.worker w))

theorem rank_of_calls (pc pc' : HandlerPc) (h : pc.calls pc' = true) : pc'.rank < pc.rank := by
  revert h
  cases pc <;> cases pc' <;> decide

theorem rank_of_returns (pc pc' : HandlerPc) (h : pc.returns pc' = true) :
    pc'.rank < pc.rank := by
  revert h
  cases pc <;> cases pc' <;> decide

/-- Out of a loop there is a return. -/
theorem returns_of_loops (pc : HandlerPc) (h : pc.loops = true) :
    ∃ pc', pc.returns pc' = true := by
  cases pc with
  | receiving => exact ⟨.received, rfl⟩
  | sending => exact ⟨.sent, rfl⟩
  | _ => exact absurd h (by simp only [HandlerPc.loops, Bool.false_eq_true, not_false_eq_true])

theorem handlerRank_le (pc : HandlerPc) : pc.rank ≤ 9 := by
  cases pc <;> decide

variable {ω : Type*} [Fintype ω] [DecidableEq ω]

/-- A step of worker `w` lowers the rank if what it does to its own steps, the
    semaphore and the queue does. -/
theorem rank_worker (s s' : State ω) (w : ω) (hloop : s'.loop = s.loop)
    (hp : s'.pool.producer = s.pool.producer)
    (hw : ∀ v, v ≠ w → s'.pool.worker v = s.pool.worker v)
    (hh : ∀ v, v ≠ w → s'.handler v = s.handler v)
    (hlow : workerRank (s'.handler w) (s'.pool.worker w) + 3 * s'.pool.sem
        + 10 * s'.pool.queue.length
      < workerRank (s.handler w) (s.pool.worker w) + 3 * s.pool.sem
        + 10 * s.pool.queue.length) : rank s' < rank s := by
  have hchange := total_change (fun v => workerRank (s.handler v) (s.pool.worker v))
    (fun v => workerRank (s'.handler v) (s'.pool.worker v)) w
    (fun v hv => by rw [hw v hv, hh v hv])
  unfold rank
  rw [hloop, hp]
  omega

omit [DecidableEq ω] in
/-- A step of the loop or the producer lowers the rank if what it does to its own
    steps, the semaphore and the queue does. -/
theorem rank_loop (s s' : State ω) (hw : s'.pool.worker = s.pool.worker)
    (hh : s'.handler = s.handler)
    (hlow : loopRank s'.loop + producerRank (s'.pool.producer ()) + 3 * s'.pool.sem
        + 10 * s'.pool.queue.length
      < loopRank s.loop + producerRank (s.pool.producer ()) + 3 * s.pool.sem
        + 10 * s.pool.queue.length) : rank s' < rank s := by
  unfold rank
  rw [hw, hh]
  omega

omit [Fintype ω] in
/-- A turn leads nowhere. -/
theorem step_turn (s : State ω) (a : Action ω) (ha : isTurn a = true) (s' : State ω)
    (hstep : step s a = some s') : s' = s := by
  have hfires := fires_of_step s a s' hstep
  rw [ha] at hfires
  generalize isAccept a = b at hfires
  cases hfires
  rfl

/-- Every step but an accept and a turn lowers the rank. -/
theorem rank_lowers :
    (system ω).Lowers (fun a => isAccept a = false ∧ (!isTurn a) = true) rank := by
  intro s a s' hr ha hstep
  have hentering := (reachable_kept hr).entering
  have hfires := fires_of_step s a s' hstep
  rw [ha.1, Bool.not_eq_eq_eq_not.mp ha.2, Bool.not_true] at hfires
  cases hfires with
  | drop c hloop =>
      refine rank_loop s _ rfl rfl ?_
      simp only [hloop, loopRank]
      omega
  | addJob c hloop hp =>
      refine rank_loop s _ rfl rfl ?_
      simp only [TPool.State.setProducer, Function.update_self, hloop, hp, loopRank, producerRank]
      omega
  | lockQueue c hp hfree =>
      refine rank_loop s _ rfl rfl ?_
      simp only [TPool.State.setProducer, Function.update_self, hp, producerRank]
      omega
  | push c hp =>
      refine rank_loop s _ rfl rfl ?_
      simp only [TPool.State.setProducer, Function.update_self, hp, producerRank,
        List.length_append, List.length_singleton]
      omega
  | post hp =>
      refine rank_loop s _ rfl rfl ?_
      simp only [TPool.State.setProducer, Function.update_self, hp, producerRank]
      omega
  | unlockQueue hp =>
      refine rank_loop s _ rfl rfl ?_
      simp only [TPool.State.setProducer, Function.update_self, hp, producerRank]
      omega
  | destroy c left hloop hp =>
      refine rank_loop s _ rfl rfl ?_
      simp only [hloop, loopRank]
      omega
  | endTurn c hloop =>
      refine rank_loop s _ rfl rfl ?_
      simp only [hloop, loopRank]
      omega
  | semWait w n hw hsem =>
      refine rank_worker s _ w rfl rfl (fun v hv => Function.update_of_ne hv _ _)
        (fun _ _ => rfl) ?_
      simp only [TPool.State.setWorker, Function.update_self, hw, hsem, workerRank]
      omega
  | lock w hw hfree =>
      refine rank_worker s _ w rfl rfl (fun v hv => Function.update_of_ne hv _ _)
        (fun _ _ => rfl) ?_
      simp only [TPool.State.setWorker, Function.update_self, hw, workerRank]
      omega
  | pop w c rest hw hqueue =>
      refine rank_worker s _ w rfl rfl (fun v hv => Function.update_of_ne hv _ _)
        (fun _ _ => rfl) ?_
      simp only [TPool.State.setWorker, Function.update_self, hw, hqueue, workerRank,
        List.length_cons]
      omega
  | unlock w c hw =>
      -- Its handler is at the start.
      have hfirst := hentering w (by simp only [hw, ne_eq, reduceCtorEq, not_false_eq_true,
        implies_true])
      refine rank_worker s _ w rfl rfl (fun v hv => Function.update_of_ne hv _ _)
        (fun _ _ => rfl) ?_
      simp only [TPool.State.setWorker, Function.update_self, hw, hfirst, workerRank,
        HandlerPc.rank]
      omega
  | call w c pc hw hpc =>
      refine rank_worker s _ w rfl rfl (fun _ _ => rfl)
        (fun v hv => Function.update_of_ne hv _ _) ?_
      have hlow := rank_of_calls _ _ hpc
      simp only [State.atPoint, Function.update_self, hw, workerRank]
      omega
  | leave w c pc hw hpc =>
      refine rank_worker s _ w rfl rfl (fun _ _ => rfl)
        (fun v hv => Function.update_of_ne hv _ _) ?_
      have hlow := rank_of_returns _ _ hpc
      simp only [State.atPoint, Function.update_self, hw, workerRank]
      omega
  | finish w c hw hpc =>
      refine rank_worker s _ w rfl rfl (fun v hv => Function.update_of_ne hv _ _)
        (fun v hv => Function.update_of_ne hv _ _) ?_
      simp only [TPool.State.setWorker, Function.update_self, hw, hpc, workerRank,
        HandlerPc.rank]
      omega

/-- No step but an accept is enabled, and so no loop of a handler still runs. -/
def Quiet (s : State ω) : Prop := (system ω).Resting (fun a => isAccept a = false) s

/-- Nobody holds a connection, every connection made was closed, once, and no
    descriptor has an owner. -/
structure Drained (s : State ω) : Prop where
  loop : s.loop = .accepting
  queue : s.pool.queue = []
  worker : ∀ w, s.pool.worker w = .waiting
  closed : ∀ c < s.conns.next, s.conns.destroyed.count c = 1
  owner : ∀ fd, s.conns.owner fd = none

omit [Fintype ω] in
/-- A worker that runs a job has a next step wherever it is, and only in `recv_req` and
    in `send_http_rsp` does it take the client to bring it about. -/
theorem loops_of_stuck (s : State ω) (w : ω) (c : Nat) (hw : s.pool.worker w = .running c)
    (hcalls : ∀ pc, step s (.call w pc) = none)
    (hleaves : (s.handler w).loops = false → ∀ pc, step s (.leave w pc) = none)
    (hfinish : step s (.finish w) = none) : (s.handler w).loops = true := by
  have hcall : ∀ pc, (s.handler w).calls pc = false := by
    intro pc
    rw [Bool.eq_false_iff]
    intro hpc
    have hnone := hcalls pc
    simp only [step, hw, hpc, if_true, reduceCtorEq] at hnone
  by_contra hloops
  have hleave : ∀ pc, (s.handler w).returns pc = false := by
    intro pc
    rw [Bool.eq_false_iff]
    intro hpc
    have hnone := hleaves (Bool.eq_false_of_not_eq_true hloops) pc
    simp only [step, hw, hpc, if_true, reduceCtorEq] at hnone
  cases hpc : s.handler w with
  | entering => exact absurd (hpc ▸ hcall .handling) (by decide)
  | handling => exact absurd (hpc ▸ hcall .receiving) (by decide)
  | receiving => exact absurd (hpc ▸ hleave .received) (by decide)
  | received => exact absurd (hpc ▸ hleave .returned) (by decide)
  | processing => exact absurd (hpc ▸ hleave .handled) (by decide)
  | sending => exact absurd (hpc ▸ hleave .sent) (by decide)
  | sent => exact absurd (hpc ▸ hleave .handled) (by decide)
  | handled => exact absurd (hpc ▸ hleave .returned) (by decide)
  | returned => simp only [step, hw, hpc, TPool.step, Option.map_some, reduceCtorEq] at hfinish

/-- The steps of a handler. -/
def isHandler {ω : Type*} : Action ω → Bool
  | .call _ _ | .leave _ _ | .turn _ | .finish _ => true
  | _ => false

omit [Fintype ω] in
/-- No step but an accept and those of handlers is enabled. -/
def Still (s : State ω) : Prop := ∀ a, isAccept a = false → isHandler a = false → step s a = none

namespace Still

variable (s : State ω)

omit [Fintype ω] in
theorem stuck (h : Still s) (a : Action ω) (ha : isAccept a = false) (hh : isHandler a = false) :
    step s a = none :=
  h a ha hh

omit [Fintype ω] in
/-- No step of the pool alone is enabled. -/
theorem pool_stuck (h : Still s) (a : TPool.Action ω Unit Nat) (ha : isPlain a = true) :
    TPool.step s.pool a = none := by
  have hnone := h.stuck s (.pool a) rfl rfl
  simp only [step, ha, if_true, Option.map_eq_none_iff] at hnone
  exact hnone

omit [Fintype ω] in
/-- The producer has returned or is about to lock. -/
theorem producer (h : Still s) :
    s.pool.producer () = .idle ∨ ∃ c, s.pool.producer () = .entered c ∧ s.pool.mutex ≠ none := by
  cases hp : s.pool.producer () with
  | idle => exact Or.inl rfl
  | entered c =>
      refine Or.inr ⟨c, rfl, fun hfree => ?_⟩
      have hnone := h.pool_stuck s (.lockQueue ()) rfl
      simp only [TPool.step, hp, hfree, reduceCtorEq] at hnone
  | locked c =>
      have hnone := h.stuck s .push rfl rfl
      simp only [step, hp, TPool.step, Option.map_some, reduceCtorEq] at hnone
  | pushed =>
      have hnone := h.pool_stuck s (.post ()) rfl
      simp only [TPool.step, hp, reduceCtorEq] at hnone
  | posted =>
      have hnone := h.pool_stuck s (.unlockQueue ()) rfl
      simp only [TPool.step, hp, reduceCtorEq] at hnone

/-- A worker waits, is about to lock, or has a job. -/
theorem worker (h : Still s) (hpaid : TPool.Paid s.pool) (w : ω) :
    s.pool.worker w = .waiting ∧ s.pool.sem = 0 ∨
      s.pool.worker w = .passed ∧ s.pool.mutex ≠ none ∨ ∃ c, s.pool.worker w = .running c := by
  cases hw : s.pool.worker w with
  | waiting =>
      refine Or.inl ⟨rfl, ?_⟩
      cases hsem : s.pool.sem with
      | zero => rfl
      | succ n =>
          have hnone := h.pool_stuck s (.semWait w) rfl
          simp only [TPool.step, hw, hsem, reduceCtorEq] at hnone
  | passed =>
      refine Or.inr (Or.inl ⟨rfl, fun hfree => ?_⟩)
      have hnone := h.pool_stuck s (.lock w) rfl
      simp only [TPool.step, hw, hfree, reduceCtorEq] at hnone
  | locked =>
      -- A worker at the front of the queue finds a job.
      have hne := TPool.Paid.queue_ne_nil s.pool hpaid w (by rw [hw]; rfl)
      rcases List.exists_cons_of_ne_nil hne with ⟨c, rest, hqueue⟩
      have hnone := h.stuck s (.pop w) rfl rfl
      simp only [step, hqueue, TPool.step, hw, Option.map_some, reduceCtorEq] at hnone
  | popped c =>
      have hnone := h.pool_stuck s (.unlock w) rfl
      simp only [TPool.step, hw, reduceCtorEq] at hnone
  | running c => exact Or.inr (Or.inr ⟨c, rfl⟩)

/-- The queue mutex is free: whoever held it would go on. -/
theorem mutex_free (h : Still s) (hr : (system ω).Reachable s) : s.pool.mutex = none := by
  have hpool := pool_reachable hr
  cases hm : s.pool.mutex with
  | none => rfl
  | some t =>
      exfalso
      have hholds := TPool.reachable_owned hpool t hm
      cases t with
      | inl w =>
          rw [TPool.State.holds] at hholds
          rcases h.worker s (TPool.reachable_paid hpool).2 w with ⟨hw, _⟩ | ⟨hw, _⟩ | ⟨c, hw⟩
          · rw [hw] at hholds
            exact Bool.noConfusion hholds
          · rw [hw] at hholds
            exact Bool.noConfusion hholds
          · rw [hw] at hholds
            exact Bool.noConfusion hholds
      | inr p =>
          rw [TPool.State.holds] at hholds
          rcases h.producer s with hp | ⟨c, hp, _⟩
          · rw [hp] at hholds
            exact Bool.noConfusion hholds
          · rw [hp] at hholds
            exact Bool.noConfusion hholds

omit [Fintype ω] in
/-- With the producer idle the loop is at its accept. -/
theorem loop (h : Still s) (hp : s.pool.producer () = .idle) : s.loop = .accepting := by
  cases hloop : s.loop with
  | accepting => rfl
  | accepted c =>
      have hnone := h.stuck s .drop rfl rfl
      simp only [step, hloop, reduceCtorEq] at hnone
  | adding c left =>
      cases left with
      | zero =>
          have hnone := h.stuck s .endTurn rfl rfl
          simp only [step, hloop, reduceCtorEq] at hnone
      | succ left =>
          have hnone := h.stuck s .destroy rfl rfl
          simp only [step, hloop, hp, reduceCtorEq] at hnone

/-- The producer has returned: there is nobody it could wait for. -/
theorem producer_idle (h : Still s) (hr : (system ω).Reachable s) :
    s.pool.producer () = .idle := by
  rcases h.producer s with hp | ⟨c, _, hlocked⟩
  · exact hp
  · exact absurd (h.mutex_free s hr) hlocked

/-- With the mutex free a worker waits or has a job. -/
theorem worker_free (h : Still s) (hr : (system ω).Reachable s) (w : ω) :
    s.pool.worker w = .waiting ∧ s.pool.sem = 0 ∨ ∃ c, s.pool.worker w = .running c := by
  rcases h.worker s (TPool.reachable_paid (pool_reachable hr)).2 w with hw | ⟨_, hlocked⟩ | hw
  · exact Or.inl hw
  · exact absurd (h.mutex_free s hr) hlocked
  · exact Or.inr hw

/-- There is a unit for each job in the queue. -/
theorem length_queue (h : Still s) (hr : (system ω).Reachable s) :
    s.pool.queue.length = s.pool.sem := by
  have hpaid := (TPool.reachable_paid (pool_reachable hr)).2
  have howed : countAt TPool.WorkerPc.isOwed s.pool.worker = 0 := by
    refine (countAt_eq_zero _ _).mpr (fun w => ?_)
    rcases h.worker_free s hr w with ⟨hw, _⟩ | ⟨c, hw⟩
    · rw [hw]
      rfl
    · rw [hw]
      rfl
  have hposting : ¬ TPool.Posting s.pool := by
    rintro ⟨p, hp⟩
    rw [h.producer_idle s hr] at hp
    exact absurd hp (by simp only [reduceCtorEq, not_false_eq_true])
  rw [TPool.Paid, howed, if_neg hposting] at hpaid
  exact hpaid

end Still

namespace Quiet

variable (s : State ω)

omit [Fintype ω] in
theorem stuck (h : Quiet s) (a : Action ω) (ha : isAccept a = false) : step s a = none :=
  h a ha

omit [Fintype ω] in
theorem still (h : Quiet s) : Still s := fun a ha _ => h a ha

omit [Fintype ω] in
/-- A worker that runs a job has a next step wherever it is. -/
theorem not_running (h : Quiet s) (w : ω) (c : Nat) : s.pool.worker w ≠ .running c := by
  intro hw
  have hloops := loops_of_stuck s w c hw (fun pc => h.stuck s (.call w pc) rfl)
    (fun _ pc => h.stuck s (.leave w pc) rfl) (h.stuck s (.finish w) rfl)
  have hnone := h.stuck s (.turn w) rfl
  simp only [step, hw, hloops, if_true, reduceCtorEq] at hnone

end Quiet

/-- A quiet server has closed every connection. -/
theorem drained_of_quiet [Nonempty ω] (s : State ω) (hr : (system ω).Reachable s)
    (h : Quiet s) : Drained s := by
  have hstill := h.still
  have hwaiting : ∀ w, s.pool.worker w = .waiting ∧ s.pool.sem = 0 := by
    intro w
    rcases hstill.worker_free s hr w with hw | ⟨c, hw⟩
    · exact hw
    · exact absurd hw (h.not_running s w c)
  have hloop := hstill.loop s (hstill.producer_idle s hr)
  -- Nobody pays for a job in the queue.
  have hqueue : s.pool.queue = [] := by
    have hlength := hstill.length_queue s hr
    rw [(hwaiting (Classical.arbitrary ω)).2] at hlength
    exact List.eq_nil_of_length_eq_zero hlength
  have hheld : ∀ c, held s c = 0 := by
    intro c
    have hzero : total (fun w => workerHolds c (s.pool.worker w) (s.handler w)) = 0 :=
      Finset.sum_eq_zero (fun w _ => by rw [(hwaiting w).1]; rfl)
    unfold held
    rw [hloop, hqueue, hzero]
    rfl
  have hacc := (reachable_kept hr).accounted
  refine ⟨hloop, hqueue, fun w => (hwaiting w).1, fun c hc => ?_, fun fd => ?_⟩
  · rw [hacc.count_destroyed c hc, if_pos (hheld c)]
  · cases hfd : s.conns.owner fd with
    | none => rfl
    | some c => exact absurd (hheld c) ((hacc.owner_iff fd c).mp hfd).1

omit [Fintype ω] in
/-- The loop has no more than the two variables of `add_job` left to destroy. -/
theorem left_le (s : State ω) (hr : (system ω).Reachable s) (c left : Nat)
    (hloop : s.loop = .adding c left) : left ≤ 2 := by
  revert c left
  refine System.Reachable.invariant (fun s => ∀ c left, s.loop = .adding c left → left ≤ 2)
    (fun s hinit c left hloop => ?_) (fun s a s' hs hstep c left hloop => ?_) hr
  · rw [show s = State.fresh from hinit] at hloop
    exact absurd hloop (by simp only [State.fresh, reduceCtorEq, not_false_eq_true])
  · have hfires := fires_of_step s a s' hstep
    generalize isAccept a = b, isTurn a = b' at hfires
    cases hfires with
    | accept | drop | endTurn =>
        exact absurd hloop (by simp only [reduceCtorEq, not_false_eq_true])
    | addJob d _ _ =>
        rw [LoopPc.adding.injEq] at hloop
        omega
    | destroy d n hd _ =>
        rw [LoopPc.adding.injEq] at hloop
        have hle := hs d (n + 1) hd
        omega
    | lockQueue | push | post | unlockQueue | semWait | lock | pop | unlock | call | leave
    | turn | finish => exact hs c left hloop

omit [Fintype ω] in
theorem loopRank_le (s : State ω) (hr : (system ω).Reachable s) : loopRank s.loop ≤ 21 := by
  cases hloop : s.loop with
  | accepting => exact Nat.zero_le _
  | accepted c => exact Nat.le_refl _
  | adding c left =>
      have hle := left_le s hr c left hloop
      simp only [loopRank]
      omega

theorem producerRank_le (pc : TPool.ProducerPc Nat) : producerRank pc ≤ 17 := by
  cases pc <;> simp only [producerRank] <;> omega

theorem workerRank_le (pc : HandlerPc) (worker : TPool.WorkerPc Nat) :
    workerRank pc worker ≤ 10 := by
  cases worker with
  | running c =>
      have hle := handlerRank_le pc
      simp only [workerRank]
      omega
  | waiting | passed | locked | popped _ => simp only [workerRank]; omega

/-- A bound on the rank: no more units than jobs are there to be taken. -/
theorem rank_le (s : State ω) (hr : (system ω).Reachable s) :
    rank s ≤ 38 + 13 * s.pool.queue.length + Fintype.card ω * 10 := by
  have hpaid := (TPool.reachable_paid (pool_reachable hr)).2
  have hloop := loopRank_le s hr
  have hproducer := producerRank_le (s.pool.producer ())
  have hworkers := total_le (fun w => workerRank (s.handler w) (s.pool.worker w)) 10
    (fun w => workerRank_le _ _)
  unfold TPool.Paid at hpaid
  unfold rank
  omega

omit [Fintype ω] in
/-- Where a worker could take one more turn it could also return. -/
theorem quiet_of_resting (s : State ω)
    (h : (system ω).Resting (fun a => isAccept a = false ∧ (!isTurn a) = true) s) :
    Quiet s := by
  intro a ha
  cases hturn : isTurn a with
  | false => exact h a ⟨ha, by rw [hturn]; rfl⟩
  | true =>
      cases a with
      | turn w =>
          simp only [system, step]
          cases hw : s.pool.worker w with
          | running c =>
              simp only [ite_eq_right_iff, reduceCtorEq, imp_false]
              intro hloops
              rcases returns_of_loops _ hloops with ⟨pc, hpc⟩
              have hnone := h (.leave w pc) ⟨rfl, rfl⟩
              simp only [system, step, hw, hpc, if_true, reduceCtorEq] at hnone
          | _ => rfl
      | _ => exact absurd hturn (by simp only [isTurn, Bool.false_eq_true, not_false_eq_true])

/-- **Every connection is closed**: when no more connections come, the loop and the
    workers take no more than so many steps besides the turns of `recv_req` and
    `send_http_rsp`, in whatever order, and whenever they have none left, which they come
    to from any reachable state where these two return, every connection ever accepted
    was closed, once, and no descriptor is left open. -/
theorem drains [Nonempty ω] (s : State ω) (hr : (system ω).Reachable s) :
    (∀ as t, (∀ a ∈ as, isAccept a = false) → (system ω).run s as = some t →
      as.countP (fun a => !isTurn a) ≤ 38 + 13 * s.pool.queue.length + Fintype.card ω * 10 ∧
      (Quiet t → Drained t)) ∧
    (∃ as t, (∀ a ∈ as, isAccept a = false) ∧ (system ω).run s as = some t ∧ Quiet t) := by
  refine ⟨fun as t has hrun => ⟨?_, fun hquiet => ?_⟩, ?_⟩
  · have hlength := rank_lowers.countP_le (fun s a s' _ _ hturn hstep =>
      Nat.le_of_eq (congrArg rank (step_turn s a (by rwa [Bool.not_eq_false'] at hturn) s' hstep)))
      as has hr hrun
    have hbound := rank_le s hr
    omega
  · exact drained_of_quiet t (System.reachable_of_run _ as hr hrun) hquiet
  · rcases rank_lowers.exists_resting hr with ⟨as, t, has, hrun, hrest⟩
    exact ⟨as, t, fun a ha => (has a ha).1, hrun, quiet_of_resting t hrest⟩

/-- The server with one worker and a connection just accepted. -/
def accepted : State Unit := { State.fresh with
  loop := .accepted 0, conns := Shared.empty.make 5 }

theorem drains_accepted :
    (system Unit).Reachable accepted ∧
      ∃ as t, (∀ a ∈ as, isAccept a = false) ∧ as.countP (fun a => !isTurn a) ≤ 48 ∧
        (system Unit).run accepted as = some t ∧ Drained t := by
  have hr : (system Unit).Reachable accepted :=
    System.Reachable.step State.fresh (.accept 5) accepted (System.Reachable.init _ rfl) rfl
  rcases drains accepted hr with ⟨hbound, as, t, has, hrun, hquiet⟩
  exact ⟨hr, as, t, has, (hbound as t has hrun).1, hrun, (hbound as t has hrun).2 hquiet⟩

end Connections

end HttpFileSharing
