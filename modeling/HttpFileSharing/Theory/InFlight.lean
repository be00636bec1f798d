import HttpFileSharing.Theory.ServerRun

/-!
# Connections in Flight

How a step changes the number of connections of an address that were let
through and are not finished, or the part of them whose handlers have not come
past a given stage. A connection goes from the loop through the producer and
the queue to a worker, and on the way it is counted in one place at a time. So
a step adds to the count only where the loop lets a connection through, and the
map write of a handler takes its connection out of those still to be scored.

## Main definitions

* `ServerLoop.Unscored`: The stages before the map write.
* `ServerLoop.Ebbs`: A test of stages that holds of the earlier ones.
* `ServerLoop.pooled`: The part of a count that the pool has.

## Theorems

* `ServerLoop.carried_le`: A count by its parts.
* `ServerLoop.queueing_le`: Inside the pool nothing is added.
* `ServerLoop.carried_goes`: A step adds a connection only by letting it
  through.
* `ServerLoop.carried_pos`, `ServerLoop.inFlight_pos`: A worker has its
  connection in flight.
* `ServerLoop.carried_storeMap`: The map write takes one away.
-/

namespace HttpFileSharing

namespace ServerLoop

/-- The stages before the map write. -/
def Unscored : Stage → Bool
  | .fresh | .called => true
  | .stored | .returned => false

/-- A test of stages that holds of every stage before one it holds of. -/
structure Ebbs (test : Stage → Bool) : Prop where
  fresh : test .called = true → test .fresh = true
  called : test .stored = true → test .called = true
  stored : test .returned = true → test .stored = true

theorem ebbs_unscored : Ebbs Unscored :=
  ⟨fun _ => rfl, fun _ => rfl, fun h => h⟩

theorem ebbs_all : Ebbs (fun _ => true) :=
  ⟨fun _ => rfl, fun _ => rfl, fun _ => rfl⟩

variable {ω : Type*} [Fintype ω]

/-- Nothing is counted in a process that has just come up. -/
theorem carried_fresh (ip : IpAddr) (counted : ω → Bool) (l : Blacklist.Ledger (Option ω)) :
    carried ip counted (State.fresh l) = 0 := by
  have hcount : countAt id (fun w => workerCarries (Conn.isFrom ip)
      ((State.fresh l : State ω).pool.worker w) && counted w) = 0 :=
    (countAt_eq_zero _ _).mpr (fun _ => rfl)
  unfold carried
  rw [hcount]
  rfl

/-- A count does not grow if none of its parts does. -/
theorem carried_le (ip : IpAddr) (counted counted' : ω → Bool) (s s' : State ω)
    (hloop : s'.loop.carries ip = true → s.loop.carries ip = true)
    (hproducer : s'.pool.producer = s.pool.producer) (hqueue : s'.pool.queue = s.pool.queue)
    (hwork : ∀ w, (workerCarries (Conn.isFrom ip) (s'.pool.worker w) && counted' w) = true →
      (workerCarries (Conn.isFrom ip) (s.pool.worker w) && counted w) = true) :
    carried ip counted' s' ≤ carried ip counted s := by
  unfold carried
  rw [hproducer, hqueue]
  have hl : (if s'.loop.carries ip = true then 1 else 0)
      ≤ (if s.loop.carries ip = true then 1 else 0) := by
    by_cases h : s'.loop.carries ip = true
    · rw [if_pos h, if_pos (hloop h)]
    · rw [if_neg h]
      exact Nat.zero_le _
  have hw : countAt id (fun w => workerCarries (Conn.isFrom ip) (s'.pool.worker w) && counted' w)
      ≤ countAt id (fun w => workerCarries (Conn.isFrom ip) (s.pool.worker w) && counted w) :=
    Finset.card_le_card (Finset.monotone_filter_right _ (fun w _ h => hwork w h))
  omega

/-- The part of a count whose handlers pass a test is no more than the
    whole. -/
theorem carried_le_inFlight (ip : IpAddr) (counted : ω → Bool) (s : State ω) :
    carried ip counted s ≤ inFlight ip s :=
  carried_le ip _ counted s s (fun h => h) rfl rfl (fun w h => by
    rw [Bool.and_eq_true] at h
    rw [h.1, Bool.and_true])

variable [DecidableEq ω]

@[simp] theorem workerCarries_popped (test : Conn → Bool) (job : Conn) :
    workerCarries test (.popped job) = test job := rfl

@[simp] theorem workerCarries_running (test : Conn → Bool) (job : Conn) :
    workerCarries test (.running job) = test job := rfl

/-- What moving one worker does to the count of the workers' jobs. -/
theorem workers_update (test : Conn → Bool) (counted : ω → Bool)
    (f : ω → TPool.WorkerPc Conn) (v : ω) (x : TPool.WorkerPc Conn) :
    countAt id (fun w => workerCarries test (Function.update f v x w) && counted w)
        + (if (workerCarries test (f v) && counted v) = true then 1 else 0)
      ≤ countAt id (fun w => workerCarries test (f w) && counted w)
        + (if (workerCarries test x && counted v) = true then 1 else 0) := by
  have hle := countAt_le_update id (fun w => workerCarries test (f w) && counted w)
    (fun w => workerCarries test (Function.update f v x w) && counted w) v
    (fun w hw hcount => by rwa [Function.update_of_ne hw] at hcount)
  rw [Function.update_self] at hle
  exact hle

/-- The jobs in the hands of the producer, in the queue and with the workers
    in `counted`. -/
def pooled (test : Conn → Bool) (counted : ω → Bool) (q : TPool.State ω Unit Conn) : Nat :=
  (if producerCarries test (q.producer ()) = true then 1 else 0) + q.queue.countP test
    + countAt id (fun w => workerCarries test (q.worker w) && counted w)

omit [DecidableEq ω] in
/-- A step of the producer from point `y` to point `x`, by what it does to its
    hand and the queue. -/
theorem pooled_producer (test : Conn → Bool) (counted : ω → Bool)
    (q q' : TPool.State ω Unit Conn) (y x : TPool.ProducerPc Conn) (hpc : q.producer () = y)
    (hworker : q'.worker = q.worker) (hproducer : q'.producer = Function.update q.producer () x)
    (h : (if producerCarries test x = true then 1 else 0) + q'.queue.countP test
      ≤ (if producerCarries test y = true then 1 else 0) + q.queue.countP test) :
    pooled test counted q' ≤ pooled test counted q := by
  unfold pooled
  rw [hworker, hproducer, Function.update_self, hpc]
  exact Nat.add_le_add_right h _

/-- A step of worker `v` from point `y` to point `x`, by what it does to its
    hand and the queue. -/
theorem pooled_worker (test : Conn → Bool) (counted : ω → Bool)
    (q q' : TPool.State ω Unit Conn) (v : ω) (y x : TPool.WorkerPc Conn) (hpc : q.worker v = y)
    (hproducer : q'.producer = q.producer) (hworker : q'.worker = Function.update q.worker v x)
    (h : q'.queue.countP test + (if (workerCarries test x && counted v) = true then 1 else 0)
      ≤ q.queue.countP test + (if (workerCarries test y && counted v) = true then 1 else 0)) :
    pooled test counted q' ≤ pooled test counted q := by
  unfold pooled
  rw [hproducer, hworker]
  have hle := workers_update test counted q.worker v x
  rw [hpc] at hle
  omega

/-- A job inside the pool moves on, and is in one place at a time. -/
theorem queueing_le (test : Conn → Bool) (counted : ω → Bool) (q : TPool.State ω Unit Conn)
    (a : TPool.Action ω Unit Conn) (q' : TPool.State ω Unit Conn) (ha : isQueueing a = true)
    (h : TPool.step q a = some q') : pooled test counted q' ≤ pooled test counted q := by
  cases a with
  | lockQueue u =>
      simp only [TPool.step] at h
      split at h
      · rename_i job hpc _
        rw [← Option.some.inj h]
        exact pooled_producer test counted q _ _ _ hpc rfl rfl (Nat.le_refl _)
      · exact absurd h (by simp only [reduceCtorEq, not_false_eq_true])
  | push u =>
      simp only [TPool.step] at h
      split at h
      · rename_i job hpc
        rw [← Option.some.inj h]
        refine pooled_producer test counted q _ _ _ hpc rfl rfl ?_
        change 0 + (q.queue ++ [job]).countP test
          ≤ (if test job = true then 1 else 0) + q.queue.countP test
        rw [List.countP_append, List.countP_singleton]
        omega
      · exact absurd h (by simp only [reduceCtorEq, not_false_eq_true])
  | post u | unlockQueue u =>
      simp only [TPool.step] at h
      split at h
      · rename_i hpc
        rw [← Option.some.inj h]
        exact pooled_producer test counted q _ _ _ hpc rfl rfl (Nat.le_refl _)
      · exact absurd h (by simp only [reduceCtorEq, not_false_eq_true])
  | semWait v | lock v =>
      simp only [TPool.step] at h
      split at h
      · rename_i hpc _
        rw [← Option.some.inj h]
        exact pooled_worker test counted q _ v _ _ hpc rfl rfl (Nat.le_refl _)
      · exact absurd h (by simp only [reduceCtorEq, not_false_eq_true])
  | pop v =>
      simp only [TPool.step] at h
      split at h
      · rename_i job rest hpc hqueue
        rw [← Option.some.inj h]
        refine pooled_worker test counted q _ v _ _ hpc rfl rfl ?_
        -- The job leaves the queue, and counts with the worker at most.
        have hone : (if (test job && counted v) = true then 1 else 0)
            ≤ (if test job = true then 1 else 0) := by
          cases test job <;> cases counted v <;> decide
        rw [hqueue, List.countP_cons, workerCarries_popped]
        exact (Nat.add_le_add_left hone _).trans (Nat.le_add_right _ _)
      · exact absurd h (by simp only [reduceCtorEq, not_false_eq_true])
  | unlock v =>
      simp only [TPool.step] at h
      split at h
      · rename_i job hpc
        rw [← Option.some.inj h]
        exact pooled_worker test counted q _ v _ _ hpc rfl rfl (Nat.le_refl _)
      · exact absurd h (by simp only [reduceCtorEq, not_false_eq_true])
  | addJob | finish =>
      exact absurd ha (by simp only [isQueueing, Bool.false_eq_true, not_false_eq_true])

omit [DecidableEq ω] in
theorem carried_eq_pooled (ip : IpAddr) (counted : ω → Bool) (s : State ω) :
    carried ip counted s
      = (if s.loop.carries ip = true then 1 else 0) + pooled (Conn.isFrom ip) counted s.pool := by
  unfold carried pooled
  omega

/-- The loop hands its connection to the producer. -/
theorem carried_addJob (ip : IpAddr) (counted : ω → Bool) (s : State ω) (conn : Conn)
    (q : TPool.State ω Unit Conn) (hloop : s.loop = .passed conn)
    (hq : TPool.step s.pool (.addJob () conn) = some q) :
    carried ip counted { s with pool := q, loop := .accepting } ≤ carried ip counted s := by
  simp only [TPool.step] at hq
  split at hq
  · rename_i hpc
    rw [← Option.some.inj hq]
    unfold carried
    rw [hloop, hpc]
    change 0 + (if conn.isFrom ip = true then 1 else 0) + _ + _
      ≤ (if conn.isFrom ip = true then 1 else 0) + 0 + _ + _
    exact Nat.le_of_eq (by rw [Nat.zero_add, Nat.add_zero]; rfl)
  · exact absurd hq (by simp only [reduceCtorEq, not_false_eq_true])

section Goes

variable (threshold : Int) (start : StatsTable) (s : State ω)
  (p : Blacklist.Process (Option ω)) (ip : IpAddr) (test : Stage → Bool)

/-- A handler that goes on in its update, or is through with it, is counted
    after only if it was before. -/
theorem carried_atStage (w : ω) (stage : Stage)
    (l : Blacklist.Ledger (Option ω)) (h : test stage = true → test (s.stage w) = true) :
    carried ip (fun v => test ((s.atStage w stage).stage v)) { s.atStage w stage with ledger := l }
      ≤ carried ip (fun v => test (s.stage v)) s := by
  refine carried_le ip _ _ s _ (fun h => h) rfl rfl (fun v hv => ?_)
  simp only [State.atStage, Bool.and_eq_true] at hv ⊢
  refine ⟨hv.1, ?_⟩
  by_cases hvw : v = w
  · rw [hvw] at hv ⊢
    rw [Function.update_self] at hv
    exact h hv.2
  · rw [Function.update_of_ne hvw] at hv
    exact hv.2

/-- A step adds a connection to those counted only by letting it through. -/
theorem carried_goes (htest : Ebbs test) (s' : State ω) (h : Goes threshold s p s') :
    carried ip (fun w => test (s'.stage w)) s' ≤ carried ip (fun w => test (s.stage w)) s ∨
      isIpaddrBlacklisted threshold p.statsList ip = false := by
  cases h with
  | accept conn l hloop _ =>
      refine Or.inl (carried_le ip _ _ s _ (fun h => ?_) rfl rfl (fun _ h => h))
      exact absurd h (by simp only [LoopPc.carries, Bool.false_eq_true, not_false_eq_true])
  | check conn l hloop hstep =>
      -- Only here the loop may come to carry a connection.
      by_cases hthrough : (LoopPc.checked conn
          (isIpaddrBlacklisted threshold p.statsList conn.src)).carries ip = true
      · refine Or.inr ?_
        cases hverdict : isIpaddrBlacklisted threshold p.statsList conn.src with
        | true =>
            rw [hverdict] at hthrough
            exact absurd hthrough (by simp only [LoopPc.carries, Bool.false_eq_true,
              not_false_eq_true])
        | false =>
            rw [hverdict] at hthrough
            rw [← show conn.src = ip from of_decide_eq_true hthrough]
            exact hverdict
      · exact Or.inl (carried_le ip _ _ s _ (fun h => absurd h hthrough) rfl rfl (fun _ h => h))
  | verdict conn blacklisted l hloop _ =>
      refine Or.inl (carried_le ip _ _ s _ (fun h => ?_) rfl rfl (fun _ h => h))
      rw [hloop]
      cases blacklisted with
      | true => exact absurd h (by simp only [LoopPc.carries, if_true, Bool.false_eq_true,
          not_false_eq_true])
      | false => exact h
  | addJob conn q hloop hq => exact Or.inl (carried_addJob ip _ s conn q hloop hq)
  | pool a q ha hq =>
      refine Or.inl ?_
      rw [carried_eq_pooled, carried_eq_pooled]
      exact Nat.add_le_add_left (queueing_le _ _ s.pool a q ha hq) _
  | lookUp w conn l _ => exact Or.inl (Nat.le_refl _)
  | update w good conn l _ hstage _ =>
      exact Or.inl (carried_atStage s ip test w .called l (by rw [hstage]; exact htest.fresh))
  | storeMap w l hstage _ =>
      exact Or.inl (carried_atStage s ip test w .stored l (by rw [hstage]; exact htest.called))
  | returned w l hstage _ =>
      exact Or.inl (carried_atStage s ip test w .returned l
        (by rw [hstage]; exact htest.stored))
  | finish w q _ hq =>
      rw [step_finish s.pool w q hq]
      refine Or.inl (carried_le ip _ _ s _ (fun h => h) rfl rfl (fun v hv => ?_))
      simp only [State.atStage, TPool.State.setWorker] at hv
      by_cases hvw : v = w
      · rw [hvw, Function.update_self] at hv
        exact absurd hv (by simp only [workerCarries, Bool.false_and, Bool.false_eq_true,
          not_false_eq_true])
      · rw [Function.update_of_ne hvw, Function.update_of_ne hvw] at hv
        exact hv
  | stats a l _ _ =>
      cases hup' : l.process with
      | some p' =>
          rw [withLedger_up s l p' hup']
          exact Or.inl (Nat.le_refl _)
      | none =>
          have hfresh : s.withLedger l = State.fresh l := by
            unfold State.withLedger
            rw [hup']
          rw [hfresh, carried_fresh]
          exact Or.inl (Nat.zero_le _)
  | kill l _ =>
      rw [carried_fresh]
      exact Or.inl (Nat.zero_le _)

omit [DecidableEq ω] in
/-- A counted worker that runs a connection has it in flight. -/
theorem carried_pos (counted : ω → Bool) (w : ω) (conn : Conn)
    (hw : s.pool.worker w = .running conn) (hsrc : conn.src = ip) (hcounted : counted w = true) :
    0 < carried ip counted s := by
  have hpos := countAt_pos id
    (fun v => workerCarries (Conn.isFrom ip) (s.pool.worker v) && counted v) w
    (by rw [hw, hcounted, workerCarries_running, id_eq, Bool.and_true]; exact decide_eq_true hsrc)
  exact Nat.lt_of_lt_of_le hpos (Nat.le_add_left _ _)

omit [DecidableEq ω] in
theorem inFlight_pos (w : ω) (conn : Conn) (hw : s.pool.worker w = .running conn)
    (hsrc : conn.src = ip) : 0 < inFlight ip s :=
  carried_pos s ip (fun _ => true) w conn hw hsrc rfl

/-- The map write of a handler takes its connection out of those still to be
    scored. -/
theorem carried_storeMap (s' : State ω) (w : ω) (conn : Conn)
    (hw : s.pool.worker w = .running conn) (hsrc : conn.src = ip)
    (hbefore : test (s.stage w) = true) (hafter : test .stored = false)
    (hpool : s'.pool = s.pool) (hloop : s'.loop = s.loop)
    (hstage : s'.stage = Function.update s.stage w .stored) :
    carried ip (fun v => test (s'.stage v)) s' + 1
      ≤ carried ip (fun v => test (s.stage v)) s := by
  have hle := countAt_le_update id
    (fun v => workerCarries (Conn.isFrom ip) (s.pool.worker v) && test (s.stage v))
    (fun v => workerCarries (Conn.isFrom ip) (s.pool.worker v) && test (s'.stage v)) w
    (fun v hv hcount => by rwa [hstage, Function.update_of_ne hv] at hcount)
  have hin : (workerCarries (Conn.isFrom ip) (s.pool.worker w) && test (s.stage w)) = true := by
    rw [hw, hbefore, workerCarries_running, Bool.and_true]
    exact decide_eq_true hsrc
  have hout :
      ¬ (workerCarries (Conn.isFrom ip) (s.pool.worker w) && test (s'.stage w)) = true := by
    rw [hstage, Function.update_self, hafter, Bool.and_false]
    exact Bool.false_ne_true
  rw [id_eq, id_eq, if_pos hin, if_neg hout] at hle
  unfold carried
  rw [hpool, hloop, Nat.add_assoc]
  exact Nat.add_le_add_left hle _

end Goes

end ServerLoop

end HttpFileSharing
