import HttpFileSharing.Core.Connections
import HttpFileSharing.Theory.Pool

/-!
# Descriptors in Use

A connection is used through its descriptor, and closed by whoever happens to
give up the last pointer to it. Here is why neither goes wrong, in whatever
order the loop and the workers go. The references counted by the pointer are
the variables that hold it, so as long as one is left the descriptor is open
and the connection's own. Nobody can be in `recv` or `send` on a descriptor that
the kernel has given to the next client. And when the last variable goes the
descriptor is closed, once.

The loop pushes a connection once, so the queue hands it to one worker, and two
workers never have one descriptor between them.

## Main definitions

* `Connections.Fires`: What a step can do.
* `Connections.Kept`: The references are the variables, and the loop is in
  `add_job` for as long as the producer is.
* `Connections.Offered`: A connection is pushed once.

## Theorems

* `Connections.fires_of_step`: Every enabled action goes one of those ways.
* `Connections.kept_step`, `Connections.reachable_kept`: The references are the
  variables in every reachable state.
* `Connections.offered_step`, `Connections.reachable_offered`: The loop pushes
  each connection once.
* `Connections.pool_reachable`: The runs of the pool.
* `Connections.descriptor_held`: A worker's descriptor is its connection's, and no
  other worker's.
* `Connections.closed_once`: A connection is closed once, with the last variable
  that holds it.
-/

namespace HttpFileSharing

namespace Connections

variable {ω : Type*} [DecidableEq ω]

/-- What a step can do, one constructor for each way it can go, and whether it
    is the one that brings a connection or one that leads nowhere. -/
inductive Fires (s : State ω) : Bool → Bool → State ω → Prop where
  | accept (fd : Nat) (hloop : s.loop = .accepting) (hfree : s.conns.owner fd = none) :
      Fires s true false { s with loop := .accepted s.conns.next, conns := s.conns.make fd }
  | drop (c : Nat) (hloop : s.loop = .accepted c) :
      Fires s false false { s with loop := .accepting, conns := s.conns.release c }
  | addJob (c : Nat) (hloop : s.loop = .accepted c) (hp : s.pool.producer () = .idle) :
      Fires s false false { s with
        pool := s.pool.setProducer () (.entered c)
        loop := .adding c 2
        conns := (s.conns.copy c).copy c }
  | lockQueue (c : Nat) (hp : s.pool.producer () = .entered c) (hfree : s.pool.mutex = none) :
      Fires s false false { s with pool := { s.pool.setProducer () (.locked c) with
        mutex := some (.inr ()) } }
  | push (c : Nat) (hp : s.pool.producer () = .locked c) :
      Fires s false false { s with
        pool := { s.pool.setProducer () .pushed with
          queue := s.pool.queue ++ [c], pushed := s.pool.pushed ++ [c] }
        conns := s.conns.copy c }
  | post (hp : s.pool.producer () = .pushed) :
      Fires s false false
        { s with pool := { s.pool.setProducer () .posted with sem := s.pool.sem + 1 } }
  | unlockQueue (hp : s.pool.producer () = .posted) :
      Fires s false false { s with pool := { s.pool.setProducer () .idle with mutex := none } }
  | destroy (c left : Nat) (hloop : s.loop = .adding c (left + 1))
      (hp : s.pool.producer () = .idle) :
      Fires s false false { s with loop := .adding c left, conns := s.conns.release c }
  | endTurn (c : Nat) (hloop : s.loop = .adding c 0) :
      Fires s false false { s with loop := .accepting, conns := s.conns.release c }
  | semWait (w : ω) (n : Nat) (hw : s.pool.worker w = .waiting) (hsem : s.pool.sem = n + 1) :
      Fires s false false { s with pool := { s.pool.setWorker w .passed with sem := n } }
  | lock (w : ω) (hw : s.pool.worker w = .passed) (hfree : s.pool.mutex = none) :
      Fires s false false
        { s with pool := { s.pool.setWorker w .locked with mutex := some (.inl w) } }
  | pop (w : ω) (c : Nat) (rest : List Nat) (hw : s.pool.worker w = .locked)
      (hqueue : s.pool.queue = c :: rest) :
      Fires s false false { s with
        pool := { s.pool.setWorker w (.popped c) with
          queue := rest, popped := s.pool.popped ++ [(w, c)] }
        conns := (s.conns.copy c).release c }
  | unlock (w : ω) (c : Nat) (hw : s.pool.worker w = .popped c) :
      Fires s false false { s with pool := { s.pool.setWorker w (.running c) with mutex := none } }
  | call (w : ω) (c : Nat) (pc : HandlerPc) (hw : s.pool.worker w = .running c)
      (hpc : (s.handler w).calls pc = true) :
      Fires s false false { s.atPoint w pc with conns := s.conns.copy c }
  | leave (w : ω) (c : Nat) (pc : HandlerPc) (hw : s.pool.worker w = .running c)
      (hpc : (s.handler w).returns pc = true) :
      Fires s false false { s.atPoint w pc with conns := s.conns.release c }
  | turn (w : ω) (c : Nat) (hw : s.pool.worker w = .running c)
      (hpc : (s.handler w).loops = true) : Fires s false true s
  | finish (w : ω) (c : Nat) (hw : s.pool.worker w = .running c)
      (hpc : s.handler w = .returned) :
      Fires s false false { s.atPoint w .entering with
        pool := s.pool.setWorker w .waiting, conns := s.conns.release c }

/-- A step of the pool that is no other step goes one of those ways. -/
theorem fires_of_plain (s : State ω) (a : TPool.Action ω Unit Nat) (ha : isPlain a = true)
    (q : TPool.State ω Unit Nat) (hq : TPool.step s.pool a = some q) :
    Fires s false false { s with pool := q } := by
  cases a with
  | lockQueue p =>
      simp only [TPool.step] at hq
      split at hq
      · rename_i c hp hfree
        exact Option.some.inj hq ▸ Fires.lockQueue c hp hfree
      · exact absurd hq (by simp only [reduceCtorEq, not_false_eq_true])
  | post p =>
      simp only [TPool.step] at hq
      split at hq
      · rename_i hp
        exact Option.some.inj hq ▸ Fires.post hp
      · exact absurd hq (by simp only [reduceCtorEq, not_false_eq_true])
  | unlockQueue p =>
      simp only [TPool.step] at hq
      split at hq
      · rename_i hp
        exact Option.some.inj hq ▸ Fires.unlockQueue hp
      · exact absurd hq (by simp only [reduceCtorEq, not_false_eq_true])
  | semWait w =>
      simp only [TPool.step] at hq
      split at hq
      · rename_i n hw hsem
        exact Option.some.inj hq ▸ Fires.semWait w n hw hsem
      · exact absurd hq (by simp only [reduceCtorEq, not_false_eq_true])
  | lock w =>
      simp only [TPool.step] at hq
      split at hq
      · rename_i hw hfree
        exact Option.some.inj hq ▸ Fires.lock w hw hfree
      · exact absurd hq (by simp only [reduceCtorEq, not_false_eq_true])
  | unlock w =>
      simp only [TPool.step] at hq
      split at hq
      · rename_i c hw
        exact Option.some.inj hq ▸ Fires.unlock w c hw
      · exact absurd hq (by simp only [reduceCtorEq, not_false_eq_true])
  | addJob | push | pop | finish =>
      exact absurd ha (by simp only [isPlain, Bool.false_eq_true, not_false_eq_true])

/-- Every enabled action goes one of those ways. -/
theorem fires_of_step (s : State ω) (a : Action ω) (s' : State ω) (h : step s a = some s') :
    Fires s (isAccept a) (isTurn a) s' := by
  cases a with
  | accept fd =>
      simp only [step] at h
      split at h
      · rename_i hloop hfree
        exact Option.some.inj h ▸ Fires.accept fd hloop hfree
      · exact absurd h (by simp only [reduceCtorEq, not_false_eq_true])
  | drop =>
      simp only [step] at h
      split at h
      · rename_i c hloop
        exact Option.some.inj h ▸ Fires.drop c hloop
      · exact absurd h (by simp only [reduceCtorEq, not_false_eq_true])
  | addJob =>
      simp only [step] at h
      split at h
      · rename_i c hloop
        rcases Option.map_eq_some_iff.mp h with ⟨q, hq, rfl⟩
        simp only [TPool.step] at hq
        split at hq
        · rename_i hp
          exact Option.some.inj hq ▸ Fires.addJob c hloop hp
        · exact absurd hq (by simp only [reduceCtorEq, not_false_eq_true])
      · exact absurd h (by simp only [reduceCtorEq, not_false_eq_true])
  | push =>
      simp only [step] at h
      split at h
      · rename_i c hp
        simp only [TPool.step, hp, Option.map_some, Option.some.injEq] at h
        exact h ▸ Fires.push c hp
      · exact absurd h (by simp only [reduceCtorEq, not_false_eq_true])
  | destroy =>
      simp only [step] at h
      split at h
      · rename_i c left hloop hp
        exact Option.some.inj h ▸ Fires.destroy c left hloop hp
      · exact absurd h (by simp only [reduceCtorEq, not_false_eq_true])
  | endTurn =>
      simp only [step] at h
      split at h
      · rename_i c hloop
        exact Option.some.inj h ▸ Fires.endTurn c hloop
      · exact absurd h (by simp only [reduceCtorEq, not_false_eq_true])
  | pop w =>
      simp only [step] at h
      split at h
      · rename_i c rest hqueue
        rcases Option.map_eq_some_iff.mp h with ⟨q, hq, rfl⟩
        simp only [TPool.step, hqueue] at hq
        split at hq
        · rename_i hw hcons
          rw [List.cons.injEq] at hcons
          rcases hcons with ⟨rfl, rfl⟩
          exact Option.some.inj hq ▸ Fires.pop w c rest hw hqueue
        · exact absurd hq (by simp only [reduceCtorEq, not_false_eq_true])
      · exact absurd h (by simp only [reduceCtorEq, not_false_eq_true])
  | call w pc =>
      simp only [step] at h
      split at h
      · rename_i c hw
        rw [Option.ite_none_right_eq_some] at h
        exact Option.some.inj h.2 ▸ Fires.call w c pc hw h.1
      · exact absurd h (by simp only [reduceCtorEq, not_false_eq_true])
  | leave w pc =>
      simp only [step] at h
      split at h
      · rename_i c hw
        rw [Option.ite_none_right_eq_some] at h
        exact Option.some.inj h.2 ▸ Fires.leave w c pc hw h.1
      · exact absurd h (by simp only [reduceCtorEq, not_false_eq_true])
  | turn w =>
      simp only [step] at h
      split at h
      · rename_i c hw
        rw [Option.ite_none_right_eq_some] at h
        exact Option.some.inj h.2 ▸ Fires.turn w c hw h.1
      · exact absurd h (by simp only [reduceCtorEq, not_false_eq_true])
  | finish w =>
      simp only [step] at h
      split at h
      · rename_i c hw hpc
        simp only [TPool.step, hw, Option.map_some, Option.some.injEq] at h
        exact h ▸ Fires.finish w c hw hpc
      · exact absurd h (by simp only [reduceCtorEq, not_false_eq_true])
  | pool a =>
      simp only [step, Option.ite_none_right_eq_some] at h
      rcases Option.map_eq_some_iff.mp h.2 with ⟨q, hq, rfl⟩
      exact fires_of_plain s a h.1 q hq

section Held

omit [DecidableEq ω]

variable [Fintype ω] (s s' : State ω) (y k : Nat)

/-- A step of the loop or the producer adds to the count what it adds to the
    loop and the queue. -/
theorem held_loop (hw : s'.pool.worker = s.pool.worker) (hh : s'.handler = s.handler)
    (hcount : s'.loop.holds y + s'.pool.queue.count y
      = s.loop.holds y + s.pool.queue.count y + k) : held s' y = held s y + k := by
  unfold held
  rw [hw, hh, hcount]
  omega

/-- What a worker holds is part of the count. -/
theorem workerHolds_le_held (w : ω) :
    workerHolds y (s.pool.worker w) (s.handler w) ≤ held s y := by
  have hle := le_total (fun v => workerHolds y (s.pool.worker v) (s.handler v)) w
  unfold held
  omega

variable [DecidableEq ω]

/-- A step of worker `w` changes the count by what it and the queue hold. -/
theorem held_worker (w : ω) (hloop : s'.loop = s.loop)
    (hw : ∀ v, v ≠ w → s'.pool.worker v = s.pool.worker v)
    (hh : ∀ v, v ≠ w → s'.handler v = s.handler v) :
    held s' y + (workerHolds y (s.pool.worker w) (s.handler w) + s.pool.queue.count y)
      = held s y + (workerHolds y (s'.pool.worker w) (s'.handler w) + s'.pool.queue.count y) := by
  have hchange := total_change (fun v => workerHolds y (s.pool.worker v) (s.handler v))
    (fun v => workerHolds y (s'.pool.worker v) (s'.handler v)) w
    (fun v hv => by rw [hw v hv, hh v hv])
  unfold held
  rw [hloop]
  omega

end Held

/-- A call passes one more copy on. -/
theorem copies_of_calls (pc pc' : HandlerPc) (h : pc.calls pc' = true) :
    pc'.copies = pc.copies + 1 := by
  revert h
  cases pc <;> cases pc' <;> decide

/-- A return takes the copy of its call back. -/
theorem copies_of_returns (pc pc' : HandlerPc) (h : pc.returns pc' = true) :
    pc'.copies + 1 = pc.copies := by
  revert h
  cases pc <;> cases pc' <;> decide

theorem count_snoc (queue : List Nat) (c y : Nat) :
    (queue ++ [c]).count y = queue.count y + if y = c then 1 else 0 := by
  rw [List.count_append, List.count_singleton]
  by_cases hy : y = c
  · rw [if_pos hy, if_pos (beq_iff_eq.mpr hy.symm)]
  · rw [if_neg hy, if_neg (fun h => hy (beq_iff_eq.mp h).symm)]

theorem count_cons_queue (rest : List Nat) (c y : Nat) :
    (c :: rest).count y = rest.count y + if y = c then 1 else 0 := by
  rw [List.count_cons]
  by_cases hy : y = c
  · rw [if_pos hy, if_pos (beq_iff_eq.mpr hy.symm)]
  · rw [if_neg hy, if_neg (fun h => hy (beq_iff_eq.mp h).symm)]

/-- The loop is in `add_job`, with its connection, as long as the producer is. -/
def InAddJob (loop : LoopPc) : TPool.ProducerPc Nat → Prop
  | .idle => True
  | .entered c | .locked c => loop = .adding c 2
  | .pushed | .posted => ∃ c, loop = .adding c 2

/-- A loop that is not in `add_job` has an idle producer. -/
theorem InAddJob.idle (loop : LoopPc) (pc : TPool.ProducerPc Nat) (h : InAddJob loop pc)
    (hloop : ∀ c, loop ≠ .adding c 2) : pc = .idle := by
  cases pc with
  | idle => rfl
  | entered c | locked c => exact absurd h (hloop c)
  | pushed | posted =>
      rcases h with ⟨c, hc⟩
      exact absurd hc (hloop c)

/-- The references are the variables, the loop is in `add_job` for as long as the
    producer is, and a handler only goes on while its worker runs the job. -/
structure Kept [Fintype ω] (s : State ω) : Prop where
  accounted : Shared.Accounted s.conns (held s)
  adding : InAddJob s.loop (s.pool.producer ())
  entering : ∀ w, (∀ c, s.pool.worker w ≠ .running c) → s.handler w = .entering

section Loop

omit [DecidableEq ω]

variable [Fintype ω] (s s' : State ω) (hs : Kept s) (hw : s'.pool.worker = s.pool.worker)
  (hh : s'.handler = s.handler) (hadding : InAddJob s'.loop (s'.pool.producer ()))

include hs hw hh hadding

/-- A step of the loop or the producer that leaves the workers alone. -/
theorem kept_loop (hacc : Shared.Accounted s'.conns (held s')) : Kept s' := by
  refine ⟨hacc, hadding, fun w => ?_⟩
  rw [hw, hh]
  exact hs.entering w

/-- It constructs a variable. -/
theorem kept_loop_copy (c : Nat) (hconns : s'.conns = s.conns.copy c)
    (hc : s.loop.holds c + s.pool.queue.count c ≠ 0)
    (hcount : ∀ y, s'.loop.holds y + s'.pool.queue.count y
      = s.loop.holds y + s.pool.queue.count y + if y = c then 1 else 0) : Kept s' := by
  refine kept_loop s s' hs hw hh hadding ?_
  rw [hconns]
  refine hs.accounted.copy c ?_ (fun y => held_loop s s' y _ hw hh (hcount y))
  unfold held
  omega

/-- It destroys one. -/
theorem kept_loop_release (c : Nat) (hconns : s'.conns = s.conns.release c)
    (hcount : ∀ y, s'.loop.holds y + s'.pool.queue.count y + (if y = c then 1 else 0)
      = s.loop.holds y + s.pool.queue.count y) : Kept s' := by
  refine kept_loop s s' hs hw hh hadding ?_
  have hc := hcount c
  rw [if_pos rfl] at hc
  rw [hconns]
  refine hs.accounted.release c ?_ (fun y => ?_)
  · unfold held
    omega
  · exact (held_loop s' s y _ hw.symm hh.symm (hcount y).symm).symm

/-- It does neither. -/
theorem kept_loop_same (hconns : s'.conns = s.conns) (hloop : s'.loop = s.loop)
    (hqueue : s'.pool.queue = s.pool.queue) : Kept s' := by
  refine kept_loop s s' hs hw hh hadding ?_
  rw [hconns, funext (fun y => held_loop s s' y 0 hw hh (by rw [hloop, hqueue, Nat.add_zero]))]
  exact hs.accounted

end Loop

section Worker

variable [Fintype ω] (s s' : State ω) (hs : Kept s) (w : ω) (hloop : s'.loop = s.loop)
  (hp : s'.pool.producer = s.pool.producer)
  (hw : ∀ v, v ≠ w → s'.pool.worker v = s.pool.worker v)
  (hh : ∀ v, v ≠ w → s'.handler v = s.handler v)
  (hentering : (∀ c, s'.pool.worker w ≠ .running c) → s'.handler w = .entering)

include hs hloop hp hw hh hentering

omit [DecidableEq ω] in
/-- A step of a worker that leaves the loop and the producer alone. -/
theorem kept_worker (hacc : Shared.Accounted s'.conns (held s')) : Kept s' := by
  refine ⟨hacc, ?_, fun v => ?_⟩
  · rw [hloop, hp]
    exact hs.adding
  · by_cases hv : v = w
    · rw [hv]
      exact hentering
    · rw [hw v hv, hh v hv]
      exact hs.entering v

/-- It constructs a variable. -/
theorem kept_worker_copy (c : Nat) (hconns : s'.conns = s.conns.copy c)
    (hqueue : s'.pool.queue = s.pool.queue)
    (hc : workerHolds c (s.pool.worker w) (s.handler w) ≠ 0)
    (hcount : ∀ y, workerHolds y (s'.pool.worker w) (s'.handler w)
      = workerHolds y (s.pool.worker w) (s.handler w) + if y = c then 1 else 0) : Kept s' := by
  refine kept_worker s s' hs w hloop hp hw hh hentering ?_
  rw [hconns]
  refine hs.accounted.copy c ?_ (fun y => ?_)
  · have hle := workerHolds_le_held s c w
    omega
  · have hy := held_worker s s' y w hloop hw hh
    rw [hqueue, hcount y] at hy
    omega

/-- It destroys one. -/
theorem kept_worker_release (c : Nat) (hconns : s'.conns = s.conns.release c)
    (hqueue : s'.pool.queue = s.pool.queue)
    (hcount : ∀ y, workerHolds y (s'.pool.worker w) (s'.handler w) + (if y = c then 1 else 0)
      = workerHolds y (s.pool.worker w) (s.handler w)) : Kept s' := by
  refine kept_worker s s' hs w hloop hp hw hh hentering ?_
  rw [hconns]
  refine hs.accounted.release c ?_ (fun y => ?_)
  · have hc := hcount c
    have hle := workerHolds_le_held s c w
    rw [if_pos rfl] at hc
    omega
  · have hy := held_worker s s' y w hloop hw hh
    rw [hqueue, ← hcount y] at hy
    omega

/-- It does neither, or what it takes from the queue it has. -/
theorem kept_worker_same (hconns : Shared.Accounted s'.conns (held s))
    (hcount : ∀ y, workerHolds y (s'.pool.worker w) (s'.handler w) + s'.pool.queue.count y
      = workerHolds y (s.pool.worker w) (s.handler w) + s.pool.queue.count y) : Kept s' := by
  refine kept_worker s s' hs w hloop hp hw hh hentering ?_
  have hheld : ∀ y, held s' y = held s y := by
    intro y
    have hy := held_worker s s' y w hloop hw hh
    have hc := hcount y
    omega
  rw [funext hheld]
  exact hconns

end Worker

/-- Every step keeps the references counted. -/
theorem kept_step [Fintype ω] (s : State ω) (a : Action ω) (s' : State ω) (hs : Kept s)
    (hstep : step s a = some s') : Kept s' := by
  have hacc := hs.accounted
  have hadding := hs.adding
  -- Outside `add_job` the producer stays idle.
  have hout : (∀ c, s.loop ≠ .adding c 2) → ∀ loop, InAddJob loop (s.pool.producer ()) := by
    intro hloop loop
    rw [InAddJob.idle _ _ hadding hloop]
    trivial
  have hfires := fires_of_step s a s' hstep
  generalize isAccept a = b, isTurn a = b' at hfires
  cases hfires with
  | accept fd hloop hfree =>
      refine kept_loop s _ hs rfl rfl (hout (by simp only [hloop, ne_eq, reduceCtorEq,
        not_false_eq_true, implies_true]) _) (hacc.make fd hfree (fun y => ?_))
      refine held_loop s _ y _ rfl rfl ?_
      simp only [hloop, LoopPc.holds]
      omega
  | drop c hloop =>
      refine kept_loop_release s _ hs rfl rfl (hout (by simp only [hloop, ne_eq, reduceCtorEq,
        not_false_eq_true, implies_true]) _) c rfl (fun y => ?_)
      simp only [hloop, LoopPc.holds]
      omega
  | addJob c hloop hp =>
      have hpos : held s c ≠ 0 := by
        unfold held
        simp only [hloop, LoopPc.holds, if_true]
        omega
      have hone : Shared.Accounted (s.conns.copy c)
          (fun y => held s y + if y = c then 1 else 0) := hacc.copy c hpos (fun _ => rfl)
      refine kept_loop s _ hs rfl rfl ?_ (hone.copy c (by omega) (fun y => ?_))
      · simp only [TPool.State.setProducer, Function.update_self, InAddJob]
      · rw [Nat.add_assoc]
        refine held_loop s _ y _ rfl rfl ?_
        simp only [hloop, LoopPc.holds, TPool.State.setProducer]
        split <;> omega
  | lockQueue c hp hfree =>
      refine kept_loop_same s _ hs rfl rfl ?_ rfl rfl rfl
      rw [hp] at hadding
      simp only [TPool.State.setProducer, Function.update_self]
      exact hadding
  | push c hp =>
      rw [hp] at hadding
      refine kept_loop_copy s _ hs rfl rfl ?_ c rfl ?_ (fun y => ?_)
      · simp only [TPool.State.setProducer, Function.update_self]
        exact ⟨c, hadding⟩
      · rw [show s.loop = _ from hadding, LoopPc.holds, if_pos rfl]
        omega
      · change s.loop.holds y + (s.pool.queue ++ [c]).count y = _
        rw [count_snoc]
        omega
  | post hp =>
      refine kept_loop_same s _ hs rfl rfl ?_ rfl rfl rfl
      rw [hp] at hadding
      simp only [TPool.State.setProducer, Function.update_self]
      exact hadding
  | unlockQueue hp =>
      refine kept_loop_same s _ hs rfl rfl ?_ rfl rfl rfl
      simp only [TPool.State.setProducer, Function.update_self, InAddJob]
  | destroy c left hloop hp =>
      refine kept_loop_release s _ hs rfl rfl ?_ c rfl (fun y => ?_)
      · simp only [hp, InAddJob]
      · simp only [hloop, LoopPc.holds]
        split <;> omega
  | endTurn c hloop =>
      have hpast : ∀ d, s.loop ≠ .adding d 2 := by
        intro d hd
        rw [hloop, LoopPc.adding.injEq] at hd
        omega
      refine kept_loop_release s _ hs rfl rfl (hout hpast _) c rfl (fun y => ?_)
      simp only [hloop, LoopPc.holds]
      split <;> omega
  | semWait w n hw hsem =>
      refine kept_worker_same s _ hs w rfl rfl (fun v hv => Function.update_of_ne hv _ _)
        (fun _ _ => rfl) (fun _ => hs.entering w (by simp only [hw, ne_eq, reduceCtorEq,
        not_false_eq_true, implies_true])) hacc (fun y => ?_)
      simp only [TPool.State.setWorker, Function.update_self, hw, workerHolds]
  | lock w hw hfree =>
      refine kept_worker_same s _ hs w rfl rfl (fun v hv => Function.update_of_ne hv _ _)
        (fun _ _ => rfl) (fun _ => hs.entering w (by simp only [hw, ne_eq, reduceCtorEq,
        not_false_eq_true, implies_true])) hacc (fun y => ?_)
      simp only [TPool.State.setWorker, Function.update_self, hw, workerHolds]
  | pop w c rest hw hqueue =>
      -- The copy of the front is made before the front goes.
      have hpos : held s c ≠ 0 := by
        unfold held
        rw [hqueue, count_cons_queue, if_pos rfl]
        omega
      have hone : Shared.Accounted (s.conns.copy c)
          (fun y => held s y + if y = c then 1 else 0) := hacc.copy c hpos (fun _ => rfl)
      refine kept_worker_same s _ hs w rfl rfl (fun v hv => Function.update_of_ne hv _ _)
        (fun _ _ => rfl) (fun _ => hs.entering w (by simp only [hw, ne_eq, reduceCtorEq,
        not_false_eq_true, implies_true])) (hone.release c (by omega) (fun _ => rfl))
        (fun y => ?_)
      simp only [TPool.State.setWorker, Function.update_self, hw, hqueue, workerHolds,
        count_cons_queue]
      omega
  | unlock w c hw =>
      have hfirst := hs.entering w (by simp only [hw, ne_eq, reduceCtorEq, not_false_eq_true,
        implies_true])
      refine kept_worker_same s _ hs w rfl rfl (fun v hv => Function.update_of_ne hv _ _)
        (fun _ _ => rfl) (fun _ => hfirst) hacc (fun y => ?_)
      simp only [TPool.State.setWorker, Function.update_self, hw, hfirst, workerHolds,
        HandlerPc.copies]
  | call w c pc hw hpc =>
      refine kept_worker_copy s _ hs w rfl rfl (fun _ _ => rfl)
        (fun v hv => Function.update_of_ne hv _ _) (fun h => absurd hw (h c)) c rfl rfl ?_
        (fun y => ?_)
      · simp only [hw, workerHolds, if_true]
        omega
      · have hcopies := copies_of_calls _ _ hpc
        simp only [State.atPoint, Function.update_self, hw, workerHolds]
        split <;> omega
  | leave w c pc hw hpc =>
      refine kept_worker_release s _ hs w rfl rfl (fun _ _ => rfl)
        (fun v hv => Function.update_of_ne hv _ _) (fun h => absurd hw (h c)) c rfl rfl
        (fun y => ?_)
      have hcopies := copies_of_returns _ _ hpc
      simp only [State.atPoint, Function.update_self, hw, workerHolds]
      split <;> omega
  | turn => exact hs
  | finish w c hw hpc =>
      refine kept_worker_release s _ hs w rfl rfl (fun v hv => Function.update_of_ne hv _ _)
        (fun v hv => Function.update_of_ne hv _ _) (fun _ => Function.update_self _ _ _) c rfl rfl
        (fun y => ?_)
      simp only [TPool.State.setWorker, Function.update_self, hw, hpc, workerHolds,
        HandlerPc.copies, Nat.add_zero, Nat.zero_add]

theorem reachable_kept [Fintype ω] {s : State ω} (hr : (system ω).Reachable s) : Kept s := by
  refine System.Reachable.invariant Kept (fun s hinit => ?_) kept_step hr
  rw [show s = State.fresh from hinit]
  refine ⟨⟨Shared.sound_empty, fun y => ?_⟩, trivial, fun _ _ => rfl⟩
  -- No variable holds anything yet.
  have hzero : total (fun w => workerHolds y ((State.fresh : State ω).pool.worker w)
      ((State.fresh : State ω).handler w)) = 0 := Finset.sum_eq_zero (fun _ _ => rfl)
  unfold held
  rw [hzero]
  rfl

/-- The runs of the server, read for the pool, are runs of the pool. -/
theorem pool_reachable {s : State ω} (hr : (system ω).Reachable s) :
    (TPool.system ω Unit Nat).Reachable s.pool := by
  refine hr.map (TPool.system ω Unit Nat) State.pool (fun s hinit => ?_) (fun s a s' hstep => ?_)
  · rw [show s = State.fresh from hinit]
    rfl
  · have hfires := fires_of_step s a s' hstep
    generalize isAccept a = b, isTurn a = b' at hfires
    cases hfires with
    | accept | drop | destroy | endTurn | call | leave | turn => exact Or.inr (Or.inl rfl)
    | addJob c _ hp =>
        exact Or.inr (Or.inr ⟨.addJob () c, by simp only [TPool.system, TPool.step, hp]⟩)
    | lockQueue c hp hfree =>
        exact Or.inr (Or.inr ⟨.lockQueue (), by simp only [TPool.system, TPool.step, hp, hfree]⟩)
    | push c hp => exact Or.inr (Or.inr ⟨.push (), by simp only [TPool.system, TPool.step, hp]⟩)
    | post hp => exact Or.inr (Or.inr ⟨.post (), by simp only [TPool.system, TPool.step, hp]⟩)
    | unlockQueue hp =>
        exact Or.inr (Or.inr ⟨.unlockQueue (), by simp only [TPool.system, TPool.step, hp]⟩)
    | semWait w n hw hsem =>
        exact Or.inr (Or.inr ⟨.semWait w, by simp only [TPool.system, TPool.step, hw, hsem]⟩)
    | lock w hw hfree =>
        exact Or.inr (Or.inr ⟨.lock w, by simp only [TPool.system, TPool.step, hw, hfree]⟩)
    | pop w c rest hw hqueue =>
        exact Or.inr (Or.inr ⟨.pop w, by simp only [TPool.system, TPool.step, hw, hqueue]⟩)
    | unlock w c hw =>
        exact Or.inr (Or.inr ⟨.unlock w, by simp only [TPool.system, TPool.step, hw]⟩)
    | finish w c hw _ =>
        exact Or.inr (Or.inr ⟨.finish w, by simp only [TPool.system, TPool.step, hw]⟩)

/-- The connection the loop has and has not pushed. -/
def unpushed (loop : LoopPc) : TPool.ProducerPc Nat → Option Nat
  | .entered c | .locked c => some c
  | _ => match loop with
    | .accepted c => some c
    | _ => none

/-- No connection was pushed twice, and the one the loop has next was not pushed
    at all. -/
structure Offered (s : State ω) : Prop where
  once : s.pool.pushed.Nodup
  made : ∀ c ∈ s.pool.pushed, c < s.conns.next
  next : ∀ c, unpushed s.loop (s.pool.producer ()) = some c →
    c < s.conns.next ∧ c ∉ s.pool.pushed

omit [DecidableEq ω] in
/-- A step that pushes nothing, and after which the loop has no other connection
    to push. -/
theorem offered_same (s s' : State ω) (hs : Offered s) (hpushed : s'.pool.pushed = s.pool.pushed)
    (hnext : s'.conns.next = s.conns.next)
    (hun : ∀ c, unpushed s'.loop (s'.pool.producer ()) = some c →
      unpushed s.loop (s.pool.producer ()) = some c) : Offered s' := by
  refine ⟨hpushed ▸ hs.once, fun c hc => ?_, fun c hc => ?_⟩
  · rw [hnext]
    exact hs.made c (hpushed ▸ hc)
  · rw [hnext, hpushed]
    exact hs.next c (hun c hc)

/-- Every step offers a connection to the pool once at most. -/
theorem offered_step [Fintype ω] (s : State ω) (a : Action ω) (s' : State ω)
    (hs : Kept s ∧ Offered s) (hstep : step s a = some s') : Kept s' ∧ Offered s' := by
  refine ⟨kept_step s a s' hs.1 hstep, ?_⟩
  rcases hs with ⟨hkept, hs⟩
  have hadding := hkept.adding
  have hfires := fires_of_step s a s' hstep
  generalize isAccept a = b, isTurn a = b' at hfires
  cases hfires with
  | accept fd hloop hfree =>
      have hidle := InAddJob.idle _ _ hadding (by simp only [hloop, ne_eq, reduceCtorEq,
        not_false_eq_true, implies_true])
      refine ⟨hs.once, fun c hc => Nat.lt_succ_of_lt (hs.made c hc), fun c hc => ?_⟩
      -- It is the new one, and older ones were pushed.
      simp only [hidle, unpushed, Option.some.injEq] at hc
      rw [← hc]
      exact ⟨Nat.lt_succ_self _, fun hmem => Nat.lt_irrefl _ (hs.made _ hmem)⟩
  | drop c hloop =>
      have hidle := InAddJob.idle _ _ hadding (by simp only [hloop, ne_eq, reduceCtorEq,
        not_false_eq_true, implies_true])
      refine offered_same s _ hs rfl (Shared.next_release _ _) (fun d hd => ?_)
      simp only [hidle, unpushed, reduceCtorEq] at hd
  | addJob c hloop hp =>
      refine offered_same s _ hs rfl rfl (fun d hd => ?_)
      simp only [TPool.State.setProducer, Function.update_self, unpushed] at hd
      simp only [hloop, hp, unpushed]
      exact hd
  | lockQueue c hp hfree =>
      refine offered_same s _ hs rfl rfl (fun d hd => ?_)
      simp only [TPool.State.setProducer, Function.update_self, unpushed] at hd
      simp only [hp, unpushed]
      exact hd
  | push c hp =>
      have hc := hs.next c (by simp only [hp, unpushed])
      rw [hp] at hadding
      refine ⟨?_, fun d hd => ?_, fun d hd => ?_⟩
      · change (s.pool.pushed ++ [c]).Nodup
        rw [← List.concat_eq_append]
        exact hs.once.concat hc.2
      · rcases List.mem_append.mp hd with hd | hd
        · exact hs.made d hd
        · rw [List.mem_singleton.mp hd]
          exact hc.1
      · simp only [TPool.State.setProducer, Function.update_self, show s.loop = _ from hadding,
          unpushed, reduceCtorEq] at hd
  | post hp =>
      refine offered_same s _ hs rfl rfl (fun d hd => ?_)
      rw [hp]
      simp only [TPool.State.setProducer, Function.update_self] at hd
      exact hd
  | unlockQueue hp =>
      refine offered_same s _ hs rfl rfl (fun d hd => ?_)
      rw [hp]
      simp only [TPool.State.setProducer, Function.update_self] at hd
      exact hd
  | destroy c left hloop hp =>
      refine offered_same s _ hs rfl (Shared.next_release _ _) (fun d hd => ?_)
      simp only [hp, unpushed, reduceCtorEq] at hd
  | endTurn c hloop =>
      refine offered_same s _ hs rfl (Shared.next_release _ _) (fun d hd => ?_)
      have hidle := InAddJob.idle _ _ hadding (by
        intro d hd
        rw [hloop, LoopPc.adding.injEq] at hd
        omega)
      simp only [hidle, unpushed, reduceCtorEq] at hd
  | semWait | lock | unlock | call => exact offered_same s _ hs rfl rfl (fun _ hd => hd)
  | turn => exact hs
  | pop | leave | finish =>
      exact offered_same s _ hs rfl (Shared.next_release _ _) (fun _ hd => hd)

theorem reachable_offered [Fintype ω] {s : State ω} (hr : (system ω).Reachable s) :
    Kept s ∧ Offered s := by
  refine System.Reachable.invariant (fun s => Kept s ∧ Offered s) (fun s hinit => ?_)
    offered_step hr
  refine ⟨reachable_kept (System.Reachable.init s hinit), ?_⟩
  rw [show s = State.fresh from hinit]
  exact ⟨List.nodup_nil, fun c hc => absurd hc List.not_mem_nil, fun c hc =>
    absurd hc (by simp only [State.fresh, TPool.State.fresh, unpushed, reduceCtorEq,
      not_false_eq_true])⟩

/-- **A descriptor in use is the connection's own**: while a worker has a
    connection, in whatever call, the connection is not closed, its descriptor is
    the one it was accepted with and belongs to it, and the connection of another
    worker has another one. -/
theorem descriptor_held [Fintype ω] (s : State ω) (hr : (system ω).Reachable s) (w : ω) (c : Nat)
    (hw : s.pool.worker w = .popped c ∨ s.pool.worker w = .running c) :
    c ∉ s.conns.destroyed ∧
    ∃ fd, s.conns.resource c = some fd ∧ s.conns.owner fd = some c ∧
      ∀ v d, v ≠ w → s.pool.worker v = .popped d ∨ s.pool.worker v = .running d →
        s.conns.resource d ≠ some fd := by
  rcases reachable_offered hr with ⟨hkept, hoffered⟩
  -- A worker with a connection has a variable that holds it.
  have hpos : ∀ v d, s.pool.worker v = .popped d ∨ s.pool.worker v = .running d →
      held s d ≠ 0 := by
    intro v d hv
    have hle := workerHolds_le_held s d v
    rcases hv with hv | hv
    · simp only [hv, workerHolds, if_true] at hle
      omega
    · simp only [hv, workerHolds, if_true] at hle
      omega
  refine ⟨fun hgone => hpos w c hw ((hkept.accounted.destroyed_iff c).mp hgone).2, ?_⟩
  rcases hkept.accounted.owns c (hpos w c hw) with ⟨fd, hres, howner⟩
  refine ⟨fd, hres, howner, fun v d hv hd hsame => hv ?_⟩
  -- Two owners of one descriptor are one connection, which one worker has.
  rcases hkept.accounted.owns d (hpos v d hd) with ⟨fd', hres', howner'⟩
  rw [hsame, Option.some.injEq] at hres'
  rw [← hres', howner, Option.some.injEq] at howner'
  exact TPool.jobs_apart s.pool (pool_reachable hr) hoffered.once v w c (howner' ▸ hd) hw

/-- **A connection is closed once**, and it is when no variable holds it: then its
    destructor has run, before that it has not, and no descriptor stays open that
    nobody has a pointer to. -/
theorem closed_once [Fintype ω] (s : State ω) (hr : (system ω).Reachable s) :
    (∀ c < s.conns.next, s.conns.destroyed.count c = if held s c = 0 then 1 else 0) ∧
    (∀ c, s.conns.next ≤ c → held s c = 0 ∧ c ∉ s.conns.destroyed) ∧
    (∀ fd c, s.conns.owner fd = some c ↔ held s c ≠ 0 ∧ s.conns.resource c = some fd) := by
  have hacc := (reachable_kept hr).accounted
  refine ⟨hacc.count_destroyed, fun c hc => ⟨?_, fun hmem => ?_⟩, hacc.owner_iff⟩
  · rw [← hacc.count_eq c]
    exact hacc.sound.fresh c hc
  · exact absurd ((hacc.destroyed_iff c).mp hmem).1 (Nat.not_lt.mpr hc)

/-- A worker has taken the first connection and its client has gone, before the
    loop comes out of `add_job`. Then the loop, whose variable is the last one,
    closes it, and the next connection gets its descriptor. -/
def reuseSchedule : List (Action Bool) :=
  [.accept 5, .addJob, .pool (.lockQueue ()), .push, .pool (.post ()), .pool (.semWait true),
    .pool (.unlockQueue ()), .pool (.lock true), .pop true, .pool (.unlock true),
    .call true .handling, .call true .receiving, .leave true .received, .leave true .returned,
    .finish true, .destroy, .destroy, .endTurn, .accept 5, .addJob, .pool (.lockQueue ()), .push,
    .pool (.post ()), .pool (.unlockQueue ()), .pool (.semWait false), .pool (.lock false),
    .pop false, .pool (.unlock false), .call false .handling, .call false .receiving]

/-- It ends with the other worker in `recv` on that descriptor. -/
theorem reuse_reachable :
    ∃ s : State Bool, (system Bool).Reachable s ∧ s.pool.worker false = .running 1 ∧
      s.conns.next = 2 ∧ s.conns.destroyed = [0] ∧
      s.conns.resource 0 = some 5 ∧ s.conns.resource 1 = some 5 := by
  have hstart : (system Bool).Reachable State.fresh := System.Reachable.init _ rfl
  have hend : ((system Bool).run State.fresh reuseSchedule).map (fun s => (s.pool.worker false,
      s.conns.next, s.conns.destroyed, s.conns.resource 0, s.conns.resource 1))
      = some (.running 1, 2, [0], some 5, some 5) := by decide
  cases hrun : (system Bool).run State.fresh reuseSchedule with
  | none =>
      rw [hrun] at hend
      exact absurd hend (by simp only [Option.map_none, reduceCtorEq, not_false_eq_true])
  | some s =>
      rw [hrun, Option.map_some, Option.some.injEq] at hend
      simp only [Prod.mk.injEq] at hend
      exact ⟨s, System.reachable_of_run _ _ hstart hrun, hend⟩

theorem descriptor_held_reuse :
    ∃ s : State Bool, (system Bool).Reachable s ∧ s.pool.worker false = .running 1 ∧
      s.conns.destroyed = [0] ∧ s.conns.resource 0 = some 5 ∧ s.conns.owner 5 = some 1 := by
  rcases reuse_reachable with ⟨s, hr, hw, _, hgone, hfirst, hsecond⟩
  rcases descriptor_held s hr false 1 (Or.inr hw) with ⟨_, fd, hres, howner, _⟩
  rw [hsecond, Option.some.injEq] at hres
  exact ⟨s, hr, hw, hgone, hfirst, hres ▸ howner⟩

theorem closed_once_reuse :
    ∃ s : State Bool, (system Bool).Reachable s ∧ s.conns.destroyed = [0] ∧
      held s 0 = 0 ∧ held s 1 ≠ 0 := by
  rcases reuse_reachable with ⟨s, hr, _, hnext, hgone, _⟩
  have hclosed := (closed_once s hr).1
  have hfirst := hclosed 0 (by omega)
  have hsecond := hclosed 1 (by omega)
  rw [hgone] at hfirst hsecond
  refine ⟨s, hr, hgone, ?_, fun hzero => ?_⟩
  · by_contra hne
    rw [if_neg hne] at hfirst
    exact absurd hfirst (by decide)
  · rw [if_pos hzero] at hsecond
    exact absurd hsecond (by decide)

end Connections

end HttpFileSharing
