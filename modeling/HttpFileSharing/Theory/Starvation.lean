import HttpFileSharing.Theory.Draining

/-!
# Clients that Send Nothing

A handler calls `recv_req` without a timeout, so a client that connects and then
neither sends anything nor goes away keeps a worker for as long as it likes. One that
sends its request and then reads nothing keeps it in `send_http_rsp`, and so does one
whose file became shorter while it was sent. Such clients are called silent. Here is
what they do to everybody else.

While fewer such clients have come than there are workers, it does nothing: one worker
is always left, and the loop and the workers come to rest where everybody else was
served. Once there is one in every worker nobody is served any more. The loop goes on
accepting, and what it accepts stays in the queue with its descriptor open.

## Main definitions

* `Connections.wakes`: The steps that a silent client would have to bring about.
* `Connections.muted`: The server where it does not.
* `Connections.silentCount`: How many silent clients have come.
* `Connections.HeldUp`: A worker with a silent client.
* `Connections.Served`: Everybody else was served.

## Theorems

* `Connections.served_of_rest`: With a worker left everybody else was served.
* `Connections.exists_free`: A worker is left.
* `Connections.others_served`: Fewer silent clients than workers do no harm.
* `Connections.heldUp_step`: A worker with a silent client keeps it.
* `Connections.starved`: With one in every worker nobody is served any more.
-/

namespace HttpFileSharing

namespace Connections

variable {ω : Type*} [DecidableEq ω]

omit [DecidableEq ω] in
/-- The steps that a silent client would have to bring about: out of `recv_req` and out
    of `send_http_rsp`. -/
def wakes (silent : Nat → Bool) (s : State ω) : Action ω → Bool
  | .leave w _ => match s.pool.worker w with
    | .running c => (s.handler w).loops && silent c
    | _ => false
  | _ => false

/-- The server where the silent clients stay so. -/
def muted (ω : Type*) [DecidableEq ω] (silent : Nat → Bool) : System (State ω) (Action ω) :=
  (system ω).withhold (wakes silent)

omit [DecidableEq ω] in
/-- How many silent clients have come. -/
def silentCount (silent : Nat → Bool) (s : State ω) : Nat :=
  ((Finset.range s.conns.next).filter (fun c => silent c = true)).card

omit [DecidableEq ω] in
/-- A worker is in `recv_req` or in `send_http_rsp` for a silent client. -/
def HeldUp (silent : Nat → Bool) (s : State ω) (w : ω) : Prop :=
  ∃ c, s.pool.worker w = .running c ∧ (s.handler w).loops = true ∧ silent c = true

omit [DecidableEq ω] in
/-- The loop is at its accept, nothing is queued, no worker has anything but a silent
    client, and the connections of all others were closed, once. -/
structure Served (silent : Nat → Bool) (s : State ω) : Prop where
  loop : s.loop = .accepting
  queue : s.pool.queue = []
  worker : ∀ w, s.pool.worker w = .waiting ∨ HeldUp silent s w
  closed : ∀ c < s.conns.next, silent c = false → s.conns.destroyed.count c = 1

/-- At rest, but for accepts, silent clients, and the turns of the workers they have. -/
def Rests (silent : Nat → Bool) (s : State ω) : Prop :=
  (muted ω silent).Resting (fun a => isAccept a = false ∧ (!isTurn a) = true) s

section Rest

variable (silent : Nat → Bool) (s : State ω) (h : Rests silent s)

include h

theorem still_of_rest : Still s := by
  intro a ha hh
  cases a with
  | call | leave | turn | finish => exact absurd hh (by simp only [isHandler, Bool.true_eq_false,
      not_false_eq_true])
  | accept | drop | addJob | push | destroy | endTurn | pop | pool =>
      exact System.Resting.stuck h _ ⟨ha, rfl⟩ rfl

/-- A worker that runs a job has a silent client. -/
theorem heldUp_of_running (w : ω) (c : Nat) (hw : s.pool.worker w = .running c) :
    HeldUp silent s w := by
  have hcalls : ∀ pc, step s (.call w pc) = none :=
    fun pc => System.Resting.stuck h (.call w pc) ⟨rfl, rfl⟩ rfl
  have hleaves : (s.handler w).loops = false → ∀ pc, step s (.leave w pc) = none := by
    intro hloops pc
    refine System.Resting.stuck h (.leave w pc) ⟨rfl, rfl⟩ ?_
    simp only [wakes, hw, hloops, Bool.false_and]
  have hloops := loops_of_stuck s w c hw hcalls hleaves
    (System.Resting.stuck h (.finish w) ⟨rfl, rfl⟩ rfl)
  refine ⟨c, hw, hloops, ?_⟩
  by_contra hloud
  -- A client that sends and reads gets its worker out of the call.
  rcases returns_of_loops _ hloops with ⟨pc, hpc⟩
  have hwakes : wakes silent s (.leave w pc) = false := by
    simp only [wakes, hw, hloops, Bool.true_and]
    exact Bool.eq_false_iff.mpr hloud
  have hnone : step s (.leave w pc) = none :=
    System.Resting.stuck h (.leave w pc) ⟨rfl, rfl⟩ hwakes
  simp only [step, hw, hpc, if_true, reduceCtorEq] at hnone

variable [Fintype ω] (hr : (system ω).Reachable s)

include hr

/-- With a worker that has no silent client everybody else was served. -/
theorem served_of_rest (w : ω) (hw : ¬ HeldUp silent s w) : Served silent s := by
  have hstill := still_of_rest silent s h
  have hworker : ∀ v, s.pool.worker v = .waiting ∨ HeldUp silent s v := by
    intro v
    rcases hstill.worker_free s hr v with ⟨hv, _⟩ | ⟨c, hv⟩
    · exact Or.inl hv
    · exact Or.inr (heldUp_of_running silent s h v c hv)
  -- The worker waits for a unit, so there is none, and with it no job.
  have hsem : s.pool.sem = 0 := by
    rcases hstill.worker_free s hr w with ⟨_, hsem⟩ | ⟨c, hc⟩
    · exact hsem
    · exact absurd (heldUp_of_running silent s h w c hc) hw
  have hqueue : s.pool.queue = [] :=
    List.eq_nil_of_length_eq_zero ((hstill.length_queue s hr).trans hsem)
  have hloop := hstill.loop s (hstill.producer_idle s hr)
  refine ⟨hloop, hqueue, hworker, fun c hc hloud => ?_⟩
  have hnone : ∀ v, workerHolds c (s.pool.worker v) (s.handler v) = 0 := by
    intro v
    rcases hworker v with hv | ⟨d, hv, _, hd⟩
    · rw [hv]
      rfl
    · rw [hv, workerHolds, if_neg]
      rintro rfl
      exact Bool.noConfusion (hd.symm.trans hloud)
  have hheld : held s c = 0 := by
    have hzero : total (fun v => workerHolds c (s.pool.worker v) (s.handler v)) = 0 :=
      Finset.sum_eq_zero (fun v _ => hnone v)
    unfold held
    rw [hloop, hqueue, hzero]
    rfl
  rw [(reachable_kept hr).accounted.count_destroyed c hc, if_pos hheld]

omit h in
/-- With fewer silent clients than workers there is such a worker: each of them has
    one worker at most. -/
theorem exists_free (hfew : silentCount silent s < Fintype.card ω) : ∃ w, ¬ HeldUp silent s w := by
  by_contra hall
  push Not at hall
  choose conn hrun _ hsilent using hall
  rcases reachable_offered hr with ⟨_, hoffered⟩
  have hpool := pool_reachable hr
  have hinj : Function.Injective conn := by
    intro v w heq
    exact TPool.jobs_apart s.pool hpool hoffered.once v w (conn v) (Or.inr (hrun v))
      (Or.inr (heq ▸ hrun w))
  have hmem : ∀ w, conn w ∈ (Finset.range s.conns.next).filter (fun c => silent c = true) := by
    intro w
    have hpushed : conn w ∈ s.pool.pushed := by
      rw [TPool.reachable_inOrder hpool]
      exact List.mem_append_left _ (List.mem_map_of_mem
        (TPool.reachable_recorded hpool w (conn w) (Or.inr (hrun w))))
    exact Finset.mem_filter.mpr ⟨Finset.mem_range.mpr (hoffered.made _ hpushed), hsilent w⟩
  have hle : (Finset.univ : Finset ω).card ≤ silentCount silent s :=
    Finset.card_le_card_of_injOn conn (fun w _ => hmem w) hinj.injOn
  exact absurd hfew (Nat.not_lt.mpr hle)

end Rest

/-- Without an accept no connection is made. -/
theorem next_of_run (silent : Nat → Bool) (as : List (Action ω))
    (has : ∀ a ∈ as, isAccept a = false) (s t : State ω)
    (hrun : (muted ω silent).run s as = some t) : t.conns.next = s.conns.next := by
  induction as generalizing s with
  | nil => rw [Option.some.inj hrun]
  | cons a as ih =>
      rcases System.run_cons _ a as hrun with ⟨s', hone, hrest⟩
      rw [ih (fun b hb => has b (List.mem_cons_of_mem a hb)) s' hrest]
      have hfires := fires_of_step s a s' (System.step_of_withhold hone).2
      rw [has a List.mem_cons_self] at hfires
      generalize isTurn a = b at hfires
      cases hfires <;> simp only [Shared.next_copy, Shared.next_release]

/-- **Fewer silent clients than workers do no harm**: when no more connections come,
    the loop and the workers take no more than so many steps besides the turns of
    `recv_req` and `send_http_rsp`, in whatever order, and whenever they have none left
    that is not a silent client's, which they come to from any reachable state, everybody
    else was served. -/
theorem others_served [Fintype ω] (silent : Nat → Bool) (s : State ω)
    (hr : (system ω).Reachable s) (hfew : silentCount silent s < Fintype.card ω) :
    (∀ as t, (∀ a ∈ as, isAccept a = false) → (muted ω silent).run s as = some t →
      as.countP (fun a => !isTurn a) ≤ 38 + 13 * s.pool.queue.length + Fintype.card ω * 10 ∧
      (Rests silent t → Served silent t)) ∧
    (∃ as t, (∀ a ∈ as, isAccept a = false) ∧ (muted ω silent).run s as = some t ∧
      Rests silent t) := by
  have hlowers : (muted ω silent).Lowers (fun a => isAccept a = false ∧ (!isTurn a) = true) rank :=
    rank_lowers.withhold
  have hmuted : (muted ω silent).Reachable s := System.Reachable.init s hr
  refine ⟨fun as t has hrun => ⟨?_, fun hrest => ?_⟩, ?_⟩
  · have hlength := hlowers.countP_le (fun s a s' _ _ hturn hstep => Nat.le_of_eq (congrArg rank
      (step_turn s a (by rwa [Bool.not_eq_false'] at hturn) s' (System.step_of_withhold hstep).2)))
      as has hmuted hrun
    have hbound := rank_le s hr
    omega
  · have ht : (system ω).Reachable t :=
      System.reachable_of_withhold (System.reachable_of_run _ as hmuted hrun)
    have hcount : silentCount silent t = silentCount silent s := by
      rw [silentCount, silentCount, next_of_run silent as has s t hrun]
    rcases exists_free silent t ht (hcount ▸ hfew) with ⟨w, hw⟩
    exact served_of_rest silent t hrest ht w hw
  · rcases hlowers.exists_resting hmuted with ⟨as, t, has, hrun, hrest⟩
    exact ⟨as, t, fun a ha => (has a ha).1, hrun, hrest⟩

/-- The first client to come says nothing. -/
def firstSilent (c : Nat) : Bool := c == 0

/-- One turn of the loop. -/
def turn {ω : Type*} (fd : Nat) : List (Action ω) :=
  [.accept fd, .addJob, .pool (.lockQueue ()), .push, .pool (.post ()), .pool (.unlockQueue ()),
    .destroy, .destroy, .endTurn]

/-- Of two workers one is left for the second client. -/
theorem others_served_second :
    ∃ (s t : State Bool) (as : List (Action Bool)), (system Bool).Reachable s ∧
      silentCount firstSilent s = 1 ∧ (muted Bool firstSilent).run s as = some t ∧
      Served firstSilent t ∧ t.conns.destroyed.count 1 = 1 := by
  have hstart : ((system Bool).run State.fresh (turn 5 ++ turn 6)).map (fun s => s.conns.next)
      = some 2 := by decide
  rcases Option.map_eq_some_iff.mp hstart with ⟨s, hrun, hnext⟩
  have hr := System.reachable_of_run _ _ (System.Reachable.init _ rfl) hrun
  have hcount : silentCount firstSilent s = 1 := by
    rw [silentCount, hnext]
    decide
  rcases others_served firstSilent s hr (by rw [hcount]; decide) with
    ⟨hends, as, t, has, hrun', hrest⟩
  have hserved := (hends as t has hrun').2 hrest
  have hnext' := next_of_run firstSilent as has s t hrun'
  exact ⟨s, t, as, hr, hcount, hrun', hserved, hserved.closed 1 (by omega) rfl⟩

/-- A pool whose workers all run a job has the steps of its producer: no job is taken
    until one of them is done. -/
theorem pool_step_running (s q : TPool.State ω Unit Nat) (a : TPool.Action ω Unit Nat)
    (hrunning : ∀ w, ∃ c, s.worker w = .running c) (ha : ∀ w, a ≠ .finish w)
    (hstep : TPool.step s a = some q) :
    q.worker = s.worker ∧ q.popped = s.popped ∧ s.queue <+: q.queue := by
  cases a with
  | finish w => exact absurd rfl (ha w)
  | semWait w | lock w | pop w | unlock w =>
      rcases hrunning w with ⟨c, hc⟩
      simp only [TPool.step, hc, reduceCtorEq] at hstep
  | addJob p c | lockQueue p | post p | unlockQueue p =>
      simp only [TPool.step] at hstep
      split at hstep
      · rw [← Option.some.inj hstep]
        exact ⟨rfl, rfl, List.prefix_rfl⟩
      · exact absurd hstep (by simp only [reduceCtorEq, not_false_eq_true])
  | push p =>
      simp only [TPool.step] at hstep
      split at hstep
      · rw [← Option.some.inj hstep]
        exact ⟨rfl, rfl, List.prefix_append _ _⟩
      · exact absurd hstep (by simp only [reduceCtorEq, not_false_eq_true])

theorem not_calls_of_loops (pc : HandlerPc) (h : pc.loops = true) (pc' : HandlerPc) :
    pc.calls pc' = false := by
  revert h
  cases pc <;> cases pc' <;> decide

/-- A step where every worker has a silent client is one of the loop or the producer. -/
theorem heldUp_step (silent : Nat → Bool) (s : State ω) (hall : ∀ w, HeldUp silent s w)
    (a : Action ω) (s' : State ω) (hstep : (muted ω silent).step s a = some s') :
    s'.pool.worker = s.pool.worker ∧ s'.handler = s.handler ∧
      s'.pool.popped = s.pool.popped ∧ s.pool.queue <+: s'.pool.queue := by
  rcases System.step_of_withhold hstep with ⟨hwakes, hstep⟩
  have hrunning : ∀ w, ∃ c, s.pool.worker w = .running c := by
    intro w
    rcases hall w with ⟨c, hc, _⟩
    exact ⟨c, hc⟩
  have hpool : ∀ b q, (∀ w, b ≠ .finish w) → TPool.step s.pool b = some q →
      q.worker = s.pool.worker ∧ q.popped = s.pool.popped ∧ s.pool.queue <+: q.queue :=
    fun b q hb hq => pool_step_running s.pool q b hrunning hb hq
  simp only [system] at hstep
  cases a with
  | accept fd | drop | destroy | endTurn =>
      simp only [step] at hstep
      split at hstep
      · rw [← Option.some.inj hstep]
        exact ⟨rfl, rfl, rfl, List.prefix_rfl⟩
      · exact absurd hstep (by simp only [reduceCtorEq, not_false_eq_true])
  | addJob =>
      simp only [step] at hstep
      split at hstep
      · rename_i c _
        rcases Option.map_eq_some_iff.mp hstep with ⟨q, hq, rfl⟩
        have hsame := hpool (.addJob () c) q (by simp only [ne_eq, reduceCtorEq, not_false_eq_true,
          implies_true]) hq
        exact ⟨hsame.1, rfl, hsame.2⟩
      · exact absurd hstep (by simp only [reduceCtorEq, not_false_eq_true])
  | push =>
      simp only [step] at hstep
      split at hstep
      · rcases Option.map_eq_some_iff.mp hstep with ⟨q, hq, rfl⟩
        have hsame := hpool (.push ()) q (by simp only [ne_eq, reduceCtorEq, not_false_eq_true,
          implies_true]) hq
        exact ⟨hsame.1, rfl, hsame.2⟩
      · exact absurd hstep (by simp only [reduceCtorEq, not_false_eq_true])
  | pop w =>
      rcases hall w with ⟨c, hc, _⟩
      simp only [step] at hstep
      split at hstep
      · simp only [TPool.step, hc, Option.map_none, reduceCtorEq] at hstep
      · exact absurd hstep (by simp only [reduceCtorEq, not_false_eq_true])
  | call w pc =>
      -- It is in `recv_req` or in `send_http_rsp`, which call nothing.
      rcases hall w with ⟨c, hc, hpc, _⟩
      simp only [step, hc, not_calls_of_loops _ hpc pc, Bool.false_eq_true, if_false,
        reduceCtorEq] at hstep
  | leave w pc =>
      rcases hall w with ⟨c, hc, hpc, hsilent⟩
      simp only [wakes, hc, hpc, hsilent, Bool.and_self, Bool.true_eq_false] at hwakes
  | turn w =>
      rcases hall w with ⟨c, hc, hpc, _⟩
      simp only [step, hc, hpc, if_true] at hstep
      rw [← Option.some.inj hstep]
      exact ⟨rfl, rfl, rfl, List.prefix_rfl⟩
  | finish w =>
      rcases hall w with ⟨c, hc, hpc, _⟩
      have hother : s.handler w ≠ .returned := by
        intro hreturned
        rw [hreturned] at hpc
        exact Bool.noConfusion hpc
      simp only [step, hc] at hstep
      split at hstep
      · rename_i hreturned
        exact absurd hreturned hother
      · exact absurd hstep (by simp only [reduceCtorEq, not_false_eq_true])
  | pool b =>
      simp only [step, Option.ite_none_right_eq_some] at hstep
      rcases hstep with ⟨hplain, hmap⟩
      rcases Option.map_eq_some_iff.mp hmap with ⟨q, hq, rfl⟩
      have hsame := hpool b q (fun w heq => by
        rw [heq] at hplain
        exact absurd hplain (by simp only [isPlain, Bool.false_eq_true, not_false_eq_true])) hq
      exact ⟨hsame.1, rfl, hsame.2⟩

/-- **With one in every worker nobody is served any more**: whatever the loop does, and
    whoever else comes, no worker takes a job, and what is in the queue or comes into it
    stays there with its descriptor open. -/
theorem starved [Fintype ω] (silent : Nat → Bool) (s : State ω) (hr : (system ω).Reachable s)
    (hall : ∀ w, HeldUp silent s w) (as : List (Action ω)) (t : State ω)
    (hrun : (muted ω silent).run s as = some t) :
    (∀ w, HeldUp silent t w) ∧ t.pool.popped = s.pool.popped ∧ s.pool.queue <+: t.pool.queue ∧
      ∀ c ∈ t.pool.queue, c ∉ t.conns.destroyed ∧
        ∃ fd, t.conns.resource c = some fd ∧ t.conns.owner fd = some c := by
  induction as generalizing s with
  | nil =>
      rw [← Option.some.inj hrun]
      refine ⟨hall, rfl, List.prefix_rfl, fun c hc => ?_⟩
      -- The queue holds the connection.
      have hkept := reachable_kept hr
      have hpos : held s c ≠ 0 := by
        have hcount := List.count_pos_iff.mpr hc
        unfold held
        omega
      exact ⟨fun hgone => hpos ((hkept.accounted.destroyed_iff c).mp hgone).2,
        hkept.accounted.owns c hpos⟩
  | cons a as ih =>
      rcases System.run_cons _ a as hrun with ⟨s', hone, hrest⟩
      rcases heldUp_step silent s hall a s' hone with ⟨hworker, hhandler, hpopped, hqueue⟩
      have hall' : ∀ w, HeldUp silent s' w := by
        intro w
        rw [HeldUp, hworker, hhandler]
        exact hall w
      have hr' := System.Reachable.step s a s' hr (System.step_of_withhold hone).2
      rcases ih s' hr' hall' hrest with ⟨hlast, hpopped', hqueue', hopen⟩
      exact ⟨hlast, hpopped'.trans hpopped, hqueue.trans hqueue', hopen⟩

/-- The one worker there is has taken the first client. -/
def taken : List (Action Unit) :=
  [.pool (.semWait ()), .pool (.lock ()), .pop (), .pool (.unlock ()), .call () .handling,
    .call () .receiving]

/-- The second client is not served, and neither is the third that comes. -/
theorem starved_second :
    ∃ (s t : State Unit), (system Unit).Reachable s ∧
      (muted Unit firstSilent).run s (turn 7) = some t ∧ t.pool.popped = s.pool.popped ∧
      t.pool.queue = [1, 2] ∧ 1 ∉ t.conns.destroyed ∧ 2 ∉ t.conns.destroyed := by
  have hstart : ((system Unit).run State.fresh (turn 5 ++ taken ++ turn 6)).bind (fun s =>
      ((muted Unit firstSilent).run s (turn 7)).map (fun t =>
        (s.pool.worker (), s.handler (), t.pool.queue)))
      = some (.running 0, .receiving, [1, 2]) := by decide
  rcases Option.bind_eq_some_iff.mp hstart with ⟨s, hrun, hmore⟩
  rcases Option.map_eq_some_iff.mp hmore with ⟨t, hrun', hparts⟩
  simp only [Prod.mk.injEq] at hparts
  rcases hparts with ⟨hworker, hhandler, hqueue⟩
  have hr := System.reachable_of_run _ _ (System.Reachable.init _ rfl) hrun
  have hloops : (s.handler ()).loops = true := by rw [hhandler]; rfl
  rcases starved firstSilent s hr (fun w => ⟨0, hworker, hloops, rfl⟩) (turn 7) t hrun' with
    ⟨_, hpopped, _, hopen⟩
  refine ⟨s, t, hr, hrun', hpopped, hqueue, (hopen 1 ?_).1, (hopen 2 ?_).1⟩
  · rw [hqueue]
    decide
  · rw [hqueue]
    decide

end Connections

end HttpFileSharing
