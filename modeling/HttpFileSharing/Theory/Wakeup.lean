import HttpFileSharing.Core.Semaphore

/-!
# No Lost Wakeup

`notify_one` is issued once per `post`, and the thread it wakes may find the
counter already taken by a thread that barged in ahead of it. The danger is a
sleeper left behind: a positive counter, a waiter asleep, and no notification
on its way. This module rules that out in every reachable state.

The invariant is a credit count. A thread stands for one credit while it is
on its way to take a unit of the counter or to hand out a notification: from
being woken to its decrement in `wait`, and between the increment and the
notification in `post`. As long as somebody sleeps, the counter never exceeds
the credits. Each action is checked against that inequality alone. Going to
sleep needs no credit because it happens only at counter zero, and
`notify_one` with no sleeper needs none because the invariant then says
nothing.

The mutex enters only at the end. When it is free the only credits are the
woken threads, which are runnable, and that is the bound.

## Main definitions

* `Semaphore.Pc.isCredit`: The points at which a thread stands for one unit.
* `Semaphore.Covered`: As long as somebody sleeps, credits cover the counter.
* `Semaphore.Held`: Only the mutex holder stands at a point that holds it.
* `Semaphore.Fires`: What a step can do, one constructor for each way.

## Theorems

* `Semaphore.fires_of_step`: Every enabled action goes one of those ways.
* `Semaphore.covered_move`: Moving one awake thread keeps the counter covered.
* `Semaphore.covered_step`: Every step keeps the counter covered.
* `Semaphore.held_step`: Every step keeps the mutex with its holder.
* `Semaphore.reachable_covered`, `Semaphore.reachable_held`: Both hold in
  every reachable state.
* `Semaphore.no_lost_wakeup`: With the mutex free, enough waiters are
  runnable; otherwise a notification may still be on its way.
-/

namespace HttpFileSharing

namespace Semaphore

variable {τ : Type*} [Fintype τ] [DecidableEq τ]

/-- The points at which a thread stands for one unit of the counter: it will
    take one, or has just added one and owes a notification for it. -/
def Pc.isCredit : Pc → Bool
  | .woken | .waitTest | .waitDec | .postNotify => true
  | _ => false

/-- As long as some thread sleeps, the credits cover the counter. -/
def Covered (s : State τ) : Prop :=
  (∃ t, s.pc t = .asleep) → s.val ≤ countAt Pc.isCredit s.pc

/-- A thread at a point that holds the mutex is the mutex's holder. -/
def Held (s : State τ) : Prop :=
  ∀ t, (s.pc t).holdsMutex = true → s.mutex = some t

/-- What a step can do, one constructor for each way it can go. -/
inductive Fires (s : State τ) : State τ → Prop where
  | callWait (t : τ) (hpc : s.pc t = .out) : Fires s (s.goto t .waitLock)
  | callPost (t : τ) (hpc : s.pc t = .out) : Fires s (s.goto t .postLock)
  | lock (t : τ) (pc : Pc) (hfree : s.mutex = none) (hpc : (s.pc t).locked = some pc) :
      Fires s { s.goto t pc with mutex := some t }
  | sleep (t : τ) (hpc : s.pc t = .waitTest) (hval : s.val = 0) :
      Fires s { s.goto t .asleep with mutex := none }
  | pass (t : τ) (hpc : s.pc t = .waitTest) (hval : s.val ≠ 0) : Fires s (s.goto t .waitDec)
  | spurious (t : τ) (hpc : s.pc t = .asleep) : Fires s (s.goto t .woken)
  | decrement (t : τ) (hpc : s.pc t = .waitDec) :
      Fires s { s.goto t .waitUnlock with val := s.val - 1 }
  | increment (t : τ) (hpc : s.pc t = .postInc) :
      Fires s { s.goto t .postNotify with val := s.val + 1 }
  | wake (t w : τ) (hpc : s.pc t = .postNotify) (hw : s.pc w = .asleep) :
      Fires s ((s.goto w .woken).goto t .postUnlock)
  | noSleeper (t : τ) (hpc : s.pc t = .postNotify) (hnone : ∀ u, s.pc u ≠ .asleep) :
      Fires s (s.goto t .postUnlock)
  | unlock (t : τ) (hpc : s.pc t = .waitUnlock ∨ s.pc t = .postUnlock) :
      Fires s { s.goto t .out with mutex := none }

/-- Every enabled action goes one of those ways. -/
theorem fires_of_step (s : State τ) (a : Action τ) (s' : State τ)
    (hstep : step s a = some s') : Fires s s' := by
  cases a with
  | callWait t =>
      simp only [step, Option.ite_none_right_eq_some, Option.some.injEq] at hstep
      exact hstep.2 ▸ Fires.callWait t hstep.1
  | callPost t =>
      simp only [step, Option.ite_none_right_eq_some, Option.some.injEq] at hstep
      exact hstep.2 ▸ Fires.callPost t hstep.1
  | lock t =>
      simp only [step] at hstep
      split at hstep
      · rename_i pc hfree hlocked
        rw [Option.some.injEq] at hstep
        exact hstep ▸ Fires.lock t pc hfree hlocked
      · exact absurd hstep (by simp only [reduceCtorEq, not_false_eq_true])
  | test t =>
      simp only [step, Option.ite_none_right_eq_some] at hstep
      rcases hstep with ⟨hpc, hstep⟩
      -- The re-test decides between sleeping and going on.
      by_cases hval : s.val = 0
      · rw [if_pos hval, Option.some.injEq] at hstep
        exact hstep ▸ Fires.sleep t hpc hval
      · rw [if_neg hval, Option.some.injEq] at hstep
        exact hstep ▸ Fires.pass t hpc hval
  | spurious t =>
      simp only [step, Option.ite_none_right_eq_some, Option.some.injEq] at hstep
      exact hstep.2 ▸ Fires.spurious t hstep.1
  | decrement t =>
      simp only [step, Option.ite_none_right_eq_some, Option.some.injEq] at hstep
      exact hstep.2 ▸ Fires.decrement t hstep.1
  | increment t =>
      simp only [step, Option.ite_none_right_eq_some, Option.some.injEq] at hstep
      exact hstep.2 ▸ Fires.increment t hstep.1
  | notify t w =>
      simp only [step, Option.ite_none_right_eq_some] at hstep
      rcases hstep with ⟨hpc, hstep⟩
      cases w with
      | none =>
          simp only [Option.ite_none_right_eq_some, Option.some.injEq] at hstep
          exact hstep.2 ▸ Fires.noSleeper t hpc hstep.1
      | some w =>
          simp only [Option.ite_none_right_eq_some, Option.some.injEq] at hstep
          exact hstep.2 ▸ Fires.wake t w hpc hstep.1
  | unlock t =>
      simp only [step, Option.ite_none_right_eq_some, Option.some.injEq] at hstep
      exact hstep.2 ▸ Fires.unlock t hstep.1

/-- Moving thread `t` to an awake point keeps the counter covered if the
    counter grows by no more than the credit `t` gains. -/
theorem covered_move (s s' : State τ) (t : τ) (x : Pc) (hs : Covered s)
    (hpc : s'.pc = Function.update s.pc t x) (hx : x ≠ .asleep)
    (hval : s'.val + (if (s.pc t).isCredit = true then 1 else 0)
      ≤ s.val + (if x.isCredit = true then 1 else 0) ∨ s'.val = 0) : Covered s' := by
  rintro ⟨u, hu⟩
  -- A thread asleep afterwards is not `t`, so it was asleep before.
  have hut : u ≠ t := by
    rintro rfl
    rw [hpc, Function.update_self] at hu
    exact hx hu
  rw [hpc, Function.update_of_ne hut] at hu
  have hcov := hs ⟨u, hu⟩
  have hcount := countAt_update Pc.isCredit s.pc t x
  rw [hpc]
  omega

/-- A point that locks the mutex leads to an awake point of no less credit. -/
theorem locked_credit (pc pc' : Pc) (h : pc.locked = some pc') :
    pc' ≠ .asleep ∧ (if pc.isCredit = true then 1 else 0)
      ≤ (if pc'.isCredit = true then 1 else 0) := by
  revert h
  cases pc <;> simp only [Pc.locked, reduceCtorEq, Option.some.injEq, IsEmpty.forall_iff] <;>
    rintro rfl <;> decide

/-- Every step keeps the counter covered. -/
theorem covered_step (s : State τ) (a : Action τ) (s' : State τ) (hs : Covered s)
    (hstep : step s a = some s') : Covered s' := by
  cases fires_of_step s a s' hstep with
  | callWait t hpc =>
      refine covered_move s _ t .waitLock hs rfl (by decide) (Or.inl ?_)
      simp only [hpc, Pc.isCredit, State.goto, Bool.false_eq_true, if_false, le_refl]
  | callPost t hpc =>
      refine covered_move s _ t .postLock hs rfl (by decide) (Or.inl ?_)
      simp only [hpc, Pc.isCredit, State.goto, Bool.false_eq_true, if_false, le_refl]
  | lock t pc _ hpc =>
      -- Locking loses no credit, and the counter stays.
      rcases locked_credit _ _ hpc with ⟨hawake, hgain⟩
      exact covered_move s _ t pc hs rfl hawake (Or.inl (Nat.add_le_add_left hgain s.val))
  | sleep t hpc hval =>
      -- Going to sleep happens only at counter zero, which is covered.
      intro _
      exact hval ▸ Nat.zero_le _
  | pass t hpc _ =>
      refine covered_move s _ t .waitDec hs rfl (by decide) (Or.inl ?_)
      simp only [hpc, Pc.isCredit, State.goto, if_true, le_refl]
  | spurious t hpc =>
      refine covered_move s _ t .woken hs rfl (by decide) (Or.inl ?_)
      simp only [hpc, Pc.isCredit, State.goto, Bool.false_eq_true, if_false, if_true]
      omega
  | decrement t hpc =>
      refine covered_move s _ t .waitUnlock hs rfl (by decide) ?_
      simp only [hpc, Pc.isCredit, Bool.false_eq_true, if_false, if_true]
      omega
  | increment t hpc =>
      refine covered_move s _ t .postNotify hs rfl (by decide) (Or.inl ?_)
      simp only [hpc, Pc.isCredit, Bool.false_eq_true, if_false, if_true]
      omega
  | wake t w hpc hw =>
      have htw : t ≠ w := by
        rintro rfl
        rw [hpc] at hw
        exact absurd hw (by decide)
      -- The sleeper's new credit replaces the one the poster gives up.
      intro _
      have hcov := hs ⟨w, hw⟩
      have hwake := countAt_update Pc.isCredit s.pc w .woken
      have hpost := countAt_update Pc.isCredit (Function.update s.pc w .woken) t .postUnlock
      rw [Function.update_of_ne htw, hpc] at hpost
      rw [hw] at hwake
      simp only [Pc.isCredit, Bool.false_eq_true, if_false, if_true, Nat.add_zero]
        at hwake hpost
      change s.val ≤ countAt Pc.isCredit
        (Function.update (Function.update s.pc w .woken) t .postUnlock)
      omega
  | noSleeper t hpc hnone =>
      -- Nobody slept and nobody does now, so there is nothing to cover.
      rintro ⟨u, hu⟩
      by_cases hut : u = t
      · rw [hut] at hu
        simp only [State.goto, Function.update_self, reduceCtorEq] at hu
      · simp only [State.goto, Function.update_of_ne hut] at hu
        exact absurd hu (hnone u)
  | unlock t hpc =>
      refine covered_move s _ t .out hs rfl (by decide) (Or.inl ?_)
      rcases hpc with hpc | hpc <;>
        simp only [hpc, Pc.isCredit, State.goto, Bool.false_eq_true, if_false, le_refl]

omit [Fintype τ] in
/-- Moving a thread keeps the mutex with its holder, if the thread is the
    holder wherever its new point says so, and nobody else loses the mutex. -/
theorem held_move (s s' : State τ) (t : τ) (x : Pc) (hs : Held s)
    (hpc : s'.pc = Function.update s.pc t x)
    (hmine : x.holdsMutex = false ∨ s'.mutex = some t)
    (hothers : ∀ u, u ≠ t → s.mutex = some u → s'.mutex = some u) : Held s' := by
  intro u hu
  by_cases hut : u = t
  · rw [hut, hpc, Function.update_self] at hu
    rcases hmine with hmine | hmine
    · rw [hmine] at hu
      exact absurd hu (by decide)
    · exact hut ▸ hmine
  · rw [hpc, Function.update_of_ne hut] at hu
    exact hothers u hut (hs u hu)

/-- Every step keeps the mutex with its holder. -/
theorem held_step (s : State τ) (a : Action τ) (s' : State τ) (hs : Held s)
    (hstep : step s a = some s') : Held s' := by
  -- A thread at a point that holds the mutex is its only holder.
  have hsole : ∀ t pc, s.pc t = pc → pc.holdsMutex = true → ∀ u, u ≠ t → s.mutex = some u →
      ∀ m : Option τ, m = some u := by
    intro t pc hpc ht u hut hu
    rw [hs t (hpc ▸ ht), Option.some.injEq] at hu
    exact absurd hu.symm hut
  cases fires_of_step s a s' hstep with
  | callWait t _ => exact held_move s _ t .waitLock hs rfl (Or.inl rfl) (fun _ _ hu => hu)
  | callPost t _ => exact held_move s _ t .postLock hs rfl (Or.inl rfl) (fun _ _ hu => hu)
  | lock t pc hfree _ =>
      refine held_move s _ t pc hs rfl (Or.inr rfl) (fun u _ hu => ?_)
      -- The mutex was free, so nobody loses it.
      rw [hfree] at hu
      exact absurd hu (by simp only [reduceCtorEq, not_false_eq_true])
  | sleep t hpc _ =>
      exact held_move s _ t .asleep hs rfl (Or.inl rfl)
        (fun u hut hu => hsole t _ hpc rfl u hut hu _)
  | pass t hpc _ =>
      exact held_move s _ t .waitDec hs rfl (Or.inr (hs t (hpc ▸ rfl))) (fun _ _ hu => hu)
  | spurious t _ => exact held_move s _ t .woken hs rfl (Or.inl rfl) (fun _ _ hu => hu)
  | decrement t hpc =>
      exact held_move s _ t .waitUnlock hs rfl (Or.inr (hs t (hpc ▸ rfl))) (fun _ _ hu => hu)
  | increment t hpc =>
      exact held_move s _ t .postNotify hs rfl (Or.inr (hs t (hpc ▸ rfl))) (fun _ _ hu => hu)
  | wake t w hpc _ =>
      have hwoken : Held (s.goto w .woken) :=
        held_move s _ w .woken hs rfl (Or.inl rfl) (fun _ _ hu => hu)
      exact held_move _ _ t .postUnlock hwoken rfl (Or.inr (hs t (hpc ▸ rfl)))
        (fun _ _ hu => hu)
  | noSleeper t hpc _ =>
      exact held_move s _ t .postUnlock hs rfl (Or.inr (hs t (hpc ▸ rfl))) (fun _ _ hu => hu)
  | unlock t hpc =>
      refine held_move s _ t .out hs rfl (Or.inl rfl) (fun u hut hu => ?_)
      rcases hpc with hpc | hpc <;> exact hsole t _ hpc rfl u hut hu _

theorem reachable_covered {s : State τ} (hr : (system τ).Reachable s) : Covered s := by
  refine System.Reachable.invariant Covered (fun s hinit hsleep => ?_) covered_step hr
  rcases hsleep with ⟨t, ht⟩
  rw [hinit.2 t] at ht
  exact absurd ht (by decide)

theorem reachable_held {s : State τ} (hr : (system τ).Reachable s) : Held s := by
  refine System.Reachable.invariant Held (fun s hinit t ht => ?_) held_step hr
  rw [hinit.2 t] at ht
  exact absurd ht (by decide)

omit [DecidableEq τ] in
/-- With the mutex free, every credit is a woken thread. -/
theorem credit_le_runnable (s : State τ) (hs : Held s) (hfree : s.mutex = none) :
    countAt Pc.isCredit s.pc ≤ countAt Pc.isRunnable s.pc := by
  refine countAt_le_of_imp _ _ _ (fun t ht => ?_)
  cases hpc : s.pc t with
  | postNotify =>
      -- The poster would hold the mutex here.
      have hown := hs t (by rw [hpc]; rfl)
      rw [hfree] at hown
      exact absurd hown (by simp only [reduceCtorEq, not_false_eq_true])
  | woken => rfl
  | waitTest => rfl
  | waitDec => rfl
  | out => rw [hpc] at ht; exact absurd ht (by decide)
  | waitLock => rfl
  | asleep => rw [hpc] at ht; exact absurd ht (by decide)
  | waitUnlock => rfl
  | postLock => rw [hpc] at ht; exact absurd ht (by decide)
  | postInc => rw [hpc] at ht; exact absurd ht (by decide)
  | postUnlock => rw [hpc] at ht; exact absurd ht (by decide)

/-- Enough waiters are runnable. With the mutex free, at least as many of the
    threads inside `wait` are not asleep as the counter has units, or all of
    them; so a positive counter never faces only sleepers. While the mutex is
    held the only way to face only sleepers is to have the poster that just
    incremented the counter about to notify. -/
theorem no_lost_wakeup (s : State τ) (hr : (system τ).Reachable s) :
    (s.mutex = none →
      min s.val (countAt Pc.isInside s.pc) ≤ countAt Pc.isRunnable s.pc) ∧
    (s.mutex = none → 0 < s.val → (∃ t, (s.pc t).isInside = true) →
      ∃ t, (s.pc t).isInside = true ∧ s.pc t ≠ .asleep) ∧
    (0 < s.val → (∃ t, (s.pc t).isInside = true) →
      (∀ t, (s.pc t).isInside = true → s.pc t = .asleep) →
      ∃ p, s.mutex = some p ∧ s.pc p = .postNotify) := by
  have hcov := reachable_covered hr
  have hheld := reachable_held hr
  -- A positive counter facing only sleepers has a credit, and only a poster
  -- about to notify can be it.
  have hlate : 0 < s.val → (∃ t, (s.pc t).isInside = true) →
      (∀ t, (s.pc t).isInside = true → s.pc t = .asleep) →
      ∃ p, s.mutex = some p ∧ s.pc p = .postNotify := by
    intro hval hinside hall
    rcases hinside with ⟨t, ht⟩
    have hcredit : countAt Pc.isCredit s.pc ≠ 0 := by
      have := hcov ⟨t, hall t ht⟩
      omega
    rw [Ne, countAt_eq_zero] at hcredit
    push Not at hcredit
    rcases hcredit with ⟨p, hp⟩
    have hpc : s.pc p = .postNotify := by
      have hsleep := hall p
      revert hp hsleep
      cases s.pc p <;> decide
    exact ⟨p, hheld p (hpc ▸ rfl), hpc⟩
  refine ⟨fun hfree => ?_, fun hfree hval hinside => ?_, hlate⟩
  · by_cases hsleep : ∃ t, s.pc t = .asleep
    · have := hcov hsleep
      have := credit_le_runnable s hheld hfree
      omega
    · -- Nobody sleeps, so everybody inside `wait` is runnable.
      push Not at hsleep
      refine le_trans (min_le_right _ _) (countAt_le_of_imp _ _ _ (fun t ht => ?_))
      have := hsleep t
      revert ht this
      cases s.pc t <;> decide
  · by_contra hnone
    push Not at hnone
    rcases hlate hval hinside hnone with ⟨p, hp, _⟩
    rw [hfree] at hp
    exact absurd hp (by simp only [reduceCtorEq, not_false_eq_true])

/-- Thread zero finds the counter at zero and sleeps; thread one posts and
    wakes it. -/
def wakeSchedule : List (Action Bool) :=
  [.callWait false, .lock false, .test false, .callPost true, .lock true, .increment true,
    .notify true (some false), .unlock true]

theorem no_lost_wakeup_schedule :
    ∃ s : State Bool, (system Bool).Reachable s ∧ s.mutex = none ∧ s.val = 1 ∧
      s.pc false = .woken ∧ min s.val (countAt Pc.isInside s.pc) ≤ countAt Pc.isRunnable s.pc := by
  have hstart : (system Bool).Reachable ⟨0, none, fun _ => .out⟩ :=
    System.Reachable.init _ ⟨rfl, fun _ => rfl⟩
  rcases hrun : (system Bool).run ⟨0, none, fun _ => .out⟩ wakeSchedule with _ | s
  · exact absurd hrun (by decide)
  · have hr := System.reachable_of_run _ _ hstart hrun
    have hend : s.mutex = none ∧ s.val = 1 ∧ s.pc false = .woken := by
      have hsome := congrArg (Option.map (fun s => (s.mutex, s.val, s.pc false))) hrun
      rw [show Option.map (fun s => (s.mutex, s.val, s.pc false))
        ((system Bool).run ⟨0, none, fun _ => .out⟩ wakeSchedule)
        = some (none, 1, Pc.woken) by decide] at hsome
      simp only [Option.map_some, Option.some.injEq, Prod.mk.injEq] at hsome
      exact ⟨hsome.1.symm, hsome.2.1.symm, hsome.2.2.symm⟩
    exact ⟨s, hr, hend.1, hend.2.1, hend.2.2, (no_lost_wakeup s hr).1 hend.1⟩

end Semaphore

end HttpFileSharing
