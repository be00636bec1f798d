import Mathlib.Data.Fintype.Card

/-!
# Labelled Transition Systems

The run vocabulary shared by every concurrent part of the development. A
system says where a run may start and what each action does to a state; an
action that is not enabled has no result. `Reachable` is the set of states
some run visits, and `Reachable.invariant` is the one induction over runs:
what holds at the start and is kept by each action holds in every reachable
state.

Three variations. `ReachableWithin` visits states by runs that never leave a
set, for what holds under a bound on the whole run, `ReachableUnder` by runs
whose steps all meet a condition, and `startingAt` begins the runs at a given
state, for what holds of every continuation. `Reachable.simulated` carries the
runs of a system over to one that can follow it, and `Reachable.map` to one of its
parts, where a step of the whole is a step of the part, no step at all, or a new
start.

`run` is the executable side. It performs a list of actions in order, and
`reachable_of_run` turns a schedule that can be evaluated into a
reachability, which is how a concrete interleaving is exhibited.

The second half counts threads. A state of a concurrent program maps each
thread to its program point, and the invariants of counting objects relate a
number to how many threads stand at certain points. `countAt_update` says
what moving one thread does to such a count, and nothing else about finite
sums is needed afterwards.

## Main definitions

* `System`: Where a run may start and what each action does.
* `System.Reachable`: The states some run visits.
* `System.ReachableWithin`: The states visited without leaving a set.
* `System.ReachableUnder`: The states visited by steps under a condition.
* `System.startingAt`: The runs from a state.
* `System.run`: Performing a list of actions.
* `countAt`: How many threads stand at points satisfying a test.

## Theorems

* `System.Reachable.invariant`: What every action keeps holds in every
  reachable state.
* `System.Reachable.simulated`: Runs of a system that another one can follow.
* `System.Reachable.map`: Runs of a part.
* `System.ReachableWithin.within`, `System.ReachableWithin.mono`,
  `System.ReachableWithin.invariant`: The same inside a set.
* `System.ReachableUnder.invariant`: The same under a condition on the steps.
* `System.reachable_of_run`, `System.reachableWithin_of_run`: A schedule that
  runs to an end reaches it.
* `countAt_update`: Moving one thread changes a count at its two points.
* `countAt_le_update`: The same as a bound, where others may leave the count.
* `countAt_pos`: A thread at a counted point makes the count positive.
* `countAt_eq_zero`: A count is zero when no thread is at a counted point.
* `countAt_le_of_imp`: A weaker test counts at least as many threads.
-/

namespace HttpFileSharing

/-- A labelled transition system over states `σ` and actions `α`. -/
structure System (σ α : Type*) where
  /-- Where a run may start. -/
  init : σ → Prop
  /-- What an action does, or `none` where it is not enabled. -/
  step : σ → α → Option σ

namespace System

variable {σ α : Type*}

/-- The states visited by some run. -/
inductive Reachable (S : System σ α) : σ → Prop where
  | init (s : σ) (h : S.init s) : Reachable S s
  | step (s : σ) (a : α) (s' : σ) (hr : Reachable S s) (hs : S.step s a = some s') :
      Reachable S s'

/-- What holds at the start and is kept by every action holds in every
    reachable state. -/
theorem Reachable.invariant {S : System σ α} (I : σ → Prop)
    (hinit : ∀ s, S.init s → I s)
    (hstep : ∀ s a s', I s → S.step s a = some s' → I s')
    {s : σ} (hr : S.Reachable s) : I s := by
  -- On how the state was reached.
  induction hr with
  | init s h => exact hinit s h
  | step s a s' _ hs ih => exact hstep s a s' ih hs

/-- A system that can follow another one, step by step and by any number of its
    own steps, can come to a state related to each one the other reaches. -/
theorem Reachable.simulated {σ' α' : Type*} {S : System σ α} (T : System σ' α')
    (R : σ → σ' → Prop) (hinit : ∀ s, S.init s → ∃ t, T.Reachable t ∧ R s t)
    (hstep : ∀ s a s' t, S.Reachable s → S.step s a = some s' → T.Reachable t → R s t →
      ∃ t', T.Reachable t' ∧ R s' t')
    {s : σ} (hr : S.Reachable s) : ∃ t, T.Reachable t ∧ R s t := by
  induction hr with
  | init s h => exact hinit s h
  | step s a s' hr hs ih =>
      rcases ih with ⟨t, ht, hR⟩
      exact hstep s a s' t hr hs ht hR

/-- A part of a system is in a state it can reach itself, if each step of the
    whole is a step of the part, leaves it alone or starts it anew. -/
theorem Reachable.map {σ' α' : Type*} {S : System σ α} (T : System σ' α') (f : σ → σ')
    (hinit : ∀ s, S.init s → T.init (f s))
    (hstep : ∀ s a s', S.step s a = some s' →
      T.init (f s') ∨ f s' = f s ∨ ∃ b, T.step (f s) b = some (f s'))
    {s : σ} (hr : S.Reachable s) : T.Reachable (f s) := by
  have hsim := hr.simulated T (fun s t => t = f s)
    (fun s h => ⟨f s, Reachable.init (f s) (hinit s h), rfl⟩) (fun s a s' t _ hs ht hR => by
      subst hR
      refine ⟨f s', ?_, rfl⟩
      rcases hstep s a s' hs with hnew | hsame | ⟨b, hb⟩
      · exact Reachable.init (f s') hnew
      · exact hsame ▸ ht
      · exact Reachable.step (f s) b (f s') ht hb)
  rcases hsim with ⟨t, ht, rfl⟩
  exact ht

/-- The states visited by runs that never leave `Q`. -/
inductive ReachableWithin (S : System σ α) (Q : σ → Prop) : σ → Prop where
  | init (s : σ) (h : S.init s) (hq : Q s) : ReachableWithin S Q s
  | step (s : σ) (a : α) (s' : σ) (hr : ReachableWithin S Q s) (hs : S.step s a = some s')
      (hq : Q s') : ReachableWithin S Q s'

theorem ReachableWithin.reachable {S : System σ α} {Q : σ → Prop} {s : σ}
    (hr : S.ReachableWithin Q s) : S.Reachable s := by
  induction hr with
  | init s h _ => exact Reachable.init s h
  | step s a s' _ hs _ ih => exact Reachable.step s a s' ih hs

theorem ReachableWithin.within {S : System σ α} {Q : σ → Prop} {s : σ}
    (hr : S.ReachableWithin Q s) : Q s := by
  cases hr with
  | init _ _ hq => exact hq
  | step _ _ _ _ _ hq => exact hq

theorem ReachableWithin.mono {S : System σ α} {Q R : σ → Prop} (h : ∀ s, Q s → R s) {s : σ}
    (hr : S.ReachableWithin Q s) : S.ReachableWithin R s := by
  induction hr with
  | init s hs hq => exact ReachableWithin.init s hs (h s hq)
  | step s a s' _ hs hq ih => exact ReachableWithin.step s a s' ih hs (h s' hq)

/-- What holds at the start and is kept by every action between reachable
    states of `Q` holds in every state reached inside it. -/
theorem ReachableWithin.invariant {S : System σ α} {Q : σ → Prop} (I : σ → Prop)
    (hinit : ∀ s, S.init s → I s)
    (hstep : ∀ s a s', S.Reachable s → Q s' → I s → S.step s a = some s' → I s')
    {s : σ} (hr : S.ReachableWithin Q s) : I s := by
  induction hr with
  | init s h _ => exact hinit s h
  | step s a s' hr hs hq ih => exact hstep s a s' hr.reachable hq ih hs

/-- The states visited by runs whose steps all meet `C`. -/
inductive ReachableUnder (S : System σ α) (C : σ → α → Prop) : σ → Prop where
  | init (s : σ) (h : S.init s) : ReachableUnder S C s
  | step (s : σ) (a : α) (s' : σ) (hr : ReachableUnder S C s) (hc : C s a)
      (hs : S.step s a = some s') : ReachableUnder S C s'

theorem ReachableUnder.reachable {S : System σ α} {C : σ → α → Prop} {s : σ}
    (hr : S.ReachableUnder C s) : S.Reachable s := by
  induction hr with
  | init s h => exact Reachable.init s h
  | step s a s' _ _ hs ih => exact Reachable.step s a s' ih hs

/-- What holds at the start and is kept by every action that meets `C` holds in
    every state reached by such actions. -/
theorem ReachableUnder.invariant {S : System σ α} {C : σ → α → Prop} (I : σ → Prop)
    (hinit : ∀ s, S.init s → I s)
    (hstep : ∀ s a s', S.Reachable s → C s a → I s → S.step s a = some s' → I s')
    {s : σ} (hr : S.ReachableUnder C s) : I s := by
  induction hr with
  | init s h => exact hinit s h
  | step s a s' hr hc hs ih => exact hstep s a s' hr.reachable hc ih hs

/-- The same system with its runs beginning at `s`. -/
def startingAt (S : System σ α) (s : σ) : System σ α where
  init t := t = s
  step := S.step

theorem Reachable.of_startingAt {S : System σ α} {s t : σ} (hs : S.Reachable s)
    (ht : (S.startingAt s).Reachable t) : S.Reachable t := by
  induction ht with
  | init t h => exact h ▸ hs
  | step t a t' _ ha ih => exact Reachable.step t a t' ih ha

/-- Perform a list of actions, or `none` if one of them is not enabled. -/
def run (S : System σ α) : σ → List α → Option σ
  | s, [] => some s
  | s, a :: as => match S.step s a with
    | none => none
    | some s' => run S s' as

/-- The first action of a list, and the rest of it. -/
theorem run_cons (S : System σ α) (a : α) (as : List α) {s t : σ}
    (h : S.run s (a :: as) = some t) : ∃ s', S.step s a = some s' ∧ S.run s' as = some t := by
  rw [run] at h
  cases hs : S.step s a with
  | none =>
      rw [hs] at h
      exact absurd h (by simp only [reduceCtorEq, not_false_eq_true])
  | some s' =>
      rw [hs] at h
      exact ⟨s', rfl, h⟩

theorem reachable_of_run (S : System σ α) (as : List α) {s t : σ} (hr : S.Reachable s)
    (h : S.run s as = some t) : S.Reachable t := by
  induction as generalizing s with
  | nil =>
      simp only [run, Option.some.injEq] at h
      exact h ▸ hr
  | cons a as ih =>
      rcases run_cons S a as h with ⟨s', hs, hrest⟩
      exact ih (Reachable.step s a s' hr hs) hrest

/-- Perform a list of actions without leaving `Q`. -/
def runWithin (S : System σ α) (Q : σ → Bool) : σ → List α → Option σ
  | s, [] => some s
  | s, a :: as => match S.step s a with
    | none => none
    | some s' => if Q s' = true then runWithin S Q s' as else none

theorem reachableWithin_of_run (S : System σ α) (Q : σ → Bool) (as : List α) {s t : σ}
    (hr : S.ReachableWithin (fun u => Q u = true) s) (h : S.runWithin Q s as = some t) :
    S.ReachableWithin (fun u => Q u = true) t := by
  induction as generalizing s with
  | nil =>
      simp only [runWithin, Option.some.injEq] at h
      exact h ▸ hr
  | cons a as ih =>
      simp only [runWithin] at h
      cases hs : S.step s a with
      | none =>
          rw [hs] at h
          exact absurd h (by simp only [reduceCtorEq, not_false_eq_true])
      | some s' =>
          rw [hs] at h
          simp only [Option.ite_none_right_eq_some] at h
          exact ih (ReachableWithin.step s a s' hr hs h.1) h.2

end System

section Count

variable {ι κ : Type*} [Fintype ι]

/-- How many threads stand at a program point that passes the test. -/
def countAt (p : κ → Bool) (f : ι → κ) : Nat :=
  (Finset.univ.filter (fun i => p (f i) = true)).card

/-- Moving thread `i` to point `x` removes it from the count where it was and
    adds it where it goes. -/
theorem countAt_update [DecidableEq ι] (p : κ → Bool) (f : ι → κ) (i : ι) (x : κ) :
    countAt p (Function.update f i x) + (if p (f i) = true then 1 else 0)
      = countAt p f + (if p x = true then 1 else 0) := by
  -- Away from `i` the two filters agree; split both counts at `i`.
  have hsplit : ∀ g : ι → κ, countAt p g
      = ((Finset.univ.erase i).filter (fun j => p (g j) = true)).card
        + (if p (g i) = true then 1 else 0) := by
    intro g
    rw [countAt, ← Finset.insert_erase (Finset.mem_univ i), Finset.filter_insert]
    by_cases hp : p (g i) = true
    · rw [if_pos hp, if_pos hp, Finset.card_insert_of_notMem (by simp), Finset.erase_insert
        (Finset.notMem_erase i _)]
    · rw [if_neg hp, if_neg hp, Finset.erase_insert (Finset.notMem_erase i _), Nat.add_zero]
  have hrest : ((Finset.univ.erase i).filter (fun j => p (Function.update f i x j) = true))
      = ((Finset.univ.erase i).filter (fun j => p (f j) = true)) := by
    refine Finset.filter_congr (fun j hj => ?_)
    rw [Function.update_of_ne (Finset.ne_of_mem_erase hj)]
  rw [hsplit (Function.update f i x), hsplit f, hrest, Function.update_self]
  omega

/-- If the threads other than `i` at counted points were so before, the count
    changes by at most the two points of `i`. -/
theorem countAt_le_update [DecidableEq ι] (p : κ → Bool) (f g : ι → κ) (i : ι)
    (h : ∀ j, j ≠ i → p (g j) = true → p (f j) = true) :
    countAt p g + (if p (f i) = true then 1 else 0)
      ≤ countAt p f + (if p (g i) = true then 1 else 0) := by
  rw [← countAt_update p f i (g i)]
  refine Nat.add_le_add_right (Finset.card_le_card (fun j hj => ?_)) _
  rw [Finset.mem_filter] at hj ⊢
  refine ⟨hj.1, ?_⟩
  by_cases hji : j = i
  · rw [hji, Function.update_self]
    exact hji ▸ hj.2
  · rw [Function.update_of_ne hji]
    exact h j hji hj.2

theorem countAt_pos (p : κ → Bool) (f : ι → κ) (i : ι) (h : p (f i) = true) :
    0 < countAt p f :=
  Finset.card_pos.mpr ⟨i, Finset.mem_filter.mpr ⟨Finset.mem_univ i, h⟩⟩

theorem countAt_eq_zero (p : κ → Bool) (f : ι → κ) :
    countAt p f = 0 ↔ ∀ i, p (f i) = false := by
  simp only [countAt, Finset.card_eq_zero, Finset.filter_eq_empty_iff, Finset.mem_univ,
    forall_const, Bool.not_eq_true]

theorem countAt_le_of_imp (p q : κ → Bool) (f : ι → κ)
    (h : ∀ i, p (f i) = true → q (f i) = true) : countAt p f ≤ countAt q f :=
  Finset.card_le_card (Finset.monotone_filter_right _ (fun i _ hi => h i hi))

end Count

end HttpFileSharing
