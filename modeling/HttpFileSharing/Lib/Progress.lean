import HttpFileSharing.Lib.System
import Mathlib.Algebra.Order.BigOperators.Group.Finset

/-!
# Runs that End

When a system comes to rest. Some of its actions, those that meet a condition,
each lower a measure; the others come from outside. A run of such actions is
then no longer than the measure of the state it starts from, and any reachable
state has one that goes on until none of them is enabled. What the system looks
like there is a question about single states.

Some steps may never come, such as those that wait for somebody outside. With them
withheld the others lower the measure as before, and the system comes to rest
sooner.

The measure of a concurrent program is a sum over its threads, of which a step
changes one term or two. `total_change` is what one change does to the sum.

## Main definitions

* `System.Lowers`: Actions that lower a measure.
* `System.Resting`: No action of a kind is enabled.
* `System.withhold`: A system without some of its steps.
* `total`: A sum over the threads.

## Theorems

* `System.Lowers.countP_le`: No more steps of a run lower the measure than it falls.
* `System.Lowers.length_le`: A run is no longer than the measure falls.
* `System.Lowers.exists_resting`: There is a run to a state of rest.
* `System.Lowers.withhold`: The measure still falls where steps are withheld.
* `total_change`: Changing one term of a sum.
* `le_total`: A term is no more than the sum.
* `total_le`: A bound on each term.
-/

namespace HttpFileSharing

namespace System

variable {σ α : Type*}

/-- From reachable states, the actions that meet `C` lower the measure `m`. -/
def Lowers (S : System σ α) (C : α → Prop) (m : σ → Nat) : Prop :=
  ∀ s a s', S.Reachable s → C a → S.step s a = some s' → m s' < m s

/-- No action that meets `C` is enabled. -/
def Resting (S : System σ α) (C : α → Prop) (s : σ) : Prop := ∀ a, C a → S.step s a = none

/-- Along a run of actions that never raise the measure, it falls by at least the
    number of those that lower it. -/
theorem Lowers.countP_le {S : System σ α} {C : α → Prop} {p : α → Bool} {m : σ → Nat}
    (h : S.Lowers (fun a => C a ∧ p a = true) m)
    (hstay : ∀ s a s', S.Reachable s → C a → p a = false → S.step s a = some s' → m s' ≤ m s)
    (as : List α) (has : ∀ a ∈ as, C a) {s t : σ} (hr : S.Reachable s)
    (hrun : S.run s as = some t) : as.countP p + m t ≤ m s := by
  induction as generalizing s with
  | nil =>
      rw [run, Option.some.injEq] at hrun
      rw [hrun, List.countP_nil, Nat.zero_add]
  | cons a as ih =>
      rcases run_cons S a as hrun with ⟨s', hs, hlater⟩
      have hrest := ih (fun b hb => has b (List.mem_cons_of_mem a hb))
        (Reachable.step s a s' hr hs) hlater
      cases hp : p a with
      | true =>
          have hone := h s a s' hr ⟨has a List.mem_cons_self, hp⟩ hs
          rw [List.countP_cons_of_pos hp]
          omega
      | false =>
          have hone := hstay s a s' hr (has a List.mem_cons_self) hp hs
          rw [List.countP_cons_of_neg (by rw [hp]; exact Bool.false_ne_true)]
          omega

/-- Along a run the measure falls by at least the number of steps. -/
theorem Lowers.length_le {S : System σ α} {C : α → Prop} {m : σ → Nat} (h : S.Lowers C m)
    (as : List α) (has : ∀ a ∈ as, C a) {s t : σ} (hr : S.Reachable s)
    (hrun : S.run s as = some t) : as.length + m t ≤ m s := by
  have hcount := Lowers.countP_le (p := fun _ => true)
    (fun s a s' hr ha hs => h s a s' hr ha.1 hs)
    (fun s a s' _ _ hp _ => absurd hp Bool.noConfusion) as has hr hrun
  rwa [List.countP_true] at hcount

/-- Every reachable state has a run of such actions to a state where none of them
    is enabled. -/
theorem Lowers.exists_resting {S : System σ α} {C : α → Prop} {m : σ → Nat} (h : S.Lowers C m)
    {s : σ} (hr : S.Reachable s) :
    ∃ as t, (∀ a ∈ as, C a) ∧ S.run s as = some t ∧ S.Resting C t := by
  -- On the measure of the state the run starts from.
  induction hm : m s using Nat.strong_induction_on generalizing s with
  | _ n ih =>
      by_cases hrest : S.Resting C s
      · exact ⟨[], s, fun a ha => absurd ha List.not_mem_nil, rfl, hrest⟩
      · unfold Resting at hrest
        push Not at hrest
        rcases hrest with ⟨a, ha, hs⟩
        rcases Option.ne_none_iff_exists'.mp hs with ⟨s', hs⟩
        have hlow := h s a s' hr ha hs
        rcases ih (m s') (by omega) (Reachable.step s a s' hr hs) rfl with
          ⟨as, t, has, hrun, hrest⟩
        refine ⟨a :: as, t, List.forall_mem_cons.mpr ⟨ha, has⟩, ?_, hrest⟩
        rw [run, hs]
        exact hrun

/-- The system from any state it can reach, without the steps that `b` names. -/
def withhold (S : System σ α) (b : σ → α → Bool) : System σ α where
  init := S.Reachable
  step s a := if b s a = true then none else S.step s a

variable {S : System σ α} {b : σ → α → Bool}

/-- A step that is not withheld. -/
theorem step_of_withhold {s s' : σ} {a : α} (h : (S.withhold b).step s a = some s') :
    b s a = false ∧ S.step s a = some s' := by
  have hsome : (if b s a = true then none else S.step s a) = some s' := h
  rw [Option.ite_none_left_eq_some] at hsome
  exact ⟨Bool.eq_false_iff.mpr hsome.1, hsome.2⟩

theorem reachable_of_withhold {s : σ} (h : (S.withhold b).Reachable s) : S.Reachable s := by
  induction h with
  | init s hinit => exact hinit
  | step s a s' _ hstep ih => exact Reachable.step s a s' ih (step_of_withhold hstep).2

/-- The measure still falls. -/
theorem Lowers.withhold {C : α → Prop} {m : σ → Nat} (h : S.Lowers C m) :
    (S.withhold b).Lowers C m :=
  fun s a s' hr ha hstep => h s a s' (reachable_of_withhold hr) ha (step_of_withhold hstep).2

/-- Where the rest is at rest, what is enabled was withheld. -/
theorem Resting.stuck {C : α → Prop} {s : σ} (h : (S.withhold b).Resting C s) (a : α) (ha : C a)
    (hb : b s a = false) : S.step s a = none := by
  have hnone : (if b s a = true then none else S.step s a) = none := h a ha
  rwa [hb, if_neg Bool.false_ne_true] at hnone

end System

section Total

variable {ι : Type*} [Fintype ι]

/-- A sum over the threads. -/
def total (f : ι → Nat) : Nat := ∑ i, f i

/-- Changing one term of a sum. -/
theorem total_change [DecidableEq ι] (f g : ι → Nat) (i : ι) (h : ∀ j, j ≠ i → g j = f j) :
    total g + f i = total f + g i := by
  have hrest : ∑ j ∈ Finset.univ.erase i, g j = ∑ j ∈ Finset.univ.erase i, f j :=
    Finset.sum_congr rfl (fun j hj => h j (Finset.ne_of_mem_erase hj))
  have hf := Finset.add_sum_erase Finset.univ f (Finset.mem_univ i)
  have hg := Finset.add_sum_erase Finset.univ g (Finset.mem_univ i)
  rw [total, total]
  omega

/-- A term is no more than the sum. -/
theorem le_total (f : ι → Nat) (i : ι) : f i ≤ total f :=
  Finset.single_le_sum (fun _ _ => Nat.zero_le _) (Finset.mem_univ i)

/-- A bound on each term. -/
theorem total_le (f : ι → Nat) (b : Nat) (h : ∀ i, f i ≤ b) : total f ≤ Fintype.card ι * b :=
  Finset.sum_le_card_nsmul _ _ _ (fun i _ => h i)

end Total

end HttpFileSharing
