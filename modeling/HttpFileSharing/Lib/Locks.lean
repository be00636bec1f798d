import HttpFileSharing.Lib.System
import Mathlib.Order.WellFounded

/-!
# Threads and Locks

Threads that run programs of lock operations, and when they wait for each
other in a circle.

A program says which locks a thread takes and gives back, one after the other,
and where what happens next depends on something else. A lock can be held
shared, by any number of threads, or exclusively by one. Taking it is enabled
when nobody holds it in a mode that conflicts.

Two rules. `reachable_always` is about what a thread holds: what is true at each
point of each program, run by itself, is true of each thread in any
interleaving. `Deadlocked.exists_inversion` is about the circle: for any ranking
of the locks somebody in it waits for a lock while holding one that is not
ranked below. Programs that take locks upwards only never come to that, which is
`not_deadlocked_of_ascends`.

## Main definitions

* `Locks.Mode`, `Locks.Prog`: The modes of a lock and the programs.
* `Locks.State`, `Locks.step`, `Locks.system`: Threads that call programs.
* `Locks.take`, `Locks.giveBack`, `Locks.held`: The holders of the locks.
* `Locks.Always`: A fact about each point of a program.
* `Locks.WaitsFor`, `Locks.Deadlocked`: Waiting for each other in a circle.
* `Locks.Ascends`: A point at which a thread only asks for locks ranked above
  those it holds.
* `Locks.Leads`: What a program comes to by choices alone.

## Theorems

* `Locks.fires_of_step`, `Locks.Fires.prog_self`, `Locks.Fires.prog_other`: What a
  step does to the threads.
* `Locks.reachable_always`, `Locks.Always.here`: What a thread holds.
* `Locks.Deadlocked.exists_inversion`: What a circle comes from.
* `Locks.not_deadlocked_of_ascends`: Taking locks upwards.
* `Locks.reachable_leads`: A thread that only makes choices.
-/

namespace HttpFileSharing

namespace Locks

/-- How a lock is held. -/
inductive Mode where
  | shared
  | exclusive
  deriving DecidableEq, Repr

/-- Two threads cannot hold a lock in these modes. -/
def Mode.conflicts : Mode → Mode → Bool
  | .shared, .shared => false
  | _, _ => true

/-- What a thread does with locks. A thread at `done` has returned, and one at
    `stop` never goes on. -/
inductive Prog (L : Type*) where
  | done
  | stop
  | acquire (l : L) (m : Mode) (next : Prog L)
  | release (l : L) (next : Prog L)
  | choose (left right : Prog L)
  deriving DecidableEq

/-- The threads `τ`, each with what it still has to do, and the locks `L`, each
    with its holders. -/
structure State (τ L : Type*) where
  prog : τ → Prog L
  holders : L → List (τ × Mode)

/-- One step: a call of program `i`, or one operation of a thread. -/
inductive Action (τ ι : Type*) where
  | call (t : τ) (i : ι)
  | acquire (t : τ)
  | release (t : τ)
  | choose (t : τ) (left : Bool)

/-- The lock a thread asks for next. -/
def Prog.wants {L : Type*} : Prog L → Option (L × Mode)
  | .acquire l m _ => some (l, m)
  | _ => none

/-- What a thread can come to in one step. -/
def Prog.nexts {L : Type*} : Prog L → List (Prog L)
  | .done | .stop => []
  | .acquire _ _ next => [next]
  | .release _ next => [next]
  | .choose left right => [left, right]

variable {τ L ι : Type*} [DecidableEq τ] [DecidableEq L]

/-- Thread `t` takes a lock. -/
def take (holders : L → List (τ × Mode)) (t : τ) (l : L) (m : Mode) : L → List (τ × Mode) :=
  Function.update holders l ((t, m) :: holders l)

/-- Thread `t` gives a lock back. -/
def giveBack (holders : L → List (τ × Mode)) (t : τ) (l : L) : L → List (τ × Mode) :=
  Function.update holders l ((holders l).filter (fun h => h.1 ≠ t))

/-- What a thread holds. -/
def held (holders : L → List (τ × Mode)) (t : τ) : L → Option Mode := fun l => (holders l).lookup t

/-- Thread `t` goes on to `p`. -/
def State.goto (s : State τ L) (t : τ) (p : Prog L) : State τ L :=
  { s with prog := Function.update s.prog t p }

omit [DecidableEq L] in
theorem State.goto_self (s : State τ L) (t : τ) (p : Prog L) : (s.goto t p).prog t = p := by
  simp only [State.goto, Function.update_self]

omit [DecidableEq L] in
theorem State.goto_other (s : State τ L) (t : τ) (p : Prog L) (u : τ) (hu : u ≠ t) :
    (s.goto t p).prog u = s.prog u := by
  simp only [State.goto, Function.update_of_ne hu]

/-- One step of the threads, where `entry` gives the programs. -/
def step (entry : ι → Prog L) (s : State τ L) : Action τ ι → Option (State τ L)
  | .call t i => match s.prog t with
    | .done => some (s.goto t (entry i))
    | _ => none
  | .acquire t => match s.prog t with
    | .acquire l m next =>
      if ∀ h ∈ s.holders l, m.conflicts h.2 = false then
        some { s.goto t next with holders := take s.holders t l m }
      else none
    | _ => none
  | .release t => match s.prog t with
    | .release l next => some { s.goto t next with holders := giveBack s.holders t l }
    | _ => none
  | .choose t left => match s.prog t with
    | .choose p q => some (s.goto t (if left = true then p else q))
    | _ => none

/-- No thread runs and no lock is held. -/
def State.start : State τ L := ⟨fun _ => .done, fun _ => []⟩

/-- Any number of threads, each calling one program after another. -/
def system (τ : Type*) [DecidableEq τ] (entry : ι → Prog L) :
    System (State τ L) (Action τ ι) where
  init s := s = State.start
  step := step entry

/-- A thread asks for a lock that another one holds. -/
def WaitsFor (s : State τ L) (t u : τ) : Prop :=
  u ≠ t ∧ ∃ l m m', (s.prog t).wants = some (l, m) ∧ held s.holders u l = some m' ∧
    m.conflicts m' = true

/-- Threads each of which waits for another one of them. -/
def Deadlocked (s : State τ L) (S : Set τ) : Prop :=
  S.Nonempty ∧ ∀ t ∈ S, ∃ u ∈ S, WaitsFor s t u

/-- `P` holds at each point of a program that begins with `held`. -/
def Always (P : (L → Option Mode) → Prog L → Prop) (held : L → Option Mode) : Prog L → Prop
  | .done => P held .done
  | .stop => P held .stop
  | .acquire l m next =>
    P held (.acquire l m next) ∧ Always P (Function.update held l (some m)) next
  | .release l next => P held (.release l next) ∧ Always P (Function.update held l none) next
  | .choose p q => P held (.choose p q) ∧ Always P held p ∧ Always P held q

/-- Whether something holds at each point can be decided by going through them. -/
instance Always.decidable (P : (L → Option Mode) → Prog L → Prop)
    [hP : ∀ held p, Decidable (P held p)] : ∀ held p, Decidable (Always P held p)
  | held, .done => hP held .done
  | held, .stop => hP held .stop
  | held, .acquire l m next =>
    have := Always.decidable P (Function.update held l (some m)) next
    inferInstanceAs (Decidable (P held (.acquire l m next) ∧ _))
  | held, .release l next =>
    have := Always.decidable P (Function.update held l none) next
    inferInstanceAs (Decidable (P held (.release l next) ∧ _))
  | held, .choose p q =>
    have := Always.decidable P held p
    have := Always.decidable P held q
    inferInstanceAs (Decidable (P held (.choose p q) ∧ _ ∧ _))

theorem Always.here {P : (L → Option Mode) → Prog L → Prop} {held : L → Option Mode} {p : Prog L}
    (h : Always P held p) : P held p := by
  cases p with
  | done => exact h
  | stop => exact h
  | acquire l m next => exact h.1
  | release l next => exact h.1
  | choose p q => exact h.1

section Held

variable (holders : L → List (τ × Mode)) (t u : τ) (l : L)

omit [DecidableEq τ] in
theorem take_self (m : Mode) : take holders t l m l = (t, m) :: holders l :=
  Function.update_self _ _ _

omit [DecidableEq τ] in
theorem take_of_ne (m : Mode) (l' : L) (hl : l' ≠ l) : take holders t l m l' = holders l' :=
  Function.update_of_ne hl _ _

theorem giveBack_self :
    giveBack holders t l l = (holders l).filter (fun h => h.1 ≠ t) :=
  Function.update_self _ _ _

theorem giveBack_of_ne (l' : L) (hl : l' ≠ l) : giveBack holders t l l' = holders l' :=
  Function.update_of_ne hl _ _

theorem held_take_self (m : Mode) :
    held (take holders t l m) t = Function.update (held holders t) l (some m) := by
  funext l'
  by_cases hl : l' = l
  · rw [hl, Function.update_self, held, take_self, List.lookup_cons_self]
  · rw [Function.update_of_ne hl, held, take_of_ne _ _ _ _ l' hl]
    rfl

theorem held_take_other (hu : u ≠ t) (m : Mode) :
    held (take holders t l m) u = held holders u := by
  funext l'
  by_cases hl : l' = l
  · rw [hl, held, take_self, List.lookup_cons, beq_eq_false_iff_ne.mpr hu]
    rfl
  · rw [held, take_of_ne _ _ _ _ l' hl]
    rfl

theorem lookup_filter_self (hs : List (τ × Mode)) :
    (hs.filter (fun h => h.1 ≠ t)).lookup t = none := by
  refine List.lookup_eq_none_iff.mpr (fun h hmem => ?_)
  have hne : h.1 ≠ t := of_decide_eq_true (List.mem_filter.mp hmem).2
  exact bne_iff_ne.mpr hne.symm

theorem lookup_filter_other (hs : List (τ × Mode)) (hu : u ≠ t) :
    (hs.filter (fun h => h.1 ≠ t)).lookup u = hs.lookup u := by
  induction hs with
  | nil => rfl
  | cons h hs ih =>
      by_cases ht : h.1 = t
      · have hut : (u == h.1) = false := beq_eq_false_iff_ne.mpr (ht ▸ hu)
        rw [List.filter_cons_of_neg (by simp only [ht, ne_eq, not_true, decide_false,
          Bool.false_eq_true, not_false_eq_true]), ih, List.lookup_cons, hut]
      · rw [List.filter_cons_of_pos (by simp only [ht, ne_eq, not_false_eq_true, decide_true]),
          List.lookup_cons, List.lookup_cons, ih]

theorem held_giveBack_self :
    held (giveBack holders t l) t = Function.update (held holders t) l none := by
  funext l'
  by_cases hl : l' = l
  · rw [hl, Function.update_self, held, giveBack_self, lookup_filter_self]
  · rw [Function.update_of_ne hl, held, giveBack_of_ne _ _ _ l' hl]
    rfl

theorem held_giveBack_other (hu : u ≠ t) : held (giveBack holders t l) u = held holders u := by
  funext l'
  by_cases hl : l' = l
  · rw [hl, held, giveBack_self, lookup_filter_other t u _ hu]
    rfl
  · rw [held, giveBack_of_ne _ _ _ l' hl]
    rfl

/-- Taking a lock and giving it back leaves the others who hold it. -/
theorem giveBack_take (m : Mode) (hnot : ∀ h ∈ holders l, h.1 ≠ t) :
    giveBack (take holders t l m) t l = holders := by
  have hrest : (holders l).filter (fun h => h.1 ≠ t) = holders l :=
    List.filter_eq_self.mpr (fun h hmem => decide_eq_true (hnot h hmem))
  rw [giveBack, take, Function.update_self, Function.update_idem,
    List.filter_cons_of_neg (by simp only [ne_eq, not_true, decide_false, Bool.false_eq_true,
      not_false_eq_true]), hrest, Function.update_eq_self]

end Held

section Step

variable {entry : ι → Prog L}

section Forward

variable {s : State τ L}

theorem reachable_call (hr : (system τ entry).Reachable s) (t : τ) (i : ι)
    (hprog : s.prog t = .done) :
    (system τ entry).Reachable (s.goto t (entry i)) := by
  refine System.Reachable.step s (.call t i) _ hr ?_
  simp only [system, step, hprog]

theorem reachable_acquire (hr : (system τ entry).Reachable s) (t : τ) (l : L) (m : Mode)
    (next : Prog L) (hprog : s.prog t = .acquire l m next)
    (hfree : ∀ h ∈ s.holders l, m.conflicts h.2 = false) :
    (system τ entry).Reachable { s.goto t next with holders := take s.holders t l m } := by
  refine System.Reachable.step s (.acquire t) _ hr ?_
  simp only [system, step, hprog]
  exact if_pos hfree

theorem reachable_release (hr : (system τ entry).Reachable s) (t : τ) (l : L) (next : Prog L)
    (hprog : s.prog t = .release l next) :
    (system τ entry).Reachable { s.goto t next with holders := giveBack s.holders t l } := by
  refine System.Reachable.step s (.release t) _ hr ?_
  simp only [system, step, hprog]

end Forward

/-- What one step of the threads can do, one constructor for each way. -/
inductive Fires (entry : ι → Prog L) (s : State τ L) : Action τ ι → State τ L → Prop where
  | call (t : τ) (i : ι) (hprog : s.prog t = .done) :
      Fires entry s (.call t i) (s.goto t (entry i))
  | acquire (t : τ) (l : L) (m : Mode) (next : Prog L) (hprog : s.prog t = .acquire l m next)
      (hfree : ∀ h ∈ s.holders l, m.conflicts h.2 = false) :
      Fires entry s (.acquire t) { s.goto t next with holders := take s.holders t l m }
  | release (t : τ) (l : L) (next : Prog L) (hprog : s.prog t = .release l next) :
      Fires entry s (.release t) { s.goto t next with holders := giveBack s.holders t l }
  | choose (t : τ) (left : Bool) (p q : Prog L) (hprog : s.prog t = .choose p q) :
      Fires entry s (.choose t left) (s.goto t (if left = true then p else q))

/-- Every step goes one of those ways. -/
theorem fires_of_step (s : State τ L) (a : Action τ ι) (s' : State τ L)
    (h : step entry s a = some s') : Fires entry s a s' := by
  cases a with
  | call t i =>
      simp only [step] at h
      split at h
      · rename_i hprog
        exact Option.some.inj h ▸ Fires.call t i hprog
      · exact absurd h (by simp only [reduceCtorEq, not_false_eq_true])
  | acquire t =>
      simp only [step] at h
      split at h
      · rename_i l m next hprog
        rw [Option.ite_none_right_eq_some] at h
        exact Option.some.inj h.2 ▸ Fires.acquire t l m next hprog h.1
      · exact absurd h (by simp only [reduceCtorEq, not_false_eq_true])
  | release t =>
      simp only [step] at h
      split at h
      · rename_i l next hprog
        exact Option.some.inj h ▸ Fires.release t l next hprog
      · exact absurd h (by simp only [reduceCtorEq, not_false_eq_true])
  | choose t left =>
      simp only [step] at h
      split at h
      · rename_i p q hprog
        exact Option.some.inj h ▸ Fires.choose t left p q hprog
      · exact absurd h (by simp only [reduceCtorEq, not_false_eq_true])

/-- The thread an action is of. -/
def Action.thread {τ ι : Type*} : Action τ ι → τ
  | .call t _ | .acquire t | .release t | .choose t _ => t

/-- The other threads stay where they are. -/
theorem Fires.prog_other {s : State τ L} {a : Action τ ι} {s' : State τ L}
    (h : Fires entry s a s') (u : τ) (hu : u ≠ a.thread) : s'.prog u = s.prog u := by
  cases h with
  | call t i _ => exact s.goto_other t _ u hu
  | acquire t l m next _ _ => exact s.goto_other t _ u hu
  | release t l next _ => exact s.goto_other t _ u hu
  | choose t left p q _ => exact s.goto_other t _ u hu

/-- The thread itself goes on to what can come next, or begins a program. -/
theorem Fires.prog_self {s : State τ L} {a : Action τ ι} {s' : State τ L}
    (h : Fires entry s a s') :
    (∃ i, s.prog a.thread = .done ∧ s'.prog a.thread = entry i) ∨
      s'.prog a.thread ∈ (s.prog a.thread).nexts := by
  cases h with
  | call t i hprog => exact Or.inl ⟨i, hprog, s.goto_self t _⟩
  | acquire t l m next hprog _ =>
      refine Or.inr ?_
      rw [show Action.thread (.acquire t : Action τ ι) = t from rfl, hprog]
      exact List.mem_singleton.mpr (s.goto_self t next)
  | release t l next hprog =>
      refine Or.inr ?_
      rw [show Action.thread (.release t : Action τ ι) = t from rfl, hprog]
      exact List.mem_singleton.mpr (s.goto_self t next)
  | choose t left p q hprog =>
      refine Or.inr ?_
      rw [show Action.thread (.choose t left : Action τ ι) = t from rfl, hprog, s.goto_self t]
      cases left with
      | true => exact List.mem_cons_self
      | false => exact List.mem_cons_of_mem p List.mem_cons_self

/-- A thread that asks for a lock has it after its next step. -/
theorem Fires.prog_acquire {s : State τ L} {a : Action τ ι} {s' : State τ L}
    (h : Fires entry s a s') (l : L) (m : Mode) (next : Prog L)
    (hprog : s.prog a.thread = .acquire l m next) : s'.prog a.thread = next := by
  rcases h.prog_self with ⟨i, hdone, _⟩ | hnext
  · exact absurd (hprog.symm.trans hdone) (by simp only [reduceCtorEq, not_false_eq_true])
  · rw [hprog] at hnext
    exact List.mem_singleton.mp hnext

/-- The rule for what a thread holds: what is true at each point of each program,
    run by itself, stays true of each thread. A program has to give back what it
    has taken. -/
theorem reachable_always (P : (L → Option Mode) → Prog L → Prop)
    (hstart : P (fun _ => none) .done)
    (hentry : ∀ i, Always P (fun _ => none) (entry i))
    (hdone : ∀ h, P h .done → h = fun _ => none)
    {s : State τ L} (hr : (system τ entry).Reachable s) (t : τ) :
    Always P (held s.holders t) (s.prog t) := by
  revert t
  refine hr.invariant (fun s => ∀ t, Always P (held s.holders t) (s.prog t))
    (fun s h t => ?_) (fun s a s' hall h t => ?_)
  · rw [show s = State.start from h]
    exact hstart
  · have hfires : Fires entry s a s' := fires_of_step s a s' h
    cases hfires with
    | call x i hprog =>
        have hx := hall x
        rw [hprog] at hx
        by_cases ht : t = x
        · rw [ht, s.goto_self x, show held (s.goto x (entry i)).holders x = _ from hdone _ hx]
          exact hentry i
        · rw [s.goto_other x _ t ht]
          exact hall t
    | acquire x l m next hprog hfree =>
        have hx := hall x
        rw [hprog] at hx
        simp only [State.goto]
        by_cases ht : t = x
        · rw [ht, Function.update_self, held_take_self]
          exact hx.2
        · rw [Function.update_of_ne ht, held_take_other _ _ _ _ ht]
          exact hall t
    | release x l next hprog =>
        have hx := hall x
        rw [hprog] at hx
        simp only [State.goto]
        by_cases ht : t = x
        · rw [ht, Function.update_self, held_giveBack_self]
          exact hx.2
        · rw [Function.update_of_ne ht, held_giveBack_other _ _ _ _ ht]
          exact hall t
    | choose x left p q hprog =>
        have hx := hall x
        rw [hprog] at hx
        simp only [State.goto]
        by_cases ht : t = x
        · rw [ht, Function.update_self]
          cases left with
          | true => exact hx.2.1
          | false => exact hx.2.2
        · rw [Function.update_of_ne ht]
          exact hall t

end Step

section Deadlock

variable {κ : Type*} [LinearOrder κ] [WellFoundedGT κ]

omit [DecidableEq L] in
/-- In a circle of waiting threads somebody asks for a lock and holds one that
    is not ranked below it. -/
theorem Deadlocked.exists_inversion (rank : L → κ) {s : State τ L} {S : Set τ}
    (h : Deadlocked s S) :
    ∃ t ∈ S, ∃ l m l' m', (s.prog t).wants = some (l, m) ∧ held s.holders t l' = some m' ∧
      rank l ≤ rank l' := by
  -- From a thread that asks for a lock to the one that holds it, who asks for one
  -- ranked higher; this comes to an end.
  have hup : ∀ k, ∀ t ∈ S, ∀ l m, (s.prog t).wants = some (l, m) → rank l = k →
      ∃ t ∈ S, ∃ l m l' m', (s.prog t).wants = some (l, m) ∧ held s.holders t l' = some m' ∧
        rank l ≤ rank l' := by
    intro k
    induction k using WellFoundedGT.induction with
    | ind k ih =>
        intro t ht l m hwants hk
        rcases h.2 t ht with ⟨u, hu, _, l₀, m₀, m', hwants₀, hheld, _⟩
        rw [hwants, Option.some.injEq, Prod.mk.injEq] at hwants₀
        rw [← hwants₀.1] at hheld
        rcases h.2 u hu with ⟨_, _, _, l₁, m₁, _, hwants₁, _, _⟩
        rcases le_or_gt (rank l₁) (rank l) with hle | hlt
        · exact ⟨u, hu, l₁, m₁, l, m', hwants₁, hheld, hle⟩
        · exact ih (rank l₁) (hk ▸ hlt) u hu l₁ m₁ hwants₁ rfl
  rcases h.1 with ⟨t, ht⟩
  rcases h.2 t ht with ⟨_, _, _, l, m, _, hwants, _, _⟩
  exact hup (rank l) t ht l m hwants rfl

/-- At this point a thread asks only for a lock ranked above those it holds. -/
def Ascends (rank : L → κ) (held : L → Option Mode) (p : Prog L) : Prop :=
  ∀ l', held l' ≠ none → ∀ l, p.wants.map Prod.fst = some l → rank l' < rank l

instance [Fintype L] (rank : L → κ) (held : L → Option Mode) (p : Prog L) :
    Decidable (Ascends rank held p) :=
  inferInstanceAs (Decidable
    (∀ l', held l' ≠ none → ∀ l, p.wants.map Prod.fst = some l → rank l' < rank l))

/-- Threads whose programs take locks upwards never wait in a circle. -/
theorem not_deadlocked_of_ascends {entry : ι → Prog L} (rank : L → κ)
    (hentry : ∀ i, Always (fun h p => Ascends rank h p ∧ (p = .done → h = fun _ => none))
      (fun _ => none) (entry i))
    {s : State τ L} (hr : (system τ entry).Reachable s) (S : Set τ) : ¬ Deadlocked s S := by
  intro hdead
  rcases hdead.exists_inversion rank with ⟨t, _, l, m, l', m', hwants, hheld, hle⟩
  have hdone : Ascends rank (fun _ => none) (Prog.done : Prog L) := fun l' h => absurd rfl h
  have hpoint := (reachable_always (fun h p => Ascends rank h p ∧ (p = .done → h = fun _ => none))
    ⟨hdone, fun _ => rfl⟩ hentry (fun h hP => hP.2 rfl) hr t).here
  have hlt := hpoint.1 l' (by rw [hheld]; exact Option.some_ne_none m') l
    (by rw [hwants, Option.map_some])
  exact absurd hlt (not_lt.mpr hle)

end Deadlock

section Leads

/-- `p` comes to `q` by choices alone. -/
inductive Leads {L : Type*} : Prog L → Prog L → Prop where
  | here (p : Prog L) : Leads p p
  | left (p p' q : Prog L) (h : Leads p q) : Leads (.choose p p') q
  | right (p p' q : Prog L) (h : Leads p' q) : Leads (.choose p p') q

/-- A thread can go on by its choices while the others wait. -/
theorem reachable_leads {S : System (State τ L) (Action τ ι)} {entry : ι → Prog L}
    (hS : S.step = step entry) {p q : Prog L} (hpq : Leads p q) (t : τ) {s : State τ L}
    (hr : S.Reachable s) (hp : s.prog t = p) : S.Reachable (s.goto t q) := by
  induction hpq generalizing s with
  | here p =>
      rw [State.goto, ← hp, Function.update_eq_self]
      exact hr
  | left p p' q _ ih =>
      have hs : S.step s (.choose t true) = some (s.goto t p) := by
        rw [hS]
        simp only [step, hp, if_true]
      have hgoto := ih (System.Reachable.step s _ _ hr hs) (s.goto_self t _)
      rw [State.goto, State.goto, Function.update_idem] at hgoto
      exact hgoto
  | right p p' q _ ih =>
      have hs : S.step s (.choose t false) = some (s.goto t p') := by
        rw [hS]
        simp only [step, hp, Bool.false_eq_true, if_false]
      have hgoto := ih (System.Reachable.step s _ _ hr hs) (s.goto_self t _)
      rw [State.goto, State.goto, Function.update_idem] at hgoto
      exact hgoto

end Leads

end Locks

end HttpFileSharing
