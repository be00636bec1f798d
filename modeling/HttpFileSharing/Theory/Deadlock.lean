import HttpFileSharing.Core.BlacklistLocks
import Mathlib.Tactic.MkIffOfInductiveProp

/-!
# Deadlock in the Blacklist

The two functions that take both locks take them in different orders, so there
is a way for two threads to wait for each other: one is in `init_blacklist`, has
`_db_mutex` and asks for `_bl_rwlock`, the other is in `update_ip_addr_stats`,
has `_bl_rwlock` and asks for `_db_mutex`. By the two rankings of the two locks
there is no other way.

So it is a matter of two threads being between their two locks at the same time.
Steps that never bring that about never come to a circle, and after a step that
does a circle can be reached. The server calls `init_blacklist` once, before it
has any other thread, and the three other functions take the locks in one order.

## Main definitions

* `InitBetween`, `UpdateBetween`: A thread has one lock and is on its way to the
  other.
* `Point`: What a thread holds where it stands.
* `Orderly`: A step that does not bring the two about.
* `Apart`: No two threads are between the locks from both sides.
* `serverSystem`: Threads that call the functions the server calls.

## Theorems

* `reachable_point`: What each thread holds.
* `between_of_deadlocked`: What a circle consists of.
* `apart_step`: Orderly steps keep the two apart.
* `deadlocked_of_between`: How a circle is reached.
* `deadlock_exact`: Both directions.
* `server_not_deadlocked`: The functions the server calls once it runs.
-/

namespace HttpFileSharing

namespace BlacklistLocks

open Locks

/-- In `init_blacklist`, with `_db_mutex` and on the way to `_bl_rwlock`. -/
def InitBetween (p : Prog Lock) : Prop :=
  p = .choose (.release .dbMutex .done) getStatsPreparing ∨ p = getStatsPreparing ∨
    p = getStatsLoading

/-- In `update_ip_addr_stats`, with `_bl_rwlock` and on the way to `_db_mutex`. -/
def UpdateBetween (p : Prog Lock) : Prop := p = updateFinding ∨ p = insertUpdateStatsDb

instance (p : Prog Lock) : Decidable (InitBetween p) :=
  inferInstanceAs (Decidable (_ ∨ _ ∨ _))

instance (p : Prog Lock) : Decidable (UpdateBetween p) := inferInstanceAs (Decidable (_ ∨ _))

/-- What a thread holds where it stands, what it can ask for there, and from where
    it can come to be between the two locks. -/
@[mk_iff]
structure Point (held : Lock → Option Mode) (p : Prog Lock) : Prop where
  returned : p = .done → held = fun _ => none
  init_holds : InitBetween p → held .dbMutex = some .exclusive
  update_holds : UpdateBetween p → held .blRwlock = some .exclusive
  asks_rwlock : p.wants.map Prod.fst = some .blRwlock → held .blRwlock = none ∧
    (held .dbMutex ≠ none → p = getStatsLoading)
  asks_mutex : p.wants.map Prod.fst = some .dbMutex → held .dbMutex = none ∧
    (held .blRwlock ≠ none → p = insertUpdateStatsDb)
  enters_init : ∀ q ∈ p.nexts, InitBetween q → InitBetween p ∨ p = initBlacklist
  enters_update : ∀ q ∈ p.nexts, UpdateBetween q → UpdateBetween p ∨ p = updateIpAddrStats

instance (held : Lock → Option Mode) (p : Prog Lock) : Decidable (Point held p) :=
  decidable_of_iff _ (point_iff held p).symm

theorem point_start : Point (fun _ => none) .done := by decide

theorem always_point (f : Function) : Always Point (fun _ => none) f.prog := by
  cases f <;> decide

variable {τ : Type*} [DecidableEq τ]

theorem reachable_point {s : State τ Lock} (hr : (system τ).Reachable s) (t : τ) :
    Point (held s.holders t) (s.prog t) :=
  (reachable_always Point point_start always_point (fun _ hP => hP.returned rfl) hr t).here

/-- In a circle somebody asks for a given lock while holding the other. -/
theorem exists_asks_of_deadlocked {s : State τ Lock} (hr : (system τ).Reachable s) {S : Set τ}
    (h : Deadlocked s S) (l : Lock) :
    ∃ t ∈ S, (s.prog t).wants.map Prod.fst = some l ∧
      ∃ l', l' ≠ l ∧ held s.holders t l' ≠ none := by
  -- With `l` ranked below the other.
  rcases h.exists_inversion (fun x => decide (x ≠ l)) with
    ⟨t, ht, l₁, m, l', m', hwants, hheld, hle⟩
  have hasks : (s.prog t).wants.map Prod.fst = some l₁ := by rw [hwants, Option.map_some]
  have hholds : held s.holders t l' ≠ none := by
    rw [hheld]
    exact Option.some_ne_none m'
  have hpoint := reachable_point hr t
  have hne : l' ≠ l₁ := by
    rintro rfl
    cases l' with
    | blRwlock => exact hholds (hpoint.asks_rwlock hasks).1
    | dbMutex => exact hholds (hpoint.asks_mutex hasks).1
  have hl : l₁ = l := by
    revert hle hne
    cases l₁ <;> cases l' <;> cases l <;> decide
  exact ⟨t, ht, hl ▸ hasks, l', hl ▸ hne, hholds⟩

/-- A circle consists of a thread in `init_blacklist` and one in
    `update_ip_addr_stats`. -/
theorem between_of_deadlocked {s : State τ Lock} (hr : (system τ).Reachable s) {S : Set τ}
    (h : Deadlocked s S) :
    (∃ t ∈ S, s.prog t = getStatsLoading) ∧ ∃ u ∈ S, s.prog u = insertUpdateStatsDb := by
  constructor
  · rcases exists_asks_of_deadlocked hr h .blRwlock with ⟨t, ht, hasks, l', hne, hheld⟩
    cases l' with
    | blRwlock => exact absurd rfl hne
    | dbMutex => exact ⟨t, ht, ((reachable_point hr t).asks_rwlock hasks).2 hheld⟩
  · rcases exists_asks_of_deadlocked hr h .dbMutex with ⟨u, hu, hasks, l', hne, hheld⟩
    cases l' with
    | blRwlock => exact ⟨u, hu, ((reachable_point hr u).asks_mutex hasks).2 hheld⟩
    | dbMutex => exact absurd rfl hne

/-- A thread in `init_blacklist` takes `_db_mutex` only while nobody in
    `update_ip_addr_stats` is between the locks, and a thread in
    `update_ip_addr_stats` takes `_bl_rwlock` only while nobody in
    `init_blacklist` is. -/
def Orderly (s : State τ Lock) (a : Action τ Function) : Prop :=
  (s.prog a.thread = initBlacklist → ∀ u, ¬ UpdateBetween (s.prog u)) ∧
  (s.prog a.thread = updateIpAddrStats → ∀ u, ¬ InitBetween (s.prog u))

/-- No two threads are between the locks, coming from both sides. -/
def Apart (s : State τ Lock) : Prop :=
  ∀ t u, InitBetween (s.prog t) → ¬ UpdateBetween (s.prog u)

theorem not_updateBetween (p : Prog Lock) (h : InitBetween p) : ¬ UpdateBetween p := by
  rcases h with rfl | rfl | rfl <;> decide

theorem not_initBetween_done : ¬ InitBetween .done := by decide

theorem entry_not_between (f : Function) : ¬ InitBetween f.prog ∧ ¬ UpdateBetween f.prog := by
  cases f <;> decide

theorem apart_step (s : State τ Lock) (a : Action τ Function) (s' : State τ Lock)
    (hr : (system τ).Reachable s) (hc : Orderly s a) (hs : Apart s)
    (h : (system τ).step s a = some s') : Apart s' := by
  have hfires : Fires Function.prog s a s' := fires_of_step s a s' h
  have hpoint := reachable_point hr a.thread
  intro t u ht hu
  by_cases hta : t = a.thread
  · have hua : u ≠ a.thread := fun hua => not_updateBetween _ ht (hta.trans hua.symm ▸ hu)
    rw [hfires.prog_other u hua] at hu
    rw [hta] at ht
    rcases hfires.prog_self with ⟨f, _, hf⟩ | hnext
    · exact (entry_not_between f).1 (hf ▸ ht)
    · rcases hpoint.enters_init _ hnext ht with hinit | hinit
      · exact hs a.thread u hinit hu
      · exact hc.1 hinit u hu
  · rw [hfires.prog_other t hta] at ht
    by_cases hua : u = a.thread
    · rw [hua] at hu
      rcases hfires.prog_self with ⟨f, _, hf⟩ | hnext
      · exact (entry_not_between f).2 (hf ▸ hu)
      · rcases hpoint.enters_update _ hnext hu with hupdate | hupdate
        · exact hs t a.thread ht hupdate
        · exact hc.2 hupdate t ht
    · rw [hfires.prog_other u hua] at hu
      exact hs t u ht hu

theorem leads_getStatsLoading (p : Prog Lock) (h : InitBetween p) : Leads p getStatsLoading := by
  have hpreparing : Leads getStatsPreparing getStatsLoading :=
    Leads.right _ _ _ (Leads.here getStatsLoading)
  rcases h with rfl | rfl | rfl
  · exact Leads.right _ _ _ hpreparing
  · exact hpreparing
  · exact Leads.here getStatsLoading

theorem leads_insertUpdateStatsDb (p : Prog Lock) (h : UpdateBetween p) :
    Leads p insertUpdateStatsDb := by
  rcases h with rfl | rfl
  · exact Leads.left _ _ _ (Leads.here insertUpdateStatsDb)
  · exact Leads.here insertUpdateStatsDb

/-- Two threads between the locks can go on until each waits for the other. -/
theorem deadlocked_of_between {s : State τ Lock} (hr : (system τ).Reachable s) (t u : τ)
    (ht : InitBetween (s.prog t)) (hu : UpdateBetween (s.prog u)) :
    ∃ s', ((system τ).startingAt s).Reachable s' ∧ Deadlocked s' {t, u} := by
  have hne : u ≠ t := fun hut => not_updateBetween _ ht (hut ▸ hu)
  have ht' := reachable_leads rfl (leads_getStatsLoading _ ht) t
    (System.Reachable.init (S := (system τ).startingAt s) s rfl) rfl
  have hu' := reachable_leads rfl (leads_insertUpdateStatsDb _ hu) u ht' (s.goto_other t _ u hne)
  refine ⟨_, hu', Set.insert_nonempty t {u}, fun x hx => ?_⟩
  rcases hx with rfl | rfl
  · refine ⟨u, Set.mem_insert_of_mem x rfl, hne, .blRwlock, .exclusive, .exclusive, ?_,
      (reachable_point hr u).update_holds hu, rfl⟩
    rw [State.goto_other _ u _ x hne.symm, s.goto_self x]
    rfl
  · refine ⟨t, Set.mem_insert t {x}, hne.symm, .dbMutex, .exclusive, .exclusive, ?_,
      (reachable_point hr t).init_holds ht, rfl⟩
    rw [State.goto_self _ x]
    rfl

/-- A step that is not orderly brings two threads between the locks. -/
theorem between_of_not_orderly (s : State τ Lock) (a : Action τ Function) (s' : State τ Lock)
    (hc : ¬ Orderly s a) (h : (system τ).step s a = some s') :
    ∃ t u, InitBetween (s'.prog t) ∧ UpdateBetween (s'.prog u) := by
  have hfires : Fires Function.prog s a s' := fires_of_step s a s' h
  rw [Orderly, not_and_or, Classical.not_imp, Classical.not_imp] at hc
  rcases hc with ⟨hprog, hu⟩ | ⟨hprog, ht⟩
  · simp only [not_forall, not_not] at hu
    rcases hu with ⟨u, hu⟩
    have hua : u ≠ a.thread := fun hua => absurd (hprog ▸ hua ▸ hu) (by decide)
    exact ⟨a.thread, u, Or.inl (hfires.prog_acquire .dbMutex .exclusive _ hprog),
      (hfires.prog_other u hua).symm ▸ hu⟩
  · simp only [not_forall, not_not] at ht
    rcases ht with ⟨t, ht⟩
    have hta : t ≠ a.thread := fun hta => absurd (hprog ▸ hta ▸ ht) (by decide)
    exact ⟨t, a.thread, (hfires.prog_other t hta).symm ▸ ht,
      Or.inl (hfires.prog_acquire .blRwlock .exclusive _ hprog)⟩

/-- When threads that call the functions of the blacklist wait for each other in a
    circle. In a run whose steps are all orderly they never do, and after a
    step that is not orderly they can come to it. -/
theorem deadlock_exact (s : State τ Lock) :
    ((system τ).ReachableUnder Orderly s → ∀ S, ¬ Deadlocked s S) ∧
    ((system τ).Reachable s → ∀ a s', (system τ).step s a = some s' → ¬ Orderly s a →
      ∃ s'' S, ((system τ).startingAt s').Reachable s'' ∧ Deadlocked s'' S) := by
  refine ⟨fun hr S hdead => ?_, fun hr a s' h hc => ?_⟩
  · have hapart : Apart s := by
      refine hr.invariant Apart (fun s hs => ?_) apart_step
      rw [show s = State.start from hs]
      exact fun t u ht => absurd ht not_initBetween_done
    rcases between_of_deadlocked hr.reachable hdead with ⟨⟨t, _, ht⟩, u, _, hu⟩
    exact hapart t u (Or.inr (Or.inr ht)) (Or.inr hu)
  · rcases between_of_not_orderly s a s' hc h with ⟨t, u, ht, hu⟩
    rcases deadlocked_of_between (System.Reachable.step s a s' hr h) t u ht hu with
      ⟨s'', hr'', hdead⟩
    exact ⟨s'', {t, u}, hr'', hdead⟩

/-- A thread in `init_blacklist` and one in `update_ip_addr_stats`, each with its
    first lock. -/
def bothBetween : List (Action Bool Function) :=
  [.call true .initBlacklist, .call false .updateIpAddrStats, .acquire true, .acquire false,
    .choose true false, .choose true false, .choose false true]

theorem deadlocks :
    ¬ ∀ s : State Bool Lock, (system Bool).Reachable s → ∀ S, ¬ Deadlocked s S := by
  intro hall
  cases hrun : (system Bool).run State.start bothBetween with
  | none => exact absurd hrun (by decide)
  | some s =>
      have hr : (system Bool).Reachable s :=
        System.reachable_of_run _ bothBetween (System.Reachable.init _ rfl) hrun
      have hbetween : InitBetween (s.prog true) ∧ UpdateBetween (s.prog false) := by
        rw [← Option.some.inj hrun]
        decide
      rcases deadlocked_of_between hr true false hbetween.1 hbetween.2 with ⟨s', hr', hdead⟩
      exact hall s' (hr.of_startingAt hr') _ hdead

/-- The functions that are called while the server runs. -/
abbrev ServerFunction := { f : Function // f ≠ .initBlacklist }

/-- Any number of threads that call those. -/
def serverSystem (τ : Type*) [DecidableEq τ] : System (State τ Lock) (Action τ ServerFunction) :=
  Locks.system τ (fun f : ServerFunction => f.1.prog)

theorem always_ascends (f : Function) (hf : f ≠ .initBlacklist) :
    Always (fun h p => Ascends (fun l => decide (l = Lock.dbMutex)) h p ∧
      (p = .done → h = fun _ => none)) (fun _ => none) f.prog := by
  revert hf
  cases f <;> decide

/-- Once `init_blacklist` has returned and only the other functions are called, no
    threads wait for each other in a circle. -/
theorem server_not_deadlocked {s : State τ Lock} (hr : (serverSystem τ).Reachable s)
    (S : Set τ) : ¬ Deadlocked s S :=
  not_deadlocked_of_ascends (fun l => decide (l = Lock.dbMutex))
    (fun f : ServerFunction => always_ascends f.1 f.2) hr S

end BlacklistLocks

end HttpFileSharing
