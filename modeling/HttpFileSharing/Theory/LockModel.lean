import HttpFileSharing.Theory.DbHandle
import HttpFileSharing.Theory.Deadlock
import HttpFileSharing.Theory.Ledger

/-!
# What the Locks Stand For

The programs of lock operations beside the two models that have more than locks.

A handle of the database takes `_db_mutex` and gives it back the way the program
of its scope says, whatever is done with it in between.

The blacklist has its data in the other model, the map, the table and the
history, and there the table is written in one step. Here a write to the table
takes `_db_mutex` and gives it back. The threads with their locks can follow the
ledger step by step, so the ledger does nothing the locks would make impossible,
and its threads never wait for each other in a circle.

## Main definitions

* `handleProg`: The lock operations an object still has before it.
* `lockProg`: The same of a thread of the ledger, by where it is.
* `reading`: The points at which a thread has `_bl_rwlock` shared.
* `Mirrors`: The threads of the ledger and those with the locks are the same.

## Theorems

* `handle_follows`: A handle does what the program of its scope says.
* `Mirrors.goto`, `Mirrors.stay`: A step of one thread that takes no lock.
* `reachable_storeDb`: The write to the table.
* `mirrors_step`: Every step of a running process is followed.
* `ledger_mirrors`: Over a run.
* `ledger_not_deadlocked`: No circle in it.
-/

namespace HttpFileSharing

namespace BlacklistLocks

open Locks

/-- The lock operations an object still has before it. -/
def handleProg : DbHandle.Pc → Prog Lock
  | .unborn | .entered => dbHandle .done (.release .dbMutex .done)
  | .locked => .choose (.release .dbMutex .done) (.release .dbMutex .done)
  | .failed | .ready _ | .preparing _ | .cleaning _ | .closing _ | .unlocking _ =>
    .release .dbMutex .done
  | .threw | .destroyed => .done

/-- A handle takes the mutex and gives it back as the program of its scope says. -/
theorem handle_follows (o : DbHandle.Object) (a : DbHandle.Action) (o' : DbHandle.Object)
    (hr : DbHandle.objectSystem.Reachable o) (h : o.step a = some o') :
    (a = .lock ∧ handleProg o.pc = .acquire .dbMutex .exclusive (handleProg o'.pc)) ∨
    (a = .unlock ∧ handleProg o.pc = .release .dbMutex (handleProg o'.pc)) ∨
    (a ≠ .lock ∧ a ≠ .unlock ∧ Leads (handleProg o.pc) (handleProg o'.pc)) := by
  have hs := DbHandle.reachable_sound hr
  cases DbHandle.fires_of_step o a o' h with
  | lock hpc => exact Or.inl ⟨rfl, by rw [hpc]; rfl⟩
  | throws hpc => exact Or.inr (Or.inl ⟨rfl, by rw [hpc]; rfl⟩)
  | unlocks m hpc => exact Or.inr (Or.inl ⟨rfl, by rw [hpc]; rfl⟩)
  | vanishes m hpc hopen => exact absurd (show m.mIsOpen = true ∧ _ from hs.at _ hpc).1 hopen
  | plain a m m' c hpc ha hc hstmt hopen =>
      exact Or.inr (Or.inr ⟨ha.1, ha.2, by rw [hpc]; exact Leads.here _⟩)
  | opens hpc =>
      refine Or.inr (Or.inr ⟨by decide, by decide, ?_⟩)
      rw [hpc]
      exact Leads.right _ _ _ (Leads.here _)
  | fails rc hpc hrc =>
      refine Or.inr (Or.inr ⟨by simp only [ne_eq, reduceCtorEq, not_false_eq_true],
        by simp only [ne_eq, reduceCtorEq, not_false_eq_true], ?_⟩)
      rw [hpc]
      exact Leads.left _ _ _ (Leads.here _)
  | construct hpc | replaces _ _ hpc | begins _ hpc | prepares _ _ _ hpc | commits _ hpc
  | cleans _ hpc | finalizes _ _ hpc | skips _ hpc | closes _ hpc =>
      exact Or.inr (Or.inr ⟨by simp only [ne_eq, reduceCtorEq, not_false_eq_true],
        by simp only [ne_eq, reduceCtorEq, not_false_eq_true], by rw [hpc]; exact Leads.here _⟩)

/-- The lock operations a thread still has before it. -/
def lockProg : Blacklist.Pc → Prog Lock
  | .idle => .done
  | .updateEntered _ _ => updateIpAddrStats
  | .updateLocked _ _ => updateFinding
  | .updateFound _ _ _ | .updateStored _ _ _ => insertUpdateStatsDb
  | .readEntered _ => lookUp
  | .updateSaved _ _ | .readLocked _ | .readDone _ => .release .blRwlock .done

/-- The thread has `_bl_rwlock` shared. -/
def reading : Blacklist.Pc → Bool
  | .readLocked _ | .readDone _ => true
  | _ => false

/-- The threads of the two models are at the same places and have the same
    locks. -/
structure Mirrors {τ : Type*} (p : Blacklist.Process τ) (s : State τ Lock) : Prop where
  prog : ∀ t, s.prog t = lockProg (p.pc t)
  mutex : s.holders .dbMutex = []
  rwlock : ∃ readers : List τ, readers.Nodup ∧ readers.length = p.readers ∧
    (∀ t, t ∈ readers ↔ reading (p.pc t) = true) ∧
    s.holders .blRwlock = p.writer.toList.map (fun t => (t, .exclusive))
      ++ readers.map (fun t => (t, .shared))

variable {τ : Type*} [DecidableEq τ]

theorem goto_mirrors (p : Blacklist.Process τ) (s : State τ Lock)
    (hprog : ∀ u, s.prog u = lockProg (p.pc u)) (t : τ) (pc : Blacklist.Pc) (u : τ) :
    (s.goto t (lockProg pc)).prog u = lockProg ((p.goto t pc).pc u) := by
  by_cases hu : u = t
  · rw [hu, s.goto_self t, Blacklist.Process.goto]
    simp only [Function.update_self]
  · rw [s.goto_other t _ u hu, hprog u, Blacklist.Process.goto]
    simp only [Function.update_of_ne hu]

/-- Who reads stays the same where one thread goes on and reads as before. -/
theorem goto_reading (p : Blacklist.Process τ) (t : τ) (pc : Blacklist.Pc)
    (hread : reading pc = reading (p.pc t)) (u : τ) :
    reading ((p.goto t pc).pc u) = reading (p.pc u) := by
  rw [Blacklist.Process.goto]
  by_cases hu : u = t
  · rw [hu]
    simp only [Function.update_self, hread]
  · simp only [Function.update_of_ne hu]

/-- One thread goes on and no lock is taken or given back. -/
theorem Mirrors.goto {p p' : Blacklist.Process τ} {s : State τ Lock} (hm : Mirrors p s) (t : τ)
    (pc : Blacklist.Pc) (hread : reading pc = reading (p.pc t)) (hpc : p'.pc = (p.goto t pc).pc)
    (hwriter : p'.writer = p.writer) (hreaders : p'.readers = p.readers) :
    Mirrors p' (s.goto t (lockProg pc)) := by
  refine ⟨fun u => ?_, hm.mutex, ?_⟩
  · rw [hpc]
    exact goto_mirrors p s hm.prog t pc u
  · rcases hm.rwlock with ⟨readers, hnodup, hlen, hmem, hholders⟩
    refine ⟨readers, hnodup, hlen.trans hreaders.symm, fun u => ?_, ?_⟩
    · rw [hpc, goto_reading p t pc hread u]
      exact hmem u
    · rw [hwriter]
      exact hholders

/-- A step of the data alone. -/
theorem Mirrors.stay {p p' : Blacklist.Process τ} {s : State τ Lock} (hm : Mirrors p s) (t : τ)
    (pc : Blacklist.Pc) (hread : reading pc = reading (p.pc t))
    (hprog : lockProg pc = lockProg (p.pc t)) (hpc : p'.pc = (p.goto t pc).pc)
    (hwriter : p'.writer = p.writer) (hreaders : p'.readers = p.readers) : Mirrors p' s := by
  have hgoto := hm.goto t pc hread hpc hwriter hreaders
  rw [hprog, ← hm.prog t, State.goto, Function.update_eq_self] at hgoto
  exact hgoto

/-- The write to the table takes `_db_mutex` and gives it back. -/
theorem reachable_storeDb {s : State τ Lock} (hr : (serverSystem τ).Reachable s) (t : τ)
    (hprog : s.prog t = insertUpdateStatsDb) (hmutex : s.holders .dbMutex = []) :
    (serverSystem τ).Reachable (s.goto t (.release .blRwlock .done)) := by
  have hfree : ∀ h ∈ s.holders .dbMutex, Mode.exclusive.conflicts h.2 = false := by
    rw [hmutex]
    exact fun h hmem => absurd hmem List.not_mem_nil
  have hopened := reachable_acquire hr t .dbMutex .exclusive _ hprog hfree
  have hdone := reachable_leads rfl (Leads.right (.release .dbMutex (.release .blRwlock .done)) _ _
    (Leads.right .stop _ _ (Leads.here (.release .dbMutex (.release .blRwlock .done))))) t hopened
    (s.goto_self t _)
  have hclosed := reachable_release hdone t .dbMutex _ (State.goto_self _ t _)
  have hholders : giveBack (take s.holders t .dbMutex .exclusive) t .dbMutex = s.holders :=
    giveBack_take s.holders t .dbMutex .exclusive (by
      rw [hmutex]
      exact fun h hmem => absurd hmem List.not_mem_nil)
  simp only [State.goto, Function.update_idem, hholders] at hclosed
  exact hclosed

section Step

variable {start : Blacklist.StartTable} {l : Blacklist.Ledger τ} {p : Blacklist.Process τ}
  {s : State τ Lock}

omit [DecidableEq τ] in
/-- The thread that has the write lock is at an update point. -/
theorem updating_of_writer (hc : Blacklist.Consistent start.rows l) (hup : l.process = some p)
    (t : τ) (hw : p.writer = some t) : (p.pc t).updating ≠ none := by
  have hphase := (hc.up p hup).2
  rw [Blacklist.phase_held l p t hw] at hphase
  exact Blacklist.phaseAt_updating l p.statsList t _ hphase

theorem mirrors_acquire (hr : (serverSystem τ).Reachable s) (hm : Mirrors p s) (t : τ)
    (ip : IpAddr) (good : Bool) (hpc : p.pc t = .updateEntered ip good) (hfree : p.writer = none)
    (hreaders : p.readers = 0) :
    ∃ s', (serverSystem τ).Reachable s' ∧
      Mirrors { p.goto t (.updateLocked ip good) with writer := some t } s' := by
  rcases hm.rwlock with ⟨readers, hnodup, hlen, hmem, hholders⟩
  rw [hfree, List.length_eq_zero_iff.mp (hlen.trans hreaders)] at hholders
  have hprog : s.prog t = updateIpAddrStats := by rw [hm.prog t, hpc]; rfl
  have hnone : ∀ h ∈ s.holders .blRwlock, Mode.exclusive.conflicts h.2 = false := by
    rw [hholders]
    exact fun h hmem => absurd hmem List.not_mem_nil
  refine ⟨_, reachable_acquire hr t .blRwlock .exclusive _ hprog hnone,
    fun u => goto_mirrors p s hm.prog t (.updateLocked ip good) u, ?_, readers, hnodup, hlen,
    fun u => ?_, ?_⟩
  · exact (take_of_ne s.holders t .blRwlock .exclusive .dbMutex (by decide)).trans hm.mutex
  · rw [hmem u, ← goto_reading p t (.updateLocked ip good) (by rw [hpc]; rfl) u]
  · refine (take_self s.holders t .blRwlock .exclusive).trans ?_
    rw [hholders, List.length_eq_zero_iff.mp (hlen.trans hreaders)]
    rfl

theorem mirrors_release (hc : Blacklist.Consistent start.rows l) (hup : l.process = some p)
    (hr : (serverSystem τ).Reachable s) (hm : Mirrors p s) (t : τ) (ip : IpAddr) (finalScore : Int)
    (hpc : p.pc t = .updateSaved ip finalScore) :
    ∃ s', (serverSystem τ).Reachable s' ∧ Mirrors { p.goto t .idle with writer := none } s' := by
  rcases hm.rwlock with ⟨readers, hnodup, hlen, hmem, hholders⟩
  have hwriter : p.writer = some t := (hc.up p hup).1 t ip (by rw [hpc]; rfl)
  have hprog : s.prog t = .release .blRwlock .done := by rw [hm.prog t, hpc]; rfl
  have hnot : t ∉ readers := fun ht => by
    rw [hmem t, hpc] at ht
    exact Bool.false_ne_true ht
  refine ⟨_, reachable_release hr t .blRwlock _ hprog,
    fun u => goto_mirrors p s hm.prog t .idle u, ?_, readers, hnodup, hlen, fun u => ?_, ?_⟩
  · exact (giveBack_of_ne s.holders t .blRwlock .dbMutex (by decide)).trans hm.mutex
  · rw [hmem u, ← goto_reading p t .idle (by rw [hpc]; rfl) u]
  · refine (giveBack_self s.holders t .blRwlock).trans ?_
    have hrest : (readers.map (fun u => (u, Mode.shared))).filter (fun h => h.1 ≠ t)
        = readers.map (fun u => (u, Mode.shared)) := by
      refine List.filter_eq_self.mpr (fun h hh => ?_)
      rcases List.mem_map.mp hh with ⟨u, hu, rfl⟩
      exact decide_eq_true (fun hut => hnot (hut ▸ hu))
    rw [hholders, hwriter, Option.toList_some, List.map_singleton, List.filter_append, hrest,
      List.filter_cons_of_neg (by simp only [ne_eq, not_true, decide_false, Bool.false_eq_true,
        not_false_eq_true])]
    rfl

theorem mirrors_readAcquire (hr : (serverSystem τ).Reachable s) (hm : Mirrors p s) (t : τ)
    (ip : IpAddr) (hpc : p.pc t = .readEntered ip) (hfree : p.writer = none) :
    ∃ s', (serverSystem τ).Reachable s' ∧
      Mirrors { p.goto t (.readLocked ip) with readers := p.readers + 1 } s' := by
  rcases hm.rwlock with ⟨readers, hnodup, hlen, hmem, hholders⟩
  rw [hfree] at hholders
  have hprog : s.prog t = lookUp := by rw [hm.prog t, hpc]; rfl
  have hshared : ∀ h ∈ s.holders .blRwlock, Mode.shared.conflicts h.2 = false := by
    rw [hholders]
    intro h hh
    rcases List.mem_map.mp hh with ⟨u, _, rfl⟩
    rfl
  have hnot : t ∉ readers := fun ht => by
    rw [hmem t, hpc] at ht
    exact Bool.false_ne_true ht
  refine ⟨_, reachable_acquire hr t .blRwlock .shared _ hprog hshared,
    fun u => goto_mirrors p s hm.prog t (.readLocked ip) u, ?_, t :: readers,
    List.nodup_cons.mpr ⟨hnot, hnodup⟩, congrArg (· + 1) hlen, fun u => ?_, ?_⟩
  · exact (take_of_ne s.holders t .blRwlock .shared .dbMutex (by decide)).trans hm.mutex
  · rw [List.mem_cons, Blacklist.Process.goto]
    by_cases hu : u = t
    · rw [hu]
      simp only [Function.update_self, true_or, true_iff]
      rfl
    · simp only [Function.update_of_ne hu, hu, false_or]
      exact hmem u
  · refine (take_self s.holders t .blRwlock .shared).trans ?_
    rw [hholders]
    simp only [Blacklist.Process.goto, hfree]
    rfl

theorem mirrors_readRelease (hc : Blacklist.Consistent start.rows l) (hup : l.process = some p)
    (hr : (serverSystem τ).Reachable s) (hm : Mirrors p s) (t : τ) (found : Option Int)
    (hpc : p.pc t = .readDone found) :
    ∃ s', (serverSystem τ).Reachable s' ∧
      Mirrors { p.goto t .idle with readers := p.readers - 1 } s' := by
  rcases hm.rwlock with ⟨readers, hnodup, hlen, hmem, hholders⟩
  have hprog : s.prog t = .release .blRwlock .done := by rw [hm.prog t, hpc]; rfl
  have ht : t ∈ readers := (hmem t).mpr (by rw [hpc]; rfl)
  refine ⟨_, reachable_release hr t .blRwlock _ hprog,
    fun u => goto_mirrors p s hm.prog t .idle u, ?_, readers.erase t, hnodup.erase t, ?_,
    fun u => ?_, ?_⟩
  · exact (giveBack_of_ne s.holders t .blRwlock .dbMutex (by decide)).trans hm.mutex
  · rw [List.length_erase_of_mem ht, hlen]
  · rw [hnodup.mem_erase_iff, Blacklist.Process.goto]
    by_cases hu : u = t
    · rw [hu]
      simp only [Function.update_self, ne_eq, not_true, false_and, false_iff]
      exact Bool.false_ne_true
    · simp only [Function.update_of_ne hu, ne_eq, hu, not_false_eq_true, true_and]
      exact hmem u
  · -- The thread that has the write lock, if there is one, does not read.
    have hwriters : (p.writer.toList.map (fun u => (u, Mode.exclusive))).filter
        (fun h => h.1 ≠ t) = p.writer.toList.map (fun u => (u, Mode.exclusive)) := by
      refine List.filter_eq_self.mpr (fun h hh => decide_eq_true (fun hut => ?_))
      rcases List.mem_map.mp hh with ⟨u, hu, rfl⟩
      have hupdating := updating_of_writer hc hup u (Option.mem_toList.mp hu)
      rw [show u = t from hut, hpc] at hupdating
      exact hupdating rfl
    have hreaders : (readers.map (fun u => (u, Mode.shared))).filter (fun h => h.1 ≠ t)
        = (readers.erase t).map (fun u => (u, Mode.shared)) := by
      rw [hnodup.erase_eq_filter, List.filter_map]
      refine congrArg (List.map _) (List.filter_congr (fun u _ => ?_))
      rw [Bool.eq_iff_iff, Function.comp, decide_eq_true_eq, bne_iff_ne]
    refine (giveBack_self s.holders t .blRwlock).trans ?_
    rw [hholders, List.filter_append, hwriters, hreaders]
    rfl

/-- Every step of a running process is followed. -/
theorem mirrors_step (hc : Blacklist.Consistent start.rows l) (hup : l.process = some p)
    (a : Blacklist.Action τ) (l' : Blacklist.Ledger τ) (h : Blacklist.Fires l p a l')
    (hr : (serverSystem τ).Reachable s) (hm : Mirrors p s) :
    ∃ s', (serverSystem τ).Reachable s' ∧ ∀ p', l'.process = some p' → Mirrors p' s' := by
  cases h with
  | call t ip good hpc =>
      have hprog : s.prog t = .done := by rw [hm.prog t, hpc]; rfl
      have hgoto : Mirrors (p.goto t (.updateEntered ip good)) (s.goto t updateIpAddrStats) :=
        hm.goto t (.updateEntered ip good) (by rw [hpc]; rfl) rfl rfl rfl
      exact ⟨_, reachable_call hr t ⟨.updateIpAddrStats, by decide⟩ hprog,
        fun p' hp' => Option.some.inj hp' ▸ hgoto⟩
  | acquire t ip good hpc hfree hreaders =>
      rcases mirrors_acquire hr hm t ip good hpc hfree hreaders with ⟨s', hr', hm'⟩
      exact ⟨s', hr', fun p' hp' => Option.some.inj hp' ▸ hm'⟩
  | find t ip good hpc =>
      have hprog : s.prog t = updateFinding := by rw [hm.prog t, hpc]; rfl
      have hgoto : Mirrors (p.goto t (.updateFound ip good (ip ∈ p.statsList)))
          (s.goto t insertUpdateStatsDb) :=
        hm.goto t (.updateFound ip good (ip ∈ p.statsList)) (by rw [hpc]; rfl) rfl rfl rfl
      exact ⟨_, reachable_leads rfl (Leads.left _ _ _ (Leads.here insertUpdateStatsDb)) t hr hprog,
        fun p' hp' => Option.some.inj hp' ▸ hgoto⟩
  | storeNew t ip good hpc =>
      refine ⟨s, hr, fun p' hp' => Option.some.inj hp' ▸ ?_⟩
      exact hm.stay t (.updateStored ip false (delta good)) (by rw [hpc]; rfl) (by rw [hpc]; rfl)
        rfl rfl rfl
  | storeScore t ip good score hpc hscore hrange =>
      refine ⟨s, hr, fun p' hp' => Option.some.inj hp' ▸ ?_⟩
      exact hm.stay t (.updateStored ip true (score + delta good)) (by rw [hpc]; rfl)
        (by rw [hpc]; rfl) rfl rfl rfl
  | storeDb t ip found finalScore table hpc hwrite =>
      have hprog : s.prog t = insertUpdateStatsDb := by rw [hm.prog t, hpc]; rfl
      have hgoto : Mirrors (p.goto t (.updateSaved ip finalScore))
          (s.goto t (.release .blRwlock .done)) :=
        hm.goto t (.updateSaved ip finalScore) (by rw [hpc]; rfl) rfl rfl rfl
      exact ⟨_, reachable_storeDb hr t hprog hm.mutex, fun p' hp' => Option.some.inj hp' ▸ hgoto⟩
  | storeFails t ip found finalScore hpc hwrite =>
      exact ⟨s, hr, fun p' hp' => absurd hp' (by simp only [Blacklist.Ledger.ended, reduceCtorEq,
        not_false_eq_true])⟩
  | release t ip finalScore hpc =>
      rcases mirrors_release hc hup hr hm t ip finalScore hpc with ⟨s', hr', hm'⟩
      exact ⟨s', hr', fun p' hp' => Option.some.inj hp' ▸ hm'⟩
  | readCall t ip hpc =>
      have hprog : s.prog t = .done := by rw [hm.prog t, hpc]; rfl
      have hgoto : Mirrors (p.goto t (.readEntered ip)) (s.goto t lookUp) :=
        hm.goto t (.readEntered ip) (by rw [hpc]; rfl) rfl rfl rfl
      exact ⟨_, reachable_call hr t ⟨.isIpaddrBlacklisted, by decide⟩ hprog,
        fun p' hp' => Option.some.inj hp' ▸ hgoto⟩
  | readAcquire t ip hpc hfree =>
      rcases mirrors_readAcquire hr hm t ip hpc hfree with ⟨s', hr', hm'⟩
      exact ⟨s', hr', fun p' hp' => Option.some.inj hp' ▸ hm'⟩
  | read t ip hpc =>
      refine ⟨s, hr, fun p' hp' => Option.some.inj hp' ▸ ?_⟩
      exact hm.stay t (.readDone (HttpFileSharing.getScoreForIpaddr p.statsList ip))
        (by rw [hpc]; rfl) (by rw [hpc]; rfl) rfl rfl rfl
  | readRelease t found hpc =>
      rcases mirrors_readRelease hc hup hr hm t found hpc with ⟨s', hr', hm'⟩
      exact ⟨s', hr', fun p' hp' => Option.some.inj hp' ▸ hm'⟩
  | kill =>
      exact ⟨s, hr, fun p' hp' => absurd hp' (by simp only [Blacklist.Ledger.ended, reduceCtorEq,
        not_false_eq_true])⟩

end Step

omit [DecidableEq τ] in
/-- A process that has just loaded the map has no thread in any function. -/
theorem mirrors_start (stats : StatsList) :
    Mirrors (τ := τ) ⟨stats, none, 0, fun _ => .idle⟩ State.start :=
  ⟨fun _ => rfl, rfl, [], List.nodup_nil, rfl,
    fun _ => iff_of_false List.not_mem_nil Bool.false_ne_true, rfl⟩

/-- The locks can follow the ledger. -/
theorem ledger_mirrors (start : Blacklist.StartTable) {l : Blacklist.Ledger τ}
    (hr : (Blacklist.system τ start).Reachable l) :
    ∃ s, (serverSystem τ).Reachable s ∧ ∀ p, l.process = some p → Mirrors p s := by
  have hstart : (serverSystem τ).Reachable State.start := System.Reachable.init _ rfl
  refine hr.simulated (serverSystem τ) (fun l s => ∀ p, l.process = some p → Mirrors p s)
    (fun l h => ?_) (fun l a l' s hl hstep hs hm => ?_)
  · refine ⟨State.start, hstart, fun p hp => ?_⟩
    rw [show l = ⟨start.rows, none, []⟩ from h] at hp
    exact absurd hp (by simp only [reduceCtorEq, not_false_eq_true])
  · cases hup : l.process with
    | some p =>
        exact mirrors_step (Blacklist.reachable_consistent start hl) hup a l'
          (Blacklist.fires_of_step l p hup a l' hstep) hs (hm p hup)
    | none =>
        refine ⟨State.start, hstart, fun p hp => ?_⟩
        rcases Blacklist.starts_of_step l hup a l' hstep with ⟨stats, _, rfl⟩ | rfl
        · exact Option.some.inj hp ▸ mirrors_start stats
        · exact absurd (hup.symm.trans hp) (by simp only [reduceCtorEq, not_false_eq_true])

/-- The threads of a running process never wait for each other in a circle. -/
theorem ledger_not_deadlocked (start : Blacklist.StartTable) {l : Blacklist.Ledger τ}
    (hr : (Blacklist.system τ start).Reachable l) (p : Blacklist.Process τ)
    (hup : l.process = some p) : ∃ s, Mirrors p s ∧ ∀ S, ¬ Deadlocked s S := by
  rcases ledger_mirrors start hr with ⟨s, hs, hm⟩
  exact ⟨s, hm p hup, server_not_deadlocked hs⟩

end BlacklistLocks

end HttpFileSharing
