import HttpFileSharing.Core.Db

/-!
# The Discipline of a Handle

What an object owns at each moment of its life. While its connection is open
the statements it has made are the ones it has finalised, and the one in
`m_stmt` before them if there is one. So `prepare_stmt` has to finalise at most
one, and there is none left when `cleanup` closes the connection.

Of the objects of a process one at most has its connection open, since the
connection is open only while the object has the mutex.

## Main definitions

* `Fires`: What one step of an object can do.
* `InUse`: The calls of an object whose connection is open.
* `Sound`: What an object has called when it is at a program point.
* `Held`: Who is between taking the mutex and giving it back.
* `Released`: Everything has been given back, once and in order.

## Theorems

* `fires_of_step`: Every step goes one of those ways.
* `sound_of_fires`, `reachable_sound`: The calls of an object, step by step and
  over a run.
* `holdsMutex_of_fires`, `held_step`, `reachable_held`: The same of the mutex.
* `InUse.alive_eq`: The statement that is alive is the one in `m_stmt`.
* `reachable_object`: An object of a process is an object by itself.
* `destroyed_of_ready`: The destructor always comes to its end.
* `handle_discipline`: The three together.
-/

namespace HttpFileSharing

namespace DbHandle

/-- The calls that make and finalise nothing. -/
def Call.isPlain : Call → Bool
  | .onStmt _ _ | .exec _ | .errmsg => true
  | _ => false

/-- The calls on an open connection. -/
def Call.isUse : Call → Bool
  | .lock | .unlock | .openDb _ | .close _ => false
  | _ => true

/-- What one step of an object can do, one constructor for each way. -/
inductive Fires (o : Object) : Action → Object → Prop where
  | construct (hpc : o.pc = .unborn) : Fires o .construct (o.goto .entered)
  | lock (hpc : o.pc = .entered) : Fires o .lock (o.call .lock .locked)
  | opens (hpc : o.pc = .locked) :
      Fires o (.openDb sqliteOk) (o.call (.openDb sqliteOk) (.ready ⟨none, true, false⟩))
  | fails (rc : Int) (hpc : o.pc = .locked) (hrc : rc ≠ sqliteOk) :
      Fires o (.openDb rc) (o.call (.openDb rc) .failed)
  | plain (a : Action) (m m' : Members) (c : Call) (hpc : o.pc = .ready m)
      (ha : a ≠ .lock ∧ a ≠ .unlock) (hc : c.isPlain = true) (hstmt : m'.mStmt = m.mStmt)
      (hopen : m'.mIsOpen = m.mIsOpen) : Fires o a (o.call c (.ready m'))
  | replaces (m : Members) (stmt : Stmt) (hpc : o.pc = .ready m) (hstmt : m.mStmt = some stmt) :
      Fires o .prepareStmt (o.call (.finalize stmt) (.preparing { m with mStmt := none }))
  | begins (m : Members) (hpc : o.pc = .ready m) (hstmt : m.mStmt = none) :
      Fires o .prepareStmt (o.goto (.preparing m))
  | prepares (m : Members) (rc : Int) (made : Bool) (hpc : o.pc = .preparing m) :
      Fires o (.prepare rc made)
        (o.call (.prepare rc (if made = true then some (prepared o.calls).length else none))
          (.ready { m with
            mStmt := if made = true then some (prepared o.calls).length else none }))
  | commits (m : Members) (hpc : o.pc = .ready m) (hopen : m.mIsOpen = true) :
      Fires o .destroy
        (o.call (.exec "COMMIT".toList) (.cleaning { m with mOngoingTransaction := false }))
  | cleans (m : Members) (hpc : o.pc = .ready m) (hopen : m.mIsOpen = true) :
      Fires o .destroy (o.goto (.cleaning m))
  | vanishes (m : Members) (hpc : o.pc = .ready m) (hopen : m.mIsOpen ≠ true) :
      Fires o .destroy (o.goto .destroyed)
  | finalizes (m : Members) (stmt : Stmt) (hpc : o.pc = .cleaning m) (hstmt : m.mStmt = some stmt) :
      Fires o .finalize (o.call (.finalize stmt) (.closing m))
  | skips (m : Members) (hpc : o.pc = .cleaning m) (hstmt : m.mStmt = none) :
      Fires o .finalize (o.goto (.closing m))
  | closes (m : Members) (hpc : o.pc = .closing m) :
      Fires o .close (o.call (.close (alive o.calls = [])) (.unlocking m))
  | throws (hpc : o.pc = .failed) : Fires o .unlock (o.call .unlock .threw)
  | unlocks (m : Members) (hpc : o.pc = .unlocking m) : Fires o .unlock (o.call .unlock .destroyed)

/-- Every step of an object goes one of those ways. -/
theorem fires_of_step (o : Object) (a : Action) (o' : Object) (h : o.step a = some o') :
    Fires o a o' := by
  cases a with
  | construct =>
      simp only [Object.step] at h
      split at h
      · rename_i hpc
        exact Option.some.inj h ▸ Fires.construct hpc
      · exact absurd h (by simp only [reduceCtorEq, not_false_eq_true])
  | lock =>
      simp only [Object.step] at h
      split at h
      · rename_i hpc
        exact Option.some.inj h ▸ Fires.lock hpc
      · exact absurd h (by simp only [reduceCtorEq, not_false_eq_true])
  | openDb rc =>
      simp only [Object.step] at h
      split at h
      · rename_i hpc
        split at h
        · rename_i hrc
          rw [hrc] at h ⊢
          exact Option.some.inj h ▸ Fires.opens hpc
        · rename_i hrc
          exact Option.some.inj h ▸ Fires.fails rc hpc hrc
      · exact absurd h (by simp only [reduceCtorEq, not_false_eq_true])
  | getErrmsg =>
      simp only [Object.step] at h
      split at h
      · rename_i m hpc
        exact Option.some.inj h ▸ Fires.plain _ m m _ hpc (by decide) rfl rfl rfl
      · exact absurd h (by simp only [reduceCtorEq, not_false_eq_true])
  | prepareStmt =>
      simp only [Object.step] at h
      split at h
      · rename_i m hpc
        split at h
        · rename_i stmt hstmt
          exact Option.some.inj h ▸ Fires.replaces m stmt hpc hstmt
        · rename_i hstmt
          exact Option.some.inj h ▸ Fires.begins m hpc hstmt
      · exact absurd h (by simp only [reduceCtorEq, not_false_eq_true])
  | prepare rc made =>
      simp only [Object.step] at h
      split at h
      · rename_i m hpc
        rw [Option.ite_none_left_eq_some] at h
        exact Option.some.inj h.2 ▸ Fires.prepares m rc made hpc
      · exact absurd h (by simp only [reduceCtorEq, not_false_eq_true])
  | onStmt op =>
      simp only [Object.step] at h
      split at h
      · rename_i m hpc
        exact Option.some.inj h ▸ Fires.plain _ m m _ hpc (by simp) rfl rfl rfl
      · exact absurd h (by simp only [reduceCtorEq, not_false_eq_true])
  | startTransaction =>
      simp only [Object.step] at h
      split at h
      · rename_i m hpc
        exact Option.some.inj h ▸ Fires.plain _ m _ _ hpc (by decide) rfl rfl rfl
      · exact absurd h (by simp only [reduceCtorEq, not_false_eq_true])
  | endTransaction =>
      simp only [Object.step] at h
      split at h
      · rename_i m hpc
        exact Option.some.inj h ▸ Fires.plain _ m _ _ hpc (by decide) rfl rfl rfl
      · exact absurd h (by simp only [reduceCtorEq, not_false_eq_true])
  | execQuery query =>
      simp only [Object.step] at h
      split at h
      · rename_i m hpc
        exact Option.some.inj h ▸ Fires.plain _ m m _ hpc (by simp) rfl rfl rfl
      · exact absurd h (by simp only [reduceCtorEq, not_false_eq_true])
  | destroy =>
      simp only [Object.step] at h
      split at h
      · rename_i m hpc
        split at h
        · rename_i hopen
          split at h
          · exact Option.some.inj h ▸ Fires.commits m hpc hopen
          · exact Option.some.inj h ▸ Fires.cleans m hpc hopen
        · rename_i hopen
          exact Option.some.inj h ▸ Fires.vanishes m hpc hopen
      · exact absurd h (by simp only [reduceCtorEq, not_false_eq_true])
  | finalize =>
      simp only [Object.step] at h
      split at h
      · rename_i m hpc
        split at h
        · rename_i stmt hstmt
          exact Option.some.inj h ▸ Fires.finalizes m stmt hpc hstmt
        · rename_i hstmt
          exact Option.some.inj h ▸ Fires.skips m hpc hstmt
      · exact absurd h (by simp only [reduceCtorEq, not_false_eq_true])
  | close =>
      simp only [Object.step] at h
      split at h
      · rename_i m hpc
        exact Option.some.inj h ▸ Fires.closes m hpc
      · exact absurd h (by simp only [reduceCtorEq, not_false_eq_true])
  | unlock =>
      simp only [Object.step] at h
      split at h
      · rename_i hpc
        exact Option.some.inj h ▸ Fires.throws hpc
      · rename_i m hpc
        exact Option.some.inj h ▸ Fires.unlocks m hpc
      · exact absurd h (by simp only [reduceCtorEq, not_false_eq_true])

/-- The calls of an object whose connection is open and that has `stmt`. -/
structure InUse (calls : List Call) (stmt : Option Stmt) : Prop where
  made : prepared calls = stmt.toList ++ finalized calls
  numbered : prepared calls = (List.range (prepared calls).length).reverse
  opened : ∃ used, calls = used ++ [.openDb sqliteOk, .lock] ∧ ∀ c ∈ used, c.isUse = true

theorem inUse_opened : InUse [.openDb sqliteOk, .lock] none :=
  ⟨rfl, rfl, [], rfl, fun _ hc => absurd hc List.not_mem_nil⟩

section InUse

variable {calls : List Call} {stmt : Option Stmt}

theorem InUse.opened_cons (h : InUse calls stmt) (c : Call) (hc : c.isUse = true) :
    ∃ used, c :: calls = used ++ [.openDb sqliteOk, .lock] ∧ ∀ c' ∈ used, c'.isUse = true := by
  rcases h.opened with ⟨used, hcalls, hused⟩
  exact ⟨c :: used, by rw [hcalls, List.cons_append], List.forall_mem_cons.mpr ⟨hc, hused⟩⟩

theorem InUse.plain (h : InUse calls stmt) (c : Call) (hc : c.isPlain = true) :
    InUse (c :: calls) stmt := by
  cases c with
  | onStmt op s => exact ⟨h.made, h.numbered, h.opened_cons _ rfl⟩
  | exec query => exact ⟨h.made, h.numbered, h.opened_cons _ rfl⟩
  | errmsg => exact ⟨h.made, h.numbered, h.opened_cons _ rfl⟩
  | lock | unlock | openDb _ | prepare _ _ | finalize _ | close _ =>
      exact absurd hc Bool.false_ne_true

/-- Finalising the statement there is. -/
theorem InUse.finalize (s : Stmt) (h : InUse calls (some s)) :
    InUse (.finalize s :: calls) none :=
  ⟨h.made, h.numbered, h.opened_cons _ rfl⟩

/-- Making a statement, or none, where there is none. -/
theorem InUse.prepare (h : InUse calls none) (rc : Int) (made : Bool) :
    InUse (.prepare rc (if made = true then some (prepared calls).length else none) :: calls)
      (if made = true then some (prepared calls).length else none) := by
  cases made with
  | false => exact ⟨h.made, h.numbered, h.opened_cons _ rfl⟩
  | true =>
      have hmade : prepared calls = finalized calls := h.made
      refine ⟨?_, ?_, h.opened_cons _ rfl⟩
      · simp only [if_true, prepared, finalized, Option.toList_some, hmade, List.cons_append,
          List.nil_append]
      · simp only [if_true, prepared, List.length_cons, List.range_succ, List.reverse_append,
          List.reverse_singleton, List.singleton_append]
        rw [← h.numbered]

theorem InUse.nodup (h : InUse calls stmt) : (prepared calls).Nodup := by
  rw [h.numbered]
  exact List.nodup_reverse.mpr List.nodup_range

/-- The statement that is alive is the one the object has. -/
theorem InUse.alive_eq (h : InUse calls stmt) : alive calls = stmt.toList := by
  have hnodup := h.nodup
  rw [h.made, List.nodup_append] at hnodup
  rw [alive, h.made, List.filter_append]
  have hnone : (finalized calls).filter (fun s => s ∉ finalized calls) = [] :=
    List.filter_eq_nil_iff.mpr (fun s hs => by simp only [hs, not_true, decide_false,
      Bool.false_eq_true, not_false_eq_true])
  have hall : stmt.toList.filter (fun s => s ∉ finalized calls) = stmt.toList :=
    List.filter_eq_self.mpr (fun s hs => decide_eq_true (fun hf => hnodup.2.2 s hs s hf rfl))
  rw [hnone, hall, List.append_nil]

end InUse

/-- What an object has called when it is at a program point. -/
def Sound (o : Object) : Prop :=
  match o.pc with
  | .unborn | .entered => o.calls = []
  | .locked => o.calls = [.lock]
  | .failed => ∃ rc, rc ≠ sqliteOk ∧ o.calls = [.openDb rc, .lock]
  | .threw => ∃ rc, rc ≠ sqliteOk ∧ o.calls = [.unlock, .openDb rc, .lock]
  | .ready m => m.mIsOpen = true ∧ InUse o.calls m.mStmt
  | .preparing m => m.mIsOpen = true ∧ m.mStmt = none ∧ InUse o.calls none
  | .cleaning m => InUse o.calls m.mStmt
  | .closing _ => InUse o.calls none
  | .unlocking _ => ∃ used, InUse used none ∧ o.calls = .close true :: used
  | .destroyed => ∃ used, InUse used none ∧ o.calls = .unlock :: .close true :: used

/-- What `Sound` says at a given point. -/
theorem Sound.at {o : Object} (h : Sound o) (pc : Pc) (hpc : o.pc = pc) :
    Sound ⟨pc, o.calls⟩ := hpc ▸ h

theorem sound_of_fires (o : Object) (a : Action) (o' : Object) (hs : Sound o)
    (h : Fires o a o') : Sound o' := by
  cases h with
  | construct hpc => exact hs.at .unborn hpc
  | lock hpc => exact congrArg (Call.lock :: ·) (hs.at _ hpc)
  | opens hpc =>
      have hcalls : o.calls = [.lock] := hs.at _ hpc
      refine ⟨rfl, ?_⟩
      change InUse (.openDb sqliteOk :: o.calls) none
      rw [hcalls]
      exact inUse_opened
  | fails rc hpc hrc => exact ⟨rc, hrc, congrArg (Call.openDb rc :: ·) (hs.at _ hpc)⟩
  | plain a m m' c hpc ha hc hstmt hopen =>
      have hready : m.mIsOpen = true ∧ InUse o.calls m.mStmt := hs.at _ hpc
      refine ⟨hopen.trans hready.1, ?_⟩
      rw [hstmt]
      exact hready.2.plain c hc
  | replaces m stmt hpc hstmt =>
      have hready : m.mIsOpen = true ∧ InUse o.calls m.mStmt := hs.at _ hpc
      rw [hstmt] at hready
      exact ⟨hready.1, rfl, hready.2.finalize stmt⟩
  | begins m hpc hstmt =>
      have hready : m.mIsOpen = true ∧ InUse o.calls m.mStmt := hs.at _ hpc
      rw [hstmt] at hready
      exact ⟨hready.1, hstmt, hready.2⟩
  | prepares m rc made hpc =>
      have hready : m.mIsOpen = true ∧ m.mStmt = none ∧ InUse o.calls none := hs.at _ hpc
      exact ⟨hready.1, hready.2.2.prepare rc made⟩
  | commits m hpc hopen =>
      have hready : m.mIsOpen = true ∧ InUse o.calls m.mStmt := hs.at _ hpc
      exact hready.2.plain _ rfl
  | cleans m hpc hopen => exact (show _ ∧ InUse o.calls m.mStmt from hs.at _ hpc).2
  | vanishes m hpc hopen => exact absurd (show m.mIsOpen = true ∧ _ from hs.at _ hpc).1 hopen
  | finalizes m stmt hpc hstmt =>
      have huse : InUse o.calls m.mStmt := hs.at _ hpc
      rw [hstmt] at huse
      exact huse.finalize stmt
  | skips m hpc hstmt =>
      have huse : InUse o.calls m.mStmt := hs.at _ hpc
      rw [hstmt] at huse
      exact huse
  | closes m hpc =>
      -- Nothing is alive, so the connection closes.
      have huse : InUse o.calls none := hs.at _ hpc
      exact ⟨o.calls, huse, by rw [huse.alive_eq]; rfl⟩
  | throws hpc =>
      rcases hs.at _ hpc with ⟨rc, hrc, hcalls⟩
      exact ⟨rc, hrc, congrArg (Call.unlock :: ·) hcalls⟩
  | unlocks m hpc =>
      rcases hs.at _ hpc with ⟨used, huse, hcalls⟩
      exact ⟨used, huse, congrArg (Call.unlock :: ·) hcalls⟩

theorem reachable_sound {o : Object} (hr : objectSystem.Reachable o) : Sound o := by
  refine hr.invariant Sound (fun o h => ?_)
    (fun o a o' hs h => sound_of_fires o a o' hs (fires_of_step o a o' h))
  rw [show o = Object.fresh from h]
  rfl

/-- Before an object is at an open connection, and after it, there is no
    statement. -/
theorem Sound.alive_subset {o : Object} (h : Sound o) :
    alive o.calls = [] ∨ alive o.calls = o.pc.mStmt.toList := by
  rcases o with ⟨pc, calls⟩
  cases pc with
  | unborn | entered | locked => exact Or.inl (congrArg alive (show calls = _ from h))
  | failed | threw =>
      rcases h with ⟨rc, _, hcalls⟩
      exact Or.inl (congrArg alive (show calls = _ from hcalls))
  | ready m => exact Or.inr h.2.alive_eq
  | preparing m => exact Or.inl h.2.2.alive_eq
  | cleaning m => exact Or.inr (InUse.alive_eq h)
  | closing m => exact Or.inl (InUse.alive_eq h)
  | unlocking m | destroyed =>
      rcases h with ⟨used, huse, hcalls⟩
      exact Or.inl ((congrArg alive (show calls = _ from hcalls)).trans huse.alive_eq)

/-- The connection is open only while the object has the mutex. -/
theorem Sound.holdsMutex {o : Object} (h : Sound o) (hopen : isOpen o.calls = true) :
    o.pc.holdsMutex = true := by
  rcases o with ⟨pc, calls⟩
  cases pc with
  | unborn | entered =>
      rw [show calls = [] from h] at hopen
      exact absurd hopen Bool.false_ne_true
  | threw =>
      rcases h with ⟨rc, hrc, hcalls⟩
      rw [show calls = _ from hcalls] at hopen
      exact absurd (of_decide_eq_true hopen) hrc
  | destroyed =>
      rcases h with ⟨used, _, hcalls⟩
      rw [show calls = _ from hcalls] at hopen
      exact absurd hopen Bool.false_ne_true
  | locked | failed | ready _ | preparing _ | cleaning _ | closing _ | unlocking _ => rfl

/-- What a step does to having the mutex. -/
theorem holdsMutex_of_fires (o : Object) (a : Action) (o' : Object) (hs : Sound o)
    (h : Fires o a o') :
    (a = .lock ∧ o.pc.holdsMutex = false ∧ o'.pc.holdsMutex = true) ∨
    (a = .unlock ∧ o.pc.holdsMutex = true ∧ o'.pc.holdsMutex = false) ∨
    (a ≠ .lock ∧ a ≠ .unlock ∧ o'.pc.holdsMutex = o.pc.holdsMutex) := by
  cases h with
  | lock hpc => exact Or.inl ⟨rfl, by rw [hpc]; rfl, rfl⟩
  | throws hpc => exact Or.inr (Or.inl ⟨rfl, by rw [hpc]; rfl, rfl⟩)
  | unlocks m hpc => exact Or.inr (Or.inl ⟨rfl, by rw [hpc]; rfl, rfl⟩)
  | plain a m m' c hpc ha hc hstmt hopen =>
      exact Or.inr (Or.inr ⟨ha.1, ha.2, by rw [hpc]; rfl⟩)
  | vanishes m hpc hopen => exact absurd (show m.mIsOpen = true ∧ _ from hs.at _ hpc).1 hopen
  | construct hpc | opens hpc | fails _ hpc | replaces _ _ hpc | begins _ hpc | prepares _ _ _ hpc
  | commits _ hpc | cleans _ hpc | finalizes _ _ hpc | skips _ hpc | closes _ hpc =>
      exact Or.inr (Or.inr ⟨by simp only [ne_eq, reduceCtorEq, not_false_eq_true],
        by simp only [ne_eq, reduceCtorEq, not_false_eq_true], by rw [hpc]; rfl⟩)

/-- The destructor of an object always comes to its end. -/
theorem destroyed_of_ready (o : Object) (m : Members) (hr : objectSystem.Reachable o)
    (hpc : o.pc = .ready m) :
    ∃ calls, objectSystem.run o [.destroy, .finalize, .close, .unlock]
      = some ⟨.destroyed, calls⟩ := by
  have hopen : m.mIsOpen = true := (show _ ∧ InUse o.calls m.mStmt from
    (reachable_sound hr).at _ hpc).1
  rcases o with ⟨pc, calls⟩
  rw [show pc = .ready m from hpc]
  rcases m with ⟨stmt, isOpen, ongoing⟩
  rw [show isOpen = true from hopen]
  cases ongoing <;> cases stmt <;> exact ⟨_, rfl⟩

section World

variable {τ η : Type*} [DecidableEq η] (thread : η → τ)

/-- What one step does to the objects and to the mutex. -/
theorem world_step (w : World τ η) (x : η) (a : Action) (w' : World τ η)
    (h : w.step thread (x, a) = some w') :
    ∃ o, (w.objects x).step a = some o ∧ w'.objects = Function.update w.objects x o ∧
      ((a = .lock ∧ w.dbMutex = none ∧ w'.dbMutex = some (thread x)) ∨
        (a = .unlock ∧ w'.dbMutex = none) ∨
        (a ≠ .lock ∧ a ≠ .unlock ∧ w'.dbMutex = w.dbMutex)) := by
  rw [World.step] at h
  split at h
  · exact absurd h (by simp only [reduceCtorEq, not_false_eq_true])
  · rename_i o ho
    refine ⟨o, ho, ?_⟩
    split at h
    · rename_i hlock
      split at h
      · rename_i hfree
        rw [← Option.some.inj h]
        exact ⟨rfl, Or.inl ⟨hlock, hfree, rfl⟩⟩
      · exact absurd h (by simp only [reduceCtorEq, not_false_eq_true])
    · rename_i hunlock
      rw [← Option.some.inj h]
      exact ⟨rfl, Or.inr (Or.inl ⟨hunlock, rfl⟩)⟩
    · rename_i hlock hunlock
      rw [← Option.some.inj h]
      exact ⟨rfl, Or.inr (Or.inr ⟨hlock, hunlock, rfl⟩)⟩

/-- An object of a process is in a state it can reach by itself. -/
theorem reachable_object {w : World τ η} (hr : (system thread).Reachable w) (x : η) :
    objectSystem.Reachable (w.objects x) := by
  refine hr.map objectSystem (fun w => w.objects x) (fun w h => ?_) (fun w a w' h => ?_)
  · rw [show w = _ from h]
    rfl
  · rcases world_step thread w a.1 a.2 w' h with ⟨o, ho, hobjects, _⟩
    by_cases hx : x = a.1
    · refine Or.inr (Or.inr ⟨a.2, ?_⟩)
      rw [hobjects, hx, Function.update_self]
      exact ho
    · refine Or.inr (Or.inl ?_)
      rw [hobjects, Function.update_of_ne hx]

/-- Who has the mutex: nobody while it is free, and otherwise one object of the
    thread that took it. -/
def Held (w : World τ η) : Prop :=
  match w.dbMutex with
  | none => ∀ x, (w.objects x).pc.holdsMutex = false
  | some t => ∃ x, thread x = t ∧ ∀ y, (w.objects y).pc.holdsMutex = true ↔ y = x

omit [DecidableEq η] in
theorem Held.unique {w : World τ η} (h : Held thread w) (x y : η)
    (hx : (w.objects x).pc.holdsMutex = true) (hy : (w.objects y).pc.holdsMutex = true) :
    x = y := by
  rw [Held] at h
  split at h
  · exact absurd (h x) (by rw [hx]; exact Bool.noConfusion)
  · rcases h with ⟨z, _, hz⟩
    exact ((hz x).mp hx).trans ((hz y).mp hy).symm

theorem held_step (w : World τ η) (x : η) (a : Action) (w' : World τ η)
    (hsound : Sound (w.objects x)) (hheld : Held thread w)
    (h : w.step thread (x, a) = some w') : Held thread w' := by
  rcases world_step thread w x a w' h with ⟨o, ho, hobjects, hmutex⟩
  have hother : ∀ y, y ≠ x → w'.objects y = w.objects y := fun y hy => by
    rw [hobjects, Function.update_of_ne hy]
  have hself : w'.objects x = o := by rw [hobjects, Function.update_self]
  rcases holdsMutex_of_fires _ a o hsound (fires_of_step _ a o ho) with
    ⟨ha, hbefore, hafter⟩ | ⟨ha, hbefore, hafter⟩ | ⟨hlock, hunlock, hsame⟩
  · -- The mutex was free, and `x` has it now.
    have hm : w.dbMutex = none ∧ w'.dbMutex = some (thread x) := by
      rcases hmutex with ⟨_, hm⟩ | ⟨hun, _⟩ | ⟨hlock, _⟩
      · exact hm
      · exact absurd (ha.symm.trans hun) (by decide)
      · exact absurd ha hlock
    rw [Held, hm.1] at hheld
    rw [Held, hm.2]
    refine ⟨x, rfl, fun y => ?_⟩
    by_cases hy : y = x
    · rw [hy, hself]
      exact iff_of_true hafter rfl
    · rw [hother y hy, hheld y]
      exact iff_of_false Bool.false_ne_true hy
  · -- `x` had it, so nobody else has.
    have hm : w'.dbMutex = none := by
      rcases hmutex with ⟨hlock, _⟩ | ⟨_, hm⟩ | ⟨_, hunlock, _⟩
      · exact absurd (ha.symm.trans hlock) (by decide)
      · exact hm
      · exact absurd ha hunlock
    rw [Held, hm]
    intro y
    by_cases hy : y = x
    · rw [hy, hself]
      exact hafter
    · rw [hother y hy, ← Bool.not_eq_true]
      exact fun hyh => hy (hheld.unique thread y x hyh hbefore)
  · have hm : w'.dbMutex = w.dbMutex := by
      rcases hmutex with ⟨hl, _⟩ | ⟨hu, _⟩ | ⟨_, _, hm⟩
      · exact absurd hl hlock
      · exact absurd hu hunlock
      · exact hm
    have hall : ∀ y, (w'.objects y).pc.holdsMutex = (w.objects y).pc.holdsMutex := by
      intro y
      by_cases hy : y = x
      · rw [hy, hself, hsame]
      · rw [hother y hy]
    simp only [Held, hm, hall]
    exact hheld

theorem reachable_held {w : World τ η} (hr : (system thread).Reachable w) : Held thread w := by
  induction hr with
  | init w h =>
      rw [show w = _ from h]
      exact fun _ => rfl
  | step w a w' hr h ih =>
      exact held_step thread w a.1 a.2 w' (reachable_sound (reachable_object thread hr a.1)) ih h

end World

/-- Everything has been given back: each statement has been finalised once and
    before the connection was closed, which was closed once, and the mutex has
    been unlocked once. -/
structure Released (calls : List Call) : Prop where
  distinct : (prepared calls).Nodup
  finalized_once : ∀ stmt ∈ prepared calls, calls.count (.finalize stmt) = 1
  only_prepared : ∀ stmt, .finalize stmt ∈ calls → stmt ∈ prepared calls
  closed_once : ∃ after before, calls = after ++ .close true :: before ∧
    (∀ closed, .close closed ∉ after ++ before) ∧
    ∀ stmt ∈ prepared calls, .finalize stmt ∈ before
  unlocked_once : calls.count .unlock = 1

theorem count_finalize (calls : List Call) (stmt : Stmt) :
    calls.count (.finalize stmt) = (finalized calls).count stmt := by
  induction calls with
  | nil => rfl
  | cons c calls ih =>
      cases c with
      | finalize s =>
          rw [finalized, List.count_cons, List.count_cons, ih]
          simp only [beq_iff_eq, Call.finalize.injEq]
      | lock | unlock | openDb _ | prepare _ _ | onStmt _ _ | exec _ | errmsg | close _ =>
          rw [List.count_cons_of_ne (by simp only [ne_eq, reduceCtorEq, not_false_eq_true])]
          exact ih

/-- An open connection has not been closed, nor the mutex unlocked. -/
theorem InUse.not_mem {calls : List Call} {stmt : Option Stmt} (h : InUse calls stmt) (c : Call)
    (hc : c = .unlock ∨ ∃ closed, c = .close closed) : c ∉ calls := by
  rcases h.opened with ⟨used, rfl, hused⟩
  intro hmem
  rcases List.mem_append.mp hmem with hmem | hmem
  · rcases hc with rfl | ⟨closed, rfl⟩ <;> exact absurd (hused _ hmem) Bool.false_ne_true
  · rcases hc with rfl | ⟨closed, rfl⟩ <;>
      simp only [List.mem_cons, reduceCtorEq, List.not_mem_nil, or_self] at hmem

/-- An object that has been destroyed has given everything back. -/
theorem Sound.released {o : Object} (h : Sound o) (hpc : o.pc = .destroyed) :
    Released o.calls := by
  rcases h.at _ hpc with ⟨used, huse, hcalls⟩
  have hmade : prepared used = finalized used := huse.made
  have hcalls' : o.calls = .unlock :: .close true :: used := hcalls
  rw [hcalls']
  refine ⟨huse.nodup, fun stmt hstmt => ?_, fun stmt hstmt => ?_,
    ⟨[.unlock], used, rfl, fun closed hmem => ?_, fun stmt hstmt => ?_⟩, ?_⟩
  · rw [count_finalize]
    exact List.count_eq_one_of_mem (hmade ▸ huse.nodup) (hmade ▸ hstmt)
  · rw [← List.count_pos_iff, count_finalize, List.count_pos_iff] at hstmt
    exact hmade ▸ hstmt
  · rcases List.mem_cons.mp hmem with hmem | hmem
    · exact absurd hmem (by simp only [reduceCtorEq, not_false_eq_true])
    · exact huse.not_mem _ (Or.inr ⟨closed, rfl⟩) hmem
  · rw [← List.count_pos_iff, count_finalize, List.count_pos_iff]
    exact hmade ▸ hstmt
  · rw [List.count_cons_self, List.count_cons_of_ne (by decide),
      List.count_eq_zero_of_not_mem (huse.not_mem _ (Or.inl rfl))]

/-- The discipline of the handles of a process, in any interleaving. At every
    moment an object has one statement alive at most, the one in `m_stmt`. When
    it has been destroyed everything it had has been given back. One object at
    most has its connection open. -/
theorem handle_discipline {τ η : Type*} [DecidableEq η] (thread : η → τ) (w : World τ η)
    (hr : (system thread).Reachable w) :
    (∀ x, (alive (w.objects x).calls).length ≤ 1 ∧
      ∀ stmt ∈ alive (w.objects x).calls, (w.objects x).pc.mStmt = some stmt) ∧
    (∀ x, (w.objects x).pc = .destroyed → Released (w.objects x).calls) ∧
    ∀ x y, isOpen (w.objects x).calls = true → isOpen (w.objects y).calls = true → x = y := by
  have hsound : ∀ x, Sound (w.objects x) := fun x => reachable_sound (reachable_object thread hr x)
  refine ⟨fun x => ?_, fun x hx => (hsound x).released hx, fun x y hx hy => ?_⟩
  · rcases (hsound x).alive_subset with hnone | hsome
    · rw [hnone]
      exact ⟨Nat.zero_le 1, fun stmt h => absurd h List.not_mem_nil⟩
    · rw [hsome]
      refine ⟨?_, fun stmt h => Option.mem_toList.mp h⟩
      cases (w.objects x).pc.mStmt with
      | none => exact Nat.zero_le 1
      | some stmt => exact Nat.le_refl 1
  · exact (reachable_held thread hr).unique thread x y ((hsound x).holdsMutex hx)
      ((hsound y).holdsMutex hy)

/-- Two objects of two threads, one after the other. The first one makes a
    statement, fails to make another in an open transaction, and is destroyed. -/
def twoHandles : List (Bool × Action) :=
  [(true, .construct), (false, .construct), (true, .lock), (true, .openDb 0), (true, .prepareStmt),
    (true, .prepare 0 true), (true, .onStmt .step), (true, .startTransaction),
    (true, .prepareStmt), (true, .prepare 1 false), (true, .destroy), (true, .finalize),
    (true, .close), (true, .unlock), (false, .lock), (false, .openDb 0)]

theorem handle_discipline_twoHandles :
    ∃ w : World Bool Bool, (system id).run ⟨none, fun _ => Object.fresh⟩ twoHandles = some w ∧
      ((w.objects true).pc = .destroyed ∧ Released (w.objects true).calls) ∧
      ∀ y, isOpen (w.objects y).calls = true → false = y := by
  cases hrun : (system (id : Bool → Bool)).run ⟨none, fun _ => Object.fresh⟩ twoHandles with
  | none => exact absurd hrun (by decide)
  | some w =>
      have hr : (system (id : Bool → Bool)).Reachable w :=
        System.reachable_of_run _ twoHandles (System.Reachable.init _ rfl) hrun
      have hend : (w.objects true).pc = .destroyed ∧ isOpen (w.objects false).calls = true := by
        have hw := Option.some.inj hrun
        rw [← hw]
        decide
      have hall := handle_discipline id w hr
      exact ⟨w, rfl, ⟨hend.1, hall.2.1 true hend.1⟩, fun y hy => hall.2.2 false y hend.2 hy⟩

end DbHandle

end HttpFileSharing
