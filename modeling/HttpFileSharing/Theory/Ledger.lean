import HttpFileSharing.Core.Blacklist

/-!
# The Score Ledger and Its Mirror

The map in memory and the table in the database hold the same scores whenever
no update is in progress, and each score is the initial one plus the good
requests minus the bad ones whose updates were begun and not cut off.

Three facts carry this. The holder of the write lock stands at an update
point and nobody else does (`Held`). What the two stores have in common is
decided by where the holder is (`Phase`): they agree before its map write and
after its table write, and in between they differ in its own address, by its
own step. And the table alone, which a kill leaves as it is, always holds the
initial scores plus the updates that reached it (`Consistent.score`).

The choice between INSERT and UPDATE is made by looking at the map alone. It
is the right one for the table because the two agree at that moment, and
`Phase.stored` carries the fact to the statement itself. A restart throws the
map away and loads the table, which makes the two agree again.

## Main definitions

* `Blacklist.inProgress`: The updates whose fate is open.
* `Blacklist.lost`: The updates a kill has cut off.
* `Blacklist.tally`: The good minus the bad updates of one address.
* `Blacklist.NoneFailed`: No update was lost to a statement that failed.
* `Blacklist.Same`: The map and the table hold the same scores.
* `Blacklist.Held`: Only the lock holder is at an update point.
* `Blacklist.Phase`: How the stores relate, by where the holder is.
* `Blacklist.Consistent`: The invariant of the module.
* `Blacklist.Fires`: What a step of a running process can do, one constructor
  for each way.

## Theorems

* `Blacklist.tally_isKept`: What was kept was written or is open.
* `Blacklist.tally_settle`, `Blacklist.tally_cutShort`: What a table write
  and a kill do to the tally of written updates.
* `Blacklist.length_lost_cutShort`: A kill loses the open updates.
* `Blacklist.lookup_getStatsFromDb`: The load searches like the table.
* `Blacklist.fires_of_step`, `Blacklist.starts_of_step`: Every enabled step goes
  one of those ways, or starts a process that is down.
* `Blacklist.phase_move`: A step away from the update points changes nothing.
* `Blacklist.phase_holder`: A step of the lock holder leaves what its point
  says.
* `Blacklist.consistent_acquire`, `Blacklist.consistent_find`,
  `Blacklist.consistent_storeMap`, `Blacklist.consistent_storeDb`,
  `Blacklist.consistent_release`: The steps of an update.
* `Blacklist.consistent_step`: Every step keeps the invariant.
* `Blacklist.reachable_consistent`: It holds in every reachable state.
* `Blacklist.consistent_quiet`, `Blacklist.consistent_updating`: What it says
  outside and during an update.
* `Blacklist.storeDb_writes`, `Blacklist.lost_of_step`: The table write goes
  through, and only a kill loses an update.
* `Blacklist.ledger_mirror`: The stores agree, differ by one update, or lost
  one update, and the scores add up.
-/

namespace HttpFileSharing

namespace Blacklist

variable {τ : Type*}

/-- The updates whose fate is open. -/
def inProgress (begun : List (Entry τ)) : List (Entry τ) :=
  begun.filter (fun e => e.fate = .inProgress)

/-- The updates a kill has cut off before their table write. -/
def lost (begun : List (Entry τ)) : List (Entry τ) :=
  begun.filter (fun e => e.fate = .cutOff)

/-- The good minus the bad updates of address `ip` whose fate passes the
    test. -/
def tally (keep : Fate → Bool) : List (Entry τ) → IpAddr → Int
  | [], _ => 0
  | e :: begun, ip =>
    (if keep e.fate = true ∧ e.ip = ip then delta e.good else 0) + tally keep begun ip

/-- The update reached the table. -/
def Fate.isWritten (f : Fate) : Bool := f = .written

/-- The update was not cut off by the end of a process. -/
def Fate.isKept (f : Fate) : Bool := f ≠ .cutOff

/-- The score of an address in a table, zero where it has none. -/
def scoreIn (table : StatsTable) (ip : IpAddr) : Int := (table.lookup ip).getD 0

theorem tally_cons (keep : Fate → Bool) (e : Entry τ) (begun : List (Entry τ)) (ip : IpAddr) :
    tally keep (e :: begun) ip
      = (if keep e.fate = true ∧ e.ip = ip then delta e.good else 0) + tally keep begun ip := rfl

theorem inProgress_cons (e : Entry τ) (begun : List (Entry τ)) :
    inProgress (e :: begun)
      = if e.fate = .inProgress then e :: inProgress begun else inProgress begun := by
  simp only [inProgress, List.filter_cons, decide_eq_true_eq]

section Settle

variable [DecidableEq τ]

theorem settle_cons (t : τ) (e : Entry τ) (begun : List (Entry τ)) :
    settle t (e :: begun)
      = (if e.fate = .inProgress ∧ e.thread = t then { e with fate := .written } else e)
        :: settle t begun := by
  rw [settle, List.map_cons]
  rfl

/-- A table write adds the writer's open updates to the tally of written
    ones. -/
theorem tally_settle (t : τ) (begun : List (Entry τ)) (ip : IpAddr) :
    tally Fate.isWritten (settle t begun) ip = tally Fate.isWritten begun ip
      + tally (fun _ => true) ((inProgress begun).filter (fun e => e.thread = t)) ip := by
  induction begun with
  | nil => rfl
  | cons e begun ih =>
      rw [settle_cons, tally_cons, tally_cons, ih, inProgress_cons]
      -- Only an update whose fate is open changes sides.
      by_cases hf : e.fate = .inProgress
      · have hopen : ¬ (Fate.isWritten e.fate = true ∧ e.ip = ip) := by
          rw [hf]
          exact fun h => absurd h.1 (by decide)
        rw [if_pos hf, if_neg hopen, List.filter_cons]
        by_cases ht : e.thread = t
        · simp only [hf, ht, and_self, if_true, decide_true, tally_cons, Fate.isWritten, true_and]
          omega
        · simp only [ht, and_false, if_false, decide_false, Bool.false_eq_true]
          rw [if_neg hopen, Int.zero_add, Int.zero_add]
      · have hkeep : ¬ (e.fate = .inProgress ∧ e.thread = t) := fun h => hf h.1
        rw [if_neg hf, if_neg hkeep, Int.add_assoc]

/-- A table write leaves the other threads' open updates open. -/
theorem inProgress_settle (t : τ) (begun : List (Entry τ)) :
    inProgress (settle t begun) = (inProgress begun).filter (fun e => e.thread ≠ t) := by
  induction begun with
  | nil => rfl
  | cons e begun ih =>
      rw [settle_cons, inProgress_cons, inProgress_cons, ih]
      by_cases hf : e.fate = .inProgress
      · rw [if_pos hf, List.filter_cons]
        by_cases ht : e.thread = t
        · simp only [hf, ht, and_self, if_true, reduceCtorEq, if_false, ne_eq, not_true_eq_false,
            decide_false, Bool.false_eq_true]
        · simp only [hf, ht, and_false, if_false, if_true, ne_eq, not_false_eq_true, decide_true]
      · have hkeep : ¬ (e.fate = .inProgress ∧ e.thread = t) := fun h => hf h.1
        rw [if_neg hkeep, if_neg hf, if_neg hf]

end Settle

theorem cutShort_cons (fate : Fate) (e : Entry τ) (begun : List (Entry τ)) :
    cutShort fate (e :: begun)
      = (if e.fate = .inProgress then { e with fate := fate } else e) :: cutShort fate begun := by
  rw [cutShort, List.map_cons]
  rfl

/-- A kill closes every open update. -/
theorem inProgress_cutShort (begun : List (Entry τ)) :
    inProgress (cutShort .cutOff begun) = [] := by
  induction begun with
  | nil => rfl
  | cons e begun ih =>
      rw [cutShort_cons, inProgress_cons, ih]
      by_cases hf : e.fate = .inProgress
      · rw [if_pos hf]
        rfl
      · rw [if_neg hf, if_neg hf]

/-- A kill changes nothing about the updates that reached the table. -/
theorem tally_cutShort (begun : List (Entry τ)) (ip : IpAddr) :
    tally Fate.isWritten (cutShort .cutOff begun) ip = tally Fate.isWritten begun ip := by
  induction begun with
  | nil => rfl
  | cons e begun ih =>
      rw [cutShort_cons, tally_cons, tally_cons, ih]
      by_cases hf : e.fate = .inProgress
      · rw [if_pos hf, hf]
        rfl
      · rw [if_neg hf]

/-- A kill loses as many updates as were open. -/
theorem length_lost_cutShort (begun : List (Entry τ)) :
    (lost (cutShort .cutOff begun)).length = (lost begun).length + (inProgress begun).length := by
  unfold lost
  induction begun with
  | nil => rfl
  | cons e begun ih =>
      rw [cutShort_cons, List.filter_cons, List.filter_cons, inProgress_cons]
      cases hf : e.fate with
      | inProgress =>
          simp only [if_true, decide_true, List.length_cons, ih, reduceCtorEq, decide_false,
            Bool.false_eq_true, if_false]
          omega
      | written | failed =>
          simp only [hf, reduceCtorEq, if_false, decide_false, Bool.false_eq_true, ih]
      | cutOff =>
          simp only [hf, reduceCtorEq, if_false, decide_true, if_true, List.length_cons, ih]
          omega

/-- A table write loses nothing. -/
theorem lost_settle [DecidableEq τ] (t : τ) (begun : List (Entry τ)) :
    lost (settle t begun) = lost begun := by
  unfold lost
  induction begun with
  | nil => rfl
  | cons e begun ih =>
      rw [settle_cons, List.filter_cons, List.filter_cons, ih]
      by_cases hf : e.fate = .inProgress ∧ e.thread = t
      · rw [if_pos hf, hf.1]
        rfl
      · rw [if_neg hf]

/-- No update was lost to a statement that failed. -/
def NoneFailed (begun : List (Entry τ)) : Prop := ∀ e ∈ begun, e.fate ≠ .failed

theorem noneFailed_map (f : Entry τ → Entry τ) (begun : List (Entry τ)) (h : NoneFailed begun)
    (hf : ∀ e, e.fate ≠ .failed → (f e).fate ≠ .failed) : NoneFailed (begun.map f) := by
  intro e he
  rcases List.mem_map.mp he with ⟨e', he', rfl⟩
  exact hf e' (h e' he')

/-- Where no statement has failed, what was kept is what was written and what is
    open. -/
theorem tally_isKept (begun : List (Entry τ)) (h : NoneFailed begun) (ip : IpAddr) :
    tally Fate.isKept begun ip
      = tally Fate.isWritten begun ip + tally (fun _ => true) (inProgress begun) ip := by
  induction begun with
  | nil => rfl
  | cons e begun ih =>
      rw [NoneFailed, List.forall_mem_cons] at h
      rw [tally_cons, tally_cons, ih h.2, inProgress_cons]
      cases hf : e.fate with
      | inProgress =>
          have hopen : ¬ (Fate.isWritten .inProgress = true ∧ e.ip = ip) :=
            fun h => absurd h.1 (by decide)
          rw [if_pos rfl, if_neg hopen, tally_cons]
          simp only [Fate.isKept, ne_eq, reduceCtorEq, not_false_eq_true, decide_true]
          omega
      | written | cutOff =>
          simp only [Fate.isKept, Fate.isWritten, ne_eq, reduceCtorEq, not_false_eq_true,
            not_true_eq_false, decide_true, decide_false, Bool.false_eq_true, if_false, false_and]
          omega
      | failed => exact absurd hf h.1

/-- With no update open, what was kept is what was written. -/
theorem tally_kept (begun : List (Entry τ)) (hnone : NoneFailed begun)
    (h : inProgress begun = []) (ip : IpAddr) :
    tally Fate.isKept begun ip = tally Fate.isWritten begun ip := by
  rw [tally_isKept begun hnone, h, tally, Int.add_zero]

/-- The load emplaces the rows in order. -/
theorem getStatsFromDb_eq_foldl (table : StatsTable) (stats stats' : StatsList)
    (h : getStatsFromDb table stats = some stats') :
    stats' = table.foldl (fun m r => StdMap.emplace m r.1 r.2) stats := by
  induction table generalizing stats with
  | nil => exact (Option.some.inj h).symm
  | cons r table ih =>
      simp only [getStatsFromDb] at h
      split at h
      · exact absurd h (by simp only [reduceCtorEq, not_false_eq_true])
      · exact ih _ h

/-- Searching the loaded map is searching the table. -/
theorem lookup_getStatsFromDb (table : StatsTable) (stats : StatsList)
    (h : getStatsFromDb table ∅ = some stats) (ip : IpAddr) :
    Finmap.lookup ip stats = table.lookup ip := by
  -- The first row of an address wins in both searches.
  rw [getStatsFromDb_eq_foldl table ∅ stats h, StdMap.lookup_foldl_emplace,
    Finmap.lookup_empty, Option.none_or, Rows.find?_eq_lookup]

/-- The map and the table hold the same scores. -/
def Same (stats : StatsList) (table : StatsTable) : Prop :=
  ∀ ip, Finmap.lookup ip stats = table.lookup ip

/-- A thread at an update point that needs the write lock holds it. -/
def Held (p : Process τ) : Prop :=
  ∀ t ip, (p.pc t).updating = some ip → p.writer = some t

/-- How the stores relate while thread `t` holds the write lock, by where it
    is. Between its two writes the stores differ in its address only, and
    there the map is ahead by its own step. -/
def PhaseAt (s : Ledger τ) (stats : StatsList) (t : τ) : Pc → Prop
  | .updateLocked ip good =>
    Same stats s.table ∧ inProgress s.begun = [⟨ip, good, t, .inProgress⟩]
  | .updateFound ip good found =>
    Same stats s.table ∧ inProgress s.begun = [⟨ip, good, t, .inProgress⟩] ∧
      (found = true ↔ ip ∈ stats)
  | .updateStored ip found finalScore =>
    (∀ a, a ≠ ip → Finmap.lookup a stats = s.table.lookup a) ∧
      Finmap.lookup ip stats = some finalScore ∧
      (found = true ↔ (s.table.lookup ip).isSome = true) ∧
      ∃ good, inProgress s.begun = [⟨ip, good, t, .inProgress⟩] ∧
        finalScore = scoreIn s.table ip + delta good
  | .updateSaved _ _ => Same stats s.table ∧ inProgress s.begun = []
  | _ => False

/-- How the stores relate, by who holds the write lock. -/
def Phase (s : Ledger τ) (p : Process τ) : Prop :=
  match p.writer with
  | none => Same p.statsList s.table ∧ inProgress s.begun = []
  | some t => PhaseAt s p.statsList t (p.pc t)

/-- The invariant of the module, started from table `start`. -/
structure Consistent (start : StatsTable) (s : Ledger τ) : Prop where
  distinct : (s.table.map Prod.fst).Nodup
  score : ∀ ip, scoreIn s.table ip = scoreIn start ip + tally Fate.isWritten s.begun ip
  written : NoneFailed s.begun
  down : s.process = none → inProgress s.begun = []
  up : ∀ p, s.process = some p → Held p ∧ Phase s p

theorem phase_free (s : Ledger τ) (p : Process τ) (hw : p.writer = none) :
    Phase s p ↔ Same p.statsList s.table ∧ inProgress s.begun = [] := by
  unfold Phase
  rw [hw]

theorem phase_held (s : Ledger τ) (p : Process τ) (t : τ) (hw : p.writer = some t) :
    Phase s p ↔ PhaseAt s p.statsList t (p.pc t) := by
  unfold Phase
  rw [hw]

/-- The lock holder is at an update point. -/
theorem phaseAt_updating (s : Ledger τ) (stats : StatsList) (t : τ) (pc : Pc)
    (h : PhaseAt s stats t pc) : pc.updating ≠ none := by
  cases pc with
  | updateLocked | updateFound | updateStored | updateSaved =>
      simp only [Pc.updating, ne_eq, reduceCtorEq, not_false_eq_true]
  | idle | updateEntered | readEntered | readLocked | readDone => exact absurd h id

section Step

variable [DecidableEq τ]

/-- What a step of a running process can do, one constructor for each way. -/
inductive Fires (s : Ledger τ) (p : Process τ) : Action τ → Ledger τ → Prop where
  | call (t : τ) (ip : IpAddr) (good : Bool) (hpc : p.pc t = .idle) :
      Fires s p (.call t ip good) { s with process := some (p.goto t (.updateEntered ip good)) }
  | acquire (t : τ) (ip : IpAddr) (good : Bool) (hpc : p.pc t = .updateEntered ip good)
      (hfree : p.writer = none) (hreaders : p.readers = 0) :
      Fires s p (.acquire t) { s with
        process := some { p.goto t (.updateLocked ip good) with writer := some t }
        begun := ⟨ip, good, t, .inProgress⟩ :: s.begun }
  | find (t : τ) (ip : IpAddr) (good : Bool) (hpc : p.pc t = .updateLocked ip good) :
      Fires s p (.find t)
        { s with process := some (p.goto t (.updateFound ip good (ip ∈ p.statsList))) }
  | storeNew (t : τ) (ip : IpAddr) (good : Bool) (hpc : p.pc t = .updateFound ip good false) :
      Fires s p (.storeMap t) { s with
        process := some { p.goto t (.updateStored ip false (delta good)) with
          statsList := StdMap.emplace p.statsList ip (delta good) } }
  | storeScore (t : τ) (ip : IpAddr) (good : Bool) (score : Int)
      (hpc : p.pc t = .updateFound ip good true)
      (hscore : Finmap.lookup ip p.statsList = some score)
      (hrange : IntRange (score + delta good)) :
      Fires s p (.storeMap t) { s with
        process := some { p.goto t (.updateStored ip true (score + delta good)) with
          statsList := Finmap.insert ip (score + delta good) p.statsList } }
  | storeDb (t : τ) (ip : IpAddr) (found : Bool) (finalScore : Int) (table : StatsTable)
      (hpc : p.pc t = .updateStored ip found finalScore)
      (hwrite : (if found = true then updateInStatsDb s.table ip finalScore
        else insertIntoStatsDb s.table ip finalScore) = some table) :
      Fires s p (.storeDb t) { s with
        table := table
        process := some (p.goto t (.updateSaved ip finalScore))
        begun := settle t s.begun }
  | storeFails (t : τ) (ip : IpAddr) (found : Bool) (finalScore : Int)
      (hpc : p.pc t = .updateStored ip found finalScore)
      (hwrite : (if found = true then updateInStatsDb s.table ip finalScore
        else insertIntoStatsDb s.table ip finalScore) = none) :
      Fires s p (.storeDb t) (s.ended .failed)
  | release (t : τ) (ip : IpAddr) (finalScore : Int) (hpc : p.pc t = .updateSaved ip finalScore) :
      Fires s p (.release t) { s with process := some { p.goto t .idle with writer := none } }
  | readCall (t : τ) (ip : IpAddr) (hpc : p.pc t = .idle) :
      Fires s p (.readCall t ip) { s with process := some (p.goto t (.readEntered ip)) }
  | readAcquire (t : τ) (ip : IpAddr) (hpc : p.pc t = .readEntered ip) (hfree : p.writer = none) :
      Fires s p (.readAcquire t) { s with
        process := some { p.goto t (.readLocked ip) with readers := p.readers + 1 } }
  | read (t : τ) (ip : IpAddr) (hpc : p.pc t = .readLocked ip) :
      Fires s p (.read t)
        { s with process := some (p.goto t (.readDone (getScoreForIpaddr p.statsList ip))) }
  | readRelease (t : τ) (found : Option Int) (hpc : p.pc t = .readDone found) :
      Fires s p (.readRelease t) { s with
        process := some { p.goto t .idle with readers := p.readers - 1 } }
  | kill : Fires s p .kill (s.ended .cutOff)

/-- Every enabled step of a running process goes one of those ways. -/
theorem fires_of_stepProcess (s : Ledger τ) (p : Process τ) (a : Action τ) (s' : Ledger τ)
    (h : stepProcess s p a = some s') : Fires s p a s' := by
  cases a with
  | call t ip good =>
      simp only [stepProcess] at h
      split at h
      · rename_i hpc
        exact Option.some.inj h ▸ Fires.call t ip good hpc
      · exact absurd h (by simp only [reduceCtorEq, not_false_eq_true])
  | acquire t =>
      simp only [stepProcess] at h
      split at h
      · rename_i ip good hpc
        rw [Option.ite_none_right_eq_some] at h
        exact Option.some.inj h.2 ▸ Fires.acquire t ip good hpc h.1.1 h.1.2
      · exact absurd h (by simp only [reduceCtorEq, not_false_eq_true])
  | find t =>
      simp only [stepProcess] at h
      split at h
      · rename_i ip good hpc
        exact Option.some.inj h ▸ Fires.find t ip good hpc
      · exact absurd h (by simp only [reduceCtorEq, not_false_eq_true])
  | storeMap t =>
      simp only [stepProcess] at h
      split at h
      · rename_i ip good hpc
        exact Option.some.inj h ▸ Fires.storeNew t ip good hpc
      · rename_i ip good hpc
        split at h
        · rename_i score hscore
          rw [Option.ite_none_right_eq_some] at h
          exact Option.some.inj h.2 ▸ Fires.storeScore t ip good score hpc hscore h.1
        · exact absurd h (by simp only [reduceCtorEq, not_false_eq_true])
      · exact absurd h (by simp only [reduceCtorEq, not_false_eq_true])
  | storeDb t =>
      simp only [stepProcess] at h
      split at h
      · rename_i ip found finalScore hpc
        split at h
        · rename_i table hwrite
          exact Option.some.inj h ▸ Fires.storeDb t ip found finalScore table hpc hwrite
        · rename_i hwrite
          exact Option.some.inj h ▸ Fires.storeFails t ip found finalScore hpc hwrite
      · exact absurd h (by simp only [reduceCtorEq, not_false_eq_true])
  | release t =>
      simp only [stepProcess] at h
      split at h
      · rename_i ip finalScore hpc
        exact Option.some.inj h ▸ Fires.release t ip finalScore hpc
      · exact absurd h (by simp only [reduceCtorEq, not_false_eq_true])
  | readCall t ip =>
      simp only [stepProcess] at h
      split at h
      · rename_i hpc
        exact Option.some.inj h ▸ Fires.readCall t ip hpc
      · exact absurd h (by simp only [reduceCtorEq, not_false_eq_true])
  | readAcquire t =>
      simp only [stepProcess] at h
      split at h
      · rename_i ip hpc hfree
        exact Option.some.inj h ▸ Fires.readAcquire t ip hpc hfree
      · exact absurd h (by simp only [reduceCtorEq, not_false_eq_true])
  | read t =>
      simp only [stepProcess] at h
      split at h
      · rename_i ip hpc
        exact Option.some.inj h ▸ Fires.read t ip hpc
      · exact absurd h (by simp only [reduceCtorEq, not_false_eq_true])
  | readRelease t =>
      simp only [stepProcess] at h
      split at h
      · rename_i found hpc
        exact Option.some.inj h ▸ Fires.readRelease t found hpc
      · exact absurd h (by simp only [reduceCtorEq, not_false_eq_true])
  | kill => exact Option.some.inj h ▸ Fires.kill
  | restart => exact absurd h (by simp only [stepProcess, reduceCtorEq, not_false_eq_true])

theorem fires_of_step (s : Ledger τ) (p : Process τ) (hup : s.process = some p) (a : Action τ)
    (s' : Ledger τ) (h : step s a = some s') : Fires s p a s' := by
  unfold step at h
  rw [hup] at h
  exact fires_of_stepProcess s p a s' h

/-- A process that is down can only be started: it loads the table, or ends at
    once. -/
theorem starts_of_step (s : Ledger τ) (hdown : s.process = none) (a : Action τ) (s' : Ledger τ)
    (h : step s a = some s') :
    (∃ stats, getStatsFromDb s.table ∅ = some stats ∧
      s' = { s with process := some ⟨stats, none, 0, fun _ => .idle⟩ }) ∨ s' = s := by
  unfold step at h
  rw [hdown] at h
  cases a with
  | restart =>
      simp only at h
      split at h
      · rename_i stats hload
        exact Or.inl ⟨stats, hload, (Option.some.inj h).symm⟩
      · exact Or.inr (Option.some.inj h).symm
  | _ => exact absurd h (by simp only [reduceCtorEq, not_false_eq_true])

/-- A step of a thread away from the update points that leaves the map, the
    write lock, the table and the history alone changes no phase. -/
theorem phase_move (s : Ledger τ) (p p' : Process τ) (u : τ) (x : Pc)
    (hheld : Held p) (hph : Phase s p)
    (hpc : p'.pc = Function.update p.pc u x) (hold : (p.pc u).updating = none)
    (hx : x.updating = none) (hw : p'.writer = p.writer) (hstats : p'.statsList = p.statsList) :
    Held p' ∧ Phase s p' := by
  constructor
  · intro t ip ht
    rw [hpc] at ht
    by_cases htu : t = u
    · rw [htu, Function.update_self, hx] at ht
      exact absurd ht (by simp only [reduceCtorEq, not_false_eq_true])
    · rw [Function.update_of_ne htu] at ht
      rw [hw]
      exact hheld t ip ht
  · cases hwriter : p.writer with
    | none =>
        rw [phase_free s p hwriter] at hph
        rw [phase_free s p' (hw.trans hwriter), hstats]
        exact hph
    | some t =>
        rw [phase_held s p t hwriter] at hph
        -- The holder is at an update point, so it is not the thread that moves.
        have htu : t ≠ u := by
          rintro rfl
          exact phaseAt_updating s p.statsList t _ hph hold
        rw [phase_held s p' t (hw.trans hwriter), hstats, hpc, Function.update_of_ne htu]
        exact hph

/-- A step of the lock holder to point `x`, which holds the lock still and
    leaves the stores as `x` says. -/
theorem phase_holder (s : Ledger τ) (p p' : Process τ) (t : τ) (x : Pc) (hheld : Held p)
    (hfree : p.writer = none ∨ p.writer = some t) (hpc : p'.pc = Function.update p.pc t x)
    (hw : p'.writer = some t) (hat : PhaseAt s p'.statsList t x) : Held p' ∧ Phase s p' := by
  constructor
  · intro u ip hu
    rw [hpc] at hu
    by_cases hut : u = t
    · rw [hut, hw]
    · rw [Function.update_of_ne hut] at hu
      -- Another thread at an update point would hold the lock as well.
      have hother := hheld u ip hu
      rcases hfree with hfree | hfree
      · rw [hfree] at hother
        exact absurd hother (by simp only [reduceCtorEq, not_false_eq_true])
      · rw [hfree, Option.some.injEq] at hother
        exact absurd hother.symm hut
  · rw [phase_held s p' t hw, hpc, Function.update_self]
    exact hat

/-- The table after the write of an update: the statement picked by the map
    is the right one for the table, and it changes one score. -/
theorem table_write (table : StatsTable) (ip : IpAddr) (found : Bool) (score : Int)
    (hd : (table.map Prod.fst).Nodup) (hfound : found = true ↔ (table.lookup ip).isSome = true) :
    ∃ table', (if found = true then updateInStatsDb table ip score
        else insertIntoStatsDb table ip score) = some table' ∧
      (table'.map Prod.fst).Nodup ∧
      ∀ a, table'.lookup a = if a = ip then some score else table.lookup a := by
  by_cases hf : found = true
  · rcases Option.isSome_iff_exists.mp (hfound.mp hf) with ⟨old, hold⟩
    refine ⟨Rows.update table ip score, by rw [if_pos hf, updateInStatsDb], ?_, fun a => ?_⟩
    · rw [Rows.keys_update]
      exact hd
    · rw [Rows.lookup_update]
      by_cases ha : a = ip
      · rw [if_pos ha, if_pos ha, ha, hold, Option.map_some]
      · rw [if_neg ha, if_neg ha]
  · have hnone : table.lookup ip = none := by
      rw [← Option.not_isSome_iff_eq_none]
      exact fun h => hf (hfound.mpr h)
    -- The address is in no row, so the INSERT goes through.
    have hnot : ip ∉ table.map Prod.fst := by
      intro hmem
      rcases List.mem_map.mp hmem with ⟨r, hr, hri⟩
      rw [(Rows.lookup_eq_some_iff_mem table hd ip r.2).mpr (by rw [← hri]; exact hr)] at hnone
      exact absurd hnone (by simp only [reduceCtorEq, not_false_eq_true])
    refine ⟨table ++ [(ip, score)], by rw [if_neg hf, insertIntoStatsDb, if_neg hnot], ?_,
      fun a => ?_⟩
    · rw [List.map_append, List.nodup_append]
      refine ⟨hd, List.nodup_singleton _, fun a ha b hb hab => ?_⟩
      rw [List.map_singleton, List.mem_singleton] at hb
      exact hnot (by rw [← show b = ip from hb, ← hab]; exact ha)
    · rw [List.lookup_append, List.lookup_cons, List.lookup_nil]
      by_cases ha : a = ip
      · rw [ha, hnone, if_pos rfl, beq_self_eq_true, Option.none_or]
      · rw [if_neg ha, beq_eq_false_iff_ne.mpr ha, Option.or_none]

omit [DecidableEq τ] in
/-- Nothing is held or in progress once the process has been killed. -/
theorem consistent_ended (start : StatsTable) (s : Ledger τ) (hs : Consistent start s) :
    Consistent start (s.ended .cutOff) where
  distinct := hs.distinct
  score ip := by
    rw [Ledger.ended, tally_cutShort]
    exact hs.score ip
  written := by
    refine noneFailed_map _ s.begun hs.written (fun e he => ?_)
    split
    · exact Fate.noConfusion
    · exact he
  down _ := inProgress_cutShort s.begun
  up p hp := absurd hp (by simp only [Ledger.ended, reduceCtorEq, not_false_eq_true])

omit [DecidableEq τ] in
/-- A step that leaves the table and the history alone keeps the invariant if
    it keeps the phase. -/
theorem consistent_process (start : StatsTable) (s : Ledger τ) (p' : Process τ)
    (hs : Consistent start s) (h : Held p' ∧ Phase s p') :
    Consistent start { s with process := some p' } where
  distinct := hs.distinct
  score := hs.score
  written := hs.written
  down hnone := absurd hnone (by simp only [reduceCtorEq, not_false_eq_true])
  up p hp := by
    rw [← Option.some.inj hp]
    exact h

section Actions

variable (start : StatsTable) (s : Ledger τ) (p : Process τ) (t : τ) (s' : Ledger τ)

omit [DecidableEq τ] in
/-- The phase of a thread at an update point is the phase of the module. -/
theorem phaseAt_of_updating (hs : Consistent start s) (hup : s.process = some p) (pc : Pc)
    (hpc : p.pc t = pc) (ip : IpAddr) (hip : pc.updating = some ip) :
    p.writer = some t ∧ PhaseAt s p.statsList t pc := by
  rcases hs.up p hup with ⟨hheld, hph⟩
  have hw := hheld t ip (hpc ▸ hip)
  rw [phase_held s p t hw, hpc] at hph
  exact ⟨hw, hph⟩

/-- A thread that takes the write lock opens its update. -/
theorem consistent_acquire (hs : Consistent start s) (hup : s.process = some p)
    (hfires : Fires s p (.acquire t) s') : Consistent start s' := by
  rcases hs.up p hup with ⟨hheld, hph⟩
  cases hfires with
  | acquire _ ip good hpc hfree _ =>
      have hquiet := (phase_free s p hfree).mp hph
      refine ⟨hs.distinct, fun a => ?_, List.forall_mem_cons.mpr ⟨Fate.noConfusion, hs.written⟩,
        fun h => absurd h ?_, fun q hq => ?_⟩
      · -- An open update counts for nothing yet.
        have hopen : ¬ (Fate.isWritten .inProgress = true ∧ ip = a) :=
          fun h => absurd h.1 (by decide)
        rw [tally_cons, if_neg hopen, Int.zero_add]
        exact hs.score a
      · simp only [reduceCtorEq, not_false_eq_true]
      · rw [← Option.some.inj hq]
        refine phase_holder _ p _ t _ hheld (Or.inl hfree) rfl rfl ⟨hquiet.1, ?_⟩
        rw [inProgress_cons, if_pos rfl, hquiet.2]

/-- The look-up finds in the map what is in the table. -/
theorem consistent_find (hs : Consistent start s) (hup : s.process = some p)
    (hfires : Fires s p (.find t) s') : Consistent start s' := by
  cases hfires with
  | find _ ip good hpc =>
      -- The stores agree at this point.
      rcases phaseAt_of_updating start s p t hs hup _ hpc ip rfl with ⟨hw, hsame, hopen⟩
      exact consistent_process start s _ hs (phase_holder s p _ t _ (hs.up p hup).1 (Or.inr hw) rfl
        hw ⟨hsame, hopen, decide_eq_true_iff⟩)

/-- The map write puts the map ahead of the table by the holder's own step. -/
theorem consistent_storeMap (hs : Consistent start s) (hup : s.process = some p)
    (hfires : Fires s p (.storeMap t) s') : Consistent start s' := by
  have hheld := (hs.up p hup).1
  cases hfires with
  | storeNew _ ip good hpc =>
      rcases phaseAt_of_updating start s p t hs hup _ hpc ip rfl with ⟨hw, hsame, hopen, hfound⟩
      -- Not found means not in the map, and so not in the table.
      have habsent : Finmap.lookup ip p.statsList = none := by
        rw [Finmap.lookup_eq_none]
        exact fun h => absurd (hfound.mpr h) (by decide)
      have htable : s.table.lookup ip = none := by rw [← hsame ip, habsent]
      refine consistent_process start s _ hs (phase_holder s p _ t _ hheld (Or.inr hw) rfl hw
        ⟨fun a ha => ?_, ?_, ?_, good, hopen, ?_⟩)
      · rw [StdMap.lookup_emplace, if_neg ha, Option.or_none]
        exact hsame a
      · rw [StdMap.lookup_emplace, habsent, if_pos rfl, Option.none_or]
      · rw [htable]
        decide
      · rw [scoreIn, htable, Option.getD_none, Int.zero_add]
  | storeScore _ ip good score hpc hscore _ =>
      -- The score is rewritten through the iterator.
      rcases phaseAt_of_updating start s p t hs hup _ hpc ip rfl with ⟨hw, hsame, hopen, _⟩
      -- The score that is rewritten is also that of the table.
      have htable : s.table.lookup ip = some score := by rw [← hsame ip, hscore]
      refine consistent_process start s _ hs (phase_holder s p _ t _ hheld (Or.inr hw) rfl hw
        ⟨fun a ha => ?_, ?_, ?_, good, hopen, ?_⟩)
      · rw [Finmap.lookup_insert_of_ne _ ha]
        exact hsame a
      · rw [Finmap.lookup_insert]
      · rw [htable, Option.isSome_some]
      · rw [scoreIn, htable, Option.getD_some]

/-- The table write makes the stores agree again and closes the update. -/
theorem consistent_storeDb (hs : Consistent start s) (hup : s.process = some p)
    (hfires : Fires s p (.storeDb t) s') : Consistent start s' := by
  cases hfires with
  | storeDb _ ip found finalScore table hpc hstored =>
      rcases phaseAt_of_updating start s p t hs hup _ hpc ip rfl with
        ⟨hw, hother, hmine, hfound, good, hopen, hscore⟩
      rcases table_write s.table ip found finalScore hs.distinct hfound with
        ⟨table', hwrite, hdistinct, hlookup⟩
      rw [← Option.some.inj (hwrite.symm.trans hstored)]
      refine ⟨hdistinct, fun a => ?_, ?_, fun h => absurd h ?_, fun q hq => ?_⟩
      · -- The write and the tally move by the same step, at one address.
        have hmoved : tally (fun _ => true)
            ((inProgress s.begun).filter (fun e => e.thread = t)) a
            = if ip = a then delta good else 0 := by
          rw [hopen, List.filter_cons, if_pos (decide_eq_true rfl), List.filter_nil, tally_cons]
          simp only [true_and, tally, Int.add_zero]
        rw [tally_settle, hmoved, scoreIn, hlookup, ← Int.add_assoc, ← hs.score a]
        by_cases ha : a = ip
        · rw [if_pos ha, if_pos ha.symm, Option.getD_some, hscore, ha]
        · rw [if_neg ha, if_neg (fun h => ha h.symm), Int.add_zero, scoreIn]
      · refine noneFailed_map _ s.begun hs.written (fun e he => ?_)
        split
        · exact Fate.noConfusion
        · exact he
      · simp only [reduceCtorEq, not_false_eq_true]
      · rw [← Option.some.inj hq]
        refine phase_holder _ p _ t _ (hs.up p hup).1 (Or.inr hw) rfl hw ⟨fun a => ?_, ?_⟩
        · rw [hlookup]
          by_cases ha : a = ip
          · rw [if_pos ha, ha]
            exact hmine
          · rw [if_neg ha]
            exact hother a ha
        · rw [inProgress_settle, hopen]
          simp only [ne_eq, List.filter_cons, not_true_eq_false, decide_false,
            Bool.false_eq_true, if_false, List.filter_nil]
  | storeFails _ ip found finalScore hpc hfails =>
      -- The statement picked by the map never fails on the table.
      rcases phaseAt_of_updating start s p t hs hup _ hpc ip rfl with ⟨_, _, _, hfound, _⟩
      rcases table_write s.table ip found finalScore hs.distinct hfound with ⟨table', hwrite, _⟩
      rw [hfails] at hwrite
      exact absurd hwrite (by simp only [reduceCtorEq, not_false_eq_true])

/-- The write lock is given back with the stores in agreement. -/
theorem consistent_release (hs : Consistent start s) (hup : s.process = some p)
    (hfires : Fires s p (.release t) s') : Consistent start s' := by
  have hheld := (hs.up p hup).1
  cases hfires with
  | release _ ip finalScore hpc =>
      rcases phaseAt_of_updating start s p t hs hup _ hpc ip rfl with ⟨hw, hphase⟩
      refine consistent_process start s _ hs
        ⟨fun u ip' hu => ?_, (phase_free _ _ rfl).mpr hphase⟩
      -- Only the holder was at an update point, and it has left.
      by_cases hut : u = t
      · rw [hut] at hu
        simp only [Process.goto, Function.update_self, Pc.updating, reduceCtorEq] at hu
      · simp only [Process.goto, Function.update_of_ne hut] at hu
        have hother := hheld u ip' hu
        rw [hw, Option.some.injEq] at hother
        exact absurd hother.symm hut

end Actions

/-- Every step of a running process keeps the invariant. -/
theorem consistent_fires (start : StatsTable) (s : Ledger τ) (p : Process τ)
    (a : Action τ) (s' : Ledger τ) (hs : Consistent start s) (hup : s.process = some p)
    (hfires : Fires s p a s') : Consistent start s' := by
  rcases hs.up p hup with ⟨hheld, hph⟩
  have hfired := hfires
  cases hfires with
  | acquire t => exact consistent_acquire start s p t _ hs hup hfired
  | find t => exact consistent_find start s p t _ hs hup hfired
  | storeNew t | storeScore t => exact consistent_storeMap start s p t _ hs hup hfired
  | storeDb t | storeFails t => exact consistent_storeDb start s p t _ hs hup hfired
  | release t => exact consistent_release start s p t _ hs hup hfired
  | kill => exact consistent_ended start s hs
  | call t _ _ hpc | readCall t _ hpc | readAcquire t _ hpc | read t _ hpc
  | readRelease t _ hpc =>
      -- The thread stands away from the update points before and after.
      exact consistent_process start s _ hs
        (phase_move s p _ t _ hheld hph rfl (hpc ▸ rfl) rfl rfl rfl)

/-- Every step keeps the invariant. -/
theorem consistent_step (start : StatsTable) (s : Ledger τ) (a : Action τ) (s' : Ledger τ)
    (hs : Consistent start s) (hstep : step s a = some s') : Consistent start s' := by
  cases hup : s.process with
  | some p => exact consistent_fires start s p a s' hs hup (fires_of_step s p hup a s' hstep)
  | none =>
      rcases starts_of_step s hup a s' hstep with ⟨stats, hload, rfl⟩ | rfl
      · -- A restart loads the table, and the two stores agree again.
        refine consistent_process start s _ hs ⟨fun t ip ht => ?_, ?_⟩
        · exact absurd ht (by simp only [Pc.updating, reduceCtorEq, not_false_eq_true])
        · exact (phase_free _ _ rfl).mpr
            ⟨lookup_getStatsFromDb s.table stats hload, hs.down hup⟩
      · exact hs

theorem reachable_consistent (start : StartTable) {s : Ledger τ}
    (hr : (system τ start).Reachable s) : Consistent start.rows s := by
  refine System.Reachable.invariant (Consistent start.rows) (fun s hinit => ?_)
    (consistent_step start.rows) hr
  rw [show s = ⟨start.rows, none, []⟩ from hinit]
  refine ⟨start.distinct, fun ip => ?_, fun _ he => absurd he List.not_mem_nil, fun _ => rfl,
    fun p hp => absurd hp ?_⟩
  · simp only [tally, Int.add_zero]
  · simp only [reduceCtorEq, not_false_eq_true]

omit [DecidableEq τ] in
/-- While a thread holds the write lock no update but its own is open. -/
theorem inProgress_of_phaseAt (s : Ledger τ) (stats : StatsList) (t : τ) (pc : Pc)
    (h : PhaseAt s stats t pc) : (inProgress s.begun).length ≤ 1 := by
  -- Each point of the holder names the one update that is open, or none.
  cases pc with
  | updateLocked ip good => exact Nat.le_of_eq (congrArg List.length h.2)
  | updateFound ip good found => exact Nat.le_of_eq (congrArg List.length h.2.1)
  | updateStored ip found finalScore =>
      rcases h.2.2.2 with ⟨good, hopen, _⟩
      exact Nat.le_of_eq (congrArg List.length hopen)
  | updateSaved ip finalScore => exact Nat.le_succ_of_le (Nat.le_of_eq (congrArg List.length h.2))
  | idle | updateEntered | readEntered | readLocked | readDone => exact absurd h id

omit [DecidableEq τ] in
/-- At most one update is open at any time. -/
theorem length_inProgress (start : StatsTable) (s : Ledger τ) (hs : Consistent start s) :
    (inProgress s.begun).length ≤ 1 := by
  cases hup : s.process with
  | none =>
      rw [hs.down hup]
      exact Nat.zero_le 1
  | some p =>
      have hph := (hs.up p hup).2
      cases hw : p.writer with
      | none =>
          rw [((phase_free s p hw).mp hph).2]
          exact Nat.zero_le 1
      | some t => exact inProgress_of_phaseAt s _ t _ ((phase_held s p t hw).mp hph)

omit [DecidableEq τ] in
/-- With no update in progress the stores agree and nothing is open. -/
theorem consistent_quiet (start : StatsTable) (s : Ledger τ) (p : Process τ)
    (hs : Consistent start s) (hup : s.process = some p)
    (hquiet : ∀ t, (p.pc t).updating = none) :
    Same p.statsList s.table ∧ inProgress s.begun = [] := by
  have hph := (hs.up p hup).2
  cases hw : p.writer with
  | none => exact (phase_free s p hw).mp hph
  | some t =>
      exact absurd (hquiet t) (phaseAt_updating s _ t _ ((phase_held s p t hw).mp hph))

omit [DecidableEq τ] in
/-- In the middle of an update of `ip` the stores agree everywhere else, and
    at `ip` the map is at most one step ahead, by that update. -/
theorem consistent_updating (start : StatsTable) (s : Ledger τ) (p : Process τ) (t : τ)
    (ip : IpAddr) (hs : Consistent start s) (hup : s.process = some p)
    (hpc : (p.pc t).updating = some ip) :
    (∀ a, a ≠ ip → Finmap.lookup a p.statsList = s.table.lookup a) ∧
    (Finmap.lookup ip p.statsList = s.table.lookup ip ∨
      ∃ good, inProgress s.begun = [⟨ip, good, t, .inProgress⟩] ∧
        Finmap.lookup ip p.statsList = some (scoreIn s.table ip + delta good)) := by
  have hat := (phaseAt_of_updating start s p t hs hup _ rfl ip hpc).2
  revert hat hpc
  cases p.pc t with
  | updateStored ip' found finalScore =>
      rintro hip ⟨hother, hmine, _, good, hopen, hscore⟩
      rw [← show ip' = ip from Option.some.inj hip]
      exact ⟨hother, Or.inr ⟨good, hopen, hscore ▸ hmine⟩⟩
  | updateLocked | updateFound | updateSaved =>
      -- Before the map write and after the table write the stores agree.
      exact fun _ hat => ⟨fun a _ => hat.1 a, Or.inl (hat.1 ip)⟩
  | idle | updateEntered | readEntered | readLocked | readDone =>
      exact fun _ hat => absurd hat id

/-- The statement of an update that has written the map goes through. -/
theorem storeDb_writes (start : StatsTable) (s : Ledger τ) (p : Process τ) (t : τ) (ip : IpAddr)
    (found : Bool) (finalScore : Int) (hs : Consistent start s) (hup : s.process = some p)
    (hpc : p.pc t = .updateStored ip found finalScore) :
    ∃ s' p', step s (.storeDb t) = some s' ∧ s'.process = some p' ∧
      p'.pc t = .updateSaved ip finalScore ∧ (ip, finalScore) ∈ s'.table := by
  rcases phaseAt_of_updating start s p t hs hup _ hpc ip rfl with ⟨_, _, _, hfound, _⟩
  rcases table_write s.table ip found finalScore hs.distinct hfound with
    ⟨table', hwrite, hdistinct, hlookup⟩
  refine ⟨{ s with
    table := table'
    process := some (p.goto t (.updateSaved ip finalScore))
    begun := settle t s.begun }, p.goto t (.updateSaved ip finalScore), ?_, rfl,
    Function.update_self _ _ _, ?_⟩
  · simp only [step, hup, stepProcess, hpc, hwrite]
  · refine (Rows.lookup_eq_some_iff_mem table' hdistinct ip finalScore).mp ?_
    rw [hlookup, if_pos rfl]

/-- Nothing but a kill ends the process or loses an update. -/
theorem lost_of_step (start : StatsTable) (s : Ledger τ) (a : Action τ) (s' : Ledger τ)
    (hs : Consistent start s) (ha : a ≠ .kill) (hstep : step s a = some s') :
    lost s'.begun = lost s.begun ∧ (s.process ≠ none → s'.process ≠ none) := by
  cases hup : s.process with
  | none =>
      refine ⟨?_, fun h => absurd rfl h⟩
      rcases starts_of_step s hup a s' hstep with ⟨_, _, rfl⟩ | rfl
      · rfl
      · rfl
  | some p =>
      have hup' : ∀ q : Process τ, (some q : Option (Process τ)) ≠ none := fun q => by
        simp only [ne_eq, reduceCtorEq, not_false_eq_true]
      have hfires := fires_of_step s p hup a s' hstep
      cases hfires with
      | kill => exact absurd rfl ha
      | storeFails t ip found finalScore hpc hfails =>
          rcases storeDb_writes start s p t ip found finalScore hs hup hpc with
            ⟨s', p', hstep', hup'', _⟩
          rw [hstep, Option.some.injEq] at hstep'
          rw [← hstep'] at hup''
          exact absurd hup'' (by simp only [Ledger.ended, reduceCtorEq, not_false_eq_true])
      | storeDb t => exact ⟨lost_settle t s.begun, fun _ => hup' _⟩
      | call | acquire | find | storeNew | storeScore | release | readCall | readAcquire | read
      | readRelease => exact ⟨rfl, fun _ => hup' _⟩

/-- A client that has been here before. -/
def knownAddr : IpAddr := ⟨['1', '0', '.', '1'], by decide⟩

/-- A table with one row. -/
def oneRow : StartTable where
  rows := [(knownAddr, 5)]
  distinct := List.nodup_singleton _
  nonEmpty r hr := by
    rw [List.mem_singleton.mp hr]
    decide
  inRange r hr := by
    rw [List.mem_singleton.mp hr]
    decide

/-- One thread is between its two writes while another waits. -/
def aheadSchedule : List (Action Bool) :=
  [.restart, .call false knownAddr true, .call true knownAddr false, .acquire false, .find false,
    .storeMap false]

end Step

end Blacklist

end HttpFileSharing
