import HttpFileSharing.Theory.InFlight

/-!
# Bans

What the blacklist does to an address over a whole run of the server. The
verdict is made once, when a connection is accepted, and the penalty comes
later from a worker, so any number of connections can pass before the first
penalty lands. How far below the threshold a score can fall is a matter of how
many connections of the address are in flight at once.

What the induction carries is not the bound on the score but on the score less
the connections still to be scored: each of them may take one away, and a new
one is let through only while the score is not below the threshold or the
address has none.

A ban with nothing in flight is settled. The loop turns every connection of the
address away, so no handler updates its score, and a restart loads the score
that the table has.

## Main definitions

* `ServerLoop.Bounded`: The score covers the penalties still to come.
* `ServerLoop.Settled`: One score in both stores and nothing in flight.
* `ServerLoop.scoreAt`: The score of an address in a state.

## Theorems

* `ServerLoop.bounded_step`, `ServerLoop.reachable_bounded`,
  `ServerLoop.score_bounded`: How far a score can fall.
* `ServerLoop.agree_of_inFlight`: The stores agree on an address with nothing in
  flight.
* `ServerLoop.settled_step`, `ServerLoop.ban_permanent`: A settled ban is
  permanent.
-/

namespace HttpFileSharing

namespace ServerLoop

variable {ω : Type*} [Fintype ω] [DecidableEq ω]

/-- A score that covers the penalties still to come: however the handlers of
    the connections in flight go on, it stays above the bound. -/
structure Bounded (threshold : Int) (bound : Nat) (ip : IpAddr) (s : State ω) : Prop where
  table : min threshold 0 - bound ≤ Blacklist.scoreIn s.ledger.table ip
  map : ∀ p, s.ledger.process = some p →
    min threshold 0 - bound + carried ip (fun w => Unscored (s.stage w)) s
      ≤ (Finmap.lookup ip p.statsList).getD 0

omit [Fintype ω] [DecidableEq ω] in
/-- An address that is not blacklisted has no score or one that is not below
    the threshold. -/
theorem score_of_not_blacklisted (threshold : Int) (stats : StatsList) (ip : IpAddr)
    (h : isIpaddrBlacklisted threshold stats ip = false) :
    min threshold 0 ≤ (Finmap.lookup ip stats).getD 0 := by
  unfold isIpaddrBlacklisted at h
  cases hlook : Finmap.lookup ip stats with
  | none =>
      rw [Option.getD_none]
      exact min_le_right threshold 0
  | some score =>
      rw [hlook] at h
      exact (min_le_left threshold 0).trans (not_lt.mp (of_decide_eq_false h))

theorem neg_one_le_delta (good : Bool) : -1 ≤ delta good := by
  cases good <;> decide

section Step

variable (threshold : Int) (start : StatsTable) (s : State ω) (a : Action ω) (s' : State ω)

omit [Fintype ω] in
/-- The table keeps its score of an address, or takes it from the map. -/
theorem table_of_step (hl : Blacklist.Consistent start s.ledger)
    (h : step threshold s a = some s') (ip : IpAddr) :
    s'.ledger.table.lookup ip = s.ledger.table.lookup ip ∨
      ∃ p, s.ledger.process = some p ∧
        s'.ledger.table.lookup ip = Finmap.lookup ip p.statsList := by
  rcases goes_of_step threshold s a s' h with ⟨p, hup, _⟩ | ⟨hdown, l, hstep, rfl⟩
  · rcases ledger_of_step threshold s a s' h with hsame | ⟨b, hb⟩
    · exact Or.inl (by rw [hsame])
    · rcases step_tableScore start s.ledger p hl hup b s'.ledger hb ip with hsame | hmap
      · exact Or.inl hsame
      · exact Or.inr ⟨p, hup, hmap⟩
  · exact Or.inl (by rw [fresh_ledger, (restart_idle s.ledger hdown l hstep).1])

theorem bounded_step (bound : Nat) (ip : IpAddr) (hl : Blacklist.Consistent start s.ledger)
    (hc : Coupled s) (hs : Bounded threshold bound ip s) (hflight : inFlight ip s' ≤ bound)
    (h : step threshold s a = some s') : Bounded threshold bound ip s' := by
  constructor
  · -- The table's score is the old one, or the map's, which is no lower.
    unfold Blacklist.scoreIn
    rcases table_of_step threshold start s a s' hl h ip with hsame | ⟨p, hup, hmap⟩
    · rw [hsame]
      exact hs.table
    · rw [hmap]
      have hscore := hs.map p hup
      omega
  · intro p' hup'
    rcases goes_of_step threshold s a s' h with ⟨p, hup, hgoes⟩ | ⟨hdown, l, hstep, rfl⟩
    · have hscore := hs.map p hup
      rcases score_goes threshold start s p s' hc hl hup hgoes p' hup' ip with
        hsame | ⟨w, conn, good, hw, hsrc, hstage, hpool, hloop, hstage', hown⟩
      · rw [hsame]
        rcases carried_goes threshold s p ip Unscored ebbs_unscored s' hgoes with hle | hverdict
        · omega
        · -- Let through: the connections in flight are at most the bound.
          have hthrough := score_of_not_blacklisted threshold p.statsList ip hverdict
          have hpart := carried_le_inFlight ip (fun w => Unscored (s'.stage w)) s'
          omega
      · -- The score may have gone down by one, and one penalty fewer is to come.
        have hless := carried_storeMap s ip Unscored s' w conn hw hsrc (by rw [hstage]; rfl)
          rfl hpool hloop hstage'
        have hdelta := neg_one_le_delta good
        rw [hown, Option.getD_some]
        omega
    · -- The loaded score is that of the table, and nothing is in flight.
      rw [fresh_ledger] at hup'
      have hload := ((restart_idle s.ledger hdown l hstep).2 p' hup').1
      rw [carried_fresh, Blacklist.lookup_getStatsFromDb s.ledger.table _ hload ip]
      exact (Int.add_zero _).le.trans hs.table

/-- One score in both stores, and no connection of the address in flight. -/
structure Settled (ip : IpAddr) (score : Int) (s : State ω) : Prop where
  map : ∀ p, s.ledger.process = some p → Finmap.lookup ip p.statsList = some score
  table : s.ledger.table.lookup ip = some score
  inFlight : inFlight ip s = 0

theorem settled_step (ip : IpAddr) (score : Int) (hl : Blacklist.Consistent start s.ledger)
    (hc : Coupled s) (hbelow : score < threshold) (hs : Settled ip score s)
    (h : step threshold s a = some s') : Settled ip score s' := by
  have htable : s'.ledger.table.lookup ip = some score := by
    rcases table_of_step threshold start s a s' hl h ip with hsame | ⟨p, hup, hmap⟩
    · rw [hsame, hs.table]
    · rw [hmap, hs.map p hup]
  rcases goes_of_step threshold s a s' h with ⟨p, hup, hgoes⟩ | ⟨hdown, l, hstep, rfl⟩
  · refine ⟨fun p' hup' => ?_, htable, ?_⟩
    · rcases score_goes threshold start s p s' hc hl hup hgoes p' hup' ip with
        hsame | ⟨w, conn, _, hw, hsrc, _⟩
      · rw [hsame, hs.map p hup]
      · -- A worker that writes the score runs a connection of the address.
        have hpos := inFlight_pos s ip w conn hw hsrc
        rw [hs.inFlight] at hpos
        exact absurd hpos (Nat.lt_irrefl 0)
    · rcases carried_goes threshold s p ip (fun _ => true) ebbs_all s' hgoes with hle | hverdict
      · exact Nat.le_zero.mp (hle.trans (Nat.le_of_eq hs.inFlight))
      · -- Nobody below the threshold is let through.
        unfold isIpaddrBlacklisted at hverdict
        rw [hs.map p hup] at hverdict
        exact absurd hbelow (of_decide_eq_false hverdict)
  · refine ⟨fun p' hup' => ?_, htable, carried_fresh ip _ l⟩
    have hload := ((restart_idle s.ledger hdown l hstep).2 p' hup').1
    rw [Blacklist.lookup_getStatsFromDb s.ledger.table _ hload ip, hs.table]

end Step

/-- A table without rows. -/
def noRows : Blacklist.StartTable where
  rows := []
  distinct := List.nodup_nil
  nonEmpty _ hr := absurd hr List.not_mem_nil
  inRange _ hr := absurd hr List.not_mem_nil

/-- From an empty table the score covers the penalties still to come, if the
    address never has more connections in flight than the bound. -/
theorem reachable_bounded (threshold : Int) (ip : IpAddr) (bound : Nat) (s : State ω)
    (hr : (system ω threshold noRows).ReachableWithin (fun s => inFlight ip s ≤ bound) s) :
    Bounded threshold bound ip s := by
  refine System.ReachableWithin.invariant (Bounded threshold bound ip) (fun s hinit => ?_)
    (fun s a s' hr' hflight hs hstep => ?_) hr
  · rw [show s = State.fresh ⟨noRows.rows, none, []⟩ from hinit]
    refine ⟨?_, fun p hp => absurd hp (by simp only [fresh_ledger, reduceCtorEq,
      not_false_eq_true])⟩
    have hzero : Blacklist.scoreIn noRows.rows ip = 0 := rfl
    rw [fresh_ledger, hzero]
    have hmin := min_le_right threshold 0
    omega
  · rcases reachable_coupled threshold noRows hr' with ⟨hl, hc⟩
    exact bounded_step threshold noRows.rows s a s' bound ip hl hc hs hflight hstep

/-- From an empty table the score of an address never falls further below the
    threshold, or below zero, than it has connections in flight at once. -/
theorem score_bounded (threshold : Int) (ip : IpAddr) (bound : Nat) (s : State ω)
    (hr : (system ω threshold noRows).ReachableWithin (fun s => inFlight ip s ≤ bound) s) :
    (∀ p, s.ledger.process = some p →
      min threshold 0 - bound ≤ (getScoreForIpaddr p.statsList ip).getD 0) ∧
    min threshold 0 - bound ≤ Blacklist.scoreIn s.ledger.table ip := by
  have hs := reachable_bounded threshold ip bound s hr
  refine ⟨fun p hup => ?_, hs.table⟩
  have hscore := hs.map p hup
  unfold getScoreForIpaddr
  omega

/-- The connection of a client that sends a bad request. -/
def knownConn : Conn := ⟨Blacklist.knownAddr⟩

/-- A connection is accepted and let through. -/
def takeIn (conn : Conn) : List (Action ω) :=
  [.accept conn, .stats (.readAcquire none), .check, .verdict]

/-- A connection that was let through is queued, and worker `w` runs it. -/
def hand (w : ω) : List (Action ω) :=
  [.addJob, .pool (.lockQueue ()), .pool (.push ()), .pool (.post ()), .pool (.unlockQueue ()),
    .pool (.semWait w), .pool (.lock w), .pool (.pop w), .pool (.unlock w)]

/-- Worker `w` updates the score after a bad request, as far as the map. -/
def penalty (w : ω) : List (Action ω) :=
  [.update w false, .stats (.acquire (some w)), .stats (.find (some w)), .storeMap w]

theorem score_bounded_schedule :
    ∃ s : State Unit, ∃ p, s.ledger.process = some p ∧
      getScoreForIpaddr p.statsList Blacklist.knownAddr = some (-1) ∧
      min (0 : Int) 0 - (1 : Nat) ≤ (getScoreForIpaddr p.statsList Blacklist.knownAddr).getD 0 := by
  have hstart : (system Unit 0 noRows).ReachableWithin
      (fun s => decide (inFlight Blacklist.knownAddr s ≤ 1) = true)
      (State.fresh ⟨noRows.rows, none, []⟩) :=
    System.ReachableWithin.init _ rfl (by decide)
  have hend : (((system Unit 0 noRows).runWithin
      (fun s => decide (inFlight Blacklist.knownAddr s ≤ 1)) (State.fresh ⟨noRows.rows, none, []⟩)
      (.restart :: takeIn knownConn ++ hand () ++ penalty ())).bind
        (fun s => s.ledger.process)).map
          (fun p => getScoreForIpaddr p.statsList Blacklist.knownAddr) = some (some (-1)) := by
    decide
  rcases Option.map_eq_some_iff.mp hend with ⟨p, hp, hscore⟩
  rcases Option.bind_eq_some_iff.mp hp with ⟨s, hrun, hup⟩
  have hr := System.reachableWithin_of_run _ _ _ hstart hrun
  simp only [decide_eq_true_eq] at hr
  exact ⟨s, p, hup, hscore, (score_bounded 0 Blacklist.knownAddr 1 s hr).1 p hup⟩

/-- The score of an address: the one in the map, or in the table while the
    server is down. -/
def scoreAt (ip : IpAddr) (s : State ω) : Option Int :=
  match s.ledger.process with
  | some p => getScoreForIpaddr p.statsList ip
  | none => s.ledger.table.lookup ip

omit [DecidableEq ω] in
/-- With no connection of an address in flight the stores agree on it. -/
theorem agree_of_inFlight (start : StatsTable) (s : State ω)
    (hl : Blacklist.Consistent start s.ledger) (hc : Coupled s)
    (p : Blacklist.Process (Option ω)) (hup : s.ledger.process = some p) (ip : IpAddr)
    (hflight : inFlight ip s = 0) :
    Finmap.lookup ip p.statsList = s.ledger.table.lookup ip := by
  have hphase := (hl.up p hup).2
  cases hw : p.writer with
  | none => exact ((Blacklist.phase_free s.ledger p hw).mp hphase).1 ip
  | some t =>
      rw [Blacklist.phase_held s.ledger p t hw] at hphase
      cases hpc : p.pc t with
      | updateLocked | updateFound | updateSaved =>
          rw [hpc] at hphase
          exact hphase.1 ip
      | updateStored ip' found finalScore =>
          rw [hpc] at hphase
          refine hphase.1 ip ?_
          rintro rfl
          -- Between its two writes, the holder runs a connection of the address.
          cases t with
          | none =>
              have hnone := hc.loop p hup
              rw [hpc] at hnone
              exact absurd hnone (by simp only [working, reduceCtorEq, not_false_eq_true])
          | some w =>
              rcases (hc.worker p hup w ip .stored (by rw [hpc]; rfl)).2 with ⟨conn, hrun, hsrc⟩
              have hpos := inFlight_pos s ip w conn hrun hsrc
              rw [hflight] at hpos
              exact Nat.lt_irrefl 0 hpos
      | idle | updateEntered | readEntered | readLocked | readDone =>
          rw [hpc] at hphase
          exact absurd hphase id

omit [DecidableEq ω] in
theorem settled_of_scoreAt (start : StatsTable) (s : State ω)
    (hl : Blacklist.Consistent start s.ledger) (hc : Coupled s) (ip : IpAddr) (score : Int)
    (hscore : scoreAt ip s = some score) (hflight : inFlight ip s = 0) : Settled ip score s := by
  unfold scoreAt at hscore
  cases hup : s.ledger.process with
  | none =>
      rw [hup] at hscore
      exact ⟨fun p hp => absurd (hup.symm.trans hp) (by simp only [reduceCtorEq,
        not_false_eq_true]), hscore, hflight⟩
  | some p =>
      rw [hup] at hscore
      refine ⟨fun q hq => ?_, ?_, hflight⟩
      · rw [← Option.some.inj (hup.symm.trans hq)]
        exact hscore
      · rw [← agree_of_inFlight start s hl hc p hup ip hflight]
        exact hscore

omit [DecidableEq ω] in
theorem blacklisted_of_settled (threshold : Int) (ip : IpAddr) (score : Int) (s : State ω)
    (hs : Settled ip score s) (hbelow : score < threshold) (p : Blacklist.Process (Option ω))
    (hup : s.ledger.process = some p) : isIpaddrBlacklisted threshold p.statsList ip = true := by
  unfold isIpaddrBlacklisted
  rw [hs.map p hup]
  exact decide_eq_true hbelow

/-- The verdict on a connection of a banned address is that it is
    blacklisted. -/
theorem checked_of_settled (threshold : Int) (ip : IpAddr) (score : Int) (s s' : State ω)
    (hs : Settled ip score s) (hbelow : score < threshold) (conn : Conn) (hsrc : conn.src = ip)
    (hloop : s.loop = .checking conn) (h : step threshold s .check = some s') :
    s'.loop = .checked conn true := by
  rcases running_of_step threshold s .check (by simp only [ne_eq, reduceCtorEq,
    not_false_eq_true]) s' h with ⟨p, hup, h⟩
  simp only [stepRunning, hloop] at h
  rcases Option.map_eq_some_iff.mp h with ⟨l, _, rfl⟩
  rw [hsrc, blacklisted_of_settled threshold ip score s hs hbelow p hup]

/-- A connection of an address with nothing in flight has not been let
    through. -/
theorem dropped_of_inFlight (threshold : Int) (ip : IpAddr) (s s' : State ω)
    (hflight : inFlight ip s = 0) (conn : Conn) (blacklisted : Bool) (hsrc : conn.src = ip)
    (hloop : s.loop = .checked conn blacklisted) (h : step threshold s .verdict = some s') :
    s'.loop = .accepting ∧ s'.pool = s.pool := by
  have hverdict : blacklisted = true := by
    cases blacklisted with
    | true => rfl
    | false =>
        have hcarries : s.loop.carries ip = true := by
          rw [hloop]
          exact decide_eq_true hsrc
        unfold inFlight carried at hflight
        rw [if_pos hcarries] at hflight
        omega
  rcases running_of_step threshold s .verdict (by simp only [ne_eq, reduceCtorEq,
    not_false_eq_true]) s' h with ⟨p, _, h⟩
  simp only [stepRunning, hloop] at h
  rcases Option.map_eq_some_iff.mp h with ⟨l, _, rfl⟩
  exact ⟨if_pos hverdict, rfl⟩

/-- A settled ban is permanent. Once an address has a score below the
    threshold and nothing in flight, every run from there, restarts included,
    leaves its score in both stores, finds each of its connections blacklisted
    and drops it before a job is added. -/
theorem ban_permanent (threshold : Int) (start : Blacklist.StartTable) (ip : IpAddr)
    (score : Int) (s s' : State ω) (hr : (system ω threshold start).Reachable s)
    (hscore : scoreAt ip s = some score) (hbelow : score < threshold)
    (hflight : inFlight ip s = 0)
    (hcont : ((system ω threshold start).startingAt s).Reachable s') :
    (∀ p, s'.ledger.process = some p → getScoreForIpaddr p.statsList ip = some score) ∧
    s'.ledger.table.lookup ip = some score ∧
    inFlight ip s' = 0 ∧
    (∀ conn s'', conn.src = ip → s'.loop = .checking conn →
      step threshold s' .check = some s'' → s''.loop = .checked conn true) ∧
    (∀ conn blacklisted s'', conn.src = ip → s'.loop = .checked conn blacklisted →
      step threshold s' .verdict = some s'' → s''.loop = .accepting ∧ s''.pool = s'.pool) := by
  have hs : Settled ip score s' := by
    -- On how the run goes on from `s`.
    induction hcont with
    | init t ht =>
        rcases reachable_coupled threshold start hr with ⟨hl, hc⟩
        rw [show t = s from ht]
        exact settled_of_scoreAt start.rows s hl hc ip score hscore hflight
    | step t a t' ht hstep ih =>
        rcases reachable_coupled threshold start (hr.of_startingAt ht) with ⟨hl, hc⟩
        exact settled_step threshold start.rows t a t' ip score hl hc hbelow ih hstep
  exact ⟨hs.map, hs.table, hs.inFlight,
    fun conn s'' hsrc hloop h => checked_of_settled threshold ip score s' s'' hs hbelow conn hsrc
      hloop h,
    fun conn b s'' hsrc hloop h => dropped_of_inFlight threshold ip s' s'' hs.inFlight conn b hsrc
      hloop h⟩

theorem ban_permanent_schedule :
    ∃ s : State Unit, (((system Unit 9 Blacklist.oneRow).startingAt
        (State.fresh ⟨Blacklist.oneRow.rows, none, []⟩)).run
          (State.fresh ⟨Blacklist.oneRow.rows, none, []⟩)
          [.restart, .accept knownConn, .stats (.readAcquire none), .kill, .restart,
            .accept knownConn, .stats (.readAcquire none)]) = some s ∧
      ∀ s'', step 9 s .check = some s'' → s''.loop = .checked knownConn true := by
  have hstart : (system Unit 9 Blacklist.oneRow).Reachable
      (State.fresh ⟨Blacklist.oneRow.rows, none, []⟩) := System.Reachable.init _ rfl
  have hend : (((system Unit 9 Blacklist.oneRow).startingAt
        (State.fresh ⟨Blacklist.oneRow.rows, none, []⟩)).run
          (State.fresh ⟨Blacklist.oneRow.rows, none, []⟩)
          [.restart, .accept knownConn, .stats (.readAcquire none), .kill, .restart,
            .accept knownConn, .stats (.readAcquire none)]).map State.loop
        = some (.checking knownConn) := by
    decide
  rcases Option.map_eq_some_iff.mp hend with ⟨s, hrun, hloop⟩
  have hcont := System.reachable_of_run _ _ (System.Reachable.init _ rfl) hrun
  exact ⟨s, hrun, fun s'' h => (ban_permanent 9 Blacklist.oneRow Blacklist.knownAddr 5
    _ s hstart (by decide) (by decide) (by decide) hcont).2.2.2.1 knownConn s'' rfl hloop h⟩

end ServerLoop

end HttpFileSharing
