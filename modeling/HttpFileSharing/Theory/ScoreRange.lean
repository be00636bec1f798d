import HttpFileSharing.Theory.Ban

/-!
# The Range of a Score

A score is a C++ `int`, and an update adds to it without looking. What it
comes to is the good requests of the address less the bad ones, as far as their
updates were not cut off, so the addition is within range exactly as long as
that number is.

Below, the ban check helps. A score stays above the threshold less the
connections of the address in flight, and there would have to be two thousand
million of them. Above there is nothing: a client that sends one good request
after the other gets to the largest `int`, and its next good request has no
result.

## Main definitions

* `ServerLoop.quiet`: A server with one score and nothing under way.
* `ServerLoop.goodVisit`: A client comes, sends a good request and is done.

## Theorems

* `Blacklist.tally_found`: What the addition comes to.
* `ServerLoop.score_covers`: How low a score is at its addition.
* `ServerLoop.addition_inRange_iff`: When the addition is in range.
* `ServerLoop.run_goodVisit`: A visit adds one.
* `ServerLoop.reachable_quiet`: Every score that an `int` has is reached.
* `ServerLoop.addition_overflows`: The addition that goes out of range.
-/

namespace HttpFileSharing

namespace Blacklist

/-- The addition of an update comes to the initial score plus the good less the
    bad updates, the one under way included. -/
theorem tally_found {τ : Type*} (start : StatsTable) (s : Ledger τ) (p : Process τ) (t : τ)
    (hs : Consistent start s) (hup : s.process = some p) (ip : IpAddr) (good : Bool)
    (hpc : p.pc t = .updateFound ip good true) (score : Int)
    (hscore : getScoreForIpaddr p.statsList ip = some score) :
    score + delta good = scoreIn start ip + tally Fate.isKept s.begun ip := by
  rcases phaseAt_of_updating start s p t hs hup _ hpc ip rfl with ⟨_, hsame, hopen, _⟩
  have htable : s.table.lookup ip = some score := by
    rw [← hsame ip]
    exact hscore
  have hsum := hs.score ip
  rw [scoreIn, htable, Option.getD_some] at hsum
  -- The one update that is open is this one.
  rw [tally_isKept s.begun hs.written, hopen, tally_cons, if_pos ⟨rfl, rfl⟩, tally, Int.add_zero,
    ← Int.add_assoc, ← hsum]

end Blacklist

namespace ServerLoop

section Range

variable {ω : Type*} [Fintype ω] [DecidableEq ω]

omit [DecidableEq ω] in
/-- At the addition a score still covers the penalty that may be added. -/
theorem score_covers (threshold : Int) (ip : IpAddr) (bound : Nat) (s : State ω)
    (hc : Coupled s) (hs : Bounded threshold bound ip s) (p : Blacklist.Process (Option ω))
    (hup : s.ledger.process = some p) (t : Option ω) (good : Bool)
    (hpc : p.pc t = .updateFound ip good true) (score : Int)
    (hscore : getScoreForIpaddr p.statsList ip = some score) :
    min threshold 0 - bound + 1 ≤ score := by
  cases t with
  | none =>
      have hloop := hc.loop p hup
      rw [hpc] at hloop
      exact absurd hloop (by simp only [working, reduceCtorEq, not_false_eq_true])
  | some w =>
      -- The worker's own connection is still to be scored.
      rcases hc.worker p hup w ip .called (by rw [hpc]; rfl) with ⟨hstage, conn, hrun, hsrc⟩
      have hpos := carried_pos s ip (fun v => Unscored (s.stage v)) w conn hrun hsrc
        (by rw [hstage]; rfl)
      have hmap := hs.map p hup
      rw [show Finmap.lookup ip p.statsList = some score from hscore, Option.getD_some] at hmap
      omega

/-- From an empty table the addition of an update is within range exactly when
    the good less the bad updates of the address, this one included and those
    that were cut off left out, are. While the connections of the address in
    flight are never more than the threshold leaves room for, that can only
    fail above. -/
theorem addition_inRange_iff (threshold : Int) (ip : IpAddr) (s : State ω)
    (hr : (system ω threshold noRows).Reachable s) (p : Blacklist.Process (Option ω))
    (hup : s.ledger.process = some p) (t : Option ω) (good : Bool)
    (hpc : p.pc t = .updateFound ip good true) (score : Int)
    (hscore : getScoreForIpaddr p.statsList ip = some score) :
    (IntRange (score + delta good)
      ↔ IntRange (Blacklist.tally Blacklist.Fate.isKept s.ledger.begun ip)) ∧
    ((system ω threshold noRows).ReachableWithin
        (fun s => (inFlight ip s : Int) ≤ 2 ^ 31 + min threshold 0) s →
      (IntRange (score + delta good)
        ↔ Blacklist.tally Blacklist.Fate.isKept s.ledger.begun ip < 2 ^ 31)) := by
  rcases reachable_coupled threshold noRows hr with ⟨hl, hc⟩
  have hsum := Blacklist.tally_found noRows.rows s.ledger p t hl hup ip good hpc score hscore
  rw [show Blacklist.scoreIn noRows.rows ip = 0 from rfl, Int.zero_add] at hsum
  refine ⟨by rw [hsum], fun hwithin => ?_⟩
  have hroom : 0 ≤ 2 ^ 31 + min threshold 0 :=
    (Int.natCast_nonneg _).trans hwithin.within
  have hbounded := reachable_bounded threshold ip (2 ^ 31 + min threshold 0).toNat s
    (hwithin.mono (fun s hs => (Int.le_toNat hroom).mpr hs))
  have hcovers := score_covers threshold ip _ s hc hbounded p hup t good hpc score hscore
  have hdelta := neg_one_le_delta good
  unfold IntRange
  omega

end Range

section Visits

variable (conn : Conn) (table : StatsTable) (stats : StatsList)
  (begun : List (Blacklist.Entry (Option Unit))) (pushed : List Conn)
  (popped : List (Unit × Conn))

/-- A server of one worker with nothing under way. -/
def quiet : State Unit where
  ledger := ⟨table, some ⟨stats, none, 0, fun _ => .idle⟩, begun⟩
  pool := { TPool.State.fresh with pushed := pushed, popped := popped }
  loop := .accepting
  stage _ := .fresh

/-- The server with its worker before the map write of a good request. -/
def adding : State Unit where
  ledger := ⟨table, some ⟨stats, some (some ()), 0, Function.update (fun _ => .idle) (some ())
    (.updateFound conn.src true (conn.src ∈ stats))⟩,
    ⟨conn.src, true, some (), .inProgress⟩ :: begun⟩
  pool := { TPool.State.fresh with
    pushed := pushed, popped := popped
    worker := Function.update (fun _ => .waiting) () (.running conn) }
  loop := .accepting
  stage := Function.update (fun _ => .fresh) () .called

/-- A client comes, is let through and sends a good request, as far as the map
    write. -/
def goodVisit : List (Action Unit) :=
  takeIn conn ++ hand ()
    ++ [.update () true, .stats (.acquire (some ())), .stats (.find (some ()))]

/-- The rest of its update. -/
def scored : List (Action Unit) :=
  [.storeMap (), .stats (.storeDb (some ())), .returned (), .finish ()]

theorem run_goodVisit (hok : isIpaddrBlacklisted 0 stats conn.src = false) :
    (system Unit 0 noRows).run (quiet table stats begun pushed popped) (goodVisit conn)
      = some (adding conn table stats begun (pushed ++ [conn]) (popped ++ [((), conn)])) := by
  simp only [goodVisit, takeIn, hand, List.cons_append, List.nil_append, System.run, system, step,
    quiet, stepRunning, Blacklist.step, Blacklist.stepProcess, Blacklist.Process.goto,
    Function.update_self, Option.map_some, isLocking, if_true, State.withLedger, hok,
    Function.update_idem, TPool.State.fresh, isQueueing, TPool.step, TPool.State.setProducer,
    TPool.State.setWorker, Bool.false_eq_true, if_false, State.atStage, Function.update_eq_self,
    adding, and_self, Nat.add_sub_cancel]

/-- An address seen for the first time ends up with a score of one. -/
theorem run_scored_new (hnot : conn.src ∉ stats) (hrow : conn.src ∉ table.map Prod.fst) :
    (system Unit 0 noRows).run (adding conn table stats begun pushed popped) scored
      = some (quiet (table ++ [(conn.src, 1)]) (StdMap.emplace stats conn.src 1)
          (Blacklist.settle (some ()) (⟨conn.src, true, some (), .inProgress⟩ :: begun))
          pushed popped) := by
  simp only [scored, System.run, system, step, quiet, stepRunning, Blacklist.step,
    Blacklist.stepProcess, Blacklist.Process.goto, Function.update_self, Option.map_some,
    isLocking, if_true, State.withLedger, Function.update_idem, TPool.State.fresh, TPool.step,
    TPool.State.setWorker, Bool.false_eq_true, if_false, State.atStage, Function.update_eq_self,
    adding, hnot, decide_false, insertIntoStatsDb, hrow, delta]

/-- A score goes up by one. -/
theorem run_scored (score : Int) (hscore : Finmap.lookup conn.src stats = some score)
    (hrange : IntRange (score + 1)) :
    (system Unit 0 noRows).run (adding conn table stats begun pushed popped) scored
      = some (quiet (Rows.update table conn.src (score + 1))
          (Finmap.insert conn.src (score + 1) stats)
          (Blacklist.settle (some ()) (⟨conn.src, true, some (), .inProgress⟩ :: begun))
          pushed popped) := by
  have hmem : conn.src ∈ stats := Finmap.mem_iff.mpr ⟨score, hscore⟩
  simp only [scored, System.run, system, step, quiet, stepRunning, Blacklist.step,
    Blacklist.stepProcess, Blacklist.Process.goto, Function.update_self, Option.map_some,
    isLocking, if_true, State.withLedger, Function.update_idem, TPool.State.fresh, TPool.step,
    TPool.State.setWorker, State.atStage, Function.update_eq_self, adding, hmem, decide_true,
    updateInStatsDb, hscore, hrange, delta]

end Visits

/-- Every score from one on that an `int` has is reached, by that many good
    requests. -/
theorem reachable_quiet (conn : Conn) (n : Nat) (hn : (n : Int) + 1 < 2 ^ 31) :
    ∃ table stats begun pushed popped,
      (system Unit 0 noRows).Reachable (quiet table stats begun pushed popped) ∧
        Finmap.lookup conn.src stats = some ((n : Int) + 1) := by
  induction n with
  | zero =>
      have hdown : (system Unit 0 noRows).Reachable (State.fresh ⟨noRows.rows, none, []⟩) :=
        System.Reachable.init _ rfl
      have hup : (system Unit 0 noRows).Reachable (quiet [] ∅ [] [] []) :=
        System.Reachable.step _ .restart _ hdown rfl
      have hcame := System.reachable_of_run _ _ hup (run_goodVisit conn [] ∅ [] [] [] rfl)
      have hdone := System.reachable_of_run _ _ hcame
        (run_scored_new conn [] ∅ [] _ _ (Finmap.notMem_empty) List.not_mem_nil)
      refine ⟨_, _, _, _, _, hdone, ?_⟩
      rw [StdMap.lookup_emplace, Finmap.lookup_empty, if_pos rfl]
      rfl
  | succ n ih =>
      rcases ih (by omega) with ⟨table, stats, begun, pushed, popped, hr, hscore⟩
      have hok : isIpaddrBlacklisted 0 stats conn.src = false := by
        unfold isIpaddrBlacklisted
        rw [hscore]
        exact decide_eq_false (by omega)
      have hcame := System.reachable_of_run _ _ hr (run_goodVisit conn table stats begun pushed
        popped hok)
      have hdone := System.reachable_of_run _ _ hcame (run_scored conn table stats begun _ _
        ((n : Int) + 1) hscore (by unfold IntRange; omega))
      refine ⟨_, _, _, _, _, hdone, ?_⟩
      rw [Finmap.lookup_insert]
      exact congrArg some (by omega)

/-- After as many good requests as an `int` can count, the next one has no
    result. -/
theorem addition_overflows :
    ∃ s : State Unit, (system Unit 0 noRows).Reachable s ∧ ∃ p, s.ledger.process = some p ∧
      p.pc (some ()) = .updateFound Blacklist.knownAddr true true ∧
      getScoreForIpaddr p.statsList Blacklist.knownAddr = some (2 ^ 31 - 1) ∧
      ¬ IntRange (2 ^ 31 - 1 + delta true) := by
  rcases reachable_quiet knownConn (2 ^ 31 - 2) (by decide) with
    ⟨table, stats, begun, pushed, popped, hr, hscore⟩
  have hok : isIpaddrBlacklisted 0 stats knownConn.src = false := by
    unfold isIpaddrBlacklisted
    rw [hscore]
    decide
  have hcame := System.reachable_of_run _ _ hr (run_goodVisit knownConn table stats begun pushed
    popped hok)
  have hmem : knownConn.src ∈ stats := Finmap.mem_iff.mpr ⟨_, hscore⟩
  refine ⟨_, hcame, _, rfl, ?_, hscore, by decide⟩
  simp only [Function.update_self, decide_eq_true hmem]
  rfl

/-- The address, the request and the find of a thread before its map write. -/
def foundBy : Blacklist.Pc → Option (IpAddr × Bool × Bool)
  | .updateFound ip good found => some (ip, good, found)
  | _ => none

theorem eq_of_foundBy (pc : Blacklist.Pc) (ip : IpAddr) (good found : Bool)
    (h : foundBy pc = some (ip, good, found)) : pc = .updateFound ip good found := by
  cases pc with
  | updateFound ip' good' found' =>
      simp only [foundBy, Option.some.injEq, Prod.mk.injEq] at h
      rw [h.1, h.2.1, h.2.2]
  | _ => exact absurd h (by simp only [foundBy, reduceCtorEq, not_false_eq_true])

theorem addition_inRange_iff_second :
    ∃ s : State Unit, ∃ p, s.ledger.process = some p ∧
      getScoreForIpaddr p.statsList Blacklist.knownAddr = some 1 ∧
      (IntRange (1 + delta true)
        ↔ Blacklist.tally Blacklist.Fate.isKept s.ledger.begun Blacklist.knownAddr < 2 ^ 31) := by
  have hstart : (system Unit 0 noRows).ReachableWithin
      (fun s => decide ((inFlight Blacklist.knownAddr s : Int) ≤ 2 ^ 31 + min 0 0) = true)
      (State.fresh ⟨noRows.rows, none, []⟩) :=
    System.ReachableWithin.init _ rfl (by decide)
  -- The second good request of a client, up to its addition.
  have hend : (((system Unit 0 noRows).runWithin
      (fun s => decide ((inFlight Blacklist.knownAddr s : Int) ≤ 2 ^ 31 + min 0 0))
      (State.fresh ⟨noRows.rows, none, []⟩)
      (.restart :: goodVisit knownConn ++ scored ++ goodVisit knownConn)).bind
        (fun s => s.ledger.process)).map
          (fun p => (getScoreForIpaddr p.statsList Blacklist.knownAddr, foundBy (p.pc (some ()))))
        = some (some 1, some (Blacklist.knownAddr, true, true)) := by
    decide
  rcases Option.map_eq_some_iff.mp hend with ⟨p, hp, hat⟩
  rcases Option.bind_eq_some_iff.mp hp with ⟨s, hrun, hup⟩
  have hr := System.reachableWithin_of_run _ _ _ hstart hrun
  simp only [decide_eq_true_eq] at hr
  rcases Prod.mk.inj hat with ⟨hscore, hfound⟩
  have hpc := eq_of_foundBy _ _ _ _ hfound
  exact ⟨s, p, hup, hscore, (addition_inRange_iff 0 Blacklist.knownAddr s hr.reachable p hup
    (some ()) true hpc 1 hscore).2 hr⟩

end ServerLoop

end HttpFileSharing
