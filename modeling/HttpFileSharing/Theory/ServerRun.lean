import HttpFileSharing.Core.ServerLoop
import HttpFileSharing.Theory.Ledger
import HttpFileSharing.Theory.Pool

/-!
# Runs of the Server

What a run of the whole server says about its parts, and what holds them
together. Each step of the server goes one of a few ways (`Goes`). Read for the
blacklist module alone, or for the pool alone, a run of the server is a run of
theirs, so everything proved about them holds here.

What holds them together is `Coupled`. The module knows threads and addresses,
the pool knows workers and connections, and a worker that is inside an update
is the one that runs a connection of that address. So the score of an address
moves only while a worker runs a connection of it.

## Main definitions

* `ServerLoop.working`: The update a thread is in.
* `ServerLoop.keepsScores`: The steps that leave the map alone.
* `ServerLoop.Goes`: The ways a step can go.
* `ServerLoop.Coupled`: A worker in an update runs a connection of its address.

## Theorems

* `ServerLoop.step_keepsScores`, `ServerLoop.step_table`: What a step of the
  module leaves alone.
* `ServerLoop.step_storeMap`, `ServerLoop.step_tableScore`: What its two writes
  do.
* `ServerLoop.goes_of_step`: Every step goes one of those ways.
* `ServerLoop.ledger_reachable`, `ServerLoop.pool_reachable`: The runs of the
  parts.
* `ServerLoop.coupled_step`, `ServerLoop.reachable_coupled`: The coupling holds
  in every reachable state.
* `ServerLoop.score_goes`: What a step does to one score.
-/

namespace HttpFileSharing

namespace ServerLoop

/-- The address of the update a thread is in, and how far it has come. -/
def working : Blacklist.Pc → Option (IpAddr × Stage)
  | .updateEntered ip _ | .updateLocked ip _ | .updateFound ip _ _ => some (ip, .called)
  | .updateStored ip _ _ | .updateSaved ip _ => some (ip, .stored)
  | _ => none

/-- The steps of the module that leave the map alone and every thread in or out
    of its update. -/
def keepsScores {τ : Type*} : Blacklist.Action τ → Bool
  | .acquire _ | .find _ | .storeDb _ => true
  | .readCall _ _ | .readAcquire _ | .read _ | .readRelease _ => true
  | _ => false

section Module

variable {τ : Type*} [DecidableEq τ]

theorem working_update (pc : τ → Blacklist.Pc) (t : τ) (x : Blacklist.Pc)
    (h : working x = working (pc t)) (u : τ) :
    working (Function.update pc t x u) = working (pc u) := by
  by_cases hu : u = t
  · rw [hu, Function.update_self, h]
  · rw [Function.update_of_ne hu]

theorem step_keepsScores (l : Blacklist.Ledger τ) (p : Blacklist.Process τ)
    (hup : l.process = some p) (a : Blacklist.Action τ) (ha : keepsScores a = true)
    (l' : Blacklist.Ledger τ) (h : Blacklist.step l a = some l') :
    l'.process = none ∨ ∃ p', l'.process = some p' ∧ p'.statsList = p.statsList ∧
      ∀ u, working (p'.pc u) = working (p.pc u) := by
  cases Blacklist.fires_of_step l p hup a l' h with
  | acquire t _ _ hpc | find t _ _ hpc | storeDb t _ _ _ _ hpc | readCall t _ hpc
  | readAcquire t _ hpc | read t _ hpc | readRelease t _ hpc =>
      exact Or.inr ⟨_, rfl, rfl, working_update p.pc t _ (by rw [hpc]; rfl)⟩
  | storeFails =>
      -- A statement that fails ends the process.
      exact Or.inl rfl
  | call | storeNew | storeScore | release | kill =>
      exact absurd ha (by simp only [keepsScores, Bool.false_eq_true, not_false_eq_true])

/-- Only the table write changes the table. -/
theorem step_table (l : Blacklist.Ledger τ) (a : Blacklist.Action τ)
    (ha : ∀ t, a ≠ .storeDb t) (l' : Blacklist.Ledger τ) (h : Blacklist.step l a = some l') :
    l'.table = l.table := by
  cases hup : l.process with
  | none =>
      rcases Blacklist.starts_of_step l hup a l' h with ⟨_, _, rfl⟩ | rfl
      · rfl
      · rfl
  | some p =>
      cases Blacklist.fires_of_step l p hup a l' h with
      | storeDb t | storeFails t => exact absurd rfl (ha t)
      | call | acquire | find | storeNew | storeScore | release | readCall | readAcquire | read
      | readRelease | kill => rfl

/-- A worker that calls an update was idle. -/
theorem step_call (l : Blacklist.Ledger τ) (p : Blacklist.Process τ) (hup : l.process = some p)
    (t : τ) (ip : IpAddr) (good : Bool) (l' : Blacklist.Ledger τ)
    (h : Blacklist.step l (.call t ip good) = some l') :
    l' = { l with process := some (p.goto t (.updateEntered ip good)) } := by
  cases Blacklist.fires_of_step l p hup _ l' h with
  | call => rfl

/-- A thread that returns from an update has written both stores. -/
theorem step_release (l : Blacklist.Ledger τ) (p : Blacklist.Process τ)
    (hup : l.process = some p) (t : τ) (l' : Blacklist.Ledger τ)
    (h : Blacklist.step l (.release t) = some l') :
    l' = { l with process := some { p.goto t .idle with writer := none } } := by
  cases Blacklist.fires_of_step l p hup _ l' h with
  | release => rfl

/-- The map write changes one score, by what the request was worth. -/
theorem step_storeMap (start : StatsTable) (l : Blacklist.Ledger τ) (p : Blacklist.Process τ)
    (hs : Blacklist.Consistent start l) (hup : l.process = some p) (t : τ)
    (l' : Blacklist.Ledger τ) (h : Blacklist.step l (.storeMap t) = some l') :
    ∃ ip good p', working (p.pc t) = some (ip, .called) ∧ l'.process = some p' ∧
      (∃ x, p'.pc = Function.update p.pc t x ∧ working x = some (ip, .stored)) ∧
      ∀ a, Finmap.lookup a p'.statsList
        = if a = ip then some ((Finmap.lookup ip p.statsList).getD 0 + delta good)
          else Finmap.lookup a p.statsList := by
  cases Blacklist.fires_of_step l p hup _ l' h with
  | storeNew _ ip good hpc =>
      refine ⟨ip, good, _, by rw [hpc]; rfl, rfl, ⟨_, rfl, rfl⟩, fun a => ?_⟩
      -- The look-up before it was right, and the address is new.
      rcases Blacklist.phaseAt_of_updating start l p t hs hup _ hpc ip rfl with ⟨_, _, _, hfound⟩
      have habsent : Finmap.lookup ip p.statsList = none := by
        rw [Finmap.lookup_eq_none]
        exact fun hmem => Bool.noConfusion (hfound.mpr hmem)
      rw [StdMap.lookup_emplace_new _ ip a _ habsent, habsent, Option.getD_none, Int.zero_add]
  | storeScore _ ip good score hpc hscore _ =>
      refine ⟨ip, good, _, by rw [hpc]; rfl, rfl, ⟨_, rfl, rfl⟩, fun a => ?_⟩
      rw [hscore, Option.getD_some, StdMap.lookup_insert_eq]

/-- A step leaves the score of an address in the table, or replaces it by the
    one in the map. -/
theorem step_tableScore (start : StatsTable) (l : Blacklist.Ledger τ) (p : Blacklist.Process τ)
    (hs : Blacklist.Consistent start l) (hup : l.process = some p) (a : Blacklist.Action τ)
    (l' : Blacklist.Ledger τ) (h : Blacklist.step l a = some l') (ip : IpAddr) :
    l'.table.lookup ip = l.table.lookup ip ∨
      l'.table.lookup ip = Finmap.lookup ip p.statsList := by
  by_cases ha : ∀ t, a ≠ .storeDb t
  · exact Or.inl (by rw [step_table l a ha l' h])
  · rcases not_forall_not.mp ha with ⟨t, rfl⟩
    -- After the table write the two stores agree, and it leaves the map alone.
    have hs' := Blacklist.consistent_step start l _ l' hs h
    cases Blacklist.fires_of_step l p hup _ l' h with
    | storeDb _ ip' found finalScore table hpc hwrite =>
        have hat := (Blacklist.phaseAt_of_updating start _ _ t hs' rfl
          (.updateSaved ip' finalScore) (Function.update_self _ _ _) ip' rfl).2
        exact Or.inr (hat.1 ip).symm
    | storeFails => exact Or.inl rfl

end Module

variable {ω : Type*} [DecidableEq ω]

/-- What a step of a running server can do, one constructor for each way. -/
inductive Goes (threshold : Int) (s : State ω) (p : Blacklist.Process (Option ω)) :
    State ω → Prop where
  | accept (conn : Conn) (l : Blacklist.Ledger (Option ω)) (hloop : s.loop = .accepting)
      (hl : Blacklist.step s.ledger (.readCall none conn.src) = some l) :
      Goes threshold s p { s with ledger := l, loop := .checking conn }
  | check (conn : Conn) (l : Blacklist.Ledger (Option ω)) (hloop : s.loop = .checking conn)
      (hl : Blacklist.step s.ledger (.read none) = some l) :
      Goes threshold s p { s with
        ledger := l
        loop := .checked conn (isIpaddrBlacklisted threshold p.statsList conn.src) }
  | verdict (conn : Conn) (blacklisted : Bool) (l : Blacklist.Ledger (Option ω))
      (hloop : s.loop = .checked conn blacklisted)
      (hl : Blacklist.step s.ledger (.readRelease none) = some l) :
      Goes threshold s p { s with
        ledger := l
        loop := if blacklisted = true then .accepting else .passed conn }
  | addJob (conn : Conn) (q : TPool.State ω Unit Conn) (hloop : s.loop = .passed conn)
      (hq : TPool.step s.pool (.addJob () conn) = some q) :
      Goes threshold s p { s with pool := q, loop := .accepting }
  | pool (a : TPool.Action ω Unit Conn) (q : TPool.State ω Unit Conn) (ha : isQueueing a = true)
      (hq : TPool.step s.pool a = some q) : Goes threshold s p { s with pool := q }
  | lookUp (w : ω) (conn : Conn) (l : Blacklist.Ledger (Option ω))
      (hl : Blacklist.step s.ledger (.readCall (some w) conn.src) = some l) :
      Goes threshold s p { s with ledger := l }
  | update (w : ω) (good : Bool) (conn : Conn) (l : Blacklist.Ledger (Option ω))
      (hw : s.pool.worker w = .running conn) (hstage : s.stage w = .fresh)
      (hl : Blacklist.step s.ledger (.call (some w) conn.src good) = some l) :
      Goes threshold s p { s.atStage w .called with ledger := l }
  | storeMap (w : ω) (l : Blacklist.Ledger (Option ω)) (hstage : s.stage w = .called)
      (hl : Blacklist.step s.ledger (.storeMap (some w)) = some l) :
      Goes threshold s p { s.atStage w .stored with ledger := l }
  | returned (w : ω) (l : Blacklist.Ledger (Option ω)) (hstage : s.stage w = .stored)
      (hl : Blacklist.step s.ledger (.release (some w)) = some l) :
      Goes threshold s p { s.atStage w .returned with ledger := l }
  | finish (w : ω) (q : TPool.State ω Unit Conn) (hidle : p.pc (some w) = .idle)
      (hq : TPool.step s.pool (.finish w) = some q) :
      Goes threshold s p { s.atStage w .fresh with pool := q }
  | stats (a : Blacklist.Action (Option ω)) (l : Blacklist.Ledger (Option ω))
      (ha : isLocking a = true) (hl : Blacklist.step s.ledger a = some l) :
      Goes threshold s p (s.withLedger l)
  | kill (l : Blacklist.Ledger (Option ω)) (hl : Blacklist.step s.ledger .kill = some l) :
      Goes threshold s p (State.fresh l)

section Goes

variable (threshold : Int) (s : State ω) (p : Blacklist.Process (Option ω))

theorem goes_of_stepRunning (a : Action ω) (s' : State ω)
    (h : stepRunning threshold s p a = some s') : Goes threshold s p s' := by
  cases a with
  | accept conn =>
      simp only [stepRunning] at h
      split at h
      · rename_i hloop _
        rcases Option.map_eq_some_iff.mp h with ⟨l, hl, rfl⟩
        exact Goes.accept conn l hloop hl
      · exact absurd h (by simp only [reduceCtorEq, not_false_eq_true])
  | check =>
      simp only [stepRunning] at h
      split at h
      · rename_i conn hloop
        rcases Option.map_eq_some_iff.mp h with ⟨l, hl, rfl⟩
        exact Goes.check conn l hloop hl
      · exact absurd h (by simp only [reduceCtorEq, not_false_eq_true])
  | verdict =>
      simp only [stepRunning] at h
      split at h
      · rename_i conn blacklisted hloop
        rcases Option.map_eq_some_iff.mp h with ⟨l, hl, rfl⟩
        exact Goes.verdict conn blacklisted l hloop hl
      · exact absurd h (by simp only [reduceCtorEq, not_false_eq_true])
  | addJob =>
      simp only [stepRunning] at h
      split at h
      · rename_i conn hloop
        rcases Option.map_eq_some_iff.mp h with ⟨q, hq, rfl⟩
        exact Goes.addJob conn q hloop hq
      · exact absurd h (by simp only [reduceCtorEq, not_false_eq_true])
  | pool a =>
      simp only [stepRunning, Option.ite_none_right_eq_some] at h
      rcases Option.map_eq_some_iff.mp h.2 with ⟨q, hq, rfl⟩
      exact Goes.pool a q h.1 hq
  | lookUp w =>
      simp only [stepRunning] at h
      split at h
      · rename_i conn _ _
        rcases Option.map_eq_some_iff.mp h with ⟨l, hl, rfl⟩
        exact Goes.lookUp w conn l hl
      · exact absurd h (by simp only [reduceCtorEq, not_false_eq_true])
  | update w good =>
      simp only [stepRunning] at h
      split at h
      · rename_i conn hw hstage
        rcases Option.map_eq_some_iff.mp h with ⟨l, hl, rfl⟩
        exact Goes.update w good conn l hw hstage hl
      · exact absurd h (by simp only [reduceCtorEq, not_false_eq_true])
  | storeMap w =>
      simp only [stepRunning] at h
      split at h
      · rename_i hstage
        rcases Option.map_eq_some_iff.mp h with ⟨l, hl, rfl⟩
        exact Goes.storeMap w l hstage hl
      · exact absurd h (by simp only [reduceCtorEq, not_false_eq_true])
  | returned w =>
      simp only [stepRunning] at h
      split at h
      · rename_i hstage
        rcases Option.map_eq_some_iff.mp h with ⟨l, hl, rfl⟩
        exact Goes.returned w l hstage hl
      · exact absurd h (by simp only [reduceCtorEq, not_false_eq_true])
  | finish w =>
      simp only [stepRunning] at h
      split at h
      · rename_i hidle
        rcases Option.map_eq_some_iff.mp h with ⟨q, hq, rfl⟩
        exact Goes.finish w q hidle hq
      · exact absurd h (by simp only [reduceCtorEq, not_false_eq_true])
  | stats a =>
      simp only [stepRunning, Option.ite_none_right_eq_some] at h
      rcases Option.map_eq_some_iff.mp h.2 with ⟨l, hl, rfl⟩
      exact Goes.stats a l h.1 hl
  | kill =>
      simp only [stepRunning] at h
      rcases Option.map_eq_some_iff.mp h with ⟨l, hl, rfl⟩
      exact Goes.kill l hl
  | restart => exact absurd h (by simp only [stepRunning, reduceCtorEq, not_false_eq_true])

/-- Only the restart is a step of a server that is down. -/
theorem running_of_step (a : Action ω) (ha : a ≠ .restart) (s' : State ω)
    (h : step threshold s a = some s') :
    ∃ p, s.ledger.process = some p ∧ stepRunning threshold s p a = some s' := by
  unfold step at h
  cases hup : s.ledger.process with
  | some p =>
      rw [hup] at h
      exact ⟨p, rfl, h⟩
  | none =>
      rw [hup] at h
      cases a with
      | restart => exact absurd rfl ha
      | _ => exact absurd h (by simp only [reduceCtorEq, not_false_eq_true])

/-- Every step goes one of those ways, or starts a server that is down. -/
theorem goes_of_step (a : Action ω) (s' : State ω) (h : step threshold s a = some s') :
    (∃ p, s.ledger.process = some p ∧ Goes threshold s p s') ∨
      s.ledger.process = none ∧
        ∃ l, Blacklist.step s.ledger .restart = some l ∧ s' = State.fresh l := by
  by_cases ha : a = .restart
  · rw [ha] at h
    unfold step at h
    cases hup : s.ledger.process with
    | some p =>
        rw [hup] at h
        exact Or.inl ⟨p, rfl, goes_of_stepRunning threshold s p .restart s' h⟩
    | none =>
        rw [hup] at h
        rcases Option.map_eq_some_iff.mp h with ⟨l, hl, rfl⟩
        exact Or.inr ⟨rfl, l, hl, rfl⟩
  · rcases running_of_step threshold s a ha s' h with ⟨p, hup, h⟩
    exact Or.inl ⟨p, hup, goes_of_stepRunning threshold s p a s' h⟩

end Goes

omit [DecidableEq ω] in
@[simp] theorem fresh_ledger (l : Blacklist.Ledger (Option ω)) :
    (State.fresh l : State ω).ledger = l := rfl

omit [DecidableEq ω] in
@[simp] theorem withLedger_ledger (s : State ω) (l : Blacklist.Ledger (Option ω)) :
    (s.withLedger l).ledger = l := by
  unfold State.withLedger
  cases l.process <;> rfl

omit [DecidableEq ω] in
theorem withLedger_up (s : State ω) (l : Blacklist.Ledger (Option ω))
    (p : Blacklist.Process (Option ω)) (hup : l.process = some p) :
    s.withLedger l = { s with ledger := l } := by
  unfold State.withLedger
  rw [hup]

/-- A step of the server is a step of the module or leaves it alone. -/
theorem ledger_of_step (threshold : Int) (s : State ω) (a : Action ω) (s' : State ω)
    (h : step threshold s a = some s') :
    s'.ledger = s.ledger ∨ ∃ b, Blacklist.step s.ledger b = some s'.ledger := by
  rcases goes_of_step threshold s a s' h with ⟨p, _, hgoes⟩ | ⟨_, l, hl, rfl⟩
  · cases hgoes with
    | addJob | pool | finish => exact Or.inl rfl
    | accept _ _ _ hl | check _ _ _ hl | verdict _ _ _ _ hl | lookUp _ _ _ hl
    | update _ _ _ _ _ _ hl | storeMap _ _ _ hl | returned _ _ _ hl | kill _ hl =>
        exact Or.inr ⟨_, hl⟩
    | stats a l _ hl => exact Or.inr ⟨a, by rw [withLedger_ledger]; exact hl⟩
  · exact Or.inr ⟨_, hl⟩

/-- A run of the server is a run of the blacklist module. -/
theorem ledger_reachable (threshold : Int) (start : Blacklist.StartTable) {s : State ω}
    (hr : (system ω threshold start).Reachable s) :
    (Blacklist.system (Option ω) start).Reachable s.ledger := by
  refine System.Reachable.map _ State.ledger (fun s hs => ?_) (fun s a s' h => Or.inr ?_) hr
  · rw [show s = State.fresh ⟨start.rows, none, []⟩ from hs]
    rfl
  · exact ledger_of_step threshold s a s' h

/-- A run of the server is a run of the pool, begun anew by each process. -/
theorem pool_reachable (threshold : Int) (start : Blacklist.StartTable) {s : State ω}
    (hr : (system ω threshold start).Reachable s) :
    (TPool.system ω Unit Conn).Reachable s.pool := by
  refine System.Reachable.map _ State.pool (fun s hs => ?_) (fun s a s' h => ?_) hr
  · rw [show s = State.fresh ⟨start.rows, none, []⟩ from hs]
    rfl
  · rcases goes_of_step threshold s a s' h with ⟨p, _, hgoes⟩ | ⟨_, l, _, rfl⟩
    · cases hgoes with
      | accept | check | verdict | lookUp | update | storeMap | returned =>
          exact Or.inr (Or.inl rfl)
      | addJob conn q _ hq => exact Or.inr (Or.inr ⟨.addJob () conn, hq⟩)
      | pool b q _ hq => exact Or.inr (Or.inr ⟨b, hq⟩)
      | finish w q _ hq => exact Or.inr (Or.inr ⟨.finish w, hq⟩)
      | stats a l _ _ =>
          cases hup : l.process with
          | some p' => exact Or.inr (Or.inl (by rw [withLedger_up s l p' hup]))
          | none => exact Or.inl (by unfold State.withLedger; rw [hup]; rfl)
      | kill => exact Or.inl rfl
    · exact Or.inl rfl

/-- A worker in an update runs a connection of its address and has come as far
    with it as the handler says. The loop never updates. -/
structure Coupled (s : State ω) : Prop where
  loop : ∀ p, s.ledger.process = some p → working (p.pc none) = none
  worker : ∀ p, s.ledger.process = some p → ∀ w ip stage,
    working (p.pc (some w)) = some (ip, stage) →
      s.stage w = stage ∧ ∃ conn, s.pool.worker w = .running conn ∧ conn.src = ip

omit [DecidableEq ω] in
theorem coupled_fresh (l : Blacklist.Ledger (Option ω))
    (h : ∀ p, l.process = some p → ∀ t, p.pc t = .idle) : Coupled (State.fresh l) where
  loop p hup := by
    rw [h p hup none]
    rfl
  worker p hup w ip stage hw := by
    rw [h p hup (some w)] at hw
    exact absurd hw (by simp only [working, reduceCtorEq, not_false_eq_true])

omit [DecidableEq ω] in
/-- A step that takes no thread into an update, out of one or further in it
    keeps the coupling, if running workers keep running. -/
theorem coupled_keep (s s' : State ω) (p : Blacklist.Process (Option ω)) (hs : Coupled s)
    (hup : s.ledger.process = some p)
    (hwork : ∀ p', s'.ledger.process = some p' → ∀ u, working (p'.pc u) = working (p.pc u))
    (hstage : s'.stage = s.stage)
    (hrun : ∀ w conn, s.pool.worker w = .running conn → s'.pool.worker w = .running conn) :
    Coupled s' where
  loop p' hup' := (hwork p' hup' none).trans (hs.loop p hup)
  worker p' hup' w ip stage hw := by
    rcases hs.worker p hup w ip stage ((hwork p' hup' (some w)).symm.trans hw) with
      ⟨hat, conn, hconn, hsrc⟩
    exact ⟨by rw [hstage]; exact hat, conn, hrun w conn hconn, hsrc⟩

/-- A step of worker `w` with its update, to point `x` and as far as `stage`. -/
theorem coupled_move (s : State ω) (p p' : Blacklist.Process (Option ω)) (hs : Coupled s)
    (hup : s.ledger.process = some p) (l : Blacklist.Ledger (Option ω)) (w : ω) (stage : Stage)
    (x : Blacklist.Pc) (hup' : l.process = some p') (hpc : p'.pc = Function.update p.pc (some w) x)
    (hx : ∀ ip st, working x = some (ip, st) →
      st = stage ∧ ∃ conn, s.pool.worker w = .running conn ∧ conn.src = ip) :
    Coupled { s.atStage w stage with ledger := l } where
  loop q hq := by
    rw [← Option.some.inj (hup'.symm.trans hq), hpc,
      Function.update_of_ne (Option.some_ne_none w).symm]
    exact hs.loop p hup
  worker q hq v ip st hv := by
    rw [← Option.some.inj (hup'.symm.trans hq), hpc] at hv
    simp only [State.atStage]
    by_cases hvw : v = w
    · rw [hvw, Function.update_self] at hv
      rw [hvw, Function.update_self]
      rcases hx ip st hv with ⟨hst, hconn⟩
      exact ⟨hst.symm, hconn⟩
    · -- Another worker stands where it stood.
      rw [Function.update_of_ne (fun h => hvw (Option.some.inj h))] at hv
      rw [Function.update_of_ne hvw]
      exact hs.worker p hup v ip st hv

/-- A worker runs its job until it finishes. -/
theorem running_kept (q : TPool.State ω Unit Conn) (a : TPool.Action ω Unit Conn)
    (q' : TPool.State ω Unit Conn) (h : TPool.step q a = some q') (w : ω) (conn : Conn)
    (ha : a ≠ .finish w) (hw : q.worker w = .running conn) : q'.worker w = .running conn := by
  -- Another worker's step leaves it where it is.
  have hother : ∀ v x, w ≠ v → (q.setWorker v x).worker w = .running conn := by
    intro v x hwv
    simp only [TPool.State.setWorker]
    rw [Function.update_of_ne hwv, hw]
  cases a with
  | addJob | lockQueue | push | post | unlockQueue =>
      simp only [TPool.step] at h
      split at h
      · exact Option.some.inj h ▸ hw
      · exact absurd h (by simp only [reduceCtorEq, not_false_eq_true])
  | semWait v | lock v | pop v =>
      simp only [TPool.step] at h
      split at h
      · rename_i hv _
        rw [← Option.some.inj h]
        refine hother v _ (fun hwv => ?_)
        rw [← hwv, hw] at hv
        exact absurd hv (by simp only [reduceCtorEq, not_false_eq_true])
      · exact absurd h (by simp only [reduceCtorEq, not_false_eq_true])
  | unlock v =>
      simp only [TPool.step] at h
      split at h
      · rename_i hv
        rw [← Option.some.inj h]
        refine hother v _ (fun hwv => ?_)
        rw [← hwv, hw] at hv
        exact absurd hv (by simp only [reduceCtorEq, not_false_eq_true])
      · exact absurd h (by simp only [reduceCtorEq, not_false_eq_true])
  | finish v =>
      simp only [TPool.step] at h
      split at h
      · rw [← Option.some.inj h]
        exact hother v _ (fun hwv => ha (hwv ▸ rfl))
      · exact absurd h (by simp only [reduceCtorEq, not_false_eq_true])

/-- A worker that finishes was running, and it alone moves. -/
theorem step_finish (q : TPool.State ω Unit Conn) (w : ω) (q' : TPool.State ω Unit Conn)
    (h : TPool.step q (.finish w) = some q') : q' = q.setWorker w .waiting := by
  simp only [TPool.step] at h
  split at h
  · exact (Option.some.inj h).symm
  · exact absurd h (by simp only [reduceCtorEq, not_false_eq_true])

/-- A process that has just come up has idle threads. -/
theorem restart_idle (l : Blacklist.Ledger (Option ω)) (hdown : l.process = none)
    (l' : Blacklist.Ledger (Option ω)) (h : Blacklist.step l .restart = some l') :
    l'.table = l.table ∧ ∀ p, l'.process = some p →
      getStatsFromDb l.table ∅ = some p.statsList ∧ ∀ t, p.pc t = .idle := by
  rcases Blacklist.starts_of_step l hdown _ l' h with ⟨stats, hload, rfl⟩ | rfl
  · refine ⟨rfl, fun p hp => ?_⟩
    rw [← Option.some.inj hp]
    exact ⟨hload, fun _ => rfl⟩
  · exact ⟨rfl, fun p hp => absurd (hdown.symm.trans hp) (by simp only [reduceCtorEq,
      not_false_eq_true])⟩

/-- A process that is killed is down. -/
theorem kill_down (l : Blacklist.Ledger (Option ω)) (p : Blacklist.Process (Option ω))
    (hup : l.process = some p) (l' : Blacklist.Ledger (Option ω))
    (h : Blacklist.step l .kill = some l') : l'.process = none := by
  cases Blacklist.fires_of_step l p hup _ l' h with
  | kill => rfl

/-- The threads' updates are as they were after a step of the module that
    keeps the scores. -/
theorem working_kept (l : Blacklist.Ledger (Option ω)) (p : Blacklist.Process (Option ω))
    (hup : l.process = some p) (a : Blacklist.Action (Option ω)) (ha : keepsScores a = true)
    (l' : Blacklist.Ledger (Option ω)) (h : Blacklist.step l a = some l')
    (p' : Blacklist.Process (Option ω)) (hup' : l'.process = some p') :
    p'.statsList = p.statsList ∧ ∀ u, working (p'.pc u) = working (p.pc u) := by
  rcases step_keepsScores l p hup a ha l' h with hdown | ⟨q, hq, hsame⟩
  · exact absurd (hdown.symm.trans hup') (by simp only [reduceCtorEq, not_false_eq_true])
  · rw [← Option.some.inj (hq.symm.trans hup')]
    exact hsame

omit [DecidableEq ω] in
theorem keepsScores_of_isLocking (a : Blacklist.Action (Option ω)) (h : isLocking a = true) :
    keepsScores a = true := by
  cases a with
  | acquire | find | storeDb | readAcquire | read | readRelease => rfl
  | call | storeMap | release | readCall | kill | restart =>
      exact absurd h (by simp only [isLocking, Bool.false_eq_true, not_false_eq_true])

section Coupling

variable (threshold : Int) (start : StatsTable) (s : State ω)

theorem coupled_goes (p : Blacklist.Process (Option ω)) (s' : State ω) (hs : Coupled s)
    (hl : Blacklist.Consistent start s.ledger) (hup : s.ledger.process = some p)
    (h : Goes threshold s p s') : Coupled s' := by
  cases h with
  | accept conn l _ hstep | check conn l _ hstep | verdict conn _ l _ hstep
  | lookUp w conn l hstep =>
      exact coupled_keep s _ p hs hup
        (fun p' hup' => (working_kept s.ledger p hup _ rfl l hstep p' hup').2) rfl
        (fun _ _ hw => hw)
  | addJob conn q _ hq =>
      exact coupled_keep s _ p hs hup
        (fun p' hup' _ => by rw [← Option.some.inj (hup.symm.trans hup')]) rfl
        (fun w job hw => running_kept s.pool _ q hq w job
          (by simp only [ne_eq, reduceCtorEq, not_false_eq_true]) hw)
  | pool a q ha hq =>
      have hfinish : ∀ w, a ≠ .finish w := by
        rintro w rfl
        exact absurd ha (by simp only [isQueueing, Bool.false_eq_true, not_false_eq_true])
      exact coupled_keep s _ p hs hup
        (fun p' hup' _ => by rw [← Option.some.inj (hup.symm.trans hup')]) rfl
        (fun w job hw => running_kept s.pool a q hq w job (hfinish w) hw)
  | update w good conn l hw hstage hstep =>
      exact coupled_move s p _ hs hup l w .called _ (by rw [step_call s.ledger p hup _ _ _ l hstep])
        rfl (fun ip st hx => by
          rw [working, Option.some.injEq, Prod.mk.injEq] at hx
          exact ⟨hx.2.symm, conn, hw, hx.1⟩)
  | storeMap w l hstage hstep =>
      rcases step_storeMap start s.ledger p hl hup (some w) l hstep with
        ⟨ip, good, p', hwork, hup', ⟨x, hpc, hx⟩, _⟩
      refine coupled_move s p p' hs hup l w .stored x hup' hpc (fun ip' st hx' => ?_)
      rw [hx, Option.some.injEq, Prod.mk.injEq] at hx'
      exact ⟨hx'.2.symm, hx'.1 ▸ (hs.worker p hup w ip .called hwork).2⟩
  | returned w l hstage hstep =>
      exact coupled_move s p _ hs hup l w .returned .idle
        (by rw [step_release s.ledger p hup _ l hstep]) rfl (fun ip st hx => by
          exact absurd hx (by simp only [working, reduceCtorEq, not_false_eq_true]))
  | finish w q hidle hq =>
      rw [step_finish s.pool w q hq]
      refine ⟨hs.loop, fun p' hup' v ip st hv => ?_⟩
      have hvw : v ≠ w := by
        rintro rfl
        rw [← Option.some.inj (hup.symm.trans hup'), hidle] at hv
        exact absurd hv (by simp only [working, reduceCtorEq, not_false_eq_true])
      simp only [State.atStage, TPool.State.setWorker]
      rw [Function.update_of_ne hvw, Function.update_of_ne hvw]
      exact hs.worker p' hup' v ip st hv
  | stats a l ha hstep =>
      cases hup' : l.process with
      | some p' =>
          rw [withLedger_up s l p' hup']
          exact coupled_keep s _ p hs hup (fun p'' hup'' =>
            (working_kept s.ledger p hup a (keepsScores_of_isLocking a ha) l hstep p'' hup'').2) rfl
            (fun _ _ hw => hw)
      | none =>
          have hdown : ∀ p', (s.withLedger l).ledger.process ≠ some p' := by
            rw [withLedger_ledger, hup']
            exact fun _ => (Option.some_ne_none _).symm
          exact ⟨fun p' h => absurd h (hdown p'), fun p' h => absurd h (hdown p')⟩
  | kill l hstep =>
      refine coupled_fresh l (fun p' hp' => ?_)
      rw [kill_down s.ledger p hup l hstep] at hp'
      exact absurd hp' (by simp only [reduceCtorEq, not_false_eq_true])

theorem coupled_step (a : Action ω) (s' : State ω) (hs : Coupled s)
    (hl : Blacklist.Consistent start s.ledger) (h : step threshold s a = some s') :
    Coupled s' := by
  rcases goes_of_step threshold s a s' h with ⟨p, hup, hgoes⟩ | ⟨hdown, l, hstep, rfl⟩
  · exact coupled_goes threshold start s p s' hs hl hup hgoes
  · exact coupled_fresh l (fun p hp => ((restart_idle s.ledger hdown l hstep).2 p hp).2)

/-- What a step does to the score of an address in the map: nothing, or it is
    the map write of a worker that runs a connection of it. -/
theorem score_goes (p : Blacklist.Process (Option ω)) (s' : State ω) (hs : Coupled s)
    (hl : Blacklist.Consistent start s.ledger) (hup : s.ledger.process = some p)
    (h : Goes threshold s p s') (p' : Blacklist.Process (Option ω))
    (hup' : s'.ledger.process = some p') (ip : IpAddr) :
    Finmap.lookup ip p'.statsList = Finmap.lookup ip p.statsList ∨
      ∃ w conn good, s.pool.worker w = .running conn ∧ conn.src = ip ∧ s.stage w = .called ∧
        s'.pool = s.pool ∧ s'.loop = s.loop ∧ s'.stage = Function.update s.stage w .stored ∧
        Finmap.lookup ip p'.statsList
          = some ((Finmap.lookup ip p.statsList).getD 0 + delta good) := by
  cases h with
  | accept conn l _ hstep | check conn l _ hstep | verdict conn _ l _ hstep
  | lookUp w conn l hstep =>
      exact Or.inl (by rw [(working_kept s.ledger p hup _ rfl l hstep p' hup').1])
  | addJob | pool | finish =>
      exact Or.inl (by rw [Option.some.inj (hup.symm.trans hup')])
  | update w good conn l _ _ hstep =>
      rw [step_call s.ledger p hup _ _ _ l hstep] at hup'
      exact Or.inl (by rw [← Option.some.inj hup']; rfl)
  | returned w l _ hstep =>
      rw [step_release s.ledger p hup _ l hstep] at hup'
      exact Or.inl (by rw [← Option.some.inj hup']; rfl)
  | stats a l ha hstep =>
      rw [withLedger_ledger] at hup'
      have hsame := working_kept s.ledger p hup a (keepsScores_of_isLocking a ha) l hstep p' hup'
      exact Or.inl (by rw [hsame.1])
  | kill l hstep =>
      exact absurd ((kill_down s.ledger p hup l hstep).symm.trans hup')
        (by simp only [reduceCtorEq, not_false_eq_true])
  | storeMap w l hstage hstep =>
      rcases step_storeMap start s.ledger p hl hup (some w) l hstep with
        ⟨ip', good, q, hwork, hq, _, hlookup⟩
      rcases hs.worker p hup w ip' .called hwork with ⟨_, conn, hconn, hsrc⟩
      rw [Option.some.inj (hq.symm.trans hup')] at hlookup
      rw [hlookup ip]
      by_cases hip : ip = ip'
      · rw [if_pos hip, ← hip]
        exact Or.inr ⟨w, conn, good, hconn, hsrc.trans hip.symm, hstage, rfl, rfl, rfl, rfl⟩
      · rw [if_neg hip]
        exact Or.inl rfl

end Coupling

/-- The module keeps its invariant in the server, and the parts stay
    coupled. -/
theorem reachable_coupled (threshold : Int) (start : Blacklist.StartTable) {s : State ω}
    (hr : (system ω threshold start).Reachable s) :
    Blacklist.Consistent start.rows s.ledger ∧ Coupled s := by
  refine ⟨Blacklist.reachable_consistent start (ledger_reachable threshold start hr), ?_⟩
  induction hr with
  | init s hs =>
      rw [show s = State.fresh ⟨start.rows, none, []⟩ from hs]
      exact coupled_fresh _ (fun p hp => absurd hp (by simp only [reduceCtorEq, not_false_eq_true]))
  | step s a s' hr hstep ih =>
      exact coupled_step threshold start.rows s a s' ih
        (Blacklist.reachable_consistent start (ledger_reachable threshold start hr)) hstep

end ServerLoop

end HttpFileSharing
