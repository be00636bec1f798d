import HttpFileSharing.Core.Bytes
import HttpFileSharing.Lib.StdMap
import HttpFileSharing.Lib.System

/-!
# The Blacklist

The score the server keeps for each client address. A good request adds one,
a bad one takes one away, and an address whose score has dropped below the
threshold is turned away at the door. The scores live twice: in the map
`_stats_list`, guarded by the read-write lock `_bl_rwlock`, and in the
`stats` table of the database, which outlives the process.

The functions come first: the look-ups, the two database writes and the
initial load. After them the module as it runs, a transition system in which
any number of threads update and read, one step at a time. An update takes
the write lock, looks the address up, writes the map, writes the table and
unlocks. A read takes the lock shared. The process can be killed between any
two steps and started again, when it loads the map from the table.

A database statement is one step and its effect survives a kill. A statement
that fails ends the process, as the source does with `exit (1)`, and the update
it was for is told apart in the history from one that a kill has cut off. Scores
are C++ `int`, whose overflow is undefined, so the map write has no result where
the new score would leave the range.

An address is a string without a NUL, in the table as well. The server reads
and writes addresses as C strings, so it has no others in memory, and SQLite
leaves open what becomes of a NUL inside a text.

`Ledger.begun` is a history no step reads: every update that ever took the
write lock, with what became of it.

## Main definitions

* `IpAddr`: A client address, a string without a NUL.
* `isIpaddrBlacklisted`, `getScoreForIpaddr`: The two look-ups.
* `insertIntoStatsDb`, `updateInStatsDb`: The two database writes.
* `getStatsFromDb`: The initial load of the map.
* `goodForNow`, `updateIpAddrStats`: An update as one call.
* `Blacklist.Pc`: The program points of an update and of a read.
* `Blacklist.Ledger`: The table, the process if it is up, and the history.
* `Blacklist.step`: One step of a thread, a kill or a restart.
* `Blacklist.system`: The module started from a given table.
-/

namespace HttpFileSharing

/-- A client address as `get_src_addr` gives it and `get_str` reads it: a C
    string, so without a NUL. -/
structure IpAddr where
  text : Bytes
  nulFree : '\x00' ∉ text
  deriving DecidableEq

/-- `_stats_list`. -/
abbrev StatsList := StdMap IpAddr Int

/-- The rows `(ipaddr, count)` of the `stats` table. -/
abbrev StatsTable := List (IpAddr × Int)

/-- The range of a C++ `int`. -/
def IntRange (n : Int) : Prop := -2 ^ 31 ≤ n ∧ n < 2 ^ 31

instance (n : Int) : Decidable (IntRange n) := inferInstanceAs (Decidable (_ ∧ _))

/-- `is_ipaddr_blacklisted`: an address never seen is not blacklisted. -/
def isIpaddrBlacklisted (threshold : Int) (stats : StatsList) (ip : IpAddr) : Bool :=
  match Finmap.lookup ip stats with
  | none => false
  | some score => score < threshold

/-- `get_score_for_ipaddr`. -/
def getScoreForIpaddr (stats : StatsList) (ip : IpAddr) : Option Int := Finmap.lookup ip stats

/-- What a request adds to the score of its sender. -/
def delta (goodRequest : Bool) : Int := if goodRequest = true then 1 else -1

/-- `_insert_into_stats_db`. The address is the primary key, so the statement
    fails where it is there already. -/
def insertIntoStatsDb (table : StatsTable) (ip : IpAddr) (score : Int) : Option StatsTable :=
  if ip ∈ table.map Prod.fst then none else some (table ++ [(ip, score)])

/-- `_update_in_stats_db`. An `UPDATE` that matches no row succeeds and
    changes nothing. -/
def updateInStatsDb (table : StatsTable) (ip : IpAddr) (score : Int) : Option StatsTable :=
  some (Rows.update table ip score)

/-- `_get_stats_from_db`: emplace every row, or give up at an address that
    reads back empty. -/
def getStatsFromDb : StatsTable → StatsList → Option StatsList
  | [], stats => some stats
  | (ip, count) :: rows, stats =>
    if ip.text.length = 0 then none else getStatsFromDb rows (StdMap.emplace stats ip count)

/-- What `update_ip_addr_stats` says of the score it leaves: whether the
    address is good for now. -/
def goodForNow (threshold finalScore : Int) : Bool := finalScore > threshold

/-- `update_ip_addr_stats` as one call: what it returns, the map and the
    table. It has no result where the score leaves the range of an `int`, and
    none where the statement fails and the process exits. -/
def updateIpAddrStats (threshold : Int) (stats : StatsList) (table : StatsTable) (ip : IpAddr)
    (goodRequest : Bool) : Option (Bool × StatsList × StatsTable) :=
  match Finmap.lookup ip stats with
  | none =>
    let finalScore := delta goodRequest
    match insertIntoStatsDb table ip finalScore with
    | some table => some (goodForNow threshold finalScore,
        StdMap.emplace stats ip finalScore, table)
    | none => none
  | some score =>
    let finalScore := score + delta goodRequest
    if IntRange finalScore then
      match updateInStatsDb table ip finalScore with
      | some table => some (goodForNow threshold finalScore,
          Finmap.insert ip finalScore stats, table)
      | none => none
    else none

namespace Blacklist

/-- Where a thread is. The `update` points are those of
    `update_ip_addr_stats`; all but the first hold the write lock. The `read`
    points are those of the two look-ups. -/
inductive Pc where
  | idle
  | updateEntered (ip : IpAddr) (good : Bool)
  | updateLocked (ip : IpAddr) (good : Bool)
  | updateFound (ip : IpAddr) (good : Bool) (found : Bool)
  | updateStored (ip : IpAddr) (found : Bool) (finalScore : Int)
  | updateSaved (ip : IpAddr) (finalScore : Int)
  | readEntered (ip : IpAddr)
  | readLocked (ip : IpAddr)
  | readDone (score : Option Int)

/-- The address an update that holds the write lock is working on. -/
def Pc.updating : Pc → Option IpAddr
  | .updateLocked ip _ => some ip
  | .updateFound ip _ _ => some ip
  | .updateStored ip _ _ => some ip
  | .updateSaved ip _ => some ip
  | _ => none

/-- The running process: the map, the lock and the threads `τ`. -/
structure Process (τ : Type*) where
  statsList : StatsList
  /-- The thread that holds `_bl_rwlock` exclusively. -/
  writer : Option τ
  /-- How many threads hold it shared. -/
  readers : Nat
  pc : τ → Pc

/-- What became of an update that took the write lock: not known yet, written
    to the table, cut off before that by a kill, or by the end the process made
    itself because a statement failed. -/
inductive Fate where
  | inProgress
  | written
  | cutOff
  | failed
  deriving DecidableEq, Repr

/-- One update of the history. -/
structure Entry (τ : Type*) where
  ip : IpAddr
  good : Bool
  thread : τ
  fate : Fate

/-- The table, the process if it is up, and every update begun so far, newest
    first. -/
structure Ledger (τ : Type*) where
  table : StatsTable
  process : Option (Process τ)
  begun : List (Entry τ)

/-- One step of a thread, a kill or a restart. -/
inductive Action (τ : Type*) where
  | call (t : τ) (ip : IpAddr) (good : Bool)
  | acquire (t : τ)
  | find (t : τ)
  | storeMap (t : τ)
  | storeDb (t : τ)
  | release (t : τ)
  | readCall (t : τ) (ip : IpAddr)
  | readAcquire (t : τ)
  | read (t : τ)
  | readRelease (t : τ)
  | kill
  | restart

variable {τ : Type*} [DecidableEq τ]

/-- Thread `t` goes on to point `pc`. -/
def Process.goto (p : Process τ) (t : τ) (pc : Pc) : Process τ :=
  { p with pc := Function.update p.pc t pc }

/-- The update of thread `t` has reached the table. -/
def settle (t : τ) (begun : List (Entry τ)) : List (Entry τ) :=
  begun.map (fun e =>
    if e.fate = .inProgress ∧ e.thread = t then { e with fate := .written } else e)

/-- The process has ended, and what was in progress never reaches the table. -/
def cutShort (fate : Fate) (begun : List (Entry τ)) : List (Entry τ) :=
  begun.map (fun e => if e.fate = .inProgress then { e with fate := fate } else e)

/-- The process ends, and with it the updates in progress, whose fate is told by
    what ended it. -/
def Ledger.ended (s : Ledger τ) (fate : Fate) : Ledger τ :=
  { s with process := none, begun := cutShort fate s.begun }

/-- One step of a running process. -/
def stepProcess (s : Ledger τ) (p : Process τ) : Action τ → Option (Ledger τ)
  | .call t ip good => match p.pc t with
    | .idle => some { s with process := some (p.goto t (.updateEntered ip good)) }
    | _ => none
  | .acquire t => match p.pc t with
    | .updateEntered ip good =>
      if p.writer = none ∧ p.readers = 0 then
        some { s with
          process := some { p.goto t (.updateLocked ip good) with writer := some t }
          begun := ⟨ip, good, t, .inProgress⟩ :: s.begun }
      else none
    | _ => none
  | .find t => match p.pc t with
    | .updateLocked ip good =>
      some { s with process := some (p.goto t (.updateFound ip good (ip ∈ p.statsList))) }
    | _ => none
  | .storeMap t => match p.pc t with
    | .updateFound ip good false =>
      some { s with process := some { p.goto t (.updateStored ip false (delta good)) with
        statsList := StdMap.emplace p.statsList ip (delta good) } }
    | .updateFound ip good true => match Finmap.lookup ip p.statsList with
      | some score =>
        if IntRange (score + delta good) then
          some { s with process := some { p.goto t (.updateStored ip true (score + delta good))
            with statsList := Finmap.insert ip (score + delta good) p.statsList } }
        else none
      | none => none
    | _ => none
  | .storeDb t => match p.pc t with
    | .updateStored ip found finalScore =>
      match (if found = true then updateInStatsDb s.table ip finalScore
          else insertIntoStatsDb s.table ip finalScore) with
      | some table => some { s with
          table := table
          process := some (p.goto t (.updateSaved ip finalScore))
          begun := settle t s.begun }
      -- A statement that fails ends the process with `exit (1)`.
      | none => some (s.ended .failed)
    | _ => none
  | .release t => match p.pc t with
    | .updateSaved _ _ => some { s with process := some { p.goto t .idle with writer := none } }
    | _ => none
  | .readCall t ip => match p.pc t with
    | .idle => some { s with process := some (p.goto t (.readEntered ip)) }
    | _ => none
  | .readAcquire t => match p.pc t, p.writer with
    | .readEntered ip, none =>
      some { s with process := some { p.goto t (.readLocked ip) with readers := p.readers + 1 } }
    | _, _ => none
  | .read t => match p.pc t with
    | .readLocked ip =>
      some { s with process := some (p.goto t (.readDone (getScoreForIpaddr p.statsList ip))) }
    | _ => none
  | .readRelease t => match p.pc t with
    | .readDone _ =>
      some { s with process := some { p.goto t .idle with readers := p.readers - 1 } }
    | _ => none
  | .kill => some (s.ended .cutOff)
  | .restart => none

/-- One step: of the running process, or the restart of one that is down. A
    load that fails ends the new process at once. -/
def step (s : Ledger τ) (a : Action τ) : Option (Ledger τ) :=
  match s.process, a with
  | some p, a => stepProcess s p a
  | none, .restart => match getStatsFromDb s.table ∅ with
    | some stats => some { s with process := some ⟨stats, none, 0, fun _ => .idle⟩ }
    | none => some s
  | none, _ => none

/-- A table the server can start from: no address twice and none empty. -/
structure StartTable where
  rows : StatsTable
  distinct : (rows.map Prod.fst).Nodup
  nonEmpty : ∀ r ∈ rows, r.1.text ≠ []
  inRange : ∀ r ∈ rows, IntRange r.2

/-- The module started from a table, with the process not up yet. -/
def system (τ : Type*) [DecidableEq τ] (start : StartTable) : System (Ledger τ) (Action τ) where
  init s := s = ⟨start.rows, none, []⟩
  step := step

end Blacklist

end HttpFileSharing
