import HttpFileSharing.Lib.Locks

/-!
# The Locks of the Blacklist

What the functions of the blacklist do with `_bl_rwlock` and `_db_mutex`, each
function as the program of its lock operations. A function that looks something
up or asks the database goes on in one of several ways, which is a choice here.

`_bl_rwlock` is taken by name and given back at the end of its scope.
`_db_mutex` is taken in the constructor of a `db_handle` and given back in its
destructor, and the constructor gives it back itself where the database does
not open, before it throws. What is thrown leaves the function, and what the
function holds is given back on the way. A process that calls `exit (1)` never
goes on.

`init_blacklist` has its `db_handle` first and takes `_bl_rwlock` when the query
has been prepared. `update_ip_addr_stats` has `_bl_rwlock` first.

## Main definitions

* `Lock`: The two locks.
* `dbHandle`: A scope with a `db_handle`.
* `initBlacklist`, `isIpaddrBlacklisted`, `updateIpAddrStats`,
  `getScoreForIpaddr`: The four functions.
* `system`: Any number of threads that call them.
-/

namespace HttpFileSharing

namespace BlacklistLocks

open Locks

/-- `_bl_rwlock` and `_db_mutex`. -/
inductive Lock where
  | blRwlock
  | dbMutex
  deriving DecidableEq, Repr

instance : Fintype Lock := ⟨{.blRwlock, .dbMutex}, fun l => by cases l <;> decide⟩

/-- The constructor of a `db_handle`: the database does not open and it throws,
    or it opens. -/
def dbHandle (thrown opened : Prog Lock) : Prog Lock :=
  .acquire .dbMutex .exclusive (.choose (.release .dbMutex thrown) opened)

/-- `_get_stats_from_db`, when the query has been prepared: the load, which gives
    up at an address that reads back empty. -/
def getStatsLoading : Prog Lock :=
  .acquire .blRwlock .exclusive
    (.choose .stop (.release .blRwlock (.release .dbMutex .done)))

/-- `_get_stats_from_db`, when the database is open: the query is prepared, or
    not. -/
def getStatsPreparing : Prog Lock := .choose .stop getStatsLoading

/-- `init_blacklist`, which is `_get_stats_from_db`. -/
def initBlacklist : Prog Lock := dbHandle .done getStatsPreparing

/-- `_ACQUIRE_BL_RD_LOCK` and a look-up. -/
def lookUp : Prog Lock := .acquire .blRwlock .shared (.release .blRwlock .done)

/-- `is_ipaddr_blacklisted`. -/
def isIpaddrBlacklisted : Prog Lock := lookUp

/-- `get_score_for_ipaddr`. -/
def getScoreForIpaddr : Prog Lock := lookUp

/-- `__insert_update_stats_db` with the rest of `update_ip_addr_stats`: one of
    the calls on the handle fails, or none does. -/
def insertUpdateStatsDb : Prog Lock :=
  dbHandle (.release .blRwlock .done)
    (.choose .stop (.release .dbMutex (.release .blRwlock .done)))

/-- `update_ip_addr_stats`, when it has the lock: the address is inserted, or its
    score is updated. -/
def updateFinding : Prog Lock := .choose insertUpdateStatsDb insertUpdateStatsDb

/-- `update_ip_addr_stats`. -/
def updateIpAddrStats : Prog Lock := .acquire .blRwlock .exclusive updateFinding

/-- The public functions. -/
inductive Function where
  | initBlacklist
  | isIpaddrBlacklisted
  | updateIpAddrStats
  | getScoreForIpaddr
  deriving DecidableEq, Repr

/-- The program of a function. -/
def Function.prog : Function → Prog Lock
  | .initBlacklist => BlacklistLocks.initBlacklist
  | .isIpaddrBlacklisted => BlacklistLocks.isIpaddrBlacklisted
  | .updateIpAddrStats => BlacklistLocks.updateIpAddrStats
  | .getScoreForIpaddr => BlacklistLocks.getScoreForIpaddr

/-- Any number of threads, each calling one function after another. -/
def system (τ : Type*) [DecidableEq τ] : System (State τ Lock) (Action τ Function) :=
  Locks.system τ Function.prog

end BlacklistLocks

end HttpFileSharing
