import HttpFileSharing.Core.Bytes
import HttpFileSharing.Lib.System

/-!
# The Database Handle

An object that owns a connection to the database, one prepared statement of it
at most, and the lock `_db_mutex` from its constructor to its destructor.

An object goes from one program point to the next with each call it makes to
the mutex or to SQLite. What SQLite answers is part of the action, any result
code at any time, with two things it is relied on for: a `sqlite3_prepare_v2`
that fails leaves a null statement, and a `sqlite3_close` closes the connection
exactly when no statement of it is left. A text without a statement in it is
prepared into a null statement as well, and with success. The other codes go to
the caller, who may do anything next, so they are left out.

The calls an object has made are a history no step reads, save for the number
of the next statement and the answer of `sqlite3_close`.

The objects of a process share the mutex. Each of them is used by one thread,
from its constructor to its destructor, in any interleaving with the others. A
thread does one thing at a time, which only takes away interleavings. No object
is copied, those who need one have a reference to it.

## Main definitions

* `DbHandle.Call`: A call to the mutex or to SQLite.
* `DbHandle.Members`: The members of an object.
* `DbHandle.Pc`: The program points of the member functions.
* `DbHandle.Object.step`: One step of one object.
* `DbHandle.World.step`: One step of one of the objects of a process.
* `DbHandle.prepared`, `DbHandle.finalized`, `DbHandle.alive`: What became of
  the statements.
* `DbHandle.isOpen`: Whether the connection is open.
-/

namespace HttpFileSharing

namespace DbHandle

/-- `SQLITE_OK`. -/
def sqliteOk : Int := 0

/-- A prepared statement, by its number among those of its connection. A null
    statement is `none`. -/
abbrev Stmt := Nat

/-- The operations that hand `m_stmt` to SQLite and leave the object as it is. -/
inductive StmtOp where
  | bindInt
  | bindString
  | step
  | getInt
  | getStr
  | resetStmt
  deriving DecidableEq, Repr

/-- A call to the mutex or to SQLite, with the answer where it matters. -/
inductive Call where
  | lock
  | unlock
  | openDb (rc : Int)
  | prepare (rc : Int) (stmt : Option Stmt)
  | finalize (stmt : Stmt)
  | onStmt (op : StmtOp) (stmt : Option Stmt)
  | exec (query : Bytes)
  | errmsg
  | close (closed : Bool)
  deriving DecidableEq, Repr

/-- `m_stmt`, `m_is_open` and `m_ongoing_transaction`. -/
structure Members where
  mStmt : Option Stmt
  mIsOpen : Bool
  mOngoingTransaction : Bool
  deriving DecidableEq, Repr

/-- Where an object is: in its constructor, between two operations, in
    `prepare_stmt`, or in `cleanup`. Its members have values from the end of the
    constructor on. -/
inductive Pc where
  | unborn
  | entered
  | locked
  | failed
  | threw
  | ready (m : Members)
  | preparing (m : Members)
  | cleaning (m : Members)
  | closing (m : Members)
  | unlocking (m : Members)
  | destroyed
  deriving DecidableEq, Repr

/-- `m_stmt`, where there is one. -/
def Pc.mStmt : Pc → Option Stmt
  | .ready m | .preparing m | .cleaning m | .closing m | .unlocking m => m.mStmt
  | _ => none

/-- The points from taking the mutex to giving it back. -/
def Pc.holdsMutex : Pc → Bool
  | .unborn | .entered | .threw | .destroyed => false
  | _ => true

/-- An object, and the calls it has made so far, newest first. -/
structure Object where
  pc : Pc
  calls : List Call
  deriving DecidableEq, Repr

/-- One step of an object. `construct`, `lock`, `openDb` make up the
    constructor, `prepareStmt` and `prepare` the operation `prepare_stmt`, and
    `destroy`, `finalize`, `close` the destructor; `unlock` ends the destructor,
    and the constructor where the database does not open. -/
inductive Action where
  | construct
  | lock
  | openDb (rc : Int)
  | getErrmsg
  | prepareStmt
  | prepare (rc : Int) (made : Bool)
  | onStmt (op : StmtOp)
  | startTransaction
  | endTransaction
  | execQuery (query : Bytes)
  | destroy
  | finalize
  | close
  | unlock
  deriving DecidableEq, Repr

/-- The statements made, newest first. -/
def prepared : List Call → List Stmt
  | [] => []
  | .prepare _ (some stmt) :: calls => stmt :: prepared calls
  | _ :: calls => prepared calls

/-- The statements finalised, newest first. -/
def finalized : List Call → List Stmt
  | [] => []
  | .finalize stmt :: calls => stmt :: finalized calls
  | _ :: calls => finalized calls

/-- The statements made and not finalised. -/
def alive (calls : List Call) : List Stmt :=
  (prepared calls).filter (fun stmt => stmt ∉ finalized calls)

/-- Whether the connection is open. -/
def isOpen : List Call → Bool
  | [] => false
  | .openDb rc :: _ => rc = sqliteOk
  | .close true :: _ => false
  | _ :: calls => isOpen calls

/-- The object makes a call and goes on to point `pc`. -/
def Object.call (o : Object) (c : Call) (pc : Pc) : Object := ⟨pc, c :: o.calls⟩

/-- The object goes on to point `pc`. -/
def Object.goto (o : Object) (pc : Pc) : Object := { o with pc := pc }

/-- One step of an object that gets the mutex whenever it asks for it. -/
def Object.step (o : Object) : Action → Option Object
  | .construct => match o.pc with
    | .unborn => some (o.goto .entered)
    | _ => none
  | .lock => match o.pc with
    | .entered => some (o.call .lock .locked)
    | _ => none
  | .openDb rc => match o.pc with
    | .locked =>
      if rc = sqliteOk then some (o.call (.openDb rc) (.ready ⟨none, true, false⟩))
      else some (o.call (.openDb rc) .failed)
    | _ => none
  | .getErrmsg => match o.pc with
    | .ready m => some (o.call .errmsg (.ready m))
    | _ => none
  | .prepareStmt => match o.pc with
    | .ready m => match m.mStmt with
      | some stmt => some (o.call (.finalize stmt) (.preparing { m with mStmt := none }))
      | none => some (o.goto (.preparing m))
    | _ => none
  | .prepare rc made => match o.pc with
    | .preparing m =>
      let stmt := if made = true then some (prepared o.calls).length else none
      -- Without success there is no statement.
      if made = true ∧ rc ≠ sqliteOk then none
      else some (o.call (.prepare rc stmt) (.ready { m with mStmt := stmt }))
    | _ => none
  | .onStmt op => match o.pc with
    | .ready m => some (o.call (.onStmt op m.mStmt) (.ready m))
    | _ => none
  | .startTransaction => match o.pc with
    | .ready m =>
      some (o.call (.exec "BEGIN".toList) (.ready { m with mOngoingTransaction := true }))
    | _ => none
  | .endTransaction => match o.pc with
    | .ready m =>
      some (o.call (.exec "COMMIT".toList) (.ready { m with mOngoingTransaction := false }))
    | _ => none
  | .execQuery query => match o.pc with
    | .ready m => some (o.call (.exec query) (.ready m))
    | _ => none
  | .destroy => match o.pc with
    | .ready m =>
      if m.mIsOpen = true then
        if m.mOngoingTransaction = true then
          some (o.call (.exec "COMMIT".toList) (.cleaning { m with mOngoingTransaction := false }))
        else some (o.goto (.cleaning m))
      else some (o.goto .destroyed)
    | _ => none
  | .finalize => match o.pc with
    | .cleaning m => match m.mStmt with
      -- The member keeps the statement it had.
      | some stmt => some (o.call (.finalize stmt) (.closing m))
      | none => some (o.goto (.closing m))
    | _ => none
  | .close => match o.pc with
    | .closing m => some (o.call (.close (alive o.calls = [])) (.unlocking m))
    | _ => none
  | .unlock => match o.pc with
    | .failed => some (o.call .unlock .threw)
    | .unlocking _ => some (o.call .unlock .destroyed)
    | _ => none

/-- An object that has not been constructed. -/
def Object.fresh : Object := ⟨.unborn, []⟩

/-- One object by itself. -/
def objectSystem : System Object Action where
  init o := o = Object.fresh
  step := Object.step

/-- The objects `η` of a process and `_db_mutex`. -/
structure World (τ η : Type*) where
  /-- The thread that holds `_db_mutex`. -/
  dbMutex : Option τ
  objects : η → Object

variable {τ η : Type*} [DecidableEq η]

/-- One step of one object. The mutex makes a thread wait while it is taken. -/
def World.step (thread : η → τ) (w : World τ η) (a : η × Action) : Option (World τ η) :=
  match (w.objects a.1).step a.2 with
  | none => none
  | some o => match a.2 with
    | .lock => match w.dbMutex with
      | none => some ⟨some (thread a.1), Function.update w.objects a.1 o⟩
      | some _ => none
    | .unlock => some ⟨none, Function.update w.objects a.1 o⟩
    | _ => some ⟨w.dbMutex, Function.update w.objects a.1 o⟩

/-- A process in which no object has been constructed yet and `thread` tells
    which thread uses which object. -/
def system (thread : η → τ) : System (World τ η) (η × Action) where
  init w := w = ⟨none, fun _ => Object.fresh⟩
  step := World.step thread

end DbHandle

end HttpFileSharing
