import HttpFileSharing.Core.StatsDb

/-!
# The Main Function

Everything `main` does, in its order: the options, the log, the database, the scores,
the working directory and the two objects of the server loop. The database is set up
and the scores are loaded before the process changes into the directory it
serves. Of `init_loguru` it is only known whether the library returns: it has options
of its own among the arguments, and ends the process for some of them.

An option with a number goes through `std::stoi`, which throws on a text without a
number at its beginning and on a number an `int` cannot hold, and nobody catches
it. Of the socket it is only known whether the port could be bound to.

## Main definitions

* `CliOpt`: What `getopt` returns.
* `stoi`: `std::stoi`.
* `CommandLine`: The options.
* `CommandLine.parseOpt`, `CommandLine.parse`: Parsing them.
* `changeDir`: The working directory, and what requests are handled with.
* `Launched`: A server in its loop.
* `serverMain`: `main`.
-/

namespace HttpFileSharing

/-- What `getopt` returns, with the argument where the option has one. -/
inductive CliOpt where
  | d (optarg : Bytes)
  | p (optarg : Bytes)
  | V
  | h
  | t (optarg : Bytes)
  | v
  | l (optarg : Bytes)
  | D (optarg : Bytes)
  | T (optarg : Bytes)
  | n (optarg : Bytes)
  | unknown
  deriving DecidableEq, Repr

/-- `std::stoi`: blanks, a sign and digits, and whatever comes behind them. -/
def stoi (s : Bytes) : Except Stop Int :=
  let number := (cStr s).dropWhile (fun c => c = ' ' ∨ (9 ≤ c.toNat ∧ c.toNat ≤ 13))
  let (negative, digits) := match number with
    | '-' :: digits => (true, digits)
    | '+' :: digits => (false, digits)
    | digits => (false, digits)
  let digits := digits.takeWhile Char.isDigit
  let n : Int := if negative = true then -Nat.ofDigitChars 10 digits 0
    else Nat.ofDigitChars 10 digits 0
  if digits ≠ [] ∧ IntRange n then .ok n else .error .terminated

/-- `ProgOptions`: those the requests are handled with, and the others. -/
structure CommandLine where
  port : Int := 80
  options : ProgOptions := {}
  tpoolSize : Nat := 5
  tcpBacklogSize : Int := 5
  logFile : Bytes := []
  dbFile : Bytes := []
  blacklistThreshold : Int := -15

namespace CommandLine

/-- An option with a number. -/
def number (st : CommandLine × Bool) (optarg : Bytes) (set : Int → CommandLine) :
    Except Stop (CommandLine × Bool) :=
  match stoi optarg with
  | .ok n => .ok (set n, st.2)
  | .error e => .error e

/-- One turn of the option loop: the options, and the flag `unknown`. The letter
    `b` is not among those given to `getopt`, so its case is never taken. -/
def parseOpt (st : CommandLine × Bool) (opt : CliOpt) : Except Stop (CommandLine × Bool) :=
  match opt with
  | .d optarg => match st.1.options.setDir optarg with
    | .ok options => .ok ({ st.1 with options := options }, st.2)
    | .error _ => .error .undefined
  | .p optarg => number st optarg (fun n => { st.1 with port := n })
  | .V => .ok ({ st.1 with options.verbose := true }, st.2)
  | .h => .error .exited
  | .t optarg => number st optarg (fun n => { st.1 with tpoolSize := (n % 2 ^ 32).toNat })
  | .v => .ok st
  | .l optarg => .ok ({ st.1 with logFile := cStr optarg }, st.2)
  | .D optarg => .ok ({ st.1 with dbFile := cStr optarg }, st.2)
  | .T optarg => number st optarg (fun n => { st.1 with blacklistThreshold := n })
  | .n optarg => .ok ({ st.1 with options.serverName := cStr optarg }, st.2)
  | .unknown => .ok (st.1, true)

/-- `ProgOptions::parse`: the options, and whether all were known. -/
def parse (opts : List CliOpt) : Except Stop (CommandLine × Bool) :=
  match opts.foldlM parseOpt (({} : CommandLine), false) with
  | .ok (commandLine, unknown) => .ok (commandLine, !unknown)
  | .error e => .error e

/-- The name of the database: the one of `init_db` if none was given. -/
def dbName (commandLine : CommandLine) : Bytes :=
  if commandLine.dbFile = [] then "http-server.db".toList else commandLine.dbFile

/-- The name of the log: the one of `init_loguru` if none was given. -/
def logName (commandLine : CommandLine) : Bytes :=
  if commandLine.logFile = [] then "http-server.log".toList else commandLine.logFile

end CommandLine

/-- The working directory `main` changes into, or `none` where it cannot. -/
def changeDir (fs : FileSystem) (cwd : Location) (options : ProgOptions) (argv0 : Bytes) :
    Option Env :=
  if options.dir ≠ ['.'] then
    match fs.resolve cwd options.dir with
    | .ok loc => match fs.node loc with
      | some (.dir _ _ _) => some ⟨fs, loc, options, cStr argv0⟩
      | _ => none
    | .error _ => none
  else some ⟨fs, cwd, { options with dir := pathOf cwd }, cStr argv0⟩

/-- A server in its loop: the port in the form it is bound to, and the workers. -/
structure Launched (sq : Sqlite) where
  serving : Serving sq
  port : Nat
  workers : Nat

/-- `TPOOL_MAX_WORKERS`. -/
def tpoolMaxWorkers : Nat := 10

section Main

variable {sq : Sqlite}

/-- The two objects of `server_loop`. The backlog it is given goes no further than
    the constructor of `HTTPServer`. -/
def serverLoop (binds : Nat → Bool) (commandLine : CommandLine) (serving : Serving sq) :
    Except Stop (Launched sq) :=
  let port := (commandLine.port % 2 ^ 16).toNat
  if binds port = true ∧ commandLine.tpoolSize ≤ tpoolMaxWorkers then
    .ok ⟨serving, port, commandLine.tpoolSize⟩
  else .error .terminated

/-- `main`, in working directory `cwd`. What `loguru` gives for the name of the log is
    how `loguru::init` and `loguru::add_file` end the process, if they do. -/
def serverMain (fs : FileSystem) (binds : Nat → Bool) (loguru : Bytes → Option Stop)
    (cwd : Location) (w : sq.World) (opts : List CliOpt) (argv0 : Bytes) :
    Except Stop (Launched sq) :=
  match CommandLine.parse opts with
  | .error e => .error e
  | .ok (_, false) => .error .exited
  | .ok (commandLine, true) => match loguru commandLine.logName with
    | some e => .error e
    | none => match StatsDb.initDb sq w cwd commandLine.dbName with
      | .error e => .error e
      | .ok w => match StatsDb.initBlacklist sq w cwd commandLine.dbName with
        | .error e => .error e
        | .ok (stats, w) => match changeDir fs cwd commandLine.options argv0 with
          | none => .error .exited
          -- Of the workers none has anything to do yet.
          | some env => serverLoop binds commandLine ⟨env, commandLine.dbName,
              commandLine.blacklistThreshold, stats, commandLine.tpoolSize, w⟩

end Main

end HttpFileSharing
