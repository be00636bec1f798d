import HttpFileSharing.Core.Main
import HttpFileSharing.Lib.Getopt

/-!
# The Arguments of Main

The options as they stand on the command line. `ProgOptions::parse` asks `getopt`
for them until there are no more and switches on the letter. The option string has
no `b`, for which the switch has a case and the help a line.

## Main definitions

* `optstring`: What `getopt` is told.
* `CliOpt.ofGot`: The case of the switch that is taken.
* `argvOpts`: The options of a command line.
* `mainArgv`: `main`, with its arguments.
-/

namespace HttpFileSharing

/-- The option string. -/
def optstring : Bytes := "d:p:Vht:vl:D:T:n:".toList

/-- The case of the switch that is taken. -/
def CliOpt.ofGot : Got → CliOpt
  | .arg 'd' optarg => .d optarg
  | .arg 'p' optarg => .p optarg
  | .flag 'V' => .V
  | .flag 'h' => .h
  | .arg 't' optarg => .t optarg
  | .arg 'l' optarg => .l optarg
  | .arg 'D' optarg => .D optarg
  | .arg 'T' optarg => .T optarg
  | .arg 'n' optarg => .n optarg
  | .flag 'v' => .v
  | _ => .unknown

/-- The options of a command line, of which the first word is the name of the
    program. -/
def argvOpts (argv : List Bytes) : List CliOpt :=
  (getopt (takesOf optstring) argv.tail).map CliOpt.ofGot

/-- `main` with its arguments. -/
def mainArgv {sq : Sqlite} (fs : FileSystem) (binds : Nat → Bool) (loguru : Bytes → Option Stop)
    (cwd : Location) (w : sq.World) (argv : List Bytes) : Except Stop (Launched sq) :=
  serverMain fs binds loguru cwd w (argvOpts argv) (argv.headD [])

end HttpFileSharing
