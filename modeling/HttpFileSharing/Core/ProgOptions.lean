import HttpFileSharing.Core.FileSystem

/-!
# Options and Startup

The options that decide where the server looks for files, and what `main`
makes of them. The directory option is stored without one trailing slash. If
it is anything but a single dot the process changes into it and keeps the
string as it was given, relative or not; if it is a single dot, the string
becomes the absolute name of the directory the process is in.

## Main definitions

* `ProgOptions`: The options the request handling reads.
* `Opt`: What `getopt` returns.
* `ProgOptions.setDir`, `ProgOptions.parseOpt`, `ProgOptions.parse`: Parsing
  the options.
* `pathOf`: The absolute name of a directory.
* `Env`: Everything a request is handled with.
* `startup`: `main` up to the server loop.
-/

namespace HttpFileSharing

/-- The options the request handling reads. -/
structure ProgOptions where
  dir : Bytes := ['.']
  verbose : Bool := false
  serverName : Bytes := []

/-- What `getopt` returns, with the argument where the option has one. The
    other options set fields that are read only at startup. -/
inductive Opt where
  | d (optarg : Bytes)
  | V
  | n (optarg : Bytes)
  | other
  | unknown
  deriving DecidableEq, Repr

namespace ProgOptions

/-- The `-d` option. On an empty argument the test of the last character is
    out of range. -/
def setDir (options : ProgOptions) (optarg : Bytes) : Except Fault ProgOptions :=
  match charAt (cStr optarg) (sizeSub (cStr optarg).length 1) with
  | .ok c => .ok { options with
      dir := if c = '/' then (cStr optarg).dropLast else cStr optarg }
  | .error e => .error e

/-- One turn of the option loop: the options, and the flag `unknown`. -/
def parseOpt (st : ProgOptions × Bool) (opt : Opt) : Except Fault (ProgOptions × Bool) :=
  match opt with
  | .d optarg => match st.1.setDir optarg with
    | .ok options => .ok (options, st.2)
    | .error e => .error e
  | .V => .ok ({ st.1 with verbose := true }, st.2)
  | .n optarg => .ok ({ st.1 with serverName := cStr optarg }, st.2)
  | .other => .ok st
  | .unknown => .ok (st.1, true)

/-- `ProgOptions::parse`: the options, and whether all were known. -/
def parse (opts : List Opt) : Except Fault (ProgOptions × Bool) :=
  match opts.foldlM parseOpt (({} : ProgOptions), false) with
  | .ok (options, unknown) => .ok (options, !unknown)
  | .error e => .error e

end ProgOptions

/-- The absolute name of a directory, as `fs::current_path` gives it. -/
def pathOf (loc : Location) : Bytes :=
  if loc = [] then ['/'] else loc.flatMap (fun name => '/' :: name)

/-- Everything a request is handled with: the file system, the working
    directory, the options and `argv[0]`. -/
structure Env where
  fs : FileSystem
  cwd : Location
  options : ProgOptions
  executableFileName : Bytes

/-- `main` up to the server loop, in working directory `cwd`: `none` where it
    returns without serving. -/
def startup (fs : FileSystem) (cwd : Location) (opts : List Opt) (argv0 : Bytes) :
    Except Fault (Option Env) :=
  match ProgOptions.parse opts with
  | .error e => .error e
  | .ok (_, false) => .ok none
  | .ok (options, true) =>
    if options.dir ≠ ['.'] then
      -- The process changes into the directory; the string stays as it was given.
      match fs.resolve cwd options.dir with
      | .ok loc => match fs.node loc with
        | some (.dir _ _ _) => .ok (some ⟨fs, loc, options, cStr argv0⟩)
        | _ => .ok none
      | .error _ => .ok none
    else .ok (some ⟨fs, cwd, { options with dir := pathOf cwd }, cStr argv0⟩)

end HttpFileSharing
