import HttpFileSharing.Core.Bytes
import HttpFileSharing.Lib.Walk

/-!
# The File System

The tree of files the server runs on, as far as its system calls look at it.
A node is named by the names that lead to it from the root. It is a regular
file, a directory with the names in it, or some other kind of node; there are
no symbolic links. The tree is closed under parents by construction:
`FileSystem.child_iff` says that a node below another is there exactly when
the other is a directory that lists it.

A path is a C string. It is taken apart at its slashes, and its components
are walked one by one, from the root if it begins with a slash and from the
working directory otherwise. Each component needs a directory to be looked up
in, so a path that goes on below a file fails, whatever comes after. The
kernel may also refuse a path without looking at the tree, for its length for
instance, which `FileSystem.refuses` leaves open.

## Main definitions

* `Errno`: The value a failed system call leaves in `errno`.
* `Location`, `Node`: A place in the tree and what is there.
* `FileSystem`: The tree.
* `moves`: The components of a path.
* `FileSystem.locate`: The place a path names.
* `FileSystem.resolve`: The place a system call finds.
* `stat`, `opendir`, `fopen`: The system calls the server makes.
-/

namespace HttpFileSharing

/-- The value of `errno`. -/
abbrev Errno := Nat

/-- `ENOENT`. -/
def enoent : Errno := 2

/-- `EACCES`. -/
def eacces : Errno := 13

/-- `ENOTDIR`. -/
def enotdir : Errno := 20

/-- A place in the tree: the names that lead to it from the root. -/
abbrev Location := List Bytes

/-- What is at a place. -/
inductive Node where
  /-- A regular file, and whether it may be opened for reading. -/
  | file (readable : Bool) (content : Bytes)
  /-- A directory, whether it may be read, the size `stat` reports and the
      names in it in the order they are read. -/
  | dir (readable : Bool) (size : Nat) (names : List Bytes)
  /-- Any other node, whether it can be opened and the size reported. -/
  | other (opens : Bool) (size : Nat)
  deriving DecidableEq, Repr

/-- The names of a directory. -/
def Node.names? : Node → Option (List Bytes)
  | .dir _ _ names => some names
  | _ => none

/-- A name a directory can hold. -/
def ValidName (name : Bytes) : Prop :=
  name ≠ [] ∧ name ≠ ['.'] ∧ name ≠ ['.', '.'] ∧ '/' ∉ name ∧ '\x00' ∉ name

instance (name : Bytes) : Decidable (ValidName name) :=
  inferInstanceAs (Decidable (_ ∧ _ ∧ _ ∧ _ ∧ _))

/-- A tree of nodes. -/
structure FileSystem where
  node : Location → Option Node
  /-- The paths the kernel refuses without looking at the tree. -/
  refuses : Bytes → Option Errno
  root_dir : ∃ readable size names, node [] = some (.dir readable size names)
  child_iff : ∀ loc name, (node (loc ++ [name])).isSome = true ↔
    ∃ names, (node loc).bind Node.names? = some names ∧ name ∈ names
  names_nodup : ∀ loc names, (node loc).bind Node.names? = some names → names.Nodup
  names_valid : ∀ loc names, (node loc).bind Node.names? = some names →
    ∀ name ∈ names, ValidName name

/-- One component of a path. -/
def moveOf (component : Bytes) : Move Bytes :=
  if component = [] then .here
  else if component = ['.'] then .here
  else if component = ['.', '.'] then .up
  else .down component

/-- The components of a path. -/
def moves (path : Bytes) : List (Move Bytes) := (path.splitOn '/').map moveOf

/-- Where a path is walked from. -/
def startOf (cwd : Location) (path : Bytes) : Location :=
  if path.head? = some '/' then [] else cwd

namespace FileSystem

/-- Whether a component can be looked up at `loc`. -/
def enter (fs : FileSystem) (loc : Location) (m : Move Bytes) : Except Errno Unit :=
  -- Also `.` and `..` have to be looked up in a directory.
  match fs.node loc with
  | some (.dir _ _ names) => match m with
    | .down name => if name ∈ names then .ok () else .error enoent
    | _ => .ok ()
  | some _ => .error enotdir
  | none => .error enoent

/-- The place a path names, from working directory `cwd`. -/
def locate (fs : FileSystem) (cwd : Location) (path : Bytes) : Except Errno Location :=
  if cStr path = [] then .error enoent
  else walk fs.enter (startOf cwd (cStr path)) (moves (cStr path))

/-- The place a system call given `path` finds. -/
def resolve (fs : FileSystem) (cwd : Location) (path : Bytes) : Except Errno Location :=
  match fs.refuses (cStr path) with
  | some e => .error e
  | none => fs.locate cwd path

/-- `stat`. -/
def stat (fs : FileSystem) (cwd : Location) (path : Bytes) : Except Errno Node :=
  match fs.resolve cwd path with
  | .error e => .error e
  | .ok loc => match fs.node loc with
    | some node => .ok node
    | none => .error enoent

/-- `opendir` and the names that `readdir` then gives, without the two dot
    entries. -/
def opendir (fs : FileSystem) (cwd : Location) (path : Bytes) :
    Except Errno (Location × List Bytes) :=
  match fs.resolve cwd path with
  | .error e => .error e
  | .ok loc => match fs.node loc with
    | some (.dir true _ names) => .ok (loc, names)
    | some (.dir false _ _) => .error eacces
    | some _ => .error enotdir
    | none => .error enoent

end FileSystem

/-- A stream opened for reading. `sendfile` refuses one that is not a regular
    file. -/
inductive Stream where
  | regular (content : Bytes)
  | special
  deriving DecidableEq, Repr

/-- `fopen` for reading. -/
def FileSystem.fopen (fs : FileSystem) (cwd : Location) (path : Bytes) : Option Stream :=
  match fs.stat cwd path with
  | .ok (.file true content) => some (.regular content)
  | .ok (.dir true _ _) => some .special
  | .ok (.other true _) => some .special
  | _ => none

/-- The `st_size` of a node. -/
def Node.size : Node → Nat
  | .file _ content => content.length
  | .dir _ size _ => size
  | .other _ size => size

end HttpFileSharing
