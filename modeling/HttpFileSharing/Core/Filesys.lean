import HttpFileSharing.Core.HttpRsp
import HttpFileSharing.Core.ProgOptions

/-!
# Looking at Files and Directories

The helpers that look at the file system on behalf of a request. Every path
they use is the directory option with the request's path put behind it, byte
for byte. A system call that fails leaves its error in `errno`, one that
succeeds leaves `errno` alone, and a path that is too long for the listing is
refused before any system call, so `errno` is then what it was before; the
functions that matter for this take `errno` and return it.

The name of a directory entry is cut from its full path by a scan that runs
backwards on an `unsigned` index and is guarded by `index >= 0`, which always
holds. `scanBack` is that scan: without a slash it runs off the front, wraps
round and reads out of range.

## Main definitions

* `FSEntry`: An entry of a listing.
* `cookPath`: The path that is looked up.
* `isFile`, `getFileSize`: Looking at one path.
* `scanBack`, `extractNameFromPath`: The part after the last slash.
* `joinPath`, `pathElems`: Appending a name to a path, and comparing paths.
* `getFilesysStructure`, `getFileListing`: Reading a directory.
* `bytesHumanReadable`: A size in words.
-/

namespace HttpFileSharing

/-- An entry of a listing. -/
structure FSEntry where
  isDir : Bool
  name : Bytes
  fileSize : Nat := 0
  deriving DecidableEq, Repr

/-- `PATH_MAX`. -/
def pathMax : Nat := 4096

/-- `_cook_path`, with `_get_cwd`. -/
def cookPath (env : Env) (path : Bytes) : Bytes := env.options.dir ++ path

/-- `is_file`, and `errno` after it. -/
def isFile (env : Env) (errno : Errno) (path : Bytes) : Bool × Errno :=
  match env.fs.stat env.cwd (cookPath env path) with
  | .ok (.file _ _) => (true, errno)
  | .ok _ => (false, errno)
  | .error e => (false, e)

/-- `get_file_size`: only a regular file has one. -/
def getFileSize (env : Env) (filepath : Bytes) : Option Nat :=
  match env.fs.stat env.cwd filepath with
  | .ok (.file _ content) => some content.length
  | _ => none

/-- The scan for the last slash at or before index `max`, with an index that
    wraps below zero. -/
def scanBack (path : Bytes) : Nat → Nat → Except Fault Nat
  | 0, _ => .error .running
  | fuel + 1, max => match charAt path max with
    | .ok c =>
      -- The guard `index >= 0` always holds; below zero comes the largest index.
      if c = '/' then .ok max else scanBack path fuel (toUnsigned (max + 2 ^ 32 - 1))
    | .error e => .error e

/-- `_extract_name_from_path`. -/
def extractNameFromPath (path : Bytes) : Except Fault Bytes :=
  match scanBack path (path.length + 1) (toUnsigned (sizeSub path.length 1)) with
  | .ok index => .ok (path.drop (index + 1))
  | .error e => .error e

/-- `fs::path::operator/` with a single name. -/
def joinPath (path name : Bytes) : Bytes :=
  if path = [] ∨ path.getLast? = some '/' then path ++ name else path ++ '/' :: name

/-- What two `fs::path`s are compared by: whether there is a root, and the
    components, an empty one for a slash at the end. -/
def pathElems (path : Bytes) : Bool × List Bytes :=
  let names := (path.splitOn '/').filter (fun c => c ≠ [])
  (path.head? = some '/',
    if names ≠ [] ∧ path.getLast? = some '/' then names ++ [[]] else names)

/-- One turn of the loop of `_get_filesys_structure`: the entry for `name` in
    the directory at `loc` opened as `path`, if it is listed. -/
def visitEntry (env : Env) (path : Bytes) (loc : Location) (name : Bytes) :
    Except Fault (Option FSEntry) :=
  let entryPath := joinPath path name
  let isDir := ((env.fs.node (loc ++ [name])).bind Node.names?).isSome
  -- The server's own binary is left out, by the path it was started with.
  if pathElems entryPath = pathElems env.executableFileName then .ok none
  else match extractNameFromPath entryPath with
    | .error e => .error e
    | .ok itemName =>
      -- Nor are the favicon and the hidden entries listed.
      if itemName = "favicon.ico".toList then .ok none
      else if itemName.head? = some '.' then .ok none
      else .ok (some { isDir := isDir, name := itemName })

/-- The loop of `_get_filesys_structure`. -/
def visitEntries (env : Env) (path : Bytes) (loc : Location) :
    List Bytes → Except Fault (List FSEntry)
  | [] => .ok []
  | name :: names => match visitEntry env path loc name with
    | .error e => .error e
    | .ok item => match visitEntries env path loc names with
      | .error e => .error e
      | .ok vec => .ok (item.toList ++ vec)

/-- `_get_filesys_structure`: the entries, or the error of `opendir`. -/
def getFilesysStructure (env : Env) (path : Bytes) :
    Except Fault (Except Errno (List FSEntry)) :=
  match env.fs.opendir env.cwd path with
  | .error e => .ok (.error e)
  | .ok (loc, names) => match visitEntries env path loc names with
    | .error e => .error e
    | .ok vec => .ok (.ok vec)

/-- The size of an entry, looked up by its path. -/
def withFileSize (env : Env) (tempPath : Bytes) (it : FSEntry) : FSEntry :=
  if it.isDir = true then it
  else match getFileSize env (tempPath ++ '/' :: it.name) with
    | some size => { it with fileSize := size }
    | none => it

/-- `get_file_listing`: the entries, or `none` where it returns false, and then
    `errno` after it. After a listing that succeeds nobody reads `errno`, and what the
    look-ups of the sizes leave in it is not tracked. -/
def getFileListing (env : Env) (errno : Errno) (path : Bytes) :
    Except Fault (Option (List FSEntry) × Errno) :=
  let tempPath := cookPath env path
  -- No system call has been made yet, so `errno` is what it was before.
  if pathMax ≤ tempPath.length then .ok (none, errno)
  else match getFilesysStructure env tempPath with
    | .error e => .error e
    | .ok (.error e) => .ok (none, e)
    | .ok (.ok vec) => .ok (some (vec.map (withFileSize env tempPath)), errno)

/-- The loop of `bytes_human_readable`. -/
def reduceSize (quot rem order : Nat) : Nat × Nat × Nat :=
  if 1024 < quot then reduceSize (quot >>> 10) (quot &&& 1023) (order + 1)
  else (quot, rem, order)
termination_by quot
decreasing_by
  rw [Nat.shiftRight_eq_div_pow]
  omega

/-- The units of `bytes_human_readable`. -/
def sizeUnits : List Bytes := ["B".toList, "kB".toList, "MB".toList, "GB".toList, "TB".toList]

/-- `bytes_human_readable`. -/
def bytesHumanReadable (bytes : Nat) : Bytes :=
  let (quot, rem, order) := reduceSize bytes 0 0
  let order := if sizeUnits.length ≤ order then sizeUnits.length - 1 else order
  decimal quot ++ ".".toList ++ decimal rem ++ " ".toList ++ sizeUnits.getD order []

end HttpFileSharing
