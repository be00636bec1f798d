import HttpFileSharing.Core.Filesys
import HttpFileSharing.Core.HttpReq
import HttpFileSharing.Lib.Replace

/-!
# Serving a File

A file is looked up twice. `check_if_file` decides whether a request is for a
file, with the directory option put before the decoded URI. `get_file` then
looks for it again, by the decoded URI without its first character and
relative to the working directory, and it is this second name that is stored
in the response and opened.

## Main definitions

* `cleanFilename`: Decoding the spaces of a URI.
* `checkIfFile`: The first look-up.
* `rfind`, `isTextFile`: Telling text files by their extension.
* `getFile`: The second look-up.
-/

namespace HttpFileSharing

/-- `%20`, the one escape that is decoded. -/
def escapedSpace : Bytes := ['%', '2', '0']

/-- `_clean_filename`. -/
def cleanFilename (filename : Bytes) : Bytes := replaceAll escapedSpace [' '] filename

/-- `check_if_file`, and `errno` after it. -/
def checkIfFile (env : Env) (errno : Errno) (filename : Bytes) : Bool × Errno :=
  isFile env errno (cleanFilename filename)

/-- `rfind`: the position of the last `c`. -/
def rfind (c : Char) : Bytes → Option Nat
  | [] => none
  | x :: xs => match rfind c xs with
    | some pos => some (pos + 1)
    | none => if x = c then some 0 else none

/-- `supported_text_file_types`. -/
def supportedTextFileTypes : List Bytes :=
  [".txt".toList, ".log".toList, ".ini".toList, ".cfg".toList, ".conf".toList, ".cpp".toList,
    ".hpp".toList, ".c".toList, ".h".toList, ".py".toList, ".sh".toList, ".java".toList,
    ".js".toList]

/-- `_is_text_file`: a name without an extension is taken for text. -/
def isTextFile (filename : Bytes) : Bool :=
  match rfind '.' filename with
  | none => true
  | some pos => filename.drop pos ∈ supportedTextFileTypes

/-- `text/plain`. -/
def textPlain : Bytes := "text/plain".toList

/-- `application/octet-stream`. -/
def octetStream : Bytes := "application/octet-stream".toList

/-- `get_file`: the status, and the response with the file's name, size and
    type where there is one. -/
def getFile (env : Env) (rsp : HTTPResponse) (req : HTTPRequest) :
    HTTPStatus × HTTPResponse :=
  -- The first character is dropped without looking whether it is a slash.
  let resource := req.mUri.drop 1
  let filename := cleanFilename resource
  match env.fs.stat env.cwd filename with
  | .error _ => (.httpNotFound, rsp)
  | .ok node => (.httpOk, { rsp with
      mRspFilename := filename
      mLen := node.size
      mContentType := if isTextFile filename = true then textPlain else octetStream })

end HttpFileSharing
