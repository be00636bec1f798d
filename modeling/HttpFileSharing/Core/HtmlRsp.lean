import HttpFileSharing.Core.File

/-!
# The Generated Pages

The page that lists a directory and the page for what is not found. Text goes
into them as it is, a request's URI and a file's name included; in links a
space of a name is written `%20`.

Three places index a string. The parent of a URI is found by reading its last
character and then scanning back for a slash, with the same wrapping index as
the other scan, and the links are prefixed with the URI, whose last character
is read again. Each is out of range on some URI, so the page that lists a
directory has a result in `Except Fault`.

## Main definitions

* `getParentDir`: The URI up to its last slash.
* `getVectorOfPathNodes`, `getBackLinks`: Links to the directories above.
* `makeHttpFriendly`: A name as it is written in a link.
* `fillHtmlBody`: The list of entries.
* `buildRspHtml`: The page that lists a directory.
* `get404Page`: The page for what is not found.
-/

namespace HttpFileSharing

/-- `CHAR_LF`. -/
def lf : Bytes := ['\n']

/-- `_get_parent_dir`: everything up to the last slash before the final
    character, the slash included. -/
def getParentDir (path : Bytes) : Except Fault Bytes :=
  match charAt path (sizeSub path.length 1) with
  | .error e => .error e
  | .ok last =>
    -- A slash at the end is not the one that is looked for.
    let max := toUnsigned (if last = '/' then sizeSub path.length 2 else sizeSub path.length 1)
    match scanBack path (path.length + 1) max with
    | .error e => .error e
    | .ok max => .ok (path.take (max + 1))

/-- `__get_vector_of_path_nodes`: the components that a slash ends, from the
    second character on. -/
def getVectorOfPathNodes (parent : Bytes) : List Bytes :=
  (completeLines '/' (parent.drop 1)).map List.dropLast

/-- The links of `_get_back_links`, after those in `path`. -/
def backLinks (path : Bytes) : List Bytes → Bytes
  | [] => []
  | it :: nodes =>
    "<a href=\"".toList ++ (path ++ it) ++ "\">".toList ++ it ++ "/</a>".toList ++ lf
      ++ backLinks (path ++ it ++ "/".toList) nodes

/-- `_get_back_links`. -/
def getBackLinks (parent : Bytes) : Bytes :=
  "<a href=\"".toList ++ "/".toList ++ "\">".toList ++ "Go UP: ".toList ++ "/".toList
    ++ "</a>".toList ++ lf ++ backLinks "/".toList (getVectorOfPathNodes parent)

/-- `__fill_src_addr`. -/
def fillSrcAddr (src : Bytes) : Bytes :=
  "Your IP address is ".toList ++ src ++ "<br>".toList ++ lf

/-- `_make_http_friendly`. -/
def makeHttpFriendly (filename : Bytes) : Bytes := replaceAll [' '] escapedSpace filename

/-- One entry of `_fill_html_body`. -/
def listItem (filePrefix : Bytes) (it : FSEntry) : Bytes :=
  "<li>".toList ++ "<a href=\"".toList ++ (filePrefix ++ makeHttpFriendly it.name)
    ++ "\">".toList ++ it.name
    ++ (if it.isDir = true then "/".toList
      else " (".toList ++ bytesHumanReadable it.fileSize ++ ")".toList)
    ++ "</a> </li>".toList ++ lf

/-- `_fill_html_body`. -/
def fillHtmlBody (tree : List FSEntry) (uri : Bytes) : Except Fault Bytes :=
  match charAt uri (sizeSub uri.length 1) with
  | .error e => .error e
  | .ok last =>
    let filePrefix := if last ≠ '/' then uri ++ "/".toList else uri
    let opened := "<ul style=\"list-style-type:none;\">".toList ++ lf
    -- The list is not closed where there is nothing in it.
    if tree = [] then .ok (opened ++ "<br> <br>".toList ++ lf)
    else .ok (opened ++ tree.flatMap (listItem filePrefix) ++ "</ul>".toList ++ lf)

/-- The start of a page: the document up to the end of its head. -/
def pageHead (title : Bytes) : Bytes :=
  "<html>".toList ++ lf ++ "<head>".toList ++ lf
    ++ "<meta http-equiv=\"Content-Type\" content=\"text/html; ".toList
    ++ "charset=utf-8\">".toList ++ lf
    ++ "<title>".toList ++ title ++ "</title>".toList ++ lf ++ "</head>".toList ++ lf

/-- `build_rsp_html`: the status, and the buffer with the page behind it. -/
def buildRspHtml (env : Env) (buffer : Bytes) (req : HTTPRequest) (tree : List FSEntry)
    (src : Bytes) : Except Fault (HTTPStatus × Bytes) :=
  match (if req.mUri ≠ "/".toList then getParentDir req.mUri else .ok []) with
  | .error e => .error e
  | .ok parent => match fillHtmlBody tree req.mUri with
    | .error e => .error e
    | .ok body =>
      .ok (.httpOk, buffer ++ pageHead env.options.serverName ++ "<body>".toList ++ lf
        ++ "<h1> Directory Structure for ".toList ++ req.mUri ++ "</h1>".toList ++ lf
        ++ (if parent ≠ [] then getBackLinks parent else [])
        ++ "<hr>".toList ++ body ++ "<hr>".toList ++ lf ++ fillSrcAddr src
        ++ "</body>".toList ++ lf ++ "</html>".toList ++ lf)

/-- `get_404_page`: the buffer with the page behind it. -/
def get404Page (req : HTTPRequest) (buffer : Bytes) (src : Bytes) : Bytes :=
  buffer ++ pageHead "Ashwin Server".toList
    ++ "<h1> 404 - Not Found ".toList ++ "</h1>".toList ++ lf
    ++ "<hr>".toList ++ "Resource ".toList ++ req.mUri ++ " not found".toList ++ "<br>".toList
    ++ lf ++ "<a href=\"/\"".toList ++ "> Home page".toList ++ "</a> <br>".toList ++ lf
    ++ "<hr>".toList ++ lf ++ fillSrcAddr src ++ "</body>".toList ++ lf ++ "</html>".toList ++ lf

end HttpFileSharing
