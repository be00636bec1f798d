import HttpFileSharing.Lib.Tags
import HttpFileSharing.Theory.Breadcrumbs
import HttpFileSharing.Theory.Codec

/-!
# The Structure of the Pages

What the tags of a page depend on. Text goes into the pages as it is, so they
are what they are meant to be only while no text has a character that means
something in HTML: a `<` anywhere, or a quote in the URI or in a name, which are
written into links. With such text the tags of a listing depend on the server
name and on two numbers, and without that the structure can be anything.

Two slips are independent of any text. The list of an empty directory is opened
and not closed, and the page for what is not found closes a body that it never
opened.

The pieces of a page are read one after the other. Each begins and ends in
text, and in between a link is in a quoted value for as long as its address
lasts.

## Main definitions

* `pageNames`: The names that have to balance.
* `pageTags`: The tags of a listing.
* `notFoundTags`: The tags of the page for what is not found.
* `linkCount`: The number of links to the directories above.
* `PlainTexts`: Texts without a character that means something.
* `SaneName`: A server name that closes what it opens.

## Theorems

* `reads_anchor`, `reads_listItem`, `reads_fillHtmlBody`: The pieces of a page.
* `tags_buildRspHtml`, `tags_get404Page`: The tags of a page.
* `balanced_pageTags`: Whether they balance.
* `page_structure_exact`: When the structure is as it is meant to be.
* `page_structure_fails`: A name with a tag in it.
-/

namespace HttpFileSharing

/-- The names whose tags have to balance. -/
def pageNames : List Bytes :=
  ["html".toList, "head".toList, "body".toList, "ul".toList, "li".toList, "a".toList]

/-- The tags of a page up to the end of its head. What the server name brings in
    is read up to the end of the title. -/
def headTags (serverName : Bytes) : List Bytes :=
  ["<html>".toList, "<head>".toList, "<meta http-equiv=\"\" content=\"\">".toList,
    "<title>".toList] ++ tags (serverName ++ "</title>".toList) ++ ["</head>".toList]

/-- The tags of a link. -/
def linkTags : List Bytes := ["<a href=\"\">".toList, "</a>".toList]

/-- The tags of an entry. -/
def itemTags : List Bytes :=
  ["<li>".toList, "<a href=\"\">".toList, "</a>".toList, "</li>".toList]

/-- The tags of a list of entries. -/
def listTags (entries : Nat) : List Bytes :=
  if entries = 0 then ["<ul style=\"\">".toList, "<br>".toList, "<br>".toList]
  else ["<ul style=\"\">".toList] ++ (List.replicate entries itemTags).flatten ++ ["</ul>".toList]

/-- The tags of a listing. -/
def pageTags (serverName : Bytes) (links entries : Nat) : List Bytes :=
  headTags serverName ++ ["<body>".toList, "<h1>".toList, "</h1>".toList]
    ++ (List.replicate links linkTags).flatten ++ ["<hr>".toList] ++ listTags entries
    ++ ["<hr>".toList, "<br>".toList, "</body>".toList, "</html>".toList]

/-- The tags of the page for what is not found. -/
def notFoundTags : List Bytes :=
  ["<html>".toList, "<head>".toList, "<meta http-equiv=\"\" content=\"\">".toList,
    "<title>".toList, "</title>".toList, "</head>".toList, "<h1>".toList, "</h1>".toList,
    "<hr>".toList, "<br>".toList, "<a href=\"\">".toList, "</a>".toList, "<br>".toList,
    "<hr>".toList, "<br>".toList, "</body>".toList, "</html>".toList]

/-- The number of links to the directories above that the page for `uri` has. -/
def linkCount (uri : Bytes) : Nat :=
  match (if uri ≠ "/".toList then getParentDir uri else .ok []) with
  | .ok parent => if parent ≠ [] then (getVectorOfPathNodes parent).length + 1 else 0
  | .error _ => 0

/-- Texts without a character that means something where they are written. -/
structure PlainTexts (uri : Bytes) (tree : List FSEntry) (src : Bytes) : Prop where
  uri : '<' ∉ uri ∧ '"' ∉ uri
  names : ∀ it ∈ tree, '<' ∉ it.name ∧ '"' ∉ it.name
  src : '<' ∉ src

/-- A server name that leaves no quote open, and whose own tags balance. -/
structure SaneName (serverName : Bytes) : Prop where
  closed : (readTags .text (serverName ++ "</title>".toList)).2 = .text
  balanced : Balanced pageNames (tags (serverName ++ "</title>".toList))

section Pieces

/-- The end of a line. -/
theorem reads_lf : Reads .text lf [] .text := by decide

theorem reads_hr : Reads .text "<hr>".toList ["<hr>".toList] .text := by decide

theorem reads_br : Reads .text "<br>".toList ["<br>".toList] .text := by decide

theorem reads_bodyEnd : Reads .text "</body>".toList ["</body>".toList] .text := by decide

theorem reads_htmlEnd : Reads .text "</html>".toList ["</html>".toList] .text := by decide

/-- After any text, a link up to the end of its target. -/
theorem reads_link {before : Bytes} {found : List Bytes} (href : Bytes)
    (hbefore : Reads .text before found .text) (h : '"' ∉ href) :
    Reads .text (before ++ "<a href=\"".toList ++ href ++ "\">".toList)
      (found ++ ["<a href=\"\">".toList]) .text := by
  have hopens : Reads .text "<a href=\"".toList [] (.quoted '"' "<a href=\"".toList) := by decide
  have hbracket : Reads (.quoted '"' "<a href=\"".toList) "\">".toList ["<a href=\"\">".toList]
      .text := by decide
  exact ((hbefore.skip hopens).skip (reads_quoted '"' _ href h)).append hbracket

theorem reads_anchor (href text : Bytes) (hhref : '"' ∉ href) (htext : '<' ∉ text) :
    Reads .text (anchor href text) linkTags .text := by
  have hbuffer : Reads .text [] [] .text := rfl
  have hcloses : Reads .text "</a>".toList ["</a>".toList] .text := by decide
  exact (((reads_link href hbuffer hhref).skip (reads_text text htext)).append hcloses).skip
    reads_lf

theorem reads_backLinks (path : Bytes) (nodes : List Bytes) (hpath : '"' ∉ path)
    (hnodes : ∀ it ∈ nodes, '<' ∉ it ∧ '"' ∉ it) :
    Reads .text (backLinks path nodes) (List.replicate nodes.length linkTags).flatten .text := by
  induction nodes generalizing path with
  | nil => rfl
  | cons it nodes ih =>
      have hit := hnodes it List.mem_cons_self
      have hhref : '"' ∉ path ++ it := fun h => (List.mem_append.mp h).elim hpath hit.2
      have htext : '<' ∉ it ++ "/".toList := fun h =>
        (List.mem_append.mp h).elim hit.1 (by decide)
      have hnext : '"' ∉ path ++ it ++ ['/'] := fun h =>
        (List.mem_append.mp h).elim hhref (by decide)
      rw [backLinks_cons, List.length_cons, List.replicate_succ, List.flatten_cons]
      exact (reads_anchor _ _ hhref htext).append
        (ih _ hnext (fun it' h => hnodes it' (List.mem_cons_of_mem it h)))

/-- The components of a parent are made of its characters. -/
theorem mem_getVectorOfPathNodes (parent it : Bytes) (c : Char)
    (hit : it ∈ getVectorOfPathNodes parent) (hc : c ∈ it) : c ∈ parent := by
  rcases List.mem_map.mp hit with ⟨l, hl, rfl⟩
  rcases completeFrom_cut '/' [] (parent.drop 1) List.not_mem_nil with ⟨_, tail, hsplit, _⟩
  rw [List.nil_append] at hsplit
  refine List.mem_of_mem_drop (i := 1) ?_
  rw [hsplit]
  exact List.mem_append_left tail
    (List.mem_flatten.mpr ⟨l, hl, List.mem_of_mem_dropLast hc⟩)

theorem reads_getBackLinks (parent : Bytes) (hparent : '<' ∉ parent ∧ '"' ∉ parent) :
    Reads .text (getBackLinks parent)
      (List.replicate ((getVectorOfPathNodes parent).length + 1) linkTags).flatten .text := by
  have hnodes : ∀ it ∈ getVectorOfPathNodes parent, '<' ∉ it ∧ '"' ∉ it := fun it hit =>
    ⟨fun h => hparent.1 (mem_getVectorOfPathNodes parent it _ hit h),
      fun h => hparent.2 (mem_getVectorOfPathNodes parent it _ hit h)⟩
  rw [getBackLinks_eq, List.replicate_succ, List.flatten_cons]
  exact (reads_anchor _ _ (by decide) (by decide)).append
    (reads_backLinks ['/'] _ (by decide) hnodes)

/-- The characters of a size. -/
theorem mem_bytesHumanReadable (n : Nat) (c : Char) (hc : c ∈ bytesHumanReadable n) :
    c.isDigit = true ∨ c ∈ [' ', '.', 'B', 'k', 'M', 'G', 'T'] := by
  have hdecimal : ∀ m, c ∈ decimal m → c.isDigit = true := fun m h =>
    Nat.isDigit_of_mem_toDigits (by decide) (by decide) h
  have hunits : ∀ unit ∈ sizeUnits, unit ⊆ [' ', '.', 'B', 'k', 'M', 'G', 'T'] := by decide
  have hunit : ∀ order, c ∈ sizeUnits.getD order [] → c ∈ [' ', '.', 'B', 'k', 'M', 'G', 'T'] := by
    intro order h
    rw [List.getD_eq_getElem?_getD] at h
    cases hget : sizeUnits[order]? with
    | none =>
        rw [hget] at h
        exact absurd h List.not_mem_nil
    | some unit =>
        rw [hget] at h
        exact hunits unit (List.mem_of_getElem? hget) h
  have hpoint : c ∈ ".".toList → c ∈ [' ', '.', 'B', 'k', 'M', 'G', 'T'] := fun h => by
    rw [List.mem_singleton.mp h]
    decide
  have hspace : c ∈ " ".toList → c ∈ [' ', '.', 'B', 'k', 'M', 'G', 'T'] := fun h => by
    rw [List.mem_singleton.mp h]
    decide
  unfold bytesHumanReadable at hc
  simp only [List.mem_append] at hc
  rcases hc with (((hc | hc) | hc) | hc) | hc
  · exact Or.inl (hdecimal _ hc)
  · exact Or.inr (hpoint hc)
  · exact Or.inl (hdecimal _ hc)
  · exact Or.inr (hspace hc)
  · exact Or.inr (hunit _ hc)

/-- A size has no character that means something. -/
theorem not_mem_bytesHumanReadable (n : Nat) : '<' ∉ bytesHumanReadable n := fun h =>
  (mem_bytesHumanReadable n '<' h).elim (by decide) (by decide)

theorem reads_listItem (filePrefix : Bytes) (it : FSEntry) (hpre : '"' ∉ filePrefix)
    (hname : '<' ∉ it.name ∧ '"' ∉ it.name) :
    Reads .text (listItem filePrefix it) itemTags .text := by
  have hli : Reads .text "<li>".toList ["<li>".toList] .text := by decide
  have hhref : '"' ∉ filePrefix ++ makeHttpFriendly it.name := by
    rw [List.mem_append, not_or]
    exact ⟨hpre, fun h => (mem_makeHttpFriendly it.name '"' h).2.elim hname.2 (by decide)⟩
  have hsize : '<' ∉ (if it.isDir = true then "/".toList
      else " (".toList ++ bytesHumanReadable it.fileSize ++ ")".toList) := by
    split
    · decide
    · simp only [List.mem_append, not_or]
      exact ⟨⟨by decide, not_mem_bytesHumanReadable _⟩, by decide⟩
  have hcloses : Reads .text "</a> </li>".toList ["</a>".toList, "</li>".toList] .text := by decide
  exact ((((reads_link _ hli hhref).skip (reads_text it.name hname.1)).skip
    (reads_text _ hsize)).append hcloses).skip reads_lf

theorem reads_fillHtmlBody (tree : List FSEntry) (uri body : Bytes) (huri : '"' ∉ uri)
    (hnames : ∀ it ∈ tree, '<' ∉ it.name ∧ '"' ∉ it.name) (h : fillHtmlBody tree uri = .ok body) :
    Reads .text body (listTags tree.length) .text := by
  have hopens : Reads .text "<ul style=\"list-style-type:none;\">".toList
      ["<ul style=\"\">".toList] .text := by decide
  rw [fillHtmlBody] at h
  split at h
  · exact absurd h (by simp only [reduceCtorEq, not_false_eq_true])
  · rename_i last _
    simp only [] at h
    split at h
    · rename_i htree
      have hbreaks : Reads .text "<br> <br>".toList ["<br>".toList, "<br>".toList] .text := by
        decide
      rw [← Except.ok.inj h, htree]
      exact ((hopens.skip reads_lf).append hbreaks).skip reads_lf
    · rename_i htree
      have hcloses : Reads .text "</ul>".toList ["</ul>".toList] .text := by decide
      have hpre : '"' ∉ (if last ≠ '/' then uri ++ "/".toList else uri) := by
        split
        · exact fun hmem => (List.mem_append.mp hmem).elim huri (by decide)
        · exact huri
      have hitems := reads_flatMap (listItem (if last ≠ '/' then uri ++ "/".toList else uri))
        itemTags tree (fun it hit => reads_listItem _ it hpre (hnames it hit))
      rw [← Except.ok.inj h, listTags, if_neg (fun hlen => htree (List.length_eq_zero_iff.mp hlen))]
      exact (((hopens.skip reads_lf).append hitems).append hcloses).skip reads_lf

theorem reads_pageHead (serverName : Bytes)
    (hclosed : (readTags .text (serverName ++ "</title>".toList)).2 = .text) :
    Reads .text (pageHead serverName) (headTags serverName) .text := by
  -- The server name may leave a tag open, which the end of the title closes.
  have hname : Reads .text serverName (readTags .text serverName).1
      (readTags .text serverName).2 := rfl
  have htitle : Reads (readTags .text serverName).2 "</title>".toList
      (readTags (readTags .text serverName).2 "</title>".toList).1 .text := by
    rw [readTags_append] at hclosed
    exact Prod.ext rfl hclosed
  have hhtml : Reads .text "<html>".toList ["<html>".toList] .text := by decide
  have hhead : Reads .text "<head>".toList ["<head>".toList] .text := by decide
  have hmeta : Reads .text "<meta http-equiv=\"Content-Type\" content=\"text/html; ".toList []
      (.quoted '"' "<meta http-equiv=\"\" content=\"".toList) := by decide
  have hcharset : Reads (.quoted '"' "<meta http-equiv=\"\" content=\"".toList)
      "charset=utf-8\">".toList ["<meta http-equiv=\"\" content=\"\">".toList] .text := by decide
  have hopens : Reads .text "<title>".toList ["<title>".toList] .text := by decide
  have hend : Reads .text "</head>".toList ["</head>".toList] .text := by decide
  rw [headTags, tags, readTags_append, ← List.append_assoc]
  exact (((((((((((hhtml.skip reads_lf).append hhead).skip reads_lf).skip hmeta).append
    hcharset).skip reads_lf).append hopens).append hname).append htitle).skip reads_lf).append
    hend).skip reads_lf

theorem reads_fillSrcAddr (src : Bytes) (h : '<' ∉ src) :
    Reads .text (fillSrcAddr src) ["<br>".toList] .text := by
  have hintro : Reads .text "Your IP address is ".toList [] .text := by decide
  exact ((hintro.skip (reads_text src h)).append reads_br).skip reads_lf

/-- The tags of the page for what is not found, with plain texts. -/
theorem tags_get404Page (req : HTTPRequest) (src : Bytes) (huri : '<' ∉ req.mUri)
    (hsrc : '<' ∉ src) : tags (get404Page req [] src) = notFoundTags := by
  have hbuffer : Reads .text [] [] .text := rfl
  have hhead := reads_pageHead "Ashwin Server".toList (by decide)
  have htags : headTags "Ashwin Server".toList = ["<html>".toList, "<head>".toList,
      "<meta http-equiv=\"\" content=\"\">".toList, "<title>".toList, "</title>".toList,
      "</head>".toList] := by decide
  have hfirst : Reads .text "<h1> 404 - Not Found ".toList ["<h1>".toList] .text := by decide
  have hfirstEnd : Reads .text "</h1>".toList ["</h1>".toList] .text := by decide
  have hresource : Reads .text "Resource ".toList [] .text := by decide
  have hnot : Reads .text " not found".toList [] .text := by decide
  have hopens : Reads .text "<a href=\"/\"".toList [] (.tag "<a href=\"\"".toList) := by decide
  have hhome : Reads (.tag "<a href=\"\"".toList) "> Home page".toList
      ["<a href=\"\">".toList] .text := by decide
  have hcloses : Reads .text "</a> <br>".toList ["</a>".toList, "<br>".toList] .text := by decide
  have hpage := ((((((((((((((((((((hbuffer.append hhead).append hfirst).append hfirstEnd).skip
    reads_lf).append reads_hr).skip hresource).skip (reads_text req.mUri huri)).skip hnot).append
    reads_br).skip reads_lf).skip hopens).append hhome).append hcloses).skip reads_lf).append
    reads_hr).skip reads_lf).append (reads_fillSrcAddr src hsrc)).append reads_bodyEnd).skip
    reads_lf).append reads_htmlEnd).skip reads_lf
  refine hpage.tags_eq.trans ?_
  rw [htags]
  simp only [List.cons_append, List.nil_append, notFoundTags]

/-- The parent of a URI is a part of it. -/
theorem getParentDir_isPrefix (path parent : Bytes) (h : getParentDir path = .ok parent) :
    parent <+: path := by
  rw [getParentDir] at h
  split at h
  · exact absurd h (by simp only [reduceCtorEq, not_false_eq_true])
  · rename_i last _
    simp only [] at h
    generalize toUnsigned (if last = '/' then sizeSub path.length 2 else sizeSub path.length 1)
      = start at h
    split at h
    · exact absurd h (by simp only [reduceCtorEq, not_false_eq_true])
    · rw [← Except.ok.inj h]
      exact List.take_prefix _ _

/-- The tags of a listing with plain texts. -/
theorem tags_buildRspHtml (env : Env) (req : HTTPRequest) (tree : List FSEntry) (src : Bytes)
    (page : Bytes)
    (hname : (readTags .text (env.options.serverName ++ "</title>".toList)).2 = .text)
    (hplain : PlainTexts req.mUri tree src)
    (h : buildRspHtml env [] req tree src = .ok (.httpOk, page)) :
    tags page = pageTags env.options.serverName (linkCount req.mUri) tree.length := by
  rw [buildRspHtml] at h
  split at h
  · exact absurd h (by simp only [reduceCtorEq, not_false_eq_true])
  · rename_i parent hparent
    split at h
    · exact absurd h (by simp only [reduceCtorEq, not_false_eq_true])
    · rename_i body hbody
      have hsub : ∀ c, c ∈ parent → c ∈ req.mUri := by
        intro c hc
        split at hparent
        · exact (getParentDir_isPrefix req.mUri parent hparent).subset hc
        · rw [← Except.ok.inj hparent] at hc
          exact absurd hc List.not_mem_nil
      have hlinks : Reads .text (if parent ≠ [] then getBackLinks parent else [])
          (List.replicate (linkCount req.mUri) linkTags).flatten .text := by
        rw [linkCount, hparent]
        by_cases hempty : parent ≠ []
        · simp only [if_pos hempty]
          exact reads_getBackLinks parent ⟨fun hc => hplain.uri.1 (hsub _ hc),
            fun hc => hplain.uri.2 (hsub _ hc)⟩
        · simp only [if_neg hempty]
          rfl
      have hbuffer : Reads .text [] [] .text := rfl
      have hbodyTag : Reads .text "<body>".toList ["<body>".toList] .text := by decide
      have hhead : Reads .text "<h1> Directory Structure for ".toList ["<h1>".toList] .text := by
        decide
      have hheadEnd : Reads .text "</h1>".toList ["</h1>".toList] .text := by decide
      have hsrc := reads_fillSrcAddr src hplain.src
      have hpage := (((((((((((((((hbuffer.append (reads_pageHead _ hname)).append hbodyTag).skip
        reads_lf).append hhead).skip (reads_text req.mUri hplain.uri.1)).append hheadEnd).skip
        reads_lf).append hlinks).append reads_hr).append (reads_fillHtmlBody tree req.mUri body
        hplain.uri.2 hplain.names hbody)).append reads_hr).skip reads_lf).append hsrc).append
        reads_bodyEnd).skip reads_lf).append reads_htmlEnd |>.skip reads_lf
      rw [Except.ok.injEq, Prod.mk.injEq] at h
      rw [← h.2, hpage.tags_eq, pageTags]
      simp only [List.append_assoc, List.cons_append, List.nil_append]

end Pieces

/-- The tags of a listing balance exactly when something is listed. -/
theorem balanced_pageTags (serverName : Bytes) (links entries : Nat)
    (hname : Balanced pageNames (tags (serverName ++ "</title>".toList))) :
    Balanced pageNames (pageTags serverName links entries) ↔ entries ≠ 0 := by
  have hstart : nest pageNames [] ["<html>".toList, "<head>".toList,
      "<meta http-equiv=\"\" content=\"\">".toList, "<title>".toList]
      = some ["head".toList, "html".toList] := by decide
  have hheadEnd : nest pageNames ["head".toList, "html".toList] ["</head>".toList]
      = some ["html".toList] := by decide
  have hhead : nest pageNames [] (headTags serverName) = some ["html".toList] := by
    rw [headTags, nest_append, nest_append, hstart, Option.bind_some,
      nest_of_balanced pageNames _ _ hname, Option.bind_some, hheadEnd]
  have hbody : nest pageNames ["html".toList] ["<body>".toList, "<h1>".toList, "</h1>".toList]
      = some ["body".toList, "html".toList] := by decide
  have hrule : nest pageNames ["body".toList, "html".toList] ["<hr>".toList]
      = some ["body".toList, "html".toList] := by decide
  have hlinks := nest_of_balanced pageNames ["body".toList, "html".toList] _
    (balanced_replicate pageNames linkTags links (by decide))
  rw [Balanced, pageTags, nest_append, nest_append, nest_append, nest_append, nest_append, hhead,
    Option.bind_some, hbody, Option.bind_some, hlinks, Option.bind_some, hrule, Option.bind_some]
  by_cases hentries : entries = 0
  · -- The list is still open where the body is closed.
    rw [listTags, if_pos hentries]
    exact iff_of_false (by decide) (fun h => h hentries)
  · have hopens : nest pageNames ["body".toList, "html".toList] ["<ul style=\"\">".toList]
        = some ["ul".toList, "body".toList, "html".toList] := by decide
    have hitems := nest_of_balanced pageNames ["ul".toList, "body".toList, "html".toList] _
      (balanced_replicate pageNames itemTags entries (by decide))
    have hcloses : nest pageNames ["ul".toList, "body".toList, "html".toList] ["</ul>".toList]
        = some ["body".toList, "html".toList] := by decide
    rw [listTags, if_neg hentries, nest_append, nest_append, hopens, Option.bind_some, hitems,
      Option.bind_some, hcloses, Option.bind_some]
    exact iff_of_true (by decide) hentries

/-- The tags of a listing depend on the server name and on the numbers of links
    and of entries only, and they balance. -/
def StructureKept (serverName uri : Bytes) (entries : Nat) (page : Bytes) : Prop :=
  tags page = pageTags serverName (linkCount uri) entries ∧ Balanced pageNames (tags page)

/-- The listing of a directory with one entry, itself a directory. -/
def listingOf (name : Bytes) : Except Fault (HTTPStatus × Bytes) :=
  buildRspHtml sampleEnv [] { mUri := "/".toList } [{ isDir := true, name := name }] []

theorem not_structureKept (name : Bytes)
    (h : (listingOf name).toOption.map (fun r => tags r.2)
      ≠ some (pageTags [] (linkCount "/".toList) 1)) :
    ∃ page, listingOf name = .ok (.httpOk, page) ∧ ¬ StructureKept [] "/".toList 1 page := by
  rcases buildRspHtml_ok sampleEnv [] { mUri := "/".toList } [{ isDir := true, name := name }] []
    (by decide) (Or.inl rfl) with ⟨page, hpage, _⟩
  refine ⟨page, hpage, fun hkept => h ?_⟩
  rw [show listingOf name = .ok (.httpOk, page) from hpage, ← hkept.1]
  rfl

/-- When the structure of the pages is as it is meant to be. For a listing whose
    URI, names and client address are plain the tags depend on the server name
    and on the two numbers, and they balance exactly when the directory is not
    empty. Over a set of characters, texts keep the structure of every listing
    of a directory that is not empty exactly when neither `<` nor the quote is
    one of them. The page for what is not found has fixed tags where its texts are
    plain, and they do not balance. -/
theorem page_structure_exact (env : Env) (req : HTTPRequest) (tree : List FSEntry) (src : Bytes)
    (allowed : Char → Prop) :
    (SaneName env.options.serverName → PlainTexts req.mUri tree src → ∀ page,
      buildRspHtml env [] req tree src = .ok (.httpOk, page) →
      tags page = pageTags env.options.serverName (linkCount req.mUri) tree.length ∧
        (StructureKept env.options.serverName req.mUri tree.length page ↔ tree ≠ [])) ∧
    ((∀ env req tree src page, SaneName env.options.serverName →
        (∀ c ∈ req.mUri, c = '/' ∨ allowed c) → (∀ it ∈ tree, ∀ c ∈ it.name, allowed c) →
        (∀ c ∈ src, allowed c) → tree ≠ [] →
        buildRspHtml env [] req tree src = .ok (.httpOk, page) →
        StructureKept env.options.serverName req.mUri tree.length page)
      ↔ ¬ allowed '<' ∧ ¬ allowed '"') ∧
    (('<' ∉ req.mUri → '<' ∉ src → tags (get404Page req [] src) = notFoundTags) ∧
      ¬ (tags (get404Page req [] src) = notFoundTags ∧
        Balanced pageNames (tags (get404Page req [] src)))) := by
  have hplain : ∀ env req tree src, SaneName env.options.serverName →
      PlainTexts req.mUri tree src → ∀ page,
      buildRspHtml env [] req tree src = .ok (.httpOk, page) →
      tags page = pageTags env.options.serverName (linkCount req.mUri) tree.length ∧
        (StructureKept env.options.serverName req.mUri tree.length page ↔ tree ≠ []) := by
    intro env req tree src hname htexts page hpage
    have htags := tags_buildRspHtml env req tree src page hname.closed htexts hpage
    refine ⟨htags, ?_⟩
    rw [StructureKept, htags, balanced_pageTags _ _ _ hname.balanced, ne_eq,
      List.length_eq_zero_iff]
    exact and_iff_right rfl
  refine ⟨hplain env req tree src, ⟨fun hall => ?_, fun hnot => ?_⟩,
    tags_get404Page req src, fun h => ?_⟩
  · -- A name of the one character breaks the structure.
    have hname : ∀ c, (listingOf [c]).toOption.map (fun r => tags r.2)
        ≠ some (pageTags [] (linkCount "/".toList) 1) → ¬ allowed c := by
      intro c hdiff hc
      rcases not_structureKept [c] hdiff with ⟨page, hpage, hbroken⟩
      refine hbroken (hall sampleEnv { mUri := "/".toList } [{ isDir := true, name := [c] }] []
        page ⟨by decide, by decide⟩ (fun d hd => Or.inl (List.mem_singleton.mp hd))
        (fun it hit d hd => ?_) (fun d hd => absurd hd List.not_mem_nil) (List.cons_ne_nil _ _)
        hpage)
      rw [List.mem_singleton.mp hit] at hd
      rw [List.mem_singleton.mp hd]
      exact hc
    exact ⟨hname '<' (by decide), hname '"' (by decide)⟩
  · intro env req tree src page hname huri hnames hsrc htree hpage
    refine (hplain env req tree src hname ⟨⟨fun h => ?_, fun h => ?_⟩, fun it hit =>
      ⟨fun h => hnot.1 (hnames it hit _ h), fun h => hnot.2 (hnames it hit _ h)⟩,
      fun h => hnot.1 (hsrc _ h)⟩ page hpage).2.mpr htree
    · exact hnot.1 ((huri _ h).resolve_left (by decide))
    · exact hnot.2 ((huri _ h).resolve_left (by decide))
  · rw [h.1] at h
    exact absurd h.2 (by decide)

theorem page_structure_exact_root :
    ∃ page, listingOf "a b".toList = .ok (.httpOk, page) ∧
      StructureKept [] "/".toList 1 page := by
  rcases buildRspHtml_ok sampleEnv [] { mUri := "/".toList }
    [{ isDir := true, name := "a b".toList }] [] (by decide) (Or.inl rfl) with ⟨page, hpage, _⟩
  refine ⟨page, hpage, (((page_structure_exact sampleEnv { mUri := "/".toList }
    [{ isDir := true, name := "a b".toList }] [] (fun _ => True)).1 ⟨by decide, by decide⟩
    ⟨by decide, fun it hit => ?_, List.not_mem_nil⟩ page hpage).2.mpr (List.cons_ne_nil _ _))⟩
  rw [List.mem_singleton.mp hit]
  decide

/-- An entry whose name has a tag in it. -/
theorem page_structure_fails :
    ¬ ∀ env req tree src page, buildRspHtml env [] req tree src = .ok (.httpOk, page) →
      StructureKept env.options.serverName req.mUri tree.length page := by
  intro hall
  rcases not_structureKept "<i>".toList (by decide) with ⟨page, hpage, hbroken⟩
  exact hbroken (hall sampleEnv { mUri := "/".toList }
    [{ isDir := true, name := "<i>".toList }] [] page hpage)

end HttpFileSharing
