import HttpFileSharing.Lib.Anchors
import HttpFileSharing.Theory.Links
import HttpFileSharing.Theory.PageStructure

/-!
# Reading a Listing Back

What a browser makes of the page that lists a directory. It finds the links to
the directories above and behind them one link for each entry, in the order of
the listing, and no others. The label of an entry has the entry's name, whether
it is a directory and the size that is printed for it, and each can be told from
the label alone.

The page is read piece by piece as it was put together, by the rules of
`Lib.Anchors`. A text that goes into it must not have a character that means
something there; `PlainTexts` says so, as it does for the tags.

## Main definitions

* `labelOf`, `entryAnchor`: The link to an entry.
* `backAnchors`, `upAnchors`: The links to the directories above.
* `readLabel`: What a label says.

## Theorems

* `anchorReads_buildRspHtml`: The links of a page.
* `readLabel_labelOf`: A label is read back.
* `listing_read_back`: A listing is read back from its page.
-/

namespace HttpFileSharing

/-- What the link to an entry is labelled with. -/
def labelOf (it : FSEntry) : Bytes :=
  it.name ++ (if it.isDir = true then "/".toList
    else " (".toList ++ bytesHumanReadable it.fileSize ++ ")".toList)

/-- The link to an entry on the page for `uri`. -/
def entryAnchor (uri : Bytes) (it : FSEntry) : Anchor := ⟨href uri it.name, labelOf it⟩

/-- The links of `_get_back_links`, after those in `path`. -/
def backAnchors (path : Bytes) : List Bytes → List Anchor
  | [] => []
  | it :: nodes => ⟨path ++ it, it ++ "/".toList⟩ :: backAnchors (path ++ it ++ ['/']) nodes

/-- The links to the directories above on the page for `uri`. -/
def upAnchors (uri : Bytes) : List Anchor :=
  match (if uri ≠ "/".toList then getParentDir uri else .ok []) with
  | .ok parent =>
    if parent ≠ [] then
      ⟨"/".toList, "Go UP: /".toList⟩ :: backAnchors ['/'] (getVectorOfPathNodes parent)
    else []
  | .error _ => []

/-- What a label says: the name of the entry, and for a file the text of its
    size, which has no parenthesis in it. -/
def readLabel (label : Bytes) : Option (Bytes × Option Bytes) :=
  match label.getLast? with
  | some '/' => some (label.dropLast, none)
  | some ')' =>
    let size := (label.dropLast.reverse.takeWhile (· ≠ '(')).reverse
    some (label.take (label.length - (size.length + 3)), some size)
  | _ => none

section Pieces

theorem anchorReads_lf : AnchorReads .outside lf [] .outside := by decide

theorem anchorReads_anchor (href text : Bytes) (hhref : '"' ∉ href) (htext : '<' ∉ text) :
    AnchorReads .outside (anchor href text) [⟨href, text⟩] .outside :=
  (anchorReads_link href text hhref htext).skip anchorReads_lf

theorem anchorReads_backLinks (path : Bytes) (nodes : List Bytes) (hpath : '"' ∉ path)
    (hnodes : ∀ it ∈ nodes, '<' ∉ it ∧ '"' ∉ it) :
    AnchorReads .outside (backLinks path nodes) (backAnchors path nodes) .outside := by
  induction nodes generalizing path with
  | nil => rfl
  | cons it nodes ih =>
      have hit := hnodes it List.mem_cons_self
      have hhref : '"' ∉ path ++ it := fun h => (List.mem_append.mp h).elim hpath hit.2
      have htext : '<' ∉ it ++ "/".toList := fun h =>
        (List.mem_append.mp h).elim hit.1 (by decide)
      have hnext : '"' ∉ path ++ it ++ ['/'] := fun h =>
        (List.mem_append.mp h).elim hhref (by decide)
      rw [backLinks_cons]
      exact (anchorReads_anchor _ _ hhref htext).append
        (ih _ hnext (fun n hn => hnodes n (List.mem_cons_of_mem it hn)))

theorem anchorReads_getBackLinks (parent : Bytes) (hparent : '<' ∉ parent ∧ '"' ∉ parent) :
    AnchorReads .outside (getBackLinks parent)
      (⟨"/".toList, "Go UP: /".toList⟩ :: backAnchors ['/'] (getVectorOfPathNodes parent))
      .outside := by
  have hnodes : ∀ it ∈ getVectorOfPathNodes parent, '<' ∉ it ∧ '"' ∉ it := fun it hit =>
    ⟨fun h => hparent.1 (mem_getVectorOfPathNodes parent it _ hit h),
      fun h => hparent.2 (mem_getVectorOfPathNodes parent it _ hit h)⟩
  rw [getBackLinks_eq]
  exact (anchorReads_anchor _ _ (by decide) (by decide)).append
    (anchorReads_backLinks ['/'] _ (by decide) hnodes)

theorem not_mem_labelOf (it : FSEntry) (h : '<' ∉ it.name) : '<' ∉ labelOf it := by
  rw [labelOf, List.mem_append, not_or]
  refine ⟨h, ?_⟩
  split
  · decide
  · simp only [List.mem_append, not_or]
    exact ⟨⟨by decide, not_mem_bytesHumanReadable _⟩, by decide⟩

/-- An entry of the list. -/
theorem anchorReads_listItem (uri : Bytes) (it : FSEntry) (huri : '"' ∉ uri)
    (hname : '<' ∉ it.name ∧ '"' ∉ it.name) :
    AnchorReads .outside (listItem (withSlash uri) it) [entryAnchor uri it] .outside := by
  have hli : AnchorReads .outside "<li>".toList [] .outside := by decide
  have hend : AnchorReads .outside " </li>".toList [] .outside := by decide
  have hhref : '"' ∉ href uri it.name := by
    rw [href, List.mem_append, not_or]
    exact ⟨fun h => huri ((mem_withSlash uri '"' (by decide)).mp h),
      fun h => (mem_makeHttpFriendly it.name '"' h).2.elim hname.2 (by decide)⟩
  -- The end of the link is written with the end of the entry.
  have hgroup : ∀ li a u q n r e c l eol : Bytes, e = c ++ l →
      li ++ a ++ u ++ q ++ n ++ r ++ e ++ eol
        = li ++ (a ++ u ++ q ++ (n ++ r) ++ c) ++ l ++ eol := by
    intro li a u q n r e c l eol he
    rw [he]
    simp only [List.append_assoc]
  have hitem : listItem (withSlash uri) it = "<li>".toList
      ++ (linkOpening ++ href uri it.name ++ "\">".toList ++ labelOf it ++ "</a>".toList)
      ++ " </li>".toList ++ lf := by
    unfold listItem labelOf href linkOpening
    exact hgroup _ _ _ _ _ _ "</a> </li>".toList "</a>".toList " </li>".toList _ rfl
  rw [hitem]
  exact ((hli.append (anchorReads_link (href uri it.name) (labelOf it) hhref
    (not_mem_labelOf it hname.1))).skip hend).skip anchorReads_lf

theorem anchorReads_fillHtmlBody (tree : List FSEntry) (uri body : Bytes) (huri : '"' ∉ uri)
    (hlen : uri.length < 2 ^ 32) (hnames : ∀ it ∈ tree, '<' ∉ it.name ∧ '"' ∉ it.name)
    (h : fillHtmlBody tree uri = .ok body) :
    AnchorReads .outside body (tree.map (entryAnchor uri)) .outside := by
  have hopens : AnchorReads .outside "<ul style=\"list-style-type:none;\">".toList [] .outside :=
    rfl
  have hne : uri ≠ [] := by
    rintro rfl
    exact absurd h (by simp only [fillHtmlBody, charAt, List.length_nil, List.getElem?_nil,
      reduceCtorEq, not_false_eq_true])
  by_cases htree : tree = []
  · have hbreaks : AnchorReads .outside "<br> <br>".toList [] .outside := by decide
    rw [fillHtmlBody] at h
    split at h
    · exact absurd h (by simp only [reduceCtorEq, not_false_eq_true])
    · simp only [if_pos htree] at h
      rw [← Except.ok.inj h, htree]
      exact ((hopens.skip anchorReads_lf).skip hbreaks).skip anchorReads_lf
  · have hcloses : AnchorReads .outside "</ul>".toList [] .outside := by decide
    have hitem : ∀ it ∈ tree, AnchorReads .outside (listItem (withSlash uri) it)
        [entryAnchor uri it] .outside :=
      fun it hit => anchorReads_listItem uri it huri (hnames it hit)
    have hitems := emits_flatMap Cursor.outside (listItem (withSlash uri))
      (fun it => [entryAnchor uri it]) tree hitem
    rw [fillHtmlBody_slash tree htree uri hne hlen, Except.ok.injEq] at h
    rw [← h, List.map_eq_flatMap]
    exact (((hopens.skip anchorReads_lf).append hitems).skip hcloses).skip anchorReads_lf

/-- The links of the page that lists a directory. -/
theorem anchorReads_buildRspHtml (env : Env) (req : HTTPRequest) (tree : List FSEntry)
    (src page : Bytes) (hlen : req.mUri.length < 2 ^ 32)
    (hname : AnchorReads .outside env.options.serverName [] .outside)
    (hplain : PlainTexts req.mUri tree src)
    (h : buildRspHtml env [] req tree src = .ok (.httpOk, page)) :
    AnchorReads .outside page (upAnchors req.mUri ++ tree.map (entryAnchor req.mUri)) .outside := by
  rw [buildRspHtml] at h
  split at h
  · exact absurd h (by simp only [reduceCtorEq, not_false_eq_true])
  · rename_i parent hparent
    split at h
    · exact absurd h (by simp only [reduceCtorEq, not_false_eq_true])
    · rename_i body hbody
      have hsub : ∀ c, c ∈ parent → c ∈ req.mUri := by
        intro c hc
        split at hparent
        · exact (getParentDir_isPrefix req.mUri parent hparent).subset hc
        · rw [← Except.ok.inj hparent] at hc
          exact absurd hc List.not_mem_nil
      have hlinks : AnchorReads .outside (if parent ≠ [] then getBackLinks parent else [])
          (upAnchors req.mUri) .outside := by
        rw [upAnchors, hparent]
        by_cases hempty : parent ≠ []
        · simp only [if_pos hempty]
          exact anchorReads_getBackLinks parent ⟨fun hc => hplain.uri.1 (hsub _ hc),
            fun hc => hplain.uri.2 (hsub _ hc)⟩
        · simp only [if_neg hempty]
          rfl
      -- Outside the two lists of links no piece has one.
      have hbuffer : AnchorReads .outside [] [] .outside := rfl
      have hhead : AnchorReads .outside (pageHead env.options.serverName) [] .outside := by
        have hhtml : AnchorReads .outside "<html>".toList [] .outside := by decide
        have hopens : AnchorReads .outside "<head>".toList [] .outside := by decide
        have hmeta : AnchorReads .outside
            "<meta http-equiv=\"Content-Type\" content=\"text/html; ".toList []
            ⟨.quoted '"' "<meta http-equiv=\"Content-Type\" content=\"text/html; ".toList, none⟩ := rfl
        have hcharset : AnchorReads
            ⟨.quoted '"' "<meta http-equiv=\"Content-Type\" content=\"text/html; ".toList, none⟩
            "charset=utf-8\">".toList [] .outside := rfl
        have htitle : AnchorReads .outside "<title>".toList [] .outside := by decide
        have hcloses : AnchorReads .outside "</title>".toList [] .outside := by decide
        have hend : AnchorReads .outside "</head>".toList [] .outside := by decide
        exact ((((((((((hhtml.skip anchorReads_lf).skip hopens).skip anchorReads_lf).skip
          hmeta).skip hcharset).skip anchorReads_lf).skip htitle).skip hname).skip hcloses).skip
          anchorReads_lf).skip hend |>.skip anchorReads_lf
      have hbodyTag : AnchorReads .outside "<body>".toList [] .outside := by decide
      have htitle : AnchorReads .outside "<h1> Directory Structure for ".toList [] .outside := rfl
      have htitleEnd : AnchorReads .outside "</h1>".toList [] .outside := by decide
      have hrule : AnchorReads .outside "<hr>".toList [] .outside := by decide
      have hsrc : AnchorReads .outside (fillSrcAddr src) [] .outside := by
        have hintro : AnchorReads .outside "Your IP address is ".toList [] .outside := by decide
        have hbreak : AnchorReads .outside "<br>".toList [] .outside := by decide
        exact ((hintro.skip (anchorReads_text src hplain.src)).skip hbreak).skip anchorReads_lf
      have hbodyEnd : AnchorReads .outside "</body>".toList [] .outside := by decide
      have hhtmlEnd : AnchorReads .outside "</html>".toList [] .outside := by decide
      rw [Except.ok.injEq, Prod.mk.injEq] at h
      rw [← h.2]
      exact (((((((((((((((hbuffer.skip hhead).skip hbodyTag).skip anchorReads_lf).skip
        htitle).skip (anchorReads_text req.mUri hplain.uri.1)).skip htitleEnd).skip
        anchorReads_lf).append hlinks).skip hrule).append (anchorReads_fillHtmlBody tree req.mUri
        body hplain.uri.2 hlen hplain.names hbody)).skip hrule).skip anchorReads_lf).skip hsrc).skip
        hbodyEnd).skip anchorReads_lf).skip hhtmlEnd |>.skip anchorReads_lf

end Pieces

/-- A label is read back. -/
theorem readLabel_labelOf (it : FSEntry) :
    readLabel (labelOf it)
      = some (it.name,
        if it.isDir = true then none else some (bytesHumanReadable it.fileSize)) := by
  by_cases hdir : it.isDir = true
  · have hlast : (labelOf it).getLast? = some '/' := by
      rw [labelOf, if_pos hdir]
      exact List.getLast?_concat
    have hname : (labelOf it).dropLast = it.name := by
      rw [labelOf, if_pos hdir]
      exact List.dropLast_concat
    simp only [readLabel, hlast, hname, if_pos hdir]
  · have hlabel : labelOf it
        = it.name ++ (' ' :: '(' :: bytesHumanReadable it.fileSize) ++ [')'] := by
      rw [labelOf, if_neg hdir, ← List.append_assoc]
      rfl
    have hlast : (labelOf it).getLast? = some ')' := by
      rw [hlabel]
      exact List.getLast?_concat
    -- The last opening parenthesis is the one before the size.
    have hsize : ((labelOf it).dropLast.reverse.takeWhile (· ≠ '(')).reverse
        = bytesHumanReadable it.fileSize := by
      have hparen : ∀ c ∈ (bytesHumanReadable it.fileSize).reverse, decide (c ≠ '(') = true := by
        intro c hc
        refine decide_eq_true (fun heq => ?_)
        rw [heq, List.mem_reverse] at hc
        exact (mem_bytesHumanReadable _ _ hc).elim (by decide) (by decide)
      rw [hlabel, List.dropLast_concat, List.reverse_append, List.reverse_cons, List.reverse_cons,
        List.append_assoc, List.append_assoc, List.takeWhile_append_of_pos hparen,
        List.singleton_append, List.takeWhile_cons_of_neg (by decide), List.append_nil,
        List.reverse_reverse]
    have hname : (labelOf it).take
        ((labelOf it).length - ((bytesHumanReadable it.fileSize).length + 3)) = it.name := by
      have hlen : (labelOf it).length - ((bytesHumanReadable it.fileSize).length + 3)
          = it.name.length := by
        rw [hlabel]
        simp only [List.length_append, List.length_cons, List.length_nil]
        omega
      rw [hlen, hlabel, List.append_assoc]
      exact List.take_left
    simp only [readLabel, hlast, hsize, hname, if_neg hdir]

/-- The page that lists a directory can be read back: its links are those to the
    directories above and one for each entry, in order, and the labels of the
    latter give the names, which of them are directories, and the sizes that are
    printed. -/
theorem listing_read_back (env : Env) (req : HTTPRequest) (tree : List FSEntry)
    (src page : Bytes) (hlen : req.mUri.length < 2 ^ 32)
    (hname : AnchorReads .outside env.options.serverName [] .outside)
    (hplain : PlainTexts req.mUri tree src)
    (h : buildRspHtml env [] req tree src = .ok (.httpOk, page)) :
    anchors page = upAnchors req.mUri ++ tree.map (entryAnchor req.mUri) ∧
      ((anchors page).drop (upAnchors req.mUri).length).map (fun a => readLabel a.label)
        = tree.map (fun it => some (it.name,
            if it.isDir = true then none else some (bytesHumanReadable it.fileSize))) := by
  have hanchors := (anchorReads_buildRspHtml env req tree src page hlen hname hplain h).anchors_eq
  refine ⟨hanchors, ?_⟩
  rw [hanchors, List.drop_left, List.map_map]
  exact List.map_congr_left (fun it _ => readLabel_labelOf it)

/-- A directory and a file of 2048 bytes, two levels down. -/
theorem listing_read_back_two :
    ∃ page, buildRspHtml sampleEnv [] { mUri := "/s/t".toList }
        [{ isDir := true, name := ['d'] },
          { isDir := false, name := "a b".toList, fileSize := 2048 }] []
          = .ok (.httpOk, page) ∧
      anchors page = [⟨"/".toList, "Go UP: /".toList⟩, ⟨"/s".toList, "s/".toList⟩,
        ⟨"/s/t/d".toList, "d/".toList⟩, ⟨"/s/t/a%20b".toList, "a b (2.0 kB)".toList⟩] ∧
      ((anchors page).drop 2).map (fun a => readLabel a.label)
        = [some (['d'], none), some ("a b".toList, some "2.0 kB".toList)] := by
  rcases buildRspHtml_ok sampleEnv [] { mUri := "/s/t".toList }
    [{ isDir := true, name := ['d'] },
      { isDir := false, name := "a b".toList, fileSize := 2048 }] []
    (by decide) (Or.inr (by decide)) with ⟨page, hpage, _⟩
  have hplain : PlainTexts "/s/t".toList
      [{ isDir := true, name := ['d'] },
        { isDir := false, name := "a b".toList, fileSize := 2048 }] [] :=
    ⟨by decide, by decide, List.not_mem_nil⟩
  have hback := listing_read_back sampleEnv { mUri := "/s/t".toList } _ [] page (by decide) rfl
    hplain hpage
  refine ⟨page, hpage, ?_, ?_⟩
  · rw [hback.1]
    decide +kernel
  · rw [show 2 = (upAnchors "/s/t".toList).length by decide]
    rw [hback.2]
    decide +kernel

end HttpFileSharing
