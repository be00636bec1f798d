import HttpFileSharing.Theory.Listing

/-!
# The Links to the Directories Above

What the page that lists a directory says about where it is. The parent of a
URI is the URI up to its last slash that is not its final character, and the
page has a link to the root and one to each directory that a slash of the
parent ends.

The three loops are followed one character at a time. What the splitter has
taken since the last slash, behind what the links have accumulated, is always
the part of the URI that has been read, so the link written at a slash is the
part before it, whether the slash ends a name, stands behind another one or is
the last.

## Main definitions

* `anchor`: A link as it is written.
* `afterSlash`: The part of a path after its last slash.
* `ancestorLinks`: The directories above, each with its label.

## Theorems

* `afterSlash_append`: The part after a slash that is the last one.
* `backLinks_completeFrom`: The accumulator writes the parts before slashes.
* `getBackLinks_eq`, `getBackLinks_take`: The links of a parent.
* `exists_parent_slash`: Where a URI is cut.
* `breadcrumbs_exact`: The links are to the directories above, and no others.
-/

namespace HttpFileSharing

/-- A link as it is written. -/
def anchor (href text : Bytes) : Bytes :=
  "<a href=\"".toList ++ href ++ "\">".toList ++ text ++ "</a>".toList ++ lf

/-- The part of a path after its last slash. -/
def afterSlash (path : Bytes) : Bytes := (path.reverse.takeWhile (· ≠ '/')).reverse

/-- For each slash of `uri` among the `count` characters from `start` on: the
    part before it, and what stands between it and the slash before, followed by
    a slash. -/
def ancestorLinks (uri : Bytes) (start count : Nat) : List (Bytes × Bytes) :=
  ((List.range' start count).filter (fun i => uri[i]? = some '/')).map
    (fun i => (uri.take i, afterSlash (uri.take i) ++ "/".toList))

theorem afterSlash_append (path name : Bytes) (h : '/' ∉ name) :
    afterSlash (path ++ ['/'] ++ name) = name := by
  have hname : ∀ c ∈ name.reverse, decide (c ≠ '/') = true := by
    intro c hc
    refine decide_eq_true (fun hslash => ?_)
    rw [hslash, List.mem_reverse] at hc
    exact h hc
  have hstop : (path ++ ['/']).reverse.takeWhile (· ≠ '/') = [] := by
    rw [List.reverse_append]
    rfl
  rw [afterSlash, List.reverse_append, List.takeWhile_append_of_pos hname, hstop, List.append_nil,
    List.reverse_reverse]

/-- The next slash to be read, if the next character is one, and the rest. -/
theorem ancestorLinks_append (done : Bytes) (c : Char) (rest : Bytes) :
    ancestorLinks (done ++ c :: rest) done.length (rest.length + 1)
      = (if c = '/' then [(done, afterSlash done ++ "/".toList)] else [])
        ++ ancestorLinks (done ++ [c] ++ rest) (done ++ [c]).length rest.length := by
  have htake : (done ++ c :: rest).take done.length = done := List.take_left
  have hchar : (done ++ c :: rest)[done.length]? = some c := by
    rw [List.getElem?_append_right (Nat.le_refl _), Nat.sub_self]
    rfl
  have hlen : (done ++ [c]).length = done.length + 1 := by
    rw [List.length_append, List.length_singleton]
  rw [hlen, List.append_assoc, List.singleton_append, ancestorLinks, List.range'_succ,
    List.filter_cons, hchar]
  by_cases hc : c = '/'
  · rw [if_pos hc, if_pos (decide_eq_true (congrArg some hc)), List.map_cons, htake]
    rfl
  · rw [if_neg hc, if_neg (fun h => hc (Option.some.inj (of_decide_eq_true h)))]
    rfl

theorem backLinks_cons (path it : Bytes) (nodes : List Bytes) :
    backLinks path (it :: nodes)
      = anchor (path ++ it) (it ++ "/".toList) ++ backLinks (path ++ it ++ ['/']) nodes := by
  -- The slash of the label is written with the end of the link.
  have hgroup : ∀ opening href bracket slash closing closed eol more : Bytes,
      closed = slash ++ closing →
      opening ++ href ++ bracket ++ it ++ closed ++ eol ++ more
        = opening ++ href ++ bracket ++ (it ++ slash) ++ closing ++ eol ++ more := by
    intro opening href bracket slash closing closed eol more hclosed
    rw [hclosed]
    simp only [List.append_assoc]
  exact hgroup "<a href=\"".toList (path ++ it) "\">".toList "/".toList "</a>".toList
    "/</a>".toList lf (backLinks (path ++ it ++ ['/']) nodes) (by decide)

/-- With `path` accumulated and `name` taken since its last slash, the links
    still to be written are those of the slashes still to be read. -/
theorem backLinks_completeFrom (path name rest : Bytes) (hname : '/' ∉ name) :
    backLinks (path ++ ['/']) ((completeFrom '/' name rest).map List.dropLast)
      = (ancestorLinks (path ++ ['/'] ++ name ++ rest) (path ++ ['/'] ++ name).length
          rest.length).flatMap (fun l => anchor l.1 l.2) := by
  induction rest generalizing path name with
  | nil => rfl
  | cons c rest ih =>
      rw [List.length_cons, ancestorLinks_append, afterSlash_append path name hname, completeFrom,
        List.flatMap_append]
      by_cases hc : c = '/'
      · -- The link is to what has been read before the slash.
        have hrest := ih (path ++ ['/'] ++ name) [] List.not_mem_nil
        rw [List.append_nil] at hrest
        rw [if_pos hc, if_pos hc, hc, List.map_cons, List.dropLast_concat, backLinks_cons, hrest,
          List.flatMap_singleton]
      · have hrest := ih path (name ++ [c]) (by
          rw [List.mem_append, List.mem_singleton, not_or]
          exact ⟨hname, fun h => hc h.symm⟩)
        rw [← List.append_assoc] at hrest
        rw [if_neg hc, if_neg hc, List.flatMap_nil, List.nil_append, hrest]

/-- The links of a parent, read off the URI it was cut from. -/
theorem ancestorLinks_take (uri : Bytes) (k : Nat) :
    ancestorLinks (uri.take (k + 1)) 1 k = ancestorLinks uri 1 k := by
  have hbelow : ∀ i ∈ List.range' 1 k, i < k + 1 := by
    intro i hi
    rw [List.mem_range'_1] at hi
    omega
  have hslash : ∀ i ∈ List.range' 1 k,
      decide ((uri.take (k + 1))[i]? = some '/') = decide (uri[i]? = some '/') := by
    intro i hi
    rw [List.getElem?_take_of_lt (hbelow i hi)]
  rw [ancestorLinks, ancestorLinks, List.filter_congr hslash]
  refine List.map_congr_left (fun i hi => ?_)
  have hlt := hbelow i (List.mem_filter.mp hi).1
  rw [List.take_take, Nat.min_eq_left (Nat.le_of_lt hlt)]

theorem getBackLinks_eq (parent : Bytes) :
    getBackLinks parent
      = anchor "/".toList "Go UP: /".toList ++ backLinks ['/'] (getVectorOfPathNodes parent) := by
  -- The first link is grouped like the others.
  have hgroup : ∀ opening href bracket label slash text closing eol more : Bytes,
      text = label ++ slash →
      opening ++ href ++ bracket ++ label ++ slash ++ closing ++ eol ++ more
        = opening ++ href ++ bracket ++ text ++ closing ++ eol ++ more := by
    intro opening href bracket label slash text closing eol more htext
    rw [htext]
    simp only [List.append_assoc]
  exact hgroup "<a href=\"".toList "/".toList "\">".toList "Go UP: ".toList "/".toList
    "Go UP: /".toList "</a>".toList lf _ (by decide)

theorem getBackLinks_take (uri : Bytes) (k : Nat) (hroot : uri.head? = some '/')
    (hk : k < uri.length) :
    getBackLinks (uri.take (k + 1))
      = anchor "/".toList "Go UP: /".toList
        ++ (ancestorLinks uri 1 k).flatMap (fun l => anchor l.1 l.2) := by
  cases uri with
  | nil => exact absurd hroot (by simp only [List.head?_nil, reduceCtorEq, not_false_eq_true])
  | cons c rest =>
      rw [List.head?_cons, Option.some.injEq] at hroot
      rw [List.length_cons] at hk
      have hlinks := backLinks_completeFrom [] [] (rest.take k) List.not_mem_nil
      have hlen : (rest.take k).length = k := by
        rw [List.length_take]
        omega
      rw [List.nil_append, List.append_nil, List.singleton_append, hlen, List.length_singleton,
        ← hroot, ← List.take_succ_cons, ancestorLinks_take] at hlinks
      rw [getBackLinks_eq, ← hlinks, hroot]
      rfl

/-- A URI that begins with a slash, other than a lone one, has a slash before
    its last character, and a last one of them. -/
theorem exists_parent_slash (uri : Bytes) (hroot : uri.head? = some '/')
    (hne : uri ≠ "/".toList) :
    ∃ a b x, uri = a ++ '/' :: (b ++ [x]) ∧ '/' ∉ b := by
  cases uri with
  | nil => exact absurd hroot (by simp only [List.head?_nil, reduceCtorEq, not_false_eq_true])
  | cons c rest =>
      rw [List.head?_cons, Option.some.injEq] at hroot
      have hrest : rest ≠ [] := by
        rintro rfl
        exact hne (by rw [hroot]; rfl)
      have hsplit : (c :: rest).dropLast ++ [(c :: rest).getLast (List.cons_ne_nil c rest)]
          = c :: rest := List.dropLast_append_getLast _
      have hslash : '/' ∈ (c :: rest).dropLast := by
        rw [List.dropLast_cons_of_ne_nil hrest, hroot]
        exact List.mem_cons_self
      rcases exists_last '/' _ hslash with ⟨a, b, hab, hb⟩
      refine ⟨a, b, (c :: rest).getLast (List.cons_ne_nil c rest), ?_, hb⟩
      rw [← List.cons_append, ← List.append_assoc, ← hab]
      exact hsplit.symm

/-- The page for a URI below the root names exactly the directories above it.
    Its parent is the URI cut behind its last slash that is not its final
    character, every index within the URI, and the page has, in front of the
    list, a link to the root and then for each further slash of the parent one
    to the part of the URI before that slash, labelled with what stands between
    it and the slash before, and no other. A URI that was listed is as short as
    is asked here, as `length_of_listing` says. -/
theorem breadcrumbs_exact (uri : Bytes) (hroot : uri.head? = some '/') (hne : uri ≠ "/".toList)
    (hlen : uri.length < 2 ^ 32) :
    ∃ k, k + 1 < uri.length ∧ uri[k]? = some '/' ∧
      (∀ j, k < j → j + 1 < uri.length → uri[j]? ≠ some '/') ∧
      getParentDir uri = .ok (uri.take (k + 1)) ∧
      getBackLinks (uri.take (k + 1))
        = anchor "/".toList "Go UP: /".toList
          ++ (ancestorLinks uri 1 k).flatMap (fun l => anchor l.1 l.2) ∧
      ∀ env buffer req tree src, req.mUri = uri → ∃ body, fillHtmlBody tree uri = .ok body ∧
        buildRspHtml env buffer req tree src
          = .ok (.httpOk, buffer ++ pageHead env.options.serverName ++ "<body>".toList ++ lf
            ++ "<h1> Directory Structure for ".toList ++ uri ++ "</h1>".toList ++ lf
            ++ getBackLinks (uri.take (k + 1))
            ++ "<hr>".toList ++ body ++ "<hr>".toList ++ lf ++ fillSrcAddr src
            ++ "</body>".toList ++ lf ++ "</html>".toList ++ lf) := by
  rcases exists_parent_slash uri hroot hne with ⟨a, b, x, hab, hb⟩
  have hsize : uri.length = a.length + b.length + 2 := by
    rw [hab]
    simp only [List.length_append, List.length_cons, List.length_nil]
    omega
  have hslash : uri[a.length]? = some '/' := by
    rw [hab, List.getElem?_append_right (Nat.le_refl _), Nat.sub_self]
    rfl
  -- Behind it and before the last character there is no other.
  have hlast : ∀ j, a.length < j → j + 1 < uri.length → uri[j]? ≠ some '/' := by
    intro j hj hjlen hchar
    have hin : b[j - a.length - 1]? = some '/' := by
      rw [hab, List.getElem?_append_right (Nat.le_of_lt hj),
        List.getElem?_cons, if_neg (by omega), List.getElem?_append_left (by omega)] at hchar
      exact hchar
    exact hb (List.mem_of_getElem? hin)
  have htake : uri.take (a.length + 1) = a ++ ['/'] := by
    rw [hab, List.take_append, List.take_of_length_le (Nat.le_succ _), Nat.add_sub_cancel_left]
    rfl
  have hparent : getParentDir uri = .ok (uri.take (a.length + 1)) := by
    rw [htake, hab]
    exact getParentDir_slash a b x hb (hab ▸ hlen)
  refine ⟨a.length, by omega, hslash, hlast, hparent,
    getBackLinks_take uri a.length hroot (by omega), fun env buffer req tree src huri => ?_⟩
  rcases fillHtmlBody_ok tree uri (by rintro rfl; exact absurd hroot (by decide)) hlen with
    ⟨body, hbody⟩
  refine ⟨body, hbody, ?_⟩
  have hcons : uri.take (a.length + 1) ≠ [] := by
    rw [htake]
    exact List.append_ne_nil_of_right_ne_nil a (List.cons_ne_nil '/' [])
  rw [buildRspHtml, huri, if_pos hne, hparent, hbody]
  simp only [if_pos hcons]

theorem breadcrumbs_exact_doubled :
    ∃ k, getParentDir "/a//b/".toList = .ok ("/a//b/".toList.take (k + 1)) ∧
      getBackLinks ("/a//b/".toList.take (k + 1))
        = anchor "/".toList "Go UP: /".toList
          ++ (ancestorLinks "/a//b/".toList 1 k).flatMap (fun l => anchor l.1 l.2) := by
  rcases breadcrumbs_exact "/a//b/".toList (by decide) (by decide) (by decide) with
    ⟨k, _, _, _, hparent, hlinks, _⟩
  exact ⟨k, hparent, hlinks⟩

/-- A doubled slash has an empty label. -/
example : ancestorLinks "/a//b/".toList 1 3
    = [("/a".toList, "a/".toList), ("/a/".toList, "/".toList)] := by decide

end HttpFileSharing
