import HttpFileSharing.Lib.Tags
import HttpFileSharing.Lib.Transducer

/-!
# Reading Links

The links of a page as a browser finds them: a tag that opens a link has its
target as a quoted value, the text up to the tag that closes it is the label,
and everything else is passed over. Tags are told from text as in `Lib.Tags`,
with their quoted values left in.

## Main definitions

* `Anchor`: A link, by its target and its label.
* `Cursor`: Where a reader of links is.
* `hrefOf`: The target of a tag that opens a link.
* `anchorStep`, `anchors`: Reading the links of a text.
* `AnchorReads`: What reading a piece of text gives.

## Theorems

* `anchorReads_text`: Text outside links.
* `anchorReads_label`: Text inside a link.
* `anchorReads_opens`, `anchorReads_link`: A link as it is written.
-/

namespace HttpFileSharing

/-- A link. -/
structure Anchor where
  href : List Char
  label : List Char
  deriving DecidableEq, Repr

/-- Where a reader of links is, and the link that is open with the label it has
    so far. -/
structure Cursor where
  mode : TagMode
  link : Option Anchor
  deriving DecidableEq

/-- What a tag that opens a link begins with. -/
def linkOpening : List Char := "<a href=\"".toList

/-- The target of a tag that opens a link. -/
def hrefOf (tag : List Char) : Option (List Char) :=
  if linkOpening <+: tag then some ((tag.drop linkOpening.length).takeWhile (· ≠ '"')) else none

/-- A tag has been read: the link it completes if it does, and the link that is
    open after it. -/
def finishTag (link : Option Anchor) (tag : List Char) : List Anchor × Option Anchor :=
  match hrefOf tag with
  | some href => ([], some ⟨href, []⟩)
  | none => if tag = "</a>".toList then (link.toList, none) else ([], link)

/-- One character. -/
def anchorStep (cur : Cursor) (c : Char) : List Anchor × Cursor :=
  match cur.mode with
  | .text =>
    if c = '<' then ([], { cur with mode := .tag ['<'] })
    else ([], { cur with link := cur.link.map (fun a => { a with label := a.label ++ [c] }) })
  | .tag run =>
    if c = '>' then
      ((finishTag cur.link (run ++ ['>'])).1, ⟨.text, (finishTag cur.link (run ++ ['>'])).2⟩)
    else if c = '"' ∨ c = '\'' then ([], { cur with mode := .quoted c (run ++ [c]) })
    else ([], { cur with mode := .tag (run ++ [c]) })
  | .quoted quote run =>
    if c = quote then ([], { cur with mode := .tag (run ++ [c]) })
    else ([], { cur with mode := .quoted quote (run ++ [c]) })

/-- Outside tags and links. -/
def Cursor.outside : Cursor := ⟨.text, none⟩

/-- The links of a text. -/
def anchors (s : List Char) : List Anchor := (emit anchorStep .outside s).1

/-- Reading `s` from one cursor completes links and leaves another cursor. -/
abbrev AnchorReads (cur : Cursor) (s : List Char) (found : List Anchor) (cur' : Cursor) : Prop :=
  Emits anchorStep cur s found cur'

theorem Emits.anchors_eq {s : List Char} {found : List Anchor} {cur : Cursor}
    (h : AnchorReads .outside s found cur) : anchors s = found := congrArg Prod.fst h

/-- Text outside links. -/
theorem anchorReads_text (s : List Char) (h : '<' ∉ s) : AnchorReads .outside s [] .outside := by
  refine emits_of_still _ s (fun c hc => ?_)
  have hne : c ≠ '<' := fun heq => h (heq ▸ hc)
  exact if_neg hne

/-- Text inside a link. -/
theorem anchorReads_label (href label s : List Char) (h : '<' ∉ s) :
    AnchorReads ⟨.text, some ⟨href, label⟩⟩ s [] ⟨.text, some ⟨href, label ++ s⟩⟩ := by
  unfold AnchorReads Emits
  induction s generalizing label with
  | nil => rw [emit, List.append_nil]
  | cons c s ih =>
      rw [List.mem_cons, not_or] at h
      have hstep : anchorStep ⟨.text, some ⟨href, label⟩⟩ c
          = ([], ⟨.text, some ⟨href, label ++ [c]⟩⟩) := if_neg (fun hc => h.1 hc.symm)
      rw [emit, hstep, ih _ h.2, List.append_assoc]
      rfl

/-- A quoted value. -/
theorem anchorReads_quoted (quote : Char) (run s : List Char) (link : Option Anchor)
    (h : quote ∉ s) :
    AnchorReads ⟨.quoted quote run, link⟩ s [] ⟨.quoted quote (run ++ s), link⟩ := by
  unfold AnchorReads Emits
  induction s generalizing run with
  | nil => rw [emit, List.append_nil]
  | cons c s ih =>
      rw [List.mem_cons, not_or] at h
      have hstep : anchorStep ⟨.quoted quote run, link⟩ c
          = ([], ⟨.quoted quote (run ++ [c]), link⟩) := if_neg (fun hc => h.1 hc.symm)
      rw [emit, hstep, ih _ h.2, List.append_assoc]
      rfl

/-- The tag that opens a link. -/
theorem anchorReads_opens (href : List Char) (h : '"' ∉ href) :
    AnchorReads .outside (linkOpening ++ href ++ "\">".toList) [] ⟨.text, some ⟨href, []⟩⟩ := by
  have hopens : AnchorReads .outside linkOpening [] ⟨.quoted '"' linkOpening, none⟩ := by decide
  -- The value ends at its quote, and the tag behind it.
  have htag : hrefOf (linkOpening ++ href ++ ['"'] ++ ['>']) = some href := by
    have hkeep : ∀ c ∈ href, decide (c ≠ '"') = true :=
      fun c hc => decide_eq_true (fun heq => h (heq ▸ hc))
    rw [hrefOf, List.append_assoc, List.append_assoc, if_pos (List.prefix_append _ _),
      List.drop_left, List.takeWhile_append_of_pos hkeep]
    exact congrArg some (List.append_nil href)
  have hcloses : AnchorReads ⟨.quoted '"' (linkOpening ++ href), none⟩ "\">".toList []
      ⟨.text, some ⟨href, []⟩⟩ := by
    have hfinish : finishTag none (linkOpening ++ href ++ ['"'] ++ ['>'])
        = ([], some ⟨href, []⟩) := by
      rw [finishTag, htag]
    have hquote : anchorStep ⟨.quoted '"' (linkOpening ++ href), none⟩ '"'
        = ([], ⟨.tag (linkOpening ++ href ++ ['"']), none⟩) := rfl
    have hend : anchorStep ⟨.tag (linkOpening ++ href ++ ['"']), none⟩ '>'
        = ([], ⟨.text, some ⟨href, []⟩⟩) := by
      simp only [anchorStep, if_true, hfinish]
    unfold AnchorReads Emits
    rw [show "\">".toList = ['"', '>'] from rfl, emit, hquote, emit, hend]
    rfl
  exact (hopens.skip (anchorReads_quoted '"' linkOpening href none h)).skip hcloses

/-- A link as it is written. -/
theorem anchorReads_link (href label : List Char) (hhref : '"' ∉ href) (hlabel : '<' ∉ label) :
    AnchorReads .outside (linkOpening ++ href ++ "\">".toList ++ label ++ "</a>".toList)
      [⟨href, label⟩] .outside := by
  have hcloses : AnchorReads ⟨.text, some ⟨href, label⟩⟩ "</a>".toList [⟨href, label⟩] .outside :=
    rfl
  exact ((anchorReads_opens href hhref).skip (anchorReads_label href [] label hlabel)).append
    hcloses

end HttpFileSharing
