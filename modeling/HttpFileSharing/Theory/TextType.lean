import HttpFileSharing.Core.File
import HttpFileSharing.Theory.Paths
import HttpFileSharing.Lib.Lines

/-!
# Text or Binary

What the type of a file is decided by. The extension is looked for from the
back of the whole name that `get_file` looks the file up by, directories
included. Where the name of the file itself has a dot that one is found first
and the directories do not matter. Where it has none, a dot in a directory is
found, and what stands behind it has a slash, so it is no text extension.

## Main definitions

* `NameIsText`: A name that stands for text.
* `IsDirectory`: What can stand before the name of a file.
* `DecidedByName`: The type of a file depends on its own name only.

## Theorems

* `rfind_eq_none`, `rfind_last`: What `rfind` finds.
* `isTextFile_iff`: The type of any name.
* `isTextFile_append`: The type of a file in a directory.
* `getFile_contentType`: The type `get_file` reports.
* `text_type_exact`: When it is decided by the file's own name.
-/

namespace HttpFileSharing

/-- A name without a dot, or with one of the listed extensions from its last dot
    on. -/
def NameIsText (name : Bytes) : Prop :=
  '.' ∉ name ∨ ∃ stem extension, name = stem ++ '.' :: extension ∧ '.' ∉ extension ∧
    '.' :: extension ∈ supportedTextFileTypes

/-- A prefix that ends where the name of a file begins. -/
def IsDirectory (path : Bytes) : Prop := path = [] ∨ path.getLast? = some '/'

/-- The type of a file is the one its own name stands for. -/
def DecidedByName (path name : Bytes) : Prop :=
  isTextFile (path ++ name) = isTextFile name ∧ (isTextFile (path ++ name) = true ↔ NameIsText name)

theorem rfind_eq_none (c : Char) (s : Bytes) (h : c ∉ s) : rfind c s = none := by
  induction s with
  | nil => rfl
  | cons x s ih =>
      rw [List.mem_cons, not_or] at h
      rw [rfind, ih h.2]
      exact if_neg (fun hx => h.1 hx.symm)

theorem rfind_last (c : Char) (a b : Bytes) (h : c ∉ b) :
    rfind c (a ++ c :: b) = some a.length := by
  induction a with
  | nil =>
      rw [List.nil_append, rfind, rfind_eq_none c b h]
      exact if_pos rfl
  | cons x a ih => rw [List.cons_append, rfind, ih, List.length_cons]

/-- Without a dot a name is taken for text. -/
theorem isTextFile_of_not_mem (name : Bytes) (h : '.' ∉ name) : isTextFile name = true := by
  rw [isTextFile, rfind_eq_none '.' name h]

/-- With a dot the extension decides. -/
theorem isTextFile_last (stem extension : Bytes) (h : '.' ∉ extension) :
    isTextFile (stem ++ '.' :: extension) = decide ('.' :: extension ∈ supportedTextFileTypes) := by
  rw [isTextFile, rfind_last '.' stem extension h]
  simp only [List.drop_left]

theorem isTextFile_iff (name : Bytes) : isTextFile name = true ↔ NameIsText name := by
  by_cases hdot : '.' ∈ name
  · rcases exists_last '.' name hdot with ⟨stem, extension, rfl, hext⟩
    rw [isTextFile_last stem extension hext, decide_eq_true_eq]
    refine ⟨fun h => Or.inr ⟨stem, extension, rfl, hext, h⟩, ?_⟩
    rintro (h | ⟨stem', extension', heq, hext', h⟩)
    · exact absurd hdot h
    · -- The part from the last dot on is the same however the name is cut.
      have hdrop := congrArg (fun s => (rfind '.' s).map s.drop) heq
      simp only [rfind_last '.' _ _ hext, rfind_last '.' _ _ hext', Option.map_some,
        List.drop_left, Option.some.injEq] at hdrop
      rw [hdrop]
      exact h
  · exact iff_of_true (isTextFile_of_not_mem name hdot) (Or.inl hdot)

/-- No text extension has a slash. -/
theorem slash_not_mem_of_supported (extension : Bytes) (h : extension ∈ supportedTextFileTypes) :
    '/' ∉ extension := by
  revert extension
  exact (by decide : ∀ extension ∈ supportedTextFileTypes, '/' ∉ extension)

/-- A directory with a dot in it has a slash behind its last dot. -/
theorem IsDirectory.exists_last_dot (path : Bytes) (hpath : IsDirectory path) (hdot : '.' ∈ path) :
    ∃ stem rest, path = stem ++ '.' :: rest ∧ '.' ∉ rest ∧ '/' ∈ rest := by
  rcases exists_last '.' path hdot with ⟨stem, rest, rfl, hrest⟩
  refine ⟨stem, rest, rfl, hrest, ?_⟩
  rcases hpath with hnil | hlast
  · exact absurd hnil (List.append_ne_nil_of_right_ne_nil stem (List.cons_ne_nil '.' rest))
  · rw [List.getLast?_append_of_ne_nil stem (List.cons_ne_nil '.' rest)] at hlast
    rcases List.mem_cons.mp (List.mem_of_getLast? hlast) with h | h
    · exact absurd h (by decide)
    · exact h

/-- In a directory a name with a dot keeps its type. A name without one is text
    where the directory has no dot either. -/
theorem isTextFile_append (path name : Bytes) (hpath : IsDirectory path) (hname : '/' ∉ name) :
    isTextFile (path ++ name)
      = if '.' ∈ name then isTextFile name else decide ('.' ∉ path) := by
  split
  · rename_i hdot
    rcases exists_last '.' name hdot with ⟨stem, extension, rfl, hext⟩
    rw [← List.append_assoc, isTextFile_last _ extension hext, isTextFile_last stem extension hext]
  · rename_i hdot
    by_cases hpathDot : '.' ∈ path
    · rcases hpath.exists_last_dot path hpathDot with ⟨stem, rest, rfl, hrest, hslash⟩
      have hext : '.' ∉ rest ++ name := fun h => (List.mem_append.mp h).elim hrest hdot
      have hother : '.' :: (rest ++ name) ∉ supportedTextFileTypes := fun h =>
        slash_not_mem_of_supported _ h
          (List.mem_cons_of_mem '.' (List.mem_append_left name hslash))
      rw [List.append_assoc, List.cons_append, isTextFile_last stem _ hext,
        decide_eq_false hother, decide_eq_false (fun h => h hpathDot)]
    · rw [decide_eq_true hpathDot]
      exact isTextFile_of_not_mem _
        (fun h => (List.mem_append.mp h).elim hpathDot hdot)

/-- The type `get_file` reports for a file that is there. -/
theorem getFile_contentType (env : Env) (rsp : HTTPResponse) (req : HTTPRequest)
    (h : (getFile env rsp req).1 = .httpOk) :
    (getFile env rsp req).2.mContentType
      = if isTextFile (cleanFilename (req.mUri.drop 1)) = true then textPlain else octetStream := by
  rw [getFile] at h ⊢
  cases hstat : env.fs.stat env.cwd (cleanFilename (req.mUri.drop 1)) with
  | error errno =>
      simp only [hstat] at h
      exact absurd h (by decide)
  | ok node => rfl

/-- Two types are the same exactly when both are text or both are not. -/
theorem contentType_eq_iff (a b : Bool) :
    (if a = true then textPlain else octetStream) = (if b = true then textPlain else octetStream)
      ↔ a = b := by
  revert a b
  decide

/-- When the type of a file is decided by its own name: where that name has a
    dot or the directory has none. The type that is reported stays the same
    when the file is moved to another directory exactly when the name has a dot
    or the two directories both have one or both have none. -/
theorem text_type_exact (path path' name : Bytes) (hpath : IsDirectory path)
    (hpath' : IsDirectory path') (hname : '/' ∉ name) :
    (DecidedByName path name ↔ '.' ∈ name ∨ '.' ∉ path) ∧
    ∀ env env' rsp rsp' req req', cleanFilename (req.mUri.drop 1) = path ++ name →
      cleanFilename (req'.mUri.drop 1) = path' ++ name →
      (getFile env rsp req).1 = .httpOk → (getFile env' rsp' req').1 = .httpOk →
      ((getFile env rsp req).2.mContentType = (getFile env' rsp' req').2.mContentType ↔
        '.' ∈ name ∨ ('.' ∈ path ↔ '.' ∈ path')) := by
  refine ⟨?_, fun env env' rsp rsp' req req' hfile hfile' hok hok' => ?_⟩
  · rw [DecidedByName, ← isTextFile_iff, isTextFile_append path name hpath hname]
    by_cases hdot : '.' ∈ name
    · rw [if_pos hdot]
      exact iff_of_true ⟨rfl, Iff.rfl⟩ (Or.inl hdot)
    · rw [if_neg hdot, isTextFile_of_not_mem name hdot]
      simp only [hdot, decide_eq_true_eq, iff_true, and_self, false_or]
  · rw [getFile_contentType env rsp req hok, getFile_contentType env' rsp' req' hok',
      contentType_eq_iff, hfile, hfile', isTextFile_append path name hpath hname,
      isTextFile_append path' name hpath' hname]
    by_cases hdot : '.' ∈ name
    · rw [if_pos hdot, if_pos hdot]
      exact iff_of_true rfl (Or.inl hdot)
    · rw [if_neg hdot, if_neg hdot, decide_eq_decide, not_iff_not]
      simp only [hdot, false_or]

/-- One file under two names, `x` and `./x`. -/
theorem text_type_exact_dot :
    (DecidedByName "./".toList "x".toList ↔ '.' ∈ "x".toList ∨ '.' ∉ "./".toList) ∧
    ((getFile sampleEnv {} { mUri := "/./x".toList }).2.mContentType
        = (getFile sampleEnv {} { mUri := "/x".toList }).2.mContentType ↔
      '.' ∈ "x".toList ∨ ('.' ∈ "./".toList ↔ '.' ∈ ([] : Bytes))) := by
  have hexact := text_type_exact "./".toList [] "x".toList (Or.inr (by decide)) (Or.inl rfl)
    (by decide)
  exact ⟨hexact.1, hexact.2 sampleEnv sampleEnv {} {} { mUri := "/./x".toList }
    { mUri := "/x".toList } (by decide) (by decide) (by decide) (by decide)⟩

/-- A file is text by its own name and binary in a directory with a dot. -/
theorem text_type_fails :
    ¬ ∀ path name : Bytes, path.getLast? = some '/' → '/' ∉ name →
      isTextFile (path ++ name) = isTextFile name :=
  fun h => absurd (h "v1.2/".toList "README".toList (by decide) (by decide)) (by decide)

end HttpFileSharing
