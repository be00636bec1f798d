import HttpFileSharing.Lib.Lines
import HttpFileSharing.Lib.Replace

/-!
# Reading an HTTP Response

A reader for HTTP responses, written as a client would write one: the head
ends at the first blank line, the status line has the code after its first
space, and each line after it is a field with its value behind a colon and a
space. What follows the head is the body. The reader also says how long the
body should be, and leaves it to its caller to compare.

`readResponse_render` is the fact about it that is used: a message written
line by line, from a status line and fields with no line breaks of their own,
is read back as what it was written from, whatever the body is.

## Main definitions

* `lineEnd`, `headEnd`: A line break, and the end of the head.
* `Field`, `Field.text`: A header field and its line.
* `renderMessage`: A message from its parts.
* `readNat`, `readStatus`, `readField`: Reading a number, the code, a field.
* `Reading`, `readResponse`: Reading a response.

## Theorems

* `splitFirst_message`: The head ends where the fields do.
* `readField_render`: A field is read back.
* `readNat_toDigits`: A decimal number is read back.
* `readResponse_render`: A message is read back.
* `readResponse_extend`: What has been read stays when more comes in.
-/

namespace HttpFileSharing

/-- A line break. -/
def lineEnd : List Char := ['\r', '\n']

/-- The end of the head: the break of its last line, and a blank line. -/
def headEnd : List Char := ['\r', '\n', '\r', '\n']

/-- A header field, without line breaks. -/
structure Field where
  name : List Char
  value : List Char
  name_colon : ':' ∉ name
  name_cr : '\r' ∉ name
  name_lf : '\n' ∉ name
  value_cr : '\r' ∉ value
  value_lf : '\n' ∉ value

/-- A field as it is written, without the line break. -/
def Field.text (f : Field) : List Char := f.name ++ ':' :: ' ' :: f.value

/-- A message: the status line, the fields, a blank line and the body. -/
def renderMessage (statusLine : List Char) (fields : List Field) (body : List Char) :
    List Char :=
  statusLine ++ lineEnd ++ fields.flatMap (fun f => f.text ++ lineEnd) ++ lineEnd ++ body

/-- A decimal number. -/
def readNat (s : List Char) : Option Nat :=
  if s ≠ [] ∧ s.all Char.isDigit = true then some (Nat.ofDigitChars 10 s 0) else none

/-- The code of a status line: the number between its first two spaces. -/
def readStatus (line : List Char) : Option Nat :=
  readNat (takeUntil ' ' (takeUntil ' ' line).2).1

/-- The value of the first field called `name`. -/
def readField (name : List Char) (lines : List (List Char)) : Option (List Char) :=
  (lines.find? (fun l => (takeUntil ':' l).1 = name)).map
    (fun l => ((takeUntil ':' l).2.drop 1).takeWhile (fun c => c ≠ '\r'))

/-- What a reader makes of a response. -/
structure Reading where
  status : Nat
  contentType : List Char
  length : Nat
  body : List Char
  deriving DecidableEq, Repr

/-- Read a response: cut at the first blank line, take the code from the
    status line and look up the two fields. -/
def readResponse (wire : List Char) : Option Reading :=
  match splitFirst headEnd wire with
  | none => none
  | some (head, body) => match completeLines '\n' (head ++ lineEnd) with
    | [] => none
    | statusLine :: lines =>
      match readStatus statusLine, readField "Content-type".toList lines,
        (readField "Content-Length".toList lines).bind readNat with
      | some status, some contentType, some length => some ⟨status, contentType, length, body⟩
      | _, _, _ => none

theorem Field.text_cr (f : Field) : '\r' ∉ f.text := by
  simp only [Field.text, List.mem_append, List.mem_cons, Char.reduceEq, false_or, not_or]
  exact ⟨f.name_cr, f.value_cr⟩

theorem Field.isLine (f : Field) : IsLine '\n' (f.text ++ lineEnd) := by
  refine ⟨f.text ++ ['\r'], ?_, by rw [List.append_assoc]; rfl⟩
  simp only [Field.text, List.mem_append, List.mem_cons, Char.reduceEq, false_or, not_or,
    List.not_mem_nil, not_false_eq_true, and_true]
  exact ⟨f.name_lf, f.value_lf⟩

/-- A line break that is not followed by another is passed over. -/
theorem splitFirst_lineEnd (rest : List Char) (h : rest.head? ≠ some '\r') :
    splitFirst headEnd (lineEnd ++ rest)
      = (splitFirst headEnd rest).map (fun q => (lineEnd ++ q.1, q.2)) := by
  -- Neither of the two characters begins an occurrence.
  have hcr : ¬ headEnd <+: '\r' :: '\n' :: rest := by
    intro hpre
    simp only [headEnd, List.cons_prefix_cons, true_and] at hpre
    cases rest with
    | nil => exact absurd (List.prefix_nil.mp hpre) (List.cons_ne_nil _ _)
    | cons c rest => exact h (congrArg some (List.cons_prefix_cons.mp hpre).1.symm)
  have hlf : ¬ headEnd <+: '\n' :: rest := by
    intro hpre
    exact absurd (List.cons_prefix_cons.mp hpre).1 (by decide)
  rw [lineEnd, List.cons_append, List.cons_append, List.nil_append, splitFirst, if_neg hcr,
    splitFirst, if_neg hlf, Option.map_map]
  rfl

/-- The first blank line is the one after the fields. -/
theorem splitFirst_message (first : List Char) (fields : List Field) (body : List Char)
    (hcr : '\r' ∉ first) :
    splitFirst headEnd (first ++ (lineEnd ++ fields.flatMap (fun f => f.text ++ lineEnd)
        ++ lineEnd ++ body))
      = some (first ++ fields.flatMap (fun f => lineEnd ++ f.text), body) := by
  induction fields generalizing first with
  | nil =>
      -- After the last line its break and the blank line make the end of the head.
      have hskip := splitFirst_append '\r' ['\n', '\r', '\n'] first
      have hend := splitFirst_of_prefix headEnd body (List.cons_ne_nil _ _)
      rw [List.flatMap_nil, List.append_nil, headEnd, hskip _ hcr]
      rw [headEnd] at hend
      rw [show lineEnd ++ lineEnd ++ body = ['\r', '\n', '\r', '\n'] ++ body from rfl, hend]
      rfl
  | cons f fields ih =>
      have hskip := splitFirst_append '\r' ['\n', '\r', '\n'] first
      have hhead : (f.text ++ (lineEnd ++ fields.flatMap (fun f => f.text ++ lineEnd)
          ++ lineEnd ++ body)).head? ≠ some '\r' := by
        intro h
        rw [List.head?_append] at h
        cases htext : f.text with
        | nil => exact absurd htext (by simp only [Field.text, List.append_eq_nil_iff,
            List.cons_ne_nil, and_false, not_false_eq_true])
        | cons c text =>
            rw [htext, List.head?_cons, Option.some_or, Option.some.injEq] at h
            exact f.text_cr (by rw [htext, h]; exact List.mem_cons_self)
      -- The break before a field is passed over, and the field is the next line.
      have hnext := ih f.text f.text_cr
      have hline := splitFirst_lineEnd _ hhead
      rw [hnext] at hline
      rw [List.flatMap_cons, headEnd, hskip _ hcr]
      rw [headEnd] at hline
      have hassoc : lineEnd ++ (f.text ++ lineEnd ++ fields.flatMap (fun f => f.text ++ lineEnd))
          ++ lineEnd ++ body = lineEnd ++ (f.text ++ (lineEnd
            ++ fields.flatMap (fun f => f.text ++ lineEnd) ++ lineEnd ++ body)) := by
        simp only [List.append_assoc]
      rw [hassoc, hline]
      simp only [Option.map_some, List.flatMap_cons, List.append_assoc]

/-- The lines of the head. -/
theorem completeLines_head (statusLine : List Char) (fields : List Field)
    (hlf : '\n' ∉ statusLine) :
    completeLines '\n' (statusLine ++ fields.flatMap (fun f => lineEnd ++ f.text) ++ lineEnd)
      = (statusLine ++ lineEnd) :: fields.map (fun f => f.text ++ lineEnd) := by
  -- A break before each field and one at the end are a break after each line.
  have hshift : ∀ (fields : List Field),
      fields.flatMap (fun f => lineEnd ++ f.text) ++ lineEnd
        = lineEnd ++ (fields.map (fun f => f.text ++ lineEnd)).flatten := by
    intro fields
    induction fields with
    | nil => rfl
    | cons f fields ih =>
        rw [List.flatMap_cons, List.append_assoc, ih, List.map_cons, List.flatten_cons]
        simp only [List.append_assoc]
  have hstatus : IsLine '\n' (statusLine ++ lineEnd) := by
    refine ⟨statusLine ++ ['\r'], ?_, by rw [List.append_assoc]; rfl⟩
    simp only [List.mem_append, List.mem_singleton, Char.reduceEq, or_false]
    exact hlf
  rw [List.append_assoc, hshift, ← List.append_assoc, completeLines_append '\n' _ _ hstatus]
  have hlines : ∀ l ∈ fields.map (fun f => f.text ++ lineEnd), IsLine '\n' l := by
    intro l hl
    rcases List.mem_map.mp hl with ⟨f, _, rfl⟩
    exact f.isLine
  have hcut := completeLines_flatten '\n' (fields.map (fun f => f.text ++ lineEnd)) [] hlines
  rw [List.append_nil, completeLines, completeLines, completeFrom, List.append_nil] at hcut
  rw [completeLines, hcut]

/-- A field is read back: the value of the first field of that name. -/
theorem readField_render (name : List Char) (fields : List Field) :
    readField name (fields.map (fun f => f.text ++ lineEnd))
      = (fields.find? (fun f => f.name = name)).map Field.value := by
  -- The name of a field has no colon, so the first colon ends it.
  have hcut : ∀ f : Field, takeUntil ':' (f.text ++ lineEnd)
      = (f.name, ' ' :: (f.value ++ lineEnd)) := by
    intro f
    rw [Field.text, List.append_assoc, List.cons_append, List.cons_append,
      takeUntil_append ':' f.name _ f.name_colon]
  induction fields with
  | nil => rfl
  | cons f fields ih =>
      rw [readField, List.map_cons, List.find?_cons, List.find?_cons, hcut f]
      by_cases hname : f.name = name
      · -- The value ends at the break, which is its first CR.
        have hvalue : (f.value ++ lineEnd).takeWhile (fun c => c ≠ '\r') = f.value := by
          have hkeep : ∀ c ∈ f.value, decide (c ≠ '\r') = true :=
            fun c hc => decide_eq_true (fun h => f.value_cr (h ▸ hc))
          rw [List.takeWhile_append_of_pos hkeep]
          exact List.append_nil _
        simp only [hname, decide_true, Option.map_some, hcut f, List.drop_one, List.tail_cons,
          hvalue]
      · simp only [hname, decide_false]
        exact ih

/-- A decimal number is read back. -/
theorem readNat_toDigits (n : Nat) : readNat (Nat.toDigits 10 n) = some n := by
  have hdigits : (Nat.toDigits 10 n).all Char.isDigit = true :=
    List.all_eq_true.mpr (fun c hc => Nat.isDigit_of_mem_toDigits (by decide) (by decide) hc)
  -- The digits are never empty, also for zero.
  rw [readNat, if_pos ⟨Nat.toDigits_ne_nil, hdigits⟩, Nat.ofDigitChars_ten_toDigits]

/-- A message is read back as what it was written from, whatever its body. -/
theorem readResponse_render (statusLine : List Char) (fields : List Field) (body : List Char)
    (status length : Nat) (contentType : List Char)
    (hcr : '\r' ∉ statusLine) (hlf : '\n' ∉ statusLine)
    (hstatus : readStatus (statusLine ++ lineEnd) = some status)
    (htype : (fields.find? (fun f => f.name = "Content-type".toList)).map Field.value
      = some contentType)
    (hlength : (fields.find? (fun f => f.name = "Content-Length".toList)).map Field.value
      = some (Nat.toDigits 10 length)) :
    readResponse (renderMessage statusLine fields body)
      = some ⟨status, contentType, length, body⟩ := by
  have hsplit := splitFirst_message statusLine fields body hcr
  have hassoc : renderMessage statusLine fields body
      = statusLine ++ (lineEnd ++ fields.flatMap (fun f => f.text ++ lineEnd)
        ++ lineEnd ++ body) := by
    simp only [renderMessage, List.append_assoc]
  rw [readResponse, hassoc, hsplit]
  simp only [completeLines_head statusLine fields hlf, hstatus, readField_render, htype, hlength,
    Option.bind_some, readNat_toDigits]

/-- What has been read stays when more comes in, which goes to the body. -/
theorem readResponse_extend (wire rest : List Char) (r : Reading)
    (h : readResponse wire = some r) :
    readResponse (wire ++ rest) = some { r with body := r.body ++ rest } := by
  rw [readResponse] at h ⊢
  cases hsplit : splitFirst headEnd wire with
  | none => simp only [hsplit, reduceCtorEq] at h
  | some cut =>
      rcases cut with ⟨head, body⟩
      rw [splitFirst_extend headEnd wire rest head body hsplit]
      simp only [hsplit] at h
      cases hlines : completeLines '\n' (head ++ lineEnd) with
      | nil => simp only [hlines, reduceCtorEq] at h
      | cons statusLine lines =>
          simp only [hlines] at h ⊢
          split at h
          · rw [← Option.some.inj h]
          · exact absurd h (by simp only [reduceCtorEq, not_false_eq_true])

end HttpFileSharing
