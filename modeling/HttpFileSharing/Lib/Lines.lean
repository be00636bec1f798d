import Mathlib.Data.List.Basic
import Mathlib.Data.List.Induction

/-!
# Lines and Separators

Cutting a sequence at a separator. A line ends in its only separator, and
`completeLines` gives the lines of a sequence that are complete, each with
its separator; what follows the last separator is no line yet and is not
among them. `takeUntil` cuts a sequence once, at the first separator, and
drops the separator.

The results are the two a framing argument needs. Cutting undoes
concatenation: the complete lines of concatenated lines are those lines. And
a prefix of concatenated lines has as its complete lines the ones that fit in
it, which `fits` counts out.

## Main definitions

* `completeFrom`, `completeLines`: The complete lines of a sequence.
* `IsLine`: A sequence that ends in its only separator.
* `CutExactly`: Lines that make up a sequence up to its last separator.
* `takeUntil`: The part before the first separator and the part after it.
* `fits`: The leading lines that fit in a number of elements.

## Theorems

* `exists_last`: A sequence with a separator has a last one.
* `completeLines_append`: A line at the front is the first complete line.
* `completeLines_eq_nil`: No separator, no complete line.
* `completeLines_pad`: Padding completes no line.
* `completeLines_flatten`: Cutting undoes concatenation.
* `cutExactly_iff`: There is one way to cut a sequence exactly.
* `completeLines_dropLast`: What the last element changes.
* `completeLines_take`: The complete lines of a prefix are those that fit.
* `takeUntil_append`: Cutting at the separator between two parts.
* `fits_isPrefix`: What fits is a prefix of the lines.
* `fits_append`, `fits_append_of_lt`: Lines that fit leave their room to
  those after them, and lines that do not leave none.
* `append_prefix_fits`: A line fits when it and all before it do.
-/

namespace HttpFileSharing

variable {α : Type*} [DecidableEq α]

/-- The complete lines, the first of which begins with `acc`. -/
def completeFrom (sep : α) (acc : List α) : List α → List (List α)
  | [] => []
  | x :: xs =>
    if x = sep then (acc ++ [x]) :: completeFrom sep [] xs
    else completeFrom sep (acc ++ [x]) xs

/-- The complete lines of a sequence, each with its separator. -/
def completeLines (sep : α) (xs : List α) : List (List α) := completeFrom sep [] xs

/-- A sequence that ends in its only separator. -/
def IsLine (sep : α) (l : List α) : Prop := ∃ body, sep ∉ body ∧ l = body ++ [sep]

/-- The lines make up the sequence up to its last separator. -/
def CutExactly (sep : α) (xs : List α) (lines : List (List α)) : Prop :=
  (∀ l ∈ lines, IsLine sep l) ∧ ∃ tail, xs = lines.flatten ++ tail ∧ sep ∉ tail

/-- The part before the first separator, and the part after it. -/
def takeUntil (sep : α) : List α → List α × List α
  | [] => ([], [])
  | x :: xs =>
    if x = sep then ([], xs)
    else (x :: (takeUntil sep xs).1, (takeUntil sep xs).2)

/-- The leading lines that fit in `m` elements. -/
def fits : Nat → List (List α) → List (List α)
  | _, [] => []
  | m, l :: ls => if l.length ≤ m then l :: fits (m - l.length) ls else []

/-- A sequence with a separator has a last one. -/
theorem exists_last (sep : α) (xs : List α) (h : sep ∈ xs) :
    ∃ a b, xs = a ++ sep :: b ∧ sep ∉ b := by
  induction xs with
  | nil => exact absurd h List.not_mem_nil
  | cons x xs ih =>
      by_cases hxs : sep ∈ xs
      · rcases ih hxs with ⟨a, b, hab, hb⟩
        exact ⟨x :: a, b, by rw [hab, List.cons_append], hb⟩
      · rcases List.mem_cons.mp h with rfl | h
        · exact ⟨[], xs, rfl, hxs⟩
        · exact absurd h hxs

theorem completeFrom_append (sep : α) (acc body rest : List α) (h : sep ∉ body) :
    completeFrom sep acc (body ++ sep :: rest)
      = (acc ++ body ++ [sep]) :: completeLines sep rest := by
  induction body generalizing acc with
  | nil =>
      rw [List.nil_append, completeFrom, if_pos rfl, List.append_nil]
      rfl
  | cons x body ih =>
      have hx : x ≠ sep := fun hxs => h (hxs ▸ List.mem_cons_self)
      rw [List.cons_append, completeFrom, if_neg hx,
        ih (acc ++ [x]) (fun hmem => h (List.mem_cons_of_mem _ hmem)), List.append_assoc acc [x]]
      rfl

theorem completeFrom_eq_nil (sep : α) (acc xs : List α) (h : sep ∉ xs) :
    completeFrom sep acc xs = [] := by
  induction xs generalizing acc with
  | nil => rfl
  | cons x xs ih =>
      have hx : x ≠ sep := fun hxs => h (hxs ▸ List.mem_cons_self)
      rw [completeFrom, if_neg hx, ih _ (fun hmem => h (List.mem_cons_of_mem _ hmem))]

theorem completeFrom_pad (sep : α) (acc xs pad : List α) (h : sep ∉ pad) :
    completeFrom sep acc (xs ++ pad) = completeFrom sep acc xs := by
  induction xs generalizing acc with
  | nil => exact completeFrom_eq_nil sep acc pad h
  | cons x xs ih =>
      rw [List.cons_append, completeFrom, completeFrom, ih, ih]

/-- What is added after the end completes no line if it has no separator. -/
theorem completeLines_pad (sep : α) (xs pad : List α) (h : sep ∉ pad) :
    completeLines sep (xs ++ pad) = completeLines sep xs :=
  completeFrom_pad sep [] xs pad h

/-- A line at the front is the first complete line. -/
theorem completeLines_append (sep : α) (l rest : List α) (hl : IsLine sep l) :
    completeLines sep (l ++ rest) = l :: completeLines sep rest := by
  rcases hl with ⟨body, hbody, rfl⟩
  rw [completeLines, List.append_assoc, List.singleton_append,
    completeFrom_append sep [] body rest hbody, List.nil_append]

theorem completeLines_eq_nil (sep : α) (xs : List α) (h : sep ∉ xs) :
    completeLines sep xs = [] :=
  completeFrom_eq_nil sep [] xs h

/-- Cutting undoes concatenation. -/
theorem completeLines_flatten (sep : α) (ls : List (List α)) (rest : List α)
    (hls : ∀ l ∈ ls, IsLine sep l) :
    completeLines sep (ls.flatten ++ rest) = ls ++ completeLines sep rest := by
  induction ls with
  | nil => rfl
  | cons l ls ih =>
      rw [List.flatten_cons, List.append_assoc,
        completeLines_append sep l _ (hls l List.mem_cons_self),
        ih (fun l' hl' => hls l' (List.mem_cons_of_mem _ hl')), List.cons_append]

theorem completeFrom_cut (sep : α) (acc xs : List α) (hacc : sep ∉ acc) :
    CutExactly sep (acc ++ xs) (completeFrom sep acc xs) := by
  induction xs generalizing acc with
  | nil =>
      exact ⟨fun l hl => absurd hl List.not_mem_nil, acc, by rw [List.append_nil]; rfl, hacc⟩
  | cons x xs ih =>
      rw [completeFrom]
      by_cases hx : x = sep
      · -- The line ends here, and the next one starts empty.
        rcases ih [] List.not_mem_nil with ⟨hlines, tail, hsplit, htail⟩
        rw [List.nil_append] at hsplit
        rw [if_pos hx]
        refine ⟨List.forall_mem_cons.mpr ⟨⟨acc, hacc, by rw [hx]⟩, hlines⟩, tail, ?_, htail⟩
        rw [List.flatten_cons, List.append_assoc, ← hsplit, List.append_assoc,
          List.singleton_append]
      · rw [if_neg hx]
        have hmore := ih (acc ++ [x]) (by
          rw [List.mem_append, List.mem_singleton, not_or]
          exact ⟨hacc, fun h => hx h.symm⟩)
        rw [List.append_assoc, List.singleton_append] at hmore
        exact hmore

/-- There is one way to cut a sequence exactly. -/
theorem cutExactly_iff (sep : α) (xs : List α) (lines : List (List α)) :
    CutExactly sep xs lines ↔ lines = completeLines sep xs := by
  constructor
  · rintro ⟨hlines, tail, rfl, htail⟩
    rw [completeLines_flatten sep lines tail hlines, completeLines_eq_nil sep tail htail,
      List.append_nil]
  · rintro rfl
    exact completeFrom_cut sep [] xs List.not_mem_nil

/-- The last element completes a line exactly when it is a separator. -/
theorem completeLines_dropLast (sep : α) (xs : List α) :
    completeLines sep xs = completeLines sep xs.dropLast ↔ xs.getLast? ≠ some sep := by
  induction xs using List.reverseRecOn with
  | nil => exact iff_of_true rfl (by simp only [List.getLast?_nil, ne_eq, reduceCtorEq,
      not_false_eq_true])
  | append_singleton xs x _ =>
      rw [List.dropLast_concat, List.getLast?_concat, ne_eq, Option.some.injEq]
      constructor
      · rintro heq rfl
        -- Cut exactly, the whole sequence is lines; without its end it is shorter.
        rcases (cutExactly_iff x (xs ++ [x]) _).mpr rfl with ⟨_, tail, hsplit, htail⟩
        rcases (cutExactly_iff x xs _).mpr rfl with ⟨_, rest, hshort, _⟩
        have hlen := congrArg List.length hshort
        induction tail using List.reverseRecOn with
        | nil =>
            rw [List.append_nil, heq] at hsplit
            have hlong := congrArg List.length hsplit
            simp only [List.length_append, List.length_singleton] at hlen hlong
            omega
        | append_singleton tail y _ =>
            rw [← List.append_assoc] at hsplit
            have hlast := List.append_inj_right' hsplit rfl
            rw [List.singleton_inj] at hlast
            exact htail (hlast ▸ List.mem_append_right _ (List.mem_singleton_self _))
      · intro hx
        exact completeLines_pad sep xs [x] (fun h => hx (List.mem_singleton.mp h).symm)

omit [DecidableEq α] in
/-- A proper prefix of a line has no separator. -/
theorem IsLine.not_mem_take {sep : α} {l : List α} (hl : IsLine sep l) (m : Nat)
    (hm : m < l.length) : sep ∉ l.take m := by
  rcases hl with ⟨body, hbody, rfl⟩
  rw [List.length_append, List.length_singleton] at hm
  rw [List.take_append_of_le_length (by omega)]
  exact fun hmem => hbody (List.mem_of_mem_take hmem)

/-- The complete lines of a prefix are the lines that fit in it. -/
theorem completeLines_take (sep : α) (ls : List (List α)) (m : Nat)
    (hls : ∀ l ∈ ls, IsLine sep l) :
    completeLines sep (ls.flatten.take m) = fits m ls := by
  induction ls generalizing m with
  | nil =>
      rw [List.flatten_nil, List.take_nil]
      rfl
  | cons l ls ih =>
      have hl := hls l List.mem_cons_self
      -- The first line is complete in the prefix or cut by its end, and a cut
      -- line has no separator.
      rw [List.flatten_cons, fits]
      by_cases hm : l.length ≤ m
      · rw [if_pos hm, List.take_append, List.take_of_length_le hm,
          completeLines_append sep l _ hl,
          ih (m - l.length) (fun l' hl' => hls l' (List.mem_cons_of_mem _ hl'))]
      · rw [if_neg hm, List.take_append_of_le_length (by omega)]
        exact completeLines_eq_nil sep _ (hl.not_mem_take m (by omega))

/-- Cutting at the separator between two parts. -/
theorem takeUntil_append (sep : α) (body rest : List α) (h : sep ∉ body) :
    takeUntil sep (body ++ sep :: rest) = (body, rest) := by
  induction body with
  | nil => rw [List.nil_append, takeUntil, if_pos rfl]
  | cons x body ih =>
      have hx : x ≠ sep := fun hxs => h (hxs ▸ List.mem_cons_self)
      rw [List.cons_append, takeUntil, if_neg hx,
        ih (fun hmem => h (List.mem_cons_of_mem _ hmem))]

theorem takeUntil_of_not_mem (sep : α) (xs : List α) (h : sep ∉ xs) :
    takeUntil sep xs = (xs, []) := by
  induction xs with
  | nil => rfl
  | cons x xs ih =>
      have hx : x ≠ sep := fun hxs => h (hxs ▸ List.mem_cons_self)
      rw [takeUntil, if_neg hx, ih (fun hmem => h (List.mem_cons_of_mem _ hmem))]

omit [DecidableEq α] in
/-- What fits is a prefix of the lines. -/
theorem fits_isPrefix (m : Nat) (ls : List (List α)) : fits m ls <+: ls := by
  induction ls generalizing m with
  | nil => exact List.prefix_refl _
  | cons l ls ih =>
      rw [fits]
      by_cases hm : l.length ≤ m
      · rw [if_pos hm]
        exact (List.prefix_cons_inj l).mpr (ih _)
      · rw [if_neg hm]
        exact List.nil_prefix

omit [DecidableEq α] in
/-- Lines that fit leave their room to the lines after them. -/
theorem fits_append (m : Nat) (ls more : List (List α)) (h : ls.flatten.length ≤ m) :
    fits m (ls ++ more) = ls ++ fits (m - ls.flatten.length) more := by
  induction ls generalizing m with
  | nil => rfl
  | cons l ls ih =>
      rw [List.flatten_cons, List.length_append] at h
      rw [List.cons_append, fits, if_pos (by omega), ih (m - l.length) (by omega),
        List.flatten_cons, List.length_append, Nat.sub_sub, List.cons_append]

omit [DecidableEq α] in
/-- Where some lines do not all fit, nothing after them does. -/
theorem fits_append_of_lt (m : Nat) (ls more : List (List α)) (h : m < ls.flatten.length) :
    fits m (ls ++ more) = fits m ls := by
  induction ls generalizing m with
  | nil => exact absurd h (Nat.not_lt_zero m)
  | cons l ls ih =>
      rw [List.flatten_cons, List.length_append] at h
      rw [List.cons_append, fits, fits]
      -- The first line that does not fit ends the search on both sides.
      by_cases hm : l.length ≤ m
      · rw [if_pos hm, if_pos hm, ih (m - l.length) (by omega)]
      · rw [if_neg hm, if_neg hm]

omit [DecidableEq α] in
/-- The lines up to one of them fit exactly when there is room for all of
    these. -/
theorem append_prefix_fits (m : Nat) (pre : List (List α)) (l : List α) (post : List (List α)) :
    pre ++ [l] <+: fits m (pre ++ l :: post) ↔ (pre ++ [l]).flatten.length ≤ m := by
  induction pre generalizing m with
  | nil =>
      rw [List.nil_append, List.nil_append, fits, List.flatten_singleton]
      by_cases hm : l.length ≤ m
      · rw [if_pos hm]
        exact iff_of_true ((List.prefix_cons_inj l).mpr List.nil_prefix) hm
      · rw [if_neg hm]
        exact iff_of_false (fun h => absurd (List.prefix_nil.mp h) (List.cons_ne_nil _ _)) hm
  | cons x pre ih =>
      rw [List.cons_append, List.cons_append, fits, List.flatten_cons, List.length_append]
      by_cases hm : x.length ≤ m
      · rw [if_pos hm, List.prefix_cons_inj, ih]
        omega
      · rw [if_neg hm]
        -- A line before it does not fit, so nothing from there on is taken.
        refine iff_of_false (fun h => absurd (List.prefix_nil.mp h) (List.cons_ne_nil _ _)) ?_
        omega

end HttpFileSharing
