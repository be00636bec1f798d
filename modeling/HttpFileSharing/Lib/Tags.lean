import Mathlib.Data.List.Basic

/-!
# Reading Tags

The tags of a text: the runs from a `<` to the next `>` that is not inside a
quoted value. What is quoted is left out of the tag, the quotes are not, so the
tags of two texts are the same when they differ in values and in what stands
between tags.

`Reads` is how the pieces of a text are put together. It says what a piece adds
in the mode it is reached in, and the mode it leaves: text without a `<` adds
nothing and neither does a value without its quote.

The second half asks whether opening and closing tags of given names balance,
as brackets do, with a stack of the names that are open.

## Main definitions

* `TagMode`: In text, in a tag or in a quoted value of one.
* `tagStep`, `readTags`, `tags`: Reading the tags of a text.
* `Reads`: What reading a piece of text gives.
* `tagName`: The name of a tag, and whether it is a closing one.
* `nestStep`, `nest`, `Balanced`: Opening and closing.

## Theorems

* `Reads.append`, `readTags_append`: Two pieces behind each other.
* `reads_text`, `reads_quoted`: Pieces that add nothing.
* `nest_append`, `nest_frame`, `nest_of_balanced`, `balanced_replicate`: Opening
  and closing piece by piece.
-/

namespace HttpFileSharing

/-- Where a reader is: in text, in a tag it has `run` of, or in a value of that
    tag. -/
inductive TagMode where
  | text
  | tag (run : List Char)
  | quoted (quote : Char) (run : List Char)
  deriving DecidableEq

/-- One character: the tag it completes, if it does, and the mode after it. -/
def tagStep : TagMode → Char → List (List Char) × TagMode
  | .text, c => if c = '<' then ([], .tag ['<']) else ([], .text)
  | .tag run, c =>
    if c = '>' then ([run ++ ['>']], .text)
    else if c = '"' ∨ c = '\'' then ([], .quoted c (run ++ [c]))
    else ([], .tag (run ++ [c]))
  | .quoted quote run, c =>
    if c = quote then ([], .tag (run ++ [quote])) else ([], .quoted quote run)

/-- The tags completed by a text, and the mode after it. -/
def readTags : TagMode → List Char → List (List Char) × TagMode
  | mode, [] => ([], mode)
  | mode, c :: cs =>
    ((tagStep mode c).1 ++ (readTags (tagStep mode c).2 cs).1, (readTags (tagStep mode c).2 cs).2)

/-- The tags of a text. -/
def tags (s : List Char) : List (List Char) := (readTags .text s).1

/-- Reading `s` in `mode` completes the tags `ts` and leaves `mode'`. -/
def Reads (mode : TagMode) (s : List Char) (ts : List (List Char)) (mode' : TagMode) : Prop :=
  readTags mode s = (ts, mode')

instance (mode : TagMode) (s : List Char) (ts : List (List Char)) (mode' : TagMode) :
    Decidable (Reads mode s ts mode') :=
  inferInstanceAs (Decidable (_ = _))

theorem Reads.tags_eq {s : List Char} {ts : List (List Char)} {mode' : TagMode}
    (h : Reads .text s ts mode') : tags s = ts := congrArg Prod.fst h

theorem readTags_append (mode : TagMode) (a b : List Char) :
    readTags mode (a ++ b)
      = ((readTags mode a).1 ++ (readTags (readTags mode a).2 b).1,
          (readTags (readTags mode a).2 b).2) := by
  induction a generalizing mode with
  | nil => rfl
  | cons c a ih =>
      rw [List.cons_append, readTags, readTags, ih]
      simp only [List.append_assoc]

/-- Two pieces behind each other. -/
theorem Reads.append {mode mode' mode'' : TagMode} {a b : List Char} {ts us : List (List Char)}
    (ha : Reads mode a ts mode') (hb : Reads mode' b us mode'') :
    Reads mode (a ++ b) (ts ++ us) mode'' := by
  unfold Reads at ha hb ⊢
  rw [readTags_append, ha, hb]

/-- A piece that adds nothing. -/
theorem Reads.skip {mode mode' mode'' : TagMode} {a b : List Char} {ts : List (List Char)}
    (ha : Reads mode a ts mode') (hb : Reads mode' b [] mode'') :
    Reads mode (a ++ b) ts mode'' := by
  have happend := ha.append hb
  rw [List.append_nil] at happend
  exact happend

/-- Text between tags. -/
theorem reads_text (s : List Char) (h : '<' ∉ s) : Reads .text s [] .text := by
  unfold Reads
  induction s with
  | nil => rfl
  | cons c s ih =>
      rw [List.mem_cons, not_or] at h
      have hstep : tagStep .text c = ([], .text) := if_neg (fun hc => h.1 hc.symm)
      rw [readTags, hstep, ih h.2]
      rfl

/-- A value in a tag. -/
theorem reads_quoted (quote : Char) (run s : List Char) (h : quote ∉ s) :
    Reads (.quoted quote run) s [] (.quoted quote run) := by
  unfold Reads
  induction s with
  | nil => rfl
  | cons c s ih =>
      rw [List.mem_cons, not_or] at h
      have hstep : tagStep (.quoted quote run) c = ([], .quoted quote run) :=
        if_neg (fun hc => h.1 hc.symm)
      rw [readTags, hstep, ih h.2]
      rfl

/-- Pieces of one kind behind each other. -/
theorem reads_flatMap {α : Type*} (piece : α → List Char) (ts : List (List Char)) (xs : List α)
    (h : ∀ x ∈ xs, Reads .text (piece x) ts .text) :
    Reads .text (xs.flatMap piece) (List.replicate xs.length ts).flatten .text := by
  induction xs with
  | nil => rfl
  | cons x xs ih =>
      rw [List.flatMap_cons, List.length_cons, List.replicate_succ, List.flatten_cons]
      exact (h x List.mem_cons_self).append (ih (fun y hy => h y (List.mem_cons_of_mem x hy)))

/-- Whether a tag is a closing one, and its name. -/
def tagName (t : List Char) : Bool × List Char :=
  match t.drop 1 with
  | '/' :: rest => (true, rest.takeWhile Char.isAlphanum)
  | rest => (false, rest.takeWhile Char.isAlphanum)

/-- The names open after a tag, with those in `stack` open before, or `none`
    where it closes something else than the last one. Only tags with one of the
    `names` count. -/
def nestStep {ν : Type*} [DecidableEq ν] (names stack : List ν) (t : Bool × ν) :
    Option (List ν) :=
  if t.2 ∉ names then some stack
  else if t.1 = false then some (t.2 :: stack)
  else if stack.head? = some t.2 then some stack.tail
  else none

/-- The names open after a sequence of tags. -/
def nest (names stack ts : List (List Char)) : Option (List (List Char)) :=
  ts.foldlM (fun stack t => nestStep names stack (tagName t)) stack

/-- Every tag that opens is closed, in the right order, and no other is. -/
def Balanced (names ts : List (List Char)) : Prop := nest names [] ts = some []

instance (names ts : List (List Char)) : Decidable (Balanced names ts) :=
  inferInstanceAs (Decidable (_ = _))

theorem nest_append (names stack ts us : List (List Char)) :
    nest names stack (ts ++ us) = (nest names stack ts).bind (fun st => nest names st us) :=
  List.foldlM_append ..

theorem nestStep_frame {ν : Type*} [DecidableEq ν] (names stack st more : List ν) (t : Bool × ν)
    (h : nestStep names stack t = some st) :
    nestStep names (stack ++ more) t = some (st ++ more) := by
  rw [nestStep] at h ⊢
  by_cases hname : t.2 ∉ names
  · rw [if_pos hname, Option.some.injEq] at h
    rw [if_pos hname, h]
  · rw [if_neg hname] at h ⊢
    by_cases hopen : t.1 = false
    · rw [if_pos hopen, Option.some.injEq] at h
      rw [if_pos hopen, ← h, List.cons_append]
    · rw [if_neg hopen, Option.ite_none_right_eq_some, Option.some.injEq] at h
      rcases h with ⟨htop, hst⟩
      -- The stack that is closed from is not empty.
      cases stack with
      | nil => exact absurd htop (by simp only [List.head?_nil, reduceCtorEq, not_false_eq_true])
      | cons top rest =>
          rw [if_neg hopen, ← hst]
          exact if_pos htop

/-- What was open before stays open below. -/
theorem nest_frame (names stack ts st more : List (List Char)) (h : nest names stack ts = some st) :
    nest names (stack ++ more) ts = some (st ++ more) := by
  induction ts generalizing stack with
  | nil => exact congrArg (fun l => some (l ++ more)) (Option.some.inj h)
  | cons t ts ih =>
      rw [nest, List.foldlM_cons] at h ⊢
      rcases Option.bind_eq_some_iff.mp h with ⟨next, hstep, hrest⟩
      rw [nestStep_frame names stack next more (tagName t) hstep]
      exact ih next hrest

theorem nest_of_balanced (names stack ts : List (List Char)) (h : Balanced names ts) :
    nest names stack ts = some stack :=
  nest_frame names [] ts [] stack h

/-- Balanced tags any number of times. -/
theorem balanced_replicate (names ts : List (List Char)) (n : Nat) (h : Balanced names ts) :
    Balanced names (List.replicate n ts).flatten := by
  induction n with
  | zero => rfl
  | succ n ih =>
      rw [List.replicate_succ, List.flatten_cons, Balanced, nest_append,
        nest_of_balanced names [] ts h]
      exact ih

end HttpFileSharing
