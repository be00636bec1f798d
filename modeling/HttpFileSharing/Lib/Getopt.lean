import Mathlib.Data.List.Flatten

/-!
# Reading Options

The options on a command line, as `getopt` reads them where words that are no
options may stand between. A word that begins with a dash and is more than a dash
has option letters in it, one after the other, until one that takes an argument. The
argument is the rest of the word, or the next word whatever that is. Two dashes end
the options. A letter that is not known, or whose argument is missing, is reported
and the reading goes on.

An option can be written in several ways, and the pieces of a command line are all
of them: a word that is no option, letters together, and at the end of such letters
one with its argument behind it or in the next word. Reading is exact about them.
What pieces stand for is read from them, piece by piece, and a command line in which
nothing is reported is made of pieces.

## Main definitions

* `Got`: What a call returns.
* `takesOf`: What an option string says.
* `cluster`, `getoptFrom`, `getopt`: Reading.
* `Got.Fits`: A letter was read as what it is.
* `Piece`, `Piece.Valid`, `Piece.words`, `Piece.meaning`: The ways of writing.

## Theorems

* `getopt_takes`: Letters are read as what they are.
* `getopt_piece`, `getopt_pieces`: What is written is read.
* `getopt_unknown`: A letter that is not known is reported.
* `exists_pieces`: What is read without a report was so written.
-/

namespace HttpFileSharing

/-- What a call of `getopt` returns: a letter, a letter with its argument, or the
    report of one that is not known or has no argument. -/
inductive Got where
  | flag (c : Char)
  | arg (c : Char) (optarg : List Char)
  | bad (c : Char)
  deriving DecidableEq, Repr

/-- Whether it is a report. -/
def Got.isBad : Got → Bool
  | .bad _ => true
  | _ => false

/-- What an option string says about a letter: nothing, or whether it takes an
    argument. No argument is optional. -/
def takesOf : List Char → Char → Option Bool
  | [], _ => none
  | o :: os, c =>
    if o = c ∧ c ≠ ':' ∧ c ≠ ';' then some (decide (os.head? = some ':')) else takesOf os c

/-- A letter of which the option string says something is in it. -/
theorem mem_of_takesOf (os : List Char) (c : Char) (b : Bool) (h : takesOf os c = some b) :
    c ∈ os := by
  induction os with
  | nil => exact absurd h (by simp only [takesOf, reduceCtorEq, not_false_eq_true])
  | cons o os ih =>
      rw [takesOf] at h
      split at h
      · rename_i hc
        exact hc.1 ▸ List.mem_cons_self
      · exact List.mem_cons_of_mem o (ih h)

variable (takes : Char → Option Bool)

/-- The letters of one word: what they give, and the letter at the end that is to
    have the next word as its argument. `takes` says which letters are options and
    whether they take an argument. -/
def cluster : List Char → List Got × Option Char
  | [] => ([], none)
  | c :: cs => match takes c with
    | none => ((.bad c :: (cluster cs).1), (cluster cs).2)
    | some false => ((.flag c :: (cluster cs).1), (cluster cs).2)
    | some true => if cs = [] then ([], some c) else ([.arg c cs], none)

/-- The words from some point on, of which the first is the argument of a letter
    before it if there is one that waits for it. -/
def getoptFrom : Option Char → List (List Char) → List Got
  | none, [] => []
  | some c, [] => [.bad c]
  | some c, w :: ws => .arg c w :: getoptFrom none ws
  | none, w :: ws => match w with
    | ['-', '-'] => []
    | '-' :: c :: cs => (cluster takes (c :: cs)).1 ++ getoptFrom (cluster takes (c :: cs)).2 ws
    | _ => getoptFrom none ws

/-- All options of a command line. -/
def getopt (ws : List (List Char)) : List Got := getoptFrom takes none ws

/-- A way of writing: a word that is no option, letters without an argument, or
    such letters and one with an argument, behind it or in the next word. -/
inductive Piece where
  | operand (word : List Char)
  | flags (letters : List Char)
  | glued (letters : List Char) (c : Char) (optarg : List Char)
  | apart (letters : List Char) (c : Char) (optarg : List Char)
  deriving DecidableEq, Repr

/-- Letters without an argument. -/
def AllFlags (letters : List Char) : Prop := ∀ c ∈ letters, takes c = some false

/-- A word that is not taken for options. -/
def IsOperand : List Char → Prop
  | '-' :: _ :: _ => False
  | _ => True

/-- What is written so is not taken for something else. -/
def Piece.Valid : Piece → Prop
  | .operand word => IsOperand word
  | .flags letters => AllFlags takes letters ∧ letters ≠ [] ∧ letters ≠ ['-']
  | .glued letters c optarg => AllFlags takes letters ∧ takes c = some true ∧ optarg ≠ [] ∧
      letters ++ c :: optarg ≠ ['-']
  | .apart letters c _ => AllFlags takes letters ∧ takes c = some true ∧ letters ++ [c] ≠ ['-']

/-- The words of a piece. -/
def Piece.words : Piece → List (List Char)
  | .operand word => [word]
  | .flags letters => ['-' :: letters]
  | .glued letters c optarg => ['-' :: (letters ++ c :: optarg)]
  | .apart letters c optarg => ['-' :: (letters ++ [c]), optarg]

/-- What a piece stands for. -/
def Piece.meaning : Piece → List Got
  | .operand _ => []
  | .flags letters => letters.map Got.flag
  | .glued letters c optarg => letters.map Got.flag ++ [.arg c optarg]
  | .apart letters c optarg => letters.map Got.flag ++ [.arg c optarg]

/-- What is returned for a letter that is an option is what the option is. -/
def Got.Fits : Got → Prop
  | .flag c => takes c = some false
  | .arg c _ => takes c = some true
  | .bad _ => True

theorem cluster_takes (cs : List Char) :
    (∀ g ∈ (cluster takes cs).1, g.Fits takes) ∧
      ∀ c, (cluster takes cs).2 = some c → takes c = some true := by
  induction cs with
  | nil =>
      refine ⟨fun g hg => absurd hg List.not_mem_nil, fun c hc => ?_⟩
      exact absurd hc (by simp only [cluster, reduceCtorEq, not_false_eq_true])
  | cons c cs ih =>
      rw [cluster]
      cases htakes : takes c with
      | none => exact ⟨List.forall_mem_cons.mpr ⟨trivial, ih.1⟩, ih.2⟩
      | some b =>
          cases b with
          | false => exact ⟨List.forall_mem_cons.mpr ⟨htakes, ih.1⟩, ih.2⟩
          | true =>
              by_cases hcs : cs = []
              · simp only [if_pos hcs]
                exact ⟨fun g hg => absurd hg List.not_mem_nil,
                  fun d hd => Option.some.inj hd ▸ htakes⟩
              · simp only [if_neg hcs]
                exact ⟨List.forall_mem_singleton.mpr htakes,
                  fun d hd => absurd hd (by simp only [reduceCtorEq, not_false_eq_true])⟩

/-- Letters are read as what they are. -/
theorem getoptFrom_takes (pending : Option Char) (ws : List (List Char))
    (hpending : ∀ c, pending = some c → takes c = some true) :
    ∀ g ∈ getoptFrom takes pending ws, g.Fits takes := by
  induction ws generalizing pending with
  | nil =>
      cases pending with
      | none => exact fun g hg => absurd hg List.not_mem_nil
      | some c => exact List.forall_mem_singleton.mpr trivial
  | cons w ws ih =>
      have hnone : ∀ g ∈ getoptFrom takes none ws, g.Fits takes :=
        ih none (fun c hc => absurd hc (by simp only [reduceCtorEq, not_false_eq_true]))
      cases pending with
      | some c => exact List.forall_mem_cons.mpr ⟨hpending c rfl, hnone⟩
      | none =>
          unfold getoptFrom
          split
          · exact fun g hg => absurd hg List.not_mem_nil
          · rename_i c cs _
            have hcluster := cluster_takes takes (c :: cs)
            exact List.forall_mem_append.mpr ⟨hcluster.1, ih _ hcluster.2⟩
          · exact hnone

theorem getopt_takes (ws : List (List Char)) : ∀ g ∈ getopt takes ws, g.Fits takes :=
  getoptFrom_takes takes none ws (fun c hc => absurd hc (by simp only [reduceCtorEq,
    not_false_eq_true]))

/-- What a piece stands for is no report. -/
theorem isBad_meaning (p : Piece) : ∀ g ∈ p.meaning, g.isBad = false := by
  have hflags : ∀ letters : List Char, ∀ g ∈ letters.map Got.flag, g.isBad = false := by
    intro letters g hg
    rcases List.mem_map.mp hg with ⟨c, _, rfl⟩
    rfl
  cases p with
  | operand word => exact fun g hg => absurd hg List.not_mem_nil
  | flags letters => exact hflags letters
  | glued letters c optarg | apart letters c optarg =>
      exact List.forall_mem_append.mpr ⟨hflags letters, List.forall_mem_singleton.mpr rfl⟩

/-- Letters without an argument, and what comes behind them. -/
theorem cluster_flags (letters cs : List Char) (h : AllFlags takes letters) :
    cluster takes (letters ++ cs)
      = (letters.map Got.flag ++ (cluster takes cs).1, (cluster takes cs).2) := by
  induction letters with
  | nil => rfl
  | cons c letters ih =>
      have hc : takes c = some false := h c List.mem_cons_self
      rw [List.cons_append, cluster, hc]
      simp only [ih (fun d hd => h d (List.mem_cons_of_mem c hd)), List.map_cons,
        List.cons_append]

/-- A word of letters, read where no letter waits for it. -/
theorem getoptFrom_letters (cs : List Char) (ws : List (List Char)) (hne : cs ≠ [])
    (hdash : cs ≠ ['-']) :
    getoptFrom takes none (('-' :: cs) :: ws)
      = (cluster takes cs).1 ++ getoptFrom takes (cluster takes cs).2 ws := by
  cases cs with
  | nil => exact absurd rfl hne
  | cons c cs =>
      rw [getoptFrom]
      intro hc
      exact fun hcs => hdash (by rw [hc, hcs])

/-- **What is written is read**, one piece after the other. -/
theorem getopt_piece (p : Piece) (h : p.Valid takes) (ws : List (List Char)) :
    getopt takes (p.words ++ ws) = p.meaning ++ getopt takes ws := by
  unfold getopt
  cases p with
  | operand word =>
      rw [Piece.words, Piece.meaning, List.nil_append, List.singleton_append]
      unfold Piece.Valid IsOperand at h
      unfold getoptFrom
      split
      · exact absurd h (fun hfalse => hfalse)
      · exact absurd h (fun hfalse => hfalse)
      · cases ws <;> rfl
  | flags letters =>
      rcases h with ⟨hflags, hne, hdash⟩
      rw [Piece.words, Piece.meaning, List.singleton_append,
        getoptFrom_letters takes letters ws hne hdash]
      have hcluster := cluster_flags takes letters [] hflags
      rw [List.append_nil] at hcluster
      rw [hcluster, cluster, List.append_nil]
  | glued letters c optarg =>
      rcases h with ⟨hflags, hc, hne, hdash⟩
      rw [Piece.words, Piece.meaning, List.singleton_append,
        getoptFrom_letters takes _ ws (List.append_ne_nil_of_right_ne_nil _ (List.cons_ne_nil _ _))
          hdash, cluster_flags takes letters _ hflags, cluster, hc]
      simp only [if_neg hne]
  | apart letters c optarg =>
      rcases h with ⟨hflags, hc, hdash⟩
      rw [Piece.words, Piece.meaning, List.cons_append, List.singleton_append,
        getoptFrom_letters takes _ _ (List.append_ne_nil_of_right_ne_nil _ (List.cons_ne_nil _ _))
          hdash, cluster_flags takes letters _ hflags, cluster, hc]
      simp only [if_true, List.append_nil, getoptFrom, List.append_assoc, List.singleton_append]

/-- What many pieces stand for. -/
theorem getopt_pieces (ps : List Piece) (h : ∀ p ∈ ps, p.Valid takes) (ws : List (List Char)) :
    getopt takes (ps.flatMap Piece.words ++ ws)
      = ps.flatMap Piece.meaning ++ getopt takes ws := by
  induction ps with
  | nil => rfl
  | cons p ps ih =>
      rw [List.forall_mem_cons] at h
      rw [List.flatMap_cons, List.flatMap_cons, List.append_assoc, getopt_piece takes p h.1,
        ih h.2, List.append_assoc]

/-- Two dashes end the options. -/
theorem getopt_dashes (ws : List (List Char)) : getopt takes (['-', '-'] :: ws) = [] := by
  rw [getopt, getoptFrom]

/-- A letter that is not known is reported, whatever stands behind it. -/
theorem getopt_unknown (letters cs : List Char) (c : Char) (ws : List (List Char))
    (hflags : AllFlags takes letters) (hc : takes c = none) (hdash : letters ++ c :: cs ≠ ['-']) :
    .bad c ∈ getopt takes (('-' :: (letters ++ c :: cs)) :: ws) := by
  rw [getopt, getoptFrom_letters takes _ ws
    (List.append_ne_nil_of_right_ne_nil _ (List.cons_ne_nil _ _)) hdash,
    cluster_flags takes letters _ hflags, cluster, hc]
  exact List.mem_append_left _ (List.mem_append_right _ List.mem_cons_self)

/-- Letters that give no report: all without an argument, or up to one that has its
    argument behind it or waits for it. -/
theorem exists_letters (cs : List Char) (h : ∀ g ∈ (cluster takes cs).1, g.isBad = false) :
    AllFlags takes cs ∨
    ∃ letters c rest, cs = letters ++ c :: rest ∧ AllFlags takes letters ∧
      takes c = some true := by
  induction cs with
  | nil => exact Or.inl (fun c hc => absurd hc List.not_mem_nil)
  | cons c cs ih =>
      rw [cluster] at h
      cases htakes : takes c with
      | none =>
          rw [htakes] at h
          exact absurd (h _ List.mem_cons_self) (by simp only [Got.isBad, Bool.true_eq_false,
            not_false_eq_true])
      | some b =>
          rw [htakes] at h
          cases b with
          | false =>
              rcases ih (fun g hg => h g (List.mem_cons_of_mem _ hg)) with
                hall | ⟨letters, d, rest, hcs, hflags, hd⟩
              · exact Or.inl (List.forall_mem_cons.mpr ⟨htakes, hall⟩)
              · exact Or.inr ⟨c :: letters, d, rest, by rw [hcs, List.cons_append],
                  List.forall_mem_cons.mpr ⟨htakes, hflags⟩, hd⟩
          | true =>
              exact Or.inr ⟨[], c, cs, rfl, fun d hd => absurd hd List.not_mem_nil, htakes⟩

/-- **What is read without a report was so written**: it is made of pieces, up to two
    dashes or its end. -/
theorem exists_pieces (ws : List (List Char)) (h : ∀ g ∈ getopt takes ws, g.isBad = false) :
    ∃ (ps : List Piece) (tail : List (List Char)), ws = ps.flatMap Piece.words ++ tail ∧
      (∀ p ∈ ps, p.Valid takes) ∧ (tail = [] ∨ ∃ rest, tail = ['-', '-'] :: rest) := by
  -- On the number of words: an argument takes one of them with it.
  induction hn : ws.length using Nat.strongRecOn generalizing ws with
  | ind n ih =>
  cases ws with
  | nil => exact ⟨[], [], rfl, fun p hp => absurd hp List.not_mem_nil, Or.inl rfl⟩
  | cons w ws =>
      -- A valid piece and what comes behind it.
      have hstep : ∀ (p : Piece) (rest : List (List Char)), w :: ws = p.words ++ rest →
          p.Valid takes → rest.length < n →
          ∃ (ps : List Piece) (tail : List (List Char)), w :: ws = ps.flatMap Piece.words ++ tail ∧
            (∀ p ∈ ps, p.Valid takes) ∧ (tail = [] ∨ ∃ rest, tail = ['-', '-'] :: rest) := by
        intro p rest hws hp hlt
        rw [hws, getopt_piece takes p hp] at h
        rcases ih rest.length hlt rest (fun g hg => h g (List.mem_append_right _ hg)) rfl with
          ⟨ps, tail, hrest, hps, htail⟩
        refine ⟨p :: ps, tail, ?_, List.forall_mem_cons.mpr ⟨hp, hps⟩, htail⟩
        rw [hws, hrest, List.flatMap_cons, List.append_assoc]
      rw [List.length_cons] at hn
      by_cases hdashes : w = ['-', '-']
      · exact ⟨[], w :: ws, rfl, fun p hp => absurd hp List.not_mem_nil,
          Or.inr ⟨ws, by rw [hdashes]⟩⟩
      by_cases hoperand : IsOperand w
      · exact hstep (.operand w) ws rfl hoperand (by omega)
      -- The word has letters in it.
      obtain ⟨cs, rfl, hne⟩ : ∃ cs, w = '-' :: cs ∧ cs ≠ [] := by
        unfold IsOperand at hoperand
        split at hoperand
        · exact ⟨_, rfl, List.cons_ne_nil _ _⟩
        · exact absurd trivial hoperand
      have hdash : cs ≠ ['-'] := fun hcs => hdashes (by rw [hcs])
      have hread : getopt takes (('-' :: cs) :: ws)
          = (cluster takes cs).1 ++ getoptFrom takes (cluster takes cs).2 ws :=
        getoptFrom_letters takes cs ws hne hdash
      have hletters := exists_letters takes cs (fun g hg => h g (by
        rw [hread]
        exact List.mem_append_left _ hg))
      rcases hletters with hflags | ⟨letters, c, rest, rfl, hflags, hc⟩
      · exact hstep (.flags cs) ws rfl ⟨hflags, hne, hdash⟩ (by omega)
      by_cases hrest : rest = []
      · subst hrest
        cases ws with
        | nil =>
            -- The argument is missing, which is reported.
            rw [hread, cluster_flags takes letters _ hflags, cluster, hc] at h
            simp only [if_true, getoptFrom] at h
            exact absurd (h (.bad c) (List.mem_append_right _ List.mem_cons_self))
              (by simp only [Got.isBad, Bool.true_eq_false, not_false_eq_true])
        | cons optarg ws =>
            rw [List.length_cons] at hn
            exact hstep (.apart letters c optarg) ws rfl ⟨hflags, hc, hdash⟩ (by omega)
      · exact hstep (.glued letters c rest) ws rfl ⟨hflags, hc, hrest, hdash⟩ (by omega)

end HttpFileSharing
