import Mathlib.Data.List.Basic

/-!
# Searching and Replacing

Looking for a pattern in a sequence, from left to right. `replaceAll` puts a
replacement for each occurrence and goes on after it, so occurrences do not
overlap. `splitFirst` cuts at the first occurrence and drops it.

## Main definitions

* `replaceFrom`, `replaceAll`: Replacing every occurrence.
* `splitFirst`: The part before the first occurrence and the part after it.

## Theorems

* `replaceAll_cons_of_ne`: An element that does not begin the pattern stays.
* `replaceAll_append_cons`: An element outside the pattern separates.
* `replaceAll_of_not_infix`: A sequence without the pattern stays.
* `replaceAll_singleton`: Replacing a single element.
* `length_replaceAll_lt`, `replaceAll_eq_self_iff`: A shorter replacement shows.
* `replaceAll_singleton_replaceAll`: Replacing there and back.
* `splitFirst_append`: A part without the pattern's first element is skipped.
* `splitFirst_of_prefix`: An occurrence at the front cuts there.
* `splitFirst_extend`: More behind an occurrence leaves the cut where it is.
-/

namespace HttpFileSharing

variable {α : Type*} [DecidableEq α]

/-- Replace every occurrence of `pat` after skipping `skip` elements. -/
def replaceFrom (pat rep : List α) : Nat → List α → List α
  | _, [] => []
  | skip + 1, _ :: xs => replaceFrom pat rep skip xs
  | 0, x :: xs =>
    if pat <+: x :: xs then rep ++ replaceFrom pat rep (pat.length - 1) xs
    else x :: replaceFrom pat rep 0 xs

/-- Replace every occurrence of the nonempty pattern `pat` by `rep`. -/
def replaceAll (pat rep xs : List α) : List α := replaceFrom pat rep 0 xs

/-- The part before the first occurrence of `pat`, and the part after it. -/
def splitFirst (pat : List α) : List α → Option (List α × List α)
  | [] => none
  | x :: xs =>
    if pat <+: x :: xs then some ([], (x :: xs).drop pat.length)
    else (splitFirst pat xs).map (fun p => (x :: p.1, p.2))

/-- An element that does not begin the pattern stays. -/
theorem replaceAll_cons_of_ne (p : α) (pat rep : List α) (x : α) (xs : List α) (h : x ≠ p) :
    replaceAll (p :: pat) rep (x :: xs) = x :: replaceAll (p :: pat) rep xs := by
  rw [replaceAll, replaceFrom, if_neg (fun hpre => h (List.cons_prefix_cons.mp hpre).1.symm)]
  rfl

omit [DecidableEq α] in
/-- No occurrence of a pattern reaches past an element outside it. -/
theorem prefix_of_prefix_append_cons (pat a b : List α) (c : α) (hc : c ∉ pat)
    (h : pat <+: a ++ c :: b) : pat <+: a := by
  have hsplit : a ++ c :: b = (a ++ [c]) ++ b := by rw [List.append_assoc, List.singleton_append]
  by_cases hlen : pat.length ≤ a.length
  · exact List.prefix_of_prefix_length_le h (List.prefix_append a _) hlen
  · -- A longer one would have the element in it.
    refine absurd ?_ hc
    have hshort : (a ++ [c]).length ≤ pat.length := by
      rw [List.length_append, List.length_singleton]
      omega
    rw [hsplit] at h
    have hpre := List.prefix_of_prefix_length_le (List.prefix_append (a ++ [c]) b) h hshort
    exact hpre.subset (List.mem_append_right a List.mem_cons_self)

theorem replaceFrom_append_cons (pat rep : List α) (c : α) (hc : c ∉ pat) (hpat : pat ≠ [])
    (a b : List α) (skip : Nat) (hskip : skip ≤ a.length) :
    replaceFrom pat rep skip (a ++ c :: b)
      = replaceFrom pat rep skip a ++ c :: replaceFrom pat rep 0 b := by
  induction a generalizing skip with
  | nil =>
      rw [List.length_nil, Nat.le_zero] at hskip
      have hnot : ¬ pat <+: c :: b := fun h =>
        hpat (List.prefix_nil.mp (prefix_of_prefix_append_cons pat [] b c hc h))
      have hstays : replaceFrom pat rep 0 (c :: b) = c :: replaceFrom pat rep 0 b := by
        rw [replaceFrom, if_neg hnot]
      rw [hskip, List.nil_append, hstays]
      rfl
  | cons x a ih =>
      rw [List.length_cons] at hskip
      cases skip with
      | succ skip =>
          rw [List.cons_append, replaceFrom, replaceFrom]
          exact ih skip (Nat.le_of_succ_le_succ hskip)
      | zero =>
          have hiff : pat <+: x :: (a ++ c :: b) ↔ pat <+: x :: a :=
            ⟨prefix_of_prefix_append_cons pat (x :: a) b c hc,
              fun h => h.trans (List.prefix_append (x :: a) (c :: b))⟩
          rw [List.cons_append, replaceFrom, replaceFrom]
          by_cases hpre : pat <+: x :: a
          · have hlen := hpre.length_le
            rw [List.length_cons] at hlen
            rw [if_pos (hiff.mpr hpre), if_pos hpre, ih _ (by omega), List.append_assoc]
          · rw [if_neg (fun h => hpre (hiff.mp h)), if_neg hpre, ih 0 (Nat.zero_le _)]
            rfl

/-- An element outside the pattern separates what is before it from what is
    after it. -/
theorem replaceAll_append_cons (pat rep : List α) (c : α) (hc : c ∉ pat) (hpat : pat ≠ [])
    (a b : List α) :
    replaceAll pat rep (a ++ c :: b) = replaceAll pat rep a ++ c :: replaceAll pat rep b :=
  replaceFrom_append_cons pat rep c hc hpat a b 0 (Nat.zero_le _)

/-- A sequence without the pattern stays as it is. -/
theorem replaceAll_of_not_infix (pat rep xs : List α) (h : ¬ pat <:+: xs) :
    replaceAll pat rep xs = xs := by
  induction xs with
  | nil => rfl
  | cons x xs ih =>
      rw [replaceAll, replaceFrom, if_neg (fun hpre => h hpre.isInfix)]
      have hrest := ih (fun hin => h (hin.trans (List.suffix_cons x xs).isInfix))
      rw [replaceAll] at hrest
      rw [hrest]

/-- Replacing a single element. -/
theorem replaceAll_singleton (c : α) (rep : List α) (x : α) (xs : List α) :
    replaceAll [c] rep (x :: xs) = (if x = c then rep else [x]) ++ replaceAll [c] rep xs := by
  rw [replaceAll, replaceFrom]
  by_cases hx : x = c
  · rw [if_pos hx, if_pos (List.cons_prefix_cons.mpr ⟨hx.symm, List.nil_prefix⟩)]
    rfl
  · rw [if_neg hx, if_neg (fun h => hx (List.cons_prefix_cons.mp h).1.symm)]
    rfl

/-- A replacement that is no longer than the pattern makes nothing longer. -/
theorem length_replaceFrom_le (pat rep : List α) (hle : rep.length ≤ pat.length) (xs : List α)
    (skip : Nat) (hskip : skip ≤ xs.length) :
    (replaceFrom pat rep skip xs).length + skip ≤ xs.length := by
  induction xs generalizing skip with
  | nil =>
      rw [replaceFrom]
      exact Nat.le_trans (Nat.le_of_eq (Nat.zero_add skip)) hskip
  | cons x xs ih =>
      rw [List.length_cons] at hskip ⊢
      cases skip with
      | succ skip =>
          have hrest := ih skip (Nat.le_of_succ_le_succ hskip)
          rw [replaceFrom]
          omega
      | zero =>
          rw [replaceFrom]
          split
          · rename_i hpre
            have hlen := hpre.length_le
            rw [List.length_cons] at hlen
            have hrest := ih (pat.length - 1) (by omega)
            rw [List.length_append]
            omega
          · have hrest := ih 0 (Nat.zero_le _)
            rw [List.length_cons]
            omega

/-- A shorter replacement makes a sequence with the pattern in it shorter. -/
theorem length_replaceAll_lt (pat rep : List α) (hlt : rep.length < pat.length) (xs : List α)
    (h : pat <:+: xs) : (replaceAll pat rep xs).length < xs.length := by
  induction xs with
  | nil =>
      have hlen := h.length_le
      rw [List.length_nil] at hlen
      omega
  | cons x xs ih =>
      rw [replaceAll, replaceFrom]
      by_cases hpre : pat <+: x :: xs
      · have hlen := hpre.length_le
        rw [List.length_cons] at hlen
        have hrest := length_replaceFrom_le pat rep (Nat.le_of_lt hlt) xs (pat.length - 1)
          (by omega)
        rw [if_pos hpre, List.length_append, List.length_cons]
        omega
      · -- The occurrence is further on.
        have hrest := ih ((List.infix_cons_iff.mp h).resolve_left hpre)
        rw [if_neg hpre]
        exact Nat.succ_lt_succ hrest

/-- With a shorter replacement, a sequence stays as it is exactly when the
    pattern is not in it. -/
theorem replaceAll_eq_self_iff (pat rep : List α) (hlt : rep.length < pat.length) (xs : List α) :
    replaceAll pat rep xs = xs ↔ ¬ pat <:+: xs := by
  constructor
  · intro h hin
    have hshort := length_replaceAll_lt pat rep hlt xs hin
    rw [h] at hshort
    exact Nat.lt_irrefl _ hshort
  · exact replaceAll_of_not_infix pat rep xs

/-- Replacing a pattern by an element that was not there can be undone. -/
theorem replaceAll_singleton_replaceAll (pat : List α) (hpat : pat ≠ []) (c : α) (xs : List α)
    (h : c ∉ xs) : replaceAll [c] pat (replaceAll pat [c] xs) = xs := by
  -- For any number of elements still to be skipped.
  have hgen : ∀ skip, replaceAll [c] pat (replaceFrom pat [c] skip xs) = xs.drop skip := by
    induction xs with
    | nil =>
        intro skip
        rw [replaceFrom, List.drop_nil]
        rfl
    | cons x xs ih =>
        rw [List.mem_cons, not_or] at h
        intro skip
        cases skip with
        | succ skip =>
            rw [replaceFrom, List.drop_succ_cons]
            exact ih h.2 skip
        | zero =>
            rw [replaceFrom, List.drop_zero]
            by_cases hpre : pat <+: x :: xs
            · have hlen := List.length_pos_iff.mpr hpat
              have hdrop : xs.drop (pat.length - 1) = (x :: xs).drop pat.length := by
                rw [← Nat.succ_pred_eq_of_pos hlen, List.drop_succ_cons]
                rfl
              rw [if_pos hpre, List.singleton_append, replaceAll_singleton, if_pos rfl, ih h.2,
                hdrop]
              exact (List.prefix_iff_eq_append.mp hpre)
            · rw [if_neg hpre, replaceAll_singleton, if_neg (fun hx => h.1 hx.symm), ih h.2,
                List.drop_zero]
              rfl
  exact hgen 0

/-- A replacement is empty only if the sequence is, or the replacement text
    is. -/
theorem replaceAll_ne_nil (pat rep : List α) (xs : List α) (hrep : rep ≠ []) (hxs : xs ≠ []) :
    replaceAll pat rep xs ≠ [] := by
  cases xs with
  | nil => exact absurd rfl hxs
  | cons x xs =>
      rw [replaceAll, replaceFrom]
      split
      · exact fun h => hrep (List.append_eq_nil_iff.mp h).1
      · exact List.cons_ne_nil _ _

/-- What begins a replaced sequence: its first element, or the replacement
    where the pattern is there. -/
theorem head?_replaceAll (pat rep : List α) (r : α) (x : α) (xs : List α)
    (hrep : rep.head? = some r) :
    (replaceAll pat rep (x :: xs)).head? = some x ∨
      (replaceAll pat rep (x :: xs)).head? = some r := by
  rw [replaceAll, replaceFrom]
  split
  · exact Or.inr (by rw [List.head?_append, hrep, Option.some_or])
  · exact Or.inl rfl

/-- A part without the pattern's first element is skipped. -/
theorem splitFirst_append (p : α) (pat body rest : List α) (h : p ∉ body) :
    splitFirst (p :: pat) (body ++ rest)
      = (splitFirst (p :: pat) rest).map (fun q => (body ++ q.1, q.2)) := by
  induction body with
  | nil =>
      rw [List.nil_append]
      exact Option.map_id'.symm
  | cons x body ih =>
      -- The pattern would have to begin with `x`.
      have hx : ¬ (p :: pat <+: x :: (body ++ rest)) := fun hpre =>
        h ((List.cons_prefix_cons.mp hpre).1 ▸ List.mem_cons_self)
      rw [List.cons_append, splitFirst, if_neg hx,
        ih (fun hmem => h (List.mem_cons_of_mem _ hmem)), Option.map_map]
      rfl

/-- An occurrence at the front cuts there. -/
theorem splitFirst_of_prefix (pat rest : List α) (hpat : pat ≠ []) :
    splitFirst pat (pat ++ rest) = some ([], rest) := by
  cases pat with
  | nil => exact absurd rfl hpat
  | cons p pat =>
      rw [List.cons_append, splitFirst, if_pos ⟨rest, rfl⟩, ← List.cons_append, List.drop_left]

/-- What is cut at an occurrence has room for it. -/
theorem length_le_of_splitFirst (pat s a b : List α) (h : splitFirst pat s = some (a, b)) :
    pat.length ≤ s.length := by
  induction s generalizing a with
  | nil => exact absurd h (by simp only [splitFirst, reduceCtorEq, not_false_eq_true])
  | cons x s ih =>
      rw [splitFirst] at h
      by_cases hpre : pat <+: x :: s
      · exact hpre.length_le
      · rw [if_neg hpre, Option.map_eq_some_iff] at h
        rcases h with ⟨q, hq, hcut⟩
        rw [Prod.mk.injEq] at hcut
        exact Nat.le_succ_of_le (ih q.1 (by rw [hq, ← hcut.2]))

/-- More behind an occurrence leaves the cut where it is. -/
theorem splitFirst_extend (pat s rest a b : List α) (h : splitFirst pat s = some (a, b)) :
    splitFirst pat (s ++ rest) = some (a, b ++ rest) := by
  induction s generalizing a with
  | nil => exact absurd h (by simp only [splitFirst, reduceCtorEq, not_false_eq_true])
  | cons x s ih =>
      have hlen := length_le_of_splitFirst pat (x :: s) a b h
      rw [splitFirst] at h
      rw [List.cons_append, splitFirst]
      by_cases hpre : pat <+: x :: s
      · rw [if_pos hpre, Option.some.injEq, Prod.mk.injEq] at h
        rw [← List.cons_append, if_pos (hpre.trans (List.prefix_append (x :: s) rest)), ← h.1,
          ← h.2, List.drop_append_of_le_length hlen]
      · -- The pattern would have to begin here already without what comes behind.
        have hstill : ¬ pat <+: x :: (s ++ rest) := fun hmore =>
          hpre (List.prefix_of_prefix_length_le hmore (List.prefix_append (x :: s) rest) hlen)
        rw [if_neg hpre, Option.map_eq_some_iff] at h
        rcases h with ⟨q, hq, hcut⟩
        rw [Prod.mk.injEq] at hcut
        have hqb : splitFirst pat s = some (q.1, b) := by rw [hq, ← hcut.2]
        rw [if_neg hstill, ih q.1 hqb, Option.map_some, hcut.1]

end HttpFileSharing
