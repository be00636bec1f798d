import HttpFileSharing.Lib.Lines
import Mathlib.Algebra.Order.Field.Basic
import Mathlib.Algebra.Order.Ring.Rat
import Mathlib.Tactic.Linarith
import Mathlib.Tactic.NormNum

/-!
# Decimal Numbers

Reading a number written in decimal, with digits behind a point. A number and a
second one behind a point stand for the first and a fraction, and how large the
fraction is depends on how many digits it was written with. The order of such
numbers is that of their parts, the fraction of nothing being the least.

## Main definitions

* `readDigits`: The number some digits stand for.
* `fraction`: What a number stands for behind the point.
* `point`: Two numbers with a point between them.
* `readPoint`: Reading such a number.

## Theorems

* `readPoint_append`: What was written is read.
* `fraction_of_lt`: A fraction by its number of digits.
* `fraction_lt_one`, `tenth_le_fraction`: The range of a fraction.
* `point_le_iff`: The order of two numbers.
-/

namespace HttpFileSharing

/-- The number some digits stand for. -/
def readDigits (s : List Char) : Option Nat :=
  if s ≠ [] ∧ s.all Char.isDigit = true then some (Nat.ofDigitChars 10 s 0) else none

/-- What a number stands for behind the point. -/
def fraction (r : Nat) : ℚ := r / 10 ^ (Nat.toDigits 10 r).length

/-- Two numbers with a point between them. -/
def point (q r : Nat) : ℚ := q + fraction r

/-- Reading a number with a point. -/
def readPoint (s : List Char) : Option ℚ :=
  let (whole, digits) := takeUntil '.' s
  match readDigits whole, readDigits digits with
  | some q, some r => some (q + r / 10 ^ digits.length)
  | _, _ => none

theorem readDigits_toDigits (n : Nat) : readDigits (Nat.toDigits 10 n) = some n := by
  rw [readDigits, if_pos ⟨Nat.toDigits_ne_nil, List.all_eq_true.mpr (fun c hc =>
    Nat.isDigit_of_mem_toDigits (by decide) (by decide) hc)⟩, Nat.ofDigitChars_ten_toDigits]

/-- A number has no character but digits. -/
theorem not_mem_toDigits (n : Nat) (c : Char) (hc : c.isDigit = false) :
    c ∉ Nat.toDigits 10 n := fun hmem => by
  rw [Nat.isDigit_of_mem_toDigits (by decide) (by decide) hmem] at hc
  exact Bool.noConfusion hc

theorem readPoint_append (q r : Nat) :
    readPoint (Nat.toDigits 10 q ++ '.' :: Nat.toDigits 10 r) = some (point q r) := by
  rw [readPoint, takeUntil_append '.' _ _ (not_mem_toDigits q '.' (by decide))]
  simp only [readDigits_toDigits]
  rfl

section Fractions

/-- A fraction by its number of digits. -/
theorem fraction_of_lt (r k : Nat) (hupper : r < 10 ^ (k + 1)) (hlower : k ≠ 0 → 10 ^ k ≤ r) :
    fraction r = r / 10 ^ (k + 1) := by
  have hle := (Nat.length_toDigits_le_iff (n := r) (b := 10) (by decide) (Nat.succ_pos k)).mpr
    hupper
  have hge : k < (Nat.toDigits 10 r).length := by
    rcases Nat.eq_zero_or_pos k with rfl | hk
    · exact Nat.length_toDigits_pos
    · by_contra hnot
      have hlt := (Nat.length_toDigits_le_iff (by decide) hk).mp (Nat.le_of_not_lt hnot)
      have hge := hlower (Nat.pos_iff_ne_zero.mp hk)
      omega
  rw [fraction, show (Nat.toDigits 10 r).length = k + 1 by omega]

theorem fraction_zero : fraction 0 = 0 := by
  rw [fraction, Nat.cast_zero, zero_div]

theorem fraction_nonneg (r : Nat) : 0 ≤ fraction r :=
  div_nonneg (Nat.cast_nonneg r) (pow_nonneg (by norm_num) _)

theorem fraction_lt_one (r : Nat) : fraction r < 1 := by
  have hlt := (Nat.length_toDigits_le_iff (by decide) Nat.length_toDigits_pos).mp
    (Nat.le_refl (Nat.toDigits 10 r).length)
  rw [fraction, div_lt_one (pow_pos (by norm_num) _)]
  exact_mod_cast hlt

/-- The first digit is not a zero. -/
theorem tenth_le_fraction (r : Nat) (hr : 0 < r) : 1 / 10 ≤ fraction r := by
  have hlen := Nat.length_toDigits_pos (b := 10) (n := r)
  have hge : 10 ^ ((Nat.toDigits 10 r).length - 1) ≤ r := by
    rcases Nat.eq_zero_or_pos ((Nat.toDigits 10 r).length - 1) with hzero | hpos
    · rw [hzero]
      exact hr
    · by_contra hnot
      have hle := (Nat.length_toDigits_le_iff (by decide) hpos).mpr (Nat.lt_of_not_le hnot)
      omega
  have hpow : (10 : ℚ) ^ (Nat.toDigits 10 r).length
      = 10 ^ ((Nat.toDigits 10 r).length - 1) * 10 := by
    rw [← pow_succ, Nat.sub_add_cancel hlen]
  have hcast : (10 : ℚ) ^ ((Nat.toDigits 10 r).length - 1) ≤ r := by exact_mod_cast hge
  rw [fraction, le_div_iff₀ (pow_pos (by norm_num) _), hpow]
  linarith

/-- Numbers with a point are compared part by part. -/
theorem point_le_iff (q r q' r' : Nat) :
    point q r ≤ point q' r' ↔ q < q' ∨ q = q' ∧ fraction r ≤ fraction r' := by
  have hlow := fraction_nonneg r
  have hhigh := fraction_lt_one r
  have hlow' := fraction_nonneg r'
  have hhigh' := fraction_lt_one r'
  rw [point, point]
  rcases Nat.lt_trichotomy q q' with hlt | rfl | hgt
  · have hcast : (q : ℚ) + 1 ≤ q' := by exact_mod_cast hlt
    exact iff_of_true (by linarith) (Or.inl hlt)
  · rw [add_le_add_iff_left]
    exact ⟨fun h => Or.inr ⟨rfl, h⟩,
      fun h => h.elim (fun h => absurd h (Nat.lt_irrefl q)) And.right⟩
  · have hcast : (q' : ℚ) + 1 ≤ q := by exact_mod_cast hgt
    refine iff_of_false (by linarith) ?_
    rintro (hlt | ⟨heq, -⟩) <;> omega

end Fractions

end HttpFileSharing
