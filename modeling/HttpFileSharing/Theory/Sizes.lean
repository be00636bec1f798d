import HttpFileSharing.Core.Filesys
import HttpFileSharing.Lib.Decimal
import Mathlib.Tactic.Ring

/-!
# Sizes in Words

The size of a file as the page shows it, read back as a number with a point and
a unit. The loop divides by 1024 while what is left is larger than that, so a
size belongs to the unit by which it was divided, and the number in front of
the point is right. What is behind the point is the last remainder, a number
out of 1024, printed as it is, and then it stands for tenths, hundredths or
thousandths, depending on how many digits it happens to have. The remainder 9
is read as nine tenths and the remainder 1023 as one.

Beyond terabytes there is no unit, and the size keeps being divided all the
same.

## Main definitions

* `IsOrder`, `remainder`: How often a size is divided, and what is left over.
* `readSize`, `quantity`: A text as a number and a unit.
* `SizeClose`, `NotLarger`: What the texts should say.
* `DigitsRight`, `InOrder`: What they do say.

## Theorems

* `exists_isOrder`, `IsOrder.le`: Every size has an order, a larger one no
  smaller order.
* `reduceSize_eq`: What the loop computes.
* `readSize_bytesHumanReadable`: What the text says.
* `close_iff`: Which remainders stand for about what they are.
* `sizes_exact`: Which sizes are right and which are in order.
* `sizes_fail`: The sizes 1033 and 1034.
-/

namespace HttpFileSharing

/-- The size is divided `j` times: it is still too large until then. -/
structure IsOrder (j n : Nat) : Prop where
  lower : ∀ i < j, 1025 * 1024 ^ i ≤ n
  upper : n < 1025 * 1024 ^ j

/-- What is left over by the last division. -/
def remainder : Nat → Nat → Nat
  | 0, _ => 0
  | i + 1, n => n / 1024 ^ i % 1024

/-- The units and how large they are. -/
def unitSizes : List (Bytes × Nat) :=
  [("B".toList, 1), ("kB".toList, 1024), ("MB".toList, 1024 ^ 2), ("GB".toList, 1024 ^ 3),
    ("TB".toList, 1024 ^ 4)]

/-- A text as a number and a unit behind a space. -/
def readSize (text : Bytes) : Option (ℚ × Nat) :=
  let (number, unit) := takeUntil ' ' text
  match readPoint number, unitSizes.lookup unit with
  | some d, some u => some (d, u)
  | _, _ => none

/-- The number of bytes a text stands for. -/
def quantity (text : Bytes) : Option ℚ := (readSize text).map (fun p => p.1 * p.2)

/-- The text of a size is off by less than a tenth of its unit. -/
def SizeClose (n : Nat) : Prop :=
  ∃ d u, readSize (bytesHumanReadable n) = some (d, u) ∧ |d * u - n| < u / 10

/-- The first text does not stand for more than the second. -/
def NotLarger (n m : Nat) : Prop :=
  ∃ v w, quantity (bytesHumanReadable n) = some v ∧ quantity (bytesHumanReadable m) = some w ∧
    v ≤ w

/-- The remainders whose digits stand for about what they are out of 1024. -/
def DigitsRight (r : Nat) : Prop := r ≤ 1 ∨ r = 10 ∨ r = 11 ∨ 100 ≤ r ∧ r ≤ 999

/-- The sizes are of different units, or of the same and in order by their
    whole numbers, or these are the same and the remainders are in order by
    their digits. -/
def InOrder (n m : Nat) : Prop :=
  ∃ i j, IsOrder i n ∧ IsOrder j m ∧ (min i 4 < min j 4 ∨ n / 1024 ^ i < m / 1024 ^ j ∨
    n / 1024 ^ i = m / 1024 ^ j ∧ fraction (remainder i n) ≤ fraction (remainder j m))

section Orders

theorem exists_isOrder (n : Nat) : ∃ j, IsOrder j n := by
  have hlarge : ∃ j, n < 1025 * 1024 ^ j := by
    have hpow : n < 1024 ^ n := Nat.lt_pow_self (by decide)
    exact ⟨n, by omega⟩
  exact ⟨Nat.find hlarge, fun i hi => Nat.le_of_not_lt (Nat.find_min hlarge hi),
    Nat.find_spec hlarge⟩

theorem IsOrder.le {i j n m : Nat} (hi : IsOrder i n) (hj : IsOrder j m) (h : n ≤ m) : i ≤ j := by
  by_contra hlt
  have hlower := hi.lower j (Nat.lt_of_not_le hlt)
  have hupper := hj.upper
  omega

theorem IsOrder.eq {i j n : Nat} (hi : IsOrder i n) (hj : IsOrder j n) : i = j :=
  Nat.le_antisymm (hi.le hj (Nat.le_refl n)) (hj.le hi (Nat.le_refl n))

/-- The whole number is at most 1024. -/
theorem IsOrder.whole_le {j n : Nat} (h : IsOrder j n) : n / 1024 ^ j ≤ 1024 :=
  Nat.le_of_lt_succ (Nat.div_lt_of_lt_mul (by rw [Nat.mul_comm]; exact h.upper))

/-- Before the last division there is more than 1024. -/
theorem IsOrder.before {i j n : Nat} (h : IsOrder j n) (hi : i < j) : 1024 < n / 1024 ^ i :=
  (Nat.le_div_iff_mul_le (Nat.pow_pos (by decide))).mpr (h.lower i hi)

theorem remainder_lt (j n : Nat) : remainder j n < 1024 := by
  cases j with
  | zero => exact Nat.zero_lt_succ _
  | succ i => exact Nat.mod_lt _ (by decide)

/-- The loop from any of its turns on, by how many are left. -/
theorem reduceSize_from (j n k i : Nat) (h : IsOrder j n) (hk : i + k = j) :
    reduceSize (n / 1024 ^ i) (remainder i n) i = (n / 1024 ^ j, remainder j n, j) := by
  induction k generalizing i with
  | zero =>
      rw [Nat.add_zero] at hk
      rw [hk, reduceSize, if_neg (Nat.not_lt.mpr h.whole_le)]
  | succ k ih =>
      have hshift : (n / 1024 ^ i) >>> 10 = n / 1024 ^ (i + 1) := by
        rw [Nat.shiftRight_eq_div_pow, Nat.div_div_eq_div_mul, show 2 ^ 10 = 1024 from rfl,
          Nat.pow_succ]
      have hmask : (n / 1024 ^ i) &&& 1023 = remainder (i + 1) n :=
        Nat.and_two_pow_sub_one_eq_mod (n / 1024 ^ i) 10
      rw [reduceSize, if_pos (h.before (by omega)), hshift, hmask]
      exact ih (i + 1) (by omega)

theorem reduceSize_eq (j n : Nat) (h : IsOrder j n) :
    reduceSize n 0 0 = (n / 1024 ^ j, remainder j n, j) := by
  have hfrom := reduceSize_from j n j 0 h (Nat.zero_add j)
  rw [Nat.pow_zero, Nat.div_one] at hfrom
  exact hfrom

/-- What the text says. -/
theorem readSize_bytesHumanReadable (j n : Nat) (h : IsOrder j n) :
    readSize (bytesHumanReadable n)
      = some (point (n / 1024 ^ j) (remainder j n), 1024 ^ min j 4) := by
  have hunit : ∀ i < 5, unitSizes.lookup (sizeUnits.getD i []) = some (1024 ^ i) := by decide
  have horder : (if sizeUnits.length ≤ j then sizeUnits.length - 1 else j) = min j 4 := by
    rw [show sizeUnits.length = 5 from rfl]
    split <;> omega
  have hgroup : ∀ whole dot digits blank unit : Bytes, dot = ['.'] → blank = [' '] →
      whole ++ dot ++ digits ++ blank ++ unit = (whole ++ '.' :: digits) ++ ' ' :: unit := by
    intro whole dot digits blank unit hdot hblank
    rw [hdot, hblank]
    simp only [List.append_assoc, List.cons_append, List.nil_append]
  have hparts : bytesHumanReadable n = decimal (n / 1024 ^ j) ++ ".".toList
      ++ decimal (remainder j n) ++ " ".toList ++ sizeUnits.getD (min j 4) [] := by
    rw [← horder, bytesHumanReadable, reduceSize_eq j n h]
  have htext : bytesHumanReadable n = (decimal (n / 1024 ^ j) ++ '.' :: decimal (remainder j n))
      ++ ' ' :: sizeUnits.getD (min j 4) [] :=
    hparts.trans (hgroup _ ".".toList _ " ".toList _ (by decide) (by decide))
  have hblank : ' ' ∉ decimal (n / 1024 ^ j) ++ '.' :: decimal (remainder j n) := by
    rw [List.mem_append, List.mem_cons, not_or, not_or]
    exact ⟨not_mem_toDigits _ ' ' (by decide), by decide, not_mem_toDigits _ ' ' (by decide)⟩
  rw [htext, readSize, takeUntil_append ' ' _ _ hblank]
  simp only [decimal, readPoint_append, hunit (min j 4) (by omega)]

end Orders

section Errors

variable (V s e : ℚ)

theorem close_of (hV : 0 < V) (hs : 0 ≤ s) (hsV : s < V) (hlow : -101 ≤ e) (hhigh : e ≤ 102) :
    |e * V - s| < 1024 * V / 10 := by
  have hle : -101 * V ≤ e * V := mul_le_mul_of_nonneg_right hlow hV.le
  have hge : e * V ≤ 102 * V := mul_le_mul_of_nonneg_right hhigh hV.le
  rw [abs_lt]
  constructor <;> linarith

theorem not_close_of (hV : 0 < V) (hs : 0 ≤ s) (hsV : s < V) (h : e ≤ -103 ∨ 104 ≤ e) :
    ¬ |e * V - s| < 1024 * V / 10 := by
  rw [abs_lt, not_and_or, not_lt, not_lt]
  rcases h with hlow | hhigh
  · have hle : e * V ≤ -103 * V := mul_le_mul_of_nonneg_right hlow hV.le
    left
    linarith
  · have hge : 104 * V ≤ e * V := mul_le_mul_of_nonneg_right hhigh hV.le
    right
    linarith

/-- Which remainders stand for about what they are: the digits of the remainder
    against the remainder out of 1024, in units of the last division. -/
theorem close_iff (r : Nat) (hr : r < 1024) (hV : 0 < V) (hs : 0 ≤ s) (hsV : s < V) :
    |(1024 * fraction r - r) * V - s| < 1024 * V / 10 ↔ DigitsRight r := by
  have hpos : (0 : ℚ) ≤ r := Nat.cast_nonneg r
  have hgood := close_of V s (1024 * fraction r - r) hV hs hsV
  have hbad := not_close_of V s (1024 * fraction r - r) hV hs hsV
  rw [DigitsRight]
  by_cases h1 : r < 10
  · -- One digit, read as tenths.
    rw [fraction_of_lt r 0 (by omega) (by omega)] at hgood hbad ⊢
    by_cases h : r ≤ 1
    · have hr1 : (r : ℚ) ≤ 1 := by exact_mod_cast h
      exact iff_of_true (hgood (by norm_num; linarith) (by norm_num; linarith)) (by omega)
    · have hr2 : (2 : ℚ) ≤ r := by exact_mod_cast Nat.lt_of_not_le h
      exact iff_of_false (hbad (Or.inr (by norm_num; linarith))) (by omega)
  by_cases h2 : r < 100
  · -- Two digits, read as hundredths.
    rw [fraction_of_lt r 1 (by omega) (by omega)] at hgood hbad ⊢
    by_cases h : r ≤ 11
    · have hr11 : (r : ℚ) ≤ 11 := by exact_mod_cast h
      exact iff_of_true (hgood (by norm_num; linarith) (by norm_num; linarith))
        (by omega)
    · have hr12 : (12 : ℚ) ≤ r := by exact_mod_cast Nat.lt_of_not_le h
      exact iff_of_false (hbad (Or.inr (by norm_num; linarith))) (by omega)
  by_cases h3 : r < 1000
  · -- Three digits, read as thousandths.
    rw [fraction_of_lt r 2 (by omega) (by omega)] at hgood ⊢
    have hr999 : (r : ℚ) ≤ 999 := by exact_mod_cast Nat.le_of_lt_succ h3
    exact iff_of_true (hgood (by norm_num; linarith) (by norm_num; linarith))
      (by omega)
  · -- Four digits: nearly a whole one, read as a tenth.
    rw [fraction_of_lt r 3 (by omega) (by omega)] at hbad ⊢
    have hr1000 : (1000 : ℚ) ≤ r := by exact_mod_cast Nat.le_of_not_lt h3
    exact iff_of_false (hbad (Or.inl (by norm_num; linarith))) (by omega)

end Errors

section Texts

variable (n j : Nat)

/-- A size in parts: the whole number, the remainder and what is lost below
    it. -/
theorem split_size (i : Nat) :
    n = (n / 1024 ^ (i + 1) * 1024 + remainder (i + 1) n) * 1024 ^ i + n % 1024 ^ i := by
  have hwhole : n / 1024 ^ (i + 1) = n / 1024 ^ i / 1024 := by
    rw [Nat.div_div_eq_div_mul, Nat.pow_succ]
  rw [hwhole, remainder, Nat.mul_comm _ 1024, Nat.div_add_mod, Nat.mul_comm, Nat.div_add_mod]

theorem sizeClose_iff_abs (h : IsOrder j n) :
    SizeClose n ↔ |point (n / 1024 ^ j) (remainder j n) * ((1024 ^ min j 4 : Nat) : ℚ) - n|
      < ((1024 ^ min j 4 : Nat) : ℚ) / 10 := by
  rw [SizeClose, readSize_bytesHumanReadable j n h]
  constructor
  · rintro ⟨d, u, hread, hclose⟩
    rw [Option.some.injEq, Prod.mk.injEq] at hread
    rw [hread.1, hread.2]
    exact hclose
  · exact fun hclose => ⟨_, _, rfl, hclose⟩

/-- Beyond the last unit nothing is close. -/
theorem not_sizeClose (hj : 4 < j) (h : IsOrder j n) : ¬ SizeClose n := by
  have hpos : 0 < n / 1024 ^ j := by
    have hlower := h.lower (j - 1) (by omega)
    have hpow : 1024 ^ j = 1024 ^ (j - 1) * 1024 := by
      rw [← Nat.pow_succ, Nat.succ_eq_add_one, Nat.sub_add_cancel (by omega)]
    rw [hpow]
    exact Nat.div_pos (by omega) (by positivity)
  have hlarge : n / 1024 ^ j * (1024 * 1024 ^ 4) ≤ n := by
    have hpow : 1024 * 1024 ^ 4 ≤ 1024 ^ j := by
      rw [← Nat.pow_succ']
      exact Nat.pow_le_pow_right (by decide) hj
    exact (Nat.mul_le_mul_left _ hpow).trans (Nat.div_mul_le_self n (1024 ^ j))
  rw [sizeClose_iff_abs n j h, show min j 4 = 4 by omega, abs_lt, not_and_or, point]
  left
  have hfraction := fraction_lt_one (remainder j n)
  generalize fraction (remainder j n) = f at hfraction ⊢
  generalize n / 1024 ^ j = q at hpos hlarge ⊢
  have hq : (1 : ℚ) ≤ q := by exact_mod_cast hpos
  have hn : (q : ℚ) * (1024 * 1024 ^ 4) ≤ n := by exact_mod_cast hlarge
  push_cast
  linarith

theorem sizeClose_iff (h : IsOrder j n) : SizeClose n ↔ j ≤ 4 ∧ DigitsRight (remainder j n) := by
  by_cases hj : j ≤ 4
  · rw [sizeClose_iff_abs n j h, Nat.min_eq_left hj]
    cases j with
    | zero =>
        refine iff_of_true ?_ ⟨hj, Or.inl (Nat.zero_le 1)⟩
        rw [remainder, Nat.pow_zero, Nat.div_one, point, fraction_zero]
        norm_num
    | succ i =>
        have hsplit : (n : ℚ) = ((n / 1024 ^ (i + 1) : Nat) * 1024 + remainder (i + 1) n)
            * 1024 ^ i + (n % 1024 ^ i : Nat) := by
          exact_mod_cast split_size n i
        have hlost : ((n % 1024 ^ i : Nat) : ℚ) < 1024 ^ i := by
          exact_mod_cast Nat.mod_lt n (by positivity)
        have hclose := close_iff (1024 ^ i) (n % 1024 ^ i : Nat) (remainder (i + 1) n)
          (remainder_lt (i + 1) n) (by positivity) (Nat.cast_nonneg _) hlost
        -- The whole number is right, so the error is that of the remainder.
        have herror : point (n / 1024 ^ (i + 1)) (remainder (i + 1) n)
              * ((1024 ^ (i + 1) : Nat) : ℚ) - n
            = (1024 * fraction (remainder (i + 1) n) - remainder (i + 1) n) * 1024 ^ i
              - (n % 1024 ^ i : Nat) := by
          rw [hsplit, point]
          push_cast
          ring
        rw [herror, Nat.pow_succ', Nat.cast_mul, Nat.cast_pow, Nat.cast_ofNat]
        exact hclose.trans (and_iff_right hj).symm
  · exact iff_of_false (not_sizeClose n j (Nat.lt_of_not_le hj) h) (fun h => hj h.1)

/-- The text of a size as a number of bytes. -/
theorem quantity_eq (h : IsOrder j n) :
    quantity (bytesHumanReadable n)
      = some (point (n / 1024 ^ j) (remainder j n) * ((1024 ^ min j 4 : Nat) : ℚ)) := by
  rw [quantity, readSize_bytesHumanReadable j n h]
  rfl

theorem point_lt (h : IsOrder j n) : point (n / 1024 ^ j) (remainder j n) < 1025 := by
  have hwhole : ((n / 1024 ^ j : Nat) : ℚ) ≤ 1024 := by exact_mod_cast h.whole_le
  have hfraction := fraction_lt_one (remainder j n)
  rw [point]
  linarith

/-- What was divided is more than one of its unit, by a tenth at least. -/
theorem le_point (hj : 0 < j) (h : IsOrder j n) :
    11 / 10 ≤ point (n / 1024 ^ j) (remainder j n) := by
  cases j with
  | zero => exact absurd hj (Nat.lt_irrefl 0)
  | succ i =>
      have hbefore := h.before (Nat.lt_succ_self i)
      have hwhole : n / 1024 ^ (i + 1) = n / 1024 ^ i / 1024 := by
        rw [Nat.div_div_eq_div_mul, Nat.pow_succ]
      rw [point, hwhole]
      by_cases hone : n / 1024 ^ i / 1024 = 1
      · -- Exactly one of the unit would not have been divided.
        have hpos : 0 < remainder (i + 1) n := by
          rw [remainder]
          omega
        have hfraction := tenth_le_fraction _ hpos
        rw [hone]
        norm_num at hfraction ⊢
        linarith
      · have htwo : (2 : ℚ) ≤ (n / 1024 ^ i / 1024 : Nat) := by
          have hle : 2 ≤ n / 1024 ^ i / 1024 := by omega
          exact_mod_cast hle
        have hfraction := fraction_nonneg (remainder (i + 1) n)
        linarith

/-- Sizes of different units are in order. -/
theorem quantity_lt (m i : Nat) (hi : IsOrder i n) (hj : IsOrder j m) (hunit : min i 4 < min j 4) :
    point (n / 1024 ^ i) (remainder i n) * ((1024 ^ min i 4 : Nat) : ℚ)
      < point (m / 1024 ^ j) (remainder j m) * ((1024 ^ min j 4 : Nat) : ℚ) := by
  have hsmall := point_lt n i hi
  have hlarge := le_point m j (by omega) hj
  have hpos : (0 : ℚ) < ((1024 ^ min i 4 : Nat) : ℚ) := by positivity
  have hunits : ((1024 ^ min i 4 : Nat) : ℚ) * 1024 ≤ ((1024 ^ min j 4 : Nat) : ℚ) := by
    have hpow : 1024 ^ min i 4 * 1024 ≤ 1024 ^ min j 4 := by
      rw [← Nat.pow_succ]
      exact Nat.pow_le_pow_right (by decide) hunit
    exact_mod_cast hpow
  calc point (n / 1024 ^ i) (remainder i n) * ((1024 ^ min i 4 : Nat) : ℚ)
      < 1025 * ((1024 ^ min i 4 : Nat) : ℚ) := mul_lt_mul_of_pos_right hsmall hpos
    _ ≤ 11 / 10 * (((1024 ^ min i 4 : Nat) : ℚ) * 1024) := by linarith
    _ ≤ 11 / 10 * ((1024 ^ min j 4 : Nat) : ℚ) := by linarith
    _ ≤ point (m / 1024 ^ j) (remainder j m) * ((1024 ^ min j 4 : Nat) : ℚ) :=
        mul_le_mul_of_nonneg_right hlarge (Nat.cast_nonneg _)

theorem notLarger_iff (m : Nat) (hnm : n ≤ m) : NotLarger n m ↔ InOrder n m := by
  rcases exists_isOrder n with ⟨i, hi⟩
  rcases exists_isOrder m with ⟨j, hj⟩
  have hquantity : NotLarger n m ↔
      point (n / 1024 ^ i) (remainder i n) * ((1024 ^ min i 4 : Nat) : ℚ)
        ≤ point (m / 1024 ^ j) (remainder j m) * ((1024 ^ min j 4 : Nat) : ℚ) := by
    rw [NotLarger, quantity_eq n i hi, quantity_eq m j hj]
    constructor
    · rintro ⟨v, w, hv, hw, hle⟩
      rw [Option.some.inj hv, Option.some.inj hw]
      exact hle
    · exact fun hle => ⟨_, _, rfl, rfl, hle⟩
  have horder : InOrder n m ↔ min i 4 < min j 4 ∨ n / 1024 ^ i < m / 1024 ^ j ∨
      n / 1024 ^ i = m / 1024 ^ j ∧ fraction (remainder i n) ≤ fraction (remainder j m) := by
    constructor
    · rintro ⟨i', j', hi', hj', h⟩
      rw [hi'.eq hi, hj'.eq hj] at h
      exact h
    · exact fun h => ⟨i, j, hi, hj, h⟩
  have hle : i ≤ j := hi.le hj hnm
  rw [hquantity, horder]
  by_cases hunit : min i 4 < min j 4
  · exact iff_of_true (quantity_lt n j m i hi hj hunit).le (Or.inl hunit)
  · -- The same unit on both sides.
    have hpos : (0 : ℚ) < ((1024 ^ min j 4 : Nat) : ℚ) := by positivity
    rw [show min i 4 = min j 4 by omega, mul_le_mul_iff_of_pos_right hpos, point_le_iff,
      or_iff_right (Nat.lt_irrefl _)]

end Texts

/-- **Sizes in words**: the text of a size is off by less than a tenth of its
    unit exactly if it has a unit of its own and the digits of its last remainder
    stand for about what it is, and of two sizes the texts are in order exactly
    if the units, the whole numbers and the digits are. -/
theorem sizes_exact (n m : Nat) :
    (SizeClose n ↔ ∃ j ≤ 4, IsOrder j n ∧ DigitsRight (remainder j n)) ∧
      (n ≤ m → (NotLarger n m ↔ InOrder n m)) := by
  refine ⟨?_, notLarger_iff n m⟩
  rcases exists_isOrder n with ⟨j, hj⟩
  rw [sizeClose_iff n j hj]
  constructor
  · exact fun h => ⟨j, h.1, hj, h.2⟩
  · rintro ⟨i, hi, hin, hright⟩
    rw [hin.eq hj] at hi hright
    exact ⟨hi, hright⟩

/-- The size 1033 is written as 1.9 kB and the size 1034 as 1.10 kB. -/
theorem sizes_fail : ¬ SizeClose 1033 ∧ ¬ NotLarger 1033 1034 := by
  have horder : ∀ n, 1025 ≤ n → n < 1025 * 1024 → IsOrder 1 n := fun n hlower hupper =>
    ⟨fun i hi => by rw [Nat.lt_one_iff.mp hi]; exact hlower, hupper⟩
  have hn := horder 1033 (by decide) (by decide)
  have hm := horder 1034 (by decide) (by decide)
  constructor
  · rw [sizeClose_iff 1033 1 hn, DigitsRight]
    decide
  · rw [notLarger_iff 1033 1034 (by decide), InOrder]
    rintro ⟨i, j, hi, hj, h⟩
    rw [hi.eq hn, hj.eq hm, fraction_of_lt _ 0 (by decide) (by decide),
      fraction_of_lt _ 1 (by decide) (by decide)] at h
    revert h
    norm_num [remainder]

end HttpFileSharing
