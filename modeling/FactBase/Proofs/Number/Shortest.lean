import Mathlib.Tactic.LinearCombination
import Mathlib.Tactic.Linarith
import Mathlib.Tactic.NormNum
import FactBase.Number.Shortest
import FactBase.Proofs.Number.Magnitude

/-
  This file shows that the shortest decimal of a number lies
  between the halfway points to its neighbours, and that no
  rational number does so for two numbers.

  Key definitions include:
    * `Decimal.value`
    * `Binary64.canonical`
    * `Binary64.Rounds`

  Key theorems include:
    * `Decimal.compareTo_eq`
    * `Binary64.readsBack_iff`
    * `Binary64.rounds_shortest`
    * `Binary64.Rounds.unique`
-/

------------------------------------------------------------
-- Decimals
------------------------------------------------------------

namespace FactBase

namespace Decimal

/- The rational number that a decimal is. -/
def value (d : Decimal) : ℚ :=
  d.digits * 10 ^ d.exponent

/- A power whose exponent is an integer, as two natural powers. -/
theorem zpow_mul_pow
    {b : ℚ}
    (hb : b ≠ 0)
    (x : ℤ) :
    b ^ x * b ^ (-x).toNat = b ^ x.toNat := by
  rw [← zpow_natCast, ← zpow_natCast, ← zpow_add₀ hb]
  congr 1
  omega

/- Comparing with a binary number is comparing the numbers. -/
theorem compareTo_eq
    (d : Decimal)
    (n : ℕ)
    (j : ℤ) :
    d.compareTo n j = compare d.value (n * 2 ^ j) := by
  have hScale :
      (0 : ℚ) < 10 ^ (-d.exponent).toNat * 2 ^ (-j).toNat := by
    positivity
  have hTen := zpow_mul_pow (b := 10) (by norm_num) d.exponent
  have hTwo := zpow_mul_pow (b := 2) (by norm_num) j
  have hLeft :
      ((d.digits * Nat.pow 10 d.exponent.toNat
          * Nat.pow 2 (-j).toNat : ℕ) : ℚ)
        = d.value
          * (10 ^ (-d.exponent).toNat * 2 ^ (-j).toNat) := by
    simp only [Nat.pow_eq, value]
    push_cast
    rw [← hTen]
    ring
  have hRight :
      ((n * Nat.pow 2 j.toNat
          * Nat.pow 10 (-d.exponent).toNat : ℕ) : ℚ)
        = n * 2 ^ j
          * (10 ^ (-d.exponent).toNat * 2 ^ (-j).toNat) := by
    simp only [Nat.pow_eq]
    push_cast
    rw [← hTwo]
    ring
  rw [compareTo, ← compare_of_strictMono Nat.strictMono_cast,
    hLeft, hRight, compare_mul_of_pos _ _ hScale]

/- Moving zeros into the exponent keeps the number. -/
theorem value_stripZeros
    (n : ℕ)
    (d : Decimal) : (stripZeros n d).value = d.value := by
  induction n generalizing d with
  | zero => rfl
  | succ n ih =>
      rw [stripZeros]
      split
      next hZero =>
        rw [ih]
        simp only [Bool.and_eq_true, bne_iff_ne, ne_eq,
          beq_iff_eq] at hZero
        have hDigits : d.digits = d.digits / 10 * 10 := by omega
        unfold value
        rw [zpow_add_one₀ (by norm_num)]
        nth_rewrite 2 [hDigits]
        push_cast
        ring
      · rfl

end Decimal

------------------------------------------------------------
-- Rounding
------------------------------------------------------------

namespace Binary64

/-
  A finite number is written down in one way: all 53 binary
  digits of the significand are used, unless the exponent is
  the least one.
-/
def canonical : Binary64 → Bool
  | .finite _ m e =>
      m < Nat.pow 2 53 && leastExponent ≤ e
        && (e == leastExponent || Nat.pow 2 52 ≤ m)
  | _ => true

/- The number is undefined. -/
def isUndefined : Binary64 → Bool
  | .undefined _ => true
  | _ => false

/- Four times the significand, less the way down to halfway. -/
def lowEnd
    (m : ℕ)
    (e : ℤ) : ℕ :=
  if m = Nat.pow 2 52 ∧ leastExponent < e then 4 * m - 1
  else 4 * m - 2

/-
  A number rounds to `m * 2 ^ e`: it lies between the halfway
  points, which belong to even significands.
-/
def Rounds
    (m : ℕ)
    (e : ℤ)
    (x : ℚ) : Prop :=
  lowEnd m e * 2 ^ (e - 2) ≤ x
    ∧ x ≤ (4 * m + 2 : ℕ) * 2 ^ (e - 2)
    ∧ (m % 2 = 1 →
      lowEnd m e * 2 ^ (e - 2) < x
        ∧ x < (4 * m + 2 : ℕ) * 2 ^ (e - 2))

/- Decimals that read back are those that round. -/
theorem readsBack_iff
    {m : ℕ}
    {e : ℤ}
    {d : Decimal} :
    d.readsBack m e = true ↔ Rounds m e d.value := by
  have hLow :
      (if m == Nat.pow 2 52 && decide (e > leastExponent) then
          4 * m - 1
        else 4 * m - 2)
        = lowEnd m e := by
    simp only [lowEnd, Bool.and_eq_true, beq_iff_eq,
      decide_eq_true_eq, gt_iff_lt]
  unfold Decimal.readsBack Rounds
  simp only [hLow, Decimal.compareTo_eq]
  generalize (lowEnd m e * 2 ^ (e - 2) : ℚ) = low
  generalize (((4 * m + 2 : ℕ) : ℚ) * 2 ^ (e - 2)) = high
  rcases Nat.mod_two_eq_zero_or_one m with hEven | hOdd
  · rw [hEven, if_pos (by rfl), Bool.and_eq_true, bne_iff_ne,
      bne_iff_ne, ne_eq, ne_eq, compare_lt_iff_lt,
      compare_gt_iff_gt, not_lt, not_lt]
    simp
  · rw [hOdd, if_neg (by decide), Bool.and_eq_true, beq_iff_eq,
      beq_iff_eq, compare_gt_iff_gt, compare_lt_iff_lt]
    constructor
    · rintro ⟨hBelow, hAbove⟩
      exact ⟨hBelow.le, hAbove.le, fun _ => ⟨hBelow, hAbove⟩⟩
    · exact fun h => h.2.2 rfl

variable {m n : ℕ}
variable {e j : ℤ}
variable {x : ℚ}

/- A positive number rounds to itself. -/
theorem rounds_self (h : 0 < m) : Rounds m e (m * 2 ^ e) := by
  have hUnit : (0 : ℚ) < 2 ^ (e - 2) := by positivity
  have hValue : (m * 2 ^ e : ℚ) = (4 * m : ℕ) * 2 ^ (e - 2) := by
    rw [zpow_sub₀ (by norm_num)]
    push_cast
    ring
  have hLow : lowEnd m e < 4 * m := by
    unfold lowEnd
    split <;> omega
  have hBelow :
      (lowEnd m e * 2 ^ (e - 2) : ℚ) < (4 * m : ℕ) * 2 ^ (e - 2) :=
    mul_lt_mul_of_pos_right (by exact_mod_cast hLow) hUnit
  have hAbove :
      ((4 * m : ℕ) * 2 ^ (e - 2) : ℚ)
        < (4 * m + 2 : ℕ) * 2 ^ (e - 2) := by
    refine mul_lt_mul_of_pos_right ?_ hUnit
    exact_mod_cast (by omega : 4 * m < 4 * m + 2)
  rw [hValue]
  exact ⟨hBelow.le, hAbove.le, fun _ => ⟨hBelow, hAbove⟩⟩

/- What is found on a grid reads back. -/
theorem readsBack_of_onGrid?
    {g : ℤ}
    {d : Decimal}
    (h : Decimal.onGrid? m e g = some d) :
    d.readsBack m e = true := by
  unfold Decimal.onGrid? at h
  simp only at h
  split at h
  next hLow hHigh =>
    split at h
    · rw [← Option.some.inj h]
      exact hLow
    · rw [← Option.some.inj h]
      exact hHigh
    · rw [← Option.some.inj h]
      split
      · exact hLow
      · exact hHigh
  next hLow _ =>
    rw [← Option.some.inj h]
    exact hLow
  next _ hHigh =>
    rw [← Option.some.inj h]
    exact hHigh
  · cases h

/- The shortest decimal of a number rounds to it. -/
theorem rounds_shortest (h : 0 < m) :
    Rounds m e (Decimal.shortest m e).value := by
  unfold Decimal.shortest
  simp only
  split
  next d hFound =>
    rw [Decimal.value_stripZeros, ← readsBack_iff]
    rcases List.exists_of_findSome?_eq_some hFound with
      ⟨_, _, hGrid⟩
    exact readsBack_of_onGrid? hGrid
  next =>
    have hExact :
        Decimal.value
            ⟨m * Nat.pow 2 e.toNat * Nat.pow 5 (-e).toNat,
              min e 0⟩
          = m * 2 ^ e := by
      have hFive := Decimal.zpow_mul_pow (b := 5) (by norm_num) e
      have hTen : (10 : ℚ) ^ e = 2 ^ e * 5 ^ e := by
        rw [← mul_zpow]
        norm_num
      simp only [Decimal.value, Nat.pow_eq]
      push_cast
      rcases le_total 0 e with hWhole | hPart
      · have hNone : (-e).toNat = 0 := by omega
        rw [min_eq_right hWhole, hNone, zpow_zero, pow_zero,
          ← zpow_natCast, Int.toNat_of_nonneg hWhole]
        ring
      · have hNone : e.toNat = 0 := by omega
        rw [hNone, pow_zero] at hFive
        rw [min_eq_left hPart, hNone, hTen, pow_zero]
        linear_combination (m * 2 ^ e : ℚ) * hFive
    rw [hExact]
    exact rounds_self h

/-
  Nothing rounds to two significands at one exponent: they
  would be neighbours that meet halfway, and the halfway point
  does not belong to the odd one.
-/
theorem Rounds.not_of_lt
    (hLess : m < n)
    (h : Rounds m e x)
    (h' : Rounds n e x) : False := by
  have hUnit : (0 : ℚ) < 2 ^ (e - 2) := by positivity
  have hMeet : lowEnd n e ≤ 4 * m + 2 := by
    have hBoth := h'.1.trans h.2.1
    exact_mod_cast le_of_mul_le_mul_right hBoth hUnit
  have hNext : n = m + 1 ∧ lowEnd n e = 4 * m + 2 := by
    unfold lowEnd at hMeet ⊢
    split at hMeet
    next hNarrow => rw [if_pos hNarrow]; omega
    next hWide => rw [if_neg hWide]; omega
  rcases Nat.mod_two_eq_zero_or_one m with hEven | hOdd
  · have hAbove := (h'.2.2 (by omega)).1
    rw [hNext.2] at hAbove
    exact absurd h.2.1 (not_le.mpr hAbove)
  · have hBelow := h'.1
    rw [hNext.2] at hBelow
    exact absurd hBelow (not_le.mpr (h.2.2 hOdd).2)

/-
  Nor at two exponents: they would meet where the significand
  is the greatest one, which is odd.
-/
theorem Rounds.not_of_exponent_lt
    (hm : Binary64.canonical (.finite false m e) = true)
    (hn : Binary64.canonical (.finite false n j) = true)
    (hLess : e < j)
    (h : Rounds m e x)
    (h' : Rounds n j x) : False := by
  simp only [canonical, Nat.pow_eq, Bool.and_eq_true,
    Bool.or_eq_true, decide_eq_true_eq, beq_iff_eq] at hm hn
  have hUnit : (0 : ℚ) < 2 ^ (e - 2) := by positivity
  have hLow : 2 ^ 54 - 1 ≤ lowEnd n j := by
    unfold lowEnd
    simp only [Nat.pow_eq]
    split <;> omega
  have hStep : (2 : ℚ) ^ (e - 2) * 2 ≤ 2 ^ (j - 2) := by
    rw [← zpow_add_one₀ (by norm_num)]
    exact zpow_le_zpow_right₀ (by norm_num) (by omega)
  have hAbove :
      ((2 ^ 55 - 2 : ℕ) * 2 ^ (e - 2) : ℚ) ≤ x := by
    calc ((2 ^ 55 - 2 : ℕ) * 2 ^ (e - 2) : ℚ)
        = (2 ^ 54 - 1 : ℕ) * (2 ^ (e - 2) * 2) := by
          norm_num
          ring
      _ ≤ lowEnd n j * 2 ^ (j - 2) := by
          exact mul_le_mul (by exact_mod_cast hLow) hStep
            (by positivity) (by positivity)
      _ ≤ x := h'.1
  have hMeet : 2 ^ 55 - 2 ≤ 4 * m + 2 := by
    have hBoth := hAbove.trans h.2.1
    exact_mod_cast le_of_mul_le_mul_right hBoth hUnit
  have hLast : 4 * m + 2 = 2 ^ 55 - 2 := by omega
  have hBelow := (h.2.2 (by omega)).2
  rw [hLast] at hBelow
  exact absurd hAbove (not_le.mpr hBelow)

/- A number rounds to no more than one significand and exponent. -/
theorem Rounds.unique
    (hm : Binary64.canonical (.finite false m e) = true)
    (hn : Binary64.canonical (.finite false n j) = true)
    (h : Rounds m e x)
    (h' : Rounds n j x) : m = n ∧ e = j := by
  rcases lt_trichotomy e j with hLess | rfl | hGreater
  · exact (h.not_of_exponent_lt hm hn hLess h').elim
  · rcases lt_trichotomy m n with hLess | rfl | hGreater
    · exact (h.not_of_lt hLess h').elim
    · exact ⟨rfl, rfl⟩
    · exact (h'.not_of_lt hGreater h).elim
  · exact (h'.not_of_exponent_lt hn hm hGreater h).elim

end Binary64

end FactBase
