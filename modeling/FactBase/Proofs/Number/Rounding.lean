import FactBase.Proofs.Number.Shortest

/-
  This file shows that the number nearest to a ratio is given
  in the one way in which numbers are written down.  The
  exponent is chosen such that the ratio has 53 binary digits
  before rounding, and a significand that rounds up to one
  digit more is halved.

  Key theorems include:
    * `Binary64.exponentFor_eq`
    * `Binary64.canonical_ofRatio`
    * `Binary64.canonical_of_ofText?`
-/

------------------------------------------------------------
-- Scaled Ratios
------------------------------------------------------------

namespace FactBase

namespace Binary64

variable {num den bound : ℕ}
variable {e : ℤ}

/- The numerator that is rounded at an exponent. -/
def scaledNum
    (num : ℕ)
    (e : ℤ) : ℕ :=
  num * Nat.pow 2 (-e).toNat

/- The denominator that goes with it. -/
def scaledDen
    (den : ℕ)
    (e : ℤ) : ℕ :=
  den * Nat.pow 2 e.toNat

/- It is positive if the denominator is. -/
theorem scaledDen_pos
    (h : 0 < den)
    (e : ℤ) : 0 < scaledDen den e :=
  Nat.mul_pos h (Nat.pow_pos (by omega))

/- Comparing what is scaled is comparing the ratio. -/
theorem scaled_lt_iff
    (hDen : 0 < den) :
    scaledNum num e < bound * scaledDen den e ↔
      (num / den : ℚ) < bound * 2 ^ e := by
  have hScale : (0 : ℚ) < 2 ^ (-e).toNat := by positivity
  have hDenom : (0 : ℚ) < den := by exact_mod_cast hDen
  have hTwo := Decimal.zpow_mul_pow (b := 2) (by norm_num) e
  unfold scaledNum scaledDen
  simp only [Nat.pow_eq]
  rw [div_lt_iff₀ hDenom, ← Nat.cast_lt (α := ℚ)]
  push_cast
  rw [← hTwo]
  constructor
  · intro h
    refine lt_of_mul_lt_mul_right ?_ hScale.le
    linarith
  · intro h
    have hScaled := mul_lt_mul_of_pos_right h hScale
    linarith

/- A half at most is lost or gained, so bounds are kept. -/
theorem roundHalfEven_le
    (hDen : 0 < den)
    (h : num < bound * den) : roundHalfEven num den ≤ bound := by
  have hLess : num / den < bound :=
    (Nat.div_lt_iff_lt_mul hDen).mpr h
  unfold roundHalfEven
  simp only
  split <;> (try split) <;> omega

/- The same for bounds from below. -/
theorem le_roundHalfEven
    (hDen : 0 < den)
    (h : bound * den ≤ num) : bound ≤ roundHalfEven num den := by
  have hMore : bound ≤ num / den :=
    (Nat.le_div_iff_mul_le hDen).mpr h
  unfold roundHalfEven
  simp only
  split <;> (try split) <;> omega

------------------------------------------------------------
-- Exponents
------------------------------------------------------------

/- The binary logarithms tell the size of a ratio. -/
theorem ratio_bounds
    (hNum : num ≠ 0)
    (hDen : den ≠ 0) :
    (2 : ℚ) ^ ((num.log2 : ℤ) - den.log2 - 1) < num / den
      ∧ (num / den : ℚ) < 2 ^ ((num.log2 : ℤ) - den.log2 + 1) := by
  have hDenom : (0 : ℚ) < den := by
    exact_mod_cast Nat.pos_of_ne_zero hDen
  have hNumLow : (2 : ℚ) ^ (num.log2 : ℤ) ≤ num := by
    rw [zpow_natCast]
    exact_mod_cast Nat.log2_self_le hNum
  have hNumHigh : (num : ℚ) < 2 ^ ((num.log2 : ℤ) + 1) := by
    exact_mod_cast Nat.lt_log2_self
  have hDenLow : (2 : ℚ) ^ (den.log2 : ℤ) ≤ den := by
    rw [zpow_natCast]
    exact_mod_cast Nat.log2_self_le hDen
  have hDenHigh : (den : ℚ) < 2 ^ ((den.log2 : ℤ) + 1) := by
    exact_mod_cast Nat.lt_log2_self
  constructor
  · rw [lt_div_iff₀ hDenom]
    calc (2 : ℚ) ^ ((num.log2 : ℤ) - den.log2 - 1) * den
        < 2 ^ ((num.log2 : ℤ) - den.log2 - 1)
          * 2 ^ ((den.log2 : ℤ) + 1) := by
          exact mul_lt_mul_of_pos_left hDenHigh (by positivity)
      _ = 2 ^ (num.log2 : ℤ) := by
          rw [← zpow_add₀ (by norm_num)]
          congr 1
          omega
      _ ≤ num := hNumLow
  · rw [div_lt_iff₀ hDenom]
    calc (num : ℚ)
        < 2 ^ ((num.log2 : ℤ) + 1) := hNumHigh
      _ = 2 ^ ((num.log2 : ℤ) - den.log2 + 1)
          * 2 ^ (den.log2 : ℤ) := by
          rw [← zpow_add₀ (by norm_num)]
          congr 1
          omega
      _ ≤ 2 ^ ((num.log2 : ℤ) - den.log2 + 1) * den := by
          exact mul_le_mul_of_nonneg_left hDenLow (by positivity)

/-
  The exponent is the one at which a ratio has 53 binary
  digits before the point, unless it is less than the least.
-/
theorem exponentFor_eq
    (hNum : num ≠ 0)
    (hDen : den ≠ 0) :
    ∃ e : ℤ, exponentFor num den = max leastExponent e
      ∧ (2 : ℚ) ^ 52 * 2 ^ e ≤ num / den
      ∧ (num / den : ℚ) < 2 ^ 53 * 2 ^ e := by
  rcases ratio_bounds hNum hDen with ⟨hLow, hHigh⟩
  have hPos := Nat.pos_of_ne_zero hDen
  have hTwo :
      ∀ (k : ℕ) (e : ℤ),
        (2 : ℚ) ^ k * 2 ^ e = 2 ^ ((k : ℤ) + e) := by
    intro k e
    rw [zpow_add₀ (by norm_num), zpow_natCast]
  have hWhole :
      scaledNum num ((num.log2 : ℤ) - den.log2 - 52)
          / scaledDen den ((num.log2 : ℤ) - den.log2 - 52)
          < Nat.pow 2 52
        ↔ (num / den : ℚ)
          < 2 ^ 52 * 2 ^ ((num.log2 : ℤ) - den.log2 - 52) := by
    rw [Nat.div_lt_iff_lt_mul (scaledDen_pos hPos _),
      scaled_lt_iff hPos]
    norm_num
  unfold exponentFor
  simp only
  by_cases hSmall :
      scaledNum num ((num.log2 : ℤ) - den.log2 - 52)
          / scaledDen den ((num.log2 : ℤ) - den.log2 - 52)
        < Nat.pow 2 52
  · refine ⟨_, congrArg _ (if_pos hSmall), ?_, ?_⟩
    · rw [hTwo]
      refine le_of_eq_of_le (congrArg _ ?_) hLow.le
      push_cast
      omega
    · refine lt_of_lt_of_eq (hWhole.mp hSmall) ?_
      rw [hTwo, hTwo]
      refine congrArg _ ?_
      push_cast
      omega
  · refine ⟨_, congrArg _ (if_neg hSmall), ?_, ?_⟩
    · exact not_lt.mp (fun h => hSmall (hWhole.mpr h))
    · rw [hTwo]
      refine lt_of_lt_of_eq hHigh (congrArg _ ?_)
      push_cast
      omega

------------------------------------------------------------
-- Canonical Numbers
------------------------------------------------------------

/-
  The significand at this exponent has 53 binary digits, or
  one more where it was rounded up to a power of two, or at
  most 53 at the least exponent.
-/
theorem significandAt_bounds
    (hNum : num ≠ 0)
    (hDen : den ≠ 0) :
    significandAt num den (exponentFor num den) ≤ 2 ^ 53
      ∧ leastExponent ≤ exponentFor num den
      ∧ (exponentFor num den = leastExponent
        ∨ 2 ^ 52 ≤ significandAt num den (exponentFor num den)) := by
  have hPos := Nat.pos_of_ne_zero hDen
  rcases exponentFor_eq hNum hDen with
    ⟨e, hExponent, hLow, hHigh⟩
  rw [hExponent]
  have hRounded :
      significandAt num den (max leastExponent e)
        = roundHalfEven (scaledNum num (max leastExponent e))
          (scaledDen den (max leastExponent e)) := rfl
  refine ⟨?_, le_max_left _ _, ?_⟩
  · have hTop :
        (num / den : ℚ)
          < (2 ^ 53 : ℕ) * 2 ^ max leastExponent e := by
      have hUp : (2 : ℚ) ^ e ≤ 2 ^ max leastExponent e :=
        zpow_le_zpow_right₀ (by norm_num) (le_max_right _ _)
      push_cast
      linarith
    rw [hRounded]
    exact
      roundHalfEven_le (scaledDen_pos hPos _)
        ((scaled_lt_iff hPos).mpr hTop)
  · rcases le_or_gt leastExponent e with hIn | hBelow
    · right
      rw [hRounded, max_eq_right hIn]
      refine le_roundHalfEven (scaledDen_pos hPos _) ?_
      rw [← not_lt, scaled_lt_iff hPos, not_lt]
      push_cast
      exact hLow
    · exact .inl (max_eq_left hBelow.le)

/- The number nearest to a ratio is canonical. -/
theorem canonical_ofRatio
    (negative : Bool)
    (num : ℕ)
    (hDen : den ≠ 0) :
    (ofRatio negative num den).canonical = true := by
  unfold ofRatio
  by_cases hZero : num = 0
  · subst hZero
    rfl
  rw [if_neg (by simpa using hZero)]
  rcases significandAt_bounds hZero hDen with
    ⟨hTop, hLeast, hSize⟩
  simp only [beq_iff_eq]
  split
  · split
    · rfl
    · simp only [canonical, Nat.pow_eq, Bool.and_eq_true,
        Bool.or_eq_true, decide_eq_true_eq, beq_iff_eq]
      exact ⟨⟨by norm_num, by omega⟩, .inr le_rfl⟩
  next hOther =>
    split
    · rfl
    · simp only [Nat.pow_eq] at hOther
      simp only [canonical, Nat.pow_eq, Bool.and_eq_true,
        Bool.or_eq_true, decide_eq_true_eq, beq_iff_eq]
      exact ⟨⟨by omega, hLeast⟩, hSize⟩

/- So is the number nearest to a decimal. -/
theorem canonical_ofDecimal
    (negative : Bool)
    (digits : ℕ)
    (exponent : ℤ) :
    (ofDecimal negative digits exponent).canonical = true := by
  refine canonical_ofRatio negative _ ?_
  simp [Nat.pow_eq]

/- An unsigned number that is read is that of some decimal. -/
theorem exists_decimal_of_ofUnsigned?
    {negative : Bool}
    {cs : List Char}
    {x : Binary64}
    (h : ofUnsigned? negative cs = some x) :
    ∃ digits exponent, x = ofDecimal negative digits exponent := by
  have hFound :
      ∀ {digits : ℕ} {exponent : ℤ},
        some (ofDecimal negative digits exponent) = some x →
          ∃ digits exponent,
            x = ofDecimal negative digits exponent :=
    fun hSame => ⟨_, _, (Option.some.inj hSame).symm⟩
  unfold ofUnsigned? at h
  simp only at h
  -- with or without a fraction
  split at h
  all_goals
    split at h
    · cases h
    split at h
    · exact hFound h
    · exact hFound h
    · cases h

/- So every number that is read from a text is canonical. -/
theorem canonical_of_ofText?
    {occurrence : ℕ}
    {text : String}
    {x : Binary64}
    (h : ofText? occurrence text = some x) :
    x.canonical = true := by
  unfold ofText? at h
  simp only at h
  split at h
  · rw [← Option.some.inj h]
    rfl
  · rw [← Option.some.inj h]
    rfl
  · rcases exists_decimal_of_ofUnsigned? h with
      ⟨digits, exponent, rfl⟩
    exact canonical_ofDecimal _ digits exponent

end Binary64

end FactBase
