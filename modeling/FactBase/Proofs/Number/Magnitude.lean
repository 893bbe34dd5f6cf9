import Mathlib.Algebra.Order.Field.Power
import Mathlib.Algebra.Order.Ring.Rat
import Mathlib.Data.Prod.Lex
import Mathlib.Tactic.Positivity
import Mathlib.Tactic.Ring
import FactBase.Number.Binary64

/-
  This file places the numbers of a comparison on one line:
  the rational numbers between two infinities.  Comparing two
  numbers is comparing their places.

  Key definitions include:
    * `Dyadic.value`
    * `Magnitude.place?`

  Key theorems include:
    * `compare_mul_of_pos`
    * `Dyadic.compare_eq`
    * `Magnitude.compare?_eq`
    * `Magnitude.equal_iff`
-/

------------------------------------------------------------
-- Comparing Rational Numbers
------------------------------------------------------------

namespace FactBase

/- A positive factor does not change the order. -/
theorem compare_mul_of_pos
    (x y : ℚ)
    {c : ℚ}
    (h : 0 < c) : compare (x * c) (y * c) = compare x y := by
  rcases lt_trichotomy x y with hLess | rfl | hGreater
  · rw [compare_lt_iff_lt.mpr hLess, compare_lt_iff_lt]
    exact mul_lt_mul_of_pos_right hLess h
  · rw [compare_eq_iff_eq.mpr rfl, compare_eq_iff_eq.mpr rfl]
  · rw [compare_gt_iff_gt.mpr hGreater, compare_gt_iff_gt]
    exact mul_lt_mul_of_pos_right hGreater h

/- Nor does counting integers among the rational numbers. -/
theorem compare_of_strictMono
    {α : Type}
    [LinearOrder α]
    {f : α → ℚ}
    (h : StrictMono f)
    (m n : α) : compare (f m) (f n) = compare m n := by
  rw [← cmp_eq_compare, ← cmp_eq_compare]
  exact h.cmp_map_eq m n

------------------------------------------------------------
-- Dyadic Numbers
------------------------------------------------------------

namespace Dyadic

/- The rational number that a dyadic number is. -/
def value (d : Dyadic) : ℚ :=
  d.significand * 2 ^ d.exponent

/- Lowering the exponent keeps the number. -/
theorem scaledTo_mul
    (d : Dyadic)
    {e : Int}
    (h : e ≤ d.exponent) :
    (d.scaledTo e : ℚ) * 2 ^ e = d.value := by
  have hNonneg : 0 ≤ d.exponent - e := by omega
  have hSplit : d.exponent = (d.exponent - e).toNat + e := by
    omega
  have hPow :
      (2 : ℚ) ^ d.exponent =
        2 ^ (d.exponent - e).toNat * 2 ^ e := by
    rw [← zpow_natCast, ← zpow_add₀ (by norm_num), ← hSplit]
  have hNat :
      ((Nat.pow 2 (d.exponent - e).toNat : ℕ) : ℚ) =
        2 ^ (d.exponent - e).toNat := Nat.cast_pow 2 _
  unfold scaledTo value
  rw [hPow, Int.cast_mul, Int.cast_natCast, hNat]
  ring

/- Dyadic numbers are ordered as rational numbers. -/
theorem compare_eq (a b : Dyadic) :
    a.compare b = Ord.compare a.value b.value := by
  have hLeft : min a.exponent b.exponent ≤ a.exponent :=
    min_le_left _ _
  have hRight : min a.exponent b.exponent ≤ b.exponent :=
    min_le_right _ _
  unfold compare
  simp only
  rw [← scaledTo_mul a hLeft, ← scaledTo_mul b hRight,
    compare_mul_of_pos _ _ (by positivity),
    compare_of_strictMono Int.cast_strictMono]

end Dyadic

------------------------------------------------------------
-- Places on the Line
------------------------------------------------------------

namespace Magnitude

/-
  The place of a number on the line.  The first part is
  negative or positive at the infinities only.
-/
def place? : Magnitude → Option (ℤ ×ₗ ℚ)
  | .exact d => some (toLex (0, d.value))
  | .infinite true => some (toLex (-1, 0))
  | .infinite false => some (toLex (1, 0))
  | .undefined => none

/- An earlier part of the line comes first. -/
private theorem compare_of_lt
    {m n : ℤ}
    (h : m < n)
    (x y : ℚ) :
    compare (toLex (m, x)) (toLex (n, y)) = .lt :=
  compare_lt_iff_lt.mpr (Prod.Lex.toLex_lt_toLex.mpr (.inl h))

/- A later part of the line comes last. -/
private theorem compare_of_gt
    {m n : ℤ}
    (h : n < m)
    (x y : ℚ) :
    compare (toLex (m, x)) (toLex (n, y)) = .gt :=
  compare_gt_iff_gt.mpr (Prod.Lex.toLex_lt_toLex.mpr (.inl h))

/- Within one part of the line the numbers decide. -/
private theorem compare_within
    (m : ℤ)
    (x y : ℚ) :
    compare (toLex (m, x)) (toLex (m, y)) = compare x y := by
  have hLess {x y : ℚ} (h : x < y) :
      toLex (m, x) < toLex (m, y) :=
    Prod.Lex.toLex_lt_toLex.mpr (.inr ⟨rfl, h⟩)
  rcases lt_trichotomy x y with h | h | h
  · rw [compare_lt_iff_lt.mpr h, compare_lt_iff_lt]
    exact hLess h
  · rw [h, compare_eq_iff_eq.mpr rfl, compare_eq_iff_eq.mpr rfl]
  · rw [compare_gt_iff_gt.mpr h, compare_gt_iff_gt]
    exact hLess h

/- Comparing two numbers is comparing their places. -/
theorem compare?_eq (a b : Magnitude) :
    a.compare? b =
      match a.place?, b.place? with
      | some p, some q => some (compare p q)
      | _, _ => none := by
  cases a with
  | exact d =>
      cases b with
      | exact e =>
          simp only [compare?, place?, Dyadic.compare_eq,
            compare_within]
      | infinite negative =>
          cases negative
          · simp [compare?, place?, compare_of_lt]
          · simp [compare?, place?, compare_of_gt]
      | undefined => rfl
  | infinite negative =>
      cases b with
      | exact e =>
          cases negative
          · simp [compare?, place?, compare_of_gt]
          · simp [compare?, place?, compare_of_lt]
      | infinite other =>
          cases negative <;> cases other
          · simp only [compare?, place?, compare_within]
            rfl
          · simp only [compare?, place?]
            rw [compare_of_gt (by omega)]
            rfl
          · simp only [compare?, place?]
            rw [compare_of_lt (by omega)]
            rfl
          · simp only [compare?, place?, compare_within]
            rfl
      | undefined => cases negative <;> rfl
  | undefined => cases b <;> rfl

/- Two numbers are equal if they have one place. -/
theorem equal_iff {a b : Magnitude} :
    a.equal b = true ↔
      ∃ p, a.place? = some p ∧ b.place? = some p := by
  unfold equal
  rw [compare?_eq]
  cases a.place? with
  | none => simp
  | some p =>
      cases b.place? with
      | none => simp
      | some q =>
          simp only [beq_iff_eq, Option.some.injEq,
            compare_eq_iff_eq]
          constructor
          · rintro rfl
            exact ⟨p, rfl, rfl⟩
          · rintro ⟨r, rfl, rfl⟩
            rfl

end Magnitude

end FactBase
