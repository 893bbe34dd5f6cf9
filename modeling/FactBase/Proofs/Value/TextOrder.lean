import Mathlib.Data.List.Nodup
import Mathlib.Order.Compare
import FactBase.Sorting.Ascending.Sort
import FactBase.Value.Frozen

/-
  This file shows that texts are ordered totally by their code
  points, and what sorting by texts gives: the same elements,
  ascending, and in an order that does not depend on the one
  in which they came, as long as their texts differ.  Which of
  two texts comes first is known where they begin to differ.

  Key definitions include:
    * `Value.TextsAscend`

  Key theorems include:
    * `Value.textsAscend_sortedBy`
    * `Value.TextsAscend.eq_of_perm`
    * `Value.sortedBy_eq_iff`
    * `Value.sort_eq_of_textsAscend`
-/

------------------------------------------------------------
-- The Order of Texts
------------------------------------------------------------

namespace FactBase

namespace Value

open Sorting

/- The code points of a text. -/
def codePoints (s : String) : List Nat :=
  s.toList.map Char.toNat

/- Texts with the same code points are equal. -/
theorem codePoints_inj
    {s t : String}
    (h : codePoints s = codePoints t) : s = t :=
  String.toList_inj.mp
    (List.map_injective_iff.mpr
      (fun _ _ hSame => Char.toNat_inj.mp hSame) h)

instance : Std.TransCmp compareTexts where
  eq_swap := by
    intro s t
    exact
      @Std.OrientedCmp.eq_swap (List Nat) compare _
        (codePoints s) (codePoints t)
  isLE_trans := by
    intro s t u
    exact
      @Std.TransCmp.isLE_trans (List Nat) compare _
        (codePoints s) (codePoints t) (codePoints u)

instance : Std.LawfulEqCmp compareTexts where
  eq_of_compare h :=
    codePoints_inj (Std.LawfulEqCmp.eq_of_compare h)

/- What does not come after a text is before it or with it. -/
theorem isLE_compareTexts_iff {s t : String} :
    (compareTexts s t).isLE = true ↔
      (compareTexts t s == .lt) = false := by
  rw [@Std.OrientedCmp.eq_swap String compareTexts _ t]
  cases compareTexts s t <;> decide

------------------------------------------------------------
-- Lists that Go On
------------------------------------------------------------

/- A number that both lists start with does not matter. -/
theorem compare_cons_self
    (x : Nat)
    (xs ys : List Nat) :
    compare (x :: xs) (x :: ys) = compare xs ys := by
  have hStep :
      compare (x :: xs) (x :: ys)
        = (compare x x).then (compare xs ys) :=
    List.compare_cons_cons
  rw [hStep, Nat.compare_eq_eq.mpr rfl]
  rfl

/-
  Where neither of two lists goes on where the other one ends,
  what follows them does not matter.
-/
theorem compare_append
    {xs ys : List Nat}
    (hLeft : ¬xs <+: ys)
    (hRight : ¬ys <+: xs)
    (as bs : List Nat) :
    compare (xs ++ as) (ys ++ bs) = compare xs ys := by
  induction xs generalizing ys with
  | nil => exact absurd List.nil_prefix hLeft
  | cons x xs ih =>
      cases ys with
      | nil => exact absurd List.nil_prefix hRight
      | cons y ys =>
          by_cases hEq : x = y
          · subst hEq
            rw [List.prefix_cons_inj] at hLeft hRight
            rw [List.cons_append, List.cons_append,
              compare_cons_self, compare_cons_self,
              ih hLeft hRight]
          · have hCons :
                ∀ vs ws : List Nat,
                  compare (x :: vs) (y :: ws)
                    = (compare x y).then (compare vs ws) :=
              fun vs ws => List.compare_cons_cons
            rw [List.cons_append, List.cons_append, hCons, hCons]
            cases hOrder : compare x y with
            | eq =>
                exact
                  absurd (Std.LawfulEqCmp.eq_of_compare hOrder)
                    hEq
            | _ => rfl

/-
  Where one of two lists goes on with a number above `sep`,
  but the other with `sep`, it comes later, as it does where
  the other does not go on.
-/
theorem compare_append_cons
    {sep n : Nat}
    (h : sep < n)
    (xs as bs : List Nat) :
    compare (xs ++ sep :: as) (xs ++ n :: bs) = .lt
      ∧ compare xs (xs ++ n :: bs) = .lt := by
  induction xs with
  | nil =>
      have hStep :
          compare (sep :: as) (n :: bs)
            = (compare sep n).then (compare as bs) :=
        List.compare_cons_cons
      rw [List.nil_append, List.nil_append, hStep,
        Nat.compare_eq_lt.mpr h]
      exact ⟨rfl, rfl⟩
  | cons x xs ih =>
      rw [List.cons_append, List.cons_append, compare_cons_self,
        compare_cons_self]
      exact ih

------------------------------------------------------------
-- Sorting by Texts
------------------------------------------------------------

variable {α ε : Type}
variable {key : α → String}
variable {xs ys : List α}

/- The texts of a list ascend. -/
def TextsAscend
    (key : α → String)
    (xs : List α) : Prop :=
  xs.Pairwise
    (fun x y => (compareTexts (key x) (key y)).isLE = true)

/- Sorting by texts keeps all elements. -/
theorem sortedBy_perm
    (key : α → String)
    (xs : List α) : (sortedBy key xs).Perm xs := by
  have h :=
    (List.mergeSort_perm (xs.map (fun x => (key x, x)))
      (fun p q => compareTexts p.1 q.1 != .gt)).map Prod.snd
  rw [List.map_map] at h
  exact h.trans (List.Perm.of_eq (List.map_id xs))

/- Sorting by texts makes them ascend. -/
theorem textsAscend_sortedBy
    (key : α → String)
    (xs : List α) : TextsAscend key (sortedBy key xs) := by
  have hLe :
      ∀ p q : String × α,
        (compareTexts p.1 q.1 != .gt) = true ↔
          (compareTexts p.1 q.1).isLE = true := by
    intro p q
    cases compareTexts p.1 q.1 <;> decide
  have hSorted :=
    @List.pairwise_mergeSort (String × α)
      (fun p q => compareTexts p.1 q.1 != .gt)
      (fun a b c hab hbc =>
        (hLe a c).mpr
          (Std.TransCmp.isLE_trans ((hLe a b).mp hab)
            ((hLe b c).mp hbc)))
      (fun a b => by
        rw [Bool.or_eq_true, hLe, hLe, isLE_compareTexts_iff]
        cases compareTexts b.1 a.1 <;> decide)
      (xs.map (fun x => (key x, x)))
  refine List.pairwise_map.mpr (hSorted.imp_of_mem ?_)
  intro p q hp hq h
  rw [List.mem_mergeSort] at hp hq
  rcases List.mem_map.mp hp with ⟨x, -, rfl⟩
  rcases List.mem_map.mp hq with ⟨y, -, rfl⟩
  exact (hLe _ _).mp h

/- Only one order of elements with distinct texts ascends. -/
theorem TextsAscend.eq_of_perm
    (hXs : TextsAscend key xs)
    (hYs : TextsAscend key ys)
    (hDistinct : (xs.map key).Nodup)
    (hPerm : xs.Perm ys) : xs = ys := by
  refine List.Perm.eq_of_pairwise ?_ hXs hYs hPerm
  intro x y hx hy hxy hyx
  refine List.inj_on_of_nodup_map hDistinct hx
    (hPerm.mem_iff.mpr hy) ?_
  exact Std.LawfulEqCmp.eq_of_compare
    (Std.OrientedCmp.isLE_antisymm hxy hyx)

/- Lists are sorted alike if they hold the same elements. -/
theorem sortedBy_eq_iff
    (hDistinct : (xs.map key).Nodup) :
    sortedBy key xs = sortedBy key ys ↔ xs.Perm ys := by
  constructor
  · intro h
    exact (sortedBy_perm key xs).symm.trans
      (h ▸ sortedBy_perm key ys)
  · intro h
    refine
      (textsAscend_sortedBy key xs).eq_of_perm
        (textsAscend_sortedBy key ys) ?_ ?_
    · exact
        ((sortedBy_perm key xs).map key).nodup_iff.mpr hDistinct
    · exact (sortedBy_perm key xs).trans
        (h.trans (sortedBy_perm key ys).symm)

/- A test that asks which text is less is an order. -/
theorem orders_of_compareTexts
    {P : α → Prop}
    {less : α → α → Except ε Bool}
    (h :
      ∀ {x y}, P x → P y →
        less x y = .ok (compareTexts (key x) (key y) == .lt)) :
    Orders P
      (fun x y => compareTexts (key x) (key y) == .lt) less where
  answers := h
  asymm := by
    intro x y _ _ hxy
    rw [beq_iff_eq] at hxy
    rw [@Std.OrientedCmp.eq_swap String compareTexts, hxy]
    rfl
  trans := by
    intro x y z _ _ _ hyx hzy
    rw [← isLE_compareTexts_iff] at hyx hzy ⊢
    exact Std.TransCmp.isLE_trans hyx hzy

/- Sorting by such a test gives the one order that ascends. -/
theorem sort_eq_of_textsAscend
    (key : α → String)
    {P : α → Prop}
    {less : α → α → Except ε Bool}
    (h :
      ∀ {x y}, P x → P y →
        less x y = .ok (compareTexts (key x) (key y) == .lt))
    (hXs : ∀ x ∈ xs, P x)
    (hDistinct : (xs.map key).Nodup)
    (hYs : TextsAscend key ys)
    (hPerm : ys.Perm xs) : sort less xs = .ok ys := by
  rcases sort_ascends (orders_of_compareTexts h) hXs with
    ⟨out, hOut, hOutPerm, hUp⟩
  have hAscend : TextsAscend key out :=
    hUp.imp (fun hLe => isLE_compareTexts_iff.mpr hLe)
  rw [hOut, hAscend.eq_of_perm hYs
    ((hOutPerm.map key).nodup_iff.mpr hDistinct)
    (hOutPerm.trans hPerm.symm)]

end Value

end FactBase
