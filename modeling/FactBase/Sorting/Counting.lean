import FactBase.Sorting.Search
import FactBase.Sorting.Attempt

/-
  This file proves that both searches count the leading
  elements that go, wherever they look first.

  Key theorems include:
    * `Sorting.halve_eq`
    * `Sorting.gallop_eq`
    * `Sorting.filter_eq_takeWhile_of_falls`
    * `Sorting.filter_eq_dropWhile_of_falls`
-/

------------------------------------------------------------
-- Elements that Go
------------------------------------------------------------

namespace FactBase

namespace Sorting

variable {α ε : Type}

/- An element goes only if all elements before it go. -/
def Falls
    (p : α → Bool)
    (xs : List α) : Prop :=
  xs.Pairwise (fun x y => p y = true → p x = true)

/- What goes at a place goes before that place. -/
theorem all_take_of_falls
    {p : α → Bool}
    {xs : List α}
    {i : Nat}
    {x : α}
    (hFalls : Falls p xs)
    (hGet : xs[i]? = some x)
    (hGoes : p x = true) :
    ∀ y ∈ xs.take (i + 1), p y = true := by
  rcases List.getElem?_eq_some_iff.mp hGet with ⟨hLt, hEq⟩
  intro y hMem
  rcases List.getElem_of_mem hMem with ⟨j, hj, rfl⟩
  rw [List.length_take] at hj
  rw [List.getElem_take]
  by_cases h : j = i
  · subst h
    rwa [hEq]
  · refine List.pairwise_iff_getElem.mp hFalls j i _ hLt
      (by omega) ?_
    rwa [hEq]

/- The search for the place goes on behind what goes. -/
theorem takeWhile_of_goes
    {p : α → Bool}
    {xs : List α}
    {i : Nat}
    {x : α}
    (hFalls : Falls p xs)
    (hGet : xs[i]? = some x)
    (hGoes : p x = true) :
    xs.takeWhile p =
      xs.take (i + 1) ++ (xs.drop (i + 1)).takeWhile p := by
  have hAll := all_take_of_falls hFalls hGet hGoes
  rw [← List.takeWhile_append_of_pos hAll,
    List.take_append_drop]

/- The search goes on in front of what does not go. -/
theorem takeWhile_of_stays
    {p : α → Bool}
    {xs : List α}
    {i : Nat}
    {x : α}
    (hGet : xs[i]? = some x)
    (hStays : p x = false) :
    xs.takeWhile p = (xs.take i).takeWhile p := by
  rcases List.getElem?_eq_some_iff.mp hGet with ⟨hLt, hEq⟩
  have hDrop : (xs.drop i).takeWhile p = [] := by
    rw [List.drop_eq_getElem_cons hLt, hEq,
      List.takeWhile_cons_of_neg (by simp [hStays])]
  conv => lhs; rw [← List.take_append_drop i xs]
  rw [List.takeWhile_append, hDrop]
  split
  · next hAll =>
      rw [List.append_nil]
      exact ((List.takeWhile_prefix p).eq_of_length hAll).symm
  · rfl

------------------------------------------------------------
-- Searches
------------------------------------------------------------

/- Halving counts the leading elements that go. -/
theorem halve_eq
    {d : Direction}
    {goes : α → Except ε Bool}
    {p : α → Bool}
    {xs : List α}
    (hGoes : ∀ x ∈ xs, goes x = .ok (p x))
    (hFalls : Falls p xs) :
    halve d goes xs = .ok (xs.takeWhile p).length := by
  fun_induction halve d goes xs with
  | case1 xs hNone =>
      have hLength := List.getElem?_eq_none_iff.mp hNone
      by_cases h : 0 < xs.length
      · have := d.middle_lt h
        omega
      · have hNil : xs = [] :=
          List.eq_nil_of_length_eq_zero (by omega)
        subst hNil
        rfl
  | case2 xs x hMiddle i ihDrop ihTake =>
      have hMem := List.mem_of_getElem? hMiddle
      rw [hGoes x hMem, ok_bind]
      by_cases hx : p x = true
      · rw [if_pos hx, ihDrop
          (fun y hy => hGoes y (List.mem_of_mem_drop hy))
          (hFalls.drop), ok_bind,
          takeWhile_of_goes hFalls hMiddle hx,
          List.length_append, List.length_take]
        have hLt := (List.getElem?_eq_some_iff.mp hMiddle).1
        have hMin : min (i + 1) xs.length = i + 1 := by omega
        rw [hMin]
        rfl
      · rw [if_neg hx, ihTake
          (fun y hy => hGoes y (List.mem_of_mem_take hy))
          (hFalls.take),
          takeWhile_of_stays hMiddle (by simpa using hx)]

/- The count goes on behind what is known to go. -/
theorem length_takeWhile_of_known
    {p : α → Bool}
    {known : Nat}
    {xs : List α}
    (hKnown : ∀ x ∈ xs.take known, p x = true)
    (hLength : known ≤ xs.length) :
    (xs.takeWhile p).length =
      known + ((xs.drop known).takeWhile p).length := by
  conv => lhs; rw [← List.take_append_drop known xs]
  rw [List.takeWhile_append_of_pos hKnown,
    List.length_append, List.length_take]
  omega

/- Leaps count the leading elements that go. -/
theorem gallopFrom_eq
    {d : Direction}
    {goes : α → Except ε Bool}
    {p : α → Bool}
    {known : Nat}
    {xs : List α}
    (hGoes : ∀ x ∈ xs, goes x = .ok (p x))
    (hFalls : Falls p xs)
    (hKnown : ∀ x ∈ xs.take known, p x = true)
    (hLength : known ≤ xs.length) :
    gallopFrom d goes known xs
      = .ok (xs.takeWhile p).length := by
  fun_induction gallopFrom d goes known xs with
  | case1 known next hNone =>
      rw [halve_eq
        (fun y hy => hGoes y (List.mem_of_mem_drop hy))
        hFalls.drop, ok_bind,
        length_takeWhile_of_known hKnown hLength]
      rfl
  | case2 known next x hNext ih =>
      have hLt := (List.getElem?_eq_some_iff.mp hNext).1
      have hMem := List.mem_of_getElem? hNext
      rw [hGoes x hMem, ok_bind]
      by_cases hx : p x = true
      · rw [if_pos hx]
        exact ih (all_take_of_falls hFalls hNext hx) hLt
      · have hTake :
            (xs.take next).take known = xs.take known := by
          rw [List.take_take]
          congr 1
          omega
        have hWindow :
            ∀ y ∈ (xs.take next).take known, p y = true := by
          rwa [hTake]
        rw [if_neg hx]
        dsimp only
        rw [halve_eq
          (fun y hy => hGoes y
            (List.mem_of_mem_take (List.mem_of_mem_drop hy)))
          (hFalls.take.drop), ok_bind,
          takeWhile_of_stays hNext (by simpa using hx),
          length_takeWhile_of_known hWindow
            (by rw [List.length_take]; omega)]
        rfl

/- Leaps count the leading elements that go. -/
theorem gallop_eq
    {d : Direction}
    {goes : α → Except ε Bool}
    {p : α → Bool}
    {xs : List α}
    (hGoes : ∀ x ∈ xs, goes x = .ok (p x))
    (hFalls : Falls p xs) :
    gallop d goes xs = .ok (xs.takeWhile p).length :=
  gallopFrom_eq hGoes hFalls (by simp) (Nat.zero_le _)

------------------------------------------------------------
-- Parts
------------------------------------------------------------

/- The part that a count takes is what goes. -/
theorem take_length_takeWhile
    (p : α → Bool)
    (xs : List α) :
    xs.take (xs.takeWhile p).length = xs.takeWhile p :=
  List.prefix_iff_eq_take.mp (List.takeWhile_prefix p) |>.symm

/- The part that a count leaves starts with what stays. -/
theorem drop_length_takeWhile
    (p : α → Bool)
    (xs : List α) :
    xs.drop (xs.takeWhile p).length = xs.dropWhile p := by
  have hAll : xs.takeWhile p ++ xs.dropWhile p = xs :=
    List.takeWhile_append_dropWhile
  calc
    xs.drop (xs.takeWhile p).length
      = (xs.takeWhile p ++ xs.dropWhile p).drop
          (xs.takeWhile p).length := by rw [hAll]
    _ = xs.dropWhile p := List.drop_left

/- What a count takes goes. -/
theorem goes_of_mem_takeWhile
    {p : α → Bool}
    {x : α}
    {xs : List α}
    (h : x ∈ xs.takeWhile p) :
    p x = true :=
  List.all_eq_true.mp List.all_takeWhile x h

/- Where what goes ends, nothing goes. -/
theorem all_dropWhile_of_falls
    {p : α → Bool}
    {xs : List α}
    (hFalls : Falls p xs) :
    ∀ x ∈ xs.dropWhile p, p x = false := by
  induction xs with
  | nil => simp
  | cons y ys ih =>
      by_cases hy : p y = true
      · rw [List.dropWhile_cons_of_pos hy]
        exact ih hFalls.tail
      · rw [List.dropWhile_cons_of_neg hy]
        intro x hx
        have hHead := List.pairwise_cons.mp hFalls
        rcases List.mem_cons.mp hx with rfl | hx
        · simpa using hy
        · have := hHead.1 x hx
          by_cases h : p x = true
          · exact absurd (this h) hy
          · simpa using h

/- What goes is a run at the front. -/
theorem filter_eq_takeWhile_of_falls
    {p : α → Bool}
    {xs : List α}
    (hFalls : Falls p xs) : xs.filter p = xs.takeWhile p := by
  have hGo : (xs.takeWhile p).filter p = xs.takeWhile p :=
    List.filter_eq_self.mpr (fun _ => goes_of_mem_takeWhile)
  have hStay : (xs.dropWhile p).filter p = [] := by
    rw [List.filter_eq_nil_iff]
    intro x hx
    rw [all_dropWhile_of_falls hFalls x hx]
    exact Bool.false_ne_true
  calc
    xs.filter p
      = (xs.takeWhile p ++ xs.dropWhile p).filter p := by
          rw [List.takeWhile_append_dropWhile]
    _ = xs.takeWhile p := by
          rw [List.filter_append, hGo, hStay, List.append_nil]

/- What stays is all that is left behind it. -/
theorem filter_eq_dropWhile_of_falls
    {p : α → Bool}
    {xs : List α}
    (hFalls : Falls p xs) :
    xs.filter (fun x => !p x) = xs.dropWhile p := by
  have hGo : (xs.takeWhile p).filter (fun x => !p x) = [] := by
    rw [List.filter_eq_nil_iff]
    intro x hx
    rw [goes_of_mem_takeWhile hx]
    decide
  have hStay :
      (xs.dropWhile p).filter (fun x => !p x)
        = xs.dropWhile p := by
    rw [List.filter_eq_self]
    intro x hx
    rw [all_dropWhile_of_falls hFalls x hx]
    rfl
  calc
    xs.filter (fun x => !p x)
      = (xs.takeWhile p ++ xs.dropWhile p).filter
          (fun x => !p x) := by
          rw [List.takeWhile_append_dropWhile]
    _ = xs.dropWhile p := by
          rw [List.filter_append, hGo, hStay, List.nil_append]

end Sorting

end FactBase
