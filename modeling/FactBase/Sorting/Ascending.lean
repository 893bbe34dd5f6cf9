/-
  This file defines the orders by which lists are sorted, and
  lists that ascend in one.

  Key definitions include:
    * `Sorting.Orders`
    * `Sorting.Ascends`
-/

------------------------------------------------------------
-- Orders
------------------------------------------------------------

namespace FactBase

namespace Sorting

variable {α ε : Type}

/-
  A comparison that answers on all elements of a kind, and
  answers as a total order does.
-/
structure Orders
    (P : α → Prop)
    (lt : α → α → Bool)
    (less : α → α → Except ε Bool) : Prop where
  answers : ∀ {x y}, P x → P y → less x y = .ok (lt x y)
  asymm : ∀ {x y}, P x → P y → lt x y = true → lt y x = false
  trans : ∀ {x y z}, P x → P y → P z →
    lt y x = false → lt z y = false → lt z x = false

namespace Orders

variable {P : α → Prop}
variable {lt : α → α → Bool}
variable {less : α → α → Except ε Bool}

/- The opposite of an order is an order. -/
theorem flip
    (h : Orders P lt less) :
    Orders P (fun x y => lt y x) (fun x y => less y x) where
  answers hx hy := h.answers hy hx
  asymm hx hy := h.asymm hy hx
  trans hx hy hz hxy hyz := h.trans hz hy hx hyz hxy

/- What is below stays below something later. -/
theorem lt_of_lt_of_le
    (h : Orders P lt less)
    {x y z : α}
    (hx : P x) (hy : P y) (hz : P z)
    (hxy : lt x y = true)
    (hyz : lt z y = false) :
    lt x z = true := by
  by_cases hxz : lt x z = true
  · exact hxz
  · have hyx := h.trans hy hz hx hyz (by simpa using hxz)
    simp [hxy] at hyx

/- What is earlier than something below is below. -/
theorem lt_of_le_of_lt
    (h : Orders P lt less)
    {x y z : α}
    (hx : P x) (hy : P y) (hz : P z)
    (hxy : lt y x = false)
    (hyz : lt y z = true) :
    lt x z = true := by
  by_cases hxz : lt x z = true
  · exact hxz
  · have hzy := h.trans hz hx hy (by simpa using hxz) hxy
    simp [hyz] at hzy

end Orders

------------------------------------------------------------
-- Lists that Ascend
------------------------------------------------------------

/- No element of the list goes before an earlier one. -/
def Ascends
    (lt : α → α → Bool)
    (xs : List α) : Prop :=
  xs.Pairwise (fun x y => lt y x = false)

/- An element that is nowhere above a list may be its head. -/
theorem ascends_cons
    {lt : α → α → Bool}
    {x : α}
    {xs ys : List α}
    (hAscends : Ascends lt xs)
    (hPerm : xs.Perm ys)
    (hHead : ∀ y ∈ ys, lt y x = false) :
    Ascends lt (x :: xs) :=
  List.pairwise_cons.mpr
    ⟨fun y hy => hHead y (hPerm.mem_iff.mp hy), hAscends⟩

variable {P : α → Prop}
variable {lt : α → α → Bool}

/- The head of a list that ascends is above none of it. -/
theorem Ascends.head_le
    {less : α → α → Except ε Bool}
    (hOrder : Orders P lt less)
    {x : α}
    {xs : List α}
    (hUp : Ascends lt (x :: xs))
    (hx : P x) :
    ∀ y ∈ x :: xs, lt y x = false := by
  intro y hy
  rcases List.mem_cons.mp hy with rfl | hy
  · by_cases h : lt y y = true
    · exact hOrder.asymm hx hx h
    · simpa using h
  · exact (List.pairwise_cons.mp hUp).1 y hy

/- Elements that may stand before a head may be put there. -/
theorem Ascends.append_cons
    {less : α → α → Except ε Bool}
    (hOrder : Orders P lt less)
    {x : α}
    {xs ys : List α}
    (hXs : Ascends lt xs)
    (hYs : Ascends lt (x :: ys))
    (hP : ∀ y ∈ xs, P y)
    (hPx : ∀ y ∈ x :: ys, P y)
    (hLe : ∀ y ∈ xs, lt x y = false) :
    Ascends lt (xs ++ x :: ys) := by
  refine List.pairwise_append.mpr ⟨hXs, hYs, ?_⟩
  intro y hy z hz
  have hx := hPx x List.mem_cons_self
  exact hOrder.trans (hP y hy) hx (hPx z hz) (hLe y hy)
    (hYs.head_le hOrder hx z hz)

end Sorting

end FactBase
