import Mathlib.Data.List.Forall2
import FactBase.Fault
import FactBase.Sorting.Attempt

/-
  This file gathers what holds of steps that may fail when
  they are carried out along a list: what a success as a
  whole says of the single steps, that two walks come to
  results alike where their steps do, and that a walk fails
  in the ways its steps do.

  Key definitions include:
    * `Outcome.holds`
    * `Outcome.Alike`
    * `Outcome.FailsIn`

  Key theorems include:
    * `Outcome.mapM_eq_ok`
    * `Outcome.exists_mapM_eq_ok_iff`
    * `Outcome.eq_filter_of_filterM`
    * `Outcome.forall_of_anyM_eq_false`
    * `Outcome.foldlM_invariant`
    * `Outcome.exists_foldlM_eq_ok_iff`
    * `Outcome.foldlM_of_keeps`
    * `Outcome.foldlM_congr`
    * `Outcome.Alike.bind`
    * `Outcome.Alike.common`
    * `Outcome.alike_foldlM`
    * `Outcome.alike_filterM`
    * `Outcome.FailsIn.bind`
-/

------------------------------------------------------------
-- Steps along a List
------------------------------------------------------------

namespace FactBase

namespace Outcome

variable {α β ε : Type}

open Sorting

/- A walk succeeds when every step does. -/
theorem mapM_eq_ok
    {f : α → Except ε β}
    {xs : List α}
    {ys : List β} :
    xs.mapM f = .ok ys ↔
      List.Forall₂ (fun x y => f x = .ok y) xs ys := by
  induction xs generalizing ys with
  | nil =>
      rw [List.mapM_nil, pure_eq_ok,
        List.forall₂_nil_left_iff]
      exact eq_comm
  | cons x xs ih =>
      rw [List.mapM_cons, bind_eq_ok,
        List.forall₂_cons_left_iff]
      constructor
      · rintro ⟨y, hHead, hRest⟩
        rcases bind_eq_ok.mp hRest with ⟨zs, hTail, hEq⟩
        exact
          ⟨y, zs, hHead, ih.mp hTail, (pure_eq_ok.mp hEq).symm⟩
      · rintro ⟨y, zs, hHead, hTail, rfl⟩
        refine ⟨y, hHead, bind_eq_ok.mpr ⟨zs, ?_, rfl⟩⟩
        exact ih.mpr hTail

/- Steps whose results are known give these together. -/
theorem mapM_eq_ok_map
    {f : α → Except ε β}
    {g : α → β}
    {xs : List α}
    (h : ∀ x ∈ xs, f x = .ok (g x)) :
    xs.mapM f = .ok (xs.map g) := by
  rw [mapM_eq_ok, List.forall₂_map_right_iff]
  exact List.forall₂_same.mpr h

/- So whether a walk succeeds is a matter of single steps. -/
theorem exists_mapM_eq_ok_iff
    {f : α → Except ε β}
    {xs : List α} :
    (∃ ys, xs.mapM f = .ok ys) ↔
      ∀ x ∈ xs, ∃ y, f x = .ok y := by
  induction xs with
  | nil => simp [pure_eq_ok]
  | cons x xs ih =>
      rw [List.forall_mem_cons, ← ih, List.mapM_cons]
      constructor
      · rintro ⟨_, h⟩
        rcases bind_eq_ok.mp h with ⟨y, hHead, h⟩
        rcases bind_eq_ok.mp h with ⟨ys, hTail, -⟩
        exact ⟨⟨y, hHead⟩, ys, hTail⟩
      · rintro ⟨hHead, hTail⟩
        refine exists_bind hHead fun y _ => ?_
        exact exists_bind hTail fun ys _ => ⟨_, rfl⟩

/- A run that succeeds has a result. -/
theorem exists_ok_of_isSome
    {σ : Type}
    (run : Except ε α × σ)
    (h : run.1.toOption.isSome = true) :
    ∃ a after, run = (.ok a, after) := by
  rcases run with ⟨fault | a, after⟩
  · cases h
  · exact ⟨a, after, rfl⟩

/- The test succeeded, and its answer was yes. -/
def holds : Except ε Bool → Bool
  | .ok b => b
  | .error _ => false

/- A test that succeeded holds if its answer is yes. -/
@[simp]
theorem holds_ok (b : Bool) :
    holds (.ok b : Except ε Bool) = b := rfl

/- A test holds when it succeeded with a yes. -/
theorem holds_iff {x : Except ε Bool} :
    holds x = true ↔ x = .ok true := by
  cases x <;> simp [holds]

private theorem eq_of_filterAuxM
    {p : α → Except ε Bool}
    {xs kept ys : List α}
    (h : List.filterAuxM p xs kept = .ok ys) :
    ys = (xs.filter (fun x => holds (p x))).reverse ++ kept
      ∧ ∀ x ∈ xs, ∃ b, p x = .ok b := by
  induction xs generalizing kept with
  | nil =>
      rw [List.filterAuxM, pure_eq_ok] at h
      simp [h]
  | cons x xs ih =>
      rw [List.filterAuxM] at h
      rcases bind_eq_ok.mp h with ⟨b, hHead, hTail⟩
      rcases ih hTail with ⟨hEq, hAll⟩
      constructor
      · cases b <;> simp [hEq, hHead]
      · intro z hz
        rcases List.mem_cons.mp hz with rfl | hz
        · exact ⟨b, hHead⟩
        · exact hAll z hz

/- What a test lets through is where it holds. -/
theorem eq_filter_of_filterM
    {p : α → Except ε Bool}
    {xs ys : List α}
    (h : xs.filterM p = .ok ys) :
    ys = xs.filter (fun x => holds (p x))
      ∧ ∀ x ∈ xs, ∃ b, p x = .ok b := by
  unfold List.filterM at h
  rcases bind_eq_ok.mp h with ⟨zs, hAux, hEq⟩
  rcases eq_of_filterAuxM hAux with ⟨rfl, hAll⟩
  have hRev := pure_eq_ok.mp hEq
  refine ⟨?_, hAll⟩
  simpa using hRev.symm

private theorem filterAuxM_eq_ok
    {p : α → Except ε Bool}
    {q : α → Bool}
    {xs : List α}
    (h : ∀ x ∈ xs, p x = .ok (q x))
    (kept : List α) :
    List.filterAuxM p xs kept
      = .ok ((xs.filter q).reverse ++ kept) := by
  induction xs generalizing kept with
  | nil => rfl
  | cons x xs ih =>
      rw [List.forall_mem_cons] at h
      rw [List.filterAuxM, h.1, ok_bind, ih h.2]
      cases hx : q x <;> simp [hx]

/- A test that always succeeds lets through what passes. -/
theorem filterM_eq_ok
    {p : α → Except ε Bool}
    {q : α → Bool}
    {xs : List α}
    (h : ∀ x ∈ xs, p x = .ok (q x)) :
    xs.filterM p = .ok (xs.filter q) := by
  unfold List.filterM
  rw [filterAuxM_eq_ok h, ok_bind, List.append_nil,
    List.reverse_reverse]
  rfl

/- A test that is passed nowhere fails at every item. -/
theorem forall_of_anyM_eq_false
    {p : α → Except ε Bool}
    {xs : List α}
    (h : xs.anyM p = .ok false) :
    ∀ x ∈ xs, p x = .ok false := by
  induction xs with
  | nil => simp
  | cons x xs ih =>
      rw [List.anyM] at h
      rcases bind_eq_ok.mp h with ⟨b, hHead, hTail⟩
      cases b with
      | false =>
          intro z hz
          rcases List.mem_cons.mp hz with rfl | hz
          · exact hHead
          · exact ih hTail z hz
      | true =>
          simp [pure, Except.pure] at hTail

/- What holds of the result of an attempt can be decided. -/
instance decidableForallOk
    {x : Except ε α}
    {P : α → Prop}
    [∀ a, Decidable (P a)] :
    Decidable (∀ a, x = .ok a → P a) :=
  match x with
  | .ok a => decidable_of_iff (P a) (by simp)
  | .error _ => isTrue (by simp)

/- So can whether there is one of which it holds. -/
instance decidableExistsOk
    {x : Except ε α}
    {P : α → Prop}
    [∀ a, Decidable (P a)] :
    Decidable (∃ a, x = .ok a ∧ P a) :=
  match x with
  | .ok a => decidable_of_iff (P a) (by simp)
  | .error _ => isFalse (by simp)

/- What every step keeps, the whole walk keeps. -/
theorem foldlM_invariant
    {f : β → α → Except ε β}
    (P : β → Prop)
    {xs : List α}
    (hStep : ∀ x ∈ xs, ∀ s t, f s x = .ok t → P s → P t)
    {s t : β}
    (h : xs.foldlM f s = .ok t)
    (hStart : P s) : P t := by
  induction xs generalizing s with
  | nil =>
      rw [List.foldlM_nil, pure_eq_ok] at h
      exact h ▸ hStart
  | cons x xs ih =>
      rw [List.foldlM_cons] at h
      rcases bind_eq_ok.mp h with ⟨u, hHead, hTail⟩
      apply ih (fun y hy => hStep y (List.mem_cons_of_mem x hy))
        hTail
      exact hStep x List.mem_cons_self s u hHead hStart

/-
  What the step for one item brings about and the others
  keep holds after the whole walk.
-/
theorem foldlM_of_mem
    {f : β → α → Except ε β}
    (P : β → Prop)
    {xs : List α}
    {x : α}
    (hx : x ∈ xs)
    (hMakes : ∀ s t, f s x = .ok t → P t)
    (hKeeps : ∀ y ∈ xs, ∀ s t, f s y = .ok t → P s → P t)
    {s t : β}
    (h : xs.foldlM f s = .ok t) : P t := by
  induction xs generalizing s with
  | nil => cases hx
  | cons y xs ih =>
      rw [List.forall_mem_cons] at hKeeps
      rw [List.foldlM_cons] at h
      rcases bind_eq_ok.mp h with ⟨u, hHead, hTail⟩
      rcases List.mem_cons.mp hx with rfl | hx
      · exact
          foldlM_invariant P hKeeps.2 hTail (hMakes s u hHead)
      · exact ih hx hKeeps.2 hTail

/- In a walk that succeeds, the step for each item did. -/
theorem exists_step_of_foldlM
    {f : β → α → Except ε β}
    {xs : List α}
    {s t : β}
    (h : xs.foldlM f s = .ok t)
    {x : α}
    (hx : x ∈ xs) : ∃ u v, f u x = .ok v :=
  foldlM_of_mem (fun _ => ∃ u v, f u x = .ok v) hx
    (fun u v hStep => ⟨u, v, hStep⟩)
    (fun _ _ _ _ _ hSoFar => hSoFar) h

/- A walk succeeds where each item lets its step succeed. -/
theorem exists_foldlM_eq_ok_iff
    {f : β → α → Except ε β}
    {Q : α → Prop}
    {xs : List α}
    (h : ∀ x ∈ xs, ∀ s, (∃ t, f s x = .ok t) ↔ Q x)
    (s : β) :
    (∃ t, xs.foldlM f s = .ok t) ↔ ∀ x ∈ xs, Q x := by
  induction xs generalizing s with
  | nil => exact iff_of_true ⟨s, rfl⟩ (by simp)
  | cons x xs ih =>
      rw [List.forall_mem_cons] at h
      rw [List.foldlM_cons, List.forall_mem_cons, ← h.1 s]
      constructor
      · rintro ⟨t, hWalk⟩
        rcases bind_eq_ok.mp hWalk with ⟨u, hHead, hTail⟩
        exact ⟨⟨u, hHead⟩, (ih h.2 u).mp ⟨t, hTail⟩⟩
      · rintro ⟨⟨u, hHead⟩, hTail⟩
        rw [hHead, ok_bind]
        exact (ih h.2 u).mpr hTail

/- What follows a step matters only where the step succeeds. -/
theorem bind_congr_of_ok
    {x : Except ε α}
    {f g : α → Except ε β}
    (h : ∀ a, x = .ok a → f a = g a) :
    (x >>= f) = (x >>= g) := by
  cases x with
  | ok a => exact h a rfl
  | error fault => rfl

/- A walk whose steps change nothing changes nothing. -/
theorem foldlM_of_keeps
    {f : β → α → Except ε β}
    {xs : List α}
    (h : ∀ x ∈ xs, ∀ s, f s x = .ok s)
    (s : β) : xs.foldlM f s = .ok s := by
  induction xs with
  | nil => rfl
  | cons x xs ih =>
      rw [List.forall_mem_cons] at h
      rw [List.foldlM_cons, h.1, ok_bind, ih h.2]

/- Walks with the same steps are the same. -/
theorem foldlM_congr
    {f g : β → α → Except ε β}
    {xs : List α}
    (h : ∀ x ∈ xs, ∀ s, f s x = g s x)
    (s : β) : xs.foldlM f s = xs.foldlM g s := by
  induction xs generalizing s with
  | nil => rfl
  | cons x xs ih =>
      rw [List.forall_mem_cons] at h
      rw [List.foldlM_cons, List.foldlM_cons, h.1 s]
      exact bind_congr (fun t => ih h.2 t)

------------------------------------------------------------
-- Two Walks Side by Side
------------------------------------------------------------

/-
  Two outcomes that agree: both are the same failure, or both
  succeed with results that are related.
-/
inductive Alike
    {α β : Type}
    (R : α → β → Prop) : Outcome α → Outcome β → Prop where
  | ok
      {a : α}
      {b : β}
      (h : R a b) : Alike R (.ok a) (.ok b)
  | error (fault : Fault) : Alike R (.error fault) (.error fault)

section Alike

variable {α β γ δ : Type}
variable {R : α → β → Prop}
variable {S : γ → δ → Prop}

/- An outcome agrees with itself. -/
theorem alike_refl (x : Outcome α) : Alike Eq x x := by
  cases x with
  | ok a => exact .ok rfl
  | error fault => exact .error fault

/- Outcomes that agree in equal results are equal. -/
theorem Alike.eq
    {x y : Outcome α}
    (h : Alike Eq x y) : x = y := by
  cases h with
  | ok hEq => rw [hEq]
  | error fault => rfl

/- Outcomes agree if their results become the same. -/
theorem alike_of_map_eq
    {f : α → β}
    {x y : Outcome α}
    (h : x.map f = y.map f) :
    Alike (fun a b => f a = f b) x y := by
  cases x with
  | error fault =>
      cases y with
      | error other => exact Except.error.inj h ▸ .error fault
      | ok b => cases h
  | ok a =>
      cases y with
      | error other => cases h
      | ok b => exact .ok (Except.ok.inj h)

/- Results that are related are also related more loosely. -/
theorem Alike.mono
    {T : α → β → Prop}
    {x : Outcome α}
    {y : Outcome β}
    (h : Alike R x y)
    (hLooser : ∀ a b, R a b → T a b) : Alike T x y := by
  cases h with
  | ok hRelated => exact .ok (hLooser _ _ hRelated)
  | error fault => exact .error fault

/- One step after the other, on both sides. -/
theorem Alike.bind
    {x : Outcome α}
    {y : Outcome β}
    {f : α → Outcome γ}
    {g : β → Outcome δ}
    (h : Alike R x y)
    (hNext : ∀ a b, R a b → Alike S (f a) (g b)) :
    Alike S (x >>= f) (y >>= g) := by
  cases h with
  | ok hRelated => exact hNext _ _ hRelated
  | error fault => exact .error fault

/- The same step before both. -/
theorem alike_bind
    {x : Outcome α}
    {f : α → Outcome γ}
    {g : α → Outcome δ}
    (h : ∀ a, x = .ok a → Alike S (f a) (g a)) :
    Alike S (x >>= f) (x >>= g) := by
  cases x with
  | ok a => exact h a rfl
  | error fault => exact .error fault

/- Two outcomes that agree with a third one agree. -/
theorem Alike.common
    {T : β → γ → Prop}
    {S : α → γ → Prop}
    {x : Outcome α}
    {y : Outcome β}
    {z : Outcome γ}
    (h : Alike R x y)
    (h' : Alike S x z)
    (hBoth : ∀ a b c, R a b → S a c → T b c) :
    Alike T y z := by
  cases h with
  | ok hLeft =>
      cases h' with
      | ok hRight => exact .ok (hBoth _ _ _ hLeft hRight)
  | error fault =>
      cases h' with
      | error => exact .error fault

/- Related accumulators stay so along related lists. -/
theorem alike_foldlM
    {f : γ → α → Outcome γ}
    {g : δ → β → Outcome δ}
    {xs : List α}
    {ys : List β}
    (h : List.Forall₂ R xs ys)
    (hStep :
      ∀ x y, R x y → ∀ c d, S c d → Alike S (f c x) (g d y))
    {c : γ}
    {d : δ}
    (hStart : S c d) :
    Alike S (xs.foldlM f c) (ys.foldlM g d) := by
  induction h generalizing c d with
  | nil => exact .ok hStart
  | cons hHead _ ih =>
      rw [List.foldlM_cons, List.foldlM_cons]
      exact (hStep _ _ hHead _ _ hStart).bind (fun _ _ => ih)

/- Tests that agree along two lists find the same. -/
theorem anyM_congr
    {p : α → Outcome Bool}
    {q : β → Outcome Bool}
    {xs : List α}
    {ys : List β}
    (h : List.Forall₂ (fun x y => p x = q y) xs ys) :
    xs.anyM p = ys.anyM q := by
  induction h with
  | nil => rfl
  | cons hHead _ ih => rw [List.anyM, List.anyM, hHead, ih]

/- They also find related items first. -/
theorem alike_findM?
    {p : α → Outcome Bool}
    {q : β → Outcome Bool}
    {xs : List α}
    {ys : List β}
    (h : List.Forall₂ R xs ys)
    (hTest : ∀ x y, R x y → p x = q y) :
    Alike
      (Option.Rel (fun x y => R x y ∧ p x = .ok true))
      (xs.findM? p) (ys.findM? q) := by
  induction h with
  | nil => exact .ok .none
  | @cons x y _ _ hHead _ ih =>
      rw [List.findM?, List.findM?, ← hTest x y hHead]
      cases hx : p x with
      | error fault => exact .error fault
      | ok b =>
          cases b with
          | true => exact .ok (.some ⟨hHead, hx⟩)
          | false => exact ih

private theorem alike_filterAuxM
    {p : α → Outcome Bool}
    {q : β → Outcome Bool}
    {xs : List α}
    {ys : List β}
    (h : List.Forall₂ R xs ys)
    (hTest : ∀ x y, R x y → p x = q y)
    {kept : List α}
    {kept' : List β}
    (hKept :
      List.Forall₂ (fun x y => R x y ∧ p x = .ok true)
        kept kept') :
    Alike
      (List.Forall₂ (fun x y => R x y ∧ p x = .ok true))
      (List.filterAuxM p xs kept)
      (List.filterAuxM q ys kept') := by
  induction h generalizing kept kept' with
  | nil => exact .ok hKept
  | @cons x y _ _ hHead _ ih =>
      rw [List.filterAuxM, List.filterAuxM, ← hTest x y hHead]
      cases hx : p x with
      | error fault => exact .error fault
      | ok b =>
          cases b with
          | true => exact ih (.cons ⟨hHead, hx⟩ hKept)
          | false => exact ih hKept

/- They let related items through. -/
theorem alike_filterM
    {p : α → Outcome Bool}
    {q : β → Outcome Bool}
    {xs : List α}
    {ys : List β}
    (h : List.Forall₂ R xs ys)
    (hTest : ∀ x y, R x y → p x = q y) :
    Alike
      (List.Forall₂ (fun x y => R x y ∧ p x = .ok true))
      (xs.filterM p) (ys.filterM q) := by
  unfold List.filterM
  refine (alike_filterAuxM h hTest .nil).bind ?_
  intro kept kept' hKept
  exact .ok (List.rel_reverse hKept)

end Alike

/- A test lets related items through. -/
theorem forall₂_filter
    {α β : Type}
    {R : α → β → Prop}
    {p : α → Bool}
    {q : β → Bool}
    {xs : List α}
    {ys : List β}
    (h : List.Forall₂ R xs ys)
    (hTest : ∀ x y, R x y → p x = q y) :
    List.Forall₂ (fun x y => R x y ∧ p x = true)
      (xs.filter p) (ys.filter q) := by
  induction h with
  | nil => exact .nil
  | @cons x y _ _ hHead _ ih =>
      rw [List.filter_cons, List.filter_cons,
        ← hTest x y hHead]
      split
      next hx => exact .cons ⟨hHead, hx⟩ ih
      next => exact ih

------------------------------------------------------------
-- Sorts of Failures
------------------------------------------------------------

section FailsIn

variable {α β : Type}
variable {P : Fault → Prop}

/- If the outcome is a failure, its fault is of the sort. -/
def FailsIn
    (P : Fault → Prop)
    (x : Outcome α) : Prop :=
  ∀ fault, x = .error fault → P fault

/- What succeeds does not fail. -/
theorem failsIn_ok (a : α) :
    FailsIn P (.ok a : Outcome α) := nofun

/- A failure is of a sort if its fault is. -/
theorem failsIn_error
    {fault : Fault}
    (h : P fault) : FailsIn P (.error fault : Outcome α) := by
  rintro _ ⟨⟩
  exact h

/- Two steps fail where one of them does. -/
theorem FailsIn.bind
    {x : Outcome α}
    {f : α → Outcome β}
    (h : FailsIn P x)
    (hNext : ∀ a, x = .ok a → FailsIn P (f a)) :
    FailsIn P (x >>= f) := by
  cases x with
  | ok a => exact hNext a rfl
  | error fault => exact failsIn_error (h fault rfl)

/- A walk along a list fails where a step does. -/
theorem failsIn_foldlM
    {f : β → α → Outcome β}
    {xs : List α}
    (h : ∀ x ∈ xs, ∀ b, FailsIn P (f b x))
    (b : β) : FailsIn P (xs.foldlM f b) := by
  induction xs generalizing b with
  | nil => exact failsIn_ok b
  | cons x xs ih =>
      rw [List.forall_mem_cons] at h
      rw [List.foldlM_cons]
      exact (h.1 b).bind (fun c _ => ih h.2 c)

/- So does one that takes a step for each item. -/
theorem failsIn_mapM
    {f : α → Outcome β}
    {xs : List α}
    (h : ∀ x ∈ xs, FailsIn P (f x)) : FailsIn P (xs.mapM f) := by
  induction xs with
  | nil => exact failsIn_ok []
  | cons x xs ih =>
      rw [List.forall_mem_cons] at h
      rw [List.mapM_cons]
      refine h.1.bind fun y _ => ?_
      exact (ih h.2).bind (fun ys _ => failsIn_ok (y :: ys))

/- So does a search. -/
theorem failsIn_findM?
    {p : α → Outcome Bool}
    {xs : List α}
    (h : ∀ x ∈ xs, FailsIn P (p x)) :
    FailsIn P (xs.findM? p) := by
  induction xs with
  | nil => exact failsIn_ok none
  | cons x xs ih =>
      rw [List.forall_mem_cons] at h
      rw [List.findM?]
      refine h.1.bind fun b _ => ?_
      cases b with
      | true => exact failsIn_ok (some x)
      | false => exact ih h.2

private theorem failsIn_filterAuxM
    {p : α → Outcome Bool}
    {xs : List α}
    (h : ∀ x ∈ xs, FailsIn P (p x))
    (kept : List α) :
    FailsIn P (List.filterAuxM p xs kept) := by
  induction xs generalizing kept with
  | nil => exact failsIn_ok kept
  | cons x xs ih =>
      rw [List.forall_mem_cons] at h
      rw [List.filterAuxM]
      exact h.1.bind (fun _ _ => ih h.2 _)

/- So does a test of each item. -/
theorem failsIn_filterM
    {p : α → Outcome Bool}
    {xs : List α}
    (h : ∀ x ∈ xs, FailsIn P (p x)) :
    FailsIn P (xs.filterM p) := by
  unfold List.filterM
  refine (failsIn_filterAuxM h []).bind fun kept _ => ?_
  exact failsIn_ok kept.reverse

end FailsIn

end Outcome

end FactBase
