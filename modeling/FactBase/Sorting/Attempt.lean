/-
  This file gathers what holds of steps that may fail, one
  after the other.

  Key theorems include:
    * `Sorting.ok_bind`
    * `Sorting.bind_eq_ok`
    * `Sorting.pure_eq_ok`
    * `Sorting.exists_bind`
    * `Sorting.exists_bind_pure_iff`
-/

------------------------------------------------------------
-- Steps that May Fail
------------------------------------------------------------

namespace FactBase

namespace Sorting

variable {β γ ε : Type}

/- A step that succeeded hands on its result. -/
theorem ok_bind
    (b : β)
    (f : β → Except ε γ) :
    ((.ok b : Except ε β) >>= f) = f b := rfl

/- Two steps succeed when both do. -/
theorem bind_eq_ok
    {x : Except ε β}
    {f : β → Except ε γ}
    {c : γ} :
    (x >>= f) = .ok c ↔ ∃ b, x = .ok b ∧ f b = .ok c := by
  cases x <;> simp [bind, Except.bind]

/- A step that only returns succeeds with what it returns. -/
theorem pure_eq_ok
    {b c : β} :
    (pure b : Except ε β) = .ok c ↔ b = c := by
  simp [pure, Except.pure]

/- Two steps succeed when the second follows any result. -/
theorem exists_bind
    {x : Except ε β}
    {f : β → Except ε γ}
    (h : ∃ b, x = .ok b)
    (hNext : ∀ b, x = .ok b → ∃ c, f b = .ok c) :
    ∃ c, (x >>= f) = .ok c := by
  rcases h with ⟨b, hb⟩
  rw [hb]
  exact hNext b hb

/- A result that is only changed is there as before. -/
theorem exists_bind_pure_iff
    {x : Except ε β}
    {f : β → γ} :
    (∃ c, (x >>= fun b => pure (f b)) = .ok c)
      ↔ ∃ b, x = .ok b := by
  constructor
  · rintro ⟨c, h⟩
    rcases bind_eq_ok.mp h with ⟨b, hb, -⟩
    exact ⟨b, hb⟩
  · exact fun h => exists_bind h (fun _ _ => ⟨_, rfl⟩)

end Sorting

end FactBase
