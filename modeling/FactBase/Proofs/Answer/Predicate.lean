import FactBase.Answer.Predicate
import FactBase.Proofs.Outcome
import FactBase.Proofs.Value.Order

/-
  This file shows that predicates look at values only up to
  sameness: where a predicate has an answer, it has the same
  answer under an assignment of values that are the same.

  Key definitions include:
    * `Value.Alike`
    * `Assignment.Refines`

  Key theorems include:
    * `Predicate.holds_congr`
    * `Predicate.holdsAlong_congr`
    * `Assignment.satisfies_congr`
-/

------------------------------------------------------------
-- Relations between Arguments
------------------------------------------------------------

namespace FactBase

open Sorting

/- Two proper values are the same. -/
structure Value.Alike (v w : Value) : Prop where
  left : v.proper = true
  right : w.proper = true
  same : v.same w = true

namespace Value.Alike

variable {u v w : Value}

/- A proper value is like itself. -/
theorem refl (h : v.proper = true) : v.Alike v :=
  ⟨h, h, same_refl v⟩

/- Likeness can be read either way. -/
theorem symm (h : v.Alike w) : w.Alike v :=
  ⟨h.right, h.left, same_symm h.left h.same⟩

/- What is like the like is like. -/
theorem trans (h : u.Alike v) (h' : v.Alike w) : u.Alike w :=
  ⟨h.left, h'.right, same_trans h.same h'.same⟩

end Value.Alike

namespace Predicate

variable {p : Predicate}
variable {a a' b b' : Option Value}
variable {r : Bool}

/- Equality of arguments respects sameness. -/
private theorem equalArguments_congr
    (h : Option.Rel Value.Alike a a')
    (h' : Option.Rel Value.Alike b b') :
    equalArguments a b = equalArguments a' b' := by
  cases h with
  | none => cases h' <;> rfl
  | some hLeft =>
      cases h' with
      | none => rfl
      | some hRight =>
          simp only [equalArguments]
          rw [Value.equals?_congr hLeft.left hLeft.right
            hLeft.same hRight.left hRight.right hRight.same]

/- A relation between arguments respects sameness. -/
theorem holds_congr
    (h : Option.Rel Value.Alike a a')
    (h' : Option.Rel Value.Alike b b')
    (hOk : p.holds a b = .ok r) : p.holds a' b' = .ok r := by
  cases p with
  | compares c =>
      cases h with
      | none => cases hOk
      | some hLeft =>
          cases h' with
          | none => cases hOk
          | some hRight =>
              exact
                Value.compared_congr hLeft.left hLeft.right
                  hLeft.same hRight.left hRight.right
                  hRight.same hOk
  | equates =>
      simp only [holds] at hOk ⊢
      rw [← equalArguments_congr h h']
      exact hOk
  | separates =>
      simp only [holds] at hOk ⊢
      rw [← equalArguments_congr h h']
      exact hOk

/- A chain of relations respects sameness. -/
theorem holdsAlong_congr
    {args args' : List (Option Value)}
    (h : List.Forall₂ (Option.Rel Value.Alike) args args')
    (hOk : p.holdsAlong args = .ok r) :
    p.holdsAlong args' = .ok r := by
  induction h with
  | nil => exact hOk
  | cons hFirst hRest ih =>
      cases hRest with
      | nil => exact hOk
      | cons hSecond _ =>
          rw [holdsAlong] at hOk ⊢
          rcases bind_eq_ok.mp hOk with ⟨found, hFound, hLast⟩
          rw [holds_congr hFirst hSecond hFound, ok_bind]
          cases found with
          | false => exact hLast
          | true => exact ih hLast

end Predicate

------------------------------------------------------------
-- Relations between Assignments
------------------------------------------------------------

namespace Assignment

/-
  What one assignment binds, another binds to the same, and
  the values are proper.
-/
def Refines (σ τ : Assignment) : Prop :=
  ∀ x v, σ.get? x = some v →
    ∃ w, τ.get? x = some w ∧ v.Alike w

variable {σ τ : Assignment}

/- An argument that has a value keeps it up to sameness. -/
theorem argument_congr
    (h : σ.Refines τ)
    {token : Value}
    (hToken : token.proper = true)
    {arg : Option Value}
    (hArg : σ.argument token = .ok arg) :
    ∃ arg', τ.argument token = .ok arg'
      ∧ Option.Rel Value.Alike arg arg' := by
  unfold argument at hArg ⊢
  cases token with
  | str s =>
      unfold read at hArg ⊢
      cases hBlank : s == "_" with
      | true =>
          simp only [hBlank, if_true, Except.ok.injEq] at hArg ⊢
          exact ⟨none, rfl, hArg ▸ .none⟩
      | false =>
          cases hName : startsWithSigil s with
          | false =>
              simp only [hBlank, hName, Bool.false_eq_true,
                if_false, Except.ok.injEq] at hArg ⊢
              refine ⟨some (.str s), rfl, ?_⟩
              exact hArg ▸ .some (.refl hToken)
          | true =>
              simp only [hBlank, hName, Bool.false_eq_true,
                if_false, if_true] at hArg ⊢
              cases hValue : σ.get? s with
              | none =>
                  rw [hValue] at hArg
                  cases hArg
              | some v =>
                  rcases h s v hValue with ⟨w, hOther, hAlike⟩
                  rw [hValue] at hArg
                  simp only [Except.ok.injEq] at hArg
                  simp only [hOther]
                  exact ⟨some w, rfl, hArg ▸ .some hAlike⟩
  | lit v =>
      have hProper : v.proper = true :=
        Value.proper_of_mem_parts hToken
          (List.mem_singleton.mpr rfl)
      simp only [read, Except.ok.injEq] at hArg ⊢
      exact ⟨some v, rfl, hArg ▸ .some (.refl hProper)⟩
  | _ =>
      simp only [read, Except.ok.injEq] at hArg ⊢
      exact ⟨_, rfl, hArg ▸ .some (.refl hToken)⟩

/- The arguments of a predicate keep their values. -/
private theorem arguments_congr
    (h : σ.Refines τ)
    {tokens : List Value}
    (hTokens : ∀ token ∈ tokens, token.proper = true)
    {args : List (Option Value)}
    (hArgs : tokens.mapM σ.argument = .ok args) :
    ∃ args', tokens.mapM τ.argument = .ok args'
      ∧ List.Forall₂ (Option.Rel Value.Alike) args args' := by
  induction tokens generalizing args with
  | nil =>
      rw [List.mapM_nil, pure_eq_ok] at hArgs
      exact ⟨[], rfl, hArgs ▸ .nil⟩
  | cons token tokens ih =>
      rw [List.forall_mem_cons] at hTokens
      rw [List.mapM_cons] at hArgs
      rcases bind_eq_ok.mp hArgs with ⟨arg, hArg, hRest⟩
      rcases bind_eq_ok.mp hRest with ⟨rest, hOthers, hEq⟩
      rw [pure_eq_ok] at hEq
      subst hEq
      rcases argument_congr h hTokens.1 hArg with
        ⟨arg', hArg', hAlike⟩
      rcases ih hTokens.2 hOthers with ⟨rest', hRest', hAll⟩
      refine ⟨arg' :: rest', ?_, .cons hAlike hAll⟩
      rw [List.mapM_cons, hArg', ok_bind, hRest', ok_bind]
      rfl


/- A predicate that has an answer keeps it. -/
theorem satisfies_congr
    (h : σ.Refines τ)
    {expr : Value}
    (hExpr : expr.proper = true)
    {b : Bool}
    (hOk : σ.satisfies expr = .ok b) :
    τ.satisfies expr = .ok b := by
  unfold satisfies at hOk ⊢
  cases hItems : expr.sequence? with
  | none =>
      rw [hItems] at hOk
      cases hOk
  | some items =>
      rw [hItems] at hOk
      cases items with
      | nil => cases hOk
      | cons op tokens =>
          simp only at hOk ⊢
          cases hPredicate : op.str?.bind Predicate.ofName? with
          | none =>
              rw [hPredicate] at hOk
              simp only at hOk
              split at hOk <;> cases hOk
          | some p =>
              rw [hPredicate] at hOk
              simp only at hOk ⊢
              have hTokens :
                  ∀ token ∈ tokens, token.proper = true :=
                fun token hToken =>
                  Value.proper_of_mem_sequence hExpr hItems
                    (List.mem_cons_of_mem op hToken)
              rcases bind_eq_ok.mp hOk with
                ⟨args, hArgs, hRest⟩
              rcases arguments_congr h hTokens hArgs with
                ⟨args', hArgs', hAlike⟩
              rw [hArgs', ok_bind, ← hAlike.length_eq]
              split at hRest
              next => cases hRest
              next hMany =>
                rw [if_neg hMany]
                cases hHolds : p.holdsAlong args with
                | ok found =>
                    rw [hHolds] at hRest
                    rw [Predicate.holdsAlong_congr hAlike hHolds]
                    exact hRest
                | error reason =>
                    rw [hHolds] at hRest
                    cases reason <;> cases hRest

end Assignment

end FactBase
