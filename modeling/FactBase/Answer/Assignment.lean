import FactBase.Query.Term
import FactBase.Fact.Growth

/-
  This file defines assignments of values to variables, and
  what a token of a query stands for under one.

  Key definitions include:
    * `Assignment`
    * `Assignment.held?`
    * `Assignment.get?`
    * `Assignment.set`
    * `Reading`
    * `Assignment.read`
    * `Assignment.unify`
-/

------------------------------------------------------------
-- Assignments
------------------------------------------------------------

namespace FactBase

/-
  The values of the variables that are bound so far, which
  facts may hold.  The last binding of a variable counts and
  stands first.
-/
abbrev Assignment := List (String × Held)

namespace Assignment

/- What a variable is bound to. -/
def held?
    (σ : Assignment)
    (x : String) : Option Held :=
  σ.lookup x

/- The value of a variable, if it is bound. -/
def get?
    (σ : Assignment)
    (x : String) : Option Value :=
  (σ.held? x).map Held.value

/- Bind a variable, whatever it was bound to before. -/
def set
    (σ : Assignment)
    (x : String)
    (h : Held) : Assignment :=
  (x, h) :: σ

/- A variable that was bound has that value. -/
theorem get?_set_self
    (σ : Assignment)
    (x : String)
    (h : Held) :
    (σ.set x h).get? x = some h.value := by
  simp [get?, held?, set]

/- Binding a variable leaves the others alone. -/
theorem get?_set_of_ne
    (σ : Assignment)
    (v : Held)
    {x y : String}
    (h : y ≠ x) :
    (σ.set x v).get? y = σ.get? y := by
  simp [get?, held?, set, List.lookup_cons, beq_false_of_ne h]

end Assignment

------------------------------------------------------------
-- Tokens under an Assignment
------------------------------------------------------------

/- The token that matches everything. -/
def blankToken : Value := .str "_"

/- What a token stands for. -/
inductive Reading where
  | blank
  | unbound (name : String)
  | known (v : Value)

namespace Assignment

/-
  What a token stands for: a wrapped literal for its value, a
  variable for what it is bound to, all else for itself.
-/
def read (σ : Assignment) : Value → Reading
  | .lit v => .known v
  | .str s =>
      if s == "_" then .blank
      else if startsWithSigil s then
        match σ.get? s with
        | some v => .known v
        | none => .unbound s
      else .known (.str s)
  | v => .known v

/-
  Match a token with a value.  A variable is bound to the
  value, and a value that it had must be equal to it.
-/
def unify
    (σ : Assignment)
    (token : Value)
    (h : Held) : Outcome (Option Assignment) :=
  match token with
  | .str s =>
      if startsWithSigil s then
        match σ.get? s with
        | some w => do
            if ← w.equals h.value then return some (σ.set s h)
            else return none
        | none => .ok (some (σ.set s h))
      else .ok (some σ)
  | _ => .ok (some σ)

end Assignment

end FactBase
