import FactBase.Answer.Assignment

/-
  This file defines the predicates of queries.  A predicate
  takes two or more arguments and holds if it holds between
  each argument and the next.

  Key definitions include:
    * `Predicate`
    * `Predicate.holds`
    * `Predicate.holdsAlong`
    * `Assignment.satisfies`
-/

------------------------------------------------------------
-- Predicates
------------------------------------------------------------

namespace FactBase

/- A relation between two arguments. -/
inductive Predicate where
  | compares (comparison : Comparison)
  | equates
  | separates
deriving DecidableEq, Repr

namespace Predicate

/- The predicate that a name stands for. -/
def ofName? : String → Option Predicate
  | "<" => some (.compares .less)
  | ">" => some (.compares .greater)
  | "<=" => some (.compares .atMost)
  | ">=" => some (.compares .atLeast)
  | "=" => some .equates
  | "!=" => some .separates
  | "not=" => some .separates
  | _ => none

------------------------------------------------------------
-- Arguments
------------------------------------------------------------

/-
  Whether two arguments are equal.  A blank has no value and
  is equal to another blank only.
-/
def equalArguments :
    Option Value → Option Value → Except Unordered Bool
  | some a, some b =>
      match a.equals? b with
      | some b => .ok b
      | none => .error .endless
  | none, none => .ok true
  | _, _ => .ok false

/- The name of an argument's kind. -/
def argumentKind : Option Value → String
  | some v => v.qualifiedKind
  | none => "object"

/- Whether a comparison holds between two arguments. -/
def comparedArguments
    (c : Comparison)
    (a b : Option Value) : Except Unordered Bool :=
  match a, b with
  | some a, some b => Value.compared c a b
  | a, b =>
      .error (.incomparable
        { comparison := c
          left := argumentKind a
          right := argumentKind b })

/- Whether a predicate holds between two arguments. -/
def holds
    (p : Predicate)
    (a b : Option Value) : Except Unordered Bool :=
  match p with
  | .compares c => comparedArguments c a b
  | .equates => equalArguments a b
  | .separates => (equalArguments a b).map (!·)

/-
  Whether a predicate holds between each argument and the
  next.  The first pair that fails settles it.
-/
def holdsAlong
    (p : Predicate) :
    List (Option Value) → Except Unordered Bool
  | a :: b :: rest => do
      if ← p.holds a b then holdsAlong p (b :: rest)
      else return false
  | _ => .ok true

end Predicate

------------------------------------------------------------
-- Satisfaction
------------------------------------------------------------

namespace Assignment

/- An argument of a predicate, which must have a value. -/
def argument
    (σ : Assignment)
    (token : Value) : Outcome (Option Value) :=
  match σ.read token with
  | .known v => .ok (some v)
  | .blank => .ok none
  | .unbound name => .error (.engine (.unboundArgument name))

/- Whether an expression holds under an assignment. -/
def satisfies
    (σ : Assignment)
    (expr : Value) : Outcome Bool :=
  match expr.sequence? with
  | some (op :: args) =>
      match op.str?.bind Predicate.ofName? with
      | some p => do
          let args ← args.mapM σ.argument
          if args.length < 2 then
            throw (.engine (.fewArguments expr))
          else
            match p.holdsAlong args with
            | .ok b => return b
            | .error (.incomparable reason) =>
                throw (.engine (.incomparable expr reason))
            | .error .endless => throw (.mishap .endless)
      | none =>
          if op.hashable then
            .error (.engine (.unsupportedPredicate expr))
          else .error .wrongKind
  | _ => .error (.engine (.unsupportedPredicate expr))

end Assignment

end FactBase
