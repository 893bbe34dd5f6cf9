import FactBase.Fault
import FactBase.Value.Table

/-
  This file defines query terms.  A text that starts with the
  sigil `?` names a variable, and a variable whose name ends
  in `*` is a wildcard; every other value is a literal.  A
  wrapped literal stays one whatever it holds.

  Key definitions include:
    * `Term`
    * `Term.ofValue`
    * `Term.varNamed`
    * `Term.token`
    * `Value.isVariable`
    * `Value.isWildcard`
    * `Value.flatten`
    * `Value.leaves`
-/

------------------------------------------------------------
-- Variables
------------------------------------------------------------

namespace FactBase

/- The character that starts the name of a variable. -/
def sigil : Char := '?'

/- The character that ends the name of a wildcard. -/
def wildcardMark : Char := '*'

/- The text starts with the sigil. -/
def startsWithSigil (s : String) : Bool :=
  s.toList.head? == some sigil

/- The text ends with the mark of wildcards. -/
def endsWithMark (s : String) : Bool :=
  s.toList.getLast? == some wildcardMark

/- A variable's name without the sigil. -/
def labelOf (name : String) : String :=
  String.ofList (name.toList.drop 1)

/- A name without the sigil starts with anything. -/
theorem toList_labelOf (name : String) :
    (labelOf name).toList = name.toList.drop 1 := by
  simp [labelOf]

namespace Value

/- The name of a variable, as an object or as a text. -/
def variableName? : Value → Option String
  | .var name => some name
  | .wildcard name => some name
  | .str s => if startsWithSigil s then some s else none
  | _ => none

/- The value stands for a variable. -/
def isVariable (v : Value) : Bool :=
  v.variableName?.isSome

/- The value stands for a variable that is a wildcard. -/
def isWildcard (v : Value) : Bool :=
  v.variableName?.any endsWithMark

end Value

------------------------------------------------------------
-- Terms
------------------------------------------------------------

/- What a value in a query stands for. -/
inductive Term where
  | var (name : String)
  | wildcard (name : String)
  | lit (value : Value)

namespace Term

/- Classify a value. -/
def ofValue (v : Value) : Term :=
  match v with
  | .lit w => .lit w
  | v =>
      match v.variableName? with
      | some name =>
          if endsWithMark name then .wildcard name
          else .var name
      | none => .lit v

/- A term as a value of its own. -/
def toValue : Term → Value
  | .var name => .var name
  | .wildcard name => .wildcard name
  | .lit v => .lit v

/- A variable of a given name, which starts with the sigil. -/
def varNamed (name : Value) : Outcome Term :=
  match name with
  | .str s =>
      if startsWithSigil s then .ok (.var s)
      else .error (.shape (.variableName name))
  | _ => .error (.shape (.variableName name))

/-
  A wildcard of a given name, which also ends with the mark.
-/
def wildcardNamed (name : Value) : Outcome Term :=
  match name with
  | .str s =>
      if !startsWithSigil s then
        .error (.shape (.variableName name))
      else if !endsWithMark s then
        .error (.shape (.wildcardName s))
      else .ok (.wildcard s)
  | _ => .error (.shape (.variableName name))

/- The name of a variable of either sort. -/
def name? : Term → Option String
  | .var name => some name
  | .wildcard name => some name
  | .lit _ => none

/- The label of a variable: its name without the sigil. -/
def label? (t : Term) : Option String :=
  t.name?.map labelOf

/- The fields of a term. -/
def fields : Term → Value
  | .var name =>
      Value.record [("kind", .str "var"), ("name", .str name)]
  | .wildcard name =>
      Value.record
        [("kind", .str "wildcard"), ("name", .str name)]
  | .lit v =>
      Value.record [("kind", .str "lit"), ("value", v)]

end Term

namespace Value

/-
  The token that an engine receives for a value: variables by
  name, literals by value.  A literal that looks like a
  variable stays wrapped, so that the engine can tell them
  apart.
-/
def token : Value → Value
  | .var name => .str name
  | .wildcard name => .str name
  | .lit v => if v.isVariable then .lit v else v
  | v => v

end Value

/- The token of a term. -/
def Term.token (t : Term) : Value :=
  t.toValue.token

/- The label of a value that stands for a variable. -/
def Value.label (v : Value) : Outcome String :=
  match (Term.ofValue v).label? with
  | some label => .ok label
  | none => .error (.shape (.unlabeled v))

/- Classifying a term's own value gives the term back. -/
theorem Term.ofValue_toValue_lit (v : Value) :
    Term.ofValue (Term.toValue (.lit v)) = .lit v := rfl

------------------------------------------------------------
-- Leaves
------------------------------------------------------------

namespace Value

mutual

/- The leaves of nested sequences, from left to right. -/
def leaves : Value → List Value
  | .list items => leavesOf items
  | .tuple items => leavesOf items
  | v => [v]

/- The leaves of all items. -/
def leavesOf : List Value → List Value
  | [] => []
  | v :: vs => leaves v ++ leavesOf vs

end

/- The size of an appended list. -/
theorem sizeOf_append (xs ys : List Value) :
    sizeOf (xs ++ ys) + 1 = sizeOf xs + sizeOf ys := by
  induction xs with
  | nil => simp; omega
  | cons x xs ih => simp; omega

/-
  Collect the leaves of pending items, with those of nested
  sequences put in front of the rest.
-/
def flattenPending : List Value → List Value
  | [] => []
  | .list items :: rest =>
      have := sizeOf_append items rest
      flattenPending (items ++ rest)
  | .tuple items :: rest =>
      have := sizeOf_append items rest
      flattenPending (items ++ rest)
  | v :: rest => v :: flattenPending rest
termination_by pending => sizeOf pending
decreasing_by
  all_goals simp_wf
  all_goals omega

/- The leaves of a value, in order. -/
def flatten (v : Value) : List Value :=
  flattenPending [v]

end Value

end FactBase
