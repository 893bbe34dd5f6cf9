import FactBase.Value.Basic

/-
  This file defines equality of values.  Numbers of all kinds
  are equal by magnitude, maps and sets whatever their order.
  An undefined number equals nothing, but a container still
  recognises the very one that it holds.  Lists that stand
  inside themselves are told apart by their origins here.

  Key definitions include:
    * `Value.same`
    * `Value.equal`
    * `Value.hashable`
    * `Value.memberOf`
    * `Value.distinct`
-/

------------------------------------------------------------
-- Numbers
------------------------------------------------------------

namespace FactBase

namespace Value

/- The magnitude of a number; truth values count as 0 and 1. -/
def magnitude? : Value → Option Magnitude
  | .bool b =>
      some (.exact (Dyadic.ofInt (if b then 1 else 0)))
  | .int n => some (.exact (Dyadic.ofInt n))
  | .float x => some x.magnitude
  | _ => none

/- A value that is a number of the given magnitude. -/
def hasMagnitude
    (m : Magnitude)
    (v : Value) : Bool :=
  match v.magnitude? with
  | some n => m.equal n
  | none => false

/- A number that equals the integer `n`. -/
def isInt
    (n : Int)
    (v : Value) : Bool :=
  match v with
  | .int k => n == k
  | v => v.hasMagnitude (.exact (Dyadic.ofInt n))

------------------------------------------------------------
-- Sameness
------------------------------------------------------------

mutual

/-
  Whether a container takes the second value for the first.
-/
def same : Value → Value → Bool
  | .null, b => match b with | .null => true | _ => false
  | .bool x, b => b.isInt (if x then 1 else 0)
  | .int n, b => b.isInt n
  | .float x, b =>
      match b with
      | .float y => x == y || x.magnitude.equal y.magnitude
      | b => b.hasMagnitude x.magnitude
  | .str s, b => match b with | .str t => s == t | _ => false
  | .bytes xs, b =>
      match b with | .bytes ys => xs == ys | _ => false
  | .instant m, b =>
      match b with | .instant n => m == n | _ => false
  | .list xs, b =>
      match b with | .list ys => sameItems xs ys | _ => false
  | .tuple xs, b =>
      match b with | .tuple ys => sameItems xs ys | _ => false
  | .map xs, b =>
      match b with
      | .map ys => xs.length == ys.length && sameEntries xs ys
      | _ => false
  | .set xs, b =>
      match b with
      | .set ys => xs.length == ys.length && sameMembers xs ys
      | .frozenset ys =>
          xs.length == ys.length && sameMembers xs ys
      | _ => false
  | .frozenset xs, b =>
      match b with
      | .set ys => xs.length == ys.length && sameMembers xs ys
      | .frozenset ys =>
          xs.length == ys.length && sameMembers xs ys
      | _ => false
  | .var x, b => match b with | .var y => x == y | _ => false
  | .wildcard x, b =>
      match b with | .wildcard y => x == y | _ => false
  | .lit v, b => match b with | .lit w => same v w | _ => false
  | .tempid p n, b =>
      match b with
      | .tempid q m => p == q && n == m
      | _ => false
  | .schema s, b =>
      match b with | .schema t => sameSchema s t | _ => false
  | .context c, b =>
      match b with | .context d => sameContext c d | _ => false
  | .database d, b =>
      match b with
      | .database e => d.basis == e.basis
      | _ => false
  | .cyclic o _, b =>
      match b with | .cyclic p _ => o == p | _ => false
  | .enclosing o, b =>
      match b with | .enclosing p => o == p | _ => false

/- Two sequences agree item by item. -/
def sameItems : List Value → List Value → Bool
  | [], ys => ys.isEmpty
  | x :: xs, ys =>
      match ys with
      | [] => false
      | y :: ys => same x y && sameItems xs ys

/- Every item of the first list occurs in the second. -/
def sameMembers : List Value → List Value → Bool
  | [], _ => true
  | x :: xs, ys => ys.any (same x) && sameMembers xs ys

/- Every entry of the first map occurs in the second. -/
def sameEntries :
    List (Value × Value) → List (Value × Value) → Bool
  | [], _ => true
  | (k, v) :: xs, ys =>
      ys.any (fun y => same k y.1 && same v y.2)
        && sameEntries xs ys

/- Two attribute definitions agree field by field. -/
def sameSchema : SchemaOf Value → SchemaOf Value → Bool
  | ⟨ident, valueType, cardinality, unique,
      index, fulltext, component, noHistory, doc⟩, t =>
      ident == t.ident && valueType == t.valueType
        && cardinality == t.cardinality && unique == t.unique
        && same index t.index && same fulltext t.fulltext
        && same component t.component
        && same noHistory t.noHistory && doc == t.doc

/- Two query contexts agree section by section. -/
def sameContext : ContextOf Value → ContextOf Value → Bool
  | ⟨bindings, projection, clauses, preds, rules⟩, d =>
      same bindings d.bindings
        && same projection d.projection
        && same clauses d.clauses
        && same preds d.preds && same rules d.rules

end

------------------------------------------------------------
-- Equality
------------------------------------------------------------

/- The value is an undefined number. -/
def isUndefined : Value → Bool
  | .float (.undefined _) => true
  | _ => false

/- Two values are equal. -/
def equal (a b : Value) : Bool :=
  !a.isUndefined && same a b

/- An undefined number does not even equal itself. -/
theorem equal_undefined (n : Nat) :
    equal (.float (.undefined n)) (.float (.undefined n))
      = false := rfl

------------------------------------------------------------
-- Membership
------------------------------------------------------------

mutual

/-
  Whether a value may be a map key or a member of a set:
  nothing that could still change may be in it.
-/
def hashable : Value → Bool
  | .list _ => false
  | .map _ => false
  | .set _ => false
  | .cyclic _ _ => false
  | .enclosing _ => false
  | .tuple items => hashableItems items
  | .lit v => hashable v
  | .schema s => hashableSchema s
  | .context c => hashableContext c
  | _ => true

/- All items may be members. -/
def hashableItems : List Value → Bool
  | [] => true
  | v :: vs => hashable v && hashableItems vs

/- All switches may be members. -/
def hashableSchema : SchemaOf Value → Bool
  | ⟨_, _, _, _, index, fulltext, component, noHistory, _⟩ =>
      hashable index && hashable fulltext
        && hashable component && hashable noHistory

/- All sections may be members. -/
def hashableContext : ContextOf Value → Bool
  | ⟨bindings, projection, clauses, preds, rules⟩ =>
      hashable bindings && hashable projection
        && hashable clauses && hashable preds
        && hashable rules

end

/- The value occurs among the items. -/
def memberOf
    (v : Value)
    (items : List Value) : Bool :=
  items.any (fun x => same x v)

/- Keep the first of all items that are the same. -/
def distinct (items : List Value) : List Value :=
  items.foldl
    (fun kept v => if v.memberOf kept then kept else kept ++ [v])
    []

end Value

end FactBase
