import FactBase.Query.Term

/-
  This file turns clause maps into clauses.  A clause map
  names an entity under `db/id`, and each of its other
  entries is one clause about that entity, in order.

  Key definitions include:
    * `Clause`
    * `Clause.ofMap`
    * `Clause.ofMaps`
    * `Clause.attributes`
-/

------------------------------------------------------------
-- Clauses
------------------------------------------------------------

namespace FactBase

/- A statement that an entity has a value for an attribute. -/
structure Clause where
  entity : Term
  attr : Term
  value : Term

namespace Clause

/- The key of the entity in a clause map. -/
def entityKey : String := "db/id"

/- A clause as a tuple of terms. -/
def toValue (c : Clause) : Value :=
  .tuple
    [c.entity.toValue, c.attr.toValue, c.value.toValue]

/- The key of an entry is the key of the entity. -/
def isEntityKey (v : Value) : Bool :=
  (Value.str entityKey).same v

/- The clauses of a map, given its entity. -/
def ofEntries
    (entity : Term)
    (entries : List (Value × Value)) : List Clause :=
  (entries.filter (fun e => !isEntityKey e.1)).map
    (fun e =>
      { entity := entity
        attr := Term.ofValue e.1
        value := Term.ofValue e.2 })

/- The clauses of the map at a position. -/
def ofMap
    (index : Nat)
    (v : Value) : Outcome (List Clause) :=
  match v with
  | .map entries =>
      match Value.field? entries entityKey with
      | some entity =>
          .ok (ofEntries (Term.ofValue entity) entries)
      | none => .error (.shape (.clauseWithoutEntity index))
  | v => .error (.shape (.clauseNotMap index v.kind))

/- The clauses of the maps from a position on. -/
def ofMapsFrom :
    Nat → List Value → Outcome (List Clause)
  | _, [] => .ok []
  | i, v :: vs => do
      let clauses ← ofMap i v
      return clauses ++ (← ofMapsFrom (i + 1) vs)

/-
  The clauses of a section, which must be a non-empty
  sequence of clause maps.
-/
def ofMaps (v : Value) : Outcome (List Clause) :=
  match v.sequence? with
  | none => .error (.shape .noClauses)
  | some [] => .error (.shape .noClauses)
  | some maps => ofMapsFrom 0 maps

/- The attribute that a clause names by a constant text. -/
def attribute? (c : Clause) : Option String :=
  match c.attr with
  | .lit (.str s) => some s
  | _ => none

/-
  The attributes that clauses name, in order of their first
  occurrence.
-/
def attributes (cs : List Clause) : List String :=
  (cs.filterMap attribute?).eraseDups

end Clause

end FactBase
