import FactBase.Answer.Assignment
import FactBase.Fact.Database

/-
  This file matches data patterns with the facts of a
  database.  What is known about a position narrows the
  facts; the facts that remain bind the variables.

  Key definitions include:
    * `Pattern`
    * `Constraint`
    * `Constraints`
    * `Database.entityConstraint`
    * `Database.attributeConstraint`
    * `Database.valueConstraint`
    * `Database.matching`
-/

------------------------------------------------------------
-- Patterns
------------------------------------------------------------

namespace FactBase

/- The tokens for the three positions of a fact. -/
structure Pattern where
  entity : Value
  attr : Value
  value : Value

namespace Pattern

/- A pattern whose missing positions match everything. -/
def ofItems (items : List Value) : Pattern where
  entity := items.getD 0 blankToken
  attr := items.getD 1 blankToken
  value := items.getD 2 blankToken

/- Bind the variables of a pattern by a fact. -/
def bind
    (p : Pattern)
    (σ : Assignment)
    (d : Datom) : Outcome (Option Assignment) := do
  let some σ ← σ.unify p.entity (.fresh (.int d.entity))
    | return none
  let some σ ← σ.unify p.attr (.fresh (.int d.attr))
    | return none
  σ.unify p.value (.ofDatom d)

end Pattern

------------------------------------------------------------
-- Constraints
------------------------------------------------------------

/- What is known about a position of a fact. -/
inductive Constraint where
  | free
  | only (v : Value)
  | never

namespace Constraint

/- The constraint lets a value through. -/
def admits : Constraint → Value → Outcome Bool
  | .free, _ => .ok true
  | .only v, w => w.equals v
  | .never, _ => .ok false

/- Only the entity with an id, or nothing without one. -/
def ofEntity : Option Int → Constraint
  | some eid => .only (.int eid)
  | none => .never

end Constraint

/- What is known about the three positions of a fact. -/
structure Constraints where
  entity : Constraint
  attr : Constraint
  value : Constraint

/-
  The constraints let a fact through.  The first position
  that does not fit settles it.
-/
def Constraints.admitFact
    (c : Constraints)
    (d : Datom) : Outcome Bool := do
  if ← c.entity.admits (.int d.entity) then
    if ← c.attr.admits (.int d.attr) then
      c.value.admits d.value
    else return false
  else return false

namespace Database

/-
  What is known about the entity of a fact.  A text that is
  neither a variable nor an ident of the database heads
  something else than a pattern.
-/
def entityConstraint
    (db : Database)
    (clause : List Value)
    (reading : Reading) : Outcome Constraint :=
  match reading with
  | .known v => do
      match v with
      | .str s =>
          if !startsWithSigil s
              && (Table.find? v db.idents).isNone then
            throw (.engine (.unknownEntity (.tuple clause)))
      | _ => pure ()
      return .ofEntity (← db.resolve v)
  | _ => .ok .free

/-
  What is known about the attribute of a fact, and its
  definition if it is known.
-/
def attributeConstraint
    (db : Database)
    (reading : Reading) :
    Outcome (Constraint × Option Schema) :=
  match reading with
  | .known (.str s) => do
      let attr ← db.installed (.str s)
      return (.only (.int attr.eid), some attr.schema)
  | .known v => do
      match ← Table.seek v db.attributes with
      | some schema => return (.only v, some schema)
      | none => return (.never, none)
  | _ => .ok (.free, none)

/-
  What is known about the value of a fact.  Where the
  attribute is known to refer to entities, the value may name
  one.
-/
def valueConstraint
    (db : Database)
    (schema : Option Schema)
    (reading : Reading) : Outcome Constraint :=
  match reading with
  | .known v =>
      if schema.any Schema.isRef && v.int?.isNone then do
        return .ofEntity (← db.resolve v)
      else
        .ok (.only v)
  | _ => .ok .free

------------------------------------------------------------
-- Matching
------------------------------------------------------------

/- What each fact that matches binds. -/
def bindings
    (db : Database)
    (p : Pattern)
    (σ : Assignment)
    (c : Constraints) : Outcome (List Assignment) := do
  let found ← db.datoms.mapM (fun d => do
    if ← c.admitFact d then p.bind σ d else return none)
  return found.filterMap id

/-
  The extensions of an assignment that match a pattern.  A
  position that nothing can match settles the answer before
  the later positions are looked at.
-/
def matching
    (db : Database)
    (clause : List Value)
    (σ : Assignment) : Outcome (List Assignment) := do
  let p := Pattern.ofItems clause
  match ← db.entityConstraint clause (σ.read p.entity) with
  | .never => return []
  | entity =>
      match ← db.attributeConstraint (σ.read p.attr) with
      | (.never, _) => return []
      | (attr, schema) =>
          let value ←
            db.valueConstraint schema (σ.read p.value)
          db.bindings p σ
            { entity := entity
              attr := attr
              value := value }

end Database

end FactBase
