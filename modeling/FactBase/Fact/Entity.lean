import FactBase.Fact.Database
import FactBase.Fact.Growth

/-
  This file defines the map of an entity from attributes to
  values.  An attribute that can have many values has their
  set.

  Key definitions include:
    * `Database.shown`
    * `Database.entityOf`
    * `Database.entity`
-/

------------------------------------------------------------
-- Entries
------------------------------------------------------------

namespace FactBase

namespace Database

/- The value of a fact as an entity shows it: references by ident. -/
def shown
    (db : Database)
    (schema : Schema)
    (d : Datom) : Held :=
  if schema.isRef then
    match db.identOf d.value with
    | some ident =>
        if ident.truthy then .fresh ident else .ofDatom d
    | none => .ofDatom d
  else .ofDatom d

/-
  Add a value to the set under a key.  A set that a fact
  holds is the set of that fact, which grows.
-/
def addToSet
    (key : String)
    (h : Held)
    (entries : List (Value × Shown)) :
    Gathering (List (Value × Shown)) :=
  let present := Table.find? (.str key) entries
  match present.getD (.fresh (.set [])) with
  | .one ⟨.set items, origin⟩ =>
      if h.value.hashable then
        match origin with
        | some origin => do
            Gathering.add origin (.set items) (.one h)
            return entries
        | none =>
            let grown := (Value.set items).adding h.value
            return Table.put (.str key) (.fresh grown) entries
      else throw .wrongKind
  | _ => throw (.mishap .missingMember)

/- Add one fact to the map of an entity. -/
def addFact
    (db : Database)
    (entries : List (Value × Shown))
    (d : Datom) : Gathering (List (Value × Shown)) :=
  match db.schemaOf? d.attr with
  | none => throw (.mishap .missingKey)
  | some schema =>
      let h := db.shown schema d
      if schema.many then
        addToSet schema.ident h entries
      else
        return Table.put (.str schema.ident) (.one h) entries

------------------------------------------------------------
-- Entities
------------------------------------------------------------

/- What the entity with an id shows. -/
def entityOf
    (db : Database)
    (eid : Int) : Gathering (List (Value × Shown)) :=
  (db.factsOf (.int eid)).foldlM db.addFact []

/- The map of the entity that a specification names. -/
def entity
    (db : Database)
    (spec : Value) : Gathering (List (Value × Value)) := do
  match ← Gathering.lift (db.resolve spec) with
  | none => return []
  | some eid => Gathering.lookThrough (← db.entityOf eid)

/- The map of an entity, with its id in front. -/
def entityWithId
    (db : Database)
    (spec : Value) : Gathering (List (Value × Value)) := do
  let eid? ← Gathering.lift (db.resolve spec)
  let id := (eid?.map Value.int).getD .null
  let entries ← db.entity spec
  return Table.putAll entries [(.str "db/id", id)]

end Database

end FactBase
