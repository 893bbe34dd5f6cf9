import FactBase.Fault
import FactBase.Value.Table
import FactBase.Attribute.Schema
import FactBase.Fact.EntityId

/-
  This file defines how a database is looked up: entities by
  id, by ident or by the value of an attribute, attributes by
  ident, and partitions by name.

  Key definitions include:
    * `Database.identOf`
    * `Database.schemaOf?`
    * `Database.installed`
    * `Database.resolve`
    * `Database.factsOf`
    * `Database.partitionOf`
    * `Database.entityIdAt`
-/

------------------------------------------------------------
-- Attributes and Idents
------------------------------------------------------------

namespace FactBase

/- Look up a value that must be able to be a key. -/
def Table.seek
    {α : Type}
    (key : Value)
    (table : List (Value × α)) : Outcome (Option α) :=
  if key.hashable then .ok (Table.find? key table)
  else .error .wrongKind

/- An installed attribute with its entity id. -/
structure Installed where
  eid : Int
  schema : Schema

namespace Database

/- The first ident of an entity. -/
def identOf
    (db : Database)
    (eid : Value) : Option Value :=
  (db.idents.find? (fun entry => eid.isInt entry.2)).map
    Prod.fst

/- The definition of the attribute with an entity id. -/
def schemaOf?
    (db : Database)
    (eid : Int) : Option Schema :=
  Table.find? (.int eid) db.attributes

/- The attribute is installed and its values are entities. -/
def isRef
    (db : Database)
    (attr : Int) : Bool :=
  (db.schemaOf? attr).any Schema.isRef

/-
  The attribute is installed and its values are parts of the
  entity.
-/
def isComponent
    (db : Database)
    (attr : Int) : Bool :=
  (db.schemaOf? attr).any (fun s => s.component.truthy)

/- The installed attribute that an ident names. -/
def installed
    (db : Database)
    (ident : Value) : Outcome Installed := do
  let unknown : Fault := .engine (.unknownAttribute ident)
  let some eid ← Table.seek ident db.idents | throw unknown
  let some schema := db.schemaOf? eid | throw unknown
  return { eid := eid, schema := schema }

------------------------------------------------------------
-- Entities
------------------------------------------------------------

/- The first entity with a value for an attribute. -/
def entityWith?
    (db : Database)
    (attr : Int)
    (v : Value) : Outcome (Option Int) := do
  let found ← db.datoms.findM? (fun d =>
    if d.attr == attr then d.value.equals v else .ok false)
  return found.map DatomOf.entity

/-
  The entity that a specification names: an id stands for
  itself, a text is an ident, and a pair of an attribute and
  a value is looked up among the facts.
-/
def resolve
    (db : Database)
    (spec : Value) : Outcome (Option Int) :=
  match spec with
  | .int eid => .ok (some eid)
  | .str _ => .ok (Table.find? spec db.idents)
  | spec =>
      match spec.sequence? with
      | some [attr, v] => do
          let attr ← db.installed attr
          db.entityWith? attr.eid v
      | _ => .ok none

/- The facts about an entity. -/
def factsOf
    (db : Database)
    (eid : Value) : List Datom :=
  db.datoms.filter (fun d => eid.isInt d.entity)

------------------------------------------------------------
-- Partitions
------------------------------------------------------------

/- The position of the first value that is the same. -/
def positionOf?
    (v : Value)
    (items : List Value) : Option Nat :=
  items.findIdx? (fun x => x.same v)

/-
  The partition at an index.  Negative indexes count from the
  end of the list.
-/
def partitionAt
    (db : Database)
    (index : Int)
    (eid : Value) : Outcome Value :=
  let count := db.partitions.length
  let index := if index < 0 then index + count else index
  if index < 0 then .error (.mishap .outOfRange)
  else
    match db.partitions[index.toNat]? with
    | some partition => .ok partition
    | none => .error (.engine (.outsidePartitions eid))

/- The partition that an entity id lies in. -/
def partitionOf
    (db : Database)
    (eid : Value) : Outcome Value :=
  match eid.int? with
  | some n => db.partitionAt (EntityId.partitionIndex n) eid
  | none => .error .wrongKind

/- The entity id with a serial number in a partition. -/
def entityIdAt
    (db : Database)
    (partition serial : Value) : Outcome Int :=
  match positionOf? partition db.partitions with
  | none => .error (.engine (.unknownPartition partition))
  | some index =>
      match serial.int? with
      | some n => .ok (EntityId.inPartition index n)
      | none => .error .wrongKind

end Database

end FactBase
