import FactBase.Fact.Ledger
import FactBase.Fact.TempId

/-
  This file applies transaction data to the facts of a
  database and turns the outcome into the next database.

  Key definitions include:
    * `Working`
    * `Transacting`
    * `Transacting.entity`
    * `Transacting.values`
    * `Transacting.applyItem`
    * `Database.afterLog`
-/

------------------------------------------------------------
-- Transactions at Work
------------------------------------------------------------

namespace FactBase

/-
  The state of a transaction: the facts and their log, the
  entities of temporary ids, the ids still to give out, and
  the number of temporary ids drawn.
-/
structure Working where
  ledger : Ledger
  tempids : List (Value × Int)
  allocator : Allocator
  drawn : Nat

/- What a transaction starts from, and its own entity. -/
structure Ground where
  db : Database
  tx : Int

/-
  A step of a transaction.  The state outlives a failure,
  because ids that were taken stay taken.
-/
abbrev Transacting :=
  ReaderT Ground (ExceptT Fault (StateM Working))

/- The database with the facts as they are by now. -/
def Ground.current
    (g : Ground)
    (l : Ledger) : Database :=
  { g.db with datoms := l.datoms }

namespace Transacting

/- Take over an outcome. -/
def lift
    {α : Type}
    (outcome : Outcome α) : Transacting α :=
  (outcome : Except Fault α)

/- The installed attribute that an ident names. -/
def installed (ident : Value) : Transacting Installed := do
  lift ((← read).db.installed ident)

/- Change the facts. -/
def change (f : Ledger → Outcome Ledger) : Transacting Unit := do
  let ledger ← lift (f (← get).ledger)
  modify (fun w => { w with ledger := ledger })

------------------------------------------------------------
-- Entities and Values
------------------------------------------------------------

/- Take the next entity id of a partition. -/
def allocate (partition : Nat) : Transacting Int := do
  let w ← get
  set { w with allocator := w.allocator.take partition }
  return w.allocator.eid partition

/-
  The entity of a temporary id.  The first use takes a new
  entity id in the partition that the temporary id names.
-/
def entityOfTempid
    (id : Value)
    (partition : String) : Transacting Int := do
  match Table.find? id (← get).tempids with
  | some eid => return eid
  | none =>
      let name := Value.str partition
      let db := (← read).db
      match Database.positionOf? name db.partitions with
      | none => throw (.engine (.unknownPartition name))
      | some index =>
          let eid ← allocate index
          modify (fun w =>
            { w with tempids := Table.put id eid w.tempids })
          return eid

/- The entity that a specification names. -/
def entity (spec : Value) : Transacting Int := do
  match spec with
  | .tempid partition _ => entityOfTempid spec partition
  | spec =>
      let db := (← read).current (← get).ledger
      match ← lift (db.resolve spec) with
      | some eid => return eid
      | none => throw (.engine (.unresolved spec))

/-
  The values that a value stands for.  A list or a set gives
  its members where the attribute can have many values.
-/
def spread
    (schema : Schema)
    (v : Value) : List Value :=
  match schema.many, v with
  | true, .list items => items
  | true, .set items => items
  | true, .frozenset items => items
  | _, v => [v]

/- A reference: an entity id, or what names an entity. -/
def reference : Value → Transacting Value
  | .int eid => return .int eid
  | v => return .int (← entity v)

/- The values to store for an attribute. -/
def values
    (schema : Schema)
    (v : Value) : Transacting (List Value) :=
  if schema.isRef then (spread schema v).mapM reference
  else return spread schema v

------------------------------------------------------------
-- Single Facts
------------------------------------------------------------

/- Add a value of an entity. -/
def add
    (eid : Int)
    (attr : Installed)
    (v : Value) : Transacting Unit := do
  let tx := (← read).tx
  change (Ledger.add tx eid attr v)

/- Retract a value of an entity. -/
def retract
    (eid : Int)
    (attr : Installed)
    (v : Value) : Transacting Unit := do
  let tx := (← read).tx
  change (fun l =>
    l.retract tx eid attr.eid v (l.nextOrigin tx))

/- Act on each value that a value stands for. -/
def onValues
    (act : Int → Installed → Value → Transacting Unit)
    (eid : Int)
    (attr v : Value) : Transacting Unit := do
  let attr ← installed attr
  (← values attr.schema v).forM (act eid attr)

/- Retract an entity with its parts. -/
def retractEntity (eid : Int) : Transacting Unit := do
  let g ← read
  change (Ledger.retractEntities g.db g.tx [.int eid])

------------------------------------------------------------
-- Maps
------------------------------------------------------------

/- Add an entity to the one that a value names. -/
def applyBackward
    (eid : Int)
    (attr : String)
    (v : Value) : Transacting Unit := do
  let target ← entity v
  let attr ← installed (.str attr)
  add target attr (.int eid)

/-
  Apply one entry of a map.  An attribute that is turned
  around belongs to the entity that its value names.
-/
def applyEntry
    (eid : Int)
    (attr v : Value) : Transacting Unit :=
  match attr with
  | .str name =>
      if name == "db/id" then
        pure ()
      else if Keyword.isKeyword name then
        if Keyword.forward name == name then
          onValues add eid (.str name) v
        else
          applyBackward eid (Keyword.forward name) v
      else
        throw (.engine (.attributeNotKeyword attr))
  | attr => throw (.engine (.attributeNotKeyword attr))

/- Draw a temporary id for an entity without one. -/
def drawTempid : Transacting Value := do
  let w ← get
  set { w with drawn := w.drawn + 1 }
  return .tempid TempId.userPartition (TempId.serialAt w.drawn)

/- Apply a map that describes an entity. -/
def applyMap
    (entries : List (Value × Value)) : Transacting Unit := do
  let spec ←
    match Value.field? entries "db/id" with
    | some spec => pure spec
    | none => drawTempid
  let eid ← entity spec
  entries.forM (fun e => applyEntry eid e.1 e.2)

------------------------------------------------------------
-- Items
------------------------------------------------------------

/- What an item in the form of a sequence does. -/
inductive Operation where
  | add
  | retract
  | retractEntity

/- The name of an operation. -/
def Operation.name : Operation → String
  | .add => "db/add"
  | .retract => "db/retract"
  | .retractEntity => "db.fn/retractEntity"

/- The operation that a name stands for. -/
def Operation.ofName? (s : String) : Option Operation :=
  [add, retract, retractEntity].find? (fun op => op.name == s)

/- Apply an operation on one fact. -/
def applyFact
    (act : Int → Installed → Value → Transacting Unit)
    (spec attr v : Value) : Transacting Unit := do
  let eid ← entity spec
  onValues act eid attr v

/- Apply an operation to its operands. -/
def applyOperation
    (op : Operation)
    (operands : List Value)
    (item : Value) : Transacting Unit :=
  match op, operands with
  | .add, [spec, attr, v] => applyFact add spec attr v
  | .retract, [spec, attr, v] => applyFact retract spec attr v
  | .retractEntity, [spec] => do
      retractEntity (← entity spec)
  | .retractEntity, _ =>
      throw (.engine (.operands op.name "[op e]" item))
  | op, _ =>
      throw (.engine (.operands op.name "[op e a v]" item))

/- Apply one item of transaction data. -/
def applyItem (item : Value) : Transacting Unit :=
  match item with
  | .map entries => applyMap entries
  | item =>
      match item.sequence? with
      | some (.str name :: operands) =>
          match Operation.ofName? name with
          | some op => applyOperation op operands item
          | none => throw (.engine (.unsupportedItem item))
      | _ => throw (.engine (.unsupportedItem item))

end Transacting

------------------------------------------------------------
-- The Next Database
------------------------------------------------------------

namespace Database

/- Follow one change of an ident. -/
def followIdent
    (idents : List (Value × Int))
    (d : Datom) : Outcome (List (Value × Int)) := do
  let owner ← Table.seek d.value idents
  if d.added then
    return Table.put d.value d.entity idents
  else if owner == some d.entity then
    return Table.erase d.value idents
  else
    return idents

/- The last ident of an entity in a table of idents. -/
def lastIdentOf?
    (idents : List (Value × Int))
    (eid : Value) : Option Value :=
  (idents.reverse.find? (fun e => eid.isInt e.2)).map Prod.fst

/- The facts about an attribute, by the idents of a database. -/
def definitionOf
    (db : Database)
    (datoms : List Datom)
    (eid : Value) : List (Value × Value) :=
  (datoms.filter (fun d => eid.isInt d.entity)).foldl
    (fun entries d =>
      Table.put ((db.identOf (.int d.attr)).getD .null)
        d.value entries)
    []

/-
  The definition of an attribute from the facts about it.
  Names, options and value types that are malformed are
  reported together with the entity.
-/
def defined
    (db : Database)
    (datoms : List Datom)
    (eid : Value) : Outcome Schema :=
  match Schema.ofTxData (db.definitionOf datoms eid) with
  | .ok schema => .ok schema
  | .error fault =>
      match fault, fault.message? with
      | .identifier _, some reason =>
          .error (.engine (.invalidDefinition eid reason))
      | .valueType _ _, some reason =>
          .error (.engine (.invalidDefinition eid reason))
      | fault, _ => .error fault

/- What was installed: attributes by entity, and partitions. -/
structure Installations where
  attributes : List (Value × Schema)
  partitions : List Value

/- Install the attribute that is a given entity. -/
def installAttribute
    (db : Database)
    (datoms : List Datom)
    (i : Installations)
    (eid : Value) : Outcome Installations := do
  let schema ← db.defined datoms eid
  if eid.hashable then
    return { i with
      attributes := Table.put eid schema i.attributes }
  else
    throw .wrongKind

/- Install the partition that is a given entity. -/
def installPartition
    (idents : List (Value × Int))
    (i : Installations)
    (eid : Value) : Outcome Installations :=
  if eid.hashable then
    match (lastIdentOf? idents eid).getD .null with
    | .null => .error (.engine .unnamedPartition)
    | name =>
        if name.memberOf i.partitions then .ok i
        else
          .ok { i with partitions := i.partitions ++ [name] }
  else .error .wrongKind

/-
  The database after a transaction: idents follow the log,
  and attributes and partitions that the log installs are
  added.
-/
def afterLog
    (db : Database)
    (l : Ledger) : Outcome Database := do
  let ident ← db.installed (.str "db/ident")
  let idents ←
    (l.log.filter (fun d => d.attr == ident.eid)).foldlM
      followIdent db.idents
  let newAttr ← db.installed (.str "db.install/attribute")
  let newPart ← db.installed (.str "db.install/partition")
  let installs ←
    (l.log.filter (fun d => d.added)).foldlM
      (fun i d =>
        if d.attr == newAttr.eid then
          db.installAttribute l.datoms i d.value
        else if d.attr == newPart.eid then
          installPartition idents i d.value
        else pure i)
      { attributes := db.attributes
        partitions := db.partitions }
  return {
    basis := db.basis + 1
    datoms := l.datoms
    idents := idents
    attributes := installs.attributes
    partitions := installs.partitions }

end Database

end FactBase
