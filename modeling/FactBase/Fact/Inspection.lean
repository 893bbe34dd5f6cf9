import FactBase.Fact.Index
import FactBase.Fact.Engine
import FactBase.Fact.Entity
import FactBase.Text.Numeral

/-
  This file looks into databases and transactions: facts as
  maps, the partition of an entity, the entities of a
  partition, and the entities of all transactions.

  Key definitions include:
    * `FactRecord`
    * `FactView`
    * `FactRecord.view`
    * `FactView.ofValue`
    * `Database.views`
    * `Database.txViews`
    * `Database.partitionName`
    * `Database.partitionIds`
    * `Database.isTransaction`
    * `Database.transactions`
    * `txId`
-/

------------------------------------------------------------
-- Integers
------------------------------------------------------------

namespace FactBase

/- The whole part of a number, which must be finite. -/
def Binary64.wholePart : Binary64 → Except Mishap Int
  | .finite negative m e =>
      .ok (Binary64.signed negative
        (m * Nat.pow 2 e.toNat / Nat.pow 2 (-e).toNat))
  | .infinite _ => .error .overflow
  | .undefined _ => .error .malformed

/- The integer that a text was read as, if it was one. -/
def integerRead : Option Int → Except Mishap Int
  | some n => .ok n
  | none => .error .malformed

/-
  A value as an integer: the whole part of a number, or what
  a text or a byte string spells.
-/
def Value.wholeNumber : Value → Except Mishap Int
  | .bool b => .ok (if b then 1 else 0)
  | .int n => .ok n
  | .float x => x.wholePart
  | .str s => integerRead (Text.readInteger? s)
  | .bytes bs => integerRead (Text.readIntegerOfBytes? bs)
  | _ => .error .wrongKind

------------------------------------------------------------
-- Facts as Maps
------------------------------------------------------------

/- A fact whose parts may be any values. -/
structure FactRecord where
  entity : Value
  attr : Value
  value : Value
  tx : Value
  added : Value

/- A fact with the attribute in the form that is shown. -/
structure FactView where
  entity : Value
  attr : Value
  value : Value
  tx : Value
  added : Bool

namespace FactRecord

/- A stored fact as a record. -/
def ofDatom (d : Datom) : FactRecord where
  entity := .int d.entity
  attr := .int d.attr
  value := d.value
  tx := .int d.tx
  added := .bool d.added

/- The fields of a record by name. -/
def fields (r : FactRecord) : List (Value × Value) :=
  [ (.str "e", r.entity)
  , (.str "a", r.attr)
  , (.str "v", r.value)
  , (.str "tx", r.tx)
  , (.str "added", r.added) ]

/- The text that shows a record. -/
def description (r : FactRecord) : String :=
  Value.applied "Datom"
    [ Value.argument "e" r.entity.description
    , Value.argument "a" r.attr.description
    , Value.argument "v" r.value.description
    , Value.argument "tx" r.tx.description
    , Value.argument "added" r.added.description ]

end FactRecord

namespace FactView

/- A field that must be there. -/
def needed
    (entries : List (Value × Value))
    (name : String) : Except Mishap Value :=
  match Value.field? entries name with
  | some v => .ok v
  | none => .error .missingKey

/- The fact that fields describe. -/
def read
    (entries : List (Value × Value)) :
    Except Mishap FactView := do
  let entity ← needed entries "e"
  let attr ← (← needed entries "a").wholeNumber
  let value ← needed entries "v"
  let tx ← needed entries "tx"
  let added ← needed entries "added"
  return {
    entity := entity
    attr := .int attr
    value := value
    tx := tx
    added := added.truthy }

/-
  The fact that fields describe.  Fields that describe none
  are reported by the text of what they were taken from.
-/
def ofFields
    (source : String)
    (entries : List (Value × Value)) : Outcome FactView :=
  match read entries with
  | .ok view => .ok view
  | .error .overflow => .error (.mishap .overflow)
  | .error _ => .error (.store (.notDatom source))

/- One entry of a map, given as its two members. -/
def entryOf (v : Value) : Outcome (Value × Value) := do
  match ← v.items with
  | [key, x] => return (key, x)
  | _ => throw (.mishap .malformed)

/- Add an entry, whose key must be able to be one. -/
def addEntry
    (entries : List (Value × Value))
    (v : Value) : Outcome (List (Value × Value)) := do
  let (key, x) ← entryOf v
  if key.hashable then
    return Table.put key x entries
  else
    throw .wrongKind

/- The entries of a map, or those that a sequence lists. -/
def entriesOf : Value → Outcome (List (Value × Value))
  | .map entries => .ok entries
  | v => do (← v.items).foldlM addEntry []

/- The fact that a value describes. -/
def ofValue (v : Value) : Outcome FactView := do
  ofFields v.description (← entriesOf v)

end FactView

/- A record as a view, with the attribute as an integer. -/
def FactRecord.view (r : FactRecord) : Outcome FactView :=
  FactView.ofFields r.description r.fields

namespace Database

/- The facts that an index scan finds, as views. -/
def views
    (db : Database)
    (index : Value)
    (components : List Value) : Outcome (List FactView) := do
  let datoms ← db.scan index components
  datoms.mapM (fun d => (FactRecord.ofDatom d).view)

/- Facts as views, with attributes by ident. -/
def txViews
    (db : Database)
    (facts : List FactRecord) : Outcome (List FactView) :=
  facts.mapM (fun r => do
    let view ← r.view
    return { view with
      attr := (db.identOf view.attr).getD .null })

------------------------------------------------------------
-- Partitions and Transactions
------------------------------------------------------------

/- The partition of the entity that a specification names. -/
def partitionName
    (db : Database)
    (spec : Value) : Outcome Value := do
  match ← db.resolve spec with
  | some eid => db.partitionOf (.int eid)
  | none => throw (.store (.unknownEntity spec))

/- Keep the first of each run of equal entity ids. -/
def withoutRepeats : List Int → List Int
  | [] => []
  | [eid] => [eid]
  | eid :: next :: rest =>
      if eid == next then withoutRepeats (next :: rest)
      else eid :: withoutRepeats (next :: rest)

/- The entity ids up to the first in another partition. -/
def whileIn
    (db : Database)
    (partition : Value) : List Int → Outcome (List Int)
  | [] => .ok []
  | eid :: rest => do
      if (← db.partitionOf (.int eid)).equal partition then
        return eid :: (← whileIn db partition rest)
      else
        return []

/- The ids of the entities in a partition, in order. -/
def partitionIds
    (db : Database)
    (partition : Value) : Outcome (List Int) := do
  let first ← db.entityIdAt partition (.int 0)
  let facts ← db.seek (.str "eavt") [.int first]
  db.whileIn partition
    (withoutRepeats (facts.map DatomOf.entity))

/- Whether a specification names a transaction. -/
def isTransaction
    (db : Database)
    (spec : Value) : Outcome Bool := do
  return (← db.partitionName spec).equal (.str "db.part/tx")

/- What the entity of a fact shows, if it is a transaction. -/
def transactionOf
    (db : Database)
    (d : Datom) : Gathering (Option (List (Value × Shown))) := do
  if ← Gathering.lift (db.isTransaction (.int d.entity)) then
    return some (← db.entityOf d.entity)
  else
    return none

/-
  The maps of all transactions.  An entity with an instant
  counts only if it lies in the partition of transactions.
-/
def transactions
    (db : Database) :
    Gathering (List (List (Value × Value))) := do
  let facts ← Gathering.lift
    (db.scan (.str "aevt") [.str "db/txInstant"])
  let maps ← facts.mapM db.transactionOf
  (maps.filterMap id).mapM Gathering.lookThrough

end Database

/- The entities that a transaction gave to temporary ids. -/
def TxResult.newEntities (r : TxResult) : List Int :=
  r.tempids.map Prod.snd

/- The transaction that all facts share. -/
def txId (facts : List FactRecord) : Outcome Value := do
  let txs := facts.map FactRecord.tx
  if txs.all Value.hashable then
    match Value.distinct txs with
    | [tx] => return tx
    | txs =>
        let sorted ←
          Outcome.ofOrder (Sorting.sort (Value.compared .less) txs)
        throw (.store (.txCount sorted))
  else
    throw .wrongKind

end FactBase
