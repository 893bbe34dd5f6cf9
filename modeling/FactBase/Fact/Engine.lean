import FactBase.Fact.Transaction

/-
  This file defines the engine, which holds the latest
  database and commits transactions, and the database that
  every engine starts with.

  Key definitions include:
    * `Bootstrap.database`
    * `Engine`
    * `Engine.start`
    * `TxResult`
    * `Engine.transact`
-/

------------------------------------------------------------
-- The First Database
------------------------------------------------------------

namespace FactBase

namespace Bootstrap

/- The partitions of every database. -/
def partitions : List String :=
  [TempId.systemPartition, "db.part/tx", TempId.userPartition]

/- The index of the partition of transactions. -/
def txPartition : Nat := 1

/- A plain attribute. -/
def plain
    (ident : String)
    (valueType : ValueType) : Schema where
  ident := ident
  valueType := valueType
  cardinality := .one
  unique := none
  index := .bool true
  fulltext := .bool false
  component := .bool false
  noHistory := .bool false
  doc := none

/- The attributes of every database. -/
def attributes : List Schema :=
  [ { plain "db/ident" .keyword with unique := some .identity }
  , plain "db/valueType" .keyword
  , plain "db/cardinality" .keyword
  , plain "db/unique" .keyword
  , plain "db/index" .boolean
  , plain "db/fulltext" .boolean
  , plain "db/isComponent" .boolean
  , plain "db/noHistory" .boolean
  , plain "db/doc" .string
  , plain "db/txInstant" .instant
  , { plain "db.install/partition" .ref with
      cardinality := .many }
  , { plain "db.install/attribute" .ref with
      cardinality := .many } ]

/- The serial number of the first attribute. -/
def firstAttribute : Nat := 10

/- The ids of the partitions of every database. -/
def partitionIds : List (String × Int) :=
  partitions.zipIdx.map (fun (name, i) => (name, (i : Int)))

/- The attributes of every database with their ids. -/
def attributeIds : List (Schema × Int) :=
  attributes.zipIdx.map
    (fun (s, i) => (s, (firstAttribute + i : Nat)))

/- The id of an attribute of every database. -/
def attributeId (ident : String) : Int :=
  ((attributeIds.find? (fun (s, _) => s.ident == ident)).map
    Prod.snd).getD 0

/- The entity of the first transaction. -/
def tx : Int :=
  EntityId.inPartition txPartition 0

/-
  A fact of the first transaction.  No such fact holds a
  collection, so all may have one origin.
-/
def fact
    (entity : Int)
    (ident : String)
    (v : Value) : Datom where
  entity := entity
  attr := attributeId ident
  value := v
  tx := tx
  added := true
  origin := { tx := tx, position := 0 }

/- The facts that name and install a partition. -/
def partitionFacts
    (partition : String × Int) : List Datom :=
  [ fact partition.2 "db/ident" (.str partition.1)
  , fact 0 "db.install/partition" (.int partition.2) ]

/- The fields of a definition that are stored as facts. -/
def storedFields : List String :=
  ["db/ident", "db/valueType", "db/cardinality", "db/unique",
   "db/index", "db/fulltext", "db/isComponent", "db/noHistory",
   "db/doc"]

/- The facts that define and install an attribute. -/
def attributeFacts
    (attr : Schema × Int) : List Datom :=
  let (schema, eid) := attr
  let fields :=
    (schema.installation .null).filterMap (fun entry =>
      match entry.1 with
      | .str name =>
          if storedFields.contains name then
            some (fact eid name entry.2)
          else none
      | _ => none)
  fields ++ [fact 0 "db.install/attribute" (.int eid)]

/- The database that holds only what every database holds. -/
def database (instant : Int) : Database where
  basis := 0
  datoms :=
    partitionIds.flatMap partitionFacts
      ++ attributeIds.flatMap attributeFacts
      ++ [fact tx "db/txInstant" (.instant instant)]
  idents :=
    partitionIds.map (fun (name, eid) => (.str name, eid))
      ++ attributeIds.map
        (fun (s, eid) => (.str s.ident, eid))
  attributes :=
    attributeIds.map (fun (s, eid) => (.int eid, s))
  partitions := partitions.map Value.str

/- The ids that are still to give out. -/
def allocator : Allocator :=
  (Allocator.empty.goOn 0
    (firstAttribute + attributes.length)).goOn txPartition 1

end Bootstrap

------------------------------------------------------------
-- Engines
------------------------------------------------------------

/-
  An engine: the latest database, the ids still to give out,
  the clock with the number of times it was read, and the
  number of temporary ids drawn.
-/
structure Engine where
  db : Database
  allocator : Allocator
  clock : Nat → Int
  ticks : Nat
  drawn : Nat

/- The outcome of a transaction that was committed. -/
structure TxResult where
  before : Database
  after : Database
  facts : List Datom
  tempids : List (Value × Int)

/- What is noted about a transaction. -/
def TxResult.note (r : TxResult) : String :=
  "transaction t=" ++ toString r.after.basis
    ++ " datoms=" ++ toString r.facts.length
    ++ " tempids=" ++ toString r.tempids.length

/- What is noted about transacted items. -/
def TxResult.itemsNote
    (r : TxResult)
    (items : Nat) : String :=
  "transacted " ++ toString items ++ " tx specs -> "
    ++ toString r.facts.length ++ " datoms"

namespace Engine

/- A new engine with a clock, which is read once. -/
def start (clock : Nat → Int) : Engine where
  db := Bootstrap.database (clock 0)
  allocator := Bootstrap.allocator
  clock := clock
  ticks := 1
  drawn := 0

/- The state in which a transaction starts. -/
def opened (e : Engine) : Working where
  ledger := .ofDatabase e.db
  tempids := []
  allocator := e.allocator.take Bootstrap.txPartition
  drawn := e.drawn

/- The database and the entity of the next transaction. -/
def ground (e : Engine) : Ground where
  db := e.db
  tx := e.allocator.eid Bootstrap.txPartition

/- The steps of a transaction: its instant, then its items. -/
def steps
    (e : Engine)
    (items : List Value) : Transacting Unit := do
  let instant ← Transacting.installed (.str "db/txInstant")
  Transacting.add e.ground.tx instant
    (.instant (e.clock e.ticks))
  items.forM Transacting.applyItem

/- Run a transaction up to the database that would follow. -/
def attempt
    (e : Engine)
    (items : List Value) : Outcome TxResult × Working :=
  let (done, w) := ((e.steps items).run e.ground).run e.opened
  let result : Outcome TxResult := do
    done
    let after ← e.db.afterLog w.ledger
    return {
      before := e.db
      after := after
      facts := w.ledger.log
      tempids := w.tempids }
  (result, w)

/-
  Commit items as one transaction.  A failure leaves the
  database alone, but the clock was read and the ids that
  were taken stay taken.
-/
def transactItems
    (e : Engine)
    (items : List Value) : Outcome TxResult × Engine :=
  let (result, w) := e.attempt items
  let db :=
    match result with
    | .ok r => r.after
    | .error _ => e.db
  (result,
    { e with
      db := db
      allocator := w.allocator
      ticks := e.ticks + 1
      drawn := w.drawn })

/- Commit transaction data, which must be a sequence. -/
def transact
    (e : Engine)
    (data : Value) : Outcome TxResult × Engine :=
  match data.sequence? with
  | some items => e.transactItems items
  | none => (.error (.engine .itemsNotList), e)

/- A transaction that fails leaves the database alone. -/
theorem db_transactItems_of_error
    (e : Engine)
    (items : List Value)
    {fault : Fault}
    (h : (e.transactItems items).1 = .error fault) :
    (e.transactItems items).2.db = e.db := by
  simp only [transactItems] at h ⊢
  rw [h]

/- A transaction that succeeds gives the next database. -/
theorem db_transactItems_of_ok
    (e : Engine)
    (items : List Value)
    {r : TxResult}
    (h : (e.transactItems items).1 = .ok r) :
    (e.transactItems items).2.db = r.after := by
  simp only [transactItems] at h ⊢
  rw [h]

end Engine

end FactBase
