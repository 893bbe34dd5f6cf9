import FactBase.Fact.Database
import FactBase.Value.Order
import FactBase.Sorting.Sort

/-
  This file defines the four sorted views of the facts of a
  database, and the two ways to read from one: all facts that
  begin with given components, and all facts from given
  components on.

  Key definitions include:
    * `FactIndex`
    * `Value.orderKey`
    * `FactIndex.keyOf`
    * `Database.sortedFacts`
    * `Database.componentKey`
    * `Database.scan`
    * `Database.seek`
-/

------------------------------------------------------------
-- Indexes
------------------------------------------------------------

namespace FactBase

/- A part of a fact by which an index sorts. -/
inductive FactPart where
  | entity
  | attr
  | value
  | tx
deriving DecidableEq, Repr

/- A sorted view, named for its parts in order. -/
inductive FactIndex where
  | eavt
  | aevt
  | avet
  | vaet
deriving DecidableEq, Repr

namespace FactIndex

/- The name of an index. -/
def name : FactIndex → String
  | .eavt => "eavt"
  | .aevt => "aevt"
  | .avet => "avet"
  | .vaet => "vaet"

/- The parts by which an index sorts. -/
def parts : FactIndex → List FactPart
  | .eavt => [.entity, .attr, .value, .tx]
  | .aevt => [.attr, .entity, .value, .tx]
  | .avet => [.attr, .value, .entity, .tx]
  | .vaet => [.value, .attr, .entity, .tx]

/- The index that a value names. -/
def ofValue (v : Value) : Outcome FactIndex :=
  if v.hashable then
    match [eavt, aevt, avet, vaet].find?
        (fun i => v.str? == some i.name) with
    | some i => .ok i
    | none => .error (.engine (.unknownIndex v))
  else .error .wrongKind

/- Every index is read back from its name. -/
theorem ofValue_name (i : FactIndex) :
    ofValue (.str i.name) = .ok i := by
  cases i <;>
    simp [ofValue, Value.str?, Value.hashable, name]

end FactIndex

------------------------------------------------------------
-- Keys
------------------------------------------------------------

/-
  The key by which a value is sorted among values of all
  kinds: truth values, numbers, texts, instants by their
  seconds, and all others by description.
-/
def Value.orderKey : Value → Value
  | .bool b => .tuple [.int 0, .int (if b then 1 else 0)]
  | .int n => .tuple [.int 1, .int n]
  | .float x => .tuple [.int 1, .float x]
  | .str s => .tuple [.int 2, .str s]
  | .instant micros =>
      .tuple [.int 3, .float (Instant.seconds micros)]
  | v => .tuple [.int 4, .str v.description]

namespace FactIndex

/-
  How an index sees the value of a fact: references that come
  first are sorted as they are.
-/
def valueKey
    (i : FactIndex)
    (v : Value) : Value :=
  match i with
  | .vaet => v
  | _ => v.orderKey

/- One part of a fact, as an index sees it. -/
def partOf
    (i : FactIndex)
    (d : Datom) : FactPart → Value
  | .entity => .int d.entity
  | .attr => .int d.attr
  | .value => i.valueKey d.value
  | .tx => .int d.tx

/- The key by which an index sorts a fact. -/
def keyOf
    (i : FactIndex)
    (d : Datom) : List Value :=
  i.parts.map (i.partOf d)

end FactIndex

------------------------------------------------------------
-- Sorted Facts
------------------------------------------------------------

/-
  Keys are of the wrong kinds if they have no order, unless
  it would be endless to tell.
-/
def Outcome.ofOrder
    {α : Type} : Except Unordered α → Outcome α
  | .ok x => .ok x
  | .error (.incomparable _) => .error .wrongKind
  | .error .endless => .error (.mishap .endless)

namespace Database

/- The facts that an index holds. -/
def indexedFacts
    (db : Database)
    (i : FactIndex) : List Datom :=
  match i with
  | .vaet => db.datoms.filter (fun d => db.isRef d.attr)
  | _ => db.datoms

/- The facts that an index holds, in its order. -/
def sortedFacts
    (db : Database)
    (i : FactIndex) : Outcome (List Datom) :=
  Outcome.ofOrder <|
    Sorting.sort
      (fun c d =>
        Value.compared .less
          (.tuple (i.keyOf c)) (.tuple (i.keyOf d)))
      (db.indexedFacts i)

------------------------------------------------------------
-- Components
------------------------------------------------------------

/- A component that names an entity, by its id if it can. -/
def entityComponent
    (db : Database)
    (v : Value) : Outcome Value := do
  match ← db.resolve v with
  | some eid => return .int eid
  | none => return v

/-
  A component that is a value.  The attribute before it, if
  there is one, tells whether it may name an entity.
-/
def valueComponent
    (db : Database)
    (schema : Option Schema)
    (v : Value) : Outcome Value := do
  if schema.any Schema.isRef && v.int?.isNone then
    return (← db.entityComponent v).orderKey
  else
    return v.orderKey

/- A component that is an attribute, with its definition. -/
def attributeComponent
    (db : Database)
    (v : Value) : Outcome (Value × Option Schema) := do
  match v with
  | .str _ => do
      let attr ← db.installed v
      return (.int attr.eid, some attr.schema)
  | v => return (v, ← Table.seek v db.attributes)

/- The keys of components, part by part. -/
def componentKeys
    (db : Database)
    (i : FactIndex) :
    Option Schema → List FactPart → List Value →
    Outcome (List Value)
  | schema, part :: parts, v :: vs => do
      match part with
      | .attr =>
          let (key, schema) ← db.attributeComponent v
          return key :: (← componentKeys db i schema parts vs)
      | .entity =>
          let key ← db.entityComponent v
          return key :: (← componentKeys db i schema parts vs)
      | .value =>
          let key ←
            match i with
            | .vaet => db.entityComponent v
            | _ => db.valueComponent schema v
          return key :: (← componentKeys db i schema parts vs)
      | .tx =>
          return v :: (← componentKeys db i schema parts vs)
  | _, _, _ => .ok []

/- The key that components stand for in an index. -/
def componentKey
    (db : Database)
    (i : FactIndex)
    (components : List Value) : Outcome (List Value) :=
  if components.length > i.parts.length then
    .error (.engine (.tooManyComponents (.str i.name)))
  else
    db.componentKeys i none i.parts components

------------------------------------------------------------
-- Reading an Index
------------------------------------------------------------

/- The facts of an index that begin with the components. -/
def scan
    (db : Database)
    (index : Value)
    (components : List Value) : Outcome (List Datom) := do
  let i ← FactIndex.ofValue index
  let facts ← db.sortedFacts i
  match components with
  | [] => return facts
  | components =>
      let wanted ← db.componentKey i components
      return facts.filter (fun d =>
        Value.sameItems
          ((i.keyOf d).take wanted.length) wanted)

/- The facts of an index from the components on. -/
def seek
    (db : Database)
    (index : Value)
    (components : List Value) : Outcome (List Datom) := do
  let i ← FactIndex.ofValue index
  let facts ← db.sortedFacts i
  match components with
  | [] => return facts
  | components =>
      let start ← db.componentKey i components
      facts.filterM (fun d =>
        Outcome.ofOrder <|
          Value.compared .atLeast
            (.tuple ((i.keyOf d).take start.length))
            (.tuple start))

end Database

end FactBase
