import FactBase.Attribute.Schema

/-
  This file builds transaction data: maps that describe an
  entity, and forms that add or retract a single fact.
  Nothing here looks at a database.

  Key definitions include:
    * `TxForm.entitySpec`
    * `TxForm.newPartition`
    * `TxForm.newAttribute`
    * `TxForm.newEntity`
    * `TxForm.newEnum`
    * `TxForm.update`
    * `TxForm.addValue`
    * `TxForm.retractValue`
    * `TxForm.retractEntity`
-/

------------------------------------------------------------
-- Checked Parts
------------------------------------------------------------

namespace FactBase

namespace TxForm

/- The value, which must be a keyword. -/
def keyword
    (otherwise : Value → IdentifierFault)
    (v : Value) : Outcome Value :=
  if v.isKeyword then .ok v
  else .error (.identifier (otherwise v))

/-
  An entity specification: an entity id, a temporary id, an
  ident, or an attribute with a value that looks it up.
-/
def entitySpec (v : Value) : Outcome Value :=
  let refused : Outcome Value :=
    .error (.identifier (.entitySpec v))
  match v with
  | .int _ => .ok v
  | .tempid _ _ => .ok v
  | .str _ => if v.isKeyword then .ok v else refused
  | v =>
      match v.sequence? with
      | some [attr, x] =>
          if attr.isKeyword then .ok (.tuple [attr, x])
          else refused
      | _ => refused

/- The entries of a map from attributes to values. -/
def attributeMap (v : Value) : Outcome (List (Value × Value)) :=
  match v with
  | .map entries => do
      entries.forM (fun e => discard (keyword .attribute e.1))
      return entries
  | _ => .error (.identifier .notMap)

/- A map that describes the entity `id`. -/
def describing
    (id : Value)
    (entries : List (Value × Value)) : Value :=
  .map (Table.putAll entries [(.str "db/id", id)])

------------------------------------------------------------
-- Entities
------------------------------------------------------------

/-
  A new entity in a partition.  Its id is drawn before the
  attributes are looked at.
-/
def newEntityIn
    (partition attrs : Value) : Drawing Value := do
  match partition with
  | .str _ =>
      let id ← TempId.draw partition
      return describing id (← attributeMap attrs)
  | v => throw (.identifier (.partition v))

/-
  A new entity, in the users' partition unless a partition
  comes before the attributes.
-/
def newEntity
    (first second : Value) : Drawing Value :=
  match second with
  | .null => newEntityIn (.str TempId.userPartition) first
  | attrs => newEntityIn first attrs

/- A new entity that stands for one value of an enumeration. -/
def newEnum (ident : Value) : Drawing Value := do
  discard (keyword .enum ident)
  newEntity (.map [(.str "db/ident", ident)]) .null

/- A new partition. -/
def newPartition (ident : Value) : Drawing Value := do
  discard (keyword .newPartition ident)
  let id ← TempId.drawIn TempId.systemPartition
  return .map
    [ (.str "db/id", id)
    , (.str "db.install/_partition",
        .str TempId.systemPartition)
    , (.str "db/ident", ident) ]

/- New values for attributes of an entity. -/
def update
    (spec attrs : Value) : Outcome Value := do
  let id ← entitySpec spec
  return describing id (← attributeMap attrs)

------------------------------------------------------------
-- Attributes
------------------------------------------------------------

/- The namespaces in which every option has a meaning. -/
def optionNamespaces : List String :=
  ["db", "db.unique", "db.cardinality"]

/- What an option keyword sets, if it is one. -/
def option?
    (option : String)
    (f : Schema.Fields) : Option Schema.Fields :=
  match option with
  | "db.unique/value" => some { f with unique := .str option }
  | "db.unique/identity" =>
      some { f with unique := .str option }
  | "db.cardinality/one" =>
      some { f with cardinality := .str option }
  | "db.cardinality/many" =>
      some { f with cardinality := .str option }
  | "db/index" => some { f with index := .bool true }
  | "db/noindex" => some { f with index := .bool false }
  | "db/fulltext" => some { f with fulltext := .bool true }
  | "db/isComponent" => some { f with component := .bool true }
  | "db/noHistory" => some { f with noHistory := .bool true }
  | _ => none

/-
  Apply one option.  A text that is no option keyword is the
  documentation, unless it lies in a namespace of options.
-/
def applyOption
    (f : Schema.Fields)
    (v : Value) : Outcome Schema.Fields :=
  match v with
  | .str s =>
      match option? s f with
      | some g => .ok g
      | none =>
          if Keyword.isKeyword s
              && (Keyword.namespace? s).any
                optionNamespaces.contains then
            .error (.identifier (.unknownOption s))
          else
            .ok { f with doc := .str s }
  | v => .error (.identifier (.option v))

/- A new attribute with options. -/
def newAttribute
    (ident valueType : Value)
    (options : List Value) : Drawing Value := do
  let start : Schema.Fields :=
    { ident := ident, valueType := valueType }
  let fields ←
    (options.foldlM applyOption start : Outcome Schema.Fields)
  let schema ← Schema.ofFields fields
  schema.toTxData

------------------------------------------------------------
-- Single Facts
------------------------------------------------------------

/- A form on one fact about an entity. -/
def onFact
    (op : String)
    (spec attr v : Value) : Outcome Value := do
  let spec ← entitySpec spec
  let attr ← keyword .attribute attr
  return .tuple [.str op, spec, attr, v]

/- Add one fact. -/
def addValue : Value → Value → Value → Outcome Value :=
  onFact "db/add"

/- Retract one fact. -/
def retractValue : Value → Value → Value → Outcome Value :=
  onFact "db/retract"

/-
  Retract an entity, the references to it and its
  components.
-/
def retractEntity (spec : Value) : Outcome Value := do
  return .tuple [.str "db.fn/retractEntity", ← entitySpec spec]

end TxForm

end FactBase
