import FactBase.Value.Table
import FactBase.Fact.TempId

/-
  This file builds attribute definitions from their fields,
  from transaction data and from stored records, and writes
  them as such.

  Key definitions include:
    * `Schema.ofFields`
    * `Schema.ofArguments`
    * `Schema.ofTxData`
    * `Schema.ofRecord`
    * `Schema.toRecord`
    * `Schema.toTxData`

  Key theorems include:
    * `Schema.ofFields_own`
    * `Schema.ofRecord_toRecord`
-/

------------------------------------------------------------
-- Checked Fields
------------------------------------------------------------

namespace FactBase

namespace Schema

/- The attribute holds any number of values per entity. -/
def many (s : Schema) : Bool :=
  s.cardinality == .many

/- The attribute's values are entities. -/
def isRef (s : Schema) : Bool :=
  s.valueType == .ref

/-
  A value that can be looked up in a fixed set.  A set is
  looked up by its members.
-/
def canBeSought : Value → Bool
  | .set _ => true
  | v => v.hashable

/-
  Look a value up in a vocabulary.  A value outside of it is
  reported, one that cannot be looked up is of a wrong kind.
-/
def sought
    {α : Type}
    (ofKeyword? : String → Option α)
    (otherwise : Fault)
    (v : Value) : Outcome α :=
  match v.str?.bind ofKeyword? with
  | some x => .ok x
  | none =>
      if canBeSought v then .error otherwise
      else .error .wrongKind

/- The fields of a definition before they are checked. -/
structure Fields where
  ident : Value
  valueType : Value
  cardinality : Value := .str "db.cardinality/one"
  unique : Value := .null
  index : Value := .bool true
  fulltext : Value := .bool false
  component : Value := .bool false
  noHistory : Value := .bool false
  doc : Value := .null

/- A unique field: nothing, or a keyword for the kind. -/
def soughtUnique (v : Value) : Outcome (Option Uniqueness) :=
  match v with
  | .null => .ok none
  | v =>
      (sought Uniqueness.ofKeyword?
        (.identifier (.unique v)) v).map some

/- A documentation field: nothing or a text. -/
def soughtDoc : Value → Outcome (Option String)
  | .null => .ok none
  | .str s => .ok (some s)
  | _ => .error (.identifier .doc)

/- The ident of a definition must be a keyword. -/
def soughtIdent (v : Value) : Outcome String :=
  match v with
  | .str s =>
      if Keyword.isKeyword s then .ok s
      else .error (.identifier (.ident v))
  | v => .error (.identifier (.ident v))

/-
  Check the fields of a definition in order and put them
  together.
-/
def ofFields (f : Fields) : Outcome Schema := do
  let ident ← soughtIdent f.ident
  let valueType ←
    sought ValueType.ofKeyword?
      (.valueType ident f.valueType) f.valueType
  let cardinality ←
    sought Cardinality.ofKeyword?
      (.identifier (.cardinality f.cardinality))
      f.cardinality
  let unique ← soughtUnique f.unique
  let doc ← soughtDoc f.doc
  return {
    ident := ident
    valueType := valueType
    cardinality := cardinality
    unique := unique
    index := f.index
    fulltext := f.fulltext
    component := f.component
    noHistory := f.noHistory
    doc := doc }

------------------------------------------------------------
-- Sources of Definitions
------------------------------------------------------------

/- The names of the fields of a definition. -/
def fieldNames : List String :=
  ["ident", "value_type", "cardinality", "unique", "index",
   "fulltext", "is_component", "no_history", "doc"]

/-
  A definition from named arguments, whose switches are kept
  as they are.  Only field names are allowed, and the first
  two fields are required.
-/
def ofArguments
    (entries : List (Value × Value)) : Outcome Schema :=
  let named (k : Value) : Bool :=
    k.str?.any fieldNames.contains
  let field (name : String) (absent : Value) : Value :=
    (Value.field? entries name).getD absent
  if !entries.all (fun e => named e.1) then
    .error .wrongKind
  else
    match Value.field? entries "ident",
        Value.field? entries "value_type" with
    | some ident, some valueType =>
        ofFields {
          ident := ident
          valueType := valueType
          cardinality :=
            field "cardinality" (.str "db.cardinality/one")
          unique := field "unique" .null
          index := field "index" (.bool true)
          fulltext := field "fulltext" (.bool false)
          component := field "is_component" (.bool false)
          noHistory := field "no_history" (.bool false)
          doc := field "doc" .null }
    | _, _ => .error .wrongKind

/- The truth of a field, or of its default. -/
def switch
    (entries : List (Value × Value))
    (name : String)
    (absent : Bool) : Value :=
  match Value.field? entries name with
  | some v => .bool v.truthy
  | none => .bool absent

/- A definition from the facts about an attribute. -/
def ofTxData
    (entries : List (Value × Value)) : Outcome Schema :=
  match Value.field? entries "db/ident",
      Value.field? entries "db/valueType" with
  | some ident, some valueType =>
      ofFields {
        ident := ident
        valueType := valueType
        cardinality :=
          (Value.field? entries "db/cardinality").getD
            (.str "db.cardinality/one")
        unique :=
          (Value.field? entries "db/unique").getD .null
        index := switch entries "db/index" true
        fulltext := switch entries "db/fulltext" false
        component := switch entries "db/isComponent" false
        noHistory := switch entries "db/noHistory" false
        doc := (Value.field? entries "db/doc").getD .null }
  | _, _ => .error (.identifier .incompleteDefinition)

/- A definition from a stored record. -/
def ofRecord
    (entries : List (Value × Value)) : Outcome Schema :=
  match Value.field? entries "ident",
      Value.field? entries "value_type" with
  | some ident, some valueType =>
      ofFields {
        ident := ident
        valueType := valueType
        cardinality :=
          (Value.field? entries "cardinality").getD
            (.str "db.cardinality/one")
        unique := (Value.field? entries "unique").getD .null
        index := switch entries "index" true
        fulltext := switch entries "fulltext" false
        component := switch entries "is_component" false
        noHistory := switch entries "no_history" false
        doc := (Value.field? entries "doc").getD .null }
  | _, _ => .error (.mishap .missingKey)

------------------------------------------------------------
-- Written Definitions
------------------------------------------------------------

/- An optional text as a value. -/
def optional : Option String → Value
  | none => .null
  | some s => .str s

/- A definition as a record, with the version of its form. -/
def toRecord (s : Schema) : List (Value × Value) :=
  [ (.str "schema_version", .int 1)
  , (.str "ident", .str s.ident)
  , (.str "value_type", .str s.valueType.keywordText)
  , (.str "cardinality", .str s.cardinality.keywordText)
  , (.str "unique",
      optional (s.unique.map Uniqueness.keywordText))
  , (.str "index", s.index)
  , (.str "fulltext", s.fulltext)
  , (.str "is_component", s.component)
  , (.str "no_history", s.noHistory)
  , (.str "doc", optional s.doc) ]

/- An entry of transaction data that is there if switched on. -/
def whenOn
    (v : Value)
    (name : String) : List (Value × Value) :=
  if v.truthy then [(.str name, .bool true)] else []

/- An entry of transaction data that is there if given. -/
def whenGiven
    (s : Option String)
    (name : String) : List (Value × Value) :=
  match s with
  | some s => [(.str name, .str s)]
  | none => []

/- The facts that install a definition on an entity. -/
def installation
    (s : Schema)
    (id : Value) : List (Value × Value) :=
  [ (.str "db/id", id)
  , (.str "db.install/_attribute",
      .str TempId.systemPartition)
  , (.str "db/cardinality", .str s.cardinality.keywordText)
  , (.str "db/index", s.index)
  , (.str "db/ident", .str s.ident)
  , (.str "db/valueType", .str s.valueType.keywordText) ]
    ++ whenGiven (s.unique.map Uniqueness.keywordText)
      "db/unique"
    ++ whenOn s.fulltext "db/fulltext"
    ++ whenOn s.component "db/isComponent"
    ++ whenOn s.noHistory "db/noHistory"
    ++ whenGiven s.doc "db/doc"

/- Transaction data that installs a definition. -/
def toTxData (s : Schema) : Drawing Value := do
  let id ← TempId.drawIn TempId.systemPartition
  return .map (s.installation id)

/- A definition whose switches are truth values. -/
def normalized (s : Schema) : Schema :=
  { s with
    index := .bool s.index.truthy
    fulltext := .bool s.fulltext.truthy
    component := .bool s.component.truthy
    noHistory := .bool s.noHistory.truthy }

/- A definition is put together again from its own fields. -/
theorem ofFields_own
    (s : Schema)
    (hIdent : Keyword.isKeyword s.ident = true)
    (index fulltext component noHistory : Value) :
    ofFields
        { ident := .str s.ident
          valueType := .str s.valueType.keywordText
          cardinality := .str s.cardinality.keywordText
          unique := optional (s.unique.map Uniqueness.keywordText)
          index := index
          fulltext := fulltext
          component := component
          noHistory := noHistory
          doc := optional s.doc }
      = .ok
        { s with
          index := index
          fulltext := fulltext
          component := component
          noHistory := noHistory } := by
  have hUnique :
      soughtUnique
          (optional (s.unique.map Uniqueness.keywordText))
        = .ok s.unique := by
    cases s.unique with
    | none => rfl
    | some u =>
        simp [optional, soughtUnique, sought, Value.str?,
          Uniqueness.ofKeyword?_keywordText, Except.map]
  have hDoc : soughtDoc (optional s.doc) = .ok s.doc := by
    cases s.doc <;> rfl
  simp [ofFields, soughtIdent, hIdent, sought, Value.str?,
    ValueType.ofKeyword?_keywordText,
    Cardinality.ofKeyword?_keywordText, hUnique, hDoc, bind,
    Except.bind, pure, Except.pure]

/- A definition is read back from its record. -/
theorem ofRecord_toRecord
    (s : Schema)
    (hIdent : Keyword.isKeyword s.ident = true) :
    ofRecord s.toRecord = .ok s.normalized := by
  have hOwn :=
    ofFields_own s hIdent (.bool s.index.truthy)
      (.bool s.fulltext.truthy) (.bool s.component.truthy)
      (.bool s.noHistory.truthy)
  simp only [ofRecord, toRecord, switch, Value.field?, Table.find?]
  simpa [Value.same, normalized] using hOwn

end Schema

end FactBase
