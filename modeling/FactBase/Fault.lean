import FactBase.Value.Printer
import FactBase.Value.Endless

/-
  This file defines everything that can go wrong, by cause,
  and the message that reports each cause.

  Key definitions include:
    * `SymbolReport`
    * `PayloadProblem`
    * `ShapeFault`
    * `IdentifierFault`
    * `CardinalityFault`
    * `StoreFault`
    * `EngineFault`
    * `Mishap`
    * `Fault`
    * `Fault.message?`
    * `Outcome`
    * `Value.items`
    * `Value.equals`
    * `Value.toEnd`
    * `Datom.toEnd`
-/

------------------------------------------------------------
-- Symbol Reports
------------------------------------------------------------

namespace FactBase

/-
  The variables of a query that break the rules of use:
  regular ones that occur once, and wildcards that occur more
  than once.
-/
structure SymbolReport where
  orphans : List String
  overused : List String
deriving DecidableEq, Repr

/- No variable breaks the rules. -/
def SymbolReport.ok (r : SymbolReport) : Bool :=
  r.orphans.isEmpty && r.overused.isEmpty

------------------------------------------------------------
-- Malformed Contexts
------------------------------------------------------------

/- One way in which a context misses its strict shape. -/
inductive PayloadProblem where
  | missing (place : String)
  | notOrdered (place kind : String)
  | noClauses (place : String)
  | clauseNotMap (place : String) (index : Nat)
  | clauseWithoutEntity (place : String) (index : Nat)
  | emptyCall (place : String) (index : Nat)
  | unknownKey (key : String)
  | keyNotText (key : Value)

namespace PayloadProblem

/- The place of a problem: a section or a stray key. -/
def place : PayloadProblem → String
  | .missing place => place
  | .notOrdered place _ => place
  | .noClauses place => place
  | .clauseNotMap place _ => place
  | .clauseWithoutEntity place _ => place
  | .emptyCall place _ => place
  | .unknownKey key => key
  | .keyNotText key =>
      match key.int? with
      | some n => toString n
      | none => key.description

/- What is wrong there. -/
def complaint : PayloadProblem → String
  | .missing _ => "Field required"
  | .notOrdered _ kind =>
      "Value error, section must be an ordered list, got "
        ++ kind
  | .noClauses _ =>
      "List should have at least 1 item after validation, not 0"
  | .clauseNotMap _ i =>
      "Value error, where[" ++ toString i
        ++ "] must be a mapping"
  | .clauseWithoutEntity _ i =>
      "Value error, where[" ++ toString i
        ++ "] is missing the 'db/id' entity binding"
  | .emptyCall _ i =>
      "Value error, entry " ++ toString i
        ++ " must be a non-empty call form like (op, *args)"
  | .unknownKey _ => "Extra inputs are not permitted"
  | .keyNotText _ => "Keys should be strings"

/- A problem with its place; an empty place is the whole. -/
def text (p : PayloadProblem) : String :=
  let place := if p.place == "" then "$" else p.place
  place ++ ": " ++ p.complaint

end PayloadProblem

/- A part of a query does not have the expected shape. -/
inductive ShapeFault where
  | variableName (name : Value)
  | wildcardName (name : String)
  | unlabeled (token : Value)
  | contextNotMap
  | contextUnknown
  | missingSections (names : List String)
  | noClauses
  | clauseNotMap (index : Nat) (kind : String)
  | clauseWithoutEntity (index : Nat)
  | bindingsNotOrdered (kind : String)
  | sectionNotOrdered (name kind : String)
  | payload (problems : List PayloadProblem)
  | unlabeledProjection (terms : List String)
  | unknownShape (shape : Value)
  | labelsNeeded
  | rowWidth (width labels : Nat)

/- The message of a shape fault. -/
def ShapeFault.message : ShapeFault → String
  | .variableName name =>
      "Var name must start with '?': " ++ name.description
  | .wildcardName name =>
      "WildcardVar name must end with '*': " ++ Text.quoted name
  | .unlabeled token =>
      "Only query variables can be labeled: "
        ++ token.description
  | .contextNotMap => "Query context must be a mapping."
  | .contextUnknown =>
      "Query context must be a mapping or QueryContext."
  | .missingSections names =>
      "Query context missing sections: "
        ++ Value.describeTexts names
  | .noClauses =>
      "where must be a non-empty list of clause maps"
  | .clauseNotMap i kind =>
      "where[" ++ toString i ++ "] must be a mapping, got "
        ++ kind
  | .clauseWithoutEntity i =>
      "where[" ++ toString i
        ++ "] is missing the 'db/id' entity binding"
  | .bindingsNotOrdered kind =>
      "let must be a list, got " ++ kind
  | .sectionNotOrdered name kind =>
      name ++ " must be an ordered list, got " ++ kind
  | .payload problems =>
      "Invalid query context: "
        ++ String.intercalate "; "
          (problems.map PayloadProblem.text)
  | .unlabeledProjection terms =>
      "Keyed results need plain variable projections; got "
        ++ Value.describeTexts terms
  | .unknownShape shape =>
      "Unknown result shape: " ++ shape.description
        ++ "; expected one of "
        ++ "('tuple_set', 'map_set', 'row_list')"
  | .labelsNeeded => "map_set results need projection labels"
  | .rowWidth width labels =>
      "row width " ++ toString width ++ " does not match "
        ++ toString labels ++ " projection labels"

------------------------------------------------------------
-- Malformed Identifiers
------------------------------------------------------------

/- A name, an option or an entity specification is malformed. -/
inductive IdentifierFault where
  | partition (given : Value)
  | ident (given : Value)
  | cardinality (given : Value)
  | unique (given : Value)
  | doc
  | incompleteDefinition
  | notSchema
  | newPartition (given : Value)
  | option (given : Value)
  | unknownOption (option : String)
  | enum (given : Value)
  | entitySpec (given : Value)
  | notMap
  | attribute (given : Value)

/- The message of an identifier fault. -/
def IdentifierFault.message : IdentifierFault → String
  | .partition v =>
      "partition must be a keyword: " ++ v.description
  | .ident v =>
      "attribute ident must be keyword: " ++ v.description
  | .cardinality v =>
      "attribute cardinality invalid: " ++ v.description
  | .unique v => "attribute unique invalid: " ++ v.description
  | .doc => "attribute doc must be a string"
  | .incompleteDefinition =>
      "attribute tx-data needs db/ident and db/valueType"
  | .notSchema =>
      "AttributeRegistry only accepts AttributeSchema entries"
  | .newPartition v =>
      "partition ident must be keyword: " ++ v.description
  | .option v =>
      "attribute option must be a keyword or doc string: "
        ++ v.description
  | .unknownOption s => "unknown attribute option: " ++ s
  | .enum v => "enum ident must be keyword: " ++ v.description
  | .entitySpec v => "invalid entity spec: " ++ v.description
  | .notMap => "attribute values must be a mapping"
  | .attribute v =>
      "attribute must be keyword: " ++ v.description

------------------------------------------------------------
-- Results and Introspection
------------------------------------------------------------

/- A result does not hold exactly one row or one value. -/
inductive CardinalityFault where
  | rows (count : Nat)
  | values (count : Nat)

/- The message of a cardinality fault. -/
def CardinalityFault.message : CardinalityFault → String
  | .rows n =>
      "expected exactly one result row, got " ++ toString n
  | .values n =>
      "expected exactly one result value, got " ++ toString n

/- Stored data is not what introspection needs. -/
inductive StoreFault where
  | notDatom (description : String)
  | unknownEntity (spec : Value)
  | txCount (txs : List Value)

/- The message of a store fault. -/
def StoreFault.message : StoreFault → String
  | .notDatom description => "not a datom: " ++ description
  | .unknownEntity spec =>
      "unknown entity: " ++ spec.description
  | .txCount txs =>
      "transaction data must share exactly one tx id, got "
        ++ (Value.list txs).description

------------------------------------------------------------
-- The Engine
------------------------------------------------------------

/- A query or a transaction cannot be carried out. -/
inductive EngineFault where
  | unknownAttribute (ident : Value)
  | unknownIndex (name : Value)
  | tooManyComponents (index : Value)
  | itemsNotList
  | inputCount (inputs args : Nat)
  | unknownSource (name : String)
  | sourceNotDatabase
  | unsupportedInput (binding : Value)
  | noSource
  | outsidePartitions (eid : Value)
  | unknownPartition (partition : Value)
  | invalidClause (clause : Value)
  | unsupportedClause (clause : Value)
  | unsupportedPredicate (expr : Value)
  | fewArguments (expr : Value)
  | incomparable (expr : Value) (reason : Incomparable)
  | unboundArgument (name : String)
  | unknownEntity (pattern : Value)
  | unboundProjection (name : String)
  | unboundPull (name : Value)
  | unsupportedProjection (term : Value)
  | pullPattern (pattern : Value)
  | pullElement (element : Value)
  | operands (op form : String) (item : Value)
  | unsupportedItem (item : Value)
  | unnamedPartition
  | attributeNotKeyword (given : Value)
  | unresolved (spec : Value)
  | invalidDefinition (eid : Value) (reason : String)

/- The message of an engine fault. -/
def EngineFault.message : EngineFault → String
  | .unknownAttribute ident =>
      "unknown attribute: " ++ ident.text
  | .unknownIndex name =>
      "unknown index: " ++ name.text
        ++ "; expected one of ['aevt', 'avet', 'eavt', 'vaet']"
  | .tooManyComponents index =>
      "too many components for index " ++ index.text
  | .itemsNotList => "tx_data must be a list of tx items"
  | .inputCount inputs args =>
      "query expects " ++ toString inputs ++ " inputs, got "
        ++ toString args
  | .unknownSource name =>
      "only the default source '$' is supported, got " ++ name
  | .sourceNotDatabase => "input '$' must be a MemoryDb"
  | .unsupportedInput binding =>
      "unsupported input binding: " ++ binding.description
  | .noSource => "query needs a '$' database input"
  | .outsidePartitions eid =>
      "eid " ++ eid.text ++ " is outside every known partition"
  | .unknownPartition partition =>
      "unknown partition: " ++ partition.text
  | .invalidClause clause =>
      "invalid where clause: " ++ clause.description
  | .unsupportedClause clause =>
      "unsupported where clause: " ++ clause.description
  | .unsupportedPredicate expr =>
      "unsupported predicate: " ++ expr.description
  | .fewArguments expr =>
      "predicate needs at least two arguments: "
        ++ expr.description
  | .incomparable expr reason =>
      "cannot evaluate predicate " ++ expr.description ++ ": "
        ++ reason.message
  | .unboundArgument name =>
      "insufficient binding for " ++ name
  | .unknownEntity pattern =>
      "unknown entity ident or unsupported rule invocation: "
        ++ pattern.description
  | .unboundProjection name =>
      "find variable is not bound by the query: " ++ name
  | .unboundPull name =>
      "pull variable is not bound by the query: " ++ name.text
  | .unsupportedProjection term =>
      "unsupported find element: " ++ term.description
  | .pullPattern pattern =>
      "pull pattern must be a list: " ++ pattern.description
  | .pullElement element =>
      "unsupported pull pattern element: "
        ++ element.description
  | .operands op form item =>
      op ++ " needs " ++ form ++ ": " ++ item.description
  | .unsupportedItem item =>
      "unsupported tx item: " ++ item.description
  | .unnamedPartition =>
      "installed partition has no db/ident"
  | .attributeNotKeyword given =>
      "attribute must be keyword: " ++ given.description
  | .unresolved spec =>
      "cannot resolve entity: " ++ spec.description
  | .invalidDefinition eid reason =>
      "invalid attribute definition for entity " ++ eid.text
        ++ ": " ++ reason

------------------------------------------------------------
-- Faults
------------------------------------------------------------

/-
  A step that values of the given kinds do not allow, and
  that no rule of this library reports in words.
-/
inductive Mishap where
  | wrongKind
  | missingKey
  | missingMember
  | outOfRange
  | overflow
  | malformed
  | endless
deriving DecidableEq, Repr

/- Everything that can go wrong. -/
inductive Fault where
  | shape (cause : ShapeFault)
  | bindingCount (count : Nat)
  | orphanSymbols
      (symbols : List String)
      (report : SymbolReport)
  | overusedWildcards
      (symbols : List String)
      (report : SymbolReport)
  | unknownAttributes (attributes : List String)
  | identifier (cause : IdentifierFault)
  | valueType (ident : String) (given : Value)
  | cardinality (cause : CardinalityFault)
  | notPull (projection : List Value)
  | store (cause : StoreFault)
  | engine (cause : EngineFault)
  | mishap (cause : Mishap)

namespace Fault

/- The message of a fault; a mishap has none. -/
def message? : Fault → Option String
  | .shape cause => some cause.message
  | .bindingCount n =>
      some ("let must hold variable/source pairs; got "
        ++ toString n ++ " items")
  | .orphanSymbols symbols _ =>
      some ("Orphan symbols found: "
        ++ Value.describeTexts symbols)
  | .overusedWildcards symbols _ =>
      some ("Overused wildcards found: "
        ++ Value.describeTexts symbols)
  | .unknownAttributes attributes =>
      some ("Unknown attributes in where clauses: "
        ++ Value.describeTexts attributes)
  | .identifier cause => some cause.message
  | .valueType ident given =>
      some ("attribute value-type invalid: " ++ ident ++ " "
        ++ given.description)
  | .cardinality cause => some cause.message
  | .notPull projection =>
      some ("query_pull needs a pull projection in yield; got "
        ++ (Value.list projection).description)
  | .store cause => some cause.message
  | .engine cause => some cause.message
  | .mishap _ => none

/- Values of these kinds do not go together. -/
def wrongKind : Fault := .mishap .wrongKind

end Fault

------------------------------------------------------------
-- Outcomes
------------------------------------------------------------

/- A result or a fault. -/
abbrev Outcome := Except Fault

/- The members of a value, which must have some. -/
def Value.items (v : Value) : Outcome (List Value) :=
  match v.items? with
  | some items => .ok items
  | none => .error .wrongKind

/- Whether two values are equal, unless that has no end. -/
def Value.equals (a b : Value) : Outcome Bool :=
  match a.equals? b with
  | some b => .ok b
  | none => .error (.mishap .endless)

/- A value as a whole, which must have an end. -/
def Value.toEnd (v : Value) : Outcome Value :=
  if v.endless then .error (.mishap .endless) else .ok v

/- A fact as a whole, whose value must have an end. -/
def Datom.toEnd (d : Datom) : Outcome Datom := do
  return { d with value := ← d.value.toEnd }

/- Values that have an end are equal or not. -/
theorem Value.equals_of_not_endless
    (a b : Value)
    (hLeft : a.endless = false)
    (hRight : b.endless = false) :
    a.equals b = .ok (a.equal b) := by
  simp [Value.equals,
    Value.equals?_of_not_endless a b hLeft hRight]

end FactBase
