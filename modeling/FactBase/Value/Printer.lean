import FactBase.Value.Basic
import FactBase.Number.Shortest
import FactBase.Number.Instant
import FactBase.Text.Quoted

/-
  This file writes values as texts: `Value.description` shows
  every value with its kind, as messages quote it, and
  `Value.text` is the same except that a text stands for
  itself.  A list inside itself is shown by three points.

  Key definitions include:
    * `Value.description`
    * `Value.text`
    * `Value.describeTexts`
-/

------------------------------------------------------------
-- Brackets
------------------------------------------------------------

namespace FactBase

namespace Value

/- Items between brackets, separated by commas. -/
def bracketed
    (opening closing : String)
    (items : List String) : String :=
  opening ++ String.intercalate ", " items ++ closing

/- A tuple of one item keeps a comma. -/
def bracketedTuple : List String → String
  | [item] => "(" ++ item ++ ",)"
  | items => bracketed "(" ")" items

/- Items between braces. -/
def braced (items : List String) : String :=
  bracketed "\x7b" "\x7d" items

/- The constants that messages show. -/
def boolText (b : Bool) : String :=
  if b then "True" else "False"

/- A name applied to arguments. -/
def applied
    (name : String)
    (args : List String) : String :=
  bracketed (name ++ "(") ")" args

/- A named argument. -/
def argument
    (name : String)
    (description : String) : String :=
  name ++ "=" ++ description

/- An optional text, quoted. -/
def optionText : Option String → String
  | none => "None"
  | some s => Text.quoted s

------------------------------------------------------------
-- Descriptions
------------------------------------------------------------

mutual

/- The text that shows a value and its kind. -/
def description : Value → String
  | .null => "None"
  | .bool b => boolText b
  | .int n => toString n
  | .float x => x.text
  | .str s => Text.quoted s
  | .bytes bs => Text.quotedBytes bs
  | .instant micros => Instant.description micros
  | .list items => bracketed "[" "]" (descriptions items)
  | .tuple items => bracketedTuple (descriptions items)
  | .map entries => braced (entryDescriptions entries)
  | .set items =>
      if items.isEmpty then "set()"
      else braced (descriptions items)
  | .frozenset items =>
      if items.isEmpty then "frozenset()"
      else applied "frozenset" [braced (descriptions items)]
  | .var name =>
      applied "Var" [argument "name" (Text.quoted name)]
  | .wildcard name =>
      applied "WildcardVar"
        [argument "name" (Text.quoted name)]
  | .lit v =>
      applied "Lit" [argument "value" (description v)]
  | .tempid partition serial =>
      bracketed "#db/id[" "]"
        [partition ++ " " ++ toString serial]
  | .schema s => schemaDescription s
  | .context c => contextDescription c
  | .database db => databaseDescription db
  | .cyclic _ items => bracketed "[" "]" (descriptions items)
  | .enclosing _ => bracketed "[" "]" ["..."]

/- The descriptions of all items. -/
def descriptions : List Value → List String
  | [] => []
  | v :: vs => description v :: descriptions vs

/- The descriptions of all entries of a map. -/
def entryDescriptions : List (Value × Value) → List String
  | [] => []
  | (k, v) :: entries =>
      (description k ++ ": " ++ description v)
        :: entryDescriptions entries

/- The description of an attribute definition. -/
def schemaDescription : SchemaOf Value → String
  | ⟨ident, valueType, cardinality, unique,
      index, fulltext, component, noHistory, doc⟩ =>
      applied "AttributeSchema"
        [ argument "ident" (Text.quoted ident)
        , argument "value_type"
            (Text.quoted valueType.keywordText)
        , argument "cardinality"
            (Text.quoted cardinality.keywordText)
        , argument "unique"
            (optionText (unique.map Uniqueness.keywordText))
        , argument "index" (description index)
        , argument "fulltext" (description fulltext)
        , argument "is_component" (description component)
        , argument "no_history" (description noHistory)
        , argument "doc" (optionText doc) ]

/- The description of a query context. -/
def contextDescription : ContextOf Value → String
  | ⟨bindings, projection, clauses, preds, rules⟩ =>
      applied "QueryContext"
        [ argument "let" (description bindings)
        , argument "yield_" (description projection)
        , argument "where" (description clauses)
        , argument "preds" (description preds)
        , argument "rules" (description rules) ]

/- The description of a database, with all that it holds. -/
def databaseDescription : DatabaseOf Value → String
  | ⟨basis, datoms, idents, attributes, partitions⟩ =>
      applied "MemoryDb"
        [ argument "basis_t" (toString basis)
        , argument "datoms"
            (bracketedTuple (datomDescriptions datoms))
        , argument "idents"
            (applied "mappingproxy"
              [braced (identDescriptions idents)])
        , argument "attributes"
            (applied "mappingproxy"
              [braced (attributeDescriptions attributes)])
        , argument "partitions"
            (bracketedTuple (descriptions partitions)) ]

/- The descriptions of all facts. -/
def datomDescriptions : List (DatomOf Value) → List String
  | [] => []
  | ⟨entity, attr, value, tx, added, _⟩ :: datoms =>
      applied "Datom"
        [ argument "e" (toString entity)
        , argument "a" (toString attr)
        , argument "v" (description value)
        , argument "tx" (toString tx)
        , argument "added" (boolText added) ]
        :: datomDescriptions datoms

/- The descriptions of all names of entities. -/
def identDescriptions : List (Value × Int) → List String
  | [] => []
  | (k, eid) :: idents =>
      (description k ++ ": " ++ toString eid)
        :: identDescriptions idents

/- The descriptions of all installed attributes. -/
def attributeDescriptions :
    List (Value × SchemaOf Value) → List String
  | [] => []
  | (k, s) :: attributes =>
      (description k ++ ": " ++ schemaDescription s)
        :: attributeDescriptions attributes

end

------------------------------------------------------------
-- Texts
------------------------------------------------------------

/-
  The plain text of a value: a text stands for itself, an
  instant is written by calendar and clock, all else is
  described.
-/
def text : Value → String
  | .str s => s
  | .instant micros => Instant.text micros
  | v => v.description

/- The description of a list of texts. -/
def describeTexts (texts : List String) : String :=
  bracketed "[" "]" (texts.map Text.quoted)

/- Describing texts is describing the list that holds them. -/
theorem describeTexts_eq_description (texts : List String) :
    describeTexts texts =
      description (.list (texts.map Value.str)) := by
  have h : ∀ ts : List String,
      descriptions (ts.map Value.str) =
        ts.map Text.quoted := by
    intro ts
    induction ts with
    | nil => simp [descriptions]
    | cons t ts ih => simp [descriptions, description, ih]
  simp [describeTexts, description, h]

end Value

end FactBase
