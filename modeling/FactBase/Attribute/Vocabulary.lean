/-
  This file defines the closed vocabularies of attribute
  definitions: value types, cardinalities and kinds of
  uniqueness, each with the keyword that names it.

  Key definitions include:
    * `ValueType`
    * `Cardinality`
    * `Uniqueness`
-/

------------------------------------------------------------
-- Value Types
------------------------------------------------------------

namespace FactBase

/- What an attribute's values are declared to be. -/
inductive ValueType where
  | keyword
  | string
  | boolean
  | long
  | bigint
  | float
  | double
  | bigdec
  | bytes
  | instant
  | uuid
  | uri
  | ref
deriving DecidableEq, Repr

namespace ValueType

/- The keyword that names a value type. -/
def keywordText : ValueType → String
  | .keyword => "db.type/keyword"
  | .string => "db.type/string"
  | .boolean => "db.type/boolean"
  | .long => "db.type/long"
  | .bigint => "db.type/bigint"
  | .float => "db.type/float"
  | .double => "db.type/double"
  | .bigdec => "db.type/bigdec"
  | .bytes => "db.type/bytes"
  | .instant => "db.type/instant"
  | .uuid => "db.type/uuid"
  | .uri => "db.type/uri"
  | .ref => "db.type/ref"

/- All value types. -/
def all : List ValueType :=
  [.keyword, .string, .boolean, .long, .bigint, .float,
   .double, .bigdec, .bytes, .instant, .uuid, .uri, .ref]

/- The value type that a keyword names. -/
def ofKeyword? (s : String) : Option ValueType :=
  all.find? (fun t => t.keywordText == s)

/- Every value type is read back from its keyword. -/
theorem ofKeyword?_keywordText (t : ValueType) :
    ofKeyword? t.keywordText = some t := by
  cases t <;> decide

end ValueType

------------------------------------------------------------
-- Cardinalities
------------------------------------------------------------

/- How many values of an attribute an entity may have. -/
inductive Cardinality where
  | one
  | many
deriving DecidableEq, Repr

namespace Cardinality

/- The keyword that names a cardinality. -/
def keywordText : Cardinality → String
  | .one => "db.cardinality/one"
  | .many => "db.cardinality/many"

/- The cardinality that a keyword names. -/
def ofKeyword? (s : String) : Option Cardinality :=
  [one, many].find? (fun c => c.keywordText == s)

/- Every cardinality is read back from its keyword. -/
theorem ofKeyword?_keywordText (c : Cardinality) :
    ofKeyword? c.keywordText = some c := by
  cases c <;> decide

end Cardinality

------------------------------------------------------------
-- Uniqueness
------------------------------------------------------------

/- How an attribute's values identify entities. -/
inductive Uniqueness where
  | value
  | identity
deriving DecidableEq, Repr

namespace Uniqueness

/- The keyword that names a kind of uniqueness. -/
def keywordText : Uniqueness → String
  | .value => "db.unique/value"
  | .identity => "db.unique/identity"

/- The kind of uniqueness that a keyword names. -/
def ofKeyword? (s : String) : Option Uniqueness :=
  [value, identity].find? (fun u => u.keywordText == s)

/- Every kind of uniqueness is read back from its keyword. -/
theorem ofKeyword?_keywordText (u : Uniqueness) :
    ofKeyword? u.keywordText = some u := by
  cases u <;> decide

end Uniqueness

end FactBase
