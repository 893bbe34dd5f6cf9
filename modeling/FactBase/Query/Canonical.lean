import FactBase.Query.Term
import FactBase.Value.Frozen
import FactBase.Value.Table
import FactBase.Sorting.Sort

/-
  This file writes values as canonical JSON: keys sorted by
  code points, no spaces, characters beyond ASCII as they
  are.  Sequences of both sorts are arrays, keys of maps are
  texts, and what JSON has no form for is described.

  Key definitions include:
    * `Value.plain`
    * `Value.json`
    * `Value.plainJson`
-/

------------------------------------------------------------
-- Plain Values
------------------------------------------------------------

namespace FactBase

namespace Value

mutual

/-
  The plain form of a value: sequences as lists and keys of
  maps as texts, down to values of other kinds.
-/
def plain : Value → Value
  | .list items => .list (plainItems items)
  | .tuple items => .list (plainItems items)
  | .map entries => .map (Table.putAll (plainEntries entries) [])
  | v => v

/- The plain forms of all items. -/
def plainItems : List Value → List Value
  | [] => []
  | v :: vs => plain v :: plainItems vs

/- The plain forms of all entries, in order. -/
def plainEntries :
    List (Value × Value) → List (Value × Value)
  | [] => []
  | (k, v) :: entries =>
      (.str k.text, plain v) :: plainEntries entries

end

------------------------------------------------------------
-- JSON Texts
------------------------------------------------------------

/- An array of written items. -/
def jsonArray (items : List String) : String :=
  "[" ++ String.intercalate "," items ++ "]"

/- An object of written keys and values. -/
def jsonObject (entries : List (String × String)) : String :=
  "\x7b"
    ++ String.intercalate ","
      (entries.map (fun e => e.1 ++ ":" ++ e.2))
    ++ "\x7d"

/- A number that JSON has no form for is written by name. -/
def jsonNumber (x : Binary64) : String :=
  match x with
  | .undefined _ => "NaN"
  | .infinite negative =>
      if negative then "-Infinity" else "Infinity"
  | x => x.text

/- A truth value. -/
def jsonBool (b : Bool) : String :=
  if b then "true" else "false"

/- The text of a key; only simple values can be keys. -/
def jsonKey (key : Value) : Outcome String :=
  match key with
  | .null => .ok "null"
  | .bool b => .ok (jsonBool b)
  | .int n => .ok (toString n)
  | .float x => .ok (jsonNumber x)
  | .str s => .ok s
  | _ => .error .wrongKind

/- Whether a key sorts before another one. -/
def keyBefore
    {α : Type}
    (p q : Value × α) : Outcome Bool :=
  match Value.ordered .less p.1 q.1 with
  | .ok b => .ok b
  | .error _ => .error .wrongKind

/- An object from entries whose values are written. -/
def objectOf
    (entries : List (Value × Outcome String)) :
    Outcome String := do
  let entries ← Sorting.sort keyBefore entries
  let written ← entries.mapM (fun e => do
    let key ← jsonKey e.1
    let value ← e.2
    return (Text.jsonQuoted key, value))
  return jsonObject written

/- The object of a term that names a variable. -/
def jsonVariable (kind name : String) : String :=
  jsonObject
    [ (Text.jsonQuoted "kind", Text.jsonQuoted kind)
    , (Text.jsonQuoted "name", Text.jsonQuoted name) ]

/- The object of a literal, given its written value. -/
def jsonLiteral (value : String) : String :=
  jsonObject
    [ (Text.jsonQuoted "kind", Text.jsonQuoted "lit")
    , (Text.jsonQuoted "value", value) ]

mutual

/-
  The JSON text of a value.  Keys of maps are turned into
  texts first if `textKeys` is set; otherwise they must be
  fit for JSON and have a common order.  Members of sets are
  made plain and sorted by description.
-/
def json (textKeys : Bool) : Value → Outcome String
  | .null => .ok "null"
  | .bool b => .ok (jsonBool b)
  | .int n => .ok (toString n)
  | .float x => .ok (jsonNumber x)
  | .str s => .ok (Text.jsonQuoted s)
  | .list items => do
      return jsonArray (← (jsonItems textKeys items).mapM id)
  | .tuple items => do
      return jsonArray (← (jsonItems textKeys items).mapM id)
  | .map entries =>
      if textKeys then
        objectOf (Table.putAll
          ((jsonEntries true entries).map
            (fun e => (.str e.1.text, e.2))) [])
      else
        objectOf (jsonEntries false entries)
  | .set items => do
      return jsonArray (← ((sortedBy Prod.fst
        (jsonMembers items)).map Prod.snd).mapM id)
  | .frozenset items => do
      return jsonArray (← ((sortedBy Prod.fst
        (jsonMembers items)).map Prod.snd).mapM id)
  | .var name => .ok (jsonVariable "var" name)
  | .wildcard name => .ok (jsonVariable "wildcard" name)
  | .lit v => do return jsonLiteral (← json false v)
  | v => .ok (Text.jsonQuoted v.description)

/- The JSON texts of all items. -/
def jsonItems
    (textKeys : Bool) :
    List Value → List (Outcome String)
  | [] => []
  | v :: vs => json textKeys v :: jsonItems textKeys vs

/- The JSON texts of all entries, by key. -/
def jsonEntries
    (textKeys : Bool) :
    List (Value × Value) → List (Value × Outcome String)
  | [] => []
  | (k, v) :: entries =>
      (k, json textKeys v) :: jsonEntries textKeys entries

/- The members of a set with their plain descriptions. -/
def jsonMembers :
    List Value → List (String × Outcome String)
  | [] => []
  | v :: vs =>
      ((plain v).description, json true v) :: jsonMembers vs

end

/- The JSON text of a value made plain. -/
def plainJson (v : Value) : Outcome String :=
  json true v

end Value

end FactBase
