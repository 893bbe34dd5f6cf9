import FactBase.Fault
import FactBase.Value.Frozen
import FactBase.Value.Table

/-
  This file shapes the rows of a result: as a set of frozen
  rows, as maps from labels to values without repetitions, or
  as a list of all rows.

  Key definitions include:
    * `RowShape`
    * `RowShape.ofValue`
    * `shapeRows`
    * `onlyRow`
    * `onlyValue`
-/

------------------------------------------------------------
-- Shapes
------------------------------------------------------------

namespace FactBase

/- The shape in which rows are returned. -/
inductive RowShape where
  | tupleSet
  | mapSet
  | rowList
deriving DecidableEq, Repr

namespace RowShape

/- The name of a shape. -/
def name : RowShape → String
  | .tupleSet => "tuple_set"
  | .mapSet => "map_set"
  | .rowList => "row_list"

/- The shape that a value names. -/
def ofValue (v : Value) : Outcome RowShape :=
  match [tupleSet, mapSet, rowList].find?
      (fun s => v.str? == some s.name) with
  | some s => .ok s
  | none => .error (.shape (.unknownShape v))

/- Every shape is read back from its name. -/
theorem ofValue_name (s : RowShape) :
    ofValue (.str s.name) = .ok s := by
  cases s <;> simp [ofValue, Value.str?, name]

end RowShape

------------------------------------------------------------
-- Shaped Rows
------------------------------------------------------------

/- The frozen form of a row, by which rows are recognised. -/
def frozenRow (values : List Value) : Value :=
  .tuple (Value.frozenItems values)

/-
  A frozen row that may be a member of a set.  Freezing a
  value without end would be endless.
-/
def rowKey (values : List Value) : Outcome Value := do
  let key := frozenRow (← values.mapM Value.toEnd)
  if key.hashable then return key else throw .wrongKind

/- Add a row to a set of frozen rows. -/
def addFrozen
    (kept : List Value)
    (row : Value) : Outcome (List Value) := do
  let key ← rowKey (← row.items)
  return if key.memberOf kept then kept else kept ++ [key]

/-
  A map from labels to values.  A label that is repeated
  keeps its place and takes the later value.
-/
def labeledRow
    (labels values : List Value) : Outcome Value :=
  if (labels.take values.length).all Value.hashable then
    .ok (.map (Table.putAll (labels.zip values) []))
  else
    .error .wrongKind

/- The rows kept so far, by frozen form and as maps. -/
structure KeyedRows where
  seen : List Value
  maps : List Value

/- Add a row as a map, unless its frozen form was seen. -/
def addKeyed
    (labels : List Value)
    (kept : KeyedRows)
    (row : Value) : Outcome KeyedRows := do
  let values ← row.items
  if values.length == labels.length then
    let key ← rowKey values
    if key.memberOf kept.seen then
      return kept
    else
      let map ← labeledRow labels values
      return { seen := kept.seen ++ [key]
               maps := kept.maps ++ [map] }
  else
    throw (.shape (.rowWidth values.length labels.length))

/- Shape rows.  Only maps need labels. -/
def shapeRows
    (shape : RowShape)
    (labels : Option Value)
    (rows : Value) : Outcome Value :=
  match shape with
  | .tupleSet => do
      return .set (← (← rows.items).foldlM addFrozen [])
  | .rowList => do
      let rows ← (← rows.items).mapM Value.items
      return .list (rows.map Value.tuple)
  | .mapSet =>
      match labels with
      | none => .error (.shape .labelsNeeded)
      | some labels => do
          let labels ← labels.items
          let kept ←
            (← rows.items).foldlM (addKeyed labels)
              { seen := [], maps := [] }
          return .list kept.maps

------------------------------------------------------------
-- Single Rows and Values
------------------------------------------------------------

/- The only row of a result. -/
def onlyRow (result : Value) : Outcome Value := do
  match ← result.items with
  | [row] => return row
  | rows => throw (.cardinality (.rows rows.length))

/- The values of a row; a map is a row of its values. -/
def rowValues : Value → Outcome (List Value)
  | .map entries => .ok (entries.map Prod.snd)
  | row => row.items

/- The only value of the only row of a result. -/
def onlyValue (result : Value) : Outcome Value := do
  match ← rowValues (← onlyRow result) with
  | [v] => return v
  | values => throw (.cardinality (.values values.length))

end FactBase
