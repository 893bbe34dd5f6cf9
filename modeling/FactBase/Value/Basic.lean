import FactBase.Number.Binary64
import FactBase.Attribute.Vocabulary

/-
  This file defines the values that queries, transactions and
  stored facts are made of.  A whole database is itself a
  value, because a query receives it as an input.

  Key definitions include:
    * `SchemaOf`
    * `Origin`
    * `DatomOf`
    * `DatabaseOf`
    * `ContextOf`
    * `Value`
    * `Value.kind`
    * `Value.truthy`
    * `Value.unrolled`
    * `Value.items?`
-/

------------------------------------------------------------
-- Compound Values
------------------------------------------------------------

namespace FactBase

/-
  The definition of an attribute.  Its switches hold whatever
  value they were given; only their truth matters.
-/
structure SchemaOf (V : Type) where
  ident : String
  valueType : ValueType
  cardinality : Cardinality
  unique : Option Uniqueness
  index : V
  fulltext : V
  component : V
  noHistory : V
  doc : Option String

/-
  Where a value entered the store: in the log of which
  transaction, and at which place of it.
-/
structure Origin where
  tx : Int
  position : Nat
deriving DecidableEq, Repr

/-
  One fact: an entity has a value for an attribute, as
  asserted or retracted by a transaction.  Facts whose values
  have one origin hold the very same value.
-/
structure DatomOf (V : Type) where
  entity : Int
  attr : Int
  value : V
  tx : Int
  added : Bool
  origin : Origin

/-
  A database as of one basis: the facts in storage order, the
  names of entities, the installed attributes and the names
  of the partitions.
-/
structure DatabaseOf (V : Type) where
  basis : Nat
  datoms : List (DatomOf V)
  idents : List (V × Int)
  attributes : List (V × SchemaOf V)
  partitions : List V

/-
  The sections of a query: bound variables with their
  sources, projected terms, clause maps, predicates and rule
  invocations.
-/
structure ContextOf (V : Type) where
  bindings : V
  projection : V
  clauses : V
  preds : V
  rules : V

------------------------------------------------------------
-- Values
------------------------------------------------------------

/-
  A value.  Maps and sets keep the order in which their
  entries arrived.  A list that stands inside itself is
  written down once: where it stands again, it is only named
  by its origin.
-/
inductive Value where
  | null
  | bool (b : Bool)
  | int (n : Int)
  | float (x : Binary64)
  | str (s : String)
  | bytes (bs : List UInt8)
  | instant (micros : Int)
  | list (items : List Value)
  | tuple (items : List Value)
  | map (entries : List (Value × Value))
  | set (items : List Value)
  | frozenset (items : List Value)
  | var (name : String)
  | wildcard (name : String)
  | lit (value : Value)
  | tempid (partition : String) (serial : Int)
  | schema (schema : SchemaOf Value)
  | context (context : ContextOf Value)
  | database (db : DatabaseOf Value)
  | cyclic (origin : Origin) (items : List Value)
  | enclosing (origin : Origin)

instance : Inhabited Value where
  default := .null

/- An attribute definition. -/
abbrev Schema := SchemaOf Value

/- A stored fact. -/
abbrev Datom := DatomOf Value

/- A database value. -/
abbrev Database := DatabaseOf Value

/- A query by sections. -/
abbrev Context := ContextOf Value

namespace Value

/- The name of a value's kind. -/
def kind : Value → String
  | .null => "NoneType"
  | .bool _ => "bool"
  | .int _ => "int"
  | .float _ => "float"
  | .str _ => "str"
  | .bytes _ => "bytes"
  | .instant _ => "datetime"
  | .list _ => "list"
  | .tuple _ => "tuple"
  | .map _ => "dict"
  | .set _ => "set"
  | .frozenset _ => "frozenset"
  | .var _ => "Var"
  | .wildcard _ => "WildcardVar"
  | .lit _ => "Lit"
  | .tempid _ _ => "TempId"
  | .schema _ => "AttributeSchema"
  | .context _ => "QueryContext"
  | .database _ => "MemoryDb"
  | .cyclic _ _ => "list"
  | .enclosing _ => "list"

/-
  The truth of a value: nothing, zeros and empty collections
  are false.
-/
def truthy : Value → Bool
  | .null => false
  | .bool b => b
  | .int n => n != 0
  | .float x => !x.isZero
  | .str s => s != ""
  | .bytes bs => !bs.isEmpty
  | .list items => !items.isEmpty
  | .tuple items => !items.isEmpty
  | .map entries => !entries.isEmpty
  | .set items => !items.isEmpty
  | .frozenset items => !items.isEmpty
  | .cyclic _ items => !items.isEmpty
  | _ => true

mutual

/-
  A value where a list has been put in for every place at
  which the list of an origin stands again.
-/
def tied
    (origin : Origin)
    (whole : Value) : Value → Value
  | .list items => .list (tiedItems origin whole items)
  | .tuple items => .tuple (tiedItems origin whole items)
  | .map entries => .map (tiedEntries origin whole entries)
  | .cyclic inner items =>
      if inner == origin then .cyclic inner items
      else .cyclic inner (tiedItems origin whole items)
  | .enclosing inner =>
      if inner == origin then whole else .enclosing inner
  | v => v

/- The list put in for all items. -/
def tiedItems
    (origin : Origin)
    (whole : Value) : List Value → List Value
  | [] => []
  | v :: vs => tied origin whole v :: tiedItems origin whole vs

/- The list put in for the values of all entries. -/
def tiedEntries
    (origin : Origin)
    (whole : Value) :
    List (Value × Value) → List (Value × Value)
  | [] => []
  | (k, v) :: entries =>
      (k, tied origin whole v)
        :: tiedEntries origin whole entries

end

/- The items of a list that stands inside itself. -/
def unrolled
    (origin : Origin)
    (items : List Value) : List Value :=
  tiedItems origin (.cyclic origin items) items

/- A list keeps its length where it is unrolled. -/
theorem length_unrolled
    (origin : Origin)
    (items : List Value) :
    (unrolled origin items).length = items.length := by
  have h : ∀ (whole : Value) (vs : List Value),
      (tiedItems origin whole vs).length = vs.length := by
    intro whole vs
    induction vs with
    | nil => simp [tiedItems]
    | cons v vs ih => simp [tiedItems, ih]
  exact h _ _

/-
  The members of a value that can be walked through: a map
  gives its keys, a text its characters, a byte string its
  numbers.
-/
def items? : Value → Option (List Value)
  | .str s =>
      some (s.toList.map (fun c => .str (String.singleton c)))
  | .bytes bs =>
      some (bs.map (fun b => .int (b.toNat : Int)))
  | .list items => some items
  | .tuple items => some items
  | .map entries => some (entries.map Prod.fst)
  | .set items => some items
  | .frozenset items => some items
  | .cyclic origin items => some (unrolled origin items)
  | _ => none

/- The items of an ordered sequence: a list or a tuple. -/
def sequence? : Value → Option (List Value)
  | .list items => some items
  | .tuple items => some items
  | .cyclic origin items => some (unrolled origin items)
  | _ => none

/- An integer, which a truth value also is. -/
def int? : Value → Option Int
  | .bool b => some (if b then 1 else 0)
  | .int n => some n
  | _ => none

/- The text of a text. -/
def str? : Value → Option String
  | .str s => some s
  | _ => none

end Value

end FactBase
