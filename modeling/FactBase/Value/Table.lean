import FactBase.Value.Equality

/-
  This file defines tables keyed by values.  A new key goes
  to the end, a key that is present keeps its place and its
  form when its entry is replaced.

  Key definitions include:
    * `Table.find?`
    * `Table.put`
    * `Table.erase`
    * `Value.field?`
-/

------------------------------------------------------------
-- Tables
------------------------------------------------------------

namespace FactBase

namespace Table

variable {α : Type}

/- The entry under a key. -/
def find?
    (key : Value) : List (Value × α) → Option α
  | [] => none
  | (k, x) :: rest =>
      if k.same key then some x else find? key rest

/- Set the entry under a key. -/
def put
    (key : Value)
    (x : α) : List (Value × α) → List (Value × α)
  | [] => [(key, x)]
  | (k, y) :: rest =>
      if k.same key then (k, x) :: rest
      else (k, y) :: put key x rest

/- Remove the entry under a key. -/
def erase
    (key : Value) : List (Value × α) → List (Value × α)
  | [] => []
  | (k, y) :: rest =>
      if k.same key then rest else (k, y) :: erase key rest

/- Set all entries of a list, from the first to the last. -/
def putAll
    (entries : List (Value × α))
    (table : List (Value × α)) : List (Value × α) :=
  entries.foldl (fun t e => put e.1 e.2 t) table

/- What was put under a key is found there. -/
theorem find?_put
    (key : Value)
    (x : α)
    (table : List (Value × α))
    (hKey : key.same key = true) :
    find? key (put key x table) = some x := by
  induction table with
  | nil => simp [put, find?, hKey]
  | cons e rest ih =>
      rcases e with ⟨k, y⟩
      by_cases h : k.same key = true
      · simp [put, find?, h]
      · simp [put, find?, h, ih]

/- Putting under a key that is present adds no entry. -/
theorem length_put_of_find?
    (key : Value)
    (x : α)
    (table : List (Value × α))
    (h : (find? key table).isSome = true) :
    (put key x table).length = table.length := by
  induction table with
  | nil => simp [find?] at h
  | cons e rest ih =>
      rcases e with ⟨k, y⟩
      by_cases hk : k.same key = true
      · simp [put, hk]
      · simp only [find?, hk] at h
        simpa [put, hk] using ih h

end Table

namespace Value

/- The entry of a map under a text key. -/
def field?
    (entries : List (Value × Value))
    (key : String) : Option Value :=
  Table.find? (.str key) entries

/- The map has an entry under a text key. -/
def hasField
    (entries : List (Value × Value))
    (key : String) : Bool :=
  (field? entries key).isSome

/- A map from texts to values. -/
def record (fields : List (String × Value)) : Value :=
  .map (fields.map (fun f => (.str f.1, f.2)))

end Value

end FactBase
