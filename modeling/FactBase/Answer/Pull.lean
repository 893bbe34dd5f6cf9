import FactBase.Fact.Entity

/-
  This file pulls attributes of an entity by a pattern.  A
  pattern names attributes, asks for all of them, or gives a
  pattern of its own for the entities that an attribute
  refers to.

  Key definitions include:
    * `Database.pull`
    * `Database.pullItem`
    * `Database.pullEntries`
-/

------------------------------------------------------------
-- Pulled Values
------------------------------------------------------------

namespace FactBase

namespace Database

/- The entry for the id of the pulled entity. -/
def idEntry : Value := .str "db/id"

/-
  Add a value under an attribute: to the list of its values
  where it may have many, otherwise in place of the last one.
  A list that a fact holds is the list of that fact, which
  grows.
-/
def addPulled
    (schema : Schema)
    (s : Shown)
    (entries : List (Value × Shown)) :
    Gathering (List (Value × Shown)) :=
  let key := Value.str schema.ident
  if schema.many then
    match (Table.find? key entries).getD (.list []) with
    | .list items =>
        return Table.put key (.list (items ++ [s])) entries
    | .one ⟨.list items, some origin⟩ => do
        Gathering.add origin (.list items) s
        return entries
    | .one ⟨.cyclic _ items, some origin⟩ => do
        Gathering.add origin (.list items) s
        return entries
    | _ => throw (.mishap .missingMember)
  else
    return Table.put key s entries

/- The value of a fact that is not pulled further. -/
def pulledFlat
    (schema : Schema)
    (d : Datom) : Shown :=
  if schema.isRef then .map [(idEntry, .ofDatom d)]
  else .ofDatom d

/-
  A value that refers to an entity is pulled further where
  there is a pattern for it.
-/
def pulledBy
    (sub : Value)
    (further : Held → Gathering Shown)
    (schema : Schema)
    (d : Datom) : Gathering Shown :=
  match schema.isRef, sub with
  | true, .null => return pulledFlat schema d
  | true, _ => further (.ofDatom d)
  | false, _ => return .ofDatom d

/- Pull one fact without going further. -/
def pullFact
    (db : Database)
    (entries : List (Value × Shown))
    (d : Datom) : Gathering (List (Value × Shown)) :=
  match db.schemaOf? d.attr with
  | some schema =>
      addPulled schema (pulledFlat schema d) entries
  | none => throw (.mishap .missingKey)

/- The facts that give an entity a value for an attribute. -/
def factsAbout
    (db : Database)
    (eid : Value)
    (attr : Int) : List Datom :=
  (db.factsOf eid).filter (fun d => d.attr == attr)

/- Pull all values of an attribute. -/
def pullAttribute
    (db : Database)
    (eid : Held)
    (ident : Value)
    (further : Schema → Datom → Gathering Shown)
    (entries : List (Value × Shown)) :
    Gathering (List (Value × Shown)) := do
  let attr ← Gathering.lift (db.installed ident)
  (db.factsAbout eid.value attr.eid).foldlM
    (fun entries d => do
      addPulled attr.schema (← further attr.schema d) entries)
    entries

/- Pull what a text in a pattern asks for. -/
def pullNamed
    (db : Database)
    (eid : Held)
    (name : String)
    (entries : List (Value × Shown)) :
    Gathering (List (Value × Shown)) :=
  if name == "*" then
    (db.factsOf eid.value).foldlM db.pullFact
      (Table.put idEntry (.one eid) entries)
  else if name == "db/id" then
    return Table.put idEntry (.one eid) entries
  else
    db.pullAttribute eid (.str name)
      (fun schema d => return pulledFlat schema d) entries

------------------------------------------------------------
-- Patterns
------------------------------------------------------------

mutual

/- Pull by a whole pattern, which must be a sequence. -/
def pull
    (db : Database)
    (pattern : Value)
    (eid : Held) : Gathering Shown :=
  match pattern with
  | .list items => do
      return .map (← pullItems db items eid [])
  | .tuple items => do
      return .map (← pullItems db items eid [])
  | pattern => throw (.engine (.pullPattern pattern))

/- Pull by the elements of a pattern in turn. -/
def pullItems
    (db : Database)
    (items : List Value)
    (eid : Held)
    (entries : List (Value × Shown)) :
    Gathering (List (Value × Shown)) :=
  match items with
  | [] => return entries
  | item :: items => do
      pullItems db items eid (← pullItem db item eid entries)

/- Pull by one element of a pattern. -/
def pullItem
    (db : Database)
    (item : Value)
    (eid : Held)
    (entries : List (Value × Shown)) :
    Gathering (List (Value × Shown)) :=
  match item with
  | .str name => db.pullNamed eid name entries
  | .map subs => pullEntries db subs eid entries
  | item => throw (.engine (.pullElement item))

/-
  Pull by attributes that come with a pattern for the
  entities that they refer to.
-/
def pullEntries
    (db : Database)
    (subs : List (Value × Value))
    (eid : Held)
    (entries : List (Value × Shown)) :
    Gathering (List (Value × Shown)) :=
  match subs with
  | [] => return entries
  | (ident, sub) :: subs => do
      let entries ←
        db.pullAttribute eid ident
          (pulledBy sub (pull db sub)) entries
      pullEntries db subs eid entries

end

end Database

end FactBase
