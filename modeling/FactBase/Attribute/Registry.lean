import FactBase.Attribute.Schema
import FactBase.Value.Frozen

/-
  This file defines the registry of declared attributes and
  the shelf on which definitions are kept between runs.

  Key definitions include:
    * `Registry`
    * `Registry.register`
    * `Registry.get?`
    * `Registry.declares`
    * `Registry.undeclared`
    * `Places`
    * `Shelf`
    * `Shelf.load`
    * `Shelf.readBack`
-/

------------------------------------------------------------
-- Declared Attributes
------------------------------------------------------------

namespace FactBase

/-
  The declared attributes by ident, in the order in which
  their idents were first registered.
-/
structure Registry where
  entries : List (String × Schema)

namespace Registry

/- No attribute is declared. -/
def empty : Registry where
  entries := []

/- Replace the entry under a name or add it at the end. -/
def place
    {α : Type}
    (name : String)
    (x : α) : List (String × α) → List (String × α)
  | [] => [(name, x)]
  | (n, y) :: rest =>
      if n == name then (n, x) :: rest
      else (n, y) :: place name x rest

/- Declare an attribute, in place of one of the same ident. -/
def register
    (s : Schema)
    (r : Registry) : Registry where
  entries := place s.ident s r.entries

/- Declare a value, which must be an attribute definition. -/
def registerValue
    (v : Value)
    (r : Registry) : Outcome Registry :=
  match v with
  | .schema s => .ok (r.register s)
  | _ => .error (.identifier .notSchema)

/- The registry of a list of values. -/
def ofValues (vs : List Value) : Outcome Registry :=
  vs.foldlM (fun r v => r.registerValue v) empty

/- The registry of a list of definitions. -/
def ofSchemas (ss : List Schema) : Registry :=
  ss.foldl (fun r s => r.register s) empty

/- The declared definitions, in order. -/
def schemas (r : Registry) : List Schema :=
  r.entries.map Prod.snd

/- The definition under an ident, read forward. -/
def get?
    (r : Registry)
    (ident : String) : Option Schema :=
  r.entries.lookup (Keyword.forward ident)

/-
  An ident is declared if its namespace is a built-in one or
  if its forward reading is registered.
-/
def declares
    (r : Registry)
    (ident : String) : Bool :=
  (Keyword.namespace? ident).any
      Keyword.builtinNamespaces.contains
    || (r.get? ident).isSome

/- The idents that are not declared, in order. -/
def undeclared
    (r : Registry)
    (idents : List String) : List String :=
  idents.filter (fun ident => !r.declares ident)

/- The definition placed under a name is found there. -/
theorem lookup_place
    {α : Type}
    (name : String)
    (x : α)
    (entries : List (String × α)) :
    (place name x entries).lookup name = some x := by
  induction entries with
  | nil => simp [place]
  | cons e rest ih =>
      rcases e with ⟨n, y⟩
      by_cases h : n = name
      · simp [place, h]
      · have hNe : (name == n) = false := by
          simp [beq_eq_false_iff_ne, Ne.symm h]
        simp [place, h, List.lookup_cons, hNe, ih]

------------------------------------------------------------
-- Look-Up by Any Value
------------------------------------------------------------

/-
  Whether a collection holds the slash that separates a
  namespace.  Only collections can be asked.
-/
def holdsSlash (v : Value) : Outcome Bool :=
  match v with
  | .str s => .ok (s.toList.contains '/')
  | .bytes _ => .error .wrongKind
  | v => do
      let items ← v.items
      return (Value.str "/").memberOf items

/-
  A name to look up.  What is not a text has no namespace to
  cut off, and must be fit to be a key.
-/
def soughtName (v : Value) : Outcome (Option String) :=
  match v with
  | .str s => .ok (some s)
  | v => do
      if ← holdsSlash v then
        throw (.mishap .missingMember)
      else if v.hashable then
        return none
      else
        throw .wrongKind

/- The definition under a value. -/
def getValue?
    (r : Registry)
    (v : Value) : Outcome (Option Schema) := do
  return (← soughtName v).bind r.get?

/- Whether a value is the ident of a declared attribute. -/
def declaresValue
    (r : Registry)
    (v : Value) : Outcome Bool := do
  return (← soughtName v).any r.declares

/- The values of a list that are not declared. -/
def undeclaredValues
    (r : Registry)
    (vs : List Value) : Outcome (List Value) :=
  vs.filterM (fun v => do return !(← r.declaresValue v))

/-
  The definitions in transaction data: all maps that install
  an attribute.
-/
def ofTxData (items : List Value) : Outcome Registry :=
  items.foldlM
    (fun r item =>
      match item with
      | .map entries =>
          if Value.hasField entries "db.install/_attribute" then
            do return r.register (← Schema.ofTxData entries)
          else
            .ok r
      | _ => .ok r)
    empty

end Registry

------------------------------------------------------------
-- Kept Definitions
------------------------------------------------------------

/-
  Where definitions are kept: the directory that a text names,
  and the one for when no text does.
-/
structure Places where
  named : String → String
  fallback : String

namespace Places

/- A setting that names a directory. -/
def chosenBy (setting : Option String) : Option String :=
  setting.filter (· != "")

/-
  The directory that two settings choose: the one that the
  first non-empty of them names, or else the fallback.
-/
def choose
    (p : Places)
    (attributeSetting generalSetting : Option String) : String :=
  match (chosenBy attributeSetting).or
      (chosenBy generalSetting) with
  | some name => p.named name
  | none => p.fallback

end Places

/-
  Definitions kept by directory, and the two settings that
  choose one of the directories.
-/
structure Shelf where
  places : Places
  attributeSetting : Option String
  generalSetting : Option String
  directories : List (String × List (String × Schema))

namespace Shelf

/- Nothing is set and nothing is kept. -/
def new (places : Places) : Shelf where
  places := places
  attributeSetting := none
  generalSetting := none
  directories := []

/- A new shelf where texts are the names of directories. -/
def empty : Shelf :=
  new { named := id, fallback := "" }

/- The directory that the settings choose. -/
def directory (s : Shelf) : String :=
  s.places.choose s.attributeSetting s.generalSetting

/- The definitions kept in a directory. -/
def entriesAt
    (s : Shelf)
    (directory : String) : List (String × Schema) :=
  (s.directories.lookup directory).getD []

/- The definitions kept in the chosen directory. -/
def entries (s : Shelf) : List (String × Schema) :=
  s.entriesAt s.directory

/- Replace what the chosen directory keeps. -/
def withEntries
    (s : Shelf)
    (kept : List (String × Schema)) : Shelf :=
  { s with
    directories :=
      (s.directory, kept)
        :: s.directories.filter (fun d => d.1 != s.directory) }

/- Keep a definition under its ident. -/
def keep
    (schema : Schema)
    (s : Shelf) : Shelf :=
  s.withEntries (Registry.place schema.ident schema s.entries)

/- Keep a value, which must be a definition. -/
def keepValue
    (v : Value)
    (s : Shelf) : Outcome Shelf :=
  match v with
  | .schema schema => .ok (s.keep schema)
  | _ => .error (.mishap .missingMember)

/- Forget what the chosen directory keeps. -/
def clear (s : Shelf) : Shelf :=
  s.withEntries []

/-
  The kept definitions, sorted by ident, with switches read
  as truth values.
-/
def load (s : Shelf) : List Schema :=
  Value.sortedBy SchemaOf.ident
    (s.entries.map (fun e => e.2.normalized))

/- The same, as definitions are read back from records. -/
def readBack (s : Shelf) : Outcome (List Schema) := do
  let kept ←
    s.entries.mapM (fun e => Schema.ofRecord e.2.toRecord)
  return Value.sortedBy SchemaOf.ident kept

/- The registry of the kept definitions. -/
def registry (s : Shelf) : Registry :=
  Registry.ofSchemas s.load

end Shelf

end FactBase
