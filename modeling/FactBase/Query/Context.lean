import FactBase.Query.Clause
import FactBase.Value.Frozen

/-
  This file reads query contexts.  A context is read
  strictly, with every stray key and misplaced section
  reported at once, or leniently, where unknown keys are
  passed over and only the required sections must be there.

  Key definitions include:
    * `Context.toRecord`
    * `Context.readStrictly`
    * `Context.readLeniently`
    * `Context.ignoredKeys`
    * `Bindings.split`
    * `orderedSection`
-/

------------------------------------------------------------
-- Sections
------------------------------------------------------------

namespace FactBase

namespace Context

/- The names of the sections. -/
def sectionNames : List String :=
  ["let", "yield", "where", "preds", "rules"]

/- The names of the sections that must be there. -/
def requiredNames : List String :=
  ["let", "yield", "where"]

/- A context as a map. -/
def toRecord (c : Context) : List (Value × Value) :=
  [ (.str "let", c.bindings)
  , (.str "yield", c.projection)
  , (.str "where", c.clauses)
  , (.str "preds", c.preds)
  , (.str "rules", c.rules) ]

/- The key is the name of a section. -/
def isSectionName (key : Value) : Bool :=
  key.str?.any sectionNames.contains

------------------------------------------------------------
-- Strict Reading
------------------------------------------------------------

/- A section read, or what is wrong with it. -/
abbrev Reading := Except PayloadProblem (List Value)

/- The items of a section; nothing stands for no items. -/
def readItems
    (place : String)
    (v : Value) : Reading :=
  match v with
  | .null => .ok []
  | v =>
      match v.sequence? with
      | some items => .ok items
      | none => .error (.notOrdered place v.kind)

/- A section that must be there. -/
def readRequired
    (entries : List (Value × Value))
    (place : String) : Reading :=
  match Value.field? entries place with
  | some v => readItems place v
  | none => .error (.missing place)

/-
  The projection, which a trailing underscore may set apart
  in its name.
-/
def readProjection
    (entries : List (Value × Value)) : Reading :=
  match Value.field? entries "yield" with
  | some v => readItems "yield" v
  | none =>
      match Value.field? entries "yield_" with
      | some v => readItems "yield_" v
      | none => .error (.missing "yield")

/- The first problem among clause maps from a position on. -/
def clauseProblem? :
    Nat → List Value → Option PayloadProblem
  | _, [] => none
  | i, .map entries :: vs =>
      if Value.hasField entries Clause.entityKey then
        clauseProblem? (i + 1) vs
      else
        some (.clauseWithoutEntity "where" i)
  | i, _ :: _ => some (.clauseNotMap "where" i)

/- The clause maps, of which there must be some. -/
def readClauses
    (entries : List (Value × Value)) : Reading := do
  let items ← readRequired entries "where"
  if items.isEmpty then
    throw (.noClauses "where")
  else
    match clauseProblem? 0 items with
    | some problem => throw problem
    | none => return items

/- The value is a non-empty sequence. -/
def isCall (v : Value) : Bool :=
  v.sequence?.any (fun items => !items.isEmpty)

/- The position of the first item that is no call. -/
def nonCall? (items : List Value) : Option Nat :=
  items.findIdx? (fun v => !isCall v)

/- A section of calls, which may be left out. -/
def readCalls
    (entries : List (Value × Value))
    (place : String) : Reading :=
  match Value.field? entries place with
  | none => .ok []
  | some v => do
      let items ← readItems place v
      match nonCall? items with
      | some i => throw (.emptyCall place i)
      | none => return items

/- What is wrong with a key, if anything is. -/
def keyProblem?
    (entries : List (Value × Value))
    (key : Value) : Option PayloadProblem :=
  match key with
  | .str s =>
      if sectionNames.contains s then none
      else if s == "yield_"
          && !Value.hasField entries "yield" then none
      else some (.unknownKey s)
  | key => some (.keyNotText key)

/- The problem of a reading. -/
def problem? : Reading → Option PayloadProblem
  | .ok _ => none
  | .error p => some p

/-
  Read all sections.  If anything is wrong, all problems are
  reported, first those of the sections and then those of
  the other keys.
-/
def ofEntries
    (entries : List (Value × Value)) : Outcome Context :=
  let bindings := readRequired entries "let"
  let projection := readProjection entries
  let clauses := readClauses entries
  let preds := readCalls entries "preds"
  let rules := readCalls entries "rules"
  let stray :=
    entries.filterMap (fun e => keyProblem? entries e.1)
  match bindings, projection, clauses, preds, rules, stray with
  | .ok bindings, .ok projection, .ok clauses, .ok preds,
      .ok rules, [] =>
      .ok
        { bindings := .list bindings
          projection := .list projection
          clauses := .list clauses
          preds := .list preds
          rules := .list rules }
  | bindings, projection, clauses, preds, rules, stray =>
      .error (.shape (.payload
        ([bindings, projection, clauses, preds,
          rules].filterMap problem? ++ stray)))

/- Read a context strictly. -/
def readStrictly (v : Value) : Outcome Context :=
  match v with
  | .context c => ofEntries (toRecord c)
  | .map entries => ofEntries entries
  | _ => .error (.shape .contextNotMap)

------------------------------------------------------------
-- Lenient Reading
------------------------------------------------------------

/- An optional section, where anything false counts as none. -/
def optionalSection
    (entries : List (Value × Value))
    (name : String) : Value :=
  match Value.field? entries name with
  | some v => if v.truthy then v else .list []
  | none => .list []

/- A context from the sections of a map. -/
def ofMap (v : Value) : Outcome Context :=
  match v with
  | .map entries =>
      match Value.field? entries "let",
          Value.field? entries "yield",
          Value.field? entries "where" with
      | some bindings, some projection, some clauses =>
          .ok
            { bindings := bindings
              projection := projection
              clauses := clauses
              preds := optionalSection entries "preds"
              rules := optionalSection entries "rules" }
      | _, _, _ =>
          .error (.shape (.missingSections
            (requiredNames.filter
              (fun name => !Value.hasField entries name))))
  | _ => .error (.shape .contextNotMap)

/- Read a context leniently. -/
def readLeniently (v : Value) : Outcome Context :=
  match v with
  | .context c => .ok c
  | .map entries => ofMap (.map entries)
  | _ => .error (.shape .contextUnknown)

/- The keys that a lenient reading passes over, sorted. -/
def ignoredKeys (v : Value) : List String :=
  match v with
  | .map entries =>
      Value.sortedBy id
        ((entries.filter (fun e => !isSectionName e.1)).map
          (fun e => e.1.text))
  | _ => []

end Context

------------------------------------------------------------
-- Parts of Sections
------------------------------------------------------------

namespace Bindings

/- Every second item, from the first one on. -/
def alternate : List Value → List Value × List Value
  | x :: y :: rest =>
      let (xs, ys) := alternate rest
      (x :: xs, y :: ys)
  | _ => ([], [])

/- Split alternating variables and sources. -/
def split (v : Value) : Outcome (List Value × List Value) :=
  match v.sequence? with
  | none => .error (.shape (.bindingsNotOrdered v.kind))
  | some items =>
      if items.length % 2 == 0 then .ok (alternate items)
      else .error (.bindingCount items.length)

/- Splitting gives as many variables as sources. -/
theorem length_alternate (items : List Value) :
    (alternate items).1.length
      = (alternate items).2.length := by
  fun_induction alternate items <;> simp_all

end Bindings

/- The items of a section that must be a sequence. -/
def orderedSection
    (name : String)
    (v : Value) : Outcome (List Value) :=
  match v.sequence? with
  | some items => .ok items
  | none => .error (.shape (.sectionNotOrdered name v.kind))

end FactBase
