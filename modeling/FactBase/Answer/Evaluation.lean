import FactBase.Query.Document
import FactBase.Answer.Predicate
import FactBase.Answer.Pattern
import FactBase.Answer.Pull

/-
  This file evaluates queries.  Inputs bind variables and
  choose the database; each clause extends or filters the
  assignments that are left; each assignment that reaches the
  end gives one row.

  Key definitions include:
    * `Inputs`
    * `Inputs.bind`
    * `Database.step`
    * `Database.solve`
    * `Database.project`
    * `Solution`
    * `Call.evaluate`
    * `evaluateCall`
-/

------------------------------------------------------------
-- Inputs
------------------------------------------------------------

namespace FactBase

/- The database of a query and the assignments to start from. -/
structure Inputs where
  source : Option Database
  assignments : List Assignment

namespace Inputs

/- Nothing is bound yet. -/
def empty : Inputs where
  source := none
  assignments := [[]]

/- The name of the only source. -/
def sourceName : String := "$"

/- The text names a source. -/
def namesSource (s : String) : Bool :=
  s.toList.head? == some '$'

/- Take a database as the source. -/
def bindSource
    (inputs : Inputs)
    (name : String)
    (v : Value) : Outcome Inputs :=
  if name == sourceName then
    match v with
    | .database db => .ok { inputs with source := some db }
    | _ => .error (.engine .sourceNotDatabase)
  else .error (.engine (.unknownSource name))

/- Bind a variable to a value. -/
def bindOne
    (inputs : Inputs)
    (name : String)
    (v : Value) : Inputs :=
  { inputs with
    assignments :=
      inputs.assignments.map (·.set name (.fresh v)) }

/- Bind a variable to each member of a value. -/
def bindEach
    (inputs : Inputs)
    (name : String)
    (v : Value) : Outcome Inputs := do
  let extended ← inputs.assignments.mapM (fun σ => do
    return (← v.items).map (fun x => σ.set name (.fresh x)))
  return { inputs with assignments := extended.flatten }

/- Bind what an input names to the argument given for it. -/
def bind
    (inputs : Inputs)
    (input : Value × Value) : Outcome Inputs :=
  let (binding, v) := input
  let unsupported : Outcome Inputs :=
    .error (.engine (.unsupportedInput binding))
  match binding with
  | .str name =>
      if namesSource name then inputs.bindSource name v
      else if startsWithSigil name then
        .ok (inputs.bindOne name v)
      else unsupported
  | binding =>
      match binding.sequence? with
      | some [.str name, .str "..."] =>
          if startsWithSigil name then inputs.bindEach name v
          else unsupported
      | _ => unsupported

/- Bind all inputs in order. -/
def ofArguments
    (bindings args : List Value) : Outcome Inputs :=
  if bindings.length != args.length then
    .error
      (.engine (.inputCount bindings.length args.length))
  else
    (bindings.zip args).foldlM bind empty

/- The database of a query, which must be given. -/
def database (inputs : Inputs) : Outcome Database :=
  match inputs.source with
  | some db => .ok db
  | none => .error (.engine .noSource)

end Inputs

------------------------------------------------------------
-- Clauses
------------------------------------------------------------

namespace Database

/-
  The expression of a clause, which is a predicate if it is
  the only item of the clause and a sequence itself.
-/
def expressionOf? : List Value → Option Value
  | [expr] => if expr.sequence?.isSome then some expr else none
  | _ => none

/- The assignments that are left after one clause. -/
def step
    (db : Database)
    (assignments : List Assignment)
    (clause : Value) : Outcome (List Assignment) :=
  match clause.sequence? with
  | none => .error (.engine (.invalidClause clause))
  | some [] => .error (.engine (.invalidClause clause))
  | some items =>
      match expressionOf? items with
      | some expr =>
          assignments.filterM (fun σ => σ.satisfies expr)
      | none =>
          if items.length > 3 then
            .error (.engine (.unsupportedClause clause))
          else do
            let extended ← assignments.mapM (db.matching items)
            return extended.flatten

/- The assignments that are left after all clauses. -/
def solve
    (db : Database)
    (clauses : List Value)
    (assignments : List Assignment) :
    Outcome (List Assignment) :=
  clauses.foldlM db.step assignments

------------------------------------------------------------
-- Projection
------------------------------------------------------------

/- The value of a projected term. -/
def project
    (db : Database)
    (σ : Assignment)
    (term : Value) : Gathering Shown :=
  let unsupported : Gathering Shown :=
    throw (.engine (.unsupportedProjection term))
  match term with
  | .str name =>
      if startsWithSigil name then
        match σ.held? name with
        | some h => return .one h
        | none => throw (.engine (.unboundProjection name))
      else unsupported
  | term =>
      match term.sequence? with
      | some [.str "pull", x, pattern] =>
          match x.str?.bind σ.held? with
          | some eid => db.pull pattern eid
          | none =>
              if x.hashable then
                throw (.engine (.unboundPull x))
              else throw .wrongKind
      | _ => unsupported

/- One row for each assignment. -/
def rows
    (db : Database)
    (find : List Value)
    (assignments : List Assignment) :
    Gathering (List (List Shown)) :=
  assignments.mapM (fun σ => find.mapM (db.project σ))

end Database

------------------------------------------------------------
-- Calls
------------------------------------------------------------

/- A database, and the assignments that answer a query of it. -/
structure Solution where
  db : Database
  assignments : List Assignment

namespace Solution

/- The solution of clauses from given inputs. -/
def ofInputs
    (inputs : Inputs)
    (clauses : Outcome (List Value)) : Outcome Solution := do
  let db ← inputs.database
  let assignments ←
    db.solve (← clauses) inputs.assignments
  return { db := db, assignments := assignments }

/- The rows of a solution, once all pulls are done. -/
def rows
    (find : List Value)
    (s : Solution) : Gathering (List (List Value)) := do
  let rows ← s.db.rows find s.assignments
  rows.mapM (fun row => row.mapM Gathering.look)

end Solution

/- The rows that a call asks for. -/
def Call.evaluate
    (c : Call) : Gathering (List (List Value)) := do
  let solution ← Gathering.lift (do
    let inputs ← Inputs.ofArguments c.inputs c.args
    Solution.ofInputs inputs (.ok c.clauses))
  solution.rows c.find

/- Rows as a value: a list of tuples. -/
def rowsValue (rows : List (List Value)) : Value :=
  .list (rows.map Value.tuple)

/- The answer of an engine that evaluates every call. -/
def Call.answer (c : Call) : Gathering Value :=
  rowsValue <$> c.evaluate

/-
  The rows for parts that may be any values.  A part is only
  walked through when it is needed.
-/
def evaluateCall
    (find bindings clauses args : Value) :
    Gathering (List (List Value)) := do
  let solution ← Gathering.lift (do
    let inputs ←
      Inputs.ofArguments (← bindings.items) (← args.items)
    Solution.ofInputs inputs clauses.items)
  if solution.assignments.isEmpty then
    return []
  else
    solution.rows (← Gathering.lift find.items)

end FactBase
