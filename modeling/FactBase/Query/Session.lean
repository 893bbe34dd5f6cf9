import FactBase.Query.Document
import FactBase.Query.Rows
import FactBase.Fact.Growth

/-
  This file runs queries: a context is compiled, the document
  is handed to an engine, and the rows are shaped.  Every
  rule that does not need the rows is checked before the
  engine is called.

  Key definitions include:
    * `Transcript`
    * `Session`
    * `runDocument`
    * `runContext`
    * `EntryPoint`
    * `EntryPoint.run`
-/

------------------------------------------------------------
-- Sessions
------------------------------------------------------------

namespace FactBase

/-
  The calls and notes of a session in order, and how the
  collections that facts hold have grown by now.
-/
structure Transcript where
  calls : List Call
  notes : List String
  growths : Growths

namespace Transcript

/- Nothing has happened yet. -/
def start (growths : Growths) : Transcript where
  calls := []
  notes := []
  growths := growths

/- Enter a call and the growth after it. -/
def enter
    (call : Call)
    (growths : Growths)
    (t : Transcript) : Transcript :=
  { t with
    calls := t.calls ++ [call]
    growths := growths }

end Transcript

/-
  How a session runs: the engine that answers calls, and
  whether notes are taken.
-/
structure SessionSetup where
  answer : Call → Gathering Value
  noted : Bool
  options : CompileOptions

/- A computation that may call the engine and may fail. -/
abbrev Session :=
  ReaderT SessionSetup (ExceptT Fault (StateM Transcript))

namespace Session

/- Take a note, if notes are taken. -/
def note (text : Outcome String) : Session Unit := do
  if (← read).noted then
    let text ← (text : Except Fault String)
    modify (fun t => { t with notes := t.notes ++ [text] })

/- Call the engine. -/
def ask (call : Call) : Session Value := do
  let answer := (← read).answer call
  let (result, growths) := answer.run.run (← get).growths
  modify (Transcript.enter call growths)
  (result : Except Fault Value)

end Session

------------------------------------------------------------
-- Running Documents
------------------------------------------------------------

/- The note about a compiled document. -/
def QueryDocument.compiledNote (d : QueryDocument) : Outcome String := do
  let name ← d.queryId
  return "compiled " ++ name ++ " find="
    ++ (Value.plain (.tuple d.find)).description

/- The note about a document that was run. -/
def QueryDocument.ranNote
    (d : QueryDocument)
    (shape : RowShape) : Outcome String := do
  let name ← d.queryId
  return "ran " ++ name ++ " shape=" ++ shape.name

/- Compile a context. -/
def compileContext (context : Value) : Session QueryDocument := do
  let options := (← read).options
  let d ← (compileQuery options context : Except Fault _)
  Session.note d.compiledNote
  return d

/- The labels that a shape needs. -/
def QueryDocument.labelsFor
    (d : QueryDocument)
    (shape : RowShape) : Outcome (Option Value) :=
  match shape with
  | .mapSet => do
      let labels ← d.requireLabels
      return some (.list (labels.map Value.str))
  | _ => .ok none

/- Run a document and shape its rows. -/
def runDocument
    (d : QueryDocument)
    (shape : Value) : Session Value := do
  let shape ← (RowShape.ofValue shape : Except Fault _)
  let labels ← (d.labelsFor shape : Except Fault _)
  let rows ← Session.ask d.call
  Session.note (d.ranNote shape)
  (shapeRows shape labels rows : Except Fault _)

/- Compile a context, run it and shape its rows. -/
def runContext
    (context shape : Value) : Session Value := do
  let d ← compileContext context
  runDocument d shape

------------------------------------------------------------
-- Entry Points
------------------------------------------------------------

/- The term pulls attributes of an entity. -/
def isPullTerm (v : Value) : Bool :=
  match v.sequence? with
  | some (.str "pull" :: _) => true
  | _ => false

/- Some term pulls attributes of an entity. -/
def containsPull (terms : List Value) : Bool :=
  terms.any isPullTerm

/- The ways to run a query. -/
inductive EntryPoint where
  | shaped (shape : Value)
  | rows
  | maps
  | pulled
  | oneRow
  | oneValue

/- The name of a shape, as a value. -/
def RowShape.value (s : RowShape) : Value :=
  .str s.name

/- Run a document whose projection pulls attributes. -/
def runPull (context : Value) : Session Value := do
  let d ← compileContext context
  if containsPull d.find then
    runDocument d RowShape.rowList.value
  else
    throw (.notPull d.find)

/- Run a query by one of its ways. -/
def EntryPoint.run
    (p : EntryPoint)
    (context : Value) : Session Value := do
  match p with
  | .shaped shape => runContext context shape
  | .rows => runContext context RowShape.tupleSet.value
  | .maps => runContext context RowShape.mapSet.value
  | .pulled => runPull context
  | .oneRow =>
      let rows ← runContext context RowShape.tupleSet.value
      (onlyRow rows : Except Fault _)
  | .oneValue =>
      let rows ← runContext context RowShape.tupleSet.value
      (onlyValue rows : Except Fault _)

end FactBase
