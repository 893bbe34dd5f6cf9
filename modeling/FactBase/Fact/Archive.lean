import FactBase.Fact.Engine
import FactBase.Fact.Growth

/-
  This file defines the archive of an engine: all databases
  and results that it has produced.  They share the values of
  their facts, so a collection that grows has grown in all of
  them.

  Key definitions include:
    * `Datom.grown`
    * `Archive`
    * `Archive.start`
    * `Archive.commit`
    * `Archive.gather`
-/

------------------------------------------------------------
-- Grown Facts
------------------------------------------------------------

namespace FactBase

/- A fact with the value that it holds by now. -/
def Datom.grown
    (growths : Growths)
    (d : Datom) : Datom :=
  { d with value := growths.current (.ofDatom d) }

/- A fact is as it was where nothing has grown. -/
@[simp]
theorem Datom.grown_nil (d : Datom) : d.grown [] = d := by
  simp [Datom.grown, Held.ofDatom]

/- A database with the values that its facts hold by now. -/
def Database.grown
    (growths : Growths)
    (db : Database) : Database :=
  { db with datoms := db.datoms.map (Datom.grown growths) }

/- A result with the values that its facts hold by now. -/
def TxResult.grown
    (growths : Growths)
    (r : TxResult) : TxResult :=
  { r with
    before := r.before.grown growths
    after := r.after.grown growths
    facts := r.facts.map (Datom.grown growths) }

/- An engine with the values that its facts hold by now. -/
def Engine.grown
    (growths : Growths)
    (e : Engine) : Engine :=
  { e with db := e.db.grown growths }

------------------------------------------------------------
-- Archives
------------------------------------------------------------

/-
  An engine with its databases, the first one first, the
  results of its transactions, and the growth of collections.
-/
structure Archive where
  engine : Engine
  databases : List Database
  results : List TxResult
  growths : Growths

namespace Archive

/- The archive of a new engine with a clock. -/
def start (clock : Nat → Int) : Archive :=
  let engine := Engine.start clock
  { engine := engine
    databases := [engine.db]
    results := []
    growths := [] }

/-
  Run a transaction on the engine.  Its database and its
  result are kept if it succeeds.
-/
def commit
    (transaction : Engine → Outcome TxResult × Engine)
    (a : Archive) : Outcome TxResult × Archive :=
  let (outcome, engine) := transaction a.engine
  match outcome with
  | .ok r =>
      (.ok r,
        { a with
          engine := engine
          databases := a.databases ++ [r.after]
          results := a.results ++ [r] })
  | .error fault => (.error fault, { a with engine := engine })

/- The archive after collections have grown. -/
def grow
    (growths : Growths)
    (a : Archive) : Archive where
  engine := a.engine.grown growths
  databases := a.databases.map (Database.grown growths)
  results := a.results.map (TxResult.grown growths)
  growths := growths

/-
  Carry out a gathering.  What it adds to collections stays,
  whatever its outcome is.
-/
def gather
    {α : Type}
    (gathering : Gathering α)
    (a : Archive) : Outcome α × Archive :=
  let (outcome, growths) := gathering.run.run a.growths
  (outcome, a.grow growths)

end Archive

end FactBase
