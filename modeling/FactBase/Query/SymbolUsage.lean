import FactBase.Query.Clause

/-
  This file checks how often variables are used.  A regular
  variable that occurs once is nearly always a slip of the
  pen, and a wildcard says that it is meant to occur once.

  Key definitions include:
    * `SymbolReport.ofSymbols`
    * `SymbolReport.faults`
    * `SymbolReport.check`
    * `querySymbols`
-/

------------------------------------------------------------
-- Counting Variables
------------------------------------------------------------

namespace FactBase

/- The name of a regular variable. -/
def Value.regularName? (v : Value) : Option String :=
  match Term.ofValue v with
  | .var name => some name
  | _ => none

/- The name of a wildcard. -/
def Value.wildcardName? (v : Value) : Option String :=
  match Term.ofValue v with
  | .wildcard name => some name
  | _ => none

namespace SymbolReport

/-
  Report regular variables that occur once and wildcards that
  occur more than once, in order of their first occurrence.
-/
def ofSymbols (symbols : List Value) : SymbolReport :=
  let regular := symbols.filterMap Value.regularName?
  let wildcards := symbols.filterMap Value.wildcardName?
  { orphans := regular.filter (fun n => regular.count n == 1)
    overused :=
      wildcards.eraseDups.filter
        (fun n => wildcards.count n > 1) }

/- The faults that a report finds, orphans first. -/
def faults (r : SymbolReport) : List Fault :=
  (if r.orphans.isEmpty then []
    else [.orphanSymbols r.orphans r])
  ++ (if r.overused.isEmpty then []
    else [.overusedWildcards r.overused r])

/- Fail with the first fault that a report finds. -/
def check (r : SymbolReport) : Outcome Unit :=
  match r.faults with
  | [] => .ok ()
  | fault :: _ => .error fault

/- A report finds faults exactly when it is not clean. -/
theorem faults_eq_nil_iff (r : SymbolReport) :
    r.faults = [] ↔ r.ok = true := by
  rcases r with ⟨orphans, overused⟩
  cases orphans <;> cases overused <;> simp [faults, ok]

end SymbolReport

------------------------------------------------------------
-- The Symbols of a Query
------------------------------------------------------------

/-
  All variables of the sections that bind or mention them.
  Predicates are left out: they only filter what other
  sections bind.
-/
def querySymbols
    (clauses bindings projection rules : List Value) :
    List Value :=
  (Value.list
    [ .list clauses, .list bindings
    , .list projection, .list rules ]).flatten.filter
    (fun v => (Term.ofValue v).name?.isSome)

end FactBase
