import FactBase.Query.Document

/-
  This file examines a query context without giving up at the
  first fault: every section that can be looked at is, and
  all that is wrong with them is reported together.

  Key definitions include:
    * `Diagnostic`
    * `Diagnosis`
    * `Diagnosis.ok`
    * `diagnose`
-/

------------------------------------------------------------
-- Diagnostics
------------------------------------------------------------

namespace FactBase

/- How grave a finding is. -/
inductive Severity where
  | error
  | warning
deriving DecidableEq, Repr

/- The name of a severity. -/
def Severity.name : Severity → String
  | .error => "error"
  | .warning => "warning"

/- What a finding is about. -/
inductive Finding where
  | contextShape
  | clauseShape
  | bindingList
  | bindingShape
  | orphans
  | overused
  | unknownAttributes
  | ignoredKeys
  | unlabeled
deriving DecidableEq, Repr

namespace Finding

/- The stage at which a finding is made. -/
def phase : Finding → String
  | .contextShape => "context.shape"
  | .clauseShape => "where.normalize"
  | .bindingList => "let.split"
  | .bindingShape => "let.split"
  | .orphans => "symbols.usage"
  | .overused => "symbols.usage"
  | .unknownAttributes => "where.attributes"
  | .ignoredKeys => "context.shape"
  | .unlabeled => "yield.labels"

/- The code of a finding. -/
def code : Finding → String
  | .contextShape => "QUERY_CONTEXT_SHAPE_ERROR"
  | .clauseShape => "QUERY_WHERE_SHAPE_ERROR"
  | .bindingList => "QUERY_BINDING_LIST_ERROR"
  | .bindingShape => "QUERY_CONTEXT_SHAPE_ERROR"
  | .orphans => "QUERY_ORPHAN_SYMBOLS"
  | .overused => "QUERY_OVERUSED_WILDCARDS"
  | .unknownAttributes => "QUERY_UNKNOWN_ATTRIBUTES"
  | .ignoredKeys => "QUERY_IGNORED_CONTEXT_KEYS"
  | .unlabeled => "QUERY_UNLABELED_PROJECTION"

/- The part of the context that a finding points to. -/
def path : Finding → String
  | .clauseShape => "$.where"
  | .bindingList => "$.let"
  | .bindingShape => "$.let"
  | .unknownAttributes => "$.where"
  | .unlabeled => "$.yield"
  | _ => "$"

end Finding

/- One finding about a context. -/
structure Diagnostic where
  severity : Severity
  finding : Finding
  message : String
  symbols : List String
deriving DecidableEq, Repr

namespace Diagnostic

/- An error that reports a fault. -/
def ofFault
    (finding : Finding)
    (fault : Fault)
    (symbols : List String) : Diagnostic where
  severity := .error
  finding := finding
  message := fault.message?.getD ""
  symbols := symbols

/- A warning. -/
def warning
    (finding : Finding)
    (message : String) : Diagnostic where
  severity := .warning
  finding := finding
  message := message
  symbols := []

/- An error about the use of variables. -/
def ofSymbolFault (fault : Fault) : Diagnostic :=
  match fault with
  | .orphanSymbols symbols _ => ofFault .orphans fault symbols
  | .overusedWildcards symbols _ =>
      ofFault .overused fault symbols
  | fault => ofFault .overused fault []

end Diagnostic

------------------------------------------------------------
-- Diagnoses
------------------------------------------------------------

/-
  All findings about a context: its errors and warnings, how
  its variables are used, and the name of the query if there
  is nothing wrong with it.
-/
structure Diagnosis where
  queryId : Option String
  report : Option SymbolReport
  errors : List Diagnostic
  warnings : List Diagnostic

namespace Diagnosis

/- Nothing is wrong. -/
def ok (d : Diagnosis) : Bool :=
  d.errors.isEmpty

/- A diagnosis that ends before variables are counted. -/
def early
    (errors warnings : List Diagnostic) : Diagnosis where
  queryId := none
  report := none
  errors := errors
  warnings := warnings

/- The fault concerns only the clauses of the context. -/
def onlyClauses : Fault → Bool
  | .shape (.payload problems) =>
      !problems.isEmpty
        && problems.all (fun p => p.place == "where")
  | _ => false

/- The finding about a context that cannot be read. -/
def unreadable (fault : Fault) : Diagnostic :=
  if onlyClauses fault then
    Diagnostic.ofFault .clauseShape fault []
  else
    Diagnostic.ofFault .contextShape fault []

/- The warning about keys that were passed over. -/
def ignoredWarnings (ignored : List String) : List Diagnostic :=
  if ignored.isEmpty then []
  else
    [Diagnostic.warning .ignoredKeys
      ("unknown sections ignored: "
        ++ Value.describeTexts ignored)]

/- The warning about terms without labels. -/
def labelWarnings (projection : List Value) : List Diagnostic :=
  let unlabeled :=
    (projection.filter
      (fun v => (projectionLabel? v).isNone)).map Value.text
  if unlabeled.isEmpty then []
  else
    [Diagnostic.warning .unlabeled
      ("projections without labels cannot be used for keyed "
        ++ "results: " ++ Value.describeTexts unlabeled)]

/- The finding about clauses that cannot be read. -/
def clauseErrors {α : Type} : Outcome α → List Diagnostic
  | .ok _ => []
  | .error fault => [Diagnostic.ofFault .clauseShape fault []]

/- The finding about bindings that cannot be split. -/
def bindingErrors {α : Type} : Outcome α → List Diagnostic
  | .ok _ => []
  | .error (.bindingCount n) =>
      [Diagnostic.ofFault .bindingList (.bindingCount n) []]
  | .error fault =>
      [Diagnostic.ofFault .bindingShape fault []]

/- The finding about sections that are out of order. -/
def sectionErrors {α : Type} : Outcome α → List Diagnostic
  | .ok _ => []
  | .error fault => [Diagnostic.ofFault .contextShape fault []]

/- The projection, the predicates and the rules. -/
def sections
    (c : Context) :
    Outcome (List Value × List Value × List Value) := do
  let projection ← orderedSection "yield" c.projection
  let preds ← orderedSection "preds" c.preds
  let rules ← orderedSection "rules" c.rules
  return (projection, preds, rules)

/- The finding about attributes that are not declared. -/
def attributeErrors
    (o : CompileOptions)
    (p : ContextParts) : List Diagnostic :=
  let unknown := p.undeclared o
  if unknown.isEmpty then []
  else
    [Diagnostic.ofFault .unknownAttributes
      (.unknownAttributes unknown) unknown]

/- Examine the parts of a context that could be read. -/
def ofParts
    (o : CompileOptions)
    (ignored : List Diagnostic)
    (p : ContextParts) : Outcome Diagnosis := do
  let report := p.symbolReport
  let errors :=
    report.faults.map Diagnostic.ofSymbolFault
      ++ attributeErrors o p
  let warnings :=
    ignored ++ labelWarnings p.parts.projection
  let queryId ←
    if errors.isEmpty then
      some <$> (QueryDocument.assemble p.parts).queryId
    else
      pure none
  return {
    queryId := queryId
    report := some report
    errors := errors
    warnings := warnings }

/- Examine a context that could be read. -/
def ofContext
    (o : CompileOptions)
    (ignored : List Diagnostic)
    (c : Context) : Outcome Diagnosis :=
  let clauses := Clause.ofMaps c.clauses
  let bindings := Bindings.split c.bindings
  let rest := sections c
  match clauses, bindings, rest with
  | .ok clauses, .ok bindings, .ok (projection, preds, rules) =>
      ofParts o ignored
        (ContextParts.ofSections
          clauses bindings projection preds rules)
  | clauses, bindings, rest =>
      .ok (early
        (clauseErrors clauses ++ bindingErrors bindings
          ++ sectionErrors rest)
        ignored)

end Diagnosis

/-
  Examine a context.  The only fault is that a query with
  nothing wrong may still have no canonical text.
-/
def diagnose
    (o : CompileOptions)
    (v : Value) : Outcome Diagnosis :=
  match readContext o v with
  | .error fault =>
      .ok (Diagnosis.early [Diagnosis.unreadable fault] [])
  | .ok c =>
      Diagnosis.ofContext o
        (Diagnosis.ignoredWarnings (passedOver o v)) c

end FactBase
