import FactBase.Attribute.Registry
import FactBase.Query.Canonical
import FactBase.Query.Context
import FactBase.Query.SymbolUsage
import FactBase.Text.Digest

/-
  This file defines query documents, the form in which a
  query reaches an engine, and compiles contexts to them.
  Every rule about a context is checked on the way.

  Key definitions include:
    * `QueryDocument`
    * `Call`
    * `QueryDocument.assemble`
    * `QueryDocument.canonicalText`
    * `QueryDocument.queryId`
    * `QueryDocument.requireLabels`
    * `CompileOptions`
    * `readContext`
    * `QueryParts.ofContext`
    * `compileQuery`
-/

------------------------------------------------------------
-- Query Documents
------------------------------------------------------------

namespace FactBase

/-
  A query with its projected terms, its inputs, its clauses,
  the arguments for the inputs, and a label for each term
  that is a plain variable.
-/
structure QueryDocument where
  find : List Value
  inputs : List Value
  clauses : List Value
  args : List Value
  labels : List (Option String)

/- What an engine is called with. -/
structure Call where
  find : List Value
  inputs : List Value
  clauses : List Value
  args : List Value

/- The label of a projected term; compound terms have none. -/
def projectionLabel? (v : Value) : Option String :=
  if v.sequence?.isSome then none
  else (Term.ofValue v).label?

namespace QueryDocument

/- The call that a document makes. -/
def call (d : QueryDocument) : Call where
  find := d.find
  inputs := d.inputs
  clauses := d.clauses
  args := d.args

/- The document as a plain map. -/
def plainRecord (d : QueryDocument) : Value :=
  Value.record
    [ ("find", .tuple d.find)
    , ("in", .tuple d.inputs)
    , ("where", .tuple d.clauses) ]

/-
  The canonical text of a document.  Neither arguments nor
  labels are part of it.
-/
def canonicalText (d : QueryDocument) : Outcome String :=
  d.plainRecord.plainJson

/- The name of a query: a digest of its canonical text. -/
def queryId (d : QueryDocument) : Outcome String := do
  let text ← d.canonicalText
  return "query__"
    ++ String.ofList ((Digest.hex text).toList.take 12)

/- The terms that have no label. -/
def unlabeledTerms :
    List Value → List (Option String) → Outcome (List String)
  | _, [] => .ok []
  | terms, some _ :: labels =>
      unlabeledTerms (terms.drop 1) labels
  | [], none :: _ => .error (.mishap .outOfRange)
  | term :: terms, none :: labels => do
      return term.text :: (← unlabeledTerms terms labels)

/- The labels, of which every term must have one. -/
def requireLabels (d : QueryDocument) : Outcome (List String) := do
  let unlabeled ← unlabeledTerms d.find d.labels
  if unlabeled.isEmpty then
    return d.labels.filterMap id
  else
    throw (.shape (.unlabeledProjection unlabeled))

end QueryDocument

------------------------------------------------------------
-- Assembly
------------------------------------------------------------

/-
  The parts of a query: the terms of each clause, the bound
  variables and their sources, the projection, predicates and
  rule invocations.
-/
structure QueryParts where
  clauses : List (List Value)
  bound : List Value
  sources : List Value
  projection : List Value
  preds : List Value
  rules : List Value

/-
  Put a document together.  Clauses come first, then each
  predicate on its own, then the rule invocations.
-/
def QueryDocument.assemble (p : QueryParts) : QueryDocument where
  find := p.projection
  inputs := p.bound.map (fun v => (Term.ofValue v).token)
  clauses :=
    p.clauses.map (fun c => .tuple (c.map Value.token))
      ++ p.preds.map (fun pred => .tuple [pred])
      ++ p.rules
  args := p.sources
  labels := p.projection.map projectionLabel?

------------------------------------------------------------
-- Compilation
------------------------------------------------------------

/-
  How a context is compiled: read strictly or leniently, and
  with its attributes checked against a registry.
-/
structure CompileOptions where
  strict : Bool := true
  attributes : Option Registry := none

/- Read a context as the options say. -/
def readContext
    (o : CompileOptions)
    (v : Value) : Outcome Context :=
  if o.strict then Context.readStrictly v
  else Context.readLeniently v

/- The keys that reading a context passes over. -/
def passedOver
    (o : CompileOptions)
    (v : Value) : List String :=
  if o.strict then [] else Context.ignoredKeys v

/-
  The warnings about a context: keys that were passed over
  where the context could be read.
-/
def contextWarnings
    (o : CompileOptions)
    (v : Value) : List String :=
  match readContext o v with
  | .error _ => []
  | .ok _ =>
      let ignored := passedOver o v
      if ignored.isEmpty then []
      else
        [ "Ignoring unknown query context sections: "
            ++ Value.describeTexts ignored ]

/- A context taken apart, with its clauses. -/
structure ContextParts where
  clauses : List Clause
  parts : QueryParts

/- The terms of a clause, as values. -/
def Clause.terms (c : Clause) : List Value :=
  [c.entity.toValue, c.attr.toValue, c.value.toValue]

/- Put read sections together as parts of a query. -/
def ContextParts.ofSections
    (clauses : List Clause)
    (bindings : List Value × List Value)
    (projection preds rules : List Value) : ContextParts where
  clauses := clauses
  parts :=
    { clauses := clauses.map Clause.terms
      bound := bindings.1
      sources := bindings.2
      projection := projection
      preds := preds
      rules := rules }

/- Take a context apart. -/
def ContextParts.ofContext (c : Context) : Outcome ContextParts := do
  let clauses ← Clause.ofMaps c.clauses
  let bindings ← Bindings.split c.bindings
  let projection ← orderedSection "yield" c.projection
  let preds ← orderedSection "preds" c.preds
  let rules ← orderedSection "rules" c.rules
  return ofSections clauses bindings projection preds rules

/- How often the variables of a query are used. -/
def ContextParts.symbolReport (p : ContextParts) : SymbolReport :=
  SymbolReport.ofSymbols
    (querySymbols
      (p.clauses.map Clause.toValue)
      p.parts.bound p.parts.projection p.parts.rules)

/- The registry that attributes are checked against. -/
def CompileOptions.registry? (o : CompileOptions) : Option Registry :=
  if o.strict then o.attributes else none

/- The attributes of a query that are not declared. -/
def ContextParts.undeclared
    (o : CompileOptions)
    (p : ContextParts) : List String :=
  match o.registry? with
  | some r => r.undeclared (Clause.attributes p.clauses)
  | none => []

/- All attributes of a query must be declared. -/
def ContextParts.checkAttributes
    (o : CompileOptions)
    (p : ContextParts) : Outcome Unit :=
  let unknown := p.undeclared o
  if unknown.isEmpty then .ok ()
  else .error (.unknownAttributes unknown)

/-
  Compile a context.  Its sections are read first, then the
  use of variables is checked and then the attributes.
-/
def compileQuery
    (o : CompileOptions)
    (v : Value) : Outcome QueryDocument := do
  let context ← readContext o v
  let p ← ContextParts.ofContext context
  p.symbolReport.check
  p.checkAttributes o
  return QueryDocument.assemble p.parts

end FactBase
