import FactBase.Query.Session
import FactBase.Proofs.Answer.Matching
import FactBase.Proofs.Fact.Gathering
import FactBase.Proofs.Fact.Lookup
import FactBase.Proofs.Query.Shapes

/-
  This file follows a wrapped literal through the compiler and
  the engine.  A query for the entities that have a literal
  for an attribute finds those of which a fact says so, also
  where the literal looks like a variable.  The exception is
  the text that the engine takes for a blank: the compiler
  unwraps it, and then it matches everything.

  Key definitions include:
    * `literalContext`
    * `DatomOf.answers`
    * `Session.carry`

  Key theorems include:
    * `Outcome.filterMap_mapM`
    * `Assignment.read_token_lit`
    * `compileQuery_literalContext`
    * `Database.matching_literal`
    * `Call.answer_literal`
    * `EntryPoint.run_literalContext`
-/

------------------------------------------------------------
-- Tests along a List
------------------------------------------------------------

namespace FactBase

open Sorting

private theorem map_filterAuxM
    {ε α β : Type}
    (test : α → Except ε Bool)
    (f : α → β)
    (xs kept : List α) :
    (do
      let ys ← List.filterAuxM test xs kept
      return ys.reverse.map f)
      = (do
          let found ← xs.mapM (fun x => do
            if ← test x then return some (f x) else return none)
          return kept.reverse.map f ++ found.filterMap id) := by
  induction xs generalizing kept with
  | nil => simp [List.filterAuxM, pure, Except.pure, bind,
      Except.bind]
  | cons x xs ih =>
      rw [List.filterAuxM, List.mapM_cons]
      rcases test x with fault | b
      · rfl
      · simp only [ok_bind, ih]
        cases b <;>
          rcases xs.mapM _ with fault | found <;>
            simp [bind, Except.bind, pure, Except.pure]

/-
  Keeping what passes a test and then changing it is the same
  as changing each item that passes.
-/
theorem Outcome.filterMap_mapM
    {ε α β : Type}
    (test : α → Except ε Bool)
    (f : α → β)
    (xs : List α) :
    (do
      let found ← xs.mapM (fun x => do
        if ← test x then return some (f x) else return none)
      return found.filterMap id)
      = (do
          let kept ← xs.filterM test
          return kept.map f) := by
  unfold List.filterM
  rw [bind_assoc]
  exact (map_filterAuxM test f xs []).symm

------------------------------------------------------------
-- Literals as Tokens
------------------------------------------------------------

/- A wrapped literal is read as what it holds. -/
theorem Assignment.read_token_lit
    (σ : Assignment)
    {v : Value}
    (hPlain : ∀ w, v ≠ .lit w)
    (hBlank : v ≠ blankToken) :
    σ.read (Value.lit v).token = .known v := by
  rw [Value.token]
  split
  · rfl
  next hVariable =>
    cases v with
    | lit w => exact absurd rfl (hPlain w)
    | str s =>
        have hOther : (s == "_") = false := by
          apply beq_false_of_ne
          rintro rfl
          exact hBlank rfl
        have hName : startsWithSigil s = false := by
          simpa [Value.isVariable, Value.variableName?]
            using hVariable
        simp [read, hOther, hName]
    | _ => rfl

/- Unless that is what the engine takes for a blank. -/
theorem Assignment.read_token_blank (σ : Assignment) :
    σ.read (Value.lit blankToken).token = .blank := by
  have hToken :
      (Value.lit blankToken).token = blankToken := by
    rw [Value.token, if_neg (by decide +kernel)]
  rw [hToken]
  rfl

/- A literal binds nothing. -/
theorem Assignment.unify_token_lit
    (σ : Assignment)
    (v : Value)
    (h : Held) :
    σ.unify (Value.lit v).token h = .ok (some σ) := by
  rw [Value.token]
  split
  · rfl
  next hVariable =>
    cases v with
    | str s =>
        have hName : startsWithSigil s = false := by
          simpa [Value.isVariable, Value.variableName?]
            using hVariable
        simp [unify, hName]
    | _ => rfl

------------------------------------------------------------
-- The Query
------------------------------------------------------------

/- The variable of the query. -/
def entityVariable : String := "?e"

/-
  A query for the entities that have a literal for an
  attribute.
-/
def literalContext
    (db : Database)
    (ident : String)
    (v : Value) : Value :=
  .map
    [ (.str "let", .list [.str "$", .database db])
    , (.str "yield", .list [.str entityVariable])
    , (.str "where",
        .list
          [ .map
              [ (.str "db/id", .str entityVariable)
              , (.str ident, .lit v) ] ]) ]

/- The items of its clause, as the engine gets them. -/
def literalItems
    (ident : String)
    (v : Value) : List Value :=
  [.str entityVariable, .str ident, (Value.lit v).token]

/- The query as the engine gets it. -/
def literalDocument
    (db : Database)
    (ident : String)
    (v : Value) : QueryDocument where
  find := [.str entityVariable]
  inputs := [.str "$"]
  clauses := [.tuple (literalItems ident v)]
  args := [.database db]
  labels := [some "e"]

/- The sections of the query as read. -/
def literalSections
    (db : Database)
    (ident : String)
    (v : Value) : Context where
  bindings := .list [.str "$", .database db]
  projection := .list [.str entityVariable]
  clauses :=
    .list
      [ .map
          [ (.str "db/id", .str entityVariable)
          , (.str ident, .lit v) ] ]
  preds := .list []
  rules := .list []

/- The context has these sections and no other. -/
theorem readStrictly_literalContext
    (db : Database)
    (ident : String)
    (v : Value) :
    Context.readStrictly (literalContext db ident v)
      = .ok (literalSections db ident v) := by
  simp [literalContext, literalSections, Context.readStrictly,
    Context.ofEntries, Context.readRequired,
    Context.readProjection, Context.readClauses,
    Context.readCalls, Context.readItems, Context.keyProblem?,
    Context.clauseProblem?, Context.sectionNames,
    Value.hasField, Value.field?, Table.find?, Table.same_str,
    Value.sequence?, Clause.entityKey, ok_bind,
    pure, Except.pure]


/- The clause of the query. -/
def literalClause
    (ident : String)
    (v : Value) : Clause where
  entity := .var entityVariable
  attr := .lit (.str ident)
  value := .lit v

/- The parts of the query. -/
def literalParts
    (db : Database)
    (ident : String)
    (v : Value) : ContextParts :=
  .ofSections [literalClause ident v]
    ([.str "$"], [.database db]) [.str entityVariable] [] []

/- The sections have these parts. -/
theorem ofContext_literalSections
    (db : Database)
    {ident : String}
    (v : Value)
    (hName : startsWithSigil ident = false)
    (hKey : ident ≠ Clause.entityKey) :
    ContextParts.ofContext (literalSections db ident v)
      = .ok (literalParts db ident v) := by
  have hClauses :
      Clause.ofMaps (literalSections db ident v).clauses
        = .ok [literalClause ident v] := by
    have hEntity :
        Term.ofValue (.str entityVariable)
          = .var entityVariable := rfl
    have hAttr :
        Term.ofValue (.str ident) = .lit (.str ident) := by
      simp [Term.ofValue, Value.variableName?, hName]
    have hValue : Term.ofValue (.lit v) = .lit v := rfl
    have hOther : ¬"db/id" = ident := fun h => hKey h.symm
    simp [literalSections, literalClause, Clause.ofMaps,
      Value.sequence?, Clause.ofMapsFrom, Clause.ofMap,
      Value.field?, Clause.entityKey, Table.find?,
      Table.same_str, Clause.ofEntries, Clause.isEntityKey,
      hEntity, hAttr, hValue, hOther, bind, Except.bind, pure,
      Except.pure]
  unfold ContextParts.ofContext
  rw [hClauses]
  simp [literalSections, literalParts, Bindings.split,
    Bindings.alternate, orderedSection, Value.sequence?, bind,
    Except.bind, pure, Except.pure]

/- Its only variable occurs twice. -/
theorem check_literalParts
    (db : Database)
    (ident : String)
    (v : Value) :
    (literalParts db ident v).symbolReport.check = .ok () := by
  have hSymbols :
      querySymbols
          ([literalClause ident v].map Clause.toValue)
          [.str "$"] [.str entityVariable] []
        = [.var entityVariable, .str entityVariable] := by
    simp only [querySymbols, Value.flatten,
      Value.flattenPending, literalClause, Clause.toValue,
      Term.toValue, List.map_cons, List.map_nil,
      List.cons_append, List.nil_append]
    rfl
  unfold ContextParts.symbolReport
  change
    (SymbolReport.ofSymbols
      (querySymbols
        ([literalClause ident v].map Clause.toValue)
        [.str "$"] [.str entityVariable] [])).check = _
  rw [hSymbols]
  rfl

/- The context compiles to the call. -/
theorem compileQuery_literalContext
    (db : Database)
    {ident : String}
    (v : Value)
    (hName : startsWithSigil ident = false)
    (hKey : ident ≠ Clause.entityKey) :
    compileQuery {} (literalContext db ident v)
      = .ok (literalDocument db ident v) := by
  unfold compileQuery readContext
  rw [if_pos rfl, readStrictly_literalContext, ok_bind,
    ofContext_literalSections db v hName hKey, ok_bind,
    check_literalParts, ok_bind]
  have hAttributes :
      (literalParts db ident v).checkAttributes {} = .ok () :=
    rfl
  have hAttr : (Value.lit (.str ident)).token = .str ident := by
    rw [Value.token, if_neg]
    simp [Value.isVariable, Value.variableName?, hName]
  have hTerms :
      (literalClause ident v).terms.map Value.token
        = literalItems ident v := by
    unfold Clause.terms literalClause literalItems
    simp only [Term.toValue, List.map_cons, List.map_nil, hAttr]
    rfl
  rw [hAttributes, ok_bind]
  have hAssembled :
      QueryDocument.assemble (literalParts db ident v).parts
        = literalDocument db ident v := by
    unfold QueryDocument.assemble literalDocument
    rw [← hTerms]
    rfl
  exact congrArg Except.ok hAssembled

------------------------------------------------------------
-- The Facts that Match
------------------------------------------------------------

/-
  Whether a fact answers the query: it is of the attribute and
  its value equals the literal.  The text for a blank lets
  everything through, also where it is the ident.
-/
def DatomOf.answers
    (ident : String)
    (attr : Int)
    (v : Value)
    (d : Datom) : Outcome Bool :=
  if Value.same (.str ident) blankToken || d.attr == attr then
    if v.same blankToken then .ok true
    else d.value.equals v
  else .ok false

/- What a fact that answers the query has. -/
theorem DatomOf.answers_eq_ok_true
    {ident : String}
    {attr : Int}
    {v : Value}
    {d : Datom} :
    d.answers ident attr v = .ok true
      ↔ (ident = "_" ∨ d.attr = attr)
        ∧ (v = .str "_" ∨ d.value.equals v = .ok true) := by
  have hBlank :
      v.same blankToken = true ↔ v = .str "_" :=
    Value.same_str_right
  have hIdent :
      (Value.str ident).same blankToken = (ident == "_") :=
    Table.same_str _ _
  unfold answers
  rw [hIdent, ← hBlank]
  by_cases hAttr : ident = "_" ∨ d.attr = attr
  · rw [if_pos (by simpa using hAttr)]
    cases v.same blankToken <;> simp [hAttr]
  · rw [if_neg (by simpa using hAttr)]
    simp [hAttr]

/- The facts that answer the query. -/
def Database.answering
    (db : Database)
    (ident : String)
    (attr : Int)
    (v : Value) : Outcome (List Datom) :=
  db.datoms.filterM (fun d => d.answers ident attr v)

/- What a fact that answers it binds. -/
def DatomOf.binding (d : Datom) : Assignment :=
  [(entityVariable, .fresh (.int d.entity))]

/- Every fact can be bound by the pattern of the query. -/
theorem Pattern.bind_literal
    {ident : String}
    (v : Value)
    (hName : startsWithSigil ident = false)
    (d : Datom) :
    (Pattern.ofItems (literalItems ident v)).bind [] d
      = .ok (some d.binding) := by
  have hAttr (σ : Assignment) (h : Held) :
      σ.unify (.str ident) h = .ok (some σ) := by
    simp [Assignment.unify, hName]
  have hEntity :
      Assignment.unify [] (.str entityVariable)
          (.fresh (.int d.entity))
        = .ok (some d.binding) := rfl
  unfold Pattern.bind Pattern.ofItems literalItems
  simp only [List.getD_cons_zero, List.getD_cons_succ, hEntity,
    ok_bind, hAttr, Assignment.unify_token_lit]

namespace Database

variable {db : Database}
variable {attr : Installed}
variable {ident : String}
variable {v : Value}

/-
  What is known about the attribute: which one it is, unless
  its ident is the text for a blank.
-/
theorem attributeConstraint_literal
    (hAttr : db.installed (.str ident) = .ok attr)
    (hName : startsWithSigil ident = false) :
    db.attributeConstraint (Assignment.read [] (.str ident))
      = .ok
        (if Value.same (.str ident) blankToken then (.free, none)
        else (.only (.int attr.eid), some attr.schema)) := by
  cases hBlank : Value.same (.str ident) blankToken with
  | true =>
      rw [Value.same_str_right.mp hBlank]
      rfl
  | false =>
      have hOther : (ident == "_") = false := by
        rw [← Table.same_str]
        exact hBlank
      have hRead :
          Assignment.read [] (.str ident)
            = .known (.str ident) := by
        simp [Assignment.read, hOther, hName]
      rw [hRead, attributeConstraint, hAttr]
      rfl

/-
  What is known about the value: that it equals the literal,
  unless that is the text for a blank.
-/
private theorem valueConstraint_literal
    (hPlain : ∀ w, v ≠ .lit w)
    {schema : Option Schema}
    (hRef : schema.any Schema.isRef = false) :
    db.valueConstraint schema
        (Assignment.read [] (Value.lit v).token)
      = .ok (if v.same blankToken then .free else .only v) := by
  cases hBlank : v.same blankToken with
  | true =>
      rw [Value.same_str_right.mp hBlank]
      rw [show Value.str "_" = blankToken from rfl,
        Assignment.read_token_blank]
      rfl
  | false =>
      have hOther : v ≠ blankToken := by
        intro hEq
        rw [hEq, Value.same_refl] at hBlank
        cases hBlank
      rw [Assignment.read_token_lit [] hPlain hOther,
        valueConstraint]
      simp [hRef]

/- What the facts that pass bind. -/
theorem bindings_literal
    (hName : startsWithSigil ident = false)
    {c : Constraints}
    {test : Datom → Outcome Bool}
    (hTest : ∀ d, c.admitFact d = test d) :
    db.bindings (Pattern.ofItems (literalItems ident v)) [] c
      = (do
          let found ← db.datoms.filterM test
          return found.map DatomOf.binding) := by
  unfold bindings
  simp only [hTest, Pattern.bind_literal v hName]
  exact Outcome.filterMap_mapM test DatomOf.binding db.datoms

/-
  The extensions by the pattern of the query are those by the
  facts that answer it.
-/
theorem matching_literal
    (hAttr : db.installed (.str ident) = .ok attr)
    (hRef : attr.schema.isRef = false)
    (hName : startsWithSigil ident = false)
    (hPlain : ∀ w, v ≠ .lit w) :
    db.matching (literalItems ident v) []
      = (do
          let found ← db.answering ident attr.eid v
          return found.map DatomOf.binding) := by
  have hEntity :
      db.entityConstraint (literalItems ident v)
          (Assignment.read []
            (Pattern.ofItems (literalItems ident v)).entity)
        = .ok .free := rfl
  have hKnown := attributeConstraint_literal hAttr hName
  unfold matching
  simp only [hEntity, ok_bind]
  change
    (db.attributeConstraint (Assignment.read [] (.str ident))
      >>= _) = _
  rw [hKnown, ok_bind]
  cases hBlank : Value.same (.str ident) blankToken with
  | true =>
      simp only [if_true]
      change
        (db.valueConstraint none
          (Assignment.read [] (Value.lit v).token) >>= _) = _
      rw [valueConstraint_literal hPlain rfl, ok_bind]
      refine bindings_literal hName ?_
      intro d
      unfold Constraints.admitFact DatomOf.answers
      cases v.same blankToken <;>
        simp [Constraint.admits, hBlank, ok_bind]
  | false =>
      simp only [Bool.false_eq_true, if_false]
      change
        (db.valueConstraint (some attr.schema)
          (Assignment.read [] (Value.lit v).token) >>= _) = _
      rw [valueConstraint_literal hPlain (by simpa using hRef),
        ok_bind]
      refine bindings_literal hName ?_
      intro d
      unfold Constraints.admitFact DatomOf.answers
      cases v.same blankToken <;>
        simp [Constraint.admits, hBlank, Value.equals_int, ok_bind,
          pure, Except.pure]

end Database

------------------------------------------------------------
-- The Rows
------------------------------------------------------------

/- The row of a fact that answers the query. -/
def DatomOf.entityRow (d : Datom) : Value :=
  .tuple [.int d.entity]

/- What is bound is shown as it is. -/
theorem DatomOf.project_binding
    (db : Database)
    (d : Datom) :
    db.project d.binding (.str entityVariable)
      = pure (.one (.fresh (.int d.entity))) := rfl

/- An id that no fact holds is looked at as it is. -/
theorem Gathering.look_int (n : Int) :
    Gathering.look (.one (.fresh (.int n))) = pure (.int n) := by
  have hNow (growths : Growths) :
      (Shown.one (.fresh (.int n))).value growths = .int n := by
    simp [Shown.value, Shown.valueWith, Growths.current,
      Held.now, Held.fresh, Value.renewed]
  unfold Gathering.look
  simp only [hNow]
  rfl

/- The rows show the entities that are bound. -/
theorem Solution.rows_binding
    (db : Database)
    (found : List Datom) :
    Solution.rows [.str entityVariable]
        { db := db
          assignments := found.map DatomOf.binding }
      = pure (found.map (fun d => [Value.int d.entity])) := by
  unfold Solution.rows Database.rows
  simp [List.mapM_map, Function.comp_def,
    DatomOf.project_binding, Gathering.look_int]

section Evaluation

variable {db : Database}
variable {ident : String}
variable {v : Value}
variable {matched : Outcome (List Datom)}

/- Solving it binds the entities of the facts that match. -/
theorem Database.solve_of_matching
    (h :
      db.matching (literalItems ident v) []
        = (do
            let found ← matched
            return found.map DatomOf.binding)) :
    db.solve [.tuple (literalItems ident v)] [[]]
      = (do
          let found ← matched
          return found.map DatomOf.binding) := by
  have hStep :
      db.step [[]] (.tuple (literalItems ident v))
        = (do
            let extended ←
              [[]].mapM (db.matching (literalItems ident v))
            return extended.flatten) := rfl
  rw [← h]
  unfold Database.solve
  rw [List.foldlM_cons, hStep, List.mapM_cons]
  simp

/- So evaluating it gives a row for each of them. -/
theorem Call.evaluate_of_matching
    (h :
      db.matching (literalItems ident v) []
        = (do
            let found ← matched
            return found.map DatomOf.binding)) :
    (literalDocument db ident v).call.evaluate
      = Gathering.lift (do
          let found ← matched
          return found.map
            (fun d => [Value.int d.entity])) := by
  have hInputs :
      Inputs.ofArguments [.str "$"] [.database db]
        = .ok { source := some db, assignments := [[]] } := rfl
  unfold Call.evaluate
  change
    (Gathering.lift (do
      let inputs ←
        Inputs.ofArguments [.str "$"] [.database db]
      Solution.ofInputs inputs
        (.ok [.tuple (literalItems ident v)])) >>= fun s =>
          s.rows [.str entityVariable]) = _
  rw [hInputs, ok_bind]
  unfold Solution.ofInputs
  simp only [Inputs.database, ok_bind,
    Database.solve_of_matching h]
  rcases matched with fault | found
  · rfl
  · exact Solution.rows_binding db found

end Evaluation

/- The call of the query gives one row for each such fact. -/
theorem Call.answer_literal
    {db : Database}
    {attr : Installed}
    {ident : String}
    {v : Value}
    (hAttr : db.installed (.str ident) = .ok attr)
    (hRef : attr.schema.isRef = false)
    (hName : startsWithSigil ident = false)
    (hPlain : ∀ w, v ≠ .lit w) :
    (literalDocument db ident v).call.answer
      = Gathering.lift (do
          let found ← db.answering ident attr.eid v
          return .list (found.map DatomOf.entityRow)) := by
  unfold Call.answer
  rw [Call.evaluate_of_matching
    (Database.matching_literal hAttr hRef hName hPlain)]
  rcases db.answering ident attr.eid v with fault | found
  · rfl
  · have hRows :
        rowsValue (found.map (fun d => [Value.int d.entity]))
          = .list (found.map DatomOf.entityRow) := by
      simp [rowsValue, DatomOf.entityRow, Function.comp_def]
    rw [ok_bind, ok_bind, ← hRows]
    rfl

------------------------------------------------------------
-- The Set of Rows
------------------------------------------------------------

/- Rows that are the same are of one entity, and equal. -/
theorem DatomOf.eq_of_same_entityRow
    {c d : Datom}
    (h : c.entityRow.same d.entityRow = true) :
    c.entityRow = d.entityRow := by
  have hEntity : c.entity = d.entity := by
    simpa [entityRow, Value.same, Value.sameItems, Value.isInt]
      using h
  rw [entityRow, entityRow, hEntity]

/- The set of rows keeps the first of each. -/
theorem shapeRows_entityRow (found : List Datom) :
    shapeRows .tupleSet none
        (.list (found.map DatomOf.entityRow))
      = .ok
        (.set
          (Value.distinct (found.map DatomOf.entityRow))) := by
  let rows := found.map (fun d => [Value.int d.entity])
  have hTuples :
      rows.map Value.tuple = found.map DatomOf.entityRow := by
    rw [List.map_map]
    rfl
  have hFrozen :
      rows.map frozenRow = found.map DatomOf.entityRow := by
    rw [List.map_map]
    rfl
  have hItems :
      (found.map DatomOf.entityRow).mapM Value.items = .ok rows := by
    rw [← hTuples, List.mapM_map]
    exact
      (Outcome.mapM_eq_ok_map (fun _ _ => rfl)).trans
        (congrArg Except.ok (List.map_id rows))
  have hRows :
      shapeRows .rowList none
          (.list (found.map DatomOf.entityRow))
        = .ok (.list (rows.map Value.tuple)) := by
    change
      ((found.map DatomOf.entityRow).mapM Value.items
        >>= fun rows =>
          pure (Value.list (rows.map Value.tuple))) = _
    rw [hItems]
    rfl
  rw [shapeRows_tupleSet hRows, map_frozenRow_firstRows, hFrozen]
  intro row hRow
  rcases List.mem_map.mp hRow with ⟨d, _, rfl⟩
  rfl

------------------------------------------------------------
-- Sessions
------------------------------------------------------------

/- A session with an engine that evaluates every call. -/
def evaluatingSetup : SessionSetup where
  answer := Call.answer
  noted := false
  options := {}

namespace Session

variable {α β : Type}

/- Carry out a session, whatever the engine is. -/
def carry
    (setup : SessionSetup)
    (s : Session α)
    (t : Transcript) : Outcome α × Transcript :=
  (s.run setup).run t

/- One part of a session after the other. -/
theorem carry_bind
    (setup : SessionSetup)
    (s : Session α)
    (f : α → Session β)
    (t : Transcript) :
    carry setup (s >>= f) t =
      match carry setup s t with
      | (.ok a, t') => carry setup (f a) t'
      | (.error fault, t') => (.error fault, t') := by
  change
    ExceptT.bindCont (fun a => (f a).run setup)
        (carry setup s t).1 (carry setup s t).2 = _
  rcases carry setup s t with ⟨_ | _, _⟩ <;> rfl

/- Carry out a session with an engine that evaluates. -/
def exec
    (s : Session α)
    (t : Transcript) : Outcome α × Transcript :=
  (s.run evaluatingSetup).run t

/- One part of such a session after the other. -/
theorem exec_bind
    (s : Session α)
    (f : α → Session β)
    (t : Transcript) :
    exec (s >>= f) t =
      match exec s t with
      | (.ok a, t') => exec (f a) t'
      | (.error fault, t') => (.error fault, t') :=
  carry_bind evaluatingSetup s f t

/- Compiling a context asks nothing of the engine. -/
theorem exec_compileContext
    (context : Value)
    (t : Transcript) :
    exec (compileContext context) t
      = (compileQuery {} context, t) := by
  have hCompile :
      exec (compileContext context) t
        = exec (do
            let d ← (compileQuery {} context : Except Fault _)
            Session.note d.compiledNote
            return d) t := rfl
  rw [hCompile]
  cases compileQuery {} context <;> rfl

/- Calling the engine evaluates the call. -/
theorem exec_ask
    (call : Call)
    (t : Transcript) :
    exec (ask call) t
      = ((call.answer.run.run t.growths).1,
          t.enter call (call.answer.run.run t.growths).2) := rfl

/- The set of rows of a document is made from its answer. -/
theorem exec_runDocument
    (d : QueryDocument)
    (t : Transcript) :
    (exec (runDocument d RowShape.tupleSet.value) t).1
      = (do
          let answer ← (d.call.answer.run.run t.growths).1
          shapeRows .tupleSet none answer) := by
  unfold runDocument
  rw [RowShape.value, RowShape.ofValue_name]
  change
    (exec (do
      let rows ← ask d.call
      Session.note (d.ranNote .tupleSet)
      (shapeRows .tupleSet none rows : Except Fault _)) t).1 = _
  rw [exec_bind, exec_ask]
  cases (d.call.answer.run.run t.growths).1 with
  | error fault => rfl
  | ok rows => rfl

end Session

/- What comes of a query by one of its ways. -/
def EntryPoint.outcome
    (p : EntryPoint)
    (context : Value)
    (growths : Growths) : Outcome Value :=
  (Session.exec (p.run context) (.start growths)).1

/- A query for rows is compiled, answered and shaped. -/
theorem EntryPoint.outcome_rows
    (context : Value)
    (growths : Growths) :
    rows.outcome context growths
      = (do
          let d ← compileQuery {} context
          let answer ← (d.call.answer.run.run growths).1
          shapeRows .tupleSet none answer) := by
  change
    (Session.exec (do
      let d ← compileContext context
      runDocument d RowShape.tupleSet.value) _).1 = _
  rw [Session.exec_bind, Session.exec_compileContext]
  cases compileQuery {} context with
  | error fault => rfl
  | ok d => exact Session.exec_runDocument d _

------------------------------------------------------------
-- The Answer
------------------------------------------------------------

namespace EntryPoint

variable {db : Database}
variable {attr : Installed}
variable {ident : String}
variable {v : Value}

/-
  The answer to the query is the set of the entities of the
  facts that answer it.
-/
theorem outcome_literalContext
    (hAttr : db.installed (.str ident) = .ok attr)
    (hRef : attr.schema.isRef = false)
    (hName : startsWithSigil ident = false)
    (hKey : ident ≠ Clause.entityKey)
    (hPlain : ∀ w, v ≠ .lit w)
    (growths : Growths) :
    rows.outcome (literalContext db ident v) growths
      = (do
          let found ← db.answering ident attr.eid v
          return .set
            (Value.distinct
              (found.map DatomOf.entityRow))) := by
  rw [outcome_rows, compileQuery_literalContext db v hName hKey,
    ok_bind, Call.answer_literal hAttr hRef hName hPlain]
  cases db.answering ident attr.eid v with
  | error fault => rfl
  | ok found => exact shapeRows_entityRow found

end EntryPoint

/- Whether a value equals one that has an end can be told. -/
theorem Value.exists_equals_eq_ok
    (w : Value)
    {v : Value}
    (h : v.endless = false) : ∃ b, w.equals v = .ok b := by
  cases hEnd : w.endless with
  | false => exact ⟨_, equals_of_not_endless w v hEnd h⟩
  | true =>
      refine ⟨false, ?_⟩
      have hNot : w.equals? v = some false := by
        unfold equals?
        rw [alike?_of_endless_of_not_endless w v hEnd h, ite_self]
      rw [equals, hNot]

namespace EntryPoint

variable {db : Database}
variable {attr : Installed}
variable {ident : String}
variable {v : Value}

/-
  A query for the entities that have a literal for an
  attribute, which does not refer to entities, gives the set
  of those of which a fact of the attribute has a value that
  equals the literal.  It fails where a comparison is endless,
  and it always succeeds for a literal that has an end.  Only
  the text for a blank is no literal for the engine: every
  value matches it, and every attribute if it is the ident.
-/
theorem run_literalContext
    (hAttr : db.installed (.str ident) = .ok attr)
    (hRef : attr.schema.isRef = false)
    (hName : startsWithSigil ident = false)
    (hKey : ident ≠ Clause.entityKey)
    (hPlain : ∀ w, v ≠ .lit w)
    (growths : Growths) :
    rows.outcome (literalContext db ident v) growths
        = (do
            let found ← db.answering ident attr.eid v
            return .set
              (Value.distinct
                (found.map DatomOf.entityRow)))
      ∧ (v.endless = false →
          ∃ items : List Value,
            rows.outcome (literalContext db ident v) growths
                = .ok (.set items)
              ∧ items.Nodup
              ∧ ∀ row, row ∈ items ↔
                  ∃ d ∈ db.datoms,
                    (ident = "_" ∨ d.attr = attr.eid)
                      ∧ (v = .str "_"
                          ∨ d.value.equals v = .ok true)
                      ∧ row = .tuple [.int d.entity]) := by
  have hOutcome :=
    outcome_literalContext hAttr hRef hName hKey hPlain growths
  refine ⟨hOutcome, ?_⟩
  intro hEnd
  have hTold :
      ∀ d ∈ db.datoms,
        d.answers ident attr.eid v
          = .ok (Outcome.holds (d.answers ident attr.eid v)) := by
    intro d _
    unfold DatomOf.answers
    rcases Value.exists_equals_eq_ok d.value hEnd with ⟨b, hb⟩
    rw [hb]
    split
    · split <;> rfl
    · rfl
  have hFound :
      db.answering ident attr.eid v
        = .ok
          (db.datoms.filter (fun d =>
            Outcome.holds (d.answers ident attr.eid v))) :=
    Outcome.filterM_eq_ok hTold
  rw [hFound] at hOutcome
  refine ⟨_, hOutcome, Value.nodup_distinct _, ?_⟩
  intro row
  rw [Value.mem_distinct, List.mem_map]
  · simp only [List.mem_filter, Outcome.holds_iff,
      DatomOf.answers_eq_ok_true, and_assoc, eq_comm (b := row),
      DatomOf.entityRow]
  · intro x hx y hy hSame
    rcases List.mem_map.mp hx with ⟨c, _, rfl⟩
    rcases List.mem_map.mp hy with ⟨d, _, rfl⟩
    exact DatomOf.eq_of_same_entityRow hSame

/- Transaction data that documents an entity by a sigil. -/
def sigilData : Value :=
  .list
    [ .list
        [ .str "db/add", .tempid "db.part/user" (-1)
        , .str "db/doc", .str "?x" ] ]

/- The database after that transaction. -/
def sigilDatabase : Database :=
  ((Engine.start (fun _ => 0)).transact sigilData).2.db

/-
  The query for entities with that text gives the entity,
  although the text looks like a variable.
-/
theorem run_literalContext_sigilDatabase :
    ∃ items : List Value,
      rows.outcome
          (literalContext sigilDatabase "db/doc" (.str "?x")) []
        = .ok (.set items)
        ∧ items.Nodup
        ∧ .tuple [.int (EntityId.inPartition 2 0)] ∈ items := by
  have hDoc :
      (sigilDatabase.installed
        (.str "db/doc")).toOption.any
          (fun attr => attr.eid == 18 && !attr.schema.isRef)
        = true := by
    decide +kernel
  rcases hAttr : sigilDatabase.installed (.str "db/doc") with
    fault | attr
  · rw [hAttr] at hDoc
    cases hDoc
  rw [hAttr] at hDoc
  have hBoth : attr.eid = 18 ∧ attr.schema.isRef = false := by
    simpa [Except.toOption] using hDoc
  have hPlain : ∀ w, Value.str "?x" ≠ .lit w := by
    intro w h
    cases h
  rcases (run_literalContext hAttr hBoth.2 (by decide)
      (by decide) hPlain []).2 rfl with
    ⟨items, hItems, hNodup, hRows⟩
  refine ⟨items, hItems, hNodup, (hRows _).mpr ?_⟩
  have hStored :
      sigilDatabase.datoms.any (fun d =>
        d.attr == 18 && d.value.same (.str "?x")
          && d.entity == EntityId.inPartition 2 0) = true := by
    decide +kernel
  rcases List.any_eq_true.mp hStored with ⟨d, hd, hFact⟩
  simp only [Bool.and_eq_true, beq_iff_eq] at hFact
  rcases hFact with ⟨⟨hOf, hText⟩, hEntity⟩
  refine
    ⟨d, hd, .inr (hOf.trans hBoth.1.symm), .inr ?_, by
      rw [hEntity]⟩
  rw [Value.equals_str, hText]

/- The text for a blank is stored nowhere, yet it is found. -/
example :
    sigilDatabase.datoms.any (fun d => d.value.same blankToken)
        = false
      ∧ ((rows.outcome
          (literalContext sigilDatabase "db/ident" blankToken)
          []).toOption.bind Value.items?).map List.length
        = some 15 := by
  decide +kernel

end EntryPoint

end FactBase
