import FactBase.Proofs.Answer.RuleInvocation
import FactBase.Proofs.Answer.Predicate
import FactBase.Proofs.Fact.Gathering
import FactBase.Proofs.Query.Spelling

/-
  This file shows what an engine makes of variable objects.
  It knows variables by their texts only.  So a term of a
  projection or an input with an object in it never leads to a
  row, and an argument of a predicate that is an object equals
  nothing but itself.  Together with what compiling makes of
  objects this tells how far contexts that are spelled
  differently are interchangeable.

  Key definitions include:
    * `Gathering.Fails`

  Key theorems include:
    * `Database.fails_pull`
    * `Database.fails_project`
    * `Call.rows_eq_nil`
    * `Assignment.read_of_satisfies_equality`
    * `interchangeable_of_spelled`
-/

------------------------------------------------------------
-- Gatherings That Fail
------------------------------------------------------------

namespace FactBase

open Sorting

namespace Gathering

variable {α β : Type}
variable {m : Gathering α}

/- The gathering fails, whatever has grown before. -/
def Fails (m : Gathering α) : Prop :=
  ∀ g, ∃ fault, (m.run.run g).1 = .error fault

/- To throw is to fail. -/
theorem fails_throw (fault : Fault) :
    Fails (throw fault : Gathering α) :=
  fun _ => ⟨fault, rfl⟩

/- Two gatherings fail if the first one does. -/
theorem Fails.bind
    (h : Fails m)
    (f : α → Gathering β) : Fails (m >>= f) := by
  intro g
  rcases h g with ⟨fault, hFault⟩
  refine ⟨fault, ?_⟩
  rw [run_bind]
  rcases hRun : m.run.run g with ⟨other | a, g'⟩
  · rw [hRun] at hFault
    rw [← Except.error.inj hFault]
  · rw [hRun] at hFault
    cases hFault

/- They also do if the second one does in any case. -/
theorem fails_bind
    {f : α → Gathering β}
    (h : ∀ a, Fails (f a)) : Fails (m >>= f) := by
  intro g
  rw [run_bind]
  rcases m.run.run g with ⟨fault | a, g'⟩
  · exact ⟨fault, rfl⟩
  · exact h a g'

/- A walk fails if some step of it does. -/
theorem fails_mapM
    {f : α → Gathering β}
    {xs : List α}
    {x : α}
    (hMem : x ∈ xs)
    (h : Fails (f x)) : Fails (xs.mapM f) := by
  induction xs with
  | nil => cases hMem
  | cons y ys ih =>
      rw [List.mapM_cons]
      rcases List.mem_cons.mp hMem with rfl | hRest
      · exact h.bind _
      · exact fails_bind (fun _ => (ih hRest).bind _)

end Gathering

------------------------------------------------------------
-- Objects That Are Projected
------------------------------------------------------------

/- Something is spelled in a list if it is in one of its items. -/
theorem exists_of_spelledItems_ne
    {vs : List Value}
    (h : vs.map Value.spelled ≠ vs) :
    ∃ v ∈ vs, v.spelled ≠ v := by
  by_contra hNone
  simp only [not_exists, not_and, not_not] at hNone
  exact h ((List.map_congr_left hNone).trans (List.map_id vs))

/- Nor is anything spelled in a sequence of such items. -/
theorem spelled_of_sequence?
    {v : Value}
    {items : List Value}
    (hItems : v.sequence? = some items)
    (h : items.map Value.spelled = items) : v.spelled = v := by
  cases v with
  | list xs =>
      rw [Value.copies_spelled.list, Option.some.inj hItems, h]
  | tuple xs =>
      rw [Value.copies_spelled.tuple, Option.some.inj hItems, h]
  | cyclic origin xs => rfl
  | _ => cases hItems

namespace Database

variable {db : Database}

/- No element of a pattern has an object in it. -/
theorem fails_pullItem
    {item : Value}
    (h : item.spelled ≠ item)
    (eid : Held)
    (entries : List (Value × Shown)) :
    Gathering.Fails (db.pullItem item eid entries) := by
  cases item with
  | str name => exact absurd rfl h
  | map subs => exact absurd rfl h
  | _ =>
      rw [pullItem]
      · exact Gathering.fails_throw _
      · simp
      · simp

/- So no list of elements has one that has. -/
theorem fails_pullItems
    {items : List Value}
    {item : Value}
    (hMem : item ∈ items)
    (h : item.spelled ≠ item)
    (eid : Held)
    (entries : List (Value × Shown)) :
    Gathering.Fails (db.pullItems items eid entries) := by
  induction items generalizing entries with
  | nil => cases hMem
  | cons first items ih =>
      rw [pullItems]
      rcases List.mem_cons.mp hMem with rfl | hRest
      · exact (fails_pullItem h eid entries).bind _
      · exact Gathering.fails_bind (fun _ => ih hRest _)

/- A pattern with an object in it cannot be pulled by. -/
theorem fails_pull
    {pattern : Value}
    (h : pattern.spelled ≠ pattern)
    (eid : Held) : Gathering.Fails (db.pull pattern eid) := by
  have hItems {items : List Value}
      (hParts : pattern.sequence? = some items) :
      Gathering.Fails (db.pullItems items eid []) := by
    rcases exists_of_spelledItems_ne
        (fun hEq => h (spelled_of_sequence? hParts hEq)) with
      ⟨item, hMem, hItem⟩
    exact fails_pullItems hMem hItem eid []
  cases pattern with
  | list items =>
      rw [pull]
      exact (hItems rfl).bind _
  | tuple items =>
      rw [pull]
      exact (hItems rfl).bind _
  | _ =>
      rw [pull]
      · exact Gathering.fails_throw _
      · simp
      · simp

/- A term with an object in it cannot be projected. -/
theorem fails_project
    {term : Value}
    (h : term.spelled ≠ term)
    (σ : Assignment) :
    Gathering.Fails (db.project σ term) := by
  unfold project
  simp only
  split
  next name => exact absurd rfl h
  next =>
    split
    next x pattern hItems =>
      have hParts :
          [Value.str "pull", x, pattern].map Value.spelled
            ≠ [.str "pull", x, pattern] :=
        fun hParts => h (spelled_of_sequence? hItems hParts)
      split
      next eid hHeld =>
        refine fails_pull (fun hPattern => hParts ?_) eid
        cases x with
        | str name =>
            simp only [List.map_cons, List.map_nil, hPattern]
            rfl
        | _ => cases hHeld
      next => split <;> exact Gathering.fails_throw _
    next => exact Gathering.fails_throw _

end Database

------------------------------------------------------------
-- Objects That Are Bound
------------------------------------------------------------

namespace Inputs

/- An input with an object in it cannot be bound. -/
theorem bind_of_spelled_ne
    {binding : Value}
    (h : binding.spelled ≠ binding)
    (inputs : Inputs)
    (v : Value) :
    inputs.bind (binding, v)
      = .error (.engine (.unsupportedInput binding)) := by
  unfold bind
  simp only
  split
  next name => exact absurd rfl h
  next =>
    split
    next name hItems =>
      exact absurd (spelled_of_sequence? hItems rfl) h
    next => rfl

/- So no inputs can be bound that have such an input. -/
theorem exists_error_of_spelled_ne
    {bindings : List Value}
    (h : bindings.map Value.spelled ≠ bindings)
    (args : List Value) :
    ∃ fault, ofArguments bindings args = .error fault := by
  rcases exists_of_spelledItems_ne h with
    ⟨binding, hMem, hBinding⟩
  unfold ofArguments
  split
  · exact ⟨_, rfl⟩
  · rename_i hLength
    cases hBound :
        (bindings.zip args).foldlM bind empty with
    | error fault => exact ⟨fault, rfl⟩
    | ok inputs =>
        have hNames :
            (bindings.zip args).map Prod.fst = bindings :=
          List.map_fst_zip (by
            simp only [bne_iff_ne, ne_eq, not_not] at hLength
            omega)
        rw [← hNames] at hMem
        rcases List.mem_map.mp hMem with ⟨⟨_, v⟩, hInput, rfl⟩
        rcases Outcome.exists_step_of_foldlM hBound hInput with
          ⟨u, u', hStep⟩
        rw [bind_of_spelled_ne hBinding] at hStep
        cases hStep

end Inputs

------------------------------------------------------------
-- Objects That Are Compared
------------------------------------------------------------

/- What equals an object is that object. -/
theorem Value.eq_of_equals?_object
    {v w : Value}
    (hObject : v.named ≠ v ∨ w.named ≠ w)
    (hEquals : v.equals? w = some true) : v = w := by
  have hBare {u : Value} (hu : u.named ≠ u) :
      u.bare = true ∧ u.endless = false := by
    cases u <;> first | exact ⟨rfl, rfl⟩ | exact absurd rfl hu
  have hSame : (v.endless = false ∨ w.endless = false) →
      v.same w = true := by
    intro hEnd
    unfold equals? alike? alikeWithin at hEquals
    cases hUndefined : v.isUndefined <;>
      cases hv : v.endless <;> cases hw : w.endless <;>
      simp_all
  rcases hObject with hv | hw
  · exact (same_bare_iff (hBare hv).1).mp
      (hSame (.inl (hBare hv).2))
  · exact (same_bare_right_iff (hBare hw).1).mp
      (hSame (.inr (hBare hw).2))

/- All arguments that equal one another are the object. -/
theorem Predicate.eq_of_holdsAlong_equates
    {args : List (Option Value)}
    {x : Value}
    (hMem : some x ∈ args)
    (hObject : x.named ≠ x)
    (h : holdsAlong .equates args = .ok true) :
    ∀ a ∈ args, a = some x := by
  have hPair {a b : Option Value}
      (hEqual : equalArguments a b = .ok true)
      (hEither : a = some x ∨ b = some x) :
      a = some x ∧ b = some x := by
    cases a with
    | none =>
        cases b with
        | none =>
            rcases hEither with hNone | hNone <;> cases hNone
        | some w => cases hEqual
    | some v =>
        cases b with
        | none => cases hEqual
        | some w =>
            have hEquals : v.equals? w = some true := by
              unfold equalArguments at hEqual
              simp only at hEqual
              split at hEqual
              next r hr =>
                rw [hr, Except.ok.inj hEqual]
              next => cases hEqual
            have hSome : v.named ≠ v ∨ w.named ≠ w :=
              hEither.imp
                (fun hv => by rwa [Option.some.inj hv])
                (fun hw => by rwa [Option.some.inj hw])
            have hSame := Value.eq_of_equals?_object hSome hEquals
            subst hSame
            exact ⟨hEither.elim id id, hEither.elim id id⟩
  induction args with
  | nil => cases hMem
  | cons a rest ih =>
      cases rest with
      | nil =>
          intro b hb
          rw [List.mem_singleton.mp hb]
          exact (List.mem_singleton.mp hMem).symm
      | cons b rest =>
          rw [holdsAlong] at h
          rcases bind_eq_ok.mp h with ⟨r, hHead, hTail⟩
          cases r with
          | false => cases hTail
          | true =>
              rcases List.mem_cons.mp hMem with hFirst | hRest
              · have hBoth := hPair hHead (.inl hFirst.symm)
                refine List.forall_mem_cons.mpr ⟨hBoth.1, ?_⟩
                exact
                  ih (hBoth.2 ▸ List.mem_cons_self) hTail
              · have hAll := ih hRest hTail
                have hBoth :=
                  hPair hHead (.inr (hAll b List.mem_cons_self))
                exact List.forall_mem_cons.mpr ⟨hBoth.1, hAll⟩

/- In a walk that succeeds, each item has its result. -/
theorem exists_mem_of_mapM
    {α β : Type}
    {f : α → Outcome β}
    {xs : List α}
    {ys : List β}
    (h : xs.mapM f = .ok ys) :
    ∀ x ∈ xs, ∃ y ∈ ys, f x = .ok y := by
  rw [Outcome.mapM_eq_ok] at h
  induction h with
  | nil => nofun
  | cons hFirst _ ih =>
      refine List.forall_mem_cons.mpr
        ⟨⟨_, List.mem_cons_self, hFirst⟩, ?_⟩
      intro x hx
      rcases ih x hx with ⟨y, hy, hStep⟩
      exact ⟨y, List.mem_cons_of_mem _ hy, hStep⟩

/-
  An equality with an object among its arguments holds only if
  all of them are known to be that object.
-/
theorem Assignment.read_of_satisfies_equality
    {σ : Assignment}
    {expr x : Value}
    {args : List Value}
    (hExpr : expr.sequence? = some (.str "=" :: args))
    (hMem : x ∈ args)
    (hObject : x.named ≠ x)
    (h : σ.satisfies expr = .ok true) :
    ∀ token ∈ args, σ.read token = .known x := by
  have hRead : σ.read x = .known x := by
    cases x <;> first | rfl | exact absurd rfl hObject
  have hOp :
      (Value.str "=").str?.bind Predicate.ofName?
        = some .equates := rfl
  unfold satisfies at h
  rw [hExpr] at h
  simp only [hOp] at h
  rcases bind_eq_ok.mp h with ⟨values, hValues, hHolds⟩
  have hAlong :
      Predicate.holdsAlong .equates values = .ok true := by
    split at hHolds
    · cases hHolds
    · split at hHolds
      next b hb =>
        rw [hb, pure_eq_ok.mp hHolds]
      next => cases hHolds
      next => cases hHolds
  have hTaken := exists_mem_of_mapM hValues
  have hArgument : σ.argument x = .ok (some x) := by
    rw [argument, hRead]
  rcases hTaken x hMem with ⟨a, ha, hTake⟩
  have hEq : a = some x :=
    Except.ok.inj (hTake.symm.trans hArgument)
  intro token hToken
  rcases hTaken token hToken with ⟨b, hb, hOther⟩
  rw [Predicate.eq_of_holdsAlong_equates (hEq ▸ ha) hObject
    hAlong b hb] at hOther
  unfold argument at hOther
  split at hOther
  next v hv =>
    rw [hv, Option.some.inj (Except.ok.inj hOther)]
  next => cases hOther
  next => cases hOther

/-
  The clause is an equality of an object with an argument that
  is never that object.
-/
def EquatesObject (clause : Value) : Prop :=
  ∃ (expr x other : Value) (args : List Value),
    clause = .tuple [expr]
      ∧ expr.sequence? = some (.str "=" :: args)
      ∧ x ∈ args ∧ x.named ≠ x
      ∧ other ∈ args
      ∧ ∀ σ : Assignment, σ.read other ≠ .known x

namespace Database

variable {db : Database}

/- No assignment is left after such a clause. -/
theorem step_equatesObject
    {clause : Value}
    (h : EquatesObject clause)
    {assignments left : List Assignment}
    (hStep : db.step assignments clause = .ok left) :
    left = [] := by
  rcases h with
    ⟨expr, x, other, args, rfl, hExpr, hMem, hObject, hOther,
      hNever⟩
  have hExpression : expressionOf? [expr] = some expr := by
    rw [expressionOf?, hExpr]
    rfl
  unfold step at hStep
  simp only [Value.sequence?, hExpression] at hStep
  refine List.eq_nil_iff_forall_not_mem.mpr ?_
  intro σ hσ
  rw [(Outcome.eq_filter_of_filterM hStep).1,
    List.mem_filter] at hσ
  have hHolds : σ.satisfies expr = .ok true :=
    Outcome.holds_iff.mp hσ.2
  exact hNever σ
    (Assignment.read_of_satisfies_equality hExpr hMem hObject
      hHolds other hOther)

/- So none is left after clauses with such a one. -/
theorem solve_equatesObject
    {clauses : List Value}
    {clause : Value}
    (hMem : clause ∈ clauses)
    (h : EquatesObject clause)
    {assignments left : List Assignment}
    (hSolve : db.solve clauses assignments = .ok left) :
    left = [] := by
  refine Outcome.foldlM_of_mem (· = []) hMem
    (fun _ _ hStep => step_equatesObject h hStep) ?_ hSolve
  rintro other - _ after hStep rfl
  rcases step_nil db other with ⟨hNone, -⟩ | ⟨fault, hFault, -⟩
  · exact Except.ok.inj (hStep.symm.trans hNone)
  · cases hStep.symm.trans hFault

end Database

------------------------------------------------------------
-- Rows
------------------------------------------------------------

/-
  An object is in the way of a call: it is part of a term that
  is projected or of an input, or it should be equal to
  something else.
-/
inductive Call.Obstructed (c : Call) : Prop where
  | find (h : c.find.map Value.spelled ≠ c.find)
  | inputs (h : c.inputs.map Value.spelled ≠ c.inputs)
  | clause
      (clause : Value)
      (hMem : clause ∈ c.clauses)
      (h : EquatesObject clause)

/- Such a call has no rows. -/
theorem Call.rows_eq_nil
    {c : Call}
    (h : c.Obstructed)
    {g : Growths}
    {rows : List (List Value)}
    (hRows : (c.evaluate.run.run g).1 = .ok rows) :
    rows = [] := by
  rw [run_evaluate] at hRows
  cases hSolution : c.solution with
  | error fault =>
      rw [hSolution] at hRows
      cases hRows
  | ok s =>
      rw [hSolution] at hRows
      change ((s.rows c.find).run.run g).1 = .ok rows at hRows
      rcases solution_eq_ok.mp hSolution with
        ⟨inputs, hInputs, _, hSolve⟩
      have hNone (hNil : s.assignments = []) : rows = [] := by
        unfold Solution.rows Database.rows at hRows
        rw [hNil] at hRows
        exact (Except.ok.inj hRows).symm
      rcases h with hFind | hBound | ⟨clause, hMem, hClause⟩
      · rcases exists_of_spelledItems_ne hFind with
          ⟨term, hTerm, hObject⟩
        cases hAssignments : s.assignments with
        | nil => exact hNone hAssignments
        | cons σ rest =>
            have hRow :
                Gathering.Fails
                  (s.db.rows c.find s.assignments) :=
              Gathering.fails_mapM
                (hAssignments ▸ List.mem_cons_self)
                (Gathering.fails_mapM hTerm
                  (Database.fails_project hObject σ))
            rcases hRow.bind (fun rows =>
                rows.mapM (fun row => row.mapM Gathering.look))
                g with ⟨fault, hFault⟩
            have hSame := hFault.symm.trans hRows
            cases hSame
      · rcases Inputs.exists_error_of_spelled_ne hBound c.args
          with ⟨fault, hFault⟩
        rw [hFault] at hInputs
        cases hInputs
      · exact
          hNone (Database.solve_equatesObject hMem hClause hSolve)

------------------------------------------------------------
-- Texts and Objects
------------------------------------------------------------

/-
  Contexts that are the same once all variables are spelled
  are both taken or both rejected, for the same reason.  Their
  documents then have the same labels and arguments, and the
  same canonical bytes exactly if they are equal.  They are,
  and so are all runs, where objects only are terms of clauses
  or variables that are bound.  A document with an object in
  its projection, in an input, or in an equality with anything
  else gives no rows.
-/
theorem interchangeable_of_spelled
    {c c' : Value}
    (hSame :
      c.spelledBy Value.spelled = c'.spelledBy Value.spelled)
    (o : CompileOptions) :
    Outcome.Alike
        (fun d d' =>
          d.spelledBy Value.spelled = d'.spelledBy Value.spelled
            ∧ (d.elementary = true → d'.elementary = true →
              (d.canonicalBytes = d'.canonicalBytes ↔ d = d')))
        (compileQuery o c) (compileQuery o c')
      ∧ (c.spelledBy id = c'.spelledBy id →
          compileQuery o c = compileQuery o c'
            ∧ ∀ p : EntryPoint, p.run c = p.run c')
      ∧ ∀ d, compileQuery o c' = .ok d → d.call.Obstructed →
          ∀ g rows, (d.call.evaluate.run.run g).1 = .ok rows →
            rows = [] := by
  refine ⟨?_, fun hTerms => ?_, fun d _ hObstructed g rows => ?_⟩
  · refine
      (compileQuery_alike Value.copies_spelled hSame o).mono ?_
    exact fun d d' hAlike =>
      ⟨hAlike, QueryDocument.canonicalBytes_eq_iff hAlike⟩
  · exact
      ⟨compileQuery_congr hTerms o,
        EntryPoint.run_congr hTerms⟩
  · exact Call.rows_eq_nil hObstructed

/- The sections of a query for the entity of an ident. -/
def identSections (ident : Value) : Context where
  bindings :=
    .list [.str "$", .database (Bootstrap.database 0)]
  projection := .list [.str "?e", .str "?v"]
  clauses :=
    .list
      [ Value.record
          [("db/id", .str "?e"), ("db/ident", .str "?v")] ]
  preds := .list [.tuple [.str "=", ident, .str "db/doc"]]
  rules := .list []

/- The query, with a predicate on its second variable. -/
def identContext (ident : Value) : Value :=
  .context (identSections ident)

/- The query is read as these sections. -/
theorem readContext_identContext (ident : Value) :
    readContext {} (identContext ident)
      = .ok (identSections ident) := by
  simp [readContext, identContext, identSections,
    Context.readStrictly, Context.toRecord, Context.ofEntries,
    Context.readRequired, Context.readProjection,
    Context.readClauses, Context.readCalls, Context.readItems,
    Context.clauseProblem?, Context.nonCall?, Context.isCall,
    Context.keyProblem?, Context.sectionNames,
    Clause.entityKey, Value.record, Value.hasField,
    Value.field?, Value.sequence?, Table.find?, Table.same_str,
    List.findIdx?, List.findIdx?.go, bind, Except.bind, pure,
    Except.pure]

/-
  With a text for the variable the query has a row.  With an
  object it compiles too, but it has no row.
-/
theorem rows_identContext :
    (∃ d row,
        compileQuery {} (identContext (.str "?v")) = .ok d
          ∧ (d.call.evaluate.run.run []).1 = .ok [row])
      ∧ ∃ d,
          compileQuery {} (identContext (.var "?v")) = .ok d
            ∧ ∀ rows,
              (d.call.evaluate.run.run []).1 = .ok rows →
                rows = [] := by
  have hSame :
      (identContext (.str "?v")).spelledBy Value.spelled
        = (identContext (.var "?v")).spelledBy Value.spelled :=
    rfl
  rcases interchangeable_of_spelled hSame {} with
    ⟨hAlike, -, hNone⟩
  have hRow :
      ((compileQuery {} (identContext (.str "?v"))).toOption.bind
          (fun d =>
            (d.call.evaluate.run.run []).1.toOption.map
              List.length))
        = some 1 := by
    decide +kernel
  cases hText : compileQuery {} (identContext (.str "?v")) with
  | error fault =>
      rw [hText] at hRow
      cases hRow
  | ok d =>
      rw [hText] at hAlike hRow
      cases hObject :
          compileQuery {} (identContext (.var "?v")) with
      | error fault =>
          rw [hObject] at hAlike
          cases hAlike
      | ok d' =>
          have hObstructed : d'.call.Obstructed := by
            rw [(wellFormed_of_compileQuery
                (readContext_identContext _) hObject).2]
            refine
              .clause
                (.tuple [.tuple
                  [.str "=", .var "?v", .str "db/doc"]]) ?_ ?_
            · exact
                List.mem_append_left _
                  (List.mem_append_right _
                    (List.mem_singleton.mpr rfl))
            · refine
                ⟨_, .var "?v", .str "db/doc", _, rfl, rfl,
                  by simp, nofun, by simp, ?_⟩
              intro σ hRead
              cases hRead
          refine
            ⟨⟨d, ?_⟩, d', rfl, hNone d' hObject hObstructed []⟩
          cases hRows : (d.call.evaluate.run.run []).1 with
          | error fault => simp [hRows, Except.toOption] at hRow
          | ok rows =>
              have hOne : rows.length = 1 := by
                simpa [hRows, Except.toOption] using hRow
              rcases List.length_eq_one_iff.mp hOne with
                ⟨row, rfl⟩
              exact ⟨row, rfl, rfl⟩

end FactBase
