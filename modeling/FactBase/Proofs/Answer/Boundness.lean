import FactBase.Proofs.Answer.Failure
import FactBase.Proofs.Answer.Join
import FactBase.Proofs.Query.Compilation
import FactBase.Proofs.Value.TextTable

/-
  This file shows when a query that compiles has its
  projection bound.  A variable of a clause or of an input is
  bound in every solution.  That a variable occurs more than
  once makes sure that a projected one is among these, unless
  it is a wildcard or all its occurrences are projected.

  Key definitions include:
    * `Assignment.Binds`
    * `Context.binders`
    * `Value.Shows`
    * `Fault.isUnbound`

  Key theorems include:
    * `Inputs.binds_of_ofArguments`
    * `Database.binds_of_solve`
    * `Context.mem_binders_of_used`
    * `Context.binds_of_solution`
    * `compileQuery_projects_bound`
-/

------------------------------------------------------------
-- Bound Variables
------------------------------------------------------------

namespace FactBase

open Sorting

namespace Assignment

/- The variable has a value. -/
def Binds
    (x : String)
    (σ : Assignment) : Prop :=
  (σ.held? x).isSome = true

variable {x : String}
variable {σ τ : Assignment}
variable {marks : List Mark}

/- A variable stays bound, and one that is marked gets bound. -/
theorem binds_extended_iff :
    (σ.extended marks).Binds x
      ↔ (∃ m ∈ marks, m.1 = x) ∨ σ.Binds x := by
  unfold Binds
  rcases held?_extended_cases σ marks x with
    ⟨hNone, hHeld⟩ | ⟨before, h, after, hEq, _, hHeld⟩
  · rw [hHeld]
    constructor
    · exact .inr
    · rintro (⟨m, hm, hName⟩ | hBound)
      · exact absurd hName (hNone m hm)
      · exact hBound
  · rw [hHeld]
    refine iff_of_true rfl (.inl ⟨(x, h), ?_, rfl⟩)
    rw [hEq]
    simp

/- Binding in order ends with all marks. -/
theorem eq_extended_of_along
    (h : σ.along marks = some τ) : τ = σ.extended marks := by
  induction marks generalizing σ with
  | nil =>
      rw [along, Option.some.injEq] at h
      exact h.symm
  | cons m marks ih =>
      rcases m with ⟨y, held⟩
      rw [along] at h
      split at h
      · rw [ih h]
        simp [extended, set]
      · cases h

end Assignment

------------------------------------------------------------
-- Variables of Inputs
------------------------------------------------------------

namespace Value

/- The leaves of a list are those of its items. -/
theorem mem_leavesOf_iff
    {w : Value}
    {vs : List Value} :
    w ∈ leavesOf vs ↔ ∃ v ∈ vs, w ∈ leaves v := by
  induction vs with
  | nil => simp [leavesOf]
  | cons v vs ih => simp [leavesOf, ih]

/- A variable of a list is one of a leaf of an item. -/
theorem mem_variablesOf_iff
    {x : String}
    {vs : List Value} :
    x ∈ variablesOf vs
      ↔ ∃ v ∈ vs, ∃ w ∈ leaves v, w.variableName? = some x := by
  unfold variablesOf
  rw [List.mem_filterMap]
  constructor
  · rintro ⟨w, hw, hName⟩
    rcases mem_leavesOf_iff.mp hw with ⟨v, hv, hLeaf⟩
    exact ⟨v, hv, w, hLeaf, hName⟩
  · rintro ⟨v, hv, w, hLeaf, hName⟩
    exact ⟨w, mem_leavesOf_iff.mpr ⟨v, hv, hLeaf⟩, hName⟩

/- A value that names a variable stands for it by name. -/
theorem token_of_variableName?
    {v : Value}
    {x : String}
    (h : v.variableName? = some x) :
    (Term.ofValue v).token = .str x := by
  rcases ofValue_cases v with
    ⟨name, hName, hTerm⟩ | ⟨hNone, _⟩
  · rw [h, Option.some.injEq] at hName
    subst hName
    rw [hTerm]
    split <;> rfl
  · rw [h] at hNone
    cases hNone

/-
  A variable of a value is the token of the value, or a leaf of
  the items of the token.
-/
theorem token_cases
    {v w : Value}
    {x : String}
    (hLeaf : w ∈ leaves v)
    (hName : w.variableName? = some x) :
    (Term.ofValue v).token = .str x
      ∨ ∃ items, (Term.ofValue v).token.sequence? = some items
          ∧ w ∈ leavesOf items := by
  cases v with
  | list items =>
      rw [leaves] at hLeaf
      exact .inr ⟨items, rfl, hLeaf⟩
  | tuple items =>
      rw [leaves] at hLeaf
      exact .inr ⟨items, rfl, hLeaf⟩
  | _ =>
      rw [leaves, List.mem_singleton] at hLeaf
      · subst hLeaf
        exact .inl (token_of_variableName? hName)
      all_goals
        intro items hItems
        cases hItems

end Value

namespace Inputs

variable {inputs after : Inputs}
variable {x : String}

/- An input offers only what it names. -/
theorem exists_mark_of_offers
    {v w arg : Value}
    (hSigil : startsWithSigil x = true)
    (hLeaf : w ∈ Value.leaves v)
    (hName : w.variableName? = some x)
    (h :
      inputs.bind ((Term.ofValue v).token, arg) = .ok after)
    {marks : List Mark}
    (hMarks : marks ∈ offers ((Term.ofValue v).token, arg)) :
    ∃ m ∈ marks, m.1 = x := by
  have hToken := Value.token_cases hLeaf hName
  generalize (Term.ofValue v).token = token at *
  rcases bind_cases h with
    ⟨name, db, hStr, hSource, _⟩ | ⟨name, hStr, hOther, _⟩
      | ⟨name, hItems, _⟩
  · simp only at hStr
    subst hStr
    rcases hToken with hEq | ⟨_, hNone, _⟩
    · rw [Value.str.injEq] at hEq
      subst hEq
      unfold namesSource at hSource
      unfold startsWithSigil sigil at hSigil
      rw [beq_iff_eq] at hSource hSigil
      rw [hSource] at hSigil
      cases hSigil
    · cases hNone
  · simp only at hStr
    subst hStr
    rcases hToken with hEq | ⟨_, hNone, _⟩
    · rw [Value.str.injEq] at hEq
      subst hEq
      simp only [offers, Value.str?, hOther, Bool.false_eq_true,
        if_false, List.mem_singleton] at hMarks
      subst hMarks
      exact ⟨_, List.mem_singleton_self _, rfl⟩
    · cases hNone
  · simp only at hItems
    rcases hToken with rfl | ⟨items, hSome, hMem⟩
    · cases hItems
    · rw [hItems, Option.some.injEq] at hSome
      subst hSome
      have hText : token.str? = none := by
        cases token with
        | str s => cases hItems
        | _ => rfl
      simp only [offers, hText, hItems, List.mem_map] at hMarks
      rcases hMarks with ⟨y, _, rfl⟩
      refine ⟨_, List.mem_singleton_self _, ?_⟩
      simp only [Value.leavesOf, Value.leaves, List.append_nil,
        List.mem_cons, List.not_mem_nil, or_false,
        List.cons_append, List.nil_append] at hMem
      rcases hMem with rfl | rfl
      · simp only [Value.variableName?,
          Option.ite_none_right_eq_some, Option.some.injEq]
          at hName
        exact hName.2
      · cases hName

/- The variables of inputs are bound from the start. -/
theorem binds_of_ofArguments
    {bound args : List Value}
    (hSigil : startsWithSigil x = true)
    (hMem : x ∈ Value.variablesOf bound)
    (h :
      ofArguments
          (bound.map (fun v => (Term.ofValue v).token)) args
        = .ok inputs) :
    ∀ σ ∈ inputs.assignments, σ.Binds x := by
  rcases Value.mem_variablesOf_iff.mp hMem with
    ⟨v, hv, w, hLeaf, hName⟩
  unfold ofArguments at h
  split at h
  · cases h
  next hLength =>
    simp only [bne_iff_ne, ne_eq, not_not, List.length_map]
      at hLength
    rcases List.getElem_of_mem hv with ⟨i, hi, rfl⟩
    have hInput :
        ((Term.ofValue bound[i]).token, args[i])
          ∈ (bound.map (fun v => (Term.ofValue v).token)).zip
            args := by
      refine List.mem_iff_getElem.mpr ⟨i, ?_, ?_⟩
      · simpa [← hLength] using hi
      · simp
    refine
      Outcome.foldlM_of_mem
        (fun inputs => ∀ σ ∈ inputs.assignments, σ.Binds x)
        hInput ?_ ?_ h
    · intro before after hBind σ hσ
      rw [assignments_bind hBind] at hσ
      rcases List.mem_flatMap.mp hσ with ⟨σ₀, _, hσ⟩
      rcases List.mem_map.mp hσ with ⟨marks, hMarks, rfl⟩
      exact
        Assignment.binds_extended_iff.mpr
          (.inl
            (exists_mark_of_offers hSigil hLeaf hName hBind
              hMarks))
    · intro input _ before after hBind hBefore σ hσ
      rw [assignments_bind hBind] at hσ
      rcases List.mem_flatMap.mp hσ with ⟨σ₀, hσ₀, hσ⟩
      rcases List.mem_map.mp hσ with ⟨marks, _, rfl⟩
      exact
        Assignment.binds_extended_iff.mpr
          (.inr (hBefore σ₀ hσ₀))

end Inputs

------------------------------------------------------------
-- Variables of Clauses
------------------------------------------------------------

namespace Database

variable {db : Database}
variable {x : String}
variable {σs τs : List Assignment}

/- A goal that is reached has bound what it asks for. -/
theorem eq_extended_of_reach
    {goal : Goal}
    {choice : Option Datom}
    {σ τ : Assignment}
    (h : db.reach goal choice σ = some τ) :
    τ = σ.extended (goal.marks choice) := by
  unfold reach at h
  split at h
  · split at h
    · exact (Option.some.inj h).symm
    · cases h
  · unfold meet at h
    split at h
    · exact Assignment.eq_extended_of_along h
    · cases h
  · cases h

/- What was bound before a clause is bound after it. -/
theorem binds_of_step
    {clause : Value}
    (h : db.step σs clause = .ok τs)
    (hBound : ∀ σ ∈ σs, σ.Binds x) : ∀ τ ∈ τs, τ.Binds x := by
  rcases step_eq h with ⟨goal, _, rfl, _⟩
  intro τ hτ
  rcases List.mem_flatMap.mp hτ with ⟨σ, hσ, hτ⟩
  rcases List.mem_filterMap.mp hτ with ⟨choice, _, hReach⟩
  rw [eq_extended_of_reach hReach]
  exact Assignment.binds_extended_iff.mpr (.inr (hBound σ hσ))

/- The variables of a pattern are among what it asks for. -/
theorem exists_mark_of_names
    {t : Clause}
    (hSigil : startsWithSigil x = true)
    (hName : x ∈ t.names)
    (d : Datom) :
    ∃ m ∈
        (Pattern.ofItems
          [t.entity.token, t.attr.token, t.value.token]).marks d,
      m.1 = x := by
  have hToken :
      ∀ u : Term, u.name? = some x → u.token = .str x := by
    intro u hu
    cases u with
    | lit v => cases hu
    | _ =>
        rw [← Option.some.inj hu]
        rfl
  unfold Clause.names at hName
  rcases List.mem_filterMap.mp hName with ⟨u, hu, hNamed⟩
  have hSlot : u.token.slot? = some x := by
    rw [hToken u hNamed, Value.slot?, if_pos hSigil]
  simp only [List.mem_cons, List.not_mem_nil, or_false] at hu
  rcases hu with rfl | rfl | rfl
  · exact ⟨_, Pattern.mem_marks_entity _ d hSlot, rfl⟩
  · exact ⟨_, Pattern.mem_marks_attr _ d hSlot, rfl⟩
  · exact ⟨_, Pattern.mem_marks_value _ d hSlot, rfl⟩

/- The variables of a clause are bound after it. -/
theorem binds_of_step_clause
    {t : Clause}
    (hSigil : startsWithSigil x = true)
    (hName : x ∈ t.names)
    (h :
      db.step σs
          (.tuple [t.entity.token, t.attr.token, t.value.token])
        = .ok τs) :
    ∀ τ ∈ τs, τ.Binds x := by
  rcases step_eq h with ⟨goal, hGoal, rfl, _⟩
  have hPattern :
      goal = .pattern
        [t.entity.token, t.attr.token, t.value.token] :=
    (Option.some.inj hGoal).symm
  subst hPattern
  intro τ hτ
  rcases List.mem_flatMap.mp hτ with ⟨σ, _, hτ⟩
  rcases List.mem_filterMap.mp hτ with ⟨choice, hChoice, hReach⟩
  rcases List.mem_map.mp hChoice with ⟨d, _, rfl⟩
  rw [eq_extended_of_reach hReach]
  exact
    Assignment.binds_extended_iff.mpr
      (.inl (exists_mark_of_names hSigil hName d))

/- The variables of clauses are bound after all of them. -/
theorem binds_of_solve
    {triples : List Clause}
    {rest : List Value}
    (hSigil : startsWithSigil x = true)
    (hName : x ∈ triples.flatMap Clause.names)
    (h :
      db.solve
          (triples.map
              (fun t =>
                .tuple
                  [t.entity.token, t.attr.token, t.value.token])
            ++ rest)
          σs
        = .ok τs) :
    ∀ τ ∈ τs, τ.Binds x := by
  rcases List.mem_flatMap.mp hName with ⟨t, ht, hMem⟩
  have hClause :=
    List.mem_append_left rest
      (List.mem_map_of_mem
        (f := fun t : Clause =>
          Value.tuple
            [t.entity.token, t.attr.token, t.value.token]) ht)
  refine
    Outcome.foldlM_of_mem (fun σs => ∀ σ ∈ σs, σ.Binds x)
      hClause ?_ ?_ h
  · exact fun _ _ hStep =>
      binds_of_step_clause hSigil hMem hStep
  · exact fun _ _ _ _ hStep hBefore =>
      binds_of_step hStep hBefore

/- What the inputs bind is bound after all clauses. -/
theorem binds_of_solve_start
    {clauses : List Value}
    (h : db.solve clauses σs = .ok τs)
    (hBound : ∀ σ ∈ σs, σ.Binds x) : ∀ τ ∈ τs, τ.Binds x :=
  Outcome.foldlM_invariant (fun σs => ∀ σ ∈ σs, σ.Binds x)
    (fun _ _ _ _ hStep hBefore => binds_of_step hStep hBefore)
    h hBound

end Database

------------------------------------------------------------
-- Variables of a Context
------------------------------------------------------------

namespace Context

variable {c : Context}
variable {x : String}

/- The variables that clauses and inputs of a context bind. -/
def binders (c : Context) : List String :=
  c.triples.flatMap Clause.names
    ++ Value.variablesOf (everyOther c.bindings.itemsOf)

/-
  A variable that is projected once is bound elsewhere, if
  variables are used well and there are no rules.
-/
theorem mem_binders_of_used
    (hUsed : UsedWell c.names)
    (hRules : c.rules.itemsOf = [])
    (hMark : endsWithMark x = false)
    (hOnce :
      (Value.variablesOf c.projection.itemsOf).count x = 1) :
    x ∈ c.binders := by
  have hCount := hUsed x
  rw [if_neg (by simp [hMark])] at hCount
  have hNames :
      c.names.count x
        = c.binders.count x
          + (Value.variablesOf c.projection.itemsOf).count x := by
    unfold names binders
    rw [hRules, List.count_append, List.count_append]
    simp [Value.variablesOf, Value.leavesOf]
  rw [hNames, hOnce] at hCount
  exact List.count_pos_iff.mp (by omega)

end Context

/- The term is a variable, or a sequence that pulls one. -/
inductive Value.Shows (x : String) : Value → Prop where
  | name : Shows x (.str x)
  | pullTuple (pattern : Value) :
      Shows x (.tuple [.str "pull", .str x, pattern])
  | pullList (pattern : Value) :
      Shows x (.list [.str "pull", .str x, pattern])

/- Such a term has the variable for a leaf. -/
theorem Value.Shows.mem_variablesOf
    {x : String}
    {term : Value}
    {terms : List Value}
    (h : term.Shows x)
    (hTerm : term ∈ terms)
    (hSigil : startsWithSigil x = true) :
    x ∈ variablesOf terms := by
  have hName : (Value.str x).variableName? = some x := by
    rw [variableName?, if_pos hSigil]
  refine mem_variablesOf_iff.mpr ⟨term, hTerm, .str x, ?_, hName⟩
  cases h <;> simp [leaves, leavesOf]

------------------------------------------------------------
-- Projections
------------------------------------------------------------

/- The fault is that a projected variable is not bound. -/
def Fault.isUnbound : Fault → Bool
  | .engine (.unboundProjection _) => true
  | .engine (.unboundPull _) => true
  | _ => false

namespace Database

variable {db : Database}
variable {x : String}
variable {σ : Assignment}
variable {term : Value}

/- Other faults cover all databases. -/
theorem confines_not_isUnbound (db : Database) :
    db.Confines (fun fault => fault.isUnbound = false) where
  ordinary := by
    intro fault hFault
    unfold Fault.isUnbound
    split
    · cases hFault
    · cases hFault
    · rfl
  installed := by
    intro ident fault h
    rcases installed_eq_error h with rfl | rfl <;> rfl

/- A term that shows a bound variable is bound. -/
theorem failsIn_project_of_binds
    (hShows : term.Shows x)
    (hBound : σ.Binds x) :
    Gathering.FailsIn (fun fault => fault.isUnbound = false)
      (db.project σ term) := by
  rcases Option.isSome_iff_exists.mp hBound with ⟨held, hHeld⟩
  refine
    db.confines_not_isUnbound.pervades_failsIn.project ?_ ?_
  · rintro name hName _ hNone
    cases hShows with
    | name =>
        rw [Value.str.injEq] at hName
        rw [← hName, hHeld] at hNone
        cases hNone
    | _ => cases hName
  · rintro y pattern hItems hNone
    have hVariable : y = .str x := by
      cases hShows with
      | name => cases hItems
      | _ =>
          simp only [Value.sequence?, Option.some.injEq,
            List.cons.injEq] at hItems
          exact hItems.2.1.symm
    rw [hVariable, Value.str?, Option.bind_some, hHeld] at hNone
    cases hNone

end Database

/-
  The solutions of a query that compiles bind the variables of
  its clauses and inputs.
-/
theorem Context.binds_of_solution
    {c : Context}
    {x : String}
    {s : Solution}
    (hSigil : startsWithSigil x = true)
    (hMem : x ∈ c.binders)
    (h : c.document.call.solution = .ok s) :
    ∀ σ ∈ s.assignments, σ.Binds x := by
  rcases Call.solution_eq_ok.mp h with
    ⟨inputs, hInputs, _, hSolve⟩
  rcases List.mem_append.mp hMem with hClause | hInput
  · change
      s.db.solve
          (c.triples.map _ ++ c.preds.itemsOf.map _
            ++ c.rules.itemsOf) _
        = _ at hSolve
    rw [List.append_assoc] at hSolve
    exact Database.binds_of_solve hSigil hClause hSolve
  · exact
      Database.binds_of_solve_start hSolve
        (Inputs.binds_of_ofArguments hSigil hInput hInputs)

/-
  A query that compiles and has no rules never fails because a
  projected variable is not bound, if the wildcards that it
  projects, and the variables that it projects more than once,
  occur in its clauses or inputs as well.
-/
theorem compileQuery_projects_bound
    {o : CompileOptions}
    {v : Value}
    {c : Context}
    {d : QueryDocument}
    (hRead : readContext o v = .ok c)
    (hCompiled : compileQuery o v = .ok d)
    (hRules : c.rules.itemsOf = [])
    (hTerms :
      ∀ term ∈ c.projection.itemsOf,
        ∃ x, startsWithSigil x = true ∧ term.Shows x)
    (hOther :
      ∀ term ∈ c.projection.itemsOf, ∀ x, term.Shows x →
        (endsWithMark x = true
            ∨ 1 < (Value.variablesOf
                c.projection.itemsOf).count x) →
          x ∈ c.binders) :
    Gathering.FailsIn (fun fault => fault.isUnbound = false)
      d.call.evaluate := by
  rcases wellFormed_of_compileQuery hRead hCompiled with
    ⟨hWell, rfl⟩
  refine
    Call.failsIn_evaluate
      (Bootstrap.database 0).confines_not_isUnbound.ordinary
      (fun _ db _ _ => db.confines_not_isUnbound) ?_
  intro s hSolution σ hσ term hTerm
  rcases hTerms term hTerm with ⟨x, hSigil, hShows⟩
  have hMem : x ∈ c.binders := by
    by_cases hNeeds :
        endsWithMark x = true
          ∨ 1 < (Value.variablesOf c.projection.itemsOf).count x
    · exact hOther term hTerm x hShows hNeeds
    · rw [not_or, Bool.not_eq_true] at hNeeds
      have hSome :
          0 < (Value.variablesOf
            c.projection.itemsOf).count x :=
        List.count_pos_iff.mpr
          (hShows.mem_variablesOf hTerm hSigil)
      exact
        Context.mem_binders_of_used hWell.used hRules hNeeds.1
          (by omega)
  exact
    Database.failsIn_project_of_binds hShows
      (Context.binds_of_solution hSigil hMem hSolution σ hσ)

/- A query of the first database for the attribute of docs. -/
def docContext (terms : List Value) : Value :=
  Value.record
    [ ("let",
        .list [.str "$", .database (Bootstrap.database 0)])
    , ("yield", .list terms)
    , ("where",
        .list
          [ Value.record
              [ ("db/id", .str "?e")
              , ("db/ident", .str "db/doc") ] ]) ]

/- The sections of the query as read. -/
def docSections (terms : List Value) : Context where
  bindings := .list [.str "$", .database (Bootstrap.database 0)]
  projection := .list terms
  clauses :=
    .list
      [ Value.record
          [ ("db/id", .str "?e")
          , ("db/ident", .str "db/doc") ] ]
  preds := .list []
  rules := .list []

/- The query has these sections and no other. -/
private theorem readContext_docContext (terms : List Value) :
    readContext {} (docContext terms)
      = .ok (docSections terms) := by
  simp [readContext, docContext, docSections, Value.record,
    Context.readStrictly, Context.ofEntries,
    Context.readRequired, Context.readProjection,
    Context.readClauses, Context.readCalls, Context.readItems,
    Context.keyProblem?, Context.clauseProblem?,
    Context.sectionNames, Value.hasField, Value.field?,
    Table.find?, Table.same_str, Value.sequence?,
    Clause.entityKey, ok_bind, pure, Except.pure]

/- A variable that is shown twice is bound by its clause. -/
theorem projects_bound_docContext :
    let terms : List Value :=
      [ .str "?e"
      , .tuple [.str "pull", .str "?e", .list [.str "*"]] ]
    ∃ d, compileQuery {} (docContext terms) = .ok d
      ∧ Gathering.FailsIn (fun fault => fault.isUnbound = false)
        d.call.evaluate := by
  intro terms
  have hSome :
      (compileQuery {} (docContext terms)).toOption.isSome
        = true := by
    decide +kernel
  have hBinders : "?e" ∈ (docSections terms).binders := by
    decide +kernel
  have hTerms :
      ∀ term ∈ terms, Value.Shows "?e" term := by
    intro term hTerm
    simp only [terms, List.mem_cons, List.not_mem_nil, or_false]
      at hTerm
    rcases hTerm with rfl | rfl
    · exact .name
    · exact .pullTuple _
  have hOnly :
      ∀ term ∈ terms, ∀ x, Value.Shows x term → x = "?e" := by
    intro term hTerm x hShows
    simp only [terms, List.mem_cons, List.not_mem_nil, or_false]
      at hTerm
    rcases hTerm with rfl | rfl <;> cases hShows <;> rfl
  cases hCompiled : compileQuery {} (docContext terms) with
  | error fault =>
      rw [hCompiled] at hSome
      cases hSome
  | ok d =>
      refine ⟨d, rfl, ?_⟩
      refine
        compileQuery_projects_bound
          (readContext_docContext terms) hCompiled rfl ?_ ?_
      · exact fun term hTerm =>
          ⟨"?e", by decide, hTerms term hTerm⟩
      · intro term hTerm x hShows _
        rw [hOnly term hTerm x hShows]
        exact hBinders

/- The variable that an outcome fails for as not bound. -/
private def unbound?
    {α : Type} : Outcome α → Option String
  | .error (.engine (.unboundProjection name)) => some name
  | _ => none

/- An outcome that fails so has the fault. -/
private theorem eq_error_of_unbound?
    {α : Type}
    {outcome : Outcome α}
    {name : String}
    (h : unbound? outcome = some name) :
    outcome = .error (.engine (.unboundProjection name)) := by
  unfold unbound? at h
  split at h
  · rw [Option.some.inj h]
  · cases h

/-
  A variable that is projected twice and occurs nowhere else
  compiles, but it is not bound.
-/
theorem not_projects_bound_docContext :
    let terms : List Value := [.str "?x", .str "?x", .str "?e"]
    ∃ d, compileQuery {} (docContext terms) = .ok d
      ∧ (d.call.evaluate.run.run []).1
        = .error (.engine (.unboundProjection "?x")) := by
  intro terms
  have hSome :
      (compileQuery {} (docContext terms)).toOption.isSome
        = true := by
    decide +kernel
  have hFails :
      unbound?
          (do
            let d ← compileQuery {} (docContext terms)
            (d.call.evaluate.run.run []).1)
        = some "?x" := by
    decide +kernel
  cases hCompiled : compileQuery {} (docContext terms) with
  | error fault =>
      rw [hCompiled] at hSome
      cases hSome
  | ok d =>
      rw [hCompiled, ok_bind] at hFails
      exact ⟨d, rfl, eq_error_of_unbound? hFails⟩

end FactBase
