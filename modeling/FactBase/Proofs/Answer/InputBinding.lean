import FactBase.Fact.Engine
import FactBase.Proofs.Answer.Inlining

/-
  This file compares a query that gets the value of a
  variable from an input with the query in which the value is
  written in place of the variable.  A value that is written
  down is followed to the entity that it names; a variable
  has to be equal to what the fact holds as well, so the two
  answers differ where the value is a name.

  Key definitions include:
    * `Call.binding`
    * `Call.inlining`
    * `Database.found`

  Key theorems include:
    * `Inputs.simulates_binding`
    * `Database.rows_of_simulates`
    * `Call.evaluate_binding`
-/

------------------------------------------------------------
-- Calls
------------------------------------------------------------

namespace FactBase

open Sorting

variable {x : String}
variable {v : Value}

namespace Value

/- An input binds a variable. -/
def bindsName (x : String) (binding : Value) : Prop :=
  binding = .str x
    ∨ binding.sequence? = some [.str x, .str "..."]

/- A projected term shows what a variable is bound to. -/
def projects (x : String) (term : Value) : Prop :=
  term = .str x
    ∨ ∃ pattern,
        term.sequence? = some [.str "pull", .str x, pattern]

end Value

namespace Call

/- A call with one more input, which binds a variable. -/
def binding
    (c : Call)
    (i : Nat)
    (x : String)
    (v : Value) : Call :=
  { c with
    inputs := c.inputs.take i ++ .str x :: c.inputs.drop i
    args := c.args.take i ++ v :: c.args.drop i }

/- A call with a value written in place of a variable. -/
def inlining
    (c : Call)
    (x : String)
    (v : Value) : Call :=
  { c with clauses := c.clauses.map (Value.inlinedClause x v) }

end Call

------------------------------------------------------------
-- Inputs
------------------------------------------------------------

namespace Inputs

/-
  All assignments of the first inputs give a variable a value
  and are otherwise like those of the second.
-/
structure Simulates
    (x : String)
    (v : Value)
    (inputs inputs' : Inputs) : Prop where
  source : inputs.source = inputs'.source
  assignments :
    List.Forall₂ (Assignment.Simulates x v)
      inputs.assignments inputs'.assignments

variable {inputs inputs' after after' : Inputs}

/- Binding the variable starts the simulation. -/
theorem simulates_bind_self
    (hName : startsWithSigil x = true)
    (h : inputs.bind (.str x, v) = .ok after) :
    after.Simulates x v inputs := by
  have hSource : namesSource x = false := by
    unfold startsWithSigil at hName
    unfold namesSource
    rw [beq_iff_eq] at hName
    rw [hName]
    rfl
  unfold bind at h
  simp only [hSource, hName, Bool.false_eq_true, if_false,
    if_true, Except.ok.injEq] at h
  subst h
  refine ⟨rfl, ?_⟩
  unfold bindOne
  simp only
  generalize inputs.assignments = σs
  induction σs with
  | nil => exact .nil
  | cons σ σs ih =>
      refine .cons ⟨Assignment.get?_set_self _ _ _, ?_⟩ ih
      intro y hy
      simp [Assignment.held?, Assignment.set, List.lookup_cons,
        beq_false_of_ne hy]

/- Binding each member of a value keeps the simulation. -/
private theorem simulates_bindEach
    (h : inputs.Simulates x v inputs')
    {name : String}
    (hName : name ≠ x)
    {w : Value}
    (hAfter : inputs.bindEach name w = .ok after)
    (hAfter' : inputs'.bindEach name w = .ok after') :
    after.Simulates x v after' := by
  unfold bindEach at hAfter hAfter'
  rcases bind_eq_ok.mp hAfter with ⟨each, hEach, hEq⟩
  rcases bind_eq_ok.mp hAfter' with ⟨each', hEach', hEq'⟩
  rw [pure_eq_ok] at hEq hEq'
  subst hEq hEq'
  refine ⟨h.source, ?_⟩
  simp only
  rw [Outcome.mapM_eq_ok] at hEach hEach'
  have hRel := h.assignments
  clear hAfter hAfter'
  generalize inputs.assignments = σs at hEach hRel
  generalize inputs'.assignments = σs' at hEach' hRel
  induction hRel generalizing each each' with
  | nil =>
      cases hEach
      cases hEach'
      exact .nil
  | cons hHead _ ih =>
      cases hEach with
      | cons hFirst hRest =>
          cases hEach' with
          | cons hFirst' hRest' =>
              refine List.rel_append ?_ (ih _ _ hRest hRest')
              rcases bind_eq_ok.mp hFirst with ⟨items, hItems, hL⟩
              rcases bind_eq_ok.mp hFirst' with
                ⟨items', hItems', hR⟩
              rw [pure_eq_ok] at hL hR
              rw [hItems, Except.ok.injEq] at hItems'
              subst hL hR hItems'
              rw [List.forall₂_map_left_iff,
                List.forall₂_map_right_iff, List.forall₂_same]
              intro item _
              exact hHead.set_of_ne hName _

/- Taking a source keeps the simulation. -/
private theorem Simulates.bindSource
    (h : inputs.Simulates x v inputs')
    {name : String}
    {w : Value}
    (hAfter : inputs.bindSource name w = .ok after)
    (hAfter' : inputs'.bindSource name w = .ok after') :
    after.Simulates x v after' := by
  unfold Inputs.bindSource at hAfter hAfter'
  split at hAfter
  next hSource =>
    rw [if_pos hSource] at hAfter'
    cases w with
    | database db =>
        simp only [Except.ok.injEq] at hAfter hAfter'
        subst hAfter hAfter'
        exact ⟨rfl, h.assignments⟩
    | _ => cases hAfter
  next => cases hAfter

/- Binding another variable keeps the simulation. -/
private theorem Simulates.bindOne
    (h : inputs.Simulates x v inputs')
    {name : String}
    (hName : name ≠ x)
    (w : Value) :
    (inputs.bindOne name w).Simulates x v
      (inputs'.bindOne name w) := by
  refine ⟨h.source, ?_⟩
  unfold Inputs.bindOne
  rw [List.forall₂_map_left_iff, List.forall₂_map_right_iff]
  exact h.assignments.imp (fun _ _ hσ => hσ.set_of_ne hName _)

/- Binding another input keeps the simulation. -/
theorem Simulates.bind
    (h : inputs.Simulates x v inputs')
    {input : Value × Value}
    (hOther : ¬ Value.bindsName x input.1)
    (hAfter : inputs.bind input = .ok after)
    (hAfter' : inputs'.bind input = .ok after') :
    after.Simulates x v after' := by
  rcases input with ⟨binding, w⟩
  by_cases hText : ∃ name, binding = .str name
  · rcases hText with ⟨name, rfl⟩
    have hName : name ≠ x := by
      rintro rfl
      exact hOther (.inl rfl)
    simp only [Inputs.bind] at hAfter hAfter'
    split at hAfter
    next hSource =>
      rw [if_pos hSource] at hAfter'
      exact h.bindSource hAfter hAfter'
    next hSource =>
      rw [if_neg hSource] at hAfter'
      split at hAfter
      next hVariable =>
        rw [if_pos hVariable] at hAfter'
        rw [Except.ok.injEq] at hAfter hAfter'
        subst hAfter hAfter'
        exact h.bindOne hName w
      next => cases hAfter
  · have hSequence :
        ∀ inputs : Inputs, ∀ after : Inputs,
          inputs.bind (binding, w) = .ok after →
            ∃ name,
              binding.sequence? = some [.str name, .str "..."]
                ∧ inputs.bindEach name w = .ok after := by
      intro inputs after hAfter
      unfold Inputs.bind at hAfter
      simp only at hAfter
      split at hAfter
      next name _ => exact absurd ⟨name, rfl⟩ hText
      next =>
        split at hAfter
        next name hItems =>
          split at hAfter
          · exact ⟨name, hItems, hAfter⟩
          · cases hAfter
        next => cases hAfter
    rcases hSequence _ _ hAfter with ⟨name, hItems, hEach⟩
    rcases hSequence _ _ hAfter' with ⟨name', hItems', hEach'⟩
    rw [hItems] at hItems'
    simp only [Option.some.injEq, List.cons.injEq,
      Value.str.injEq, and_true] at hItems'
    subst hItems'
    have hName : name ≠ x := by
      rintro rfl
      exact hOther (.inr hItems)
    exact simulates_bindEach h hName hEach hEach'

/- Binding other inputs keeps the simulation. -/
theorem Simulates.foldlM_bind
    (h : inputs.Simulates x v inputs')
    {given : List (Value × Value)}
    (hOther : ∀ input ∈ given, ¬ Value.bindsName x input.1)
    (hAfter : given.foldlM Inputs.bind inputs = .ok after)
    (hAfter' : given.foldlM Inputs.bind inputs' = .ok after') :
    after.Simulates x v after' := by
  induction given generalizing inputs inputs' with
  | nil =>
      rw [List.foldlM_nil, pure_eq_ok] at hAfter hAfter'
      subst hAfter hAfter'
      exact h
  | cons input given ih =>
      rw [List.forall_mem_cons] at hOther
      rw [List.foldlM_cons] at hAfter hAfter'
      rcases bind_eq_ok.mp hAfter with ⟨next, hNext, hRest⟩
      rcases bind_eq_ok.mp hAfter' with ⟨next', hNext', hRest'⟩
      exact ih (h.bind hOther.1 hNext hNext') hOther.2 hRest hRest'

/- One more input simulates the inputs without it. -/
theorem simulates_binding
    {c : Call}
    {i : Nat}
    (hName : startsWithSigil x = true)
    (hOther : ∀ b ∈ c.inputs, ¬ Value.bindsName x b)
    (hAfter :
      ofArguments (c.binding i x v).inputs (c.binding i x v).args
        = .ok after)
    (hAfter' : ofArguments c.inputs c.args = .ok after') :
    after.Simulates x v after' := by
  unfold ofArguments at hAfter hAfter'
  split at hAfter'
  next => cases hAfter'
  next hLengths =>
    rw [bne_iff_ne, not_not] at hLengths
    split at hAfter
    next => cases hAfter
    next =>
      -- Both walk through the first inputs in the same way.
      have hZip :
          c.inputs.zip c.args =
            (c.inputs.take i).zip (c.args.take i)
              ++ (c.inputs.drop i).zip (c.args.drop i) := by
        rw [← List.zip_append (by simp [hLengths]),
          List.take_append_drop, List.take_append_drop]
      have hZipBound :
          (c.binding i x v).inputs.zip (c.binding i x v).args =
            (c.inputs.take i).zip (c.args.take i)
              ++ (.str x, v)
                :: (c.inputs.drop i).zip (c.args.drop i) := by
        unfold Call.binding
        rw [List.zip_append (by simp [hLengths]),
          List.zip_cons_cons]
      rw [hZip, List.foldlM_append] at hAfter'
      rw [hZipBound, List.foldlM_append] at hAfter
      rcases bind_eq_ok.mp hAfter' with ⟨first, hFirst, hRest'⟩
      rcases bind_eq_ok.mp hAfter with ⟨first', hFirst', hRest⟩
      rw [hFirst, Except.ok.injEq] at hFirst'
      subst hFirst'
      rw [List.foldlM_cons] at hRest
      rcases bind_eq_ok.mp hRest with ⟨bound, hBound, hLast⟩
      refine
        (simulates_bind_self hName hBound).foldlM_bind ?_ hLast
          hRest'
      intro input hInput
      apply hOther
      exact List.mem_of_mem_drop (List.of_mem_zip hInput).1

end Inputs

------------------------------------------------------------
-- Rows
------------------------------------------------------------

/- A term that does not show the variable shows the same. -/
theorem Database.project_of_simulates
    (db : Database)
    {σ σ' : Assignment}
    (h : σ.Simulates x v σ')
    {term : Value}
    (hTerm : ¬ Value.projects x term) :
    db.project σ term = db.project σ' term := by
  unfold Database.project
  cases term with
  | str name =>
      have hName : name ≠ x := by
        rintro rfl
        exact hTerm (.inl rfl)
      simp only [h.others name hName]
  | _ =>
      simp only
      split
      next y pattern hItems =>
        have hHeld : y.str?.bind σ.held? = y.str?.bind σ'.held? := by
          cases y with
          | str name =>
              have hName : name ≠ x := by
                rintro rfl
                exact hTerm (.inr ⟨pattern, hItems⟩)
              exact h.others name hName
          | _ => rfl
        rw [hHeld]
      next => rfl

/- Terms that do not show the variable give the same rows. -/
theorem Database.rows_of_simulates
    (db : Database)
    {σs σs' : List Assignment}
    (h : List.Forall₂ (Assignment.Simulates x v) σs σs')
    {find : List Value}
    (hFind : ∀ term ∈ find, ¬ Value.projects x term) :
    db.rows find σs = db.rows find σs' := by
  unfold Database.rows
  induction h with
  | nil => rfl
  | @cons σ σ' σs σs' hHead _ ih =>
      have hTerms :
          find.mapM (db.project σ) = find.mapM (db.project σ') := by
        clear ih
        induction find with
        | nil => rfl
        | cons term find ihFind =>
            rw [List.forall_mem_cons] at hFind
            rw [List.mapM_cons, List.mapM_cons, ihFind hFind.2,
              db.project_of_simulates hHead hFind.1]
      rw [List.mapM_cons, List.mapM_cons, ih, hTerms]

------------------------------------------------------------
-- What the Calls Answer
------------------------------------------------------------

namespace Database

variable {db : Database}

/- Patterns are met by the same facts with a value in place. -/
private theorem ways_inlined
    {goals : List Goal}
    (hGoals :
      ∀ goal ∈ goals, ∃ items, goal = .pattern items
        ∧ db.HoldsAsGiven x v items) :
    db.ways (goals.map (Goal.inlined x v)) = db.ways goals := by
  unfold ways
  rw [List.map_map]
  congr 1
  apply List.map_congr_left
  intro goal hGoal
  rcases hGoals goal hGoal with ⟨items, rfl, _⟩
  rfl

/-
  The ways of patterns with a variable that has a value are
  the ways with the value in place that carry the value.
-/
theorem simulates_found
    (hName : startsWithSigil x = true)
    {goals : List Goal}
    (hGoals :
      ∀ goal ∈ goals, ∃ items, goal = .pattern items
        ∧ db.HoldsAsGiven x v items)
    {σs σs' : List Assignment}
    (h : List.Forall₂ (Assignment.Simulates x v) σs σs') :
    List.Forall₂ (Assignment.Simulates x v)
      ((db.found goals σs).map Prod.snd)
      (((db.found (goals.map (Goal.inlined x v)) σs').filter
          (fun m => carries x v goals m.1)).map Prod.snd) := by
  rw [map_snd_found]
  unfold found
  rw [ways_inlined hGoals]
  induction h with
  | nil => exact .nil
  | @cons σ σ' σs σs' hHead _ ih =>
      rw [List.flatMap_cons, List.flatMap_cons, List.filter_append,
        List.map_append]
      refine List.rel_append ?_ ih
      have hEach :
          ∀ way ∈ db.ways goals, Option.Rel
            (Assignment.Simulates x v) (db.follow goals way σ)
            (if carries x v goals way then
              db.follow (goals.map (Goal.inlined x v)) way σ'
            else none) :=
        fun way hWay => follow_inlined hName hGoals hWay hHead
      clear ih
      generalize db.ways goals = every at hEach
      induction every with
      | nil => exact .nil
      | cons way every ihWays =>
          rw [List.forall_mem_cons] at hEach
          rcases hEach with ⟨hFirst, hRest⟩
          have hTail := ihWays hRest
          rw [List.filterMap_cons, List.filterMap_cons]
          generalize db.follow goals way σ = left at hFirst ⊢
          generalize
            db.follow (goals.map (Goal.inlined x v)) way σ' = right
            at hFirst ⊢
          cases hCarries : carries x v goals way with
          | false =>
              rw [hCarries] at hFirst
              cases hFirst
              cases right with
              | none => exact hTail
              | some τ => simpa [hCarries] using hTail
          | true =>
              rw [hCarries, if_pos rfl] at hFirst
              cases hFirst with
              | none => exact hTail
              | some hNext =>
                  simp only [Option.map_some, List.filter_cons,
                    hCarries, if_true, List.map_cons]
                  exact .cons hNext hTail

/-
  Where the value never has to name, all ways with the value
  in place carry it.
-/
theorem carries_of_mem_found
    (hName : startsWithSigil x = true)
    {goals : List Goal}
    (hGoals :
      ∀ goal ∈ goals, ∃ items, goal = .pattern items
        ∧ db.HoldsAsGiven x v items)
    (hNames :
      ∀ items, .pattern items ∈ goals → ¬ db.MayName x v items)
    {σs : List Assignment}
    {m : List (Option Datom) × Assignment}
    (h : m ∈ db.found (goals.map (Goal.inlined x v)) σs) :
    carries x v goals m.1 = true := by
  unfold found at h
  rw [ways_inlined hGoals] at h
  rcases List.mem_flatMap.mp h with ⟨σ, _, hWays⟩
  rcases List.mem_filterMap.mp hWays with ⟨way, hWay, hStep⟩
  rcases Option.map_eq_some_iff.mp hStep with ⟨τ, hFollow, rfl⟩
  have hSim : (σ.set x (.fresh v)).Simulates x v σ := by
    refine ⟨Assignment.get?_set_self _ _ _, ?_⟩
    intro y hy
    simp [Assignment.held?, Assignment.set, List.lookup_cons,
      beq_false_of_ne hy]
  refine carries_of_follow hName ?_ hWay hSim hFollow
  intro goal hGoal
  rcases hGoals goal hGoal with ⟨items, rfl, hGiven⟩
  exact ⟨items, rfl, hGiven, hNames items hGoal⟩

/- Where the value must name, no way can be followed. -/
theorem found_eq_nil
    (hName : startsWithSigil x = true)
    {goals : List Goal}
    (hGoals :
      ∀ goal ∈ goals, ∃ items, goal = .pattern items
        ∧ db.HoldsAsGiven x v items)
    (hNames :
      ∃ items, .pattern items ∈ goals ∧ db.MustName x v items)
    {σs σs' : List Assignment}
    (h : List.Forall₂ (Assignment.Simulates x v) σs σs') :
    db.found goals σs = [] := by
  unfold found
  rw [List.flatMap_eq_nil_iff]
  intro σ hσ
  rw [List.filterMap_eq_nil_iff]
  intro way hWay
  have hValue : σ.get? x = some v := by
    clear hWay hGoals hNames
    induction h with
    | nil => cases hσ
    | cons hHead _ ih =>
        rcases List.mem_cons.mp hσ with rfl | hσ
        · exact hHead.value
        · exact ih hσ
  rw [follow_eq_none_of_mustName hName hGoals hNames hWay hValue]
  rfl

end Database

/- A clause asks for a pattern. -/
theorem Goal.ofClause?_eq_pattern
    {clause : Value}
    {items : List Value} :
    ofClause? clause = some (.pattern items) ↔
      clause.sequence? = some items ∧ items ≠ []
        ∧ Database.expressionOf? items = none
        ∧ items.length ≤ 3 := by
  unfold ofClause?
  cases clause.sequence? with
  | none => simp
  | some found =>
      cases found with
      | nil =>
          constructor
          · intro h
            cases h
          · rintro ⟨hItems, hNonempty, _⟩
            exact absurd (Option.some.inj hItems).symm hNonempty
      | cons first rest =>
          simp only [Option.some.injEq]
          cases hExpr :
              Database.expressionOf? (first :: rest) with
          | some expr =>
              simp only [Option.some.injEq, reduceCtorEq, false_iff]
              rintro ⟨rfl, _, hNone, _⟩
              rw [hExpr] at hNone
              cases hNone
          | none =>
              simp only
              constructor
              · intro h
                split at h
                next => cases h
                next hShort =>
                  simp only [Option.some.injEq,
                    Goal.pattern.injEq] at h
                  subst h
                  exact
                    ⟨rfl, List.cons_ne_nil _ _, hExpr,
                      Nat.le_of_not_lt hShort⟩
              · rintro ⟨rfl, _, _, hShort⟩
                rw [if_neg (Nat.not_lt_of_le hShort)]

/- A pattern stays one with a value in place. -/
theorem Goal.ofClause?_inlinedClause
    {clause : Value}
    {items : List Value}
    (h : ofClause? clause = some (.pattern items)) :
    ofClause? (Value.inlinedClause x v clause) =
      some (Goal.inlined x v (.pattern items)) := by
  rcases ofClause?_eq_pattern.mp h with
    ⟨hItems, hNonempty, hExpr, hShort⟩
  apply ofClause?_eq_pattern.mpr
  refine ⟨?_, by simpa using hNonempty, ?_, by simpa using hShort⟩
  · cases clause <;>
      simp_all [Value.sequence?, Value.inlinedClause]
  · unfold Database.expressionOf? at hExpr ⊢
    cases items with
    | nil => rfl
    | cons first rest =>
        cases rest with
        | nil =>
            cases first with
            | str s =>
                simp only [List.map_cons, List.map_nil,
                  Value.inlined]
                split <;> rfl
            | _ => exact hExpr
        | cons second rest => rfl

/- The goals of clauses with a value in place. -/
theorem Call.goals_inlining
    {c : Call}
    (h :
      ∀ clause ∈ c.clauses, ∃ items,
        Goal.ofClause? clause = some (.pattern items)) :
    (c.inlining x v).goals = c.goals.map (Goal.inlined x v) := by
  unfold goals inlining
  simp only
  generalize c.clauses = clauses at h
  induction clauses with
  | nil => rfl
  | cons clause clauses ih =>
      rw [List.forall_mem_cons] at h
      rcases h with ⟨⟨items, hClause⟩, hRest⟩
      rw [List.map_cons, List.filterMap_cons,
        List.filterMap_cons, hClause,
        Goal.ofClause?_inlinedClause hClause, ih hRest,
        List.map_cons]

/- Terms that do not show the variable give the same answer. -/
private theorem Solution.rows_of_simulates
    {db : Database}
    {σs σs' : List Assignment}
    (h : List.Forall₂ (Assignment.Simulates x v) σs σs')
    {find : List Value}
    (hFind : ∀ term ∈ find, ¬ Value.projects x term) :
    Solution.rows find { db := db, assignments := σs } =
      Solution.rows find { db := db, assignments := σs' } := by
  unfold Solution.rows
  rw [db.rows_of_simulates h hFind]

/- No assignments give no rows. -/
private theorem Solution.rows_eq_nil
    {db : Database}
    {find : List Value}
    {before after : Growths}
    {rows : List (List Value)}
    (h :
      (Solution.rows find
          { db := db, assignments := [] }).run.run before
        = (.ok rows, after)) : [] = rows := by
  have hNil :
      (Solution.rows find
          { db := db, assignments := [] }).run.run before
        = (.ok [], before) := rfl
  exact Except.ok.inj (congrArg Prod.fst (hNil.symm.trans h))

/- What holds of the patterns of a call holds of its goals. -/
private theorem Call.holdsAsGiven_of_mem_goals
    {c : Call}
    {db : Database}
    (h :
      ∀ clause ∈ c.clauses, ∃ items,
        Goal.ofClause? clause = some (.pattern items)
          ∧ db.HoldsAsGiven x v items) :
    ∀ goal ∈ c.goals, ∃ items, goal = .pattern items
      ∧ db.HoldsAsGiven x v items := by
  intro goal hGoal
  rcases List.mem_filterMap.mp hGoal with
    ⟨clause, hClause, hIs⟩
  rcases h clause hClause with ⟨items, hPattern, hGiven⟩
  rw [hPattern, Option.some.injEq] at hIs
  exact ⟨items, hIs.symm, hGiven⟩

/-
  A query whose patterns get the value of a variable from an
  input answers with those ways of the query with the value
  in place on which the facts carry the value wherever the
  variable stands.  The answers agree if the value never has
  to name an entity, and there is no answer through the input
  if somewhere it must.
-/
theorem Call.evaluate_binding
    {c : Call}
    {i : Nat}
    {inputs : Inputs}
    {db : Database}
    {before after after' : Growths}
    {rows rows' : List (List Value)}
    (hName : startsWithSigil x = true)
    (hOther : ∀ b ∈ c.inputs, ¬ Value.bindsName x b)
    (hFind : ∀ term ∈ c.find, ¬ Value.projects x term)
    (hClauses :
      ∀ clause ∈ c.clauses, ∃ items,
        Goal.ofClause? clause = some (.pattern items)
          ∧ db.HoldsAsGiven x v items)
    (hInputs : Inputs.ofArguments c.inputs c.args = .ok inputs)
    (hSource : inputs.source = some db)
    (hBinding :
      (c.binding i x v).evaluate.run.run before
        = (.ok rows, after))
    (hInlining :
      (c.inlining x v).evaluate.run.run before
        = (.ok rows', after')) :
    let found :=
      db.found (c.goals.map (Goal.inlined x v))
        inputs.assignments
    let carried :=
      found.filter (fun m => Database.carries x v c.goals m.1)
    (Solution.rows c.find
          { db := db
            assignments := found.map Prod.snd }).run.run before
        = (.ok rows', after')
      ∧ (Solution.rows c.find
            { db := db
              assignments := carried.map Prod.snd }).run.run
            before
          = (.ok rows, after)
      ∧ ((∀ items, .pattern items ∈ c.goals →
            ¬ db.MayName x v items) → rows = rows')
      ∧ ((∃ items, .pattern items ∈ c.goals
            ∧ db.MustName x v items) → rows = []) := by
  have hPatterns :
      ∀ clause ∈ c.clauses, ∃ items,
        Goal.ofClause? clause = some (.pattern items) := by
    intro clause hClause
    rcases hClauses clause hClause with ⟨items, hGoal, _⟩
    exact ⟨items, hGoal⟩
  have hGoals := Call.holdsAsGiven_of_mem_goals hClauses
  -- The call with the value in place goes all its ways.
  rcases Call.evaluate_eq hInlining with
    ⟨inputs₁, db₁, hInputs₁, hSource₁, _, hInlined⟩
  have hSame₁ : inputs₁ = inputs :=
    Except.ok.inj (hInputs₁.symm.trans hInputs)
  subst hSame₁
  have hDb₁ : db₁ = db :=
    Option.some.inj (hSource₁.symm.trans hSource)
  subst hDb₁
  rw [goals_inlining hPatterns] at hInlined
  -- The call with the input goes those that carry the value.
  rcases Call.evaluate_eq hBinding with
    ⟨inputs₂, db₂, hInputs₂, hSource₂, _, hWays⟩
  have hSim := Inputs.simulates_binding hName hOther hInputs₂ hInputs
  have hDb₂ : db₂ = db₁ :=
    Option.some.inj
      ((hSource₂.symm.trans hSim.source).trans hSource)
  subst hDb₂
  intro found carried
  have hBound :
      (Solution.rows c.find
          { db := db₂
            assignments := carried.map Prod.snd }).run.run before
        = (.ok rows, after) := by
    rw [← Solution.rows_of_simulates
      (Database.simulates_found hName hGoals hSim.assignments)
      hFind]
    exact hWays
  refine ⟨hInlined, hBound, ?_, ?_⟩
  · intro hNames
    have hAll : carried = found := by
      apply List.filter_eq_self.mpr
      intro m hm
      exact Database.carries_of_mem_found hName hGoals hNames hm
    rw [hAll] at hBound
    have hEq := hBound.symm.trans hInlined
    simpa using congrArg Prod.fst hEq
  · intro hMust
    have hNone :
        db₂.found c.goals inputs₂.assignments = [] :=
      Database.found_eq_nil hName hGoals hMust
        hSim.assignments
    have hSameGoals : (c.binding i x v).goals = c.goals := rfl
    rw [hSameGoals, hNone] at hWays
    exact (Solution.rows_eq_nil hWays).symm

/- The tokens that ask for the name of an entity. -/
def namePattern : List Value :=
  [.str "?x", .str "db/ident", .str "?name"]

/- The query for the name of an entity in the first database. -/
def nameCall : Call where
  find := [.str "?name"]
  inputs := [.str "$"]
  clauses := [.list namePattern]
  args := [.database (Bootstrap.database 0)]

/-
  With an ident for the entity the query has one answer, but
  none if the ident comes through an input.
-/
theorem evaluate_binding_ident :
    ((nameCall.binding 1 "?x" (.str "db/doc")).evaluate.run.run
          []).1 = .ok []
      ∧ ((nameCall.inlining "?x" (.str "db/doc")).evaluate.run.run
            []).1.toOption.map List.length = some 1 := by
  have hLength :
      ((nameCall.inlining "?x" (.str "db/doc")).evaluate.run.run
          []).1.toOption.map List.length = some 1 := by
    decide +kernel
  rcases
      Outcome.exists_ok_of_isSome
        ((nameCall.inlining "?x" (.str "db/doc")).evaluate.run.run
          []) (by decide +kernel)
    with ⟨rows', after', hInlining⟩
  rcases
      Outcome.exists_ok_of_isSome
        ((nameCall.binding 1 "?x" (.str "db/doc")).evaluate.run.run
          []) (by decide +kernel)
    with ⟨rows, after, hBinding⟩
  have hGiven :
      (Bootstrap.database 0).HoldsAsGiven "?x" (.str "db/doc")
        namePattern := by
    intro d _ _ m hm hx hEquals
    simp [Pattern.marks, Pattern.ofItems, namePattern,
      Value.marks, Value.slot?, startsWithSigil, sigil] at hm
    rcases hm with rfl | rfl
    · simp only [Held.fresh] at hEquals
      rw [Value.equals_of_proper rfl rfl,
        Value.equals_of_proper rfl rfl] at hEquals
      simp [Value.equal, Value.same, Value.isInt,
        Value.hasMagnitude, Value.magnitude?] at hEquals
    · simp at hx
  have hAnswer :=
    Call.evaluate_binding (x := "?x") (v := .str "db/doc")
      (c := nameCall) (i := 1) (by decide)
      (by simp [nameCall, Value.bindsName, Value.sequence?])
      (by simp [nameCall, Value.projects, Value.sequence?])
      (by
        intro clause hClause
        rcases List.mem_singleton.mp hClause with rfl
        exact ⟨namePattern, rfl, hGiven⟩)
      rfl rfl hBinding hInlining
  have hRows : rows = [] := by
    apply hAnswer.2.2.2
    refine ⟨namePattern, List.mem_singleton.mpr rfl, ?_⟩
    exact .inl ⟨rfl, fun n => by simp⟩
  rw [hBinding, hRows]
  exact ⟨rfl, hLength⟩

end FactBase
