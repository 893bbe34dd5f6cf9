import FactBase.Fact.Engine
import FactBase.Proofs.Answer.Matching

/-
  This file says what becomes of a clause that invokes a
  rule.  Rules are not supported, and such a clause is turned
  down where an assignment meets it; where none is left that
  could meet it, nobody looks at it.

  Key definitions include:
    * `Database.ruleItems?`
    * `EngineFault.ofRule`

  Key theorems include:
    * `Database.step_rule`
    * `Database.solve_nil`
    * `Call.evaluate_rule`
-/

------------------------------------------------------------
-- Rule Invocations
------------------------------------------------------------

namespace FactBase

open Sorting

/-
  The items of a clause that invokes a rule: its head is a
  text, but neither the blank nor a variable nor an ident of
  the database.
-/
def Database.ruleItems?
    (db : Database)
    (clause : Value) : Option (List Value) :=
  match clause.sequence? with
  | some (.str s :: args) =>
      if s == "_" || startsWithSigil s
          || (Table.find? (.str s) db.idents).isSome
      then none
      else some (.str s :: args)
  | _ => none

/- How a clause that invokes a rule is turned down. -/
def EngineFault.ofRule
    (clause : Value)
    (items : List Value) : EngineFault :=
  if items.length ≤ 3 then .unknownEntity (.tuple items)
  else .unsupportedClause clause

namespace Database

variable {db : Database}
variable {clause : Value}
variable {items : List Value}

/- What it means for a clause to invoke a rule. -/
theorem ruleItems?_eq_some
    (h : db.ruleItems? clause = some items) :
    ∃ s args, items = .str s :: args
      ∧ clause.sequence? = some items
      ∧ (s == "_") = false
      ∧ startsWithSigil s = false
      ∧ Table.find? (.str s) db.idents = none := by
  unfold ruleItems? at h
  split at h
  next s args hItems =>
    split at h
    · cases h
    next hHead =>
      rcases Option.some.inj h with rfl
      rw [Bool.or_eq_true, Bool.or_eq_true, not_or, not_or,
        Bool.not_eq_true, Bool.not_eq_true, Bool.not_eq_true,
        Option.isSome_eq_false_iff, Option.isNone_iff_eq_none]
        at hHead
      exact
        ⟨s, args, rfl, hItems, hHead.1.1, hHead.1.2, hHead.2⟩
  · cases h

/- Such a clause is no predicate. -/
private theorem expressionOf?_str
    (s : String)
    (args : List Value) :
    expressionOf? (.str s :: args) = none := by
  cases args <;> rfl

/- An assignment that meets it turns it down. -/
theorem matching_rule
    (h : db.ruleItems? clause = some items)
    (σ : Assignment) :
    db.matching items σ
      = .error (.engine (.unknownEntity (.tuple items))) := by
  rcases ruleItems?_eq_some h with
    ⟨s, args, rfl, -, hBlank, hName, hIdent⟩
  have hRead : σ.read (.str s) = .known (.str s) := by
    simp [Assignment.read, hBlank, hName]
  have hHead :
      (Pattern.ofItems (.str s :: args)).entity = .str s := rfl
  unfold matching
  simp only [hHead, hRead, entityConstraint, hName, hIdent]
  rfl

/-
  So a step that has an assignment to go on from turns it
  down, and it does so at its length if that is wrong too.
-/
theorem step_rule
    {σs : List Assignment}
    (h : db.ruleItems? clause = some items)
    (hLeft : σs ≠ []) :
    db.step σs clause
      = .error (.engine (.ofRule clause items)) := by
  rcases ruleItems?_eq_some h with ⟨s, args, rfl, hItems, -⟩
  rcases List.exists_cons_of_ne_nil hLeft with ⟨σ, rest, rfl⟩
  unfold step EngineFault.ofRule
  simp only [hItems, expressionOf?_str]
  by_cases hLong : (Value.str s :: args).length > 3
  · rw [if_pos hLong, if_neg (Nat.not_le.mpr hLong)]
  · rw [if_neg hLong, if_pos (Nat.not_lt.mp hLong),
      List.mapM_cons, matching_rule h σ]
    rfl

------------------------------------------------------------
-- No Assignments Left
------------------------------------------------------------

/-
  With no assignment left, a clause is looked at for its
  shape only.
-/
theorem step_nil
    (db : Database)
    (clause : Value) :
    (db.step [] clause = .ok []
        ∧ (Goal.ofClause? clause).isSome = true)
      ∨ ∃ fault, db.step [] clause = .error (.engine fault)
          ∧ Goal.ofClause? clause = none := by
  unfold step Goal.ofClause?
  rcases clause.sequence? with - | (- | ⟨x, xs⟩)
  · exact .inr ⟨_, rfl, rfl⟩
  · exact .inr ⟨_, rfl, rfl⟩
  · cases hExpr : expressionOf? (x :: xs) with
    | some expr =>
        simp only [hExpr]
        exact .inl ⟨rfl, rfl⟩
    | none =>
        by_cases hLong : (x :: xs).length > 3
        · simp only [hExpr, if_pos hLong]
          exact .inr ⟨_, rfl, trivial⟩
        · simp only [hExpr, if_neg hLong]
          exact .inl ⟨rfl, rfl⟩

/- So are all clauses that follow. -/
theorem solve_nil
    (db : Database)
    (clauses : List Value) :
    (db.solve clauses [] = .ok []
        ∧ ∀ clause ∈ clauses,
            (Goal.ofClause? clause).isSome = true)
      ∨ ∃ fault, db.solve clauses [] = .error (.engine fault)
          ∧ ∃ clause ∈ clauses,
              Goal.ofClause? clause = none := by
  unfold solve
  induction clauses with
  | nil => exact .inl ⟨rfl, nofun⟩
  | cons clause clauses ih =>
      rw [List.foldlM_cons]
      rcases step_nil db clause with
        ⟨hStep, hShape⟩ | ⟨fault, hStep, hShape⟩
      · rw [hStep, ok_bind]
        rcases ih with ⟨hRest, hAll⟩ | ⟨fault, hRest, hSome⟩
        · exact .inl
            ⟨hRest, List.forall_mem_cons.mpr ⟨hShape, hAll⟩⟩
        · rcases hSome with ⟨other, hMem, hOther⟩
          exact .inr
            ⟨fault, hRest, other,
              List.mem_cons_of_mem clause hMem, hOther⟩
      · rw [hStep]
        exact .inr
          ⟨fault, rfl, clause, List.mem_cons_self, hShape⟩

/- Clauses are solved one part after the other. -/
theorem solve_append
    (db : Database)
    (before after : List Value)
    (σs : List Assignment) :
    db.solve (before ++ after) σs
      = db.solve before σs >>= db.solve after :=
  List.foldlM_append

end Database

------------------------------------------------------------
-- Calls
------------------------------------------------------------

namespace Call

variable {c : Call}
variable {inputs : Inputs}
variable {db : Database}

/- A call whose clauses cannot be solved fails so. -/
theorem evaluate_of_solve_error
    {fault : Fault}
    (hInputs : Inputs.ofArguments c.inputs c.args = .ok inputs)
    (hSource : inputs.source = some db)
    (h : db.solve c.clauses inputs.assignments = .error fault)
    (g : Growths) :
    (c.evaluate.run.run g).1 = .error fault := by
  have hSolution : c.solution = .error fault := by
    unfold solution Solution.ofInputs
    rw [hInputs, ok_bind,
      Inputs.database_eq_ok.mpr hSource, ok_bind, ok_bind, h]
    rfl
  rw [run_evaluate, hSolution]

/- One that is left with no assignment has no rows. -/
theorem evaluate_of_solve_nil
    (hInputs : Inputs.ofArguments c.inputs c.args = .ok inputs)
    (hSource : inputs.source = some db)
    (h : db.solve c.clauses inputs.assignments = .ok [])
    (g : Growths) :
    c.evaluate.run.run g = (.ok [], g) := by
  have hSolution :
      c.solution = .ok { db := db, assignments := [] } :=
    solution_eq_ok.mpr ⟨inputs, hInputs, hSource, h⟩
  rw [run_evaluate, hSolution]
  rfl

/-
  A call with a clause that invokes a rule fails where the
  clauses before it fail.  If these leave an assignment, the
  invocation is turned down.  If they leave none, the call
  fails only for a clause that is no clause by its shape;
  otherwise it is answered with no rows, just as it is
  without the invocation.
-/
theorem evaluate_rule
    {before after : List Value}
    {rule : Value}
    {items : List Value}
    (hInputs : Inputs.ofArguments c.inputs c.args = .ok inputs)
    (hSource : inputs.source = some db)
    (hClauses : c.clauses = before ++ rule :: after)
    (hRule : db.ruleItems? rule = some items)
    (g : Growths) :
    (∀ fault,
        db.solve before inputs.assignments = .error fault →
          (c.evaluate.run.run g).1 = .error fault)
      ∧ (∀ σs,
          db.solve before inputs.assignments = .ok σs →
          σs ≠ [] →
            (c.evaluate.run.run g).1
              = .error (.engine (.ofRule rule items)))
      ∧ (db.solve before inputs.assignments = .ok [] →
          (∃ clause ∈ rule :: after,
              Goal.ofClause? clause = none) →
            ∃ fault,
              (c.evaluate.run.run g).1
                = .error (.engine fault))
      ∧ (db.solve before inputs.assignments = .ok [] →
          (∀ clause ∈ rule :: after,
              (Goal.ofClause? clause).isSome = true) →
            c.evaluate.run.run g = (.ok [], g)
              ∧ (Call.evaluate
                    { c with
                      clauses := before ++ after }).run.run g
                = (.ok [], g)) := by
  have hSolve :
      db.solve c.clauses inputs.assignments
        = db.solve before inputs.assignments
            >>= db.solve (rule :: after) := by
    rw [hClauses, Database.solve_append]
  refine ⟨?_, ?_, ?_, ?_⟩
  · intro fault hBefore
    rw [hBefore] at hSolve
    exact evaluate_of_solve_error hInputs hSource hSolve g
  · intro σs hBefore hLeft
    have hStep :
        db.solve (rule :: after) σs
          = db.step σs rule >>= db.solve after :=
      List.foldlM_cons
    rw [hBefore, ok_bind, hStep,
      Database.step_rule hRule hLeft] at hSolve
    exact evaluate_of_solve_error hInputs hSource hSolve g
  · rintro hBefore ⟨clause, hMem, hShape⟩
    rw [hBefore, ok_bind] at hSolve
    rcases Database.solve_nil db (rule :: after) with
      ⟨-, hAll⟩ | ⟨fault, hRest, -⟩
    · have hSome := hAll clause hMem
      rw [hShape] at hSome
      cases hSome
    · rw [hRest] at hSolve
      exact
        ⟨fault,
          evaluate_of_solve_error hInputs hSource hSolve g⟩
  · intro hBefore hAll
    have hRest {clauses : List Value}
        (hMem : ∀ clause ∈ clauses, clause ∈ rule :: after) :
        db.solve clauses [] = .ok [] := by
      rcases Database.solve_nil db clauses with
        ⟨hOk, -⟩ | ⟨-, -, clause, hClause, hShape⟩
      · exact hOk
      · have hSome := hAll clause (hMem clause hClause)
        rw [hShape] at hSome
        cases hSome
    have hWithout :
        db.solve (before ++ after) inputs.assignments
          = .ok [] := by
      rw [Database.solve_append, hBefore, ok_bind]
      exact hRest (fun _ => List.mem_cons_of_mem rule)
    rw [hBefore, ok_bind, hRest (fun _ h => h)] at hSolve
    exact
      ⟨evaluate_of_solve_nil hInputs hSource hSolve g,
        evaluate_of_solve_nil
          (c := { c with clauses := before ++ after })
          hInputs hSource hWithout g⟩

end Call

/- A clause that no fact of the first database matches. -/
def unmetClause : Value :=
  .list [.str "?e", .str "db/ident", .str "db/none"]

/- A clause that invokes a rule. -/
def ruleClause : Value :=
  .list [.str "adult", .str "?e"]

/- A query whose rule is not met by any assignment. -/
def unmetRuleCall : Call where
  find := [.str "?e"]
  inputs := [.str "$"]
  clauses := [unmetClause, ruleClause]
  args := [.database (Bootstrap.database 0)]

/- It is answered with no rows. -/
theorem evaluate_rule_unmet :
    (Bootstrap.database 0).ruleItems? ruleClause
        = some [.str "adult", .str "?e"]
      ∧ (unmetRuleCall.evaluate.run.run []).1 = .ok [] := by
  have hRule :
      (Bootstrap.database 0).ruleItems? ruleClause
        = some [.str "adult", .str "?e"] := by
    have hIdent :
        (Table.find? (.str "adult")
          (Bootstrap.database 0).idents).isSome = false := by
      decide +kernel
    simp [Database.ruleItems?, ruleClause, Value.sequence?,
      startsWithSigil, sigil, hIdent]
  have hBefore :
      (Bootstrap.database 0).solve [unmetClause] [[]]
        = .ok [] := by
    have hLength :
        ((Bootstrap.database 0).solve
          [unmetClause] [[]]).toOption.map List.length
            = some 0 := by
      decide +kernel
    cases hSolve :
        (Bootstrap.database 0).solve [unmetClause] [[]] with
    | error fault =>
        rw [hSolve] at hLength
        cases hLength
    | ok σs =>
        rw [hSolve] at hLength
        rcases List.length_eq_zero_iff.mp
          (Option.some.inj hLength) with rfl
        rfl
  have hInputs :
      Inputs.ofArguments unmetRuleCall.inputs unmetRuleCall.args
        = .ok
            { source := some (Bootstrap.database 0)
              assignments := [[]] } := rfl
  have hClauses :
      unmetRuleCall.clauses = [unmetClause] ++ ruleClause :: [] :=
    rfl
  rcases Call.evaluate_rule hInputs rfl hClauses hRule [] with
    ⟨-, -, -, hAnswer⟩
  have hShape :
      ∀ clause ∈ [ruleClause],
        (Goal.ofClause? clause).isSome = true := by
    simp [ruleClause, Goal.ofClause?, Value.sequence?,
      Database.expressionOf?]
  exact
    ⟨hRule, congrArg Prod.fst (hAnswer hBefore hShape).1⟩

end FactBase
