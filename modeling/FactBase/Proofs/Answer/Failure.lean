import FactBase.Proofs.Fact.Gathering
import FactBase.Proofs.Answer.Matching
import FactBase.Proofs.Answer.Pulling

/-
  This file says of which sort the failures of a query are.
  Where a sort of faults takes in those of looking attributes
  up and all that are about no attribute, it takes in every
  fault that a query meets, but for those of a projection
  that is not bound.

  Key definitions include:
    * `Gathering.FailsIn`
    * `Database.Confines`

  Key theorems include:
    * `Inputs.failsIn_ofArguments`
    * `Database.failsIn_solve`
    * `Database.Confines.pervades_failsIn`
    * `Call.failsIn_evaluate`
-/

------------------------------------------------------------
-- Sorts of Faults
------------------------------------------------------------

namespace FactBase

open Sorting

open Outcome (failsIn_ok failsIn_error failsIn_mapM
  failsIn_foldlM failsIn_findM? failsIn_filterM)

/-
  What goes wrong with a database is of one sort, if this
  takes in the ordinary faults and those of looking up an
  attribute.
-/
structure Database.Confines
    (db : Database)
    (P : Fault → Prop) : Prop where
  ordinary : ∀ fault, fault.ordinary = true → P fault
  installed : ∀ ident, Outcome.FailsIn P (db.installed ident)

/- Looking an ident up fails for it, or for its kind. -/
theorem Database.installed_eq_error
    {db : Database}
    {ident : Value}
    {fault : Fault}
    (h : db.installed ident = .error fault) :
    fault = .wrongKind
      ∨ fault = .engine (.unknownAttribute ident) := by
  unfold installed Table.seek at h
  cases hKey : ident.hashable with
  | false =>
      rw [hKey] at h
      cases h
      exact .inl rfl
  | true =>
      rw [hKey, if_pos rfl, ok_bind] at h
      right
      split at h
      · split at h
        · cases h
        · exact (Except.error.inj h).symm
      · exact (Except.error.inj h).symm

section

variable {P : Fault → Prop}
variable
  (hOrdinary : ∀ fault, fault.ordinary = true → P fault)

include hOrdinary

/- Values may have no members. -/
theorem Value.failsIn_items (v : Value) :
    Outcome.FailsIn P v.items := by
  unfold items
  split
  · exact failsIn_ok _
  · exact failsIn_error (hOrdinary _ rfl)

/- Comparing values may have no end. -/
theorem Value.failsIn_equals (v w : Value) :
    Outcome.FailsIn P (v.equals w) := by
  unfold equals
  split
  · exact failsIn_ok _
  · exact failsIn_error (hOrdinary _ rfl)

/- Values may not be fit for keys. -/
theorem Table.failsIn_seek
    {α : Type}
    (key : Value)
    (table : List (Value × α)) :
    Outcome.FailsIn P (seek key table) := by
  unfold seek
  split
  · exact failsIn_ok _
  · exact failsIn_error (hOrdinary _ rfl)

------------------------------------------------------------
-- Inputs
------------------------------------------------------------

/- Binding an input is about no attribute. -/
theorem Inputs.failsIn_bind
    (inputs : Inputs)
    (input : Value × Value) :
    Outcome.FailsIn P (inputs.bind input) := by
  have hEach :
      ∀ name v, Outcome.FailsIn P (inputs.bindEach name v) := by
    intro name v
    refine Outcome.FailsIn.bind (failsIn_mapM ?_) ?_
    · intro σ _
      refine (Value.failsIn_items hOrdinary v).bind ?_
      exact fun _ _ => failsIn_ok _
    · exact fun _ _ => failsIn_ok _
  unfold Inputs.bind
  simp only
  split
  · split
    · unfold bindSource
      split
      · split
        · exact failsIn_ok _
        · exact failsIn_error (hOrdinary _ rfl)
      · exact failsIn_error (hOrdinary _ rfl)
    · split
      · exact failsIn_ok _
      · exact failsIn_error (hOrdinary _ rfl)
  · split
    · split
      · exact hEach _ _
      · exact failsIn_error (hOrdinary _ rfl)
    · exact failsIn_error (hOrdinary _ rfl)

/- So is binding all inputs. -/
theorem Inputs.failsIn_ofArguments
    (bindings args : List Value) :
    Outcome.FailsIn P (ofArguments bindings args) := by
  unfold ofArguments
  split
  · exact failsIn_error (hOrdinary _ rfl)
  · exact
      failsIn_foldlM
        (fun input _ inputs =>
          failsIn_bind hOrdinary inputs input)
        empty

/- So is looking for the database. -/
theorem Inputs.failsIn_database (inputs : Inputs) :
    Outcome.FailsIn P inputs.database := by
  unfold database
  split
  · exact failsIn_ok _
  · exact failsIn_error (hOrdinary _ rfl)

------------------------------------------------------------
-- Facts
------------------------------------------------------------

/- Matching a token with a value is about no attribute. -/
theorem Assignment.failsIn_unify
    (σ : Assignment)
    (token : Value)
    (h : Held) : Outcome.FailsIn P (σ.unify token h) := by
  unfold unify
  split
  · split
    · split
      · refine (Value.failsIn_equals hOrdinary _ _).bind ?_
        intro b _
        cases b <;> exact failsIn_ok _
      · exact failsIn_ok _
    · exact failsIn_ok _
  · exact failsIn_ok _

/- So is matching a pattern with a fact. -/
theorem Pattern.failsIn_bind
    (p : Pattern)
    (σ : Assignment)
    (d : Datom) : Outcome.FailsIn P (p.bind σ d) := by
  unfold Pattern.bind
  refine (Assignment.failsIn_unify hOrdinary _ _ _).bind ?_
  intro byEntity _
  cases byEntity with
  | none => exact failsIn_ok _
  | some τ =>
      refine (Assignment.failsIn_unify hOrdinary _ _ _).bind ?_
      intro byAttr _
      cases byAttr with
      | none => exact failsIn_ok _
      | some υ =>
          exact Assignment.failsIn_unify hOrdinary _ _ _

/- So is a constraint. -/
theorem Constraint.failsIn_admits
    (c : Constraint)
    (v : Value) : Outcome.FailsIn P (c.admits v) := by
  cases c with
  | free => exact failsIn_ok _
  | only w => exact Value.failsIn_equals hOrdinary v w
  | never => exact failsIn_ok _

/- So are constraints on a fact. -/
theorem Constraints.failsIn_admitFact
    (c : Constraints)
    (d : Datom) : Outcome.FailsIn P (c.admitFact d) := by
  unfold admitFact
  refine (Constraint.failsIn_admits hOrdinary _ _).bind ?_
  intro b _
  cases b with
  | false => exact failsIn_ok _
  | true =>
      refine (Constraint.failsIn_admits hOrdinary _ _).bind ?_
      intro b _
      cases b with
      | false => exact failsIn_ok _
      | true => exact Constraint.failsIn_admits hOrdinary _ _

/- So is what the facts that match bind. -/
theorem Database.failsIn_bindings
    (db : Database)
    (p : Pattern)
    (σ : Assignment)
    (c : Constraints) :
    Outcome.FailsIn P (db.bindings p σ c) := by
  unfold bindings
  refine Outcome.FailsIn.bind (failsIn_mapM ?_) ?_
  · intro d _
    refine (Constraints.failsIn_admitFact hOrdinary c d).bind ?_
    intro b _
    cases b with
    | false => exact failsIn_ok _
    | true => exact Pattern.failsIn_bind hOrdinary p σ d
  · exact fun _ _ => failsIn_ok _

/- So is a predicate. -/
theorem Assignment.failsIn_satisfies
    (σ : Assignment)
    (expr : Value) : Outcome.FailsIn P (σ.satisfies expr) := by
  have hArgument :
      ∀ token, Outcome.FailsIn P (σ.argument token) := by
    intro token
    unfold argument
    split
    · exact failsIn_ok _
    · exact failsIn_ok _
    · exact failsIn_error (hOrdinary _ rfl)
  unfold satisfies
  split
  · split
    · refine Outcome.FailsIn.bind (failsIn_mapM ?_) ?_
      · exact fun token _ => hArgument token
      · intro args _
        split
        · exact failsIn_error (hOrdinary _ rfl)
        · split
          · exact failsIn_ok _
          · exact failsIn_error (hOrdinary _ rfl)
          · exact failsIn_error (hOrdinary _ rfl)
    · split
      · exact failsIn_error (hOrdinary _ rfl)
      · exact failsIn_error (hOrdinary _ rfl)
  · exact failsIn_error (hOrdinary _ rfl)

end

------------------------------------------------------------
-- Clauses
------------------------------------------------------------

namespace Database

variable {db : Database}
variable {P : Fault → Prop}

/- Naming an entity may be about an attribute. -/
theorem failsIn_resolve
    (hConfines : db.Confines P)
    (spec : Value) : Outcome.FailsIn P (db.resolve spec) := by
  unfold resolve
  split
  · exact failsIn_ok _
  · exact failsIn_ok _
  · split
    · refine (hConfines.installed _).bind fun attr _ => ?_
      unfold entityWith?
      refine Outcome.FailsIn.bind (failsIn_findM? ?_) ?_
      · intro d _
        split
        · exact Value.failsIn_equals hConfines.ordinary _ _
        · exact failsIn_ok _
      · exact fun _ _ => failsIn_ok _
    · exact failsIn_ok _

/- So may what is known of the entity of a fact. -/
theorem failsIn_entityConstraint
    (hConfines : db.Confines P)
    (clause : List Value)
    (reading : Reading) :
    Outcome.FailsIn P (db.entityConstraint clause reading) := by
  unfold entityConstraint
  split
  next v =>
    have hNamed :
        Outcome.FailsIn P (do
          return Constraint.ofEntity (← db.resolve v)) :=
      (failsIn_resolve hConfines v).bind
        (fun _ _ => failsIn_ok _)
    split
    · split
      · exact failsIn_error (hConfines.ordinary _ rfl)
      · exact hNamed
    · exact hNamed
  · exact failsIn_ok _

/- So may what is known of its attribute. -/
theorem failsIn_attributeConstraint
    (hConfines : db.Confines P)
    (reading : Reading) :
    Outcome.FailsIn P (db.attributeConstraint reading) := by
  unfold attributeConstraint
  split
  · exact
      (hConfines.installed _).bind (fun _ _ => failsIn_ok _)
  · refine (Table.failsIn_seek hConfines.ordinary _ _).bind ?_
    intro schema _
    cases schema <;> exact failsIn_ok _
  · exact failsIn_ok _

/- So may what is known of its value. -/
theorem failsIn_valueConstraint
    (hConfines : db.Confines P)
    (schema : Option Schema)
    (reading : Reading) :
    Outcome.FailsIn P (db.valueConstraint schema reading) := by
  unfold valueConstraint
  split
  · split
    · exact
        (failsIn_resolve hConfines _).bind
          (fun _ _ => failsIn_ok _)
    · exact failsIn_ok _
  · exact failsIn_ok _

/- So may matching a pattern. -/
theorem failsIn_matching
    (hConfines : db.Confines P)
    (clause : List Value)
    (σ : Assignment) :
    Outcome.FailsIn P (db.matching clause σ) := by
  unfold matching
  refine (failsIn_entityConstraint hConfines _ _).bind ?_
  intro entity _
  split
  · exact failsIn_ok _
  · refine (failsIn_attributeConstraint hConfines _).bind ?_
    intro known _
    split
    · exact failsIn_ok _
    · refine (failsIn_valueConstraint hConfines _ _).bind ?_
      exact fun _ _ =>
        failsIn_bindings hConfines.ordinary db _ _ _

/- So may a clause. -/
theorem failsIn_step
    (hConfines : db.Confines P)
    (assignments : List Assignment)
    (clause : Value) :
    Outcome.FailsIn P (db.step assignments clause) := by
  unfold step
  split
  · exact failsIn_error (hConfines.ordinary _ rfl)
  · exact failsIn_error (hConfines.ordinary _ rfl)
  · split
    · exact
        failsIn_filterM
          (fun σ _ =>
            Assignment.failsIn_satisfies hConfines.ordinary σ _)
    · split
      · exact failsIn_error (hConfines.ordinary _ rfl)
      · refine Outcome.FailsIn.bind (failsIn_mapM ?_) ?_
        · exact fun σ _ => failsIn_matching hConfines _ σ
        · exact fun _ _ => failsIn_ok _

/- So may all clauses. -/
theorem failsIn_solve
    (hConfines : db.Confines P)
    (clauses : List Value)
    (assignments : List Assignment) :
    Outcome.FailsIn P (db.solve clauses assignments) :=
  failsIn_foldlM
    (fun clause _ assignments =>
      failsIn_step hConfines assignments clause)
    assignments

end Database

------------------------------------------------------------
-- Gatherings
------------------------------------------------------------

namespace Gathering

variable {α β : Type}
variable {P : Fault → Prop}

/- If the gathering fails, its fault is of the sort. -/
def FailsIn
    (P : Fault → Prop)
    (m : Gathering α) : Prop :=
  ∀ g, Outcome.FailsIn P (m.run.run g).1

/- What gathers nothing does not fail. -/
theorem failsIn_pure (a : α) :
    FailsIn P (pure a : Gathering α) :=
  fun _ => failsIn_ok a

/- A failure is of a sort if its fault is. -/
theorem failsIn_throw
    {fault : Fault}
    (h : P fault) : FailsIn P (throw fault : Gathering α) :=
  fun _ => failsIn_error h

/- An outcome fails as it is. -/
theorem failsIn_lift
    {outcome : Outcome α}
    (h : Outcome.FailsIn P outcome) :
    FailsIn P (lift outcome) :=
  fun _ => h

/- Two gatherings fail where one of them does. -/
theorem failsIn_bind
    {m : Gathering α}
    {f : α → Gathering β}
    (h : FailsIn P m)
    (hNext : ∀ a, FailsIn P (f a)) : FailsIn P (m >>= f) := by
  intro g
  have hFirst := h g
  rw [run_bind]
  rcases hRun : m.run.run g with ⟨fault | a, g'⟩
  · rw [hRun] at hFirst
    exact failsIn_error (hFirst fault rfl)
  · exact hNext a g'

/- Looking at what is shown does not fail. -/
theorem failsIn_look (s : Shown) : FailsIn P (look s) :=
  fun _ => failsIn_ok _

end Gathering

namespace Database

variable {db : Database}
variable {P : Fault → Prop}

/- What a database is confined to pervades its pulls. -/
theorem Confines.pervades_failsIn
    (h : db.Confines P) : db.Pervades (Gathering.FailsIn P) where
  pure := Gathering.failsIn_pure
  bind := fun _ _ => Gathering.failsIn_bind
  fault := fun fault hFault =>
    Gathering.failsIn_throw (h.ordinary fault hFault)
  add := fun _ _ _ _ => failsIn_ok _
  installed := fun ident =>
    Gathering.failsIn_lift (h.installed ident)

end Database

------------------------------------------------------------
-- Calls
------------------------------------------------------------

section

variable {P : Fault → Prop}

/- Rows fail where projecting a term does. -/
theorem Solution.failsIn_rows
    {s : Solution}
    {find : List Value}
    (hConfines : s.db.Confines P)
    (hProject :
      ∀ σ ∈ s.assignments, ∀ term ∈ find,
        Gathering.FailsIn P (s.db.project σ term)) :
    Gathering.FailsIn P (s.rows find) := by
  have hQ := hConfines.pervades_failsIn
  unfold Solution.rows Database.rows
  refine Gathering.failsIn_bind ?_ fun rows => ?_
  · exact
      hQ.mapM (fun σ hσ =>
        hQ.mapM (fun term hTerm => hProject σ hσ term hTerm))
  · exact
      hQ.mapM (fun row _ =>
        hQ.mapM (fun s _ => Gathering.failsIn_look s))

/-
  A call fails in a sort that takes in the ordinary faults, if
  the database of the call is confined to it, and projecting its
  solutions fails in it.
-/
theorem Call.failsIn_evaluate
    {c : Call}
    (hOrdinary : ∀ fault, fault.ordinary = true → P fault)
    (hConfines :
      ∀ inputs db,
        Inputs.ofArguments c.inputs c.args = .ok inputs →
          inputs.source = some db → db.Confines P)
    (hProject :
      ∀ s, c.solution = .ok s →
        ∀ σ ∈ s.assignments, ∀ term ∈ c.find,
          Gathering.FailsIn P (s.db.project σ term)) :
    Gathering.FailsIn P c.evaluate := by
  have hSolution : Outcome.FailsIn P c.solution := by
    refine
      (Inputs.failsIn_ofArguments hOrdinary _ _).bind ?_
    intro inputs hInputs
    refine (Inputs.failsIn_database hOrdinary _).bind ?_
    intro db hDb
    have hSource := Inputs.database_eq_ok.mp hDb
    rw [ok_bind]
    refine
      (Database.failsIn_solve (hConfines inputs db hInputs hSource)
        _ _).bind ?_
    exact fun _ _ => failsIn_ok _
  intro g
  rw [run_evaluate]
  cases hSolved : c.solution with
  | error fault => exact failsIn_error (hSolution fault hSolved)
  | ok s =>
      rcases solution_eq_ok.mp hSolved with
        ⟨inputs, hInputs, hSource, _⟩
      exact
        Solution.failsIn_rows
          (hConfines inputs s.db hInputs hSource)
          (hProject s hSolved) g

end

end FactBase
