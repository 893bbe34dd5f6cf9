import FactBase.Proofs.Answer.Failure
import FactBase.Proofs.Answer.Join
import FactBase.Proofs.Answer.Literal
import FactBase.Proofs.Attribute.Registration
import FactBase.Proofs.Fact.Lookup
import FactBase.Proofs.Query.Compilation

/-
  This file compares the attributes that a registry declares
  with those that a database knows.  A query whose attributes
  were checked against the definitions of a database does not
  fail for an attribute that its clauses name, if the name is
  the ident of a definition and the definition is up to date.
  Names in built-in namespaces and names read backward are
  declared without a definition of their own.

  Key definitions include:
    * `Database.strictOptions`
    * `Database.UpToDate`

  Key theorems include:
    * `Call.failsIn_notUnknown`
    * `Engine.RunOf.knows_attribute`
-/

------------------------------------------------------------
-- Faults about an Attribute
------------------------------------------------------------

namespace FactBase

open Sorting

/- The fault is not that an attribute is unknown. -/
def Fault.NotUnknown
    (s : String)
    (fault : Fault) : Prop :=
  fault ≠ .engine (.unknownAttribute (.str s))

namespace Database

variable {db : Database}
variable {s : String}

/-
  Where an ident names an attribute, no fault is that it is
  unknown.
-/
theorem confines_of_installed
    {attr : Installed}
    (h : db.installed (.str s) = .ok attr) :
    db.Confines (Fault.NotUnknown s) where
  ordinary := by
    rintro fault hFault rfl
    cases hFault
  installed := by
    rintro ident fault hFails rfl
    rcases installed_eq_error hFails with hEq | hEq
    · cases hEq
    · rw [Fault.engine.injEq, EngineFault.unknownAttribute.injEq]
        at hEq
      rw [← hEq, h] at hFails
      cases hFails

end Database

namespace Inputs

/- The only source that is bound has the name for it. -/
private theorem eq_sourceName_of_bind
    {inputs after : Inputs}
    {name : String}
    {v : Value}
    (hName : namesSource name = true)
    (h : inputs.bind (.str name, v) = .ok after) :
    name = sourceName := by
  unfold Inputs.bind at h
  simp only [hName, if_true] at h
  unfold bindSource at h
  split at h
  next hIs => exact beq_iff_eq.mp hIs
  next => cases h

/- The source is the database that is given for its name. -/
theorem source_eq_of_given
    {bindings args : List Value}
    {inputs : Inputs}
    {db other : Database}
    (h : ofArguments bindings args = .ok inputs)
    (hGiven :
      ∀ v, (.str sourceName, v) ∈ bindings.zip args →
        v = .database db)
    (hSource : inputs.source = some other) : other = db := by
  refine source_ofArguments h ?_ hSource
  rintro ⟨binding, v⟩ hInput name hName hIs
  unfold ofArguments at h
  split at h
  · cases h
  · rcases Outcome.exists_step_of_foldlM h hInput with
      ⟨before, after, hBind⟩
    simp only at hName
    subst hName
    rw [eq_sourceName_of_bind hIs hBind] at hInput
    exact hGiven v hInput

end Inputs

/-
  A call does not fail for an attribute that is installed in
  its database.
-/
theorem Call.failsIn_notUnknown
    {c : Call}
    {db : Database}
    {s : String}
    {attr : Installed}
    (hGiven :
      ∀ v, (.str Inputs.sourceName, v) ∈ c.inputs.zip c.args →
        v = .database db)
    (h : db.installed (.str s) = .ok attr) :
    Gathering.FailsIn (Fault.NotUnknown s) c.evaluate := by
  have hConfines :
      ∀ inputs other,
        Inputs.ofArguments c.inputs c.args = .ok inputs →
          inputs.source = some other →
            other.Confines (Fault.NotUnknown s) := by
    intro inputs other hInputs hSource
    rw [Inputs.source_eq_of_given hInputs hGiven hSource]
    exact Database.confines_of_installed h
  refine
    failsIn_evaluate (Database.confines_of_installed h).ordinary
      hConfines ?_
  intro solution hSolution σ _ term _
  rcases solution_eq_ok.mp hSolution with
    ⟨inputs, hInputs, hSource, _⟩
  refine
    (hConfines inputs _ hInputs hSource).pervades_failsIn.project
      ?_ ?_
  · exact fun _ _ _ _ => Gathering.failsIn_throw nofun
  · exact fun _ _ _ _ => Gathering.failsIn_throw nofun

------------------------------------------------------------
-- Definitions that Are Up to Date
------------------------------------------------------------

/-
  The options by which attributes are checked against the
  definitions of a database.
-/
def Database.strictOptions (db : Database) : CompileOptions where
  strict := true
  attributes :=
    some (Registry.ofSchemas (db.attributes.map Prod.snd))

/-
  An ident is up to date in a database.  If a definition has
  it, then it is still stored as an ident, and whatever entity
  it is stored for is an installed attribute.
-/
structure Database.UpToDate
    (s : String)
    (db : Database) : Prop where
  stored :
    (∃ a ∈ db.attributes, a.2.ident = s) →
      ∃ d ∈ db.datoms, d.carries s = true
  installed :
    ∀ d ∈ db.datoms, d.carries s = true →
      (db.schemaOf? d.entity).isSome = true

/-
  An ident that a definition has and that is up to date names
  an attribute, where the table of idents can be relied on.
-/
theorem Database.UpToDate.exists_installed
    {db : Database}
    {s : String}
    (h : db.UpToDate s)
    (hTells : db.TellsIdent s)
    (hFinds : db.FindsIdent s)
    (hDefined : ∃ a ∈ db.attributes, a.2.ident = s) :
    ∃ attr, db.installed (.str s) = .ok attr := by
  rcases h.stored hDefined with ⟨d, hd, hCarries⟩
  rcases Option.isSome_iff_exists.mp (hFinds d hd hCarries) with
    ⟨eid, hFound⟩
  rcases hTells.owned eid hFound with ⟨c, hc, hOwner, rfl⟩
  rcases Option.isSome_iff_exists.mp (h.installed c hc hOwner)
    with ⟨schema, hSchema⟩
  exact
    ⟨{ eid := c.entity, schema := schema },
      installed_eq_ok.mpr
        ⟨Value.hashable_str s, hFound, hSchema⟩⟩

/-
  What a query is checked to name is the ident of a definition,
  if those that are declared without one have one too.
-/
theorem Database.exists_defined
    {db : Database}
    {c : Context}
    {s : String}
    {t : Clause}
    (hWell : c.WellFormed db.strictOptions)
    (hClause : t ∈ c.triples)
    (hAttr : t.attr = .lit (.str s))
    (hImplied :
      ((Keyword.namespace? s).any
            Keyword.builtinNamespaces.contains = true
          ∨ Keyword.forward s ≠ s) →
        ∃ a ∈ db.attributes, a.2.ident = s) :
    ∃ a ∈ db.attributes, a.2.ident = s := by
  have hDeclared := hWell.declared _ rfl rfl t hClause s hAttr
  rcases Registry.declares_ofSchemas.mp hDeclared with
    ⟨space, hSpace, hName⟩ | hMem
  · refine hImplied (.inl ?_)
    rw [hName]
    exact List.contains_iff_mem.mpr hSpace
  · rcases List.mem_map.mp hMem with ⟨schema, hSchema, hIdent⟩
    by_cases hForward : Keyword.forward s = s
    · rcases List.mem_map.mp hSchema with ⟨a, ha, rfl⟩
      exact ⟨a, ha, hIdent.trans hForward⟩
    · exact hImplied (.inr hForward)

------------------------------------------------------------
-- Runs
------------------------------------------------------------

namespace Engine

/-
  In every database that a run leads to that leaves the
  attribute of idents its name and takes an ident from no
  entity that it names while another one has it, a query that
  was checked against the definitions does not fail for an
  attribute that a clause names by this ident.  The ident must
  be up to date, and if it is in a built-in namespace or is
  read backward, it must itself be that of a definition.
-/
theorem RunOf.knows_attribute
    {clock : Nat → Int}
    {e : Engine}
    {v : Value}
    {c : Context}
    {d : QueryDocument}
    {s : String}
    {t : Clause}
    (hRun :
      RunOf (fun r => r.after.NamesIdents ∧ r.KeepsIdent s)
        (start clock) e)
    (hRead : readContext e.db.strictOptions v = .ok c)
    (hCompiled : compileQuery e.db.strictOptions v = .ok d)
    (hGiven :
      ∀ source,
        (.str Inputs.sourceName, source) ∈ d.inputs.zip d.args →
          source = .database e.db)
    (hClause : t ∈ c.triples)
    (hAttr : t.attr = .lit (.str s))
    (hImplied :
      ((Keyword.namespace? s).any
            Keyword.builtinNamespaces.contains = true
          ∨ Keyword.forward s ≠ s) →
        ∃ a ∈ e.db.attributes, a.2.ident = s)
    (hUpToDate : e.db.UpToDate s) :
    Gathering.FailsIn
      (fun fault =>
        fault ≠ .engine (.unknownAttribute (.str s)))
      d.call.evaluate := by
  have hIdents : e.db.TellsIdent s ∧ e.db.FindsIdent s :=
    hRun.invariant
      (fun db => db.TellsIdent s ∧ db.FindsIdent s)
      (fun _ _ _ hCommits hResult hSoFar =>
        ⟨hSoFar.1.after hCommits hResult.1,
          hSoFar.2.after hSoFar.1 hCommits hResult.2⟩)
      (Database.tellsIdent_database s _)
  have hWell := (wellFormed_of_compileQuery hRead hCompiled).1
  have hDefined :=
    Database.exists_defined hWell hClause hAttr hImplied
  rcases hUpToDate.exists_installed hIdents.1 hIdents.2 hDefined
    with ⟨attr, hInstalled⟩
  exact Call.failsIn_notUnknown hGiven hInstalled

/- The attribute that an outcome fails for as unknown. -/
private def unknown?
    {α : Type} : Outcome α → Option String
  | .error (.engine (.unknownAttribute (.str s))) => some s
  | _ => none

/- An outcome that fails so has the fault. -/
private theorem eq_error_of_unknown?
    {α : Type}
    {x : Outcome α}
    {s : String}
    (h : unknown? x = some s) :
    x = .error (.engine (.unknownAttribute (.str s))) := by
  unfold unknown? at h
  split at h
  · rw [Option.some.inj h]
  · cases h

/- The database to start from. -/
def firstDatabase : Database := (start (fun _ => 0)).db

/- The clause of a query for a literal is its only one. -/
private theorem triples_literalSections
    (db : Database)
    {ident : String}
    (v : Value)
    (hName : startsWithSigil ident = false)
    (hKey : ident ≠ Clause.entityKey) :
    (literalSections db ident v).triples
      = [literalClause ident v] := by
  rcases ContextParts.ofContext_eq_ok_iff.mp
      (ofContext_literalSections db v hName hKey) with
    ⟨_, _, _, _, _, hParts⟩
  exact (congrArg ContextParts.clauses hParts).symm

/- Such a query compiles if its attribute is declared. -/
private theorem compileQuery_strictOptions
    (db : Database)
    {ident : String}
    (v : Value)
    (hName : startsWithSigil ident = false)
    (hKey : ident ≠ Clause.entityKey)
    (hDeclared :
      (Registry.ofSchemas
        (db.attributes.map Prod.snd)).declares ident = true) :
    compileQuery db.strictOptions (literalContext db ident v)
      = .ok (literalDocument db ident v) := by
  have hRead :
      readContext {} (literalContext db ident v)
        = .ok (literalSections db ident v) :=
    readStrictly_literalContext db ident v
  rcases wellFormed_of_compileQuery hRead
      (compileQuery_literalContext db v hName hKey) with
    ⟨hWell, hEq⟩
  rw [hEq]
  refine
    compileQuery_of_wellFormed (readContext_eq_ok_iff.mp hRead)
      { hWell with declared := ?_ }
  intro r _ hRegistry t ht s hs
  rw [triples_literalSections db v hName hKey,
    List.mem_singleton] at ht
  rw [← Option.some.inj hRegistry]
  rw [ht, literalClause, Term.lit.injEq, Value.str.injEq] at hs
  exact hs ▸ hDeclared

/- In the first database, the attribute of idents is known. -/
theorem knows_ident_firstDatabase :
    ∃ d,
      compileQuery firstDatabase.strictOptions
            (literalContext firstDatabase "db/ident"
              (.str "db/doc"))
          = .ok d
        ∧ Gathering.FailsIn
          (fun fault =>
            fault
              ≠ .engine (.unknownAttribute (.str "db/ident")))
          d.call.evaluate := by
  have hCompiled :
      compileQuery firstDatabase.strictOptions
          (literalContext firstDatabase "db/ident"
            (.str "db/doc"))
        = .ok
          (literalDocument firstDatabase "db/ident"
            (.str "db/doc")) :=
    compileQuery_strictOptions firstDatabase _ (by decide)
      (by decide) (by decide +kernel)
  have hRead :
      readContext firstDatabase.strictOptions
          (literalContext firstDatabase "db/ident"
            (.str "db/doc"))
        = .ok
          (literalSections firstDatabase "db/ident"
            (.str "db/doc")) :=
    readStrictly_literalContext firstDatabase _ _
  have hRun :
      RunOf
        (fun r => r.after.NamesIdents ∧ r.KeepsIdent "db/ident")
        (start (fun _ => 0)) (start (fun _ => 0)) :=
    .refl
  have hClause :
      literalClause "db/ident" (.str "db/doc")
        ∈ (literalSections firstDatabase "db/ident"
            (.str "db/doc")).triples := by
    rw [triples_literalSections _ _ (by decide) (by decide)]
    exact List.mem_singleton_self _
  have hGiven :
      ∀ source,
        (.str Inputs.sourceName, source)
            ∈ [Value.str "$"].zip
              [Value.database firstDatabase] →
          source = Value.database firstDatabase := by
    intro source hSource
    exact (Prod.mk.inj (List.mem_singleton.mp hSource)).2
  have hDefined :
      ∃ a ∈ firstDatabase.attributes, a.2.ident = "db/ident" := by
    decide +kernel
  have hStored :
      ∃ d ∈ firstDatabase.datoms,
        d.carries "db/ident" = true := by
    decide +kernel
  have hInstalled :
      ∀ d ∈ firstDatabase.datoms, d.carries "db/ident" = true →
        (firstDatabase.schemaOf? d.entity).isSome = true := by
    decide +kernel
  exact
    ⟨_, hCompiled,
      RunOf.knows_attribute hRun hRead hCompiled hGiven hClause
        rfl (fun _ => hDefined)
        ⟨fun _ => hStored, hInstalled⟩⟩

/-
  An attribute in a built-in namespace is declared although
  the database knows no such attribute.
-/
theorem not_knows_builtin_firstDatabase :
    ∃ d,
      compileQuery firstDatabase.strictOptions
            (literalContext firstDatabase "db/nope"
              (.str "x"))
          = .ok d
        ∧ (d.call.evaluate.run.run []).1
          = .error
            (.engine (.unknownAttribute (.str "db/nope"))) := by
  refine
    ⟨_, compileQuery_strictOptions firstDatabase (.str "x")
      (by decide) (by decide) (by decide +kernel), ?_⟩
  apply eq_error_of_unknown?
  decide +kernel

end Engine

end FactBase
