import FactBase.Proofs.Outcome
import FactBase.Proofs.Query.CanonicalForm
import FactBase.Proofs.Query.Leniency
import FactBase.Proofs.Value.Equality
import FactBase.Query.Session

/-
  This file shows what it makes to a context whether variables
  are spelled as texts or given as objects.  In clause maps
  and as variables that are bound, objects are turned into
  texts, so that nothing is different.  All other sections are
  copied, so that contexts that differ there are still taken
  or rejected alike, but their documents keep the difference.

  Key definitions include:
    * `Value.named`
    * `Value.spelled`
    * `Value.Copies`
    * `Value.spelledBy`
    * `QueryDocument.spelledBy`

  Key theorems include:
    * `readContext_spelledBy`
    * `compileQuery_spelledBy`
    * `EntryPoint.run_spelledBy`
    * `QueryDocument.canonicalBytes_eq_iff`
-/

------------------------------------------------------------
-- Names of Objects
------------------------------------------------------------

namespace FactBase

open Sorting

namespace Value

/- A variable object as the text that is its name. -/
def named : Value → Value
  | .var name =>
      if startsWithSigil name then .str name else .var name
  | .wildcard name =>
      if startsWithSigil name && endsWithMark name then
        .str name
      else .wildcard name
  | v => v

mutual

/- All variable objects in nested sequences as texts. -/
def spelled : Value → Value
  | .list items => .list (spelledItems items)
  | .tuple items => .tuple (spelledItems items)
  | v => v.named

/- The same in all items. -/
def spelledItems : List Value → List Value
  | [] => []
  | v :: vs => spelled v :: spelledItems vs

end

/-
  A way to write the copied sections: part by part, where each
  variable object is left as it is or turned into a text.
-/
structure Copies (f : Value → Value) : Prop where
  list : ∀ items, f (.list items) = .list (items.map f)
  tuple : ∀ items, f (.tuple items) = .tuple (items.map f)
  simple :
    ∀ v, (∀ items, v ≠ .list items) →
      (∀ items, v ≠ .tuple items) → f v = v ∨ f v = v.named
  again : ∀ v, f (f v) = f v

/- Items are spelled one by one. -/
theorem spelledItems_eq_map (vs : List Value) :
    spelledItems vs = vs.map spelled := by
  induction vs with
  | nil => rw [spelledItems]; rfl
  | cons v vs ih => rw [spelledItems, ih]; rfl

/-
  A value is left as it is, or it stands for a variable and
  becomes the variable's name.
-/
theorem named_cases (v : Value) :
    v.named = v
      ∨ ∃ name, v.variableName? = some name
        ∧ startsWithSigil name = true
        ∧ v.named = .str name := by
  cases v with
  | var name =>
      by_cases h : startsWithSigil name = true
      · exact .inr ⟨name, rfl, h, if_pos h⟩
      · exact .inl (if_neg h)
  | wildcard name =>
      by_cases h :
          (startsWithSigil name && endsWithMark name) = true
      · exact
          .inr ⟨name, rfl, (Bool.and_eq_true_iff.mp h).1,
            if_pos h⟩
      · exact .inl (if_neg h)
  | _ => exact .inl rfl

/- A name stands for the same variable. -/
theorem variableName?_named (v : Value) :
    v.named.variableName? = v.variableName? := by
  rcases named_cases v with hSame | ⟨name, hName, hSigil, hText⟩
  · rw [hSame]
  · rw [hText, hName]
    exact if_pos hSigil

/- So it is the same term. -/
theorem ofValue_named (v : Value) :
    Term.ofValue v.named = Term.ofValue v := by
  rcases named_cases v with hSame | ⟨name, hName, hSigil, hText⟩
  · rw [hSame]
  · have hNamed : (Value.str name).variableName? = some name :=
      if_pos hSigil
    rw [hText]
    cases v with
    | lit w => cases hName
    | _ => simp only [Term.ofValue, hNamed, hName]

/- A name has no parts, and neither has what it names. -/
theorem sequence?_named (v : Value) :
    v.named.sequence? = v.sequence? := by
  rcases named_cases v with hSame | ⟨name, hName, -, hText⟩
  · rw [hSame]
  · rw [hText]
    cases v <;> first | rfl | cases hName

/- The variables of a name are those of what it names. -/
theorem variables_named (v : Value) :
    (leaves v.named).filterMap variableName?
      = (leaves v).filterMap variableName? := by
  rcases named_cases v with
    hSame | ⟨name, hName, hSigil, hText⟩
  · rw [hSame]
  · have hLeaf : leaves v = [v] := by
      cases v <;> first | rfl | cases hName
    have hText' : (Value.str name).variableName? = some name :=
      if_pos hSigil
    have hLeaf' : leaves (.str name) = [.str name] := by
      simp [leaves]
    rw [hText, hLeaf, hLeaf', List.filterMap_cons_some hText',
      List.filterMap_cons_some hName]

/- So are those of many. -/
theorem variablesOf_map_named (vs : List Value) :
    variablesOf (vs.map named) = variablesOf vs := by
  unfold variablesOf
  induction vs with
  | nil => rfl
  | cons v vs ih =>
      rw [List.map_cons, leavesOf, leavesOf,
        List.filterMap_append, List.filterMap_append,
        variables_named, ih]

/- A name is no object any more. -/
theorem spelled_named
    (v : Value)
    (h : v.spelled = v.named) : v.named.spelled = v.named := by
  rcases named_cases v with hSame | ⟨name, -, -, hText⟩
  · rw [hSame, h, hSame]
  · rw [hText]
    rfl

mutual

/- What is spelled has nothing left to spell. -/
theorem spelled_spelled (v : Value) :
    v.spelled.spelled = v.spelled := by
  cases v with
  | list items =>
      simp only [spelled]
      rw [spelledItems_spelledItems]
  | tuple items =>
      simp only [spelled]
      rw [spelledItems_spelledItems]
  | var name => exact spelled_named (.var name) rfl
  | wildcard name => exact spelled_named (.wildcard name) rfl
  | _ => rfl

/- Nor do items. -/
theorem spelledItems_spelledItems (vs : List Value) :
    spelledItems (spelledItems vs) = spelledItems vs := by
  cases vs with
  | nil => simp only [spelledItems]
  | cons v vs =>
      simp only [spelledItems]
      rw [spelled_spelled, spelledItems_spelledItems]

end

/- Sections can be copied as they are. -/
theorem copies_id : Copies id where
  list items := by rw [List.map_id]; rfl
  tuple items := by rw [List.map_id]; rfl
  simple v _ _ := .inl rfl
  again _ := rfl

/- They can be copied with all variables spelled. -/
theorem copies_spelled : Copies spelled where
  list items := by rw [spelled, spelledItems_eq_map]
  tuple items := by rw [spelled, spelledItems_eq_map]
  simple v hList hTuple := by
    refine .inr ?_
    cases v <;> first | rfl | skip
    · exact absurd rfl (hList _)
    · exact absurd rfl (hTuple _)
  again := spelled_spelled

------------------------------------------------------------
-- What Copies Keep
------------------------------------------------------------

namespace Copies

variable {f : Value → Value}
variable {vs : List Value}

/- What can be said of single values can be said of copies. -/
theorem cases_of
    (h : Copies f)
    {P : Value → Value → Prop}
    (list : ∀ items, P (.list items) (.list (items.map f)))
    (tuple : ∀ items, P (.tuple items) (.tuple (items.map f)))
    (same : ∀ v, P v v)
    (named : ∀ v, P v v.named)
    (v : Value) : P v (f v) := by
  by_cases hList : ∃ items, v = .list items
  · rcases hList with ⟨items, rfl⟩
    exact h.list items ▸ list items
  · by_cases hTuple : ∃ items, v = .tuple items
    · rcases hTuple with ⟨items, rfl⟩
      exact h.tuple items ▸ tuple items
    · rcases h.simple v (fun items hv => hList ⟨items, hv⟩)
          (fun items hv => hTuple ⟨items, hv⟩) with hf | hf
      · exact hf.symm ▸ same v
      · exact hf.symm ▸ named v

/- A copy stands for the same variable. -/
theorem variableName?_eq
    (h : Copies f)
    (v : Value) : (f v).variableName? = v.variableName? :=
  h.cases_of (P := fun v w => w.variableName? = v.variableName?)
    (fun _ => rfl) (fun _ => rfl) (fun _ => rfl)
    variableName?_named v

/- A copy has the same label. -/
theorem projectionLabel?_eq
    (h : Copies f)
    (v : Value) :
    projectionLabel? (f v) = projectionLabel? v := by
  have hParts : (f v).sequence?.isSome = v.sequence?.isSome :=
    h.cases_of
      (P := fun v w => w.sequence?.isSome = v.sequence?.isSome)
      (fun _ => rfl) (fun _ => rfl) (fun _ => rfl)
      (fun v => by rw [sequence?_named]) v
  unfold projectionLabel? Term.label?
  rw [hParts, name?_ofValue, name?_ofValue, h.variableName?_eq]

/- A copy of a call is one. -/
theorem isCall_eq
    (h : Copies f)
    (v : Value) : Context.isCall (f v) = Context.isCall v := by
  refine h.cases_of
    (P := fun v w => Context.isCall w = Context.isCall v)
    ?_ ?_ (fun _ => rfl) ?_ v
  · intro items
    cases items <;> rfl
  · intro items
    cases items <;> rfl
  · intro v
    unfold Context.isCall
    rw [sequence?_named]

mutual

/- A copy has the same variables in its parts. -/
theorem variables_leaves
    (h : Copies f)
    (v : Value) :
    (leaves (f v)).filterMap variableName?
      = (leaves v).filterMap variableName? := by
  have hSimple (v : Value)
      (hCopy : f v = v ∨ f v = v.named) :
      (leaves (f v)).filterMap variableName?
        = (leaves v).filterMap variableName? := by
    rcases hCopy with hf | hf
    · rw [hf]
    · rw [hf, variables_named]
  cases v with
  | list items =>
      rw [h.list, leaves, leaves]
      exact variablesOf_map h items
  | tuple items =>
      rw [h.tuple, leaves, leaves]
      exact variablesOf_map h items
  | _ => exact hSimple _ (h.simple _ nofun nofun)

/- So have the copies of many. -/
theorem variablesOf_map
    (h : Copies f)
    (vs : List Value) :
    variablesOf (vs.map f) = variablesOf vs := by
  unfold variablesOf
  cases vs with
  | nil => rfl
  | cons v vs =>
      have hHead := variables_leaves h v
      have hTail := variablesOf_map h vs
      unfold variablesOf at hTail
      rw [List.map_cons, leavesOf, leavesOf,
        List.filterMap_append, List.filterMap_append, hHead,
        hTail]

end

/- A variable that is bound has one token, however spelled. -/
theorem copy_token
    (h : Copies f)
    (v : Value) :
    f (Term.ofValue (f v.named)).token
      = f (Term.ofValue v).token := by
  have hSimple (v : Value)
      (hList : ∀ items, v ≠ .list items)
      (hTuple : ∀ items, v ≠ .tuple items) :
      f (Term.ofValue (f v.named)).token
        = f (Term.ofValue v).token := by
    rcases named_cases v with hSame | ⟨name, -, -, hText⟩
    · rw [hSame]
      rcases h.simple v hList hTuple with hf | hf
      · rw [hf]
      · rw [hf, ofValue_named]
    · have hf : f (.str name) = .str name :=
        (h.simple (.str name) nofun nofun).elim id id
      rw [hText, hf, ← hText, ofValue_named]
  cases v with
  | list items =>
      change f (Term.ofValue (f (.list items))).token
        = f (.list items)
      rw [h.list]
      change f (.list (items.map f)) = _
      rw [← h.list, h.again, h.list]
  | tuple items =>
      change f (Term.ofValue (f (.tuple items))).token
        = f (.tuple items)
      rw [h.tuple]
      change f (.tuple (items.map f)) = _
      rw [← h.tuple, h.again, h.tuple]
  | _ => exact hSimple _ nofun nofun

end Copies

end Value

------------------------------------------------------------
-- Contexts Spelled
------------------------------------------------------------

/- A clause map with its terms spelled. -/
def Clause.spelled : Value → Value
  | .map entries =>
      .map (entries.map (fun e => (e.1.named, e.2.named)))
  | v => v

/- Change the variables of bindings, and not their sources. -/
def Bindings.overVariables
    (f : Value → Value) : List Value → List Value
  | [] => []
  | [x] => [f x]
  | x :: source :: rest =>
      f x :: source :: overVariables f rest

/- Change the items of a section that has some. -/
def Value.overItems
    (g : List Value → List Value)
    (v : Value) : Value :=
  match v.sequence? with
  | some items => .list (g items)
  | none => v

/-
  The items of a section, by its name.  The terms of clauses
  and the variables that are bound are spelled in any case.
-/
def spelledSection
    (f : Value → Value)
    (name : String) : List Value → List Value :=
  match name with
  | "let" => Bindings.overVariables (fun v => f v.named)
  | "where" => List.map Clause.spelled
  | "yield" | "yield_" | "preds" | "rules" => List.map f
  | _ => id

/- A context with all its sections spelled. -/
def Context.spelledBy
    (f : Value → Value)
    (c : Context) : Context where
  bindings := c.bindings.overItems (spelledSection f "let")
  projection :=
    c.projection.overItems (spelledSection f "yield")
  clauses := c.clauses.overItems (spelledSection f "where")
  preds := c.preds.overItems (spelledSection f "preds")
  rules := c.rules.overItems (spelledSection f "rules")

/- An entry of a context with its section spelled. -/
def spelledEntry
    (f : Value → Value)
    (e : Value × Value) : Value × Value :=
  match e.1 with
  | .str name =>
      (e.1, e.2.overItems (spelledSection f name))
  | _ => e

/- A value as a context with all its sections spelled. -/
def Value.spelledBy
    (f : Value → Value) : Value → Value
  | .map entries => .map (entries.map (spelledEntry f))
  | .context c => .context (Context.spelledBy f c)
  | v => v

/- The parts of a query with those that are copied spelled. -/
def ContextParts.spelledBy
    (f : Value → Value)
    (p : ContextParts) : ContextParts where
  clauses := p.clauses
  parts :=
    { p.parts with
      bound := p.parts.bound.map (fun v => f v.named)
      projection := p.parts.projection.map f
      preds := p.parts.preds.map f
      rules := p.parts.rules.map f }

/- A document with all its values spelled. -/
def QueryDocument.spelledBy
    (f : Value → Value)
    (d : QueryDocument) : QueryDocument where
  find := d.find.map f
  inputs := d.inputs.map f
  clauses := d.clauses.map f
  args := d.args
  labels := d.labels

section Contexts

variable {f : Value → Value}
variable {g : List Value → List Value}
variable {entries : List (Value × Value)}
variable {name : String}

open Context Value

/- The section has its items changed. -/
theorem Value.sequence?_overItems (v : Value) :
    (v.overItems g).sequence? = v.sequence?.map g := by
  unfold overItems
  cases h : v.sequence? with
  | none => simp [h]
  | some items => rfl

/- Anything that has no items is left as it is. -/
theorem Value.overItems_of_none
    {v : Value}
    (h : v.sequence? = none) : v.overItems g = v := by
  rw [overItems, h]

/- A section with items stays true if it has some. -/
theorem Value.truthy_overItems
    (hEmpty : ∀ items, (g items).isEmpty = items.isEmpty)
    (v : Value) : (v.overItems g).truthy = v.truthy := by
  cases h : v.sequence? with
  | none => rw [overItems_of_none h]
  | some items =>
      rw [truthy_of_sequence? h,
        truthy_of_sequence? ((sequence?_overItems v).trans
          (congrArg (Option.map g) h)), hEmpty]

/- A section is found spelled. -/
theorem field?_spelledEntry (f : Value → Value) :
    field? (entries.map (spelledEntry f)) name
      = (field? entries name).map
        (overItems (spelledSection f name)) := by
  unfold field?
  induction entries with
  | nil => rfl
  | cons e rest ih =>
      rcases e with ⟨key, v⟩
      rw [List.map_cons]
      by_cases hKey : key = .str name
      · subst hKey
        simp [spelledEntry, Table.find?]
      · have hOther : key.same (.str name) = false := by
          rw [← Bool.not_eq_true, same_bare_right_iff rfl]
          exact hKey
        have hEntry : (spelledEntry f (key, v)).1 = key := by
          unfold spelledEntry
          split <;> rfl
        rw [Table.find?, Table.find?, hEntry, hOther]
        exact ih

/- Items of a section are read and then spelled. -/
theorem readItems_overItems
    (hNil : g [] = [])
    (v : Value) :
    readItems name (v.overItems g)
      = (readItems name v).map g := by
  cases h : v.sequence? with
  | none =>
      rw [overItems_of_none h]
      cases v <;>
        first
          | rfl
          | exact congrArg Except.ok hNil.symm
          | cases h
  | some items =>
      rw [overItems, h]
      cases v <;> cases h <;> rfl

/- So are those of a section that must be there. -/
theorem readRequired_spelledEntry
    (hNil : spelledSection f name [] = []) :
    readRequired (entries.map (spelledEntry f)) name
      = (readRequired entries name).map
        (spelledSection f name) := by
  unfold readRequired
  rw [field?_spelledEntry]
  cases field? entries name with
  | none => rfl
  | some v => exact readItems_overItems hNil v

/- So is the projection. -/
theorem readProjection_spelledEntry :
    readProjection (entries.map (spelledEntry f))
      = (readProjection entries).map (List.map f) := by
  unfold readProjection
  rw [field?_spelledEntry, field?_spelledEntry]
  cases field? entries "yield" with
  | some v => exact readItems_overItems rfl v
  | none =>
      cases field? entries "yield_" with
      | some v => exact readItems_overItems rfl v
      | none => rfl

/- The key of an entity is no variable. -/
theorem named_eq_entityKey_iff {v : Value} :
    v.named = .str Clause.entityKey
      ↔ v = .str Clause.entityKey := by
  rcases named_cases v with hSame | ⟨key, hName, -, hText⟩
  · rw [hSame]
  · have hOther {w : Value} (hw : w.variableName? = some key) :
        w ≠ .str Clause.entityKey := by
      rintro rfl
      cases hw
    exact iff_of_false
      (hOther ((variableName?_named v).trans hName))
      (hOther hName)

/- The entity of a clause map is spelled like its entries. -/
theorem field?_named (entries : List (Value × Value)) :
    field? (entries.map (fun e => (e.1.named, e.2.named)))
        Clause.entityKey
      = (field? entries Clause.entityKey).map named := by
  unfold field?
  induction entries with
  | nil => rfl
  | cons e rest ih =>
      have hKey :
          e.1.named.same (.str Clause.entityKey)
            = e.1.same (.str Clause.entityKey) := by
        rw [Bool.eq_iff_iff, same_bare_right_iff rfl,
          same_bare_right_iff rfl, named_eq_entityKey_iff]
      rw [List.map_cons, Table.find?, Table.find?, hKey]
      split
      · rfl
      · exact ih

/- The same clauses are found in clause maps once spelled. -/
theorem clauseProblem?_spelled
    (i : Nat)
    (vs : List Value) :
    clauseProblem? i (vs.map Clause.spelled)
      = clauseProblem? i vs := by
  induction vs generalizing i with
  | nil => rfl
  | cons v vs ih =>
      cases v with
      | map entries =>
          have hField :
              hasField (entries.map
                  (fun e => (e.1.named, e.2.named)))
                  Clause.entityKey
                = hasField entries Clause.entityKey := by
            unfold hasField
            rw [field?_named, Option.isSome_map]
          rw [List.map_cons, Clause.spelled, clauseProblem?,
            clauseProblem?, hField, ih]
      | _ => rfl

/- So clauses are read and then spelled. -/
theorem readClauses_spelledEntry :
    readClauses (entries.map (spelledEntry f))
      = (readClauses entries).map
        (List.map Clause.spelled) := by
  have hSection :
      spelledSection f "where" = List.map Clause.spelled := rfl
  unfold readClauses
  rw [readRequired_spelledEntry rfl, hSection]
  cases readRequired entries "where" with
  | error problem => rfl
  | ok items =>
      simp only [bind, Except.bind, Except.map,
        List.isEmpty_map, clauseProblem?_spelled]
      cases items.isEmpty
      · cases clauseProblem? 0 items <;> rfl
      · rfl

/- So are calls. -/
theorem readCalls_spelledEntry
    (h : Copies f)
    (hName : spelledSection f name = List.map f) :
    readCalls (entries.map (spelledEntry f)) name
      = (readCalls entries name).map (List.map f) := by
  have hCalls (items : List Value) :
      nonCall? (items.map f) = nonCall? items := by
    unfold nonCall?
    rw [List.findIdx?_map]
    exact congrArg (List.findIdx? · items)
      (funext (fun v => congrArg (!·) (h.isCall_eq v)))
  unfold readCalls
  rw [field?_spelledEntry, hName]
  cases field? entries name with
  | none => rfl
  | some v =>
      simp only [Option.map_some]
      rw [readItems_overItems rfl]
      cases readItems name v with
      | error problem => rfl
      | ok items =>
          simp only [bind, Except.bind, Except.map, hCalls]
          cases nonCall? items <;> rfl

/- Keys are what they are. -/
theorem filterMap_keyProblem?
    (f : Value → Value)
    (entries : List (Value × Value)) :
    (entries.map (spelledEntry f)).filterMap
        (fun e =>
          keyProblem? (entries.map (spelledEntry f)) e.1)
      = entries.filterMap (fun e => keyProblem? entries e.1) := by
  rw [List.filterMap_map]
  refine List.filterMap_congr ?_
  rintro ⟨key, v⟩ -
  have hKey : (spelledEntry f (key, v)).1 = key := by
    unfold spelledEntry
    split <;> rfl
  simp only [Function.comp_apply, hKey]
  unfold keyProblem? hasField
  rw [field?_spelledEntry, Option.isSome_map]

/- A context is read strictly and then spelled. -/
theorem ofEntries_spelledEntry (h : Copies f) :
    ofEntries (entries.map (spelledEntry f))
      = (ofEntries entries).map (Context.spelledBy f) := by
  unfold ofEntries
  rw [readRequired_spelledEntry rfl, readProjection_spelledEntry,
    readClauses_spelledEntry, readCalls_spelledEntry h rfl,
    readCalls_spelledEntry h rfl, filterMap_keyProblem?]
  cases readRequired entries "let" <;>
    cases readProjection entries <;>
    cases readClauses entries <;>
    cases readCalls entries "preds" <;>
    cases readCalls entries "rules" <;>
    cases entries.filterMap
      (fun e => keyProblem? entries e.1) <;>
    rfl

/- Or leniently. -/
theorem ofMap_spelledEntry :
    ofMap (.map (entries.map (spelledEntry f)))
      = (ofMap (.map entries)).map (Context.spelledBy f) := by
  have hOptional {name : String}
      (hName : spelledSection f name = List.map f) :
      optionalSection (entries.map (spelledEntry f)) name
        = (optionalSection entries name).overItems
          (List.map f) := by
    unfold optionalSection
    rw [field?_spelledEntry, hName]
    cases field? entries name with
    | none => rfl
    | some v =>
        simp only [Option.map_some]
        rw [truthy_overItems (by simp)]
        split <;> rfl
  simp only [ofMap, hasField, field?_spelledEntry,
    Option.isSome_map]
  rw [hOptional rfl, hOptional rfl]
  cases field? entries "let" <;>
    cases field? entries "yield" <;>
    cases field? entries "where" <;>
    rfl

/- A context is read and then spelled. -/
theorem readContext_spelledBy
    (h : Copies f)
    (o : CompileOptions)
    (v : Value) :
    readContext o (v.spelledBy f)
      = (readContext o v).map (Context.spelledBy f) := by
  unfold readContext
  split
  · cases v with
    | map entries => exact ofEntries_spelledEntry h
    | context c =>
        have hRecord :
            ofEntries ((toRecord c).map (spelledEntry f))
              = (ofEntries (toRecord c)).map
                  (Context.spelledBy f) :=
          ofEntries_spelledEntry h
        exact hRecord
    | _ => rfl
  · cases v with
    | map entries => exact ofMap_spelledEntry
    | _ => rfl

------------------------------------------------------------
-- Documents Spelled
------------------------------------------------------------

/- Spelled or not, a map stands for the same clauses. -/
theorem Clause.ofMap_spelled
    (i : Nat)
    (v : Value) :
    Clause.ofMap i (Clause.spelled v) = Clause.ofMap i v := by
  cases v with
  | map entries =>
      have hClauses (entity : Term) :
          Clause.ofEntries entity
              (entries.map (fun e => (e.1.named, e.2.named)))
            = Clause.ofEntries entity entries := by
        unfold Clause.ofEntries
        have hKey (e : Value × Value) :
            Clause.isEntityKey e.1.named
              = Clause.isEntityKey e.1 := by
          unfold Clause.isEntityKey
          rw [Bool.eq_iff_iff, same_bare_iff rfl,
            same_bare_iff rfl, eq_comm, named_eq_entityKey_iff,
            eq_comm]
        rw [List.filter_map, List.map_map]
        simp only [Function.comp_def, ofValue_named, hKey]
      simp only [Clause.spelled, Clause.ofMap, field?_named]
      cases field? entries Clause.entityKey with
      | none => rfl
      | some entity =>
          simp only [Option.map_some]
          rw [ofValue_named, hClauses]
  | _ => rfl

/- So do all maps of a section. -/
theorem Clause.ofMaps_spelled (v : Value) :
    Clause.ofMaps (v.overItems (List.map Clause.spelled))
      = Clause.ofMaps v := by
  have hMaps (i : Nat) (vs : List Value) :
      Clause.ofMapsFrom i (vs.map Clause.spelled)
        = Clause.ofMapsFrom i vs := by
    induction vs generalizing i with
    | nil => rfl
    | cons v vs ih =>
        rw [List.map_cons, Clause.ofMapsFrom, Clause.ofMapsFrom,
          Clause.ofMap_spelled, ih]
  unfold Clause.ofMaps
  rw [sequence?_overItems]
  cases v.sequence? with
  | none => rfl
  | some vs =>
      cases vs with
      | nil => rfl
      | cons v vs => exact hMaps 0 (v :: vs)

/- Variables are split from their sources and then changed. -/
theorem Bindings.alternate_overVariables
    (items : List Value) :
    Bindings.alternate (Bindings.overVariables f items)
      = ((Bindings.alternate items).1.map f,
        (Bindings.alternate items).2) := by
  fun_induction Bindings.alternate items with
  | case1 x y rest xs ys hRest ih =>
      rw [Bindings.overVariables, Bindings.alternate, ih, hRest]
      rfl
  | case2 items hShort =>
      cases items with
      | nil => rfl
      | cons x rest =>
          cases rest with
          | nil => rfl
          | cons y rest => exact absurd rfl (hShort x y rest)

/- Nothing is added or lost. -/
theorem Bindings.length_overVariables (items : List Value) :
    (Bindings.overVariables f items).length = items.length := by
  fun_induction Bindings.overVariables f items <;> simp_all

/- A section of bindings is split alike. -/
theorem Bindings.split_overItems (v : Value) :
    Bindings.split (v.overItems (Bindings.overVariables f))
      = (Bindings.split v).map
        (fun p => (p.1.map f, p.2)) := by
  unfold Bindings.split
  rw [sequence?_overItems]
  cases h : v.sequence? with
  | none => rw [overItems_of_none h]; rfl
  | some items =>
      simp only [Option.map_some, Bindings.length_overVariables,
        Bindings.alternate_overVariables]
      split <;> rfl

/- A section that must be a sequence is read alike. -/
theorem orderedSection_overItems (v : Value) :
    orderedSection name (v.overItems g)
      = (orderedSection name v).map g := by
  unfold orderedSection
  rw [sequence?_overItems]
  cases h : v.sequence? with
  | none => rw [overItems_of_none h]; rfl
  | some items => rfl

/- A context is taken apart and then spelled. -/
theorem ContextParts.ofContext_spelledBy (c : Context) :
    ContextParts.ofContext (c.spelledBy f)
      = (ContextParts.ofContext c).map
        (ContextParts.spelledBy f) := by
  have hBindings :
      spelledSection f "let"
        = Bindings.overVariables (fun v => f v.named) := rfl
  have hClauses :
      spelledSection f "where" = List.map Clause.spelled := rfl
  unfold ContextParts.ofContext Context.spelledBy
  simp only [hBindings, hClauses, Clause.ofMaps_spelled,
    Bindings.split_overItems, orderedSection_overItems]
  cases Clause.ofMaps c.clauses <;>
    cases Bindings.split c.bindings <;>
    cases orderedSection "yield" c.projection <;>
    cases orderedSection "preds" c.preds <;>
    cases orderedSection "rules" c.rules <;>
    rfl

/- A report depends on the variables that symbols name. -/
theorem SymbolReport.ofSymbols_congr
    {xs ys : List Value}
    (h :
      xs.filterMap variableName? = ys.filterMap variableName?) :
    SymbolReport.ofSymbols xs = SymbolReport.ofSymbols ys := by
  have hNames (p : String → Bool) :
      xs.filterMap (fun v => v.variableName?.filter p)
        = ys.filterMap (fun v => v.variableName?.filter p) := by
    rw [← List.filter_filterMap, ← List.filter_filterMap, h]
  unfold SymbolReport.ofSymbols
  simp only [funext regularName?_eq, funext wildcardName?_eq,
    hNames]

/- The use of variables is reported alike. -/
theorem ContextParts.symbolReport_spelledBy
    (h : Copies f)
    (p : ContextParts) :
    (p.spelledBy f).symbolReport = p.symbolReport := by
  refine SymbolReport.ofSymbols_congr ?_
  have hBound :
      variablesOf (p.parts.bound.map (fun v => f v.named))
        = variablesOf p.parts.bound := by
    have hMap :
        p.parts.bound.map (fun v => f v.named)
          = (p.parts.bound.map named).map f := by
      rw [List.map_map]
      rfl
    rw [hMap, h.variablesOf_map, variablesOf_map_named]
  simp only [ContextParts.spelledBy]
  rw [variableNames_querySymbols, variableNames_querySymbols,
    hBound, h.variablesOf_map, h.variablesOf_map]

/- Documents are put together and then spelled. -/
theorem QueryDocument.assemble_spelledBy
    (h : Copies f)
    (p : ContextParts) :
    (QueryDocument.assemble (p.spelledBy f).parts).spelledBy f
      = (QueryDocument.assemble p.parts).spelledBy f := by
  have hAgain (vs : List Value) :
      (vs.map f).map f = vs.map f := by
    rw [List.map_map]
    exact List.map_congr_left (fun v _ => h.again v)
  unfold QueryDocument.assemble QueryDocument.spelledBy
    ContextParts.spelledBy
  simp only [QueryDocument.mk.injEq, List.map_append, hAgain,
    true_and]
  refine ⟨?_, ?_, ?_⟩
  · rw [List.map_map, List.map_map, List.map_map]
    exact List.map_congr_left (fun v _ => h.copy_token v)
  · have hPred (v : Value) :
        f (.tuple [f v]) = f (.tuple [v]) := by
      rw [h.tuple, h.tuple]
      simp [h.again]
    have hPreds :
        ((p.parts.preds.map f).map (fun v => .tuple [v])).map f
          = (p.parts.preds.map (fun v => .tuple [v])).map f := by
      rw [List.map_map, List.map_map, List.map_map]
      exact List.map_congr_left (fun v _ => hPred v)
    rw [hPreds]
  · rw [List.map_map]
    exact List.map_congr_left
      (fun v _ => h.projectionLabel?_eq v)

/-
  A context compiles, or is rejected for the same reason, no
  matter how its variables are spelled.
-/
theorem compileQuery_spelledBy
    (h : Copies f)
    (o : CompileOptions)
    (v : Value) :
    (compileQuery o (v.spelledBy f)).map
        (QueryDocument.spelledBy f)
      = (compileQuery o v).map (QueryDocument.spelledBy f) := by
  unfold compileQuery
  rw [readContext_spelledBy h]
  cases readContext o v with
  | error fault => rfl
  | ok c =>
      simp only [Except.map, bind, Except.bind]
      rw [ContextParts.ofContext_spelledBy]
      cases ContextParts.ofContext c with
      | error fault => rfl
      | ok p =>
          have hAttributes :
              (p.spelledBy f).checkAttributes o
                = p.checkAttributes o := rfl
          simp only [Except.map, p.symbolReport_spelledBy h,
            hAttributes]
          cases p.symbolReport.check with
          | error fault => rfl
          | ok _ =>
              cases p.checkAttributes o with
              | error fault => rfl
              | ok _ =>
                  exact congrArg Except.ok
                    (QueryDocument.assemble_spelledBy h p)

end Contexts

------------------------------------------------------------
-- Contexts That Are Spelled Alike
------------------------------------------------------------

section Alike

variable {c c' : Value}
variable {f : Value → Value}

open Value

/- Contexts compile alike if they are the same once spelled. -/
theorem compileQuery_alike
    (h : Copies f)
    (hSame : c.spelledBy f = c'.spelledBy f)
    (o : CompileOptions) :
    Outcome.Alike
      (fun d d' => d.spelledBy f = d'.spelledBy f)
      (compileQuery o c) (compileQuery o c') := by
  refine Outcome.alike_of_map_eq ?_
  rw [← compileQuery_spelledBy h o c, hSame,
    compileQuery_spelledBy h o c']

/- A document is as it is if nothing in it is spelled. -/
theorem QueryDocument.spelledBy_id (d : QueryDocument) :
    d.spelledBy id = d := by
  simp only [QueryDocument.spelledBy, List.map_id]

/-
  Contexts that are spelled differently in terms of clauses
  and in variables that are bound, and nowhere else, compile to
  the same document.
-/
theorem compileQuery_congr
    (hSame : c.spelledBy id = c'.spelledBy id)
    (o : CompileOptions) :
    compileQuery o c = compileQuery o c' := by
  refine Outcome.Alike.eq
    ((compileQuery_alike copies_id hSame o).mono ?_)
  intro d d' h
  rwa [d.spelledBy_id, d'.spelledBy_id] at h

/- So they run alike. -/
theorem EntryPoint.run_congr
    (hSame : c.spelledBy id = c'.spelledBy id)
    (p : EntryPoint) : p.run c = p.run c' := by
  have hCompile : compileContext c = compileContext c' := by
    unfold compileContext
    simp only [compileQuery_congr hSame]
  have hContext (shape : Value) :
      runContext c shape = runContext c' shape := by
    unfold runContext
    rw [hCompile]
  cases p with
  | shaped shape => exact hContext shape
  | rows => exact hContext _
  | maps => exact hContext _
  | pulled =>
      unfold EntryPoint.run runPull
      rw [hCompile]
  | oneRow =>
      unfold EntryPoint.run
      simp only [hContext]
  | oneValue =>
      unfold EntryPoint.run
      simp only [hContext]

------------------------------------------------------------
-- Canonical Bytes
------------------------------------------------------------

mutual

/-
  Values of one form that are the same once spelled are equal:
  an object and its name do not have one form.
-/
theorem Value.eq_of_sameForm
    (v w : Value)
    (hForm : SameForm v w)
    (hSame : v.spelled = w.spelled) : v = w := by
  cases hForm with
  | refl => rfl
  | sequence hLeft hRight hItems =>
      cases v with
      | list xs =>
          cases w with
          | list ys =>
              cases hLeft
              cases hRight
              exact congrArg Value.list
                (Value.eq_of_forall₂_sameForm _ _ hItems
                  (Value.list.inj hSame))
          | tuple ys => cases hSame
          | cyclic origin ys => cases hSame
          | _ => cases hRight
      | tuple xs =>
          cases w with
          | tuple ys =>
              cases hLeft
              cases hRight
              exact congrArg Value.tuple
                (Value.eq_of_forall₂_sameForm _ _ hItems
                  (Value.tuple.inj hSame))
          | list ys => cases hSame
          | cyclic origin ys => cases hSame
          | _ => cases hRight
      | cyclic origin xs =>
          cases w with
          | cyclic origin' ys => exact hSame
          | list ys => cases hSame
          | tuple ys => cases hSame
          | _ => cases hRight
      | _ => cases hLeft
  | map hKeys hValues => exact hSame

/- So are items one by one. -/
theorem Value.eq_of_forall₂_sameForm
    (xs ys : List Value)
    (hForms : List.Forall₂ SameForm xs ys)
    (hSame : spelledItems xs = spelledItems ys) : xs = ys := by
  cases hForms with
  | nil => rfl
  | cons hHead hTail =>
      rw [spelledItems, spelledItems, List.cons.injEq] at hSame
      rw [Value.eq_of_sameForm _ _ hHead hSame.1,
        Value.eq_of_forall₂_sameForm _ _ hTail hSame.2]

end

/- So documents ask for the same only if they are equal. -/
theorem QueryDocument.eq_of_sameQuery
    {d d' : QueryDocument}
    (hQuery : d.SameQuery d')
    (hSame : d.spelledBy spelled = d'.spelledBy spelled) :
    d = d' := by
  rcases d with ⟨find, inputs, clauses, args, labels⟩
  rcases d' with ⟨find', inputs', clauses', args', labels'⟩
  simp only [QueryDocument.spelledBy, QueryDocument.mk.injEq,
    ← spelledItems_eq_map] at hSame
  rcases hSame with ⟨hFind, hInputs, hClauses, rfl, rfl⟩
  rw [QueryDocument.mk.injEq]
  exact
    ⟨Value.eq_of_forall₂_sameForm _ _ hQuery.find hFind,
      Value.eq_of_forall₂_sameForm _ _ hQuery.inputs hInputs,
      Value.eq_of_forall₂_sameForm _ _ hQuery.clauses hClauses,
      rfl, rfl⟩

/-
  The bytes of two documents that are the same once spelled
  tell them apart.
-/
theorem QueryDocument.canonicalBytes_eq_iff
    {d d' : QueryDocument}
    (hSame : d.spelledBy spelled = d'.spelledBy spelled)
    (h : d.elementary = true)
    (h' : d'.elementary = true) :
    d.canonicalBytes = d'.canonicalBytes ↔ d = d' := by
  refine ⟨fun hBytes => ?_, fun hEq => hEq ▸ rfl⟩
  unfold QueryDocument.canonicalBytes at hBytes
  rw [QueryDocument.canonicalText_eq h,
    QueryDocument.canonicalText_eq h'] at hBytes
  have hTexts :
      d.plainRecord.form.text.toUTF8
        = d'.plainRecord.form.text.toUTF8 :=
    Except.ok.inj hBytes
  rw [String.toUTF8_eq_toByteArray,
    String.toUTF8_eq_toByteArray, String.toByteArray_inj,
    QueryDocument.text_eq_iff_sameQuery h h'] at hTexts
  exact QueryDocument.eq_of_sameQuery hTexts hSame

end Alike

end FactBase
