import FactBase.Proofs.Query.Compilation
import FactBase.Proofs.Value.TextTable

/-
  This file compares the two ways to read a context.  What
  compiles strictly compiles leniently to the same document,
  as long as it has the sections that a lenient reading takes
  as they are.  A strict reading makes up for sections that
  are null and for a projection under its other name; a
  lenient one rejects these.

  Key definitions include:
    * `Context.gives`
    * `Value.givesSections`
    * `Context.Fills`
    * `Context.ItemsAlike`

  Key theorems include:
    * `Context.fills_of_passes`
    * `Context.Fills.itemsAlike`
    * `Context.Fills.exists_shape`
    * `compileQuery_lenient_of_strict`
-/

------------------------------------------------------------
-- Sections that Are Given
------------------------------------------------------------

namespace FactBase

open Sorting

namespace Context

/- The section is there, and it is not null. -/
def gives
    (entries : List (Value × Value))
    (name : String) : Bool :=
  match Value.field? entries name with
  | some .null => false
  | some _ => true
  | none => false

end Context

/-
  A value gives the sections that a lenient reading takes as
  they are.  Those that a map may leave out may also be null
  in it, but not in a context that is given as such.
-/
def Value.givesSections : Value → Bool
  | .map entries => ["let", "yield"].all (Context.gives entries)
  | .context c =>
      ["let", "yield", "preds", "rules"].all
        (Context.gives (Context.toRecord c))
  | _ => false

namespace Context

variable {entries : List (Value × Value)}
variable {name : String}
variable {items : List Value}
variable {c c' : Context}

/- A section that is there is given unless it is null. -/
theorem gives_iff
    {v : Value}
    (hField : Value.field? entries name = some v) :
    gives entries name = true ↔ v ≠ .null := by
  unfold gives
  rw [hField]
  cases v <;> simp

/- A value that has items is null or a sequence. -/
theorem HasItems.sequence?_eq
    {v : Value}
    (h : HasItems v items)
    (hNull : v ≠ .null) : v.sequence? = some items := by
  rcases h with hItems | ⟨rfl, -⟩
  · exact hItems
  · exact absurd rfl hNull

/- It has no other items. -/
theorem HasItems.eq_of_sequence?
    {v : Value}
    {others : List Value}
    (h : HasItems v items)
    (hOthers : v.sequence? = some others) : others = items := by
  rcases h with hItems | ⟨rfl, -⟩
  · rw [hItems] at hOthers
    exact (Option.some.inj hOthers).symm
  · cases hOthers

/- A sequence is true if it has items. -/
theorem truthy_of_sequence?
    {v : Value}
    (h : v.sequence? = some items) :
    v.truthy = !items.isEmpty := by
  cases v with
  | list xs =>
      rw [← Option.some.inj h]
      rfl
  | tuple xs =>
      rw [← Option.some.inj h]
      rfl
  | cyclic origin xs =>
      have hLength := Value.length_unrolled origin xs
      rw [Option.some.inj h] at hLength
      cases xs <;> cases items <;> first | rfl | cases hLength
  | _ => cases h

/-
  A section that a map may leave out has the same items,
  however it is read.
-/
theorem sequence?_optionalSection
    (h :
      Holds entries name items
        ∨ (Value.field? entries name = none ∧ items = [])) :
    (optionalSection entries name).sequence? = some items := by
  unfold optionalSection
  rcases h with ⟨v, hField, hItems⟩ | ⟨hNone, rfl⟩
  · rw [hField]
    rcases hItems with hItems | ⟨rfl, rfl⟩
    · have hTruth := truthy_of_sequence? hItems
      cases items with
      | nil => simp [hTruth, Value.sequence?]
      | cons x xs => simp [hTruth, hItems]
    · rfl
  · rw [hNone]
    rfl

------------------------------------------------------------
-- Contexts with the Same Items
------------------------------------------------------------

/- The sections of two contexts have the same items. -/
structure ItemsAlike (c c' : Context) : Prop where
  bindings : c.bindings.sequence? = c'.bindings.sequence?
  projection : c.projection.sequence? = c'.projection.sequence?
  clauses : c.clauses.sequence? = c'.clauses.sequence?
  preds : c.preds.sequence? = c'.preds.sequence?
  rules : c.rules.sequence? = c'.rules.sequence?

/- Such contexts stand for the same clauses. -/
theorem ItemsAlike.triples_eq
    (h : ItemsAlike c c') : c.triples = c'.triples := by
  unfold triples Value.itemsOf
  rw [h.clauses]

/- They have the same document. -/
theorem ItemsAlike.document_eq
    (h : ItemsAlike c c') : c.document = c'.document := by
  unfold document
  rw [h.triples_eq]
  unfold Value.itemsOf
  rw [h.bindings, h.projection, h.preds, h.rules]

/-
  They are well-formed together, where attributes need not be
  declared.
-/
theorem ItemsAlike.wellFormed
    {o o' : CompileOptions}
    (h : ItemsAlike c c')
    (hOptions : o'.strict = false)
    (hWell : c.WellFormed o) : c'.WellFormed o' where
  clauses := h.clauses ▸ hWell.clauses
  bindings := h.bindings ▸ hWell.bindings
  projection := h.projection ▸ hWell.projection
  preds := h.preds ▸ hWell.preds
  rules := h.rules ▸ hWell.rules
  used := by
    have hNames : c.names = c'.names := by
      unfold names
      rw [h.triples_eq]
      unfold Value.itemsOf
      rw [h.bindings, h.projection, h.rules]
    exact hNames ▸ hWell.used
  declared := by
    intro r hStrict
    rw [hOptions] at hStrict
    cases hStrict

------------------------------------------------------------
-- Contexts Filled In
------------------------------------------------------------

/-
  The first context has the items of the second one, whose
  sections may also be null where there are none.
-/
structure Fills (c c' : Context) : Prop where
  bindings :
    ∃ items, c.bindings = .list items
      ∧ HasItems c'.bindings items
  projection :
    ∃ items, c.projection = .list items
      ∧ HasItems c'.projection items
  clauses :
    ∃ items, c.clauses = .list items
      ∧ HasItems c'.clauses items
  preds :
    ∃ items, c.preds = .list items
      ∧ HasItems c'.preds items
  rules :
    ∃ items, c.rules = .list items
      ∧ HasItems c'.rules items

/- What a section that is there holds are the items of it. -/
theorem Holds.hasItems
    {v : Value}
    (h : Holds entries name items)
    (hField : Value.field? entries name = some v) :
    HasItems v items := by
  rcases h with ⟨w, hOther, hItems⟩
  rw [hField, Option.some.injEq] at hOther
  exact hOther ▸ hItems

/-
  A strict reading of a map fills in what a lenient reading of
  it takes as it is.
-/
theorem fills_of_passes
    (hStrict : PassesStrictly entries c)
    (hLenient : PassesLeniently entries c') : Fills c c' where
  bindings := by
    rcases hStrict.bindings with ⟨items, hItems, hEq⟩
    exact ⟨items, hEq, hItems.hasItems hLenient.bindings⟩
  projection := by
    rcases hStrict.projection with
      ⟨items, hItems | ⟨hNone, -⟩, hEq⟩
    · exact ⟨items, hEq, hItems.hasItems hLenient.projection⟩
    · rw [hLenient.projection] at hNone
      cases hNone
  clauses := by
    rcases hStrict.clauses with ⟨items, ⟨hItems, -⟩, hEq⟩
    exact ⟨items, hEq, hItems.hasItems hLenient.clauses⟩
  preds := by
    rcases hStrict.preds with ⟨items, ⟨hItems, -⟩, hEq⟩
    rw [hLenient.preds]
    exact ⟨items, hEq, .inl (sequence?_optionalSection hItems)⟩
  rules := by
    rcases hStrict.rules with ⟨items, ⟨hItems, -⟩, hEq⟩
    rw [hLenient.rules]
    exact ⟨items, hEq, .inl (sequence?_optionalSection hItems)⟩

/- The sections of a context as the entries of a map. -/
theorem field?_toRecord (c : Context) :
    Value.field? (toRecord c) "let" = some c.bindings
      ∧ Value.field? (toRecord c) "yield" = some c.projection
      ∧ Value.field? (toRecord c) "where" = some c.clauses
      ∧ Value.field? (toRecord c) "preds" = some c.preds
      ∧ Value.field? (toRecord c) "rules" = some c.rules := by
  simp [Value.field?, toRecord, Table.find?, Table.same_str]

/- A strict reading fills in a context that is given as such. -/
theorem fills_of_toRecord
    (hStrict : PassesStrictly (toRecord c') c) : Fills c c' := by
  rcases field?_toRecord c' with
    ⟨hLet, hYield, hWhere, hPreds, hRules⟩
  constructor
  · rcases hStrict.bindings with ⟨items, hItems, hEq⟩
    exact ⟨items, hEq, hItems.hasItems hLet⟩
  · rcases hStrict.projection with
      ⟨items, hItems | ⟨hNone, -⟩, hEq⟩
    · exact ⟨items, hEq, hItems.hasItems hYield⟩
    · rw [hYield] at hNone
      cases hNone
  · rcases hStrict.clauses with ⟨items, ⟨hItems, -⟩, hEq⟩
    exact ⟨items, hEq, hItems.hasItems hWhere⟩
  · rcases hStrict.preds with
      ⟨items, ⟨hItems | ⟨hNone, -⟩, -⟩, hEq⟩
    · exact ⟨items, hEq, hItems.hasItems hPreds⟩
    · rw [hPreds] at hNone
      cases hNone
  · rcases hStrict.rules with
      ⟨items, ⟨hItems | ⟨hNone, -⟩, -⟩, hEq⟩
    · exact ⟨items, hEq, hItems.hasItems hRules⟩
    · rw [hRules] at hNone
      cases hNone

/- Clauses that are filled in are those that were there. -/
theorem Fills.sequence?_clauses
    {o : CompileOptions}
    (h : Fills c c')
    (hWell : c.WellFormed o) :
    c'.clauses.sequence? = c.clauses.sequence? := by
  rcases h.clauses with ⟨items, hEq, hItems⟩
  rcases hWell.clauses with ⟨maps, hMaps, hSome, -⟩
  rw [hEq, Value.sequence?, Option.some.injEq] at hMaps
  subst hMaps
  rw [hEq]
  refine hItems.sequence?_eq ?_
  rintro hNull
  rcases hItems with hSeq | ⟨-, hNil⟩
  · rw [hNull] at hSeq
    cases hSeq
  · exact hSome hNil

/- Where no section is null, nothing is filled in. -/
theorem Fills.itemsAlike
    {o : CompileOptions}
    (h : Fills c c')
    (hWell : c.WellFormed o)
    (hBindings : c'.bindings ≠ .null)
    (hProjection : c'.projection ≠ .null)
    (hPreds : c'.preds ≠ .null)
    (hRules : c'.rules ≠ .null) : ItemsAlike c c' where
  bindings := by
    rcases h.bindings with ⟨items, hEq, hItems⟩
    rw [hEq, hItems.sequence?_eq hBindings]
    rfl
  projection := by
    rcases h.projection with ⟨items, hEq, hItems⟩
    rw [hEq, hItems.sequence?_eq hProjection]
    rfl
  clauses := (h.sequence?_clauses hWell).symm
  preds := by
    rcases h.preds with ⟨items, hEq, hItems⟩
    rw [hEq, hItems.sequence?_eq hPreds]
    rfl
  rules := by
    rcases h.rules with ⟨items, hEq, hItems⟩
    rw [hEq, hItems.sequence?_eq hRules]
    rfl

/-
  A context whose clauses are fine is rejected for its shape
  if another section is no sequence.
-/
theorem exists_shape_of_ofContext
    {clauses : List Clause}
    (hClauses : Clause.ofMaps c.clauses = .ok clauses)
    (hEven :
      ∀ items, c.bindings.sequence? = some items →
        items.length % 2 = 0)
    (hLacks :
      c.bindings.sequence? = none ∨ c.projection.sequence? = none
        ∨ c.preds.sequence? = none
        ∨ c.rules.sequence? = none) :
    ∃ cause, ContextParts.ofContext c = .error (.shape cause) := by
  unfold ContextParts.ofContext
  rw [hClauses, ok_bind]
  cases hBindings : c.bindings.sequence? with
  | none =>
      unfold Bindings.split
      rw [hBindings]
      exact ⟨_, rfl⟩
  | some items =>
      have hSplit :
          Bindings.split c.bindings
            = .ok (Bindings.alternate items) := by
        unfold Bindings.split
        rw [hBindings]
        exact if_pos (beq_iff_eq.mpr (hEven items hBindings))
      rw [hSplit, ok_bind]
      unfold orderedSection
      cases hProjection : c.projection.sequence? with
      | none => exact ⟨_, rfl⟩
      | some _ =>
      cases hPreds : c.preds.sequence? with
      | none => exact ⟨_, rfl⟩
      | some _ =>
      cases hRules : c.rules.sequence? with
      | none => exact ⟨_, rfl⟩
      | some _ => simp_all

/- A null section that was filled in is rejected as it is. -/
theorem Fills.exists_shape
    {o : CompileOptions}
    (h : Fills c c')
    (hWell : c.WellFormed o)
    (hNull :
      c'.bindings = .null ∨ c'.projection = .null
        ∨ c'.preds = .null ∨ c'.rules = .null) :
    ∃ cause, ContextParts.ofContext c' = .error (.shape cause) := by
  have hClauses :
      Clause.ofMaps c'.clauses
        = .ok (c'.clauses.itemsOf.flatMap Clause.described) := by
    refine Clause.ofMaps_eq_ok_iff.mpr ⟨?_, rfl⟩
    rw [h.sequence?_clauses hWell]
    exact hWell.clauses
  refine exists_shape_of_ofContext hClauses ?_ ?_
  · intro items hItems
    rcases h.bindings with ⟨others, hEq, hOthers⟩
    rcases hWell.bindings with ⟨found, hFound, hEven⟩
    rw [hEq, Value.sequence?, Option.some.injEq] at hFound
    rw [hOthers.eq_of_sequence? hItems, hFound]
    exact hEven
  · rcases hNull with hNull | hNull | hNull | hNull
    · exact .inl (by rw [hNull]; rfl)
    · exact .inr (.inl (by rw [hNull]; rfl))
    · exact .inr (.inr (.inl (by rw [hNull]; rfl)))
    · exact .inr (.inr (.inr (by rw [hNull]; rfl)))

end Context

------------------------------------------------------------
-- From Strict to Lenient
------------------------------------------------------------

section

variable {v : Value}
variable {c c' : Context}
variable {o o' : CompileOptions}

/- A context that cannot be taken apart does not compile. -/
theorem compileQuery_eq_error
    {e : Fault}
    (hTaken : Context.TakenFrom o.strict v c)
    (hApart : ContextParts.ofContext c = .error e) :
    compileQuery o v = .error e := by
  unfold compileQuery
  rw [readContext_eq_ok_iff.mpr hTaken, ok_bind, hApart]
  rfl

/-
  A context that was filled in compiles to the same as it is,
  or its shape is rejected.
-/
theorem compileQuery_of_fills
    (hTaken : Context.TakenFrom o'.strict v c')
    (hLenient : o'.strict = false)
    (hWell : c.WellFormed o)
    (hFills : Context.Fills c c')
    (hGives :
      v.givesSections = true ↔
        c'.bindings ≠ .null ∧ c'.projection ≠ .null
          ∧ c'.preds ≠ .null ∧ c'.rules ≠ .null) :
    if v.givesSections then
      compileQuery o' v = .ok c.document
    else
      ∃ cause, compileQuery o' v = .error (.shape cause) := by
  split
  next hGiven =>
    rcases hGives.mp hGiven with
      ⟨hBindings, hProjection, hPreds, hRules⟩
    have hAlike :=
      hFills.itemsAlike hWell hBindings hProjection hPreds hRules
    rw [hAlike.document_eq]
    exact
      compileQuery_of_wellFormed hTaken
        (hAlike.wellFormed hLenient hWell)
  next hGiven =>
    rw [hGives] at hGiven
    rcases hFills.exists_shape hWell (by grind) with
      ⟨cause, hCause⟩
    exact ⟨cause, compileQuery_eq_error hTaken hCause⟩

end

/- An optional section is never null. -/
theorem Context.optionalSection_ne_null
    (entries : List (Value × Value))
    (name : String) :
    optionalSection entries name ≠ .null := by
  unfold optionalSection
  split
  next v _ =>
    split
    next hTruth =>
      rintro rfl
      cases hTruth
    · nofun
  · nofun

/- A map without a projection cannot be read leniently. -/
theorem Context.exists_shape_of_no_yield
    {entries : List (Value × Value)}
    (hNone : Value.field? entries "yield" = none) :
    ∃ cause, ofMap (.map entries) = .error (.shape cause) := by
  unfold ofMap
  dsimp only
  rw [hNone]
  split
  next hSome _ => cases hSome
  · exact ⟨_, rfl⟩

/-
  What compiles strictly compiles leniently to the same
  document if it gives the sections that are taken as they
  are; else its shape is rejected.  The registries do not
  matter.
-/
theorem compileQuery_lenient_of_strict
    {v : Value}
    {d : QueryDocument}
    {checked : Option Registry}
    (passed : Option Registry)
    (h :
      compileQuery { strict := true, attributes := checked } v
        = .ok d) :
    if v.givesSections then
      compileQuery { strict := false, attributes := passed } v
        = .ok d
    else
      ∃ cause,
        compileQuery { strict := false, attributes := passed } v
          = .error (.shape cause) := by
  rcases exists_taken_of_compileQuery h with
    ⟨c, hTaken, hWell, rfl⟩
  cases hTaken with
  | @strictMap entries _ hStrict =>
      rcases hStrict.bindings with ⟨_, ⟨b, hLet, -⟩, -⟩
      rcases hStrict.clauses with ⟨_, ⟨⟨q, hWhere, -⟩, -⟩, -⟩
      cases hYield : Value.field? entries "yield" with
      | none =>
          have hLacks :
              Value.givesSections (.map entries) = false := by
            simp [Value.givesSections, Context.gives, hYield]
          rw [if_neg (by simp [hLacks])]
          -- The projection has its other name, which is unknown.
          rcases Context.exists_shape_of_no_yield hYield with
            ⟨cause, hCause⟩
          refine ⟨cause, ?_⟩
          change
            (Context.ofMap (.map entries)).bind _ = Except.error _
          rw [hCause]
          rfl
      | some p =>
          let preds := Context.optionalSection entries "preds"
          let rules := Context.optionalSection entries "rules"
          have hPasses :
              Context.PassesLeniently entries
                { bindings := b
                  projection := p
                  clauses := q
                  preds := preds
                  rules := rules } :=
            ⟨hLet, hYield, hWhere, rfl, rfl⟩
          refine
            compileQuery_of_fills (.lenientMap hPasses) rfl hWell
              (Context.fills_of_passes hStrict hPasses) ?_
          simp [Value.givesSections, Context.gives_iff hLet,
            Context.gives_iff hYield, preds, rules,
            Context.optionalSection_ne_null]
  | @strictContext given _ hStrict =>
      refine
        compileQuery_of_fills (.lenientContext given) rfl hWell
          (Context.fills_of_toRecord hStrict) ?_
      rcases Context.field?_toRecord given with
        ⟨hLet, hYield, -, hPreds, hRules⟩
      simp [Value.givesSections, Context.gives_iff hLet,
        Context.gives_iff hYield, Context.gives_iff hPreds,
        Context.gives_iff hRules]

/- A map whose predicates are null compiles either way. -/
theorem compileQuery_of_null_preds :
    let v := Value.record
      [ ("let", .list [.str "$", .str "db"])
      , ("yield", .list [.str "?e"])
      , ("where", .list [Value.record
          [("db/id", .str "?e"), ("db/ident", .str "db/doc")]])
      , ("preds", .null) ]
    ∃ d,
      compileQuery { strict := true, attributes := none } v
          = .ok d
        ∧ compileQuery { strict := false, attributes := none } v
          = .ok d := by
  intro v
  have hSome :
      (compileQuery { strict := true, attributes := none }
        v).toOption.isSome = true := by
    decide +kernel
  cases h :
      compileQuery { strict := true, attributes := none } v with
  | error _ =>
      rw [h] at hSome
      cases hSome
  | ok d =>
      have hLenient := compileQuery_lenient_of_strict none h
      rw [if_pos (by decide +kernel)] at hLenient
      exact ⟨d, rfl, hLenient⟩

/- One whose bindings are null compiles only strictly. -/
theorem compileQuery_of_null_bindings :
    let v := Value.record
      [ ("let", .null)
      , ("yield", .list [.str "?e"])
      , ("where", .list [Value.record
          [("db/id", .str "?e"), ("db/ident", .str "db/doc")]]) ]
    (compileQuery { strict := true, attributes := none }
          v).toOption.isSome = true
      ∧ (compileQuery { strict := false, attributes := none }
          v).toOption.isSome = false := by
  decide +kernel

end FactBase
