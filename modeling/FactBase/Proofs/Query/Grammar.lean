import FactBase.Proofs.Query.Leniency

/-
  This file gives the grammar of maps that are read strictly
  as contexts, and the context that such a map stands for.
  That context is in normal form: all of its sections are
  lists, and reading it strictly gives it back.

  Key definitions include:
    * `Context.itemsUnder`
    * `Context.Conforms`
    * `Context.normalForm`

  Key theorems include:
    * `Context.holds_iff`
    * `Context.passesStrictly_iff`
    * `Context.passesStrictly_toRecord`
    * `Context.readStrictly_normalForm`
-/

------------------------------------------------------------
-- The Grammar
------------------------------------------------------------

namespace FactBase

open Sorting

namespace Context

/-
  The items of the section under a name.  There are none if
  the section is null or is not there.
-/
def itemsUnder
    (entries : List (Value × Value))
    (name : String) : List Value :=
  ((Value.field? entries name).bind Value.sequence?).getD []

/- A section, if it is there, is null or a sequence. -/
def IsOrdered
    (entries : List (Value × Value))
    (name : String) : Prop :=
  ∀ v, Value.field? entries name = some v →
    v = .null ∨ v.sequence?.isSome = true

/- The name under which a map has its projection. -/
def projectionName (entries : List (Value × Value)) : String :=
  if Value.hasField entries "yield" then "yield" else "yield_"

/-
  The map is one of sections: it has the required ones, the
  projection perhaps under its other name, and nothing under
  any other key.  A section is null or a sequence.  There is a
  clause, all clauses are maps that name an entity, and
  predicates and rules are calls.
-/
structure Conforms (entries : List (Value × Value)) : Prop where
  keys :
    ∀ e ∈ entries, ∃ s : String, e.1 = .str s
      ∧ (s ∈ sectionNames
        ∨ (s = "yield_"
          ∧ Value.hasField entries "yield" = false))
  required :
    Value.hasField entries "let" = true
      ∧ Value.hasField entries "where" = true
      ∧ (Value.hasField entries "yield" = true
        ∨ Value.hasField entries "yield_" = true)
  ordered :
    ∀ name ∈
        ["let", projectionName entries, "where", "preds",
          "rules"],
      IsOrdered entries name
  described : itemsUnder entries "where" ≠ []
  clauses : ∀ v ∈ itemsUnder entries "where", IsClauseMap v
  calls :
    ∀ name ∈ ["preds", "rules"],
      ∀ v ∈ itemsUnder entries name, IsCall v

/- The context with the items of a map, section by section. -/
def normalForm (entries : List (Value × Value)) : Context where
  bindings := .list (itemsUnder entries "let")
  projection :=
    .list (itemsUnder entries (projectionName entries))
  clauses := .list (itemsUnder entries "where")
  preds := .list (itemsUnder entries "preds")
  rules := .list (itemsUnder entries "rules")

------------------------------------------------------------
-- Sections of a Map
------------------------------------------------------------

variable {entries : List (Value × Value)}
variable {name : String}
variable {items : List Value}
variable {c : Context}

/-
  A section that is there has items if it is null or a
  sequence, and these are the items under its name.
-/
theorem holds_iff :
    Holds entries name items ↔
      Value.hasField entries name = true
        ∧ IsOrdered entries name
        ∧ items = itemsUnder entries name := by
  unfold Holds HasItems IsOrdered itemsUnder Value.hasField
  cases hField : Value.field? entries name with
  | none => simp
  | some v =>
      cases hItems : v.sequence? with
      | none => simp [hItems]
      | some found =>
          have hSome : v ≠ .null := by
            rintro rfl
            cases hItems
          simp only [Option.some.injEq, exists_eq_left', hItems,
            hSome, false_and, or_false, Option.isSome_some,
            Option.bind_some, Option.getD_some, forall_eq',
            or_true, true_and]
          exact eq_comm

/- A section that is not there has no items. -/
theorem itemsUnder_of_none
    (h : Value.field? entries name = none) :
    itemsUnder entries name = [] := by
  rw [itemsUnder, h]
  rfl

/- So it is with a section that may be left out. -/
theorem holds_or_none_iff :
    (Holds entries name items
        ∨ (Value.field? entries name = none ∧ items = []))
      ↔ IsOrdered entries name
        ∧ items = itemsUnder entries name := by
  rw [holds_iff, Value.hasField]
  cases hField : Value.field? entries name with
  | none => simp [IsOrdered, itemsUnder_of_none hField, hField]
  | some v => simp

/- The projection is read under the name that it has. -/
theorem holds_projection_iff :
    (Holds entries "yield" items
        ∨ (Value.field? entries "yield" = none
          ∧ Holds entries "yield_" items))
      ↔ Holds entries (projectionName entries) items := by
  unfold projectionName Value.hasField
  cases hField : Value.field? entries "yield" with
  | none =>
      have hNot : ¬Holds entries "yield" items := by
        rintro ⟨v, hSome, -⟩
        rw [hField] at hSome
        cases hSome
      simp [hNot]
  | some v => simp

/- It is there if it is there under either name. -/
theorem hasField_projectionName_iff :
    Value.hasField entries (projectionName entries) = true ↔
      Value.hasField entries "yield" = true
        ∨ Value.hasField entries "yield_" = true := by
  unfold projectionName
  cases hYield : Value.hasField entries "yield" with
  | true => simp [hYield]
  | false => simp

------------------------------------------------------------
-- Strict Reading
------------------------------------------------------------

/-
  A map passes the strict reading as a context if it conforms
  and the context is its normal form.
-/
theorem passesStrictly_iff :
    PassesStrictly entries c ↔
      Conforms entries ∧ c = normalForm entries := by
  constructor
  · intro h
    rcases h.bindings with ⟨_, hLet, hBindings⟩
    rcases h.projection with ⟨_, hYield, hProjection⟩
    rcases h.clauses with ⟨_, ⟨hWhere, hSome, hMaps⟩, hClauses⟩
    rcases h.preds with ⟨_, ⟨hPreds, hPredCalls⟩, hPredsEq⟩
    rcases h.rules with ⟨_, ⟨hRules, hRuleCalls⟩, hRulesEq⟩
    rw [holds_projection_iff] at hYield
    rcases holds_iff.mp hLet with ⟨hLetThere, hLetItems, rfl⟩
    rcases holds_iff.mp hYield with
      ⟨hYieldThere, hYieldItems, rfl⟩
    rcases holds_iff.mp hWhere with
      ⟨hWhereThere, hWhereItems, rfl⟩
    rcases holds_or_none_iff.mp hPreds with ⟨hPredItems, rfl⟩
    rcases holds_or_none_iff.mp hRules with ⟨hRuleItems, rfl⟩
    rw [hasField_projectionName_iff] at hYieldThere
    have hForm : c = normalForm entries := by
      cases c
      simp_all [normalForm]
    exact
      ⟨{ keys := h.keys
         required := ⟨hLetThere, hWhereThere, hYieldThere⟩
         ordered := by
           simp [hLetItems, hYieldItems, hWhereItems, hPredItems,
             hRuleItems]
         described := hSome
         clauses := hMaps
         calls := by simpa using ⟨hPredCalls, hRuleCalls⟩ },
        hForm⟩
  · rintro ⟨h, rfl⟩
    rcases h.required with ⟨hLet, hWhere, hYield⟩
    rw [← hasField_projectionName_iff] at hYield
    have hOrdered := h.ordered
    have hCalls := h.calls
    simp only [List.forall_mem_cons] at hOrdered hCalls
    rcases hOrdered with
      ⟨hLetItems, hYieldItems, hWhereItems, hPredItems,
        hRuleItems, -⟩
    rcases hCalls with ⟨hPredCalls, hRuleCalls, -⟩
    exact
      { keys := h.keys
        bindings := ⟨_, holds_iff.mpr ⟨hLet, hLetItems, rfl⟩, rfl⟩
        projection :=
          ⟨_, holds_projection_iff.mpr
            (holds_iff.mpr ⟨hYield, hYieldItems, rfl⟩), rfl⟩
        clauses :=
          ⟨_, ⟨holds_iff.mpr ⟨hWhere, hWhereItems, rfl⟩,
            h.described, h.clauses⟩, rfl⟩
        preds :=
          ⟨_, ⟨holds_or_none_iff.mpr ⟨hPredItems, rfl⟩,
            hPredCalls⟩, rfl⟩
        rules :=
          ⟨_, ⟨holds_or_none_iff.mpr ⟨hRuleItems, rfl⟩,
            hRuleCalls⟩, rfl⟩ }

/- A context whose sections are such lists passes as itself. -/
theorem passesStrictly_toRecord
    (h : PassesStrictly entries c) :
    PassesStrictly (toRecord c) c := by
  rcases field?_toRecord c with
    ⟨hLet, hYield, hWhere, hPreds, hRules⟩
  -- A list has its items, under whatever name it stands.
  have hHolds {name : String} {v : Value} {items : List Value}
      (hField : Value.field? (toRecord c) name = some v)
      (hList : v = .list items) :
      Holds (toRecord c) name items :=
    ⟨v, hField, .inl (hList ▸ rfl)⟩
  constructor
  · simp [toRecord, sectionNames]
  · rcases h.bindings with ⟨items, -, hEq⟩
    exact ⟨items, hHolds hLet hEq, hEq⟩
  · rcases h.projection with ⟨items, -, hEq⟩
    exact ⟨items, .inl (hHolds hYield hEq), hEq⟩
  · rcases h.clauses with ⟨items, ⟨-, hMaps⟩, hEq⟩
    exact ⟨items, ⟨hHolds hWhere hEq, hMaps⟩, hEq⟩
  · rcases h.preds with ⟨items, ⟨-, hCalls⟩, hEq⟩
    exact ⟨items, ⟨.inl (hHolds hPreds hEq), hCalls⟩, hEq⟩
  · rcases h.rules with ⟨items, ⟨-, hCalls⟩, hEq⟩
    exact ⟨items, ⟨.inl (hHolds hRules hEq), hCalls⟩, hEq⟩

/-
  A map is read strictly as a context exactly if it conforms.
  The context has all items of each section in order, as a
  list, and reading it strictly again gives it back.
-/
theorem readStrictly_normalForm
    (entries : List (Value × Value)) :
    ((∃ c, readStrictly (.map entries) = .ok c)
        ↔ Conforms entries)
      ∧ ∀ c, readStrictly (.map entries) = .ok c →
          c = normalForm entries
            ∧ readStrictly (.context c) = .ok c := by
  have hRead :
      ∀ c, readStrictly (.map entries) = .ok c ↔
        Conforms entries ∧ c = normalForm entries :=
    fun _ => ofEntries_eq_ok_iff.trans passesStrictly_iff
  refine ⟨?_, ?_⟩
  · simp only [hRead, exists_and_left, exists_eq, and_true]
  · intro c hc
    have hPasses : PassesStrictly entries c :=
      ofEntries_eq_ok_iff.mp hc
    exact
      ⟨((hRead c).mp hc).2,
        ofEntries_eq_ok_iff.mpr (passesStrictly_toRecord hPasses)⟩

/-
  A map with an empty list of bindings, a projection under its
  other name and no predicates.
-/
def sparseMap : List (Value × Value) :=
  [ (.str "where", .tuple [Value.record
      [("db/id", .str "?e"), ("db/ident", .str "db/doc")]])
  , (.str "yield_", .list [.str "?e"])
  , (.str "let", .null)
  , (.str "rules", .tuple [.tuple [.str "known", .str "?e"]]) ]

/- It is read as its normal form, which is read as itself. -/
theorem readStrictly_normalForm_sparseMap :
    (itemsUnder sparseMap "let").length = 0
      ∧ (itemsUnder sparseMap (projectionName sparseMap)).length
        = 1
      ∧ readStrictly (.map sparseMap) = .ok (normalForm sparseMap)
      ∧ readStrictly (.context (normalForm sparseMap))
        = .ok (normalForm sparseMap) := by
  have hSome :
      (readStrictly (.map sparseMap)).toOption.isSome = true := by
    decide +kernel
  cases hRead : readStrictly (.map sparseMap) with
  | error fault =>
      rw [hRead] at hSome
      cases hSome
  | ok c =>
      rcases (readStrictly_normalForm sparseMap).2 c hRead with
        ⟨rfl, hAgain⟩
      exact ⟨by decide +kernel, by decide +kernel, rfl, hAgain⟩

end Context

end FactBase
