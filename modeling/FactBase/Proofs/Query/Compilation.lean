import FactBase.Query.Document
import FactBase.Sorting.Attempt

/-
  This file says which contexts compile and what they compile
  to, apart from how the compiler goes about it.  A context is
  taken by the rules of its mode, and what was taken must be
  well-formed.  The document then has all of it, in order.

  Key definitions include:
    * `Context.PassesStrictly`
    * `Context.PassesLeniently`
    * `Context.TakenFrom`
    * `Context.triples`
    * `Context.names`
    * `Context.WellFormed`
    * `Context.document`

  Key theorems include:
    * `readContext_eq_ok_iff`
    * `Value.flattenPending_eq_leavesOf`
    * `ContextParts.ofContext_eq_ok_iff`
    * `ContextParts.check_symbolReport_iff`
    * `compileQuery_eq_ok_iff`
-/

------------------------------------------------------------
-- Sections
------------------------------------------------------------

namespace FactBase

open Sorting

namespace Context

/- The value has items, be it that null stands for none. -/
def HasItems
    (v : Value)
    (items : List Value) : Prop :=
  v.sequence? = some items ∨ (v = .null ∧ items = [])

/- The value is a map that names an entity. -/
def IsClauseMap (v : Value) : Prop :=
  ∃ entries, v = .map entries
    ∧ Value.hasField entries Clause.entityKey = true

/- The value is a sequence that is not empty. -/
def IsCall (v : Value) : Prop :=
  ∃ head args, v.sequence? = some (head :: args)

/- The section is there and has items. -/
def Holds
    (entries : List (Value × Value))
    (name : String)
    (items : List Value) : Prop :=
  ∃ v, Value.field? entries name = some v ∧ HasItems v items

variable {entries : List (Value × Value)}
variable {items : List Value}
variable {name : String}
variable {v : Value}
variable {c : Context}

/- Items are read where a section has them. -/
theorem readItems_eq_ok_iff :
    readItems name v = .ok items ↔ HasItems v items := by
  cases v <;> simp [readItems, HasItems, Value.sequence?, eq_comm]

/- A required section is read if it is there and has items. -/
theorem readRequired_eq_ok_iff :
    readRequired entries name = .ok items
      ↔ Holds entries name items := by
  unfold readRequired Holds
  cases Value.field? entries name with
  | none => simp
  | some v => simp [readItems_eq_ok_iff]

/- The projection is read under either of its names. -/
theorem readProjection_eq_ok_iff :
    readProjection entries = .ok items ↔
      Holds entries "yield" items
        ∨ (Value.field? entries "yield" = none
          ∧ Holds entries "yield_" items) := by
  unfold readProjection Holds
  cases Value.field? entries "yield" with
  | some v => simp [readItems_eq_ok_iff]
  | none =>
      cases Value.field? entries "yield_" with
      | some v => simp [readItems_eq_ok_iff]
      | none => simp

/- There is no problem where all items are clause maps. -/
theorem clauseProblem?_eq_none_iff {i : Nat} :
    clauseProblem? i items = none
      ↔ ∀ v ∈ items, IsClauseMap v := by
  induction items generalizing i with
  | nil => simp [clauseProblem?]
  | cons v vs ih =>
      rw [List.forall_mem_cons, ← ih (i := i + 1)]
      cases v with
      | map entries =>
          simp only [clauseProblem?, IsClauseMap,
            Value.map.injEq, exists_eq_left']
          split
          next hId => rw [and_iff_right hId]
          next hId =>
            exact iff_of_false nofun (fun hBoth => hId hBoth.1)
      | _ => simp [clauseProblem?, IsClauseMap]

/- Clauses are read if there are some and all are maps. -/
theorem readClauses_eq_ok_iff :
    readClauses entries = .ok items ↔
      Holds entries "where" items ∧ items ≠ []
        ∧ ∀ v ∈ items, IsClauseMap v := by
  unfold readClauses
  rw [bind_eq_ok]
  simp only [readRequired_eq_ok_iff]
  constructor
  · rintro ⟨found, hHolds, hRest⟩
    split at hRest
    · cases hRest
    next hEmpty =>
      split at hRest
      · cases hRest
      next hNone =>
        rw [pure_eq_ok] at hRest
        subst hRest
        exact
          ⟨hHolds, by simpa using hEmpty,
            clauseProblem?_eq_none_iff.mp hNone⟩
  · rintro ⟨hHolds, hEmpty, hMaps⟩
    refine ⟨items, hHolds, ?_⟩
    rw [if_neg (by simpa using hEmpty),
      clauseProblem?_eq_none_iff.mpr hMaps]
    rfl

/- A call is a sequence with something in it. -/
theorem isCall_iff : isCall v = true ↔ IsCall v := by
  unfold isCall IsCall
  cases v.sequence? with
  | none => simp
  | some items => cases items <;> simp

/- A section of calls is read if it has only calls. -/
theorem readCalls_eq_ok_iff :
    readCalls entries name = .ok items ↔
      (Holds entries name items
          ∨ (Value.field? entries name = none ∧ items = []))
        ∧ ∀ v ∈ items, IsCall v := by
  have hCalls :
      ∀ items, nonCall? items = none ↔ ∀ v ∈ items, IsCall v := by
    intro items
    simp [nonCall?, List.findIdx?_eq_none_iff, isCall_iff]
  unfold readCalls Holds
  cases Value.field? entries name with
  | none =>
      constructor
      · rintro ⟨⟩
        exact ⟨.inr ⟨rfl, rfl⟩, by simp⟩
      · rintro ⟨⟨_, hNone, _⟩ | ⟨_, rfl⟩, _⟩
        · cases hNone
        · rfl
  | some v =>
      simp only [Option.some.injEq, exists_eq_left',
        reduceCtorEq, false_and, or_false]
      rw [bind_eq_ok]
      simp only [readItems_eq_ok_iff]
      constructor
      · rintro ⟨found, hItems, hRest⟩
        split at hRest
        · cases hRest
        next hNone =>
          rw [pure_eq_ok] at hRest
          subst hRest
          exact ⟨hItems, (hCalls _).mp hNone⟩
      · rintro ⟨hItems, hAll⟩
        refine ⟨items, hItems, ?_⟩
        rw [(hCalls _).mpr hAll]
        rfl

------------------------------------------------------------
-- Taking a Context
------------------------------------------------------------

/-
  A map passes the strict reading as a context.  It has no
  keys but the names of sections, of which only predicates and
  rules may be left out; clauses are maps that name an entity,
  and there are some; predicates and rules are calls.
-/
structure PassesStrictly
    (entries : List (Value × Value))
    (c : Context) : Prop where
  keys :
    ∀ e ∈ entries, ∃ s : String, e.1 = .str s
      ∧ (s ∈ sectionNames
        ∨ (s = "yield_"
          ∧ Value.hasField entries "yield" = false))
  bindings :
    ∃ items, Holds entries "let" items
      ∧ c.bindings = .list items
  projection :
    ∃ items,
      (Holds entries "yield" items
          ∨ (Value.field? entries "yield" = none
            ∧ Holds entries "yield_" items))
        ∧ c.projection = .list items
  clauses :
    ∃ items,
      (Holds entries "where" items ∧ items ≠ []
          ∧ ∀ v ∈ items, IsClauseMap v)
        ∧ c.clauses = .list items
  preds :
    ∃ items,
      ((Holds entries "preds" items
            ∨ (Value.field? entries "preds" = none
              ∧ items = []))
          ∧ ∀ v ∈ items, IsCall v)
        ∧ c.preds = .list items
  rules :
    ∃ items,
      ((Holds entries "rules" items
            ∨ (Value.field? entries "rules" = none
              ∧ items = []))
          ∧ ∀ v ∈ items, IsCall v)
        ∧ c.rules = .list items

/- Nothing is wrong with the name of a section as a key. -/
theorem keyProblem?_eq_none_iff {key : Value} :
    keyProblem? entries key = none ↔
      ∃ s : String, key = .str s
        ∧ (s ∈ sectionNames
          ∨ (s = "yield_"
            ∧ Value.hasField entries "yield" = false)) := by
  cases key with
  | str s =>
      simp only [keyProblem?, Value.str.injEq, exists_eq_left']
      split
      next hName => simp [List.contains_iff_mem.mp hName]
      next hName =>
        rw [List.contains_iff_mem] at hName
        split <;> simp_all
  | _ => simp [keyProblem?]

/- A context is read strictly if it passes. -/
theorem ofEntries_eq_ok_iff :
    ofEntries entries = .ok c ↔ PassesStrictly entries c := by
  have hStray :
      entries.filterMap (fun e => keyProblem? entries e.1) = []
        ↔ ∀ e ∈ entries, ∃ s : String, e.1 = .str s
          ∧ (s ∈ sectionNames
            ∨ (s = "yield_"
              ∧ Value.hasField entries "yield" = false)) := by
    simp only [List.filterMap_eq_nil_iff, keyProblem?_eq_none_iff]
  unfold ofEntries
  dsimp only
  constructor
  · intro h
    split at h
    next b p q r s _ hB hP hQ hR hS hKeys =>
      rw [Except.ok.injEq] at h
      subst h
      exact
        { keys := hStray.mp hKeys
          bindings := ⟨_, readRequired_eq_ok_iff.mp hB, rfl⟩
          projection := ⟨_, readProjection_eq_ok_iff.mp hP, rfl⟩
          clauses := ⟨_, readClauses_eq_ok_iff.mp hQ, rfl⟩
          preds := ⟨_, readCalls_eq_ok_iff.mp hR, rfl⟩
          rules := ⟨_, readCalls_eq_ok_iff.mp hS, rfl⟩ }
    · cases h
  · intro h
    rcases h.bindings with ⟨b, hB, hBindings⟩
    rcases h.projection with ⟨p, hP, hProjection⟩
    rcases h.clauses with ⟨q, hQ, hClauses⟩
    rcases h.preds with ⟨r, hR, hPreds⟩
    rcases h.rules with ⟨s, hS, hRules⟩
    rw [readRequired_eq_ok_iff.mpr hB,
      readProjection_eq_ok_iff.mpr hP,
      readClauses_eq_ok_iff.mpr hQ, readCalls_eq_ok_iff.mpr hR,
      readCalls_eq_ok_iff.mpr hS, hStray.mpr h.keys]
    change
      Except.ok
          (ContextOf.mk (.list b) (.list p) (.list q) (.list r)
            (.list s))
        = Except.ok c
    rw [← hBindings, ← hProjection, ← hClauses, ← hPreds,
      ← hRules]

/-
  A map passes the lenient reading as a context: the required
  sections are there, and are taken as they are.
-/
structure PassesLeniently
    (entries : List (Value × Value))
    (c : Context) : Prop where
  bindings : Value.field? entries "let" = some c.bindings
  projection : Value.field? entries "yield" = some c.projection
  clauses : Value.field? entries "where" = some c.clauses
  preds : c.preds = optionalSection entries "preds"
  rules : c.rules = optionalSection entries "rules"

/- A context is read leniently if it passes. -/
theorem ofMap_eq_ok_iff :
    ofMap (.map entries) = .ok c
      ↔ PassesLeniently entries c := by
  unfold ofMap
  constructor
  · intro h
    dsimp only at h
    split at h
    next b p q hB hP hQ =>
      rw [Except.ok.injEq] at h
      subst h
      exact ⟨hB, hP, hQ, rfl, rfl⟩
    · cases h
  · rintro ⟨hB, hP, hQ, hR, hS⟩
    dsimp only
    rw [hB, hP, hQ]
    change Except.ok (ContextOf.mk _ _ _ _ _) = Except.ok c
    rw [← hR, ← hS]

/-
  A context is taken from a value, strictly or leniently.  One
  that is given as such is looked through again only if the
  reading is strict.
-/
inductive TakenFrom : Bool → Value → Context → Prop where
  | strictMap
      {entries : List (Value × Value)}
      {c : Context}
      (h : PassesStrictly entries c) :
      TakenFrom true (.map entries) c
  | strictContext
      {given c : Context}
      (h : PassesStrictly (toRecord given) c) :
      TakenFrom true (.context given) c
  | lenientMap
      {entries : List (Value × Value)}
      {c : Context}
      (h : PassesLeniently entries c) :
      TakenFrom false (.map entries) c
  | lenientContext (c : Context) :
      TakenFrom false (.context c) c

end Context

/- What is read is what can be taken. -/
theorem readContext_eq_ok_iff
    {o : CompileOptions}
    {v : Value}
    {c : Context} :
    readContext o v = .ok c ↔ Context.TakenFrom o.strict v c := by
  unfold readContext
  cases hStrict : o.strict with
  | true =>
      rw [if_pos rfl]
      constructor
      · intro h
        unfold Context.readStrictly at h
        split at h
        · exact .strictContext (Context.ofEntries_eq_ok_iff.mp h)
        · exact .strictMap (Context.ofEntries_eq_ok_iff.mp h)
        · cases h
      · intro h
        cases h with
        | strictMap h => exact Context.ofEntries_eq_ok_iff.mpr h
        | strictContext h =>
            exact Context.ofEntries_eq_ok_iff.mpr h
  | false =>
      rw [if_neg nofun]
      constructor
      · intro h
        unfold Context.readLeniently at h
        split at h
        · rw [Except.ok.injEq] at h
          exact h ▸ .lenientContext _
        · exact .lenientMap (Context.ofMap_eq_ok_iff.mp h)
        · cases h
      · intro h
        cases h with
        | lenientMap h => exact Context.ofMap_eq_ok_iff.mpr h
        | lenientContext => rfl

------------------------------------------------------------
-- Clauses and Bindings
------------------------------------------------------------

/- The items of a sequence, and none of any other value. -/
def Value.itemsOf (v : Value) : List Value :=
  v.sequence?.getD []

/- The clauses that a map stands for, which names an entity. -/
def Clause.described (v : Value) : List Clause :=
  match v with
  | .map entries =>
      match Value.field? entries entityKey with
      | some entity => ofEntries (Term.ofValue entity) entries
      | none => []
  | _ => []

/- Maps that name entities stand for their clauses in order. -/
theorem Clause.ofMapsFrom_eq_ok_iff
    {i : Nat}
    {maps : List Value}
    {clauses : List Clause} :
    ofMapsFrom i maps = .ok clauses ↔
      (∀ v ∈ maps, Context.IsClauseMap v)
        ∧ clauses = maps.flatMap described := by
  induction maps generalizing i clauses with
  | nil =>
      rw [ofMapsFrom, Except.ok.injEq]
      simp [eq_comm]
  | cons v vs ih =>
      have hFirst :
          ∀ found, ofMap i v = .ok found ↔
            Context.IsClauseMap v ∧ found = described v := by
        intro found
        cases v with
        | map entries =>
            simp only [ofMap, described, Context.IsClauseMap,
              Value.hasField, Value.map.injEq, exists_eq_left']
            cases Value.field? entries entityKey with
            | none => simp
            | some entity => simp [eq_comm]
        | _ => simp [ofMap, Context.IsClauseMap]
      rw [ofMapsFrom, bind_eq_ok, List.forall_mem_cons,
        List.flatMap_cons]
      constructor
      · rintro ⟨found, hFound, hRest⟩
        rcases bind_eq_ok.mp hRest with ⟨rest, hTail, hEq⟩
        rcases (hFirst _).mp hFound with ⟨hMap, rfl⟩
        rcases ih.mp hTail with ⟨hMaps, rfl⟩
        exact ⟨⟨hMap, hMaps⟩, (pure_eq_ok.mp hEq).symm⟩
      · rintro ⟨⟨hMap, hMaps⟩, rfl⟩
        refine ⟨_, (hFirst _).mpr ⟨hMap, rfl⟩, ?_⟩
        exact
          bind_eq_ok.mpr ⟨_, ih.mpr ⟨hMaps, rfl⟩, rfl⟩

/- A section stands for clauses if it has maps, and only those. -/
theorem Clause.ofMaps_eq_ok_iff
    {v : Value}
    {clauses : List Clause} :
    ofMaps v = .ok clauses ↔
      (∃ maps, v.sequence? = some maps ∧ maps ≠ []
          ∧ ∀ m ∈ maps, Context.IsClauseMap m)
        ∧ clauses = v.itemsOf.flatMap described := by
  unfold ofMaps Value.itemsOf
  rcases v.sequence? with _ | _ | ⟨m, maps⟩
  · simp
  · simp
  · simp [ofMapsFrom_eq_ok_iff]

/- Every second item, from the first one on. -/
def everyOther {α : Type} : List α → List α
  | [] => []
  | [x] => [x]
  | x :: _ :: rest => x :: everyOther rest

/- It has the items at even places. -/
theorem getElem?_everyOther
    {α : Type}
    (items : List α)
    (i : Nat) : (everyOther items)[i]? = items[2 * i]? := by
  induction items using everyOther.induct generalizing i with
  | case1 => simp [everyOther]
  | case2 x => cases i <;> simp [everyOther]
  | case3 x y rest ih =>
      cases i with
      | zero => rfl
      | succ i =>
          rw [everyOther, List.getElem?_cons_succ, ih,
            Nat.mul_succ, List.getElem?_cons_succ,
            List.getElem?_cons_succ]

/- Bindings are split if they come in pairs. -/
theorem Bindings.split_eq_ok_iff
    {v : Value}
    {pair : List Value × List Value} :
    split v = .ok pair ↔
      (∃ items, v.sequence? = some items
          ∧ items.length % 2 = 0)
        ∧ pair
          = (everyOther v.itemsOf, everyOther (v.itemsOf.drop 1)) := by
  have hAlternate :
      ∀ items : List Value, items.length % 2 = 0 →
        alternate items
          = (everyOther items, everyOther (items.drop 1)) := by
    intro items hEven
    induction items using everyOther.induct with
    | case1 => rfl
    | case2 x => simp at hEven
    | case3 x y rest ih =>
        have hRest : rest.length % 2 = 0 := by
          simp only [List.length_cons] at hEven
          omega
        rw [alternate, ih hRest]
        cases rest <;> rfl
  unfold split Value.itemsOf
  cases v.sequence? with
  | none => simp
  | some items =>
      by_cases hEven : items.length % 2 = 0
      · simp [hEven, hAlternate items hEven, eq_comm]
      · simp [hEven]

/- A section that must be a sequence has its items. -/
theorem orderedSection_eq_ok_iff
    {name : String}
    {v : Value}
    {items : List Value} :
    orderedSection name v = .ok items ↔
      v.sequence?.isSome = true ∧ items = v.itemsOf := by
  unfold orderedSection Value.itemsOf
  cases v.sequence? <;> simp [eq_comm]

/- Taking a context apart succeeds where its sections allow it. -/
theorem ContextParts.ofContext_eq_ok_iff
    {c : Context}
    {p : ContextParts} :
    ofContext c = .ok p ↔
      (∃ maps, c.clauses.sequence? = some maps ∧ maps ≠ []
          ∧ ∀ m ∈ maps, Context.IsClauseMap m)
        ∧ (∃ items, c.bindings.sequence? = some items
          ∧ items.length % 2 = 0)
        ∧ c.projection.sequence?.isSome = true
        ∧ c.preds.sequence?.isSome = true
        ∧ c.rules.sequence?.isSome = true
        ∧ p =
          ofSections (c.clauses.itemsOf.flatMap Clause.described)
            (everyOther c.bindings.itemsOf,
              everyOther (c.bindings.itemsOf.drop 1))
            c.projection.itemsOf c.preds.itemsOf
            c.rules.itemsOf := by
  unfold ofContext
  simp only [bind_eq_ok, pure_eq_ok, Clause.ofMaps_eq_ok_iff,
    Bindings.split_eq_ok_iff, orderedSection_eq_ok_iff]
  constructor
  · rintro ⟨_, ⟨hClauses, rfl⟩, _, ⟨hBindings, rfl⟩, _,
      ⟨hProjection, rfl⟩, _, ⟨hPreds, rfl⟩, _, ⟨hRules, rfl⟩,
      rfl⟩
    exact
      ⟨hClauses, hBindings, hProjection, hPreds, hRules, rfl⟩
  · rintro ⟨hClauses, hBindings, hProjection, hPreds, hRules,
      rfl⟩
    exact
      ⟨_, ⟨hClauses, rfl⟩, _, ⟨hBindings, rfl⟩, _,
        ⟨hProjection, rfl⟩, _, ⟨hPreds, rfl⟩, _, ⟨hRules, rfl⟩,
        rfl⟩

------------------------------------------------------------
-- Counting Variables
------------------------------------------------------------

namespace Value

/- The leaves of two lists follow one another. -/
theorem leavesOf_append (vs ws : List Value) :
    leavesOf (vs ++ ws) = leavesOf vs ++ leavesOf ws := by
  induction vs with
  | nil => rw [leavesOf]; rfl
  | cons v vs ih =>
      rw [List.cons_append, leavesOf, leavesOf, ih,
        List.append_assoc]

/- What is collected from pending items are their leaves. -/
theorem flattenPending_eq_leavesOf (vs : List Value) :
    flattenPending vs = leavesOf vs := by
  induction vs using flattenPending.induct with
  | case1 => rw [flattenPending, leavesOf]
  | case2 items rest _ ih =>
      rw [flattenPending, ih, leavesOf_append, leavesOf, leaves]
  | case3 items rest _ ih =>
      rw [flattenPending, ih, leavesOf_append, leavesOf, leaves]
  | case4 v rest hList hTuple ih =>
      rw [flattenPending, ih, leavesOf, leaves]
      · rfl
      all_goals assumption

/-
  A value that names a variable is a wildcard or a regular
  variable by the mark of its name; any other is neither.
-/
theorem ofValue_cases (v : Value) :
    (∃ name, v.variableName? = some name
        ∧ Term.ofValue v
          = if endsWithMark name then .wildcard name
            else .var name)
      ∨ (v.variableName? = none ∧ ∃ w, Term.ofValue v = .lit w) := by
  unfold Term.ofValue
  split
  next w => exact .inr ⟨rfl, w, rfl⟩
  next =>
    split
    next name hName => exact .inl ⟨name, hName, rfl⟩
    next hName => exact .inr ⟨hName, v, rfl⟩

/- A term has the name of the variable that its value names. -/
theorem name?_ofValue (v : Value) :
    (Term.ofValue v).name? = v.variableName? := by
  rcases ofValue_cases v with
    ⟨name, hName, hTerm⟩ | ⟨hName, w, hTerm⟩
  · rw [hTerm, hName]
    split <;> rfl
  · rw [hTerm, hName]
    rfl

/- The name of a regular variable has no mark. -/
theorem regularName?_eq (v : Value) :
    v.regularName?
      = v.variableName?.filter (fun n => !endsWithMark n) := by
  unfold regularName?
  rcases ofValue_cases v with
    ⟨name, hName, hTerm⟩ | ⟨hName, w, hTerm⟩
  · rw [hTerm, hName, Option.filter_some]
    cases endsWithMark name <;> rfl
  · rw [hTerm, hName]
    rfl

/- The name of a wildcard has the mark. -/
theorem wildcardName?_eq (v : Value) :
    v.wildcardName? = v.variableName?.filter endsWithMark := by
  unfold wildcardName?
  rcases ofValue_cases v with
    ⟨name, hName, hTerm⟩ | ⟨hName, w, hTerm⟩
  · rw [hTerm, hName, Option.filter_some]
    cases endsWithMark name <;> rfl
  · rw [hTerm, hName]
    rfl

end Value

/-
  The names of variables are used as they should: none without
  the mark occurs once, and none with it more often.
-/
def UsedWell (names : List String) : Prop :=
  ∀ name,
    if endsWithMark name then names.count name ≤ 1
    else names.count name ≠ 1

/- The regular variables are those without the mark. -/
theorem SymbolReport.regularNames_eq (symbols : List Value) :
    symbols.filterMap Value.regularName?
      = (symbols.filterMap Value.variableName?).filter
        (fun n => !endsWithMark n) := by
  rw [List.filter_filterMap]
  exact congrArg (symbols.filterMap ·) (funext Value.regularName?_eq)

/- The wildcards are those with the mark. -/
theorem SymbolReport.wildcardNames_eq (symbols : List Value) :
    symbols.filterMap Value.wildcardName?
      = (symbols.filterMap Value.variableName?).filter
        endsWithMark := by
  rw [List.filter_filterMap]
  exact congrArg (symbols.filterMap ·) (funext Value.wildcardName?_eq)

/- A report is clean if the variables are used well. -/
theorem SymbolReport.check_ofSymbols_iff
    {symbols : List Value} :
    (ofSymbols symbols).check = .ok ()
      ↔ UsedWell (symbols.filterMap Value.variableName?) := by
  have hCheck :
      ∀ r : SymbolReport, r.check = .ok () ↔ r.faults = [] := by
    intro r
    unfold check
    cases r.faults <;> simp
  rw [hCheck, faults_eq_nil_iff]
  unfold ofSymbols
  rw [regularNames_eq, wildcardNames_eq]
  generalize symbols.filterMap Value.variableName? = names
  simp only [ok, Bool.and_eq_true, List.isEmpty_iff,
    List.filter_eq_nil_iff, List.mem_filter,
    List.mem_eraseDups, Bool.not_eq_true', beq_iff_eq,
    decide_eq_true_eq, and_imp]
  constructor
  · rintro ⟨hOrphans, hOverused⟩ name
    split
    next hMark =>
      refine Nat.le_of_not_lt ?_
      intro hMany
      have hMem : name ∈ names :=
        List.count_pos_iff.mp (by omega)
      refine hOverused name hMem hMark ?_
      rwa [List.count_filter hMark]
    next hMark =>
      intro hOnce
      rw [Bool.not_eq_true] at hMark
      have hMem : name ∈ names :=
        List.count_pos_iff.mp (by omega)
      refine hOrphans name hMem hMark ?_
      rwa [List.count_filter (by simpa using hMark)]
  · intro hUsed
    constructor
    · intro name _ hMark
      have hCount := hUsed name
      rw [if_neg (by simp [hMark])] at hCount
      rwa [List.count_filter (by simpa using hMark)]
    · intro name _ hMark
      have hCount := hUsed name
      rw [if_pos hMark] at hCount
      rw [List.count_filter hMark]
      omega

/- The names of the variables that a clause mentions. -/
def Clause.names (t : Clause) : List String :=
  [t.entity, t.attr, t.value].filterMap Term.name?

/- The names of the variables that values name, part by part. -/
def Value.variablesOf (vs : List Value) : List String :=
  (leavesOf vs).filterMap variableName?

/- A clause as a tuple has the variables of the clause. -/
theorem Value.variablesOf_toValue (clauses : List Clause) :
    variablesOf (clauses.map Clause.toValue)
      = clauses.flatMap Clause.names := by
  have hTerm :
      ∀ t : Term,
        (leaves t.toValue).filterMap variableName?
          = [t].filterMap Term.name? := by
    intro t
    cases t <;> rfl
  unfold variablesOf
  induction clauses with
  | nil => rfl
  | cons t rest ih =>
      rw [List.map_cons, leavesOf, List.filterMap_append, ih,
        List.flatMap_cons]
      simp only [Clause.toValue, leaves, leavesOf,
        List.filterMap_append, hTerm, Clause.names,
        List.append_nil]
      rw [← List.filterMap_append, ← List.filterMap_append]
      rfl

/- The names of variables are collected section by section. -/
theorem variableNames_querySymbols
    (clauses : List Clause)
    (bindings projection rules : List Value) :
    (querySymbols (clauses.map Clause.toValue) bindings
        projection rules).filterMap Value.variableName?
      = clauses.flatMap Clause.names
        ++ Value.variablesOf bindings
        ++ Value.variablesOf projection
        ++ Value.variablesOf rules := by
  have hNamed :
      ∀ v : Value,
        (if (Term.ofValue v).name?.isSome then v.variableName?
          else none)
          = v.variableName? := by
    intro v
    rw [Value.name?_ofValue]
    cases v.variableName? <;> rfl
  unfold querySymbols Value.flatten
  rw [Value.flattenPending_eq_leavesOf,
    ← Value.variablesOf_toValue, List.filterMap_filter]
  simp only [hNamed, Value.leavesOf, Value.leaves,
    List.append_nil, List.filterMap_append, Value.variablesOf,
    List.append_assoc]

/- The report is clean if the variables are used well. -/
theorem ContextParts.check_symbolReport_iff (p : ContextParts) :
    p.symbolReport.check = .ok () ↔
      UsedWell
        (p.clauses.flatMap Clause.names
          ++ Value.variablesOf p.parts.bound
          ++ Value.variablesOf p.parts.projection
          ++ Value.variablesOf p.parts.rules) := by
  unfold symbolReport
  rw [SymbolReport.check_ofSymbols_iff,
    variableNames_querySymbols]

------------------------------------------------------------
-- Attributes
------------------------------------------------------------

/- All attributes are declared if no clause names another. -/
theorem ContextParts.checkAttributes_iff
    {o : CompileOptions}
    {p : ContextParts} :
    p.checkAttributes o = .ok () ↔
      ∀ r, o.strict = true → o.attributes = some r →
        ∀ t ∈ p.clauses, ∀ s,
          t.attr = .lit (.str s) → r.declares s = true := by
  have hNamed :
      ∀ (t : Clause) (s : String),
        t.attribute? = some s ↔ t.attr = .lit (.str s) := by
    intro t s
    unfold Clause.attribute?
    split
    next s' hAttr => simp [hAttr]
    next hOther =>
      exact iff_of_false nofun (fun hAttr => hOther s hAttr)
  have hNone :
      p.checkAttributes o = .ok () ↔ p.undeclared o = [] := by
    unfold checkAttributes
    cases p.undeclared o <;> simp
  rw [hNone]
  unfold undeclared CompileOptions.registry?
  cases hStrict : o.strict with
  | false => simp
  | true =>
      cases hRegistry : o.attributes with
      | none => simp
      | some r =>
          simp only [if_true, Registry.undeclared,
            Clause.attributes, List.filter_eq_nil_iff,
            List.mem_eraseDups, List.mem_filterMap, hNamed,
            Bool.not_eq_true', Bool.not_eq_false]
          constructor
          · rintro h _ _ ⟨⟩ t ht s hs
            exact h s ⟨t, ht, hs⟩
          · rintro h s ⟨t, ht, hs⟩
            exact h r trivial rfl t ht s hs

------------------------------------------------------------
-- Contexts and Documents
------------------------------------------------------------

namespace Context

/- The clauses that a context stands for, map by map. -/
def triples (c : Context) : List Clause :=
  c.clauses.itemsOf.flatMap Clause.described

/-
  The variables of a context, as often as they occur: in its
  clauses, its bindings, its projection and its rules.
-/
def names (c : Context) : List String :=
  c.triples.flatMap Clause.names
    ++ Value.variablesOf (everyOther c.bindings.itemsOf)
    ++ Value.variablesOf c.projection.itemsOf
    ++ Value.variablesOf c.rules.itemsOf

/-
  A context is well-formed.  It has maps for clauses and pairs
  for bindings, its other sections are sequences, its
  variables are used well, and where there is a strict
  registry, it declares the attributes that clauses name.
-/
structure WellFormed
    (o : CompileOptions)
    (c : Context) : Prop where
  clauses :
    ∃ maps, c.clauses.sequence? = some maps ∧ maps ≠ []
      ∧ ∀ m ∈ maps, IsClauseMap m
  bindings :
    ∃ items, c.bindings.sequence? = some items
      ∧ items.length % 2 = 0
  projection : c.projection.sequence?.isSome = true
  preds : c.preds.sequence?.isSome = true
  rules : c.rules.sequence?.isSome = true
  used : UsedWell c.names
  declared :
    ∀ r, o.strict = true → o.attributes = some r →
      ∀ t ∈ c.triples, ∀ s,
        t.attr = .lit (.str s) → r.declares s = true

/-
  The document of a context.  Its inputs are the bound
  variables and its arguments their sources.  The clauses
  come first, then each predicate on its own, then the rules.
-/
def document (c : Context) : QueryDocument where
  find := c.projection.itemsOf
  inputs :=
    (everyOther c.bindings.itemsOf).map
      (fun v => (Term.ofValue v).token)
  clauses :=
    c.triples.map
        (fun t =>
          .tuple [t.entity.token, t.attr.token, t.value.token])
      ++ c.preds.itemsOf.map (fun p => .tuple [p])
      ++ c.rules.itemsOf
  args := everyOther (c.bindings.itemsOf.drop 1)
  labels := c.projection.itemsOf.map projectionLabel?

variable {o : CompileOptions}
variable {c : Context}

/- A context taken apart. -/
def taken (c : Context) : ContextParts :=
  .ofSections c.triples
    (everyOther c.bindings.itemsOf,
      everyOther (c.bindings.itemsOf.drop 1))
    c.projection.itemsOf c.preds.itemsOf c.rules.itemsOf

/- All checks are passed if the context is well-formed. -/
theorem passes_checks_iff {p : ContextParts} :
    (ContextParts.ofContext c = .ok p
        ∧ p.symbolReport.check = .ok ()
        ∧ p.checkAttributes o = .ok ())
      ↔ c.WellFormed o ∧ p = c.taken := by
  rw [ContextParts.ofContext_eq_ok_iff,
    ContextParts.check_symbolReport_iff,
    ContextParts.checkAttributes_iff]
  constructor
  · rintro ⟨⟨hClauses, hBindings, hProjection, hPreds, hRules,
      rfl⟩, hUsed, hDeclared⟩
    exact
      ⟨⟨hClauses, hBindings, hProjection, hPreds, hRules,
        hUsed, hDeclared⟩, rfl⟩
  · rintro ⟨h, rfl⟩
    exact
      ⟨⟨h.clauses, h.bindings, h.projection, h.preds, h.rules,
        rfl⟩, h.used, h.declared⟩

/- What is taken apart is put together as the document. -/
theorem assemble_taken (c : Context) :
    QueryDocument.assemble c.taken.parts = c.document := by
  simp only [taken, QueryDocument.assemble,
    ContextParts.ofSections, document, List.map_map]
  rfl

end Context

section Compiling

variable {o : CompileOptions}
variable {v : Value}
variable {c : Context}
variable {d : QueryDocument}

/- What compiles was taken as a context and is well-formed. -/
theorem exists_taken_of_compileQuery
    (h : compileQuery o v = .ok d) :
    ∃ c, Context.TakenFrom o.strict v c
      ∧ c.WellFormed o ∧ d = c.document := by
  unfold compileQuery at h
  rcases bind_eq_ok.mp h with ⟨c, hRead, hRest⟩
  rcases bind_eq_ok.mp hRest with ⟨p, hTaken, hRest⟩
  rcases bind_eq_ok.mp hRest with ⟨⟨⟩, hSymbols, hRest⟩
  rcases bind_eq_ok.mp hRest with ⟨⟨⟩, hAttributes, hEq⟩
  rcases Context.passes_checks_iff.mp
      ⟨hTaken, hSymbols, hAttributes⟩ with
    ⟨hWell, rfl⟩
  rw [pure_eq_ok, Context.assemble_taken] at hEq
  exact ⟨c, readContext_eq_ok_iff.mp hRead, hWell, hEq.symm⟩

/- What was taken as a context and is well-formed compiles. -/
theorem compileQuery_of_wellFormed
    (hTaken : Context.TakenFrom o.strict v c)
    (hWell : c.WellFormed o) :
    compileQuery o v = .ok c.document := by
  rcases Context.passes_checks_iff.mpr ⟨hWell, rfl⟩ with
    ⟨hParts, hSymbols, hAttributes⟩
  unfold compileQuery
  rw [readContext_eq_ok_iff.mpr hTaken, ok_bind, hParts, ok_bind,
    hSymbols, ok_bind, hAttributes, ok_bind,
    Context.assemble_taken]
  rfl

/- What was read is well-formed if it compiles. -/
theorem wellFormed_of_compileQuery
    (hRead : readContext o v = .ok c)
    (h : compileQuery o v = .ok d) :
    c.WellFormed o ∧ d = c.document := by
  rcases exists_taken_of_compileQuery h with
    ⟨c', hTaken, hWell, hEq⟩
  have hSame := readContext_eq_ok_iff.mpr hTaken
  rw [hRead, Except.ok.injEq] at hSame
  subst hSame
  exact ⟨hWell, hEq⟩

end Compiling

/-
  A context compiles exactly if it can be taken as one by the
  mode of the options and is well-formed, and it compiles to
  the document of what was taken.
-/
theorem compileQuery_eq_ok_iff
    {o : CompileOptions}
    {v : Value}
    {d : QueryDocument} :
    compileQuery o v = .ok d ↔
      ∃ c, Context.TakenFrom o.strict v c
        ∧ c.WellFormed o ∧ d = c.document := by
  refine ⟨exists_taken_of_compileQuery, ?_⟩
  rintro ⟨c, hTaken, hWell, rfl⟩
  exact compileQuery_of_wellFormed hTaken hWell

end FactBase
