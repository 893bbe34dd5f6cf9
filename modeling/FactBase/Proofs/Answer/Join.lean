import FactBase.Proofs.Answer.Settled
import FactBase.Proofs.Fact.Invariant

/-
  This file shows that a query returns what it means: from
  all choices for the inputs and all combinations of facts,
  in order, those that fit and agree.  The search of the
  query prunes them on the way, and it may do so where the
  values in play are no truth values and no floats and
  references are integers.

  Key definitions include:
    * `Inputs.offers`
    * `Call.starts`
    * `Call.Regular`

  Key theorems include:
    * `Inputs.assignments_ofArguments`
    * `Call.evaluate_of_settled`
    * `Call.evaluate_eq_meaning`
    * `evaluate_ne_meaning_retyped`
-/

------------------------------------------------------------
-- Inputs
------------------------------------------------------------

namespace FactBase

open Sorting

namespace Inputs

variable {inputs after : Inputs}

/-
  What an input offers to bind: nothing for a source, one
  value for a variable, and one of the members of a value for
  a collection.
-/
def offers (input : Value × Value) : List (List Mark) :=
  match input.1.str? with
  | some name =>
      if namesSource name then [[]]
      else [[(name, .fresh input.2)]]
  | none =>
      match input.1.sequence? with
      | some (.str name :: _) =>
          (input.2.items?.getD []).map
            (fun x => [(name, .fresh x)])
      | _ => []

/- What binding each member leaves. -/
private theorem assignments_bindEach
    {name : String}
    {v : Value}
    (h : inputs.bindEach name v = .ok after) :
    after.source = inputs.source
      ∧ after.assignments =
          inputs.assignments.flatMap (fun σ =>
            (v.items?.getD []).map
              (fun x => σ.set name (.fresh x))) := by
  unfold bindEach at h
  rcases bind_eq_ok.mp h with ⟨each, hEach, hEq⟩
  rw [pure_eq_ok] at hEq
  subst hEq
  refine ⟨rfl, ?_⟩
  rw [Outcome.mapM_eq_ok] at hEach
  clear h
  simp only
  generalize inputs.assignments = σs at hEach
  induction hEach with
  | nil => rfl
  | cons hHead _ ih =>
      rcases bind_eq_ok.mp hHead with ⟨items, hItems, hEq⟩
      rw [pure_eq_ok] at hEq
      have hFound : v.items? = some items := by
        unfold Value.items at hItems
        cases hAll : v.items? with
        | none =>
            rw [hAll] at hItems
            cases hItems
        | some all =>
            rw [hAll, Except.ok.injEq] at hItems
            rw [hItems]
      rw [List.flatten_cons, List.flatMap_cons, ih, ← hEq,
        hFound]
      rfl

/- An input is a source, a variable, or a collection. -/
theorem bind_cases
    {input : Value × Value}
    (h : inputs.bind input = .ok after) :
    (∃ name db, input.1 = .str name ∧ namesSource name = true
        ∧ input.2 = .database db
        ∧ after = { inputs with source := some db })
      ∨ (∃ name, input.1 = .str name ∧ namesSource name = false
          ∧ after = inputs.bindOne name input.2)
      ∨ ∃ name,
          input.1.sequence? = some [.str name, .str "..."]
            ∧ inputs.bindEach name input.2 = .ok after := by
  rcases input with ⟨binding, v⟩
  unfold Inputs.bind at h
  simp only at h
  split at h
  next name =>
    cases hName : namesSource name with
    | true =>
        rw [hName, if_pos rfl] at h
        unfold bindSource at h
        split at h
        · split at h
          next db =>
            have hEq := Except.ok.inj h
            exact .inl ⟨name, db, rfl, hName, rfl, hEq.symm⟩
          next => cases h
        · cases h
    | false =>
        simp only [hName, Bool.false_eq_true, if_false] at h
        split at h
        · have hEq := Except.ok.inj h
          exact .inr (.inl ⟨name, rfl, hName, hEq.symm⟩)
        · cases h
  next =>
    split at h
    next name hItems =>
      split at h
      · exact .inr (.inr ⟨name, hItems, h⟩)
      · cases h
    next => cases h

/- Binding an input takes each of its offers. -/
theorem assignments_bind
    {input : Value × Value}
    (h : inputs.bind input = .ok after) :
    after.assignments =
      inputs.assignments.flatMap (fun σ =>
        (offers input).map σ.extended) := by
  rcases bind_cases h with
    ⟨name, db, hName, hSource, _, rfl⟩ | ⟨name, hName, hOther, rfl⟩
      | ⟨name, hItems, hEach⟩
  · simp [offers, hName, Value.str?, hSource,
      Assignment.extended]
  · simp only [offers, hName, Value.str?, hOther,
      Bool.false_eq_true, if_false]
    exact List.map_eq_flatMap
  · rw [(assignments_bindEach hEach).2]
    apply List.flatMap_congr
    intro σ _
    have hText : input.1.str? = none := by
      cases hBinding : input.1 with
      | str s =>
          rw [hBinding] at hItems
          cases hItems
      | _ => rfl
    simp only [offers, hText, hItems]
    rw [List.map_map]
    rfl

/- All inputs offer a choice each, in order. -/
theorem assignments_foldlM
    {given : List (Value × Value)}
    (h : given.foldlM bind inputs = .ok after) :
    after.assignments =
      inputs.assignments.flatMap (fun σ =>
        (combinations (given.map offers)).map
          (fun picks => σ.extended picks.flatten)) := by
  induction given generalizing inputs with
  | nil =>
      rw [List.foldlM_nil, pure_eq_ok] at h
      subst h
      simp [combinations, Assignment.extended]
  | cons input given ih =>
      rw [List.foldlM_cons] at h
      rcases bind_eq_ok.mp h with ⟨next, hHead, hTail⟩
      rw [ih hTail, assignments_bind hHead, List.flatMap_assoc]
      apply List.flatMap_congr
      intro σ _
      rw [List.map_cons, combinations, List.map_flatMap,
        List.flatMap_map]
      apply List.flatMap_congr
      intro marks _
      rw [List.map_map]
      apply List.map_congr_left
      intro picks _
      simp [Assignment.extended]

/- The choices for the inputs lead to all assignments. -/
theorem assignments_ofArguments
    {bindings args : List Value}
    (h : ofArguments bindings args = .ok inputs) :
    inputs.assignments =
      (combinations ((bindings.zip args).map offers)).map
        (fun picks => Assignment.extended [] picks.flatten) := by
  unfold ofArguments at h
  split at h
  · cases h
  · rw [assignments_foldlM h]
    simp [empty]

/- The source is the database that is given for it. -/
theorem source_ofArguments
    {bindings args : List Value}
    {db db' : Database}
    (h : ofArguments bindings args = .ok inputs)
    (hGiven :
      ∀ input ∈ bindings.zip args, ∀ name,
        input.1 = .str name → namesSource name = true →
          input.2 = .database db)
    (hSource : inputs.source = some db') : db' = db := by
  unfold ofArguments at h
  split at h
  · cases h
  · apply
      Outcome.foldlM_invariant
        (fun inputs => ∀ other, inputs.source = some other →
          other = db) ?_ h ?_ db' hSource
    · intro input hInput before after hBind hBefore
      rcases bind_cases hBind with
        ⟨name, other, hName, hIs, hValue, rfl⟩
          | ⟨_, _, _, rfl⟩ | ⟨_, _, hEach⟩
      · intro found hFound
        rw [hGiven input hInput name hName hIs] at hValue
        rw [← Option.some.inj hFound]
        exact (Value.database.inj hValue).symm
      · exact hBefore
      · rw [(assignments_bindEach hEach).1]
        exact hBefore
    · intro other hNone
      cases hNone

end Inputs

------------------------------------------------------------
-- Regular Calls
------------------------------------------------------------

/- A value that is neither a truth value nor a float. -/
def Value.whole : Value → Bool
  | .bool _ => false
  | .float _ => false
  | _ => true

/- A whole value that equals an integer is the integer. -/
theorem Value.eq_int_of_equal
    {v : Value}
    {n : Int}
    (hWhole : v.whole = true)
    (hEqual : v.equal (.int n) = true) : v = .int n := by
  have hSame := same_of_equal hEqual
  cases v with
  | int k =>
      simp only [same, isInt, beq_iff_eq] at hSame
      rw [hSame]
  | bool b => cases hWhole
  | float x => cases hWhole
  | _ => simp [same] at hSame

/- What equals an integer, without truth values, is one. -/
theorem Value.isSome_int?_of_equal
    {v w : Value}
    (hNumber : v.int?.isSome = true)
    (hWhole : v.whole = true)
    (hWhole' : w.whole = true)
    (hEqual : w.equal v = true) : w.int?.isSome = true := by
  cases v with
  | int n =>
      rw [eq_int_of_equal hWhole' hEqual]
      rfl
  | bool b => cases hWhole
  | _ => cases hNumber

/- The assignments to start from: all choices for the inputs. -/
def Call.starts (c : Call) : List Assignment :=
  (combinations ((c.inputs.zip c.args).map Inputs.offers)).map
    (fun picks => Assignment.extended [] picks.flatten)

/-
  A call asks a database for facts about given attributes.
  Neither its inputs nor the facts in question have truth
  values or floats, and references that a shared variable may
  have are integers.
-/
structure Call.Regular
    (c : Call)
    (db : Database) : Prop where
  source :
    ∀ input ∈ c.inputs.zip c.args, ∀ name,
      input.1 = .str name → Inputs.namesSource name = true →
        input.2 = .database db
  inputs :
    ∀ input ∈ c.inputs.zip c.args,
      ∀ marks ∈ Inputs.offers input, ∀ m ∈ marks,
        m.2.value.proper = true ∧ m.2.value.whole = true
  tests : ∀ expr, .test expr ∈ c.goals → expr.proper = true
  attrs :
    ∀ items, .pattern items ∈ c.goals →
      (Pattern.ofItems items).attr.slot? = none
  facts :
    ∀ items, .pattern items ∈ c.goals →
      ∀ d ∈ db.datoms, db.concerns items d = true →
        d.value.proper = true ∧ d.value.whole = true
  refs :
    ∀ items, .pattern items ∈ c.goals →
      ∀ x, (Pattern.ofItems items).value.slot? = some x →
        (∃ σ₀ ∈ c.starts, σ₀.Shares c.goals x) →
          ∀ d ∈ db.datoms, db.concerns items d = true →
            db.isRef d.attr = true → d.value.int?.isSome = true

/- The search of a regular call is settled. -/
theorem Call.Regular.settled
    {c : Call}
    {db : Database}
    (h : c.Regular db)
    (hSound : db.Sound)
    {σ₀ : Assignment}
    (hStart : σ₀ ∈ c.starts) :
    db.Settled (fun _ v => v.whole = true) c.goals σ₀ where
  installed := hSound.facts.installed
  integers := fun _ _ => rfl
  given := by
    intro m hm
    rcases List.mem_map.mp hStart with ⟨picks, hPicks, rfl⟩
    rw [Assignment.extended, List.append_nil,
      List.mem_reverse] at hm
    rcases List.mem_flatten.mp hm with ⟨marks, hMarks, hMem⟩
    rcases exists_mem_of_mem_combinations hPicks hMarks with
      ⟨offers, hOffers, hOffer⟩
    rcases List.mem_map.mp hOffers with ⟨input, hInput, rfl⟩
    exact h.inputs input hInput marks hOffer m hMem
  tests := h.tests
  patterns := by
    intro items hItems
    have hAttr := h.attrs items hItems
    refine ⟨?_, ?_, ?_, ?_, ?_⟩
    · intro d hd hConcerns
      exact (h.facts items hItems d hd hConcerns).1
    · intro x _ d hd hConcerns
      exact (h.facts items hItems d hd hConcerns).2
    · intro x _ _ v n hWhole hEqual
      exact Value.eq_int_of_equal hWhole hEqual
    · intro x hSlot
      rw [hAttr] at hSlot
      cases hSlot
    · intro x hSlot hShared _ d hd hConcerns hRef v hWhole hEqual
      have hStored := (h.facts items hItems d hd hConcerns).2
      have hNumber :=
        h.refs items hItems x hSlot ⟨σ₀, hStart, hShared⟩ d hd
          hConcerns hRef
      exact
        Value.isSome_int?_of_equal hNumber hStored hWhole hEqual

/-
  A query of a database whose search is settled returns what
  it means, if it returns rows.
-/
theorem Call.evaluate_of_settled
    {c : Call}
    {db : Database}
    {may : String → Value → Prop}
    (hSource :
      ∀ input ∈ c.inputs.zip c.args, ∀ name,
        input.1 = .str name → Inputs.namesSource name = true →
          input.2 = .database db)
    (hSettled : ∀ σ₀ ∈ c.starts, db.Settled may c.goals σ₀)
    {before after : Growths}
    {rows : List (List Value)}
    (h : c.evaluate.run.run before = (.ok rows, after)) :
    (Solution.rows c.find
        { db := db
          assignments :=
            db.meaning c.goals c.starts }).run.run before
      = (.ok rows, after) := by
  rcases Call.evaluate_eq h with
    ⟨inputs, other, hInputs, hOther, hDecided, hRows⟩
  have hDb : other = db :=
    Inputs.source_ofArguments hInputs hSource hOther
  subst hDb
  have hStarts : inputs.assignments = c.starts :=
    Inputs.assignments_ofArguments hInputs
  rw [hStarts] at hDecided hRows
  rw [Database.map_snd_found_eq hSettled hDecided] at hRows
  exact hRows

/-
  In every database that an engine reaches, a regular query
  that returns rows returns what it means: those of all
  choices for the inputs and all combinations of facts that
  fit and agree, in order.
-/
theorem Call.evaluate_eq_meaning
    {clock : Nat → Int}
    {e : Engine}
    (hRun : Engine.Run (fun _ => True) (Engine.start clock) e)
    {c : Call}
    (hRegular : c.Regular e.db)
    {before after : Growths}
    {rows : List (List Value)}
    (h : c.evaluate.run.run before = (.ok rows, after)) :
    (Solution.rows c.find
        { db := e.db
          assignments :=
            e.db.meaning c.goals c.starts }).run.run before
      = (.ok rows, after) := by
  have hSound : e.db.Sound :=
    (hRun.sound_extends Engine.inherited_true
      (Bootstrap.sound_database _)).1
  exact
    Call.evaluate_of_settled hRegular.source
      (fun σ₀ hσ₀ => hRegular.settled hSound hσ₀) h

/- A query for the entities with one of two given idents. -/
def identCall : Call where
  find := [.str "?e", .str "?name"]
  inputs := [.str "$", .list [.str "?name", .str "..."]]
  clauses :=
    [ .list [.str "?e", .str "db/ident", .str "?name"]
    , .list [.list [.str "<", .str "?e", .int 100]] ]
  args :=
    [ .database (Engine.start (fun _ => 0)).db
    , .list [.str "db/doc", .str "db/index"] ]

/- Its goals: a pattern and a predicate. -/
private theorem goals_identCall :
    identCall.goals =
      [ .pattern [.str "?e", .str "db/ident", .str "?name"]
      , .test (.list [.str "<", .str "?e", .int 100]) ] := rfl

/- There is no other pattern. -/
private theorem eq_of_mem_goals_identCall
    {items : List Value}
    (h : .pattern items ∈ identCall.goals) :
    items = [.str "?e", .str "db/ident", .str "?name"] := by
  rw [goals_identCall] at h
  simp only [List.mem_cons, reduceCtorEq, Goal.pattern.injEq,
    List.not_mem_nil, or_false] at h
  exact h

/- Idents are texts, and the predicate compares with an int. -/
private theorem regular_identCall :
    identCall.Regular (Engine.start (fun _ => 0)).db where
  source := by
    intro input hInput name hName hSource
    simp only [identCall, List.zip_cons_cons, List.zip_nil_left,
      List.mem_cons, List.not_mem_nil, or_false] at hInput
    rcases hInput with rfl | rfl
    · rfl
    · cases hName
  inputs := by
    decide +kernel
  tests := by
    intro expr hExpr
    rw [goals_identCall] at hExpr
    simp only [List.mem_cons, reduceCtorEq, Goal.test.injEq,
      List.not_mem_nil, or_false, false_or] at hExpr
    subst hExpr
    decide
  attrs := by
    intro items hItems
    rw [eq_of_mem_goals_identCall hItems]
    decide
  facts := by
    intro items hItems
    rw [eq_of_mem_goals_identCall hItems]
    decide +kernel
  refs := by
    intro items hItems x _ _
    rw [eq_of_mem_goals_identCall hItems]
    decide +kernel

/- The query means two rows, one for each ident. -/
theorem evaluate_eq_meaning_identCall :
    identCall.Regular (Engine.start (fun _ => 0)).db
      ∧ ∃ rows after,
          rows.length = 2
            ∧ identCall.evaluate.run.run [] = (.ok rows, after)
            ∧ (Solution.rows identCall.find
                { db := (Engine.start (fun _ => 0)).db
                  assignments :=
                    (Engine.start (fun _ => 0)).db.meaning
                      identCall.goals identCall.starts
                }).run.run [] = (.ok rows, after) := by
  have hLength :
      (identCall.evaluate.run.run []).1.toOption.map List.length
        = some 2 := by
    decide +kernel
  rcases
      Outcome.exists_ok_of_isSome
        (identCall.evaluate.run.run []) (by decide +kernel)
    with ⟨rows, after, hRows⟩
  rw [hRows] at hLength
  exact
    ⟨regular_identCall, rows, after, Option.some.inj hLength,
      hRows,
      Call.evaluate_eq_meaning .refl regular_identCall hRows⟩

------------------------------------------------------------
-- References to No Entity
------------------------------------------------------------

/-
  Transaction data that takes all truth values from the first
  database and installs an attribute for texts.
-/
def typingData : Value :=
  .list
    ((List.range 12).map (fun n =>
        Value.list
          [ .str "db/retract", .int (10 + n), .str "db/index"
          , .bool true ])
      ++ [ .map
            [ (.str "db/id", .tempid "db.part/db" (-1))
            , (.str "db.install/_attribute", .str "db.part/db")
            , (.str "db/ident", .str "user/x")
            , (.str "db/valueType", .str "db.type/string") ] ])

/-
  Transaction data that adds a text, and then installs the
  attribute of the text again, for references.
-/
def retypingData : Value :=
  .list
    [ .list
        [.str "db/add", .int 0, .str "user/x", .str "foo"]
    , .list
        [ .str "db/add", .int 22, .str "db/valueType"
        , .str "db.type/ref" ]
    , .list
        [ .str "db/retract", .int 0
        , .str "db.install/attribute", .int 22 ]
    , .list
        [ .str "db/add", .int 0, .str "db.install/attribute"
        , .int 22 ] ]

/- The engine that starts at 0 after these transactions. -/
def retyped : Engine :=
  (((Engine.start (fun _ => 0)).transact typingData).2.transact
    retypingData).2

/- These transactions run one after the other. -/
theorem run_retyped :
    Engine.Run (fun _ => True) (Engine.start (fun _ => 0))
      retyped :=
  .tail (.single ⟨typingData, trivial, rfl⟩)
    ⟨retypingData, trivial, rfl⟩

/- The query for pairs of entities that share the text. -/
def sharingCall : Call where
  find := [.str "?e", .str "?f"]
  inputs := [.str "$"]
  clauses :=
    [ .list [.str "?e", .str "user/x", .str "?v"]
    , .list [.str "?f", .str "user/x", .str "?v"] ]
  args := [.database retyped.db]

/-
  The entity shares the text with itself, but the query finds
  no row: the text that the first clause binds names no
  entity for the second.  No value of the database is a truth
  value or a float, or has parts.
-/
theorem evaluate_ne_meaning_retyped :
    Engine.Run (fun _ => True) (Engine.start (fun _ => 0))
        retyped
      ∧ (∀ d ∈ retyped.db.datoms,
          d.value.whole = true ∧ d.value.parts.isEmpty = true)
      ∧ (retyped.db.installed (.str "user/x")).toOption.isSome
          = true
      ∧ (sharingCall.evaluate.run.run []).1.toOption.map
          List.length = some 0
      ∧ ((Solution.rows sharingCall.find
            { db := retyped.db
              assignments :=
                retyped.db.meaning sharingCall.goals
                  sharingCall.starts }).run.run
          []).1.toOption.map List.length = some 1 := by
  refine ⟨run_retyped, ?_⟩
  decide +kernel

end FactBase
