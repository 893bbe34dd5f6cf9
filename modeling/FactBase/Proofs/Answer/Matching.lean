import FactBase.Answer.Evaluation
import FactBase.Proofs.Outcome
import FactBase.Proofs.Fact.Database

/-
  This file describes the search for the answers of a query
  without its steps and failures: a search that succeeds goes
  through all combinations of facts, one fact for each
  pattern, and keeps those that it can follow to the end.

  Key definitions include:
    * `combinations`
    * `Assignment.along`
    * `Pattern.marks`
    * `Database.admits`
    * `Goal`
    * `Database.follow`

  Key theorems include:
    * `Pattern.bind_eq`
    * `Database.matching_eq`
    * `Database.solve_eq`
    * `Database.decided_of_solve`
    * `Call.evaluate_eq`
-/

------------------------------------------------------------
-- Combinations
------------------------------------------------------------

namespace FactBase

open Sorting

/-
  All ways to choose one item from each list, in order: the
  choice from the first list changes last.
-/
def combinations
    {α : Type} : List (List α) → List (List α)
  | [] => [[]]
  | xs :: rest =>
      xs.flatMap (fun x => (combinations rest).map (x :: ·))

/- What a combination has is an item of one of the lists. -/
theorem exists_mem_of_mem_combinations
    {α : Type}
    {xs : List α}
    {xss : List (List α)}
    (h : xs ∈ combinations xss)
    {x : α}
    (hx : x ∈ xs) : ∃ ys ∈ xss, x ∈ ys := by
  induction xss generalizing xs with
  | nil =>
      rcases List.mem_singleton.mp h with rfl
      exact absurd hx List.not_mem_nil
  | cons ys xss ih =>
      rcases List.mem_flatMap.mp h with ⟨y, hy, hRest⟩
      rcases List.mem_map.mp hRest with ⟨rest, hMem, rfl⟩
      rcases List.mem_cons.mp hx with rfl | hx
      · exact ⟨ys, List.mem_cons_self, hy⟩
      · rcases ih hMem hx with ⟨zs, hzs, hFound⟩
        exact ⟨zs, List.mem_cons_of_mem ys hzs, hFound⟩

/- Going on from the items that were kept. -/
private theorem flatMap_filterMap
    {α β γ : Type}
    (f : α → Option β)
    (g : β → List γ)
    (xs : List α) :
    (xs.filterMap f).flatMap g =
      xs.flatMap (fun x => ((f x).map g).getD []) := by
  induction xs with
  | nil => rfl
  | cons x xs ih =>
      cases h : f x with
      | none => simp [h, ih]
      | some y => simp [h, ih]

------------------------------------------------------------
-- Tokens
------------------------------------------------------------

/- A variable and what it is to be bound to. -/
abbrev Mark := String × Held

namespace Value

/- The variable that a token is. -/
def slot? : Value → Option String
  | .str s => if startsWithSigil s then some s else none
  | _ => none

/- The value that a token stands for by itself. -/
def constant? : Value → Option Value
  | .lit v => some v
  | .str s =>
      if s == "_" || startsWithSigil s then none
      else some (.str s)
  | v => some v

/- What a token that meets a value asks to be bound. -/
def marks
    (token : Value)
    (h : Held) : List Mark :=
  match token.slot? with
  | some x => [(x, h)]
  | none => []

end Value

/- What is to be bound comes from the token. -/
theorem Value.eq_of_mem_marks
    {token : Value}
    {held : Held}
    {m : Mark}
    (h : m ∈ token.marks held) :
    token = .str m.1 ∧ startsWithSigil m.1 = true
      ∧ m.2 = held := by
  cases token with
  | str s =>
      unfold marks slot? at h
      cases hName : startsWithSigil s with
      | false => simp [hName] at h
      | true =>
          simp only [hName, if_true, List.mem_singleton] at h
          subst h
          exact ⟨rfl, hName, rfl⟩
  | _ => simp [marks, slot?] at h

/- A variable asks to be bound. -/
theorem Value.mem_marks_str
    {x : String}
    (hName : startsWithSigil x = true)
    (held : Held) :
    (x, held) ∈ (Value.str x).marks held := by
  simp [marks, slot?, hName]

namespace Assignment

/-
  Bind variables one after the other, as long as each value
  equals the one that its variable has.
-/
def along
    (σ : Assignment) : List Mark → Option Assignment
  | [] => some σ
  | (x, h) :: marks =>
      if (σ.get? x).all (fun w => Outcome.holds (w.equals h.value))
      then along (σ.set x h) marks
      else none

/- Binding goes on where it stopped. -/
theorem along_append
    (σ : Assignment)
    (first second : List Mark) :
    σ.along (first ++ second) =
      (σ.along first).bind (·.along second) := by
  induction first generalizing σ with
  | nil => rfl
  | cons m first ih =>
      rcases m with ⟨x, h⟩
      simp only [List.cons_append, along]
      split
      · exact ih _
      · rfl

/- A token that is a constant is read as it. -/
theorem read_of_constant
    (σ : Assignment)
    {token w : Value}
    (h : token.constant? = some w) :
    σ.read token = .known w := by
  cases token with
  | str s =>
      rw [Value.constant?] at h
      cases hOther : (s == "_" || startsWithSigil s) with
      | true => simp [hOther] at h
      | false =>
          simp only [hOther, Bool.false_eq_true, if_false,
            Option.some.injEq] at h
          rw [Bool.or_eq_false_iff] at hOther
          simp [read, hOther.1, hOther.2, h]
  | _ =>
      rw [← Option.some.inj h]
      rfl

/- A variable that is bound is read as its value. -/
theorem read_of_get?
    {σ : Assignment}
    {x : String}
    {v : Value}
    (hName : startsWithSigil x = true)
    (h : σ.get? x = some v) :
    σ.read (.str x) = .known v := by
  have hBlank : (x == "_") = false := by
    apply beq_false_of_ne
    rintro rfl
    exact absurd hName (by decide)
  simp [read, hBlank, hName, h]

/- A variable that is not bound is read as such. -/
theorem read_of_get?_eq_none
    {σ : Assignment}
    {x : String}
    (hName : startsWithSigil x = true)
    (h : σ.get? x = none) :
    σ.read (.str x) = .unbound x := by
  have hBlank : (x == "_") = false := by
    apply beq_false_of_ne
    rintro rfl
    exact absurd hName (by decide)
  simp [read, hBlank, hName, h]

/-
  A token is a constant, a variable, which may be bound, or a
  blank.
-/
theorem read_cases
    (σ : Assignment)
    (token : Value) :
    (∃ v, token.constant? = some v ∧ token.slot? = none
        ∧ σ.read token = .known v)
      ∨ (∃ x, token.slot? = some x ∧ token.constant? = none
          ∧ ((∃ v, σ.get? x = some v ∧ σ.read token = .known v)
            ∨ (σ.get? x = none
                ∧ σ.read token = .unbound x)))
      ∨ (token.slot? = none ∧ token.constant? = none
          ∧ σ.read token = .blank) := by
  cases token with
  | str s =>
      cases hName : startsWithSigil s with
      | true =>
          refine .inr (.inl ⟨s, ?_, ?_, ?_⟩)
          · simp [Value.slot?, hName]
          · simp [Value.constant?, hName]
          · cases hValue : σ.get? s with
            | some v =>
                exact
                  .inl ⟨v, rfl, read_of_get? hName hValue⟩
            | none =>
                exact
                  .inr ⟨rfl, read_of_get?_eq_none hName hValue⟩
      | false =>
          cases hBlank : s == "_" with
          | true =>
              refine .inr (.inr ⟨?_, ?_, ?_⟩)
              · simp [Value.slot?, hName]
              · simp [Value.constant?, hBlank]
              · simp [read, hBlank]
          | false =>
              refine .inl ⟨.str s, ?_, ?_, ?_⟩
              · simp [Value.constant?, hName, hBlank]
              · simp [Value.slot?, hName]
              · simp [read, hName, hBlank]
  | lit v => exact .inl ⟨v, rfl, rfl, rfl⟩
  | _ => exact .inl ⟨_, rfl, rfl, rfl⟩

/- Matching a token with a value binds what it asks for. -/
theorem unify_eq
    {σ : Assignment}
    {token : Value}
    {h : Held}
    {found : Option Assignment}
    (hFound : σ.unify token h = .ok found) :
    found = σ.along (token.marks h) := by
  unfold unify at hFound
  unfold Value.marks Value.slot?
  split at hFound
  next s =>
    split at hFound
    next hVariable =>
      simp only [hVariable, if_true, along]
      split at hFound
      next w hValue =>
        rcases bind_eq_ok.mp hFound with ⟨b, hEquals, hRest⟩
        cases b with
        | true =>
            simp only [if_true, pure_eq_ok] at hRest
            simp [hValue, hEquals, ← hRest]
        | false =>
            simp only [Bool.false_eq_true, if_false,
              pure_eq_ok] at hRest
            simp [hValue, hEquals, ← hRest]
      next hValue =>
        have hEq := Except.ok.inj hFound
        simp [hValue, ← hEq]
    next hOther =>
      have hEq := Except.ok.inj hFound
      simp [hOther, along, ← hEq]
  next =>
    have hEq := Except.ok.inj hFound
    simp [along, ← hEq]

end Assignment

------------------------------------------------------------
-- Patterns
------------------------------------------------------------

/- What a pattern that meets a fact asks to be bound. -/
def Pattern.marks
    (p : Pattern)
    (d : Datom) : List Mark :=
  p.entity.marks (.fresh (.int d.entity))
    ++ p.attr.marks (.fresh (.int d.attr))
    ++ p.value.marks (.ofDatom d)

/- A pattern binds what it asks for. -/
theorem Pattern.bind_eq
    {p : Pattern}
    {σ : Assignment}
    {d : Datom}
    {found : Option Assignment}
    (h : p.bind σ d = .ok found) :
    found = σ.along (p.marks d) := by
  unfold Pattern.bind at h
  unfold Pattern.marks
  rw [Assignment.along_append, Assignment.along_append]
  rcases bind_eq_ok.mp h with ⟨byEntity, hEntity, hRest⟩
  rw [← Assignment.unify_eq hEntity]
  cases byEntity with
  | none =>
      rw [pure_eq_ok] at hRest
      rw [← hRest]
      rfl
  | some τ =>
      rcases bind_eq_ok.mp hRest with ⟨byAttr, hAttr, hLast⟩
      simp only [Option.bind_some]
      rw [← Assignment.unify_eq hAttr]
      cases byAttr with
      | none =>
          rw [pure_eq_ok] at hLast
          rw [← hLast]
          rfl
      | some υ => exact Assignment.unify_eq hLast

namespace Database

/-
  Whether what is known about the positions of a pattern lets
  a fact through.
-/
def lets
    (db : Database)
    (clause : List Value)
    (σ : Assignment)
    (d : Datom) : Outcome Bool := do
  let p := Pattern.ofItems clause
  let entity ←
    db.entityConstraint clause (σ.read p.entity)
  let known ← db.attributeConstraint (σ.read p.attr)
  let value ← db.valueConstraint known.2 (σ.read p.value)
  ({ entity := entity
     attr := known.1
     value := value } : Constraints).admitFact d

/- What is known about a pattern lets a fact through. -/
def admits
    (db : Database)
    (clause : List Value)
    (σ : Assignment)
    (d : Datom) : Bool :=
  Outcome.holds (db.lets clause σ d)

/- A fact is let through by all three positions. -/
theorem admits_iff
    {db : Database}
    {clause : List Value}
    {σ : Assignment}
    {d : Datom} :
    db.admits clause σ d = true ↔
      ∃ entity known value,
        db.entityConstraint clause
            (σ.read (Pattern.ofItems clause).entity)
          = .ok entity
        ∧ db.attributeConstraint
              (σ.read (Pattern.ofItems clause).attr)
            = .ok known
        ∧ db.valueConstraint known.2
              (σ.read (Pattern.ofItems clause).value)
            = .ok value
        ∧ entity.admits (.int d.entity) = .ok true
        ∧ known.1.admits (.int d.attr) = .ok true
        ∧ value.admits d.value = .ok true := by
  unfold admits lets
  rw [Outcome.holds_iff]
  simp only [bind_eq_ok, Constraints.admitFact]
  constructor
  · rintro ⟨entity, hEntity, known, hAttr, value, hValue, h⟩
    rcases h with ⟨byEntity, hByEntity, h⟩
    cases byEntity with
    | false => simp [pure, Except.pure] at h
    | true =>
        simp only [if_true] at h
        rcases bind_eq_ok.mp h with ⟨byAttr, hByAttr, h⟩
        cases byAttr with
        | false => simp [pure, Except.pure] at h
        | true =>
            exact
              ⟨entity, known, value, hEntity, hAttr, hValue,
                hByEntity, hByAttr, h⟩
  · rintro
      ⟨entity, known, value, hEntity, hAttr, hValue, hByEntity,
        hByAttr, h⟩
    refine
      ⟨entity, hEntity, known, hAttr, value, hValue, true,
        hByEntity, ?_⟩
    simp only [if_true]
    exact bind_eq_ok.mpr ⟨true, hByAttr, h⟩

/-
  A pattern is concerned with a fact unless it names another
  attribute.
-/
def concerns
    (db : Database)
    (items : List Value)
    (d : Datom) : Bool :=
  match (Pattern.ofItems items).attr.constant? with
  | some attr =>
      Outcome.holds (do
        let known ← db.attributeConstraint (.known attr)
        known.1.admits (.int d.attr))
  | none => true

/- A fact that is let through concerns the pattern. -/
theorem concerns_of_admits
    {db : Database}
    {clause : List Value}
    {σ : Assignment}
    {d : Datom}
    (h : db.admits clause σ d = true) :
    db.concerns clause d = true := by
  rcases admits_iff.mp h with
    ⟨_, known, _, _, hAttr, _, _, hAdmits, _⟩
  unfold concerns
  cases hConstant :
      (Pattern.ofItems clause).attr.constant? with
  | none => rfl
  | some attr =>
      rw [Assignment.read_of_constant σ hConstant] at hAttr
      simp only [hAttr, ok_bind, hAdmits, Outcome.holds_ok]

/-
  A value that lets an attribute through is its ident, or a
  key that finds its definition and is not a text.
-/
theorem attributeConstraint_cases
    {db : Database}
    {v : Value}
    {known : Constraint × Option Schema}
    {attr : Int}
    (h : db.attributeConstraint (.known v) = .ok known)
    (hAdmits : known.1.admits (.int attr) = .ok true) :
    (∃ s installed, v = .str s
        ∧ db.installed (.str s) = .ok installed
        ∧ known =
            (.only (.int installed.eid), some installed.schema))
      ∨ ∃ schema, (∀ s, v ≠ .str s)
          ∧ Table.seek v db.attributes = .ok (some schema)
          ∧ known = (.only v, some schema) := by
  unfold attributeConstraint at h
  split at h
  next s hReading =>
    rcases bind_eq_ok.mp h with ⟨installed, hInstalled, hEq⟩
    rw [pure_eq_ok] at hEq
    have hText : v = .str s := by
      simpa using hReading
    exact .inl ⟨s, installed, hText, hInstalled, hEq.symm⟩
  next w hNoText hReading =>
    have hSame : v = w := by
      simpa using hReading
    subst hSame
    rcases bind_eq_ok.mp h with ⟨found, hFound, hEq⟩
    cases found with
    | none =>
        rw [pure_eq_ok] at hEq
        subst hEq
        cases hAdmits
    | some schema =>
        rw [pure_eq_ok] at hEq
        exact .inr ⟨schema, hNoText, hFound, hEq.symm⟩
  next _ hOther => exact absurd rfl (hOther v)

/- An attribute that lets a fact through has a definition. -/
theorem isSome_of_attributeConstraint
    {db : Database}
    {v : Value}
    {known : Constraint × Option Schema}
    {attr : Int}
    (h : db.attributeConstraint (.known v) = .ok known)
    (hAdmits : known.1.admits (.int attr) = .ok true) :
    ∃ schema, known.2 = some schema := by
  rcases attributeConstraint_cases h hAdmits with
    ⟨_, installed, _, _, rfl⟩ | ⟨schema, _, _, rfl⟩
  · exact ⟨installed.schema, rfl⟩
  · exact ⟨schema, rfl⟩

/- One that is not a text equals the id of the attribute. -/
theorem equals_of_attributeConstraint
    {db : Database}
    {v : Value}
    {known : Constraint × Option Schema}
    {attr : Int}
    (h : db.attributeConstraint (.known v) = .ok known)
    (hAdmits : known.1.admits (.int attr) = .ok true)
    (hNoText : ∀ s, v ≠ .str s) :
    (Value.int attr).equals v = .ok true := by
  rcases attributeConstraint_cases h hAdmits with
    ⟨s, _, hText, _⟩ | ⟨_, _, _, rfl⟩
  · exact absurd hText (hNoText s)
  · exact hAdmits

/-
  What is known about an attribute is the definition of the
  attribute of every fact that is let through.
-/
theorem schemaOf?_of_attributeConstraint
    {db : Database}
    {reading : Reading}
    {known : Constraint × Option Schema}
    {schema : Schema}
    {attr : Int}
    (h : db.attributeConstraint reading = .ok known)
    (hSchema : known.2 = some schema)
    (hAdmits : known.1.admits (.int attr) = .ok true) :
    db.schemaOf? attr = some schema := by
  cases reading with
  | blank =>
      rw [← Except.ok.inj h] at hSchema
      cases hSchema
  | unbound name =>
      rw [← Except.ok.inj h] at hSchema
      cases hSchema
  | known v =>
      rcases attributeConstraint_cases h hAdmits with
        ⟨_, installed, _, hInstalled, rfl⟩
          | ⟨_, _, hFound, rfl⟩
      · have hEqual :
            (Value.int attr).equals (.int installed.eid)
              = .ok true := hAdmits
        have hSame := Value.same_of_equals rfl hEqual
        simp only [Value.same, Value.isInt, beq_iff_eq] at hSame
        rw [hSame, ← hSchema]
        exact schemaOf?_of_installed hInstalled
      · have hEqual : (Value.int attr).equals v = .ok true :=
          hAdmits
        have hSame := Value.same_of_equals rfl hEqual
        have hSymm := Value.same_symm rfl hSame
        unfold Table.seek at hFound
        split at hFound
        · rw [← hSchema, ← Except.ok.inj hFound]
          exact Table.find?_congr hSame hSymm db.attributes
        · cases hFound

/-
  A value lets through what equals it, or what it names where
  it is followed.
-/
theorem valueConstraint_cases
    {db : Database}
    {v w : Value}
    {schema : Option Schema}
    {c : Constraint}
    (h : db.valueConstraint schema (.known v) = .ok c)
    (hAdmits : c.admits w = .ok true) :
    ((schema.any Schema.isRef && v.int?.isNone) = true
        ∧ ∃ n, db.resolve v = .ok (some n)
          ∧ w.equals (.int n) = .ok true)
      ∨ ((schema.any Schema.isRef && v.int?.isNone) = false
          ∧ w.equals v = .ok true) := by
  simp only [valueConstraint] at h
  cases hFollowed :
      schema.any Schema.isRef && v.int?.isNone with
  | false =>
      rw [hFollowed, if_neg Bool.false_ne_true,
        Except.ok.injEq] at h
      subst h
      exact .inr ⟨rfl, hAdmits⟩
  | true =>
      rw [hFollowed, if_pos rfl] at h
      rcases bind_eq_ok.mp h with ⟨found, hFound, hEq⟩
      rw [pure_eq_ok] at hEq
      subst hEq
      cases found with
      | none => cases hAdmits
      | some n => exact .inl ⟨rfl, n, hFound, hAdmits⟩

/- How a pattern goes on from an assignment with a fact. -/
def meet
    (db : Database)
    (clause : List Value)
    (σ : Assignment)
    (d : Datom) : Option Assignment :=
  if db.admits clause σ d then
    σ.along ((Pattern.ofItems clause).marks d)
  else none

/- No fact passes where nothing can stand second. -/
private theorem holds_admitFact_never_attr
    (entity value : Constraint)
    (d : Datom) :
    Outcome.holds
      (({ entity := entity
          attr := .never
          value := value } : Constraints).admitFact d)
      = false := by
  unfold Constraints.admitFact
  cases entity.admits (.int d.entity) with
  | error fault => rfl
  | ok b => cases b <;> rfl

private theorem meet_eq_none
    {db : Database}
    {clause : List Value}
    {σ : Assignment}
    {d : Datom}
    (h : db.admits clause σ d = false) :
    db.meet clause σ d = none := by
  simp [meet, h]

/- What the facts that match bind, once all goes well. -/
private theorem bindings_eq
    {db : Database}
    {p : Pattern}
    {σ : Assignment}
    {c : Constraints}
    {found : List Assignment}
    (h : db.bindings p σ c = .ok found) :
    found =
      db.datoms.filterMap (fun d =>
        if Outcome.holds (c.admitFact d) then σ.along (p.marks d)
        else none) := by
  unfold bindings at h
  rcases bind_eq_ok.mp h with ⟨each, hEach, hFound⟩
  rw [pure_eq_ok] at hFound
  rw [Outcome.mapM_eq_ok] at hEach
  subst hFound
  clear h
  generalize db.datoms = datoms at hEach ⊢
  induction hEach with
  | nil => rfl
  | @cons d r ds rs hHead _ ih =>
      have hFirst :
          r = if Outcome.holds (c.admitFact d) then
              σ.along (p.marks d) else none := by
        rcases bind_eq_ok.mp hHead with ⟨b, hAdmit, hBind⟩
        cases b with
        | true =>
            simp only [if_true] at hBind
            simp [hAdmit, Pattern.bind_eq hBind]
        | false =>
            simp only [Bool.false_eq_true, if_false,
              pure_eq_ok] at hBind
            simp [hAdmit, ← hBind]
      rw [List.filterMap_cons, List.filterMap_cons, ih, hFirst]
      rfl

private theorem matching_eq_of_entity
    {db : Database}
    {clause : List Value}
    {σ : Assignment}
    {entity : Constraint}
    {found : List Assignment}
    (hEntity :
      db.entityConstraint clause
          (σ.read (Pattern.ofItems clause).entity)
        = .ok entity)
    (h :
      (do
        match ← db.attributeConstraint
            (σ.read (Pattern.ofItems clause).attr) with
        | (.never, _) => return []
        | (attr, schema) =>
            let value ←
              db.valueConstraint schema
                (σ.read (Pattern.ofItems clause).value)
            db.bindings (Pattern.ofItems clause) σ
              { entity := entity
                attr := attr
                value := value }) = .ok found) :
    found = db.datoms.filterMap (db.meet clause σ) := by
  rcases bind_eq_ok.mp h with ⟨⟨attr, schema⟩, hAttr, hRest⟩
  have hGoesOn :
      (do
        let value ←
          db.valueConstraint schema
            (σ.read (Pattern.ofItems clause).value)
        db.bindings (Pattern.ofItems clause) σ
          { entity := entity
            attr := attr
            value := value }) = .ok found →
        found = db.datoms.filterMap (db.meet clause σ) := by
    intro hRest
    rcases bind_eq_ok.mp hRest with ⟨value, hValue, hFound⟩
    rw [bindings_eq hFound]
    apply List.filterMap_congr
    intro d _
    unfold meet admits lets
    simp only [hEntity, hAttr, hValue, ok_bind]
  cases attr with
  | never =>
      simp only [pure_eq_ok] at hRest
      subst hRest
      symm
      rw [List.filterMap_eq_nil_iff]
      intro d _
      apply meet_eq_none
      unfold admits lets
      simp only [hEntity, hAttr, ok_bind]
      cases db.valueConstraint schema
          (σ.read (Pattern.ofItems clause).value) with
      | error fault => rfl
      | ok value => exact holds_admitFact_never_attr _ _ _
  | free => exact hGoesOn hRest
  | only v => exact hGoesOn hRest

/- A pattern that can be matched goes on with every fact. -/
theorem matching_eq
    {db : Database}
    {clause : List Value}
    {σ : Assignment}
    {found : List Assignment}
    (h : db.matching clause σ = .ok found) :
    found = db.datoms.filterMap (db.meet clause σ) := by
  unfold matching at h
  rcases bind_eq_ok.mp h with ⟨entity, hEntity, hRest⟩
  -- Once a position cannot be matched, the search does not
  -- look further; then no fact is let through either.
  cases entity with
  | never =>
      simp only [pure_eq_ok] at hRest
      subst hRest
      symm
      rw [List.filterMap_eq_nil_iff]
      intro d _
      apply meet_eq_none
      unfold admits lets
      simp only [hEntity, ok_bind]
      cases db.attributeConstraint
          (σ.read (Pattern.ofItems clause).attr) with
      | error fault => rfl
      | ok known =>
          simp only [ok_bind]
          cases db.valueConstraint known.2
              (σ.read (Pattern.ofItems clause).value) with
          | error fault => rfl
          | ok value => rfl
  | free => exact matching_eq_of_entity hEntity hRest
  | only v => exact matching_eq_of_entity hEntity hRest

end Database

------------------------------------------------------------
-- Goals
------------------------------------------------------------

/- What a clause asks for: a predicate, or a pattern. -/
inductive Goal where
  | test (expr : Value)
  | pattern (items : List Value)

namespace Goal

/- What a clause asks for, if it is a clause. -/
def ofClause? (clause : Value) : Option Goal :=
  match clause.sequence? with
  | none => none
  | some [] => none
  | some items =>
      match Database.expressionOf? items with
      | some expr => some (.test expr)
      | none =>
          if items.length > 3 then none
          else some (.pattern items)

/- What a goal can be met with: a predicate needs no fact. -/
def choices
    (db : Database) : Goal → List (Option Datom)
  | .test _ => [none]
  | .pattern _ => db.datoms.map some

end Goal

namespace Database

/- How a goal goes on from an assignment with a choice. -/
def reach
    (db : Database)
    (goal : Goal)
    (choice : Option Datom)
    (σ : Assignment) : Option Assignment :=
  match goal, choice with
  | .test expr, none =>
      if Outcome.holds (σ.satisfies expr) then some σ else none
  | .pattern items, some d => db.meet items σ d
  | _, _ => none

/- How goals go on from an assignment, one after the other. -/
def follow
    (db : Database) :
    List Goal → List (Option Datom) →
      Assignment → Option Assignment
  | [], _, σ => some σ
  | goal :: goals, choice :: choices, σ =>
      (db.reach goal choice σ).bind (follow db goals choices)
  | _ :: _, [], _ => none

/- All ways to meet goals. -/
def ways
    (db : Database)
    (goals : List Goal) : List (List (Option Datom)) :=
  combinations (goals.map (Goal.choices db))

/- The filter of a predicate, once all goes well. -/
private theorem filterMap_reach_test
    (db : Database)
    (expr : Value)
    (σs : List Assignment) :
    σs.filter (fun σ => Outcome.holds (σ.satisfies expr)) =
      σs.flatMap (fun σ =>
        ((Goal.test expr).choices db).filterMap
          (fun choice => db.reach (.test expr) choice σ)) := by
  induction σs with
  | nil => rfl
  | cons σ σs ih =>
      rw [List.filter_cons, List.flatMap_cons, ih]
      cases h : Outcome.holds (σ.satisfies expr) <;>
        simp [Goal.choices, reach, h]

/- The ways to meet goals begin with a choice for the first. -/
theorem mem_ways_cons
    {db : Database}
    {goal : Goal}
    {goals : List Goal}
    {way : List (Option Datom)} :
    way ∈ db.ways (goal :: goals) ↔
      ∃ choice ∈ goal.choices db, ∃ rest ∈ db.ways goals,
        choice :: rest = way := by
  unfold ways
  rw [List.map_cons, combinations]
  simp only [List.mem_flatMap, List.mem_map]

/-
  Wherever a way comes to a predicate, the predicate has an
  answer.
-/
def Decided
    (db : Database) :
    List Goal → List (Option Datom) → Assignment → Prop
  | goal :: goals, choice :: choices, σ =>
      (∀ expr, goal = .test expr → ∃ b, σ.satisfies expr = .ok b)
        ∧ ∀ τ, db.reach goal choice σ = some τ →
            Decided db goals choices τ
  | _, _, _ => True

/- A clause that can be met goes on with every choice. -/
theorem step_eq
    {db : Database}
    {clause : Value}
    {σs τs : List Assignment}
    (h : db.step σs clause = .ok τs) :
    ∃ goal, Goal.ofClause? clause = some goal
      ∧ τs = σs.flatMap (fun σ =>
          (goal.choices db).filterMap
            (fun choice => db.reach goal choice σ))
      ∧ ∀ σ ∈ σs, ∀ expr, goal = .test expr →
          ∃ b, σ.satisfies expr = .ok b := by
  unfold step at h
  unfold Goal.ofClause?
  split at h
  · cases h
  · cases h
  next items _ hItems =>
    cases hExpr : expressionOf? items with
    | some expr =>
        simp only [hExpr] at h
        rcases Outcome.eq_filter_of_filterM h with ⟨hEq, hAll⟩
        refine ⟨.test expr, by simp [hItems, hExpr], ?_, ?_⟩
        · rw [hEq]
          exact filterMap_reach_test db expr σs
        · intro σ hσ other hOther
          rw [Goal.test.injEq] at hOther
          exact hOther ▸ hAll σ hσ
    | none =>
        simp only [hExpr] at h
        by_cases hLong : items.length > 3
        · rw [if_pos hLong] at h
          cases h
        · rw [if_neg hLong] at h
          refine
            ⟨.pattern items, by simp [hItems, hExpr, hLong], ?_,
              ?_⟩
          · rcases bind_eq_ok.mp h with ⟨found, hFound, hEq⟩
            rw [pure_eq_ok] at hEq
            rw [Outcome.mapM_eq_ok] at hFound
            subst hEq
            clear h
            induction hFound with
            | nil => rfl
            | @cons σ each σs rest hHead _ ih =>
                rw [List.flatten_cons, List.flatMap_cons, ih,
                  matching_eq hHead, Goal.choices,
                  List.filterMap_map]
                rfl
          · intro σ _ expr hTest
            cases hTest

/-
  The ways that goals can be followed from assignments, with
  the assignments that they lead to.
-/
def found
    (db : Database)
    (goals : List Goal)
    (σs : List Assignment) :
    List (List (Option Datom) × Assignment) :=
  σs.flatMap (fun σ =>
    (db.ways goals).filterMap (fun way =>
      (db.follow goals way σ).map (fun τ => (way, τ))))

/- The assignments that the ways lead to. -/
theorem map_snd_found
    (db : Database)
    (goals : List Goal)
    (σs : List Assignment) :
    (db.found goals σs).map Prod.snd =
      σs.flatMap (fun σ =>
        (db.ways goals).filterMap
          (fun way => db.follow goals way σ)) := by
  unfold found
  rw [List.map_flatMap]
  apply List.flatMap_congr
  intro σ _
  rw [List.map_filterMap]
  apply List.filterMap_congr
  intro way _
  cases db.follow goals way σ <;> rfl

/- A search that succeeds goes all ways that can be followed. -/
theorem solve_eq
    {db : Database}
    {clauses : List Value}
    {σs τs : List Assignment}
    (h : db.solve clauses σs = .ok τs) :
    τs =
      (db.found (clauses.filterMap Goal.ofClause?) σs).map
        Prod.snd := by
  rw [map_snd_found]
  unfold solve at h
  induction clauses generalizing σs with
  | nil =>
      rw [List.foldlM_nil, pure_eq_ok] at h
      subst h
      simp [ways, combinations, follow]
  | cons clause clauses ih =>
      rw [List.foldlM_cons] at h
      rcases bind_eq_ok.mp h with ⟨υs, hHead, hTail⟩
      rcases step_eq hHead with ⟨goal, hGoal, rfl, _⟩
      rw [ih hTail, List.flatMap_assoc, List.filterMap_cons, hGoal]
      apply List.flatMap_congr
      intro σ _
      generalize clauses.filterMap Goal.ofClause? = goals
      have hWays :
          db.ways (goal :: goals) =
            (goal.choices db).flatMap (fun choice =>
              (db.ways goals).map (choice :: ·)) := rfl
      simp only
      rw [flatMap_filterMap, hWays, List.filterMap_flatMap]
      apply List.flatMap_congr
      intro choice _
      rw [List.filterMap_map]
      cases hReach : db.reach goal choice σ with
      | none => simp [follow, hReach]
      | some υ => simp [follow, hReach, Function.comp_def]

/- A search that succeeds decides all its predicates. -/
theorem decided_of_solve
    {db : Database}
    {clauses : List Value}
    {σs τs : List Assignment}
    (h : db.solve clauses σs = .ok τs) :
    ∀ σ ∈ σs, ∀ way ∈ db.ways (clauses.filterMap Goal.ofClause?),
      db.Decided (clauses.filterMap Goal.ofClause?) way σ := by
  unfold solve at h
  induction clauses generalizing σs with
  | nil => exact fun _ _ _ _ => trivial
  | cons clause clauses ih =>
      rw [List.foldlM_cons] at h
      rcases bind_eq_ok.mp h with ⟨υs, hHead, hTail⟩
      rcases step_eq hHead with ⟨goal, hGoal, rfl, hTests⟩
      rw [List.filterMap_cons, hGoal]
      intro σ hσ way hWay
      rcases mem_ways_cons.mp hWay with
        ⟨choice, hChoice, rest, hRest, rfl⟩
      refine ⟨hTests σ hσ, ?_⟩
      intro τ hReach
      refine ih hTail τ ?_ rest hRest
      refine List.mem_flatMap.mpr ⟨σ, hσ, ?_⟩
      exact List.mem_filterMap.mpr ⟨choice, hChoice, hReach⟩

end Database

------------------------------------------------------------
-- Calls
------------------------------------------------------------

/- The database of inputs is the source that they have. -/
theorem Inputs.database_eq_ok
    {inputs : Inputs}
    {db : Database} :
    inputs.database = .ok db ↔ inputs.source = some db := by
  unfold database
  cases inputs.source <;> simp

namespace Call

/- What the clauses of a call ask for. -/
def goals (c : Call) : List Goal :=
  c.clauses.filterMap Goal.ofClause?

/- The solution of a call, before its rows are gathered. -/
def solution (c : Call) : Outcome Solution := do
  let inputs ← Inputs.ofArguments c.inputs c.args
  Solution.ofInputs inputs (.ok c.clauses)

/- A solution solves the clauses from what the inputs bind. -/
theorem solution_eq_ok
    {c : Call}
    {s : Solution} :
    c.solution = .ok s ↔
      ∃ inputs, Inputs.ofArguments c.inputs c.args = .ok inputs
        ∧ inputs.source = some s.db
        ∧ s.db.solve c.clauses inputs.assignments
          = .ok s.assignments := by
  unfold solution Solution.ofInputs
  simp only [bind_eq_ok, ok_bind, pure_eq_ok,
    Inputs.database_eq_ok]
  constructor
  · rintro ⟨inputs, hInputs, db, hSource, σs, hSolve, rfl⟩
    exact ⟨inputs, hInputs, hSource, hSolve⟩
  · rintro ⟨inputs, hInputs, hSource, hSolve⟩
    exact ⟨inputs, hInputs, s.db, hSource, _, hSolve, rfl⟩

/- A call fails with its solution, or gathers its rows. -/
theorem run_evaluate
    (c : Call)
    (g : Growths) :
    c.evaluate.run.run g =
      match c.solution with
      | .ok s => (s.rows c.find).run.run g
      | .error fault => (.error fault, g) := by
  change
    (Gathering.lift c.solution >>=
      Solution.rows c.find).run.run g = _
  cases c.solution <;> rfl

/-
  A call that returns rows shows those of an assignment for
  each way that can be followed from an input, and decides
  all predicates on the way.
-/
theorem evaluate_eq
    {c : Call}
    {before after : Growths}
    {rows : List (List Value)}
    (h : c.evaluate.run.run before = (.ok rows, after)) :
    ∃ inputs db,
      Inputs.ofArguments c.inputs c.args = .ok inputs
        ∧ inputs.source = some db
        ∧ (∀ σ ∈ inputs.assignments, ∀ way ∈ db.ways c.goals,
            db.Decided c.goals way σ)
        ∧ (Solution.rows c.find
              { db := db
                assignments :=
                  (db.found c.goals inputs.assignments).map
                    Prod.snd }).run.run before
            = (.ok rows, after) := by
  rw [run_evaluate] at h
  cases hSolution : c.solution with
  | error fault =>
      rw [hSolution] at h
      cases h
  | ok s =>
      rw [hSolution] at h
      rcases solution_eq_ok.mp hSolution with
        ⟨inputs, hInputs, hSource, hSolve⟩
      refine
        ⟨inputs, s.db, hInputs, hSource,
          Database.decided_of_solve hSolve, ?_⟩
      have hFound := Database.solve_eq hSolve
      rw [goals, ← hFound]
      exact h

end Call

end FactBase
