import FactBase.Proofs.Answer.Meaning

/-
  This file shows when the search for answers follows just
  the ways that count.  The search looks at the values that
  variables have when it comes to a pattern; the file names
  what makes it come out as if it looked at them in the end.

  Key definitions include:
    * `Assignment.Shares`
    * `Database.Suits`
    * `Database.Settled`

  Key theorems include:
    * `Database.LeadsTo.meet_eq`
    * `Database.Settled.follow_eq`
    * `Database.map_snd_found_eq`
-/

------------------------------------------------------------
-- Settled Searches
------------------------------------------------------------

namespace FactBase

open Sorting

/- The variables of a pattern. -/
def Pattern.slots (p : Pattern) : List String :=
  [p.entity, p.attr, p.value].filterMap Value.slot?

/- The variable in the place of the entity. -/
theorem Pattern.mem_slots_entity
    {p : Pattern}
    {x : String}
    (h : p.entity.slot? = some x) : x ∈ p.slots :=
  List.mem_filterMap.mpr ⟨p.entity, by simp, h⟩

/- The variable in the place of the attribute. -/
theorem Pattern.mem_slots_attr
    {p : Pattern}
    {x : String}
    (h : p.attr.slot? = some x) : x ∈ p.slots :=
  List.mem_filterMap.mpr ⟨p.attr, by simp, h⟩

/- The variable in the place of the value. -/
theorem Pattern.mem_slots_value
    {p : Pattern}
    {x : String}
    (h : p.value.slot? = some x) : x ∈ p.slots :=
  List.mem_filterMap.mpr ⟨p.value, by simp, h⟩

/- A goal binds a variable. -/
def Goal.binds (x : String) : Goal → Bool
  | .test _ => false
  | .pattern items => (Pattern.ofItems items).slots.contains x

/- What is to be bound is a variable of the pattern. -/
theorem Pattern.mem_slots_of_mem_marks
    {p : Pattern}
    {d : Datom}
    {m : Mark}
    (h : m ∈ p.marks d) : m.1 ∈ p.slots := by
  have hSlot :
      ∀ {token : Value} {held : Held}, m ∈ token.marks held →
        token.slot? = some m.1 := by
    intro token held hm
    rcases Value.eq_of_mem_marks hm with ⟨rfl, hName, _⟩
    simp [Value.slot?, hName]
  unfold slots
  rw [List.mem_filterMap]
  unfold Pattern.marks at h
  rcases List.mem_append.mp h with h | h
  · rcases List.mem_append.mp h with h | h
    · exact ⟨p.entity, by simp, hSlot h⟩
    · exact ⟨p.attr, by simp, hSlot h⟩
  · exact ⟨p.value, by simp, hSlot h⟩

/-
  A variable is shared: a goal that binds it may find that it
  has a value.
-/
def Assignment.Shares
    (σ₀ : Assignment)
    (goals : List Goal)
    (x : String) : Prop :=
  (σ₀.get? x).isSome = true ∨ 2 ≤ goals.countP (Goal.binds x)

/- The attribute of a pattern may be known when it is met. -/
def Pattern.MayKnowAttr
    (p : Pattern)
    (shared : String → Prop) : Prop :=
  p.attr.constant?.isSome = true
    ∨ ∃ x, p.attr.slot? = some x ∧ shared x

/-
  A pattern looks at what a shared variable has, and not just
  whether it agrees.  Given what values variables may have,
  the first makes no difference: what equals an entity id is
  the id, what equals a reference is an integer, and a
  constant finds the same references by name or as it is.
-/
structure Database.Suits
    (db : Database)
    (σ₀ : Assignment)
    (may : String → Value → Prop)
    (shared : String → Prop)
    (items : List Value) : Prop where
  proper :
    ∀ d ∈ db.datoms, db.concerns items d = true →
      d.value.proper = true
  values :
    ∀ x, (Pattern.ofItems items).value.slot? = some x →
      ∀ d ∈ db.datoms, db.concerns items d = true →
        may x d.value
  entity :
    ∀ x, (Pattern.ofItems items).entity.slot? = some x →
      shared x → ∀ v n, may x v →
        v.equal (.int n) = true → v = .int n
  attr :
    ∀ x, (Pattern.ofItems items).attr.slot? = some x →
      shared x → σ₀.get? x = none →
        ∀ d ∈ db.datoms, db.isRef d.attr = true →
          db.fitsValue true (Pattern.ofItems items).value d.value
            = db.fitsValue false (Pattern.ofItems items).value
                d.value
  refs :
    ∀ x, (Pattern.ofItems items).value.slot? = some x →
      shared x → (Pattern.ofItems items).MayKnowAttr shared →
        ∀ d ∈ db.datoms, db.concerns items d = true →
          db.isRef d.attr = true → ∀ v, may x v →
            v.equal d.value = true → v.int?.isSome = true

/-
  A search from an assignment is settled: it comes out the
  same in whatever order values are found.
-/
structure Database.Settled
    (db : Database)
    (may : String → Value → Prop)
    (goals : List Goal)
    (σ₀ : Assignment) : Prop where
  installed :
    ∀ d ∈ db.datoms, (db.schemaOf? d.attr).isSome = true
  integers : ∀ x (n : Int), may x (.int n)
  given : ∀ m ∈ σ₀, Mark.Sound may m
  tests : ∀ expr, .test expr ∈ goals → expr.proper = true
  patterns :
    ∀ items, .pattern items ∈ goals →
      db.Suits σ₀ may (σ₀.Shares goals) items

------------------------------------------------------------
-- Positions
------------------------------------------------------------

namespace Database

variable {db : Database}
variable {σ : Assignment}
variable {token v : Value}

/- A constant lets the entities through that it names. -/
theorem fitsEntity_iff
    (clause : List Value)
    {eid : Int} :
    db.fitsEntity token eid = true ↔
      ∀ v, token.constant? = some v →
        ∃ c, db.entityConstraint clause (.known v) = .ok c
          ∧ c.admits (.int eid) = .ok true := by
  unfold fitsEntity
  rw [Option.all_eq_true]
  apply forall₂_congr
  intro v _
  have hResolved :
      db.names v eid = true ↔
        ∃ c, (do return Constraint.ofEntity (← db.resolve v))
            = (.ok c : Outcome Constraint)
          ∧ c.admits (.int eid) = .ok true := by
    unfold names
    cases db.resolve v with
    | error fault => simp
    | ok found =>
        cases found with
        | none => simp [Constraint.ofEntity, Constraint.admits]
        | some n =>
            simp only [ok_bind, pure_eq_ok, Constraint.ofEntity,
              exists_eq_left', Constraint.admits,
              Value.equals_int, Except.ok.injEq, beq_iff_eq]
            exact eq_comm
  rw [hResolved]
  cases v with
  | str s =>
      unfold entityConstraint
      simp only
      split
      next hUnknown =>
        -- A text that is no ident names nothing.
        rw [Bool.and_eq_true, Option.isNone_iff_eq_none]
          at hUnknown
        have hNone : db.resolve (.str s) = .ok none := by
          rw [resolve, hUnknown.2]
        have hFails :
            ∀ c : Constraint,
              (do throw (.engine (.unknownEntity (.tuple clause)))
                  return Constraint.ofEntity
                    (← db.resolve (.str s)))
                ≠ (.ok c : Outcome Constraint) := by
          intro c hOk
          cases hOk
        simp only [hNone, ok_bind, pure_eq_ok,
          Constraint.ofEntity, exists_eq_left',
          Constraint.admits, Except.ok.injEq,
          Bool.false_eq_true, false_iff, not_exists, not_and]
        exact fun c hOk => absurd hOk (hFails c)
      next => rfl
  | _ => rfl

/- A constant equal to the id of an attribute is known. -/
theorem attributeConstraint_of_equals
    {attr : Int}
    (hInstalled : (db.schemaOf? attr).isSome = true)
    (hEquals : (Value.int attr).equals v = .ok true) :
    ∃ schema,
      db.attributeConstraint (.known v)
        = .ok (.only v, some schema) := by
  have hSame := Value.same_of_equals rfl hEquals
  have hFind :
      Table.find? v db.attributes = db.schemaOf? attr :=
    Table.find?_congr (Value.same_symm rfl hSame) hSame
      db.attributes
  rcases Option.isSome_iff_exists.mp hInstalled with
    ⟨schema, hSchema⟩
  have hNumber :=
    Value.isSome_magnitude?_of_place?
      (Value.place?_of_same hSame (Value.place?_int attr))
  refine ⟨schema, ?_⟩
  have hSeek : Table.seek v db.attributes = .ok (some schema) := by
    unfold Table.seek
    rw [hFind, hSchema]
    cases v <;> simp [Value.magnitude?] at hNumber <;> rfl
  unfold attributeConstraint
  cases v with
  | str s => cases hNumber
  | _ =>
      simp only [hSeek, ok_bind]
      rfl

/- A constant lets the attributes through that it names. -/
theorem fitsAttr_iff
    {attr : Int}
    (hInstalled : (db.schemaOf? attr).isSome = true) :
    db.fitsAttr token attr = true ↔
      ∀ v, token.constant? = some v →
        ∃ known, db.attributeConstraint (.known v) = .ok known
          ∧ known.1.admits (.int attr) = .ok true := by
  unfold fitsAttr
  rw [Option.all_eq_true]
  apply forall₂_congr
  intro v _
  have hNumber :
      Outcome.holds ((Value.int attr).equals v) = true →
        ∃ known, db.attributeConstraint (.known v) = .ok known
          ∧ known.1.admits (.int attr) = .ok true := by
    intro h
    rw [Outcome.holds_iff] at h
    rcases attributeConstraint_of_equals hInstalled h with
      ⟨schema, hKnown⟩
    exact ⟨_, hKnown, h⟩
  cases v with
  | str s =>
      simp only [attributeConstraint]
      cases db.installed (.str s) with
      | error fault => simp
      | ok installed =>
          simp only [ok_bind, pure_eq_ok, exists_eq_left',
            Constraint.admits, Value.equals_int,
            Except.ok.injEq, beq_iff_eq]
          exact eq_comm
  | _ =>
      refine ⟨hNumber, ?_⟩
      rintro ⟨known, hKnown, hAdmits⟩
      rw [Outcome.holds_iff]
      apply equals_of_attributeConstraint hKnown hAdmits
      intro s hText
      cases hText

/- A pattern is concerned with the facts whose attribute fits. -/
theorem concerns_eq
    {items : List Value}
    {d : Datom}
    (hInstalled : (db.schemaOf? d.attr).isSome = true) :
    db.concerns items d =
      db.fitsAttr (Pattern.ofItems items).attr d.attr := by
  rw [Bool.eq_iff_iff, fitsAttr_iff hInstalled]
  unfold concerns
  cases (Pattern.ofItems items).attr.constant? with
  | none => simp
  | some v =>
      simp only [Outcome.holds_iff, bind_eq_ok,
        Option.some.injEq, forall_eq']

/- A constant lets the values through that it fits. -/
theorem fitsValue_iff
    {schema : Option Schema} :
    db.fitsValue (schema.any Schema.isRef) token v = true ↔
      ∀ w, token.constant? = some w →
        ∃ c, db.valueConstraint schema (.known w) = .ok c
          ∧ c.admits v = .ok true := by
  unfold fitsValue
  rw [Option.all_eq_true]
  apply forall₂_congr
  intro w _
  simp only [valueConstraint]
  cases schema.any Schema.isRef && w.int?.isNone with
  | false => simp [Constraint.admits, Outcome.holds_iff]
  | true =>
      simp only [if_true]
      cases db.resolve w with
      | error fault => simp
      | ok found =>
          cases found with
          | none => simp [Constraint.ofEntity, Constraint.admits]
          | some n =>
              simp only [ok_bind, pure_eq_ok,
                Constraint.ofEntity, exists_eq_left',
                Constraint.admits, Outcome.holds_iff]

/- An entity that fits, and that a variable has, is let in. -/
theorem entityConstraint_admits
    (clause : List Value)
    {eid : Int}
    (hFits : db.fitsEntity token eid = true)
    (hValue :
      ∀ x w, token.slot? = some x → σ.get? x = some w →
        w = .int eid) :
    ∃ c, db.entityConstraint clause (σ.read token) = .ok c
      ∧ c.admits (.int eid) = .ok true := by
  rcases σ.read_cases token with
    ⟨v, hConstant, _, hRead⟩ | ⟨x, hSlot, _, hRead⟩
      | ⟨_, _, hRead⟩
  · rw [hRead]
    exact (fitsEntity_iff clause).mp hFits v hConstant
  · rcases hRead with ⟨w, hBound, hRead⟩ | ⟨_, hRead⟩
    · rw [hRead, hValue x w hSlot hBound]
      refine ⟨.only (.int eid), rfl, ?_⟩
      rw [Constraint.admits, Value.equals_int]
      simp
    · rw [hRead]
      exact ⟨.free, rfl, rfl⟩
  · rw [hRead]
    exact ⟨.free, rfl, rfl⟩

/- The same for an attribute. -/
theorem attributeConstraint_admits
    {attr : Int}
    (hInstalled : (db.schemaOf? attr).isSome = true)
    (hFits : db.fitsAttr token attr = true)
    (hValue :
      ∀ x w, token.slot? = some x → σ.get? x = some w →
        (Value.int attr).equals w = .ok true) :
    ∃ known,
      db.attributeConstraint (σ.read token) = .ok known
        ∧ known.1.admits (.int attr) = .ok true := by
  rcases σ.read_cases token with
    ⟨v, hConstant, _, hRead⟩ | ⟨x, hSlot, _, hRead⟩
      | ⟨_, _, hRead⟩
  · rw [hRead]
    exact (fitsAttr_iff hInstalled).mp hFits v hConstant
  · rcases hRead with ⟨w, hBound, hRead⟩ | ⟨_, hRead⟩
    · have hEquals := hValue x w hSlot hBound
      rcases attributeConstraint_of_equals hInstalled hEquals with
        ⟨schema, hKnown⟩
      rw [hRead]
      exact ⟨_, hKnown, hEquals⟩
    · rw [hRead]
      exact ⟨(.free, none), rfl, rfl⟩
  · rw [hRead]
    exact ⟨(.free, none), rfl, rfl⟩

/-
  The same for a value.  Where the attribute refers to
  entities, what the variable has must be an integer.
-/
theorem valueConstraint_admits
    {schema : Option Schema}
    (hFits :
      db.fitsValue (schema.any Schema.isRef) token v = true)
    (hValue :
      ∀ x w, token.slot? = some x → σ.get? x = some w →
        v.equals w = .ok true
          ∧ (schema.any Schema.isRef = true →
              w.int?.isSome = true)) :
    ∃ c, db.valueConstraint schema (σ.read token) = .ok c
      ∧ c.admits v = .ok true := by
  rcases σ.read_cases token with
    ⟨w, hConstant, _, hRead⟩ | ⟨x, hSlot, _, hRead⟩
      | ⟨_, _, hRead⟩
  · rw [hRead]
    exact fitsValue_iff.mp hFits w hConstant
  · rcases hRead with ⟨w, hBound, hRead⟩ | ⟨_, hRead⟩
    · rcases hValue x w hSlot hBound with ⟨hEquals, hInt⟩
      rw [hRead]
      refine ⟨.only w, ?_, hEquals⟩
      unfold valueConstraint
      cases hRef : schema.any Schema.isRef with
      | false => rfl
      | true =>
          rcases Option.isSome_iff_exists.mp (hInt hRef) with
            ⟨n, hn⟩
          simp [hn]
    · rw [hRead]
      exact ⟨.free, rfl, rfl⟩
  · rw [hRead]
    exact ⟨.free, rfl, rfl⟩

/-
  The definition that is at hand for an attribute is that of
  the facts that are let through, if the attribute is known.
-/
theorem any_isRef_of_attributeConstraint
    {known : Constraint × Option Schema}
    {attr : Int}
    (h : db.attributeConstraint (σ.read token) = .ok known)
    (hAdmits : known.1.admits (.int attr) = .ok true) :
    known.2.any Schema.isRef =
      (σ.gives token && db.isRef attr) := by
  have hKnown :
      ∀ v, σ.read token = .known v →
        known.2.any Schema.isRef = db.isRef attr := by
    intro v hRead
    rw [hRead] at h
    rcases isSome_of_attributeConstraint h hAdmits with
      ⟨schema, hSchema⟩
    rw [isRef,
      schemaOf?_of_attributeConstraint h hSchema hAdmits, hSchema]
  have hFree :
      db.attributeConstraint (σ.read token)
          = .ok (.free, none) →
        known.2.any Schema.isRef = false := by
    intro hFree
    rw [hFree, Except.ok.injEq] at h
    rw [← h]
    rfl
  unfold Assignment.gives
  rcases σ.read_cases token with
    ⟨w, hConstant, _, hRead⟩ | ⟨x, hSlot, hNone, hRead⟩
      | ⟨hSlot, hNone, hRead⟩
  · rw [hKnown w hRead, hConstant]
    rfl
  · rcases hRead with ⟨w, hBound, hRead⟩ | ⟨hBound, hRead⟩
    · rw [hKnown w hRead, hSlot, Option.bind_some, hBound]
      simp
    · rw [hFree (by rw [hRead]; rfl), hSlot, hNone,
        Option.bind_some, hBound]
      rfl
  · rw [hFree (by rw [hRead]; rfl), hSlot, hNone]
    rfl

end Database

------------------------------------------------------------
-- Patterns
------------------------------------------------------------

/- A token that is a variable asks for it to be bound. -/
theorem Value.mem_marks_of_slot?
    {token : Value}
    {x : String}
    (h : token.slot? = some x)
    (held : Held) : (x, held) ∈ token.marks held := by
  rw [marks, h]
  exact List.mem_singleton_self _

namespace Pattern

variable {x : String}

/- The variable in the place of the entity is to be bound. -/
theorem mem_marks_entity
    (p : Pattern)
    (d : Datom)
    (h : p.entity.slot? = some x) :
    (x, .fresh (.int d.entity)) ∈ p.marks d := by
  have hMem := Value.mem_marks_of_slot? h (.fresh (.int d.entity))
  unfold marks
  exact List.mem_append_left _ (List.mem_append_left _ hMem)

/- The variable in the place of the attribute is to be bound. -/
theorem mem_marks_attr
    (p : Pattern)
    (d : Datom)
    (h : p.attr.slot? = some x) :
    (x, .fresh (.int d.attr)) ∈ p.marks d := by
  have hMem := Value.mem_marks_of_slot? h (.fresh (.int d.attr))
  unfold marks
  exact List.mem_append_left _ (List.mem_append_right _ hMem)

/- The variable in the place of the value is to be bound. -/
theorem mem_marks_value
    (p : Pattern)
    (d : Datom)
    (h : p.value.slot? = some x) :
    (x, .ofDatom d) ∈ p.marks d := by
  unfold marks
  exact
    List.mem_append_right _ (Value.mem_marks_of_slot? h _)

end Pattern

namespace Database

variable {db : Database}
variable {may : String → Value → Prop}
variable {goals : List Goal}
variable {σ₀ : Assignment}
variable {marks : List Mark}
variable {items : List Value}
variable {d : Datom}

/- What is bound by a fact that concerns a pattern is sound. -/
theorem Settled.sound_marks
    (h : db.Settled may goals σ₀)
    (hItems : .pattern items ∈ goals)
    (hDatom : d ∈ db.datoms)
    (hConcerns : db.concerns items d = true) :
    ∀ m ∈ (Pattern.ofItems items).marks d, Mark.Sound may m := by
  intro m hm
  unfold Pattern.marks at hm
  rcases List.mem_append.mp hm with hm | hm
  · rcases List.mem_append.mp hm with hm | hm
    · rcases Value.eq_of_mem_marks hm with ⟨_, _, hHeld⟩
      rw [Mark.Sound, hHeld]
      exact ⟨rfl, h.integers m.1 d.entity⟩
    · rcases Value.eq_of_mem_marks hm with ⟨_, _, hHeld⟩
      rw [Mark.Sound, hHeld]
      exact ⟨rfl, h.integers m.1 d.attr⟩
  · rcases Value.eq_of_mem_marks hm with ⟨hToken, hName, hHeld⟩
    have hSlot :
        (Pattern.ofItems items).value.slot? = some m.1 := by
      rw [hToken]
      simp [Value.slot?, hName]
    have hSuits := h.patterns items hItems
    rw [Mark.Sound, hHeld]
    exact
      ⟨hSuits.proper d hDatom hConcerns,
        hSuits.values m.1 hSlot d hDatom hConcerns⟩

/- A fact that fits concerns the pattern. -/
theorem Settled.concerns_of_fits
    (h : db.Settled may goals σ₀)
    (hDatom : d ∈ db.datoms)
    (hFits : db.fits σ₀ items d = true) :
    db.concerns items d = true := by
  simp only [fits, Bool.and_eq_true] at hFits
  rw [concerns_eq (h.installed d hDatom)]
  exact hFits.1.2

/- A variable that has a value at the start keeps having one. -/
theorem Assignment.isSome_get?_extended
    {x : String}
    (h : (σ₀.get? x).isSome = true) :
    ((σ₀.extended marks).get? x).isSome = true := by
  rw [Assignment.get?, Option.isSome_map] at h ⊢
  rcases Assignment.held?_extended_cases σ₀ marks x with
    ⟨_, hHeld⟩ | ⟨_, k, _, _, _, hHeld⟩
  · rw [hHeld]
    exact h
  · rw [hHeld]
    rfl

/- A variable that has a value has it from somewhere. -/
theorem Assignment.get?_extended_cases
    {x : String}
    {w : Value}
    (h : (σ₀.extended marks).get? x = some w) :
    σ₀.get? x = some w ∨ ∃ m ∈ marks, m.1 = x := by
  rcases Assignment.held?_extended_cases σ₀ marks x with
    ⟨_, hHeld⟩ | ⟨before, k, after, hEq, _, _⟩
  · rw [Assignment.get?, hHeld] at h
    exact .inl h
  · exact .inr ⟨(x, k), by simp [hEq], rfl⟩

/-
  Marks lead up to a pattern: they are sound, and goals share
  what they bind of the pattern.
-/
structure LeadsTo
    (may : String → Value → Prop)
    (goals : List Goal)
    (σ₀ : Assignment)
    (marks : List Mark)
    (items : List Value) : Prop where
  goal : .pattern items ∈ goals
  sound : ∀ m ∈ marks, Mark.Sound may m
  shared :
    ∀ m ∈ marks, m.1 ∈ (Pattern.ofItems items).slots →
      σ₀.Shares goals m.1

/- A variable of the pattern that has a value is shared. -/
theorem LeadsTo.shares
    (h : LeadsTo may goals σ₀ marks items)
    {x : String}
    {w : Value}
    (hSlot : x ∈ (Pattern.ofItems items).slots)
    (hBound : (σ₀.extended marks).get? x = some w) :
    σ₀.Shares goals x := by
  rcases Assignment.get?_extended_cases hBound with
    hStart | ⟨m, hm, rfl⟩
  · left
    rw [hStart]
    rfl
  · exact h.shared m hm hSlot

/- An attribute that is known is one that may be known. -/
theorem LeadsTo.mayKnowAttr
    (h : LeadsTo may goals σ₀ marks items)
    (hGives :
      (σ₀.extended marks).gives (Pattern.ofItems items).attr
        = true) :
    (Pattern.ofItems items).MayKnowAttr (σ₀.Shares goals) := by
  rw [Assignment.gives, Bool.or_eq_true] at hGives
  rcases hGives with hGives | hGives
  · exact .inl hGives
  · rcases Option.isSome_iff_exists.mp hGives with ⟨w, hw⟩
    rw [Option.bind_eq_some_iff] at hw
    rcases hw with ⟨x, hSlot, hBound⟩
    exact
      .inr ⟨x, hSlot, h.shares (Pattern.mem_slots_attr hSlot) hBound⟩

/-
  Whether the attribute is known by now makes no difference
  for the constant in the place of the value.
-/
theorem LeadsTo.fitsValue_eq
    (h : LeadsTo may goals σ₀ marks items)
    (hSettled : db.Settled may goals σ₀)
    (hDatom : d ∈ db.datoms) :
    db.fitsValue
        (σ₀.gives (Pattern.ofItems items).attr
          && db.isRef d.attr)
        (Pattern.ofItems items).value d.value =
      db.fitsValue
        ((σ₀.extended marks).gives (Pattern.ofItems items).attr
          && db.isRef d.attr)
        (Pattern.ofItems items).value d.value := by
  unfold Assignment.gives
  cases hSlot : (Pattern.ofItems items).attr.slot? with
  | none => rfl
  | some x =>
      simp only [Option.bind_some]
      cases hStart : σ₀.get? x with
      | some w =>
          have hStill : ((σ₀.extended marks).get? x).isSome = true :=
            Assignment.isSome_get?_extended (by rw [hStart]; rfl)
          rw [hStill]
          rfl
      | none =>
          cases hBound : (σ₀.extended marks).get? x with
          | none => rfl
          | some w =>
              have hShare :=
                h.shares (Pattern.mem_slots_attr hSlot) hBound
              have hEither :=
                (hSettled.patterns items h.goal).attr x hSlot
                  hShare hStart d hDatom
              cases hRef : db.isRef d.attr with
              | false => simp only [Bool.and_false]
              | true =>
                  cases (Pattern.ofItems items).attr.constant? with
                  | some v => rfl
                  | none => exact (hEither hRef).symm

/- What is let through fits. -/
theorem LeadsTo.fits_of_admits
    (h : LeadsTo may goals σ₀ marks items)
    (hSettled : db.Settled may goals σ₀)
    (hDatom : d ∈ db.datoms)
    (hAdmits : db.admits items (σ₀.extended marks) d = true) :
    db.fits σ₀ items d = true := by
  rcases admits_iff.mp hAdmits with
    ⟨entity, known, value, hEntity, hAttr, hValue, hByEntity,
      hByAttr, hByValue⟩
  simp only [fits, Bool.and_eq_true, and_assoc]
  refine ⟨?_, ?_, ?_⟩
  · rw [fitsEntity_iff items]
    intro v hConstant
    rw [Assignment.read_of_constant _ hConstant] at hEntity
    exact ⟨entity, hEntity, hByEntity⟩
  · rw [fitsAttr_iff (hSettled.installed d hDatom)]
    intro v hConstant
    rw [Assignment.read_of_constant _ hConstant] at hAttr
    exact ⟨known, hAttr, hByAttr⟩
  · rw [h.fitsValue_eq hSettled hDatom,
      ← any_isRef_of_attributeConstraint hAttr hByAttr,
      fitsValue_iff]
    intro v hConstant
    rw [Assignment.read_of_constant _ hConstant] at hValue
    exact ⟨value, hValue, hByValue⟩

/- What a variable has by now is sound. -/
theorem LeadsTo.sound_of_get?
    (h : LeadsTo may goals σ₀ marks items)
    (hSettled : db.Settled may goals σ₀)
    {x : String}
    {w : Value}
    (hBound : (σ₀.extended marks).get? x = some w) :
    w.proper = true ∧ may x w :=
  Assignment.sound_of_get?_extended hSettled.given h.sound hBound

/-
  A variable for the entity that agrees with a fact has the
  id itself.
-/
theorem LeadsTo.eq_entity_of_agree
    (h : LeadsTo may goals σ₀ marks items)
    (hSettled : db.Settled may goals σ₀)
    (hAgree :
      σ₀.agree (marks ++ (Pattern.ofItems items).marks d)
        = true)
    {x : String}
    {w : Value}
    (hSlot : (Pattern.ofItems items).entity.slot? = some x)
    (hBound : (σ₀.extended marks).get? x = some w) :
    w = .int d.entity := by
  have hSuits := hSettled.patterns items h.goal
  have hMark := (Pattern.ofItems items).mem_marks_entity d hSlot
  have hShare := h.shares (Pattern.mem_slots_entity hSlot) hBound
  exact
    hSuits.entity x hSlot hShare w d.entity
      (h.sound_of_get? hSettled hBound).2
      (Assignment.equal_of_agree hAgree hMark hBound)

/- A variable for the attribute equals its id. -/
theorem LeadsTo.equals_attr_of_agree
    (h : LeadsTo may goals σ₀ marks items)
    (hSettled : db.Settled may goals σ₀)
    (hAgree :
      σ₀.agree (marks ++ (Pattern.ofItems items).marks d)
        = true)
    {x : String}
    {w : Value}
    (hSlot : (Pattern.ofItems items).attr.slot? = some x)
    (hBound : (σ₀.extended marks).get? x = some w) :
    (Value.int d.attr).equals w = .ok true := by
  have hMark := (Pattern.ofItems items).mem_marks_attr d hSlot
  have hProper := (h.sound_of_get? hSettled hBound).1
  rw [Value.equals_of_proper rfl hProper,
    Value.equal_comm rfl hProper]
  exact
    congrArg _ (Assignment.equal_of_agree hAgree hMark hBound)

/-
  A variable for the value equals it, and is an integer if it
  may be followed to what it names.
-/
theorem LeadsTo.equals_value_of_agree
    (h : LeadsTo may goals σ₀ marks items)
    (hSettled : db.Settled may goals σ₀)
    (hDatom : d ∈ db.datoms)
    (hConcerns : db.concerns items d = true)
    (hAgree :
      σ₀.agree (marks ++ (Pattern.ofItems items).marks d)
        = true)
    {x : String}
    {w : Value}
    (hSlot : (Pattern.ofItems items).value.slot? = some x)
    (hBound : (σ₀.extended marks).get? x = some w) :
    d.value.equals w = .ok true
      ∧ (((σ₀.extended marks).gives (Pattern.ofItems items).attr
            && db.isRef d.attr) = true →
          w.int?.isSome = true) := by
  have hSuits := hSettled.patterns items h.goal
  have hMark := (Pattern.ofItems items).mem_marks_value d hSlot
  have hSound := h.sound_of_get? hSettled hBound
  have hEqual := Assignment.equal_of_agree hAgree hMark hBound
  constructor
  · have hStored := hSuits.proper d hDatom hConcerns
    rw [Value.equals_of_proper hStored hSound.1,
      Value.equal_comm hStored hSound.1]
    exact congrArg _ hEqual
  · intro hRefers
    rw [Bool.and_eq_true] at hRefers
    have hShare :=
      h.shares (Pattern.mem_slots_value hSlot) hBound
    exact
      hSuits.refs x hSlot hShare (h.mayKnowAttr hRefers.1) d
        hDatom hConcerns hRefers.2 w hSound.2 hEqual

/-
  What fits is let through, if the variables have values that
  agree with it.
-/
theorem LeadsTo.admits_of_fits
    (h : LeadsTo may goals σ₀ marks items)
    (hSettled : db.Settled may goals σ₀)
    (hDatom : d ∈ db.datoms)
    (hAgree :
      σ₀.agree (marks ++ (Pattern.ofItems items).marks d)
        = true)
    (hFits : db.fits σ₀ items d = true) :
    db.admits items (σ₀.extended marks) d = true := by
  have hInstalled := hSettled.installed d hDatom
  have hConcerns := hSettled.concerns_of_fits hDatom hFits
  simp only [fits, Bool.and_eq_true, and_assoc] at hFits
  rcases hFits with ⟨hEntity, hAttr, hValue⟩
  rcases
      entityConstraint_admits items hEntity
        (fun _ _ hSlot hBound =>
          h.eq_entity_of_agree hSettled hAgree hSlot hBound)
    with ⟨entity, hEntityKnown, hByEntity⟩
  rcases
      attributeConstraint_admits hInstalled hAttr
        (fun _ _ hSlot hBound =>
          h.equals_attr_of_agree hSettled hAgree hSlot hBound)
    with ⟨known, hAttrKnown, hByAttr⟩
  have hRef :=
    any_isRef_of_attributeConstraint hAttrKnown hByAttr
  rw [h.fitsValue_eq hSettled hDatom, ← hRef] at hValue
  have hValueIs :
      ∀ x w, (Pattern.ofItems items).value.slot? = some x →
        (σ₀.extended marks).get? x = some w →
          d.value.equals w = .ok true
            ∧ (known.2.any Schema.isRef = true →
                w.int?.isSome = true) := by
    intro x w hSlot hBound
    rw [hRef]
    exact
      h.equals_value_of_agree hSettled hDatom hConcerns hAgree
        hSlot hBound
  rcases valueConstraint_admits hValue hValueIs with
    ⟨value, hValueKnown, hByValue⟩
  exact
    admits_iff.mpr
      ⟨entity, known, value, hEntityKnown, hAttrKnown,
        hValueKnown, hByEntity, hByAttr, hByValue⟩

/-
  A pattern goes on with a fact just where its constants fit
  and the variables still agree.
-/
theorem LeadsTo.meet_eq
    (h : LeadsTo may goals σ₀ marks items)
    (hSettled : db.Settled may goals σ₀)
    (hDatom : d ∈ db.datoms)
    (hAgree : σ₀.agree marks = true) :
    db.meet items (σ₀.extended marks) d =
      if db.fits σ₀ items d
          && σ₀.agree (marks ++ (Pattern.ofItems items).marks d)
      then
        some (σ₀.extended
          (marks ++ (Pattern.ofItems items).marks d))
      else none := by
  unfold meet
  by_cases hAdmits :
      db.admits items (σ₀.extended marks) d = true
  · have hFits := h.fits_of_admits hSettled hDatom hAdmits
    have hNew :=
      hSettled.sound_marks h.goal hDatom
        (concerns_of_admits hAdmits)
    rw [if_pos hAdmits, hFits, Bool.true_and]
    exact Assignment.along_eq hSettled.given h.sound hAgree hNew
  · rw [if_neg hAdmits, if_neg]
    intro hBoth
    rw [Bool.and_eq_true] at hBoth
    exact
      hAdmits
        (h.admits_of_fits hSettled hDatom hBoth.2 hBoth.1)

------------------------------------------------------------
-- Ways
------------------------------------------------------------

/- A goal binds the variables that it asks to be bound. -/
theorem binds_of_mem_marks
    {goal : Goal}
    {choice : Option Datom}
    {m : Mark}
    (h : m ∈ goal.marks choice) : goal.binds m.1 = true := by
  cases goal with
  | test expr => exact absurd h List.not_mem_nil
  | pattern items =>
      cases choice with
      | none => exact absurd h List.not_mem_nil
      | some d =>
          exact
            List.contains_iff_mem.mpr
              (Pattern.mem_slots_of_mem_marks h)

/- What is bound on a way whose goals are met is sound. -/
theorem Settled.sound_marksOf
    (h : db.Settled may goals σ₀)
    {rest : List Goal}
    (hRest : ∀ goal ∈ rest, goal ∈ goals)
    {way : List (Option Datom)}
    (hWay : way ∈ db.ways rest)
    {τ : Assignment}
    (hMeets : db.meets σ₀ τ rest way = true) :
    ∀ m ∈ marksOf rest way, Mark.Sound may m := by
  induction rest generalizing way with
  | nil => exact fun m hm => absurd hm List.not_mem_nil
  | cons goal rest ih =>
      rcases mem_ways_cons.mp hWay with
        ⟨choice, hChoice, later, hLater, rfl⟩
      rw [List.forall_mem_cons] at hRest
      rw [meets_cons] at hMeets
      intro m hm
      rw [marksOf, List.zip_cons_cons, List.flatMap_cons] at hm
      rcases List.mem_append.mp hm with hm | hm
      · cases goal with
        | test expr => exact absurd hm List.not_mem_nil
        | pattern items =>
            rcases List.mem_map.mp hChoice with ⟨d, hd, rfl⟩
            have hConcerns := h.concerns_of_fits hd hMeets.1
            exact h.sound_marks hRest.1 hd hConcerns m hm
      · exact ih hRest.2 hLater hMeets.2 m hm

/-
  A predicate that has an answer keeps it as long as the
  values that come later agree.
-/
theorem Settled.isMet_test
    (h : db.Settled may goals σ₀)
    {expr : Value}
    (hTest : .test expr ∈ goals)
    {later : List Mark}
    (hMarks : ∀ m ∈ marks ++ later, Mark.Sound may m)
    (hAgree : σ₀.agree (marks ++ later) = true)
    {b : Bool}
    (hNow : (σ₀.extended marks).satisfies expr = .ok b) :
    Goal.isMet db σ₀ (σ₀.extended (marks ++ later)) (.test expr)
      none = b := by
  have hRefines :=
    Assignment.refines_extended h.given hMarks hAgree
  have hEnd :=
    Assignment.satisfies_congr hRefines (h.tests expr hTest) hNow
  rw [Goal.isMet, hEnd, Outcome.holds_ok]

/- What goals done bind of a goal to come is shared. -/
private theorem shares_of_binds
    {done : List Goal}
    {goal other : Goal}
    {x : String}
    (hOther : other ∈ done)
    (hBinds : other.binds x = true)
    (hGoal : goal.binds x = true) :
    σ₀.Shares (done ++ goal :: goals) x := by
  right
  rw [List.countP_append, List.countP_cons_of_pos hGoal]
  have hDone : 0 < done.countP (Goal.binds x) :=
    List.countP_pos_iff.mpr ⟨other, hOther, hBinds⟩
  omega

/-
  From where marks lead, the search follows a way to the end
  just where the goals are met and the variables agree.
-/
def Faithful
    (db : Database)
    (σ₀ : Assignment)
    (marks : List Mark)
    (goals : List Goal)
    (way : List (Option Datom)) : Prop :=
  ∀ τ, db.follow goals way (σ₀.extended marks) = some τ ↔
    (db.meets σ₀ (σ₀.extended (marks ++ marksOf goals way))
          goals way = true
        ∧ σ₀.agree (marks ++ marksOf goals way) = true)
      ∧ σ₀.extended (marks ++ marksOf goals way) = τ

/- A predicate on the way is taken as it holds in the end. -/
theorem Settled.faithful_test
    (h : db.Settled may goals σ₀)
    {expr : Value}
    (hTest : .test expr ∈ goals)
    (hMarks : ∀ m ∈ marks, Mark.Sound may m)
    {b : Bool}
    (hNow : (σ₀.extended marks).satisfies expr = .ok b)
    {rest : List Goal}
    (hRest : ∀ goal ∈ rest, goal ∈ goals)
    {way : List (Option Datom)}
    (hWay : way ∈ db.ways rest)
    (hGoesOn : b = true → db.Faithful σ₀ marks rest way) :
    db.Faithful σ₀ marks (.test expr :: rest) (none :: way) := by
  have hMarksOf :
      marksOf (.test expr :: rest) (none :: way)
        = marksOf rest way := rfl
  have hReach :
      db.reach (.test expr) none (σ₀.extended marks) =
        if b then some (σ₀.extended marks) else none := by
    rw [reach, hNow, Outcome.holds_ok]
  have hKept :
      ∀ (_ :
          db.meets σ₀ (σ₀.extended (marks ++ marksOf rest way))
            rest way = true)
        (_ : σ₀.agree (marks ++ marksOf rest way) = true),
        Goal.isMet db σ₀
          (σ₀.extended (marks ++ marksOf rest way))
          (.test expr) none = b := by
    intro hMeets hAgree
    refine h.isMet_test hTest ?_ hAgree hNow
    exact
      List.forall_mem_append.mpr
        ⟨hMarks, h.sound_marksOf hRest hWay hMeets⟩
  intro τ
  rw [hMarksOf]
  simp only [follow, Option.bind_eq_some_iff, meets_cons, hReach]
  cases b with
  | false =>
      simp only [Bool.false_eq_true, if_false, reduceCtorEq,
        false_and, exists_false, false_iff]
      rintro ⟨⟨⟨hMet, hMeets⟩, hAgree⟩, _⟩
      rw [hKept hMeets hAgree] at hMet
      cases hMet
  | true =>
      simp only [if_true, Option.some.injEq, exists_eq_left']
      rw [hGoesOn rfl τ]
      constructor
      · rintro ⟨⟨hMeets, hAgree⟩, hEq⟩
        exact ⟨⟨⟨hKept hMeets hAgree, hMeets⟩, hAgree⟩, hEq⟩
      · rintro ⟨⟨⟨_, hMeets⟩, hAgree⟩, hEq⟩
        exact ⟨⟨hMeets, hAgree⟩, hEq⟩

/- A pattern on the way is taken as it fits in the end. -/
theorem LeadsTo.faithful_pattern
    (h : LeadsTo may goals σ₀ marks items)
    (hSettled : db.Settled may goals σ₀)
    (hDatom : d ∈ db.datoms)
    (hAgree : σ₀.agree marks = true)
    {rest : List Goal}
    {way : List (Option Datom)}
    (hGoesOn :
      db.fits σ₀ items d = true →
        σ₀.agree (marks ++ (Pattern.ofItems items).marks d)
            = true →
          db.Faithful σ₀
            (marks ++ (Pattern.ofItems items).marks d) rest way) :
    db.Faithful σ₀ marks (.pattern items :: rest)
      (some d :: way) := by
  have hMarksOf :
      marksOf (.pattern items :: rest) (some d :: way) =
        (Pattern.ofItems items).marks d ++ marksOf rest way := rfl
  have hReach := h.meet_eq hSettled hDatom hAgree
  intro τ
  rw [hMarksOf, ← List.append_assoc]
  simp only [follow, Option.bind_eq_some_iff, meets_cons, reach,
    Goal.isMet, hReach]
  cases hFits : db.fits σ₀ items d with
  | false =>
      simp only [Bool.false_and, Bool.false_eq_true, if_false,
        reduceCtorEq, false_and, exists_false]
  | true =>
      cases hStep :
          σ₀.agree
            (marks ++ (Pattern.ofItems items).marks d) with
      | false =>
          simp only [Bool.and_false, Bool.false_eq_true, if_false,
            reduceCtorEq, false_and, exists_false, false_iff]
          rintro ⟨⟨_, hEnd⟩, _⟩
          have hSub :=
            Assignment.agree_of_sublist
              (List.sublist_append_left _ _) hEnd
          rw [hStep] at hSub
          cases hSub
      | true =>
          simp only [Bool.and_self, if_true, Option.some.injEq,
            exists_eq_left', true_and]
          exact hGoesOn hFits hStep τ

/- A settled search follows just the ways that count. -/
theorem Settled.faithful
    {done : List Goal}
    (h : db.Settled may (done ++ goals) σ₀)
    (hMarks : ∀ m ∈ marks, Mark.Sound may m)
    (hDone :
      ∀ m ∈ marks, ∃ goal ∈ done, goal.binds m.1 = true)
    (hAgree : σ₀.agree marks = true)
    {way : List (Option Datom)}
    (hWay : way ∈ db.ways goals)
    (hDecided : db.Decided goals way (σ₀.extended marks)) :
    db.Faithful σ₀ marks goals way := by
  -- The goals that are done bound all that the marks bind.
  induction goals generalizing done marks way with
  | nil =>
      intro τ
      rcases List.mem_singleton.mp hWay with rfl
      simp [follow, marksOf, meets, hAgree]
  | cons goal goals ih =>
      rcases mem_ways_cons.mp hWay with
        ⟨choice, hChoice, rest, hRest, rfl⟩
      have hNext : db.Settled may (done ++ [goal] ++ goals) σ₀ := by
        rw [← List.append_cons]
        exact h
      have hStill :
          ∀ m ∈ marks, ∃ g ∈ done ++ [goal], g.binds m.1 = true := by
        intro m hm
        rcases hDone m hm with ⟨g, hg, hBinds⟩
        exact ⟨g, List.mem_append_left _ hg, hBinds⟩
      cases goal with
      | test expr =>
          rcases List.mem_singleton.mp hChoice with rfl
          rcases hDecided.1 expr rfl with ⟨b, hNow⟩
          refine
            h.faithful_test (by simp) hMarks hNow
              (fun g hg => by simp [hg]) hRest ?_
          rintro rfl
          have hReach :
              db.reach (.test expr) none (σ₀.extended marks)
                = some (σ₀.extended marks) := by
            rw [reach, hNow, Outcome.holds_ok, if_pos rfl]
          exact
            ih hNext hMarks hStill hAgree hRest
              (hDecided.2 _ hReach)
      | pattern items =>
          rcases List.mem_map.mp hChoice with ⟨d, hd, rfl⟩
          have hLeads :
              LeadsTo may (done ++ .pattern items :: goals) σ₀
                marks items := by
            refine ⟨by simp, hMarks, ?_⟩
            intro m hm hSlot
            rcases hDone m hm with ⟨other, hOther, hBinds⟩
            exact
              shares_of_binds hOther hBinds
                (List.contains_iff_mem.mpr hSlot)
          apply hLeads.faithful_pattern h hd hAgree
          intro hFits hStep
          have hNew :=
            h.sound_marks hLeads.goal hd
              (h.concerns_of_fits hd hFits)
          have hBinds :
              ∀ m ∈ Goal.marks (.pattern items) (some d),
                ∃ g ∈ done ++ [.pattern items],
                  g.binds m.1 = true :=
            fun m hm =>
              ⟨.pattern items, by simp, binds_of_mem_marks hm⟩
          have hReach :
              db.reach (.pattern items) (some d)
                  (σ₀.extended marks) =
                some (σ₀.extended
                  (marks ++ (Pattern.ofItems items).marks d)) := by
            rw [reach, hLeads.meet_eq h hd hAgree, hFits, hStep]
            rfl
          exact
            ih hNext
              (List.forall_mem_append.mpr ⟨hMarks, hNew⟩)
              (List.forall_mem_append.mpr ⟨hStill, hBinds⟩)
              hStep hRest (hDecided.2 _ hReach)

/- The search follows a way just where it counts. -/
theorem Settled.follow_eq
    (h : db.Settled may goals σ₀)
    {way : List (Option Datom)}
    (hWay : way ∈ db.ways goals)
    (hDecided : db.Decided goals way σ₀) :
    db.follow goals way σ₀ =
      if db.means σ₀ goals way then
        some (σ₀.extended (marksOf goals way))
      else none := by
  have hAll : db.Settled may ([] ++ goals) σ₀ := h
  have hFaithful : db.Faithful σ₀ [] goals way :=
    hAll.faithful (fun m hm => absurd hm List.not_mem_nil)
      (fun m hm => absurd hm List.not_mem_nil) rfl hWay hDecided
  have hStart : σ₀.extended [] = σ₀ := rfl
  apply Option.ext
  intro τ
  have hIff := hFaithful τ
  rw [hStart, List.nil_append] at hIff
  rw [hIff, Option.ite_none_right_eq_some, Option.some.injEq,
    means, Bool.and_eq_true]

/- A settled search finds what the goals mean. -/
theorem map_snd_found_eq
    {σs : List Assignment}
    (h : ∀ σ₀ ∈ σs, db.Settled may goals σ₀)
    (hDecided :
      ∀ σ₀ ∈ σs, ∀ way ∈ db.ways goals,
        db.Decided goals way σ₀) :
    (db.found goals σs).map Prod.snd = db.meaning goals σs := by
  rw [map_snd_found, meaning]
  apply List.flatMap_congr
  intro σ₀ hσ₀
  rw [← List.filterMap_eq_map, ← List.filterMap_eq_filter,
    List.filterMap_filterMap]
  apply List.filterMap_congr
  intro way hWay
  rw [(h σ₀ hσ₀).follow_eq hWay (hDecided σ₀ hσ₀ way hWay)]
  cases hMeans : db.means σ₀ goals way <;>
    simp [Option.guard, hMeans]

end Database

end FactBase
