import FactBase.Proofs.Answer.Matching

/-
  This file compares the search for patterns in which a
  variable has a value with the search for the patterns in
  which the value is written in place of the variable.  Both
  let the same facts through; the variable has to be equal to
  what the facts hold as well.

  Key definitions include:
    * `Assignment.Simulates`
    * `Database.carries`
    * `Database.HoldsAsGiven`
    * `Database.MayName`
    * `Database.MustName`

  Key theorems include:
    * `Database.meet_inlined`
    * `Database.follow_inlined`
    * `Database.carries_of_follow`
    * `Database.follow_eq_none_of_mustName`
-/

------------------------------------------------------------
-- Values in Place of Variables
------------------------------------------------------------

namespace FactBase

open Sorting

variable {x : String}
variable {v : Value}

namespace Value

/- A token with a literal in place of a variable. -/
def inlined (x : String) (v token : Value) : Value :=
  match token with
  | .str s => if s == x then .lit v else .str s
  | token => token

/- A clause with a literal in place of a variable. -/
def inlinedClause (x : String) (v clause : Value) : Value :=
  match clause with
  | .tuple items => .tuple (items.map (inlined x v))
  | clause =>
      match clause.sequence? with
      | some items => .list (items.map (inlined x v))
      | none => clause

end Value

------------------------------------------------------------
-- Simulation
------------------------------------------------------------

namespace Assignment

/-
  An assignment gives a variable a value and is otherwise
  like another one.
-/
structure Simulates
    (x : String)
    (v : Value)
    (σ σ' : Assignment) : Prop where
  value : σ.get? x = some v
  others : ∀ y, y ≠ x → σ.held? y = σ'.held? y

variable {σ σ' : Assignment}

/- Other variables have the same value. -/
theorem Simulates.get?_of_ne
    (h : σ.Simulates x v σ')
    {y : String}
    (hy : y ≠ x) : σ.get? y = σ'.get? y := by
  unfold get?
  rw [h.others y hy]

/- Binding the variable to its value changes nothing. -/
theorem Simulates.set_self
    (h : σ.Simulates x v σ')
    {held : Held}
    (hHeld : held.value = v) :
    (σ.set x held).Simulates x v σ' where
  value := by rw [get?_set_self, hHeld]
  others := fun y hy => by
    rw [← h.others y hy]
    simp [held?, set, List.lookup_cons, beq_false_of_ne hy]

/- Binding another variable on both sides. -/
theorem Simulates.set_of_ne
    (h : σ.Simulates x v σ')
    {y : String}
    (hy : y ≠ x)
    (held : Held) :
    (σ.set y held).Simulates x v (σ'.set y held) where
  value := by
    rw [get?_set_of_ne σ held (Ne.symm hy)]
    exact h.value
  others := fun z hz => by
    by_cases hEq : z = y
    · subst hEq
      simp [held?, set]
    · have hOther := h.others z hz
      unfold held? at hOther
      simp [held?, set, List.lookup_cons,
        beq_false_of_ne hEq, hOther]

/- A bound variable is read as its value written down. -/
theorem Simulates.read_eq
    (h : σ.Simulates x v σ')
    (hName : startsWithSigil x = true)
    (token : Value) :
    σ.read token = σ'.read (Value.inlined x v token) := by
  cases token with
  | str s =>
      unfold Value.inlined
      by_cases hEq : s = x
      · subst hEq
        have hBlank : (s == "_") = false := by
          apply beq_false_of_ne
          rintro rfl
          exact absurd hName (by decide)
        simp [read, hBlank, hName, h.value]
      · simp [read, hEq, h.get?_of_ne hEq]
  | _ => rfl

end Assignment

------------------------------------------------------------
-- Facts that Carry the Value
------------------------------------------------------------

/- What is to be bound to a variable equals a value. -/
def Mark.carries
    (x : String)
    (v : Value)
    (m : Mark) : Bool :=
  m.1 != x || Outcome.holds (v.equals m.2.value)

/-
  A choice for a goal carries a value wherever the goal has a
  variable.
-/
def Goal.carries
    (x : String)
    (v : Value)
    (goal : Goal)
    (choice : Option Datom) : Bool :=
  match goal, choice with
  | .pattern items, some d =>
      ((Pattern.ofItems items).marks d).all (Mark.carries x v)
  | _, _ => true

/- All choices of a way carry the value. -/
def Database.carries
    (x : String)
    (v : Value)
    (goals : List Goal)
    (way : List (Option Datom)) : Bool :=
  (goals.zip way).all (fun p => p.1.carries x v p.2)

namespace Assignment

variable {σ σ' : Assignment}

/-
  Marks can be followed with the variable just where they
  carry its value and can be followed without the variable.
-/
theorem Simulates.along
    (h : σ.Simulates x v σ')
    (marks : List Mark)
    (hExact :
      ∀ m ∈ marks, m.1 = x →
        v.equals m.2.value = .ok true → m.2.value = v) :
    Option.Rel (Simulates x v) (σ.along marks)
      (if marks.all (Mark.carries x v) then
        σ'.along (marks.filter (fun m => m.1 != x))
      else none) := by
  induction marks generalizing σ σ' with
  | nil => exact .some h
  | cons m marks ih =>
      rcases m with ⟨y, held⟩
      rw [List.forall_mem_cons] at hExact
      by_cases hEq : y = x
      · subst hEq
        cases hCarry : Outcome.holds (v.equals held.value) with
        | false =>
            simp only [Assignment.along, h.value, Option.all_some,
              hCarry, List.all_cons, Mark.carries, bne_self_eq_false,
              Bool.or_self, Bool.false_and, Bool.false_eq_true,
              if_false]
            exact .none
        | true =>
            have hHeld : held.value = v :=
              hExact.1 rfl (Outcome.holds_iff.mp hCarry)
            simp only [Assignment.along, h.value, Option.all_some,
              hCarry, List.all_cons, Mark.carries, bne_self_eq_false,
              Bool.false_or, Bool.true_and, if_true,
              List.filter_cons, Bool.false_eq_true, if_false]
            exact ih (h.set_self hHeld) hExact.2
      · have hDiffer : (y != x) = true := by simpa using hEq
        simp only [Assignment.along, h.get?_of_ne hEq,
          List.all_cons, Mark.carries, hDiffer, Bool.true_or,
          Bool.true_and, List.filter_cons, if_true]
        split
        · exact ih (h.set_of_ne hEq held) hExact.2
        · split <;> exact .none

end Assignment

------------------------------------------------------------
-- Ways with the Value in Place
------------------------------------------------------------

/- A goal with a literal in place of a variable. -/
def Goal.inlined (x : String) (v : Value) : Goal → Goal
  | .test expr => .test expr
  | .pattern items =>
      .pattern (items.map (Value.inlined x v))

/- The tokens of a pattern with a literal in place. -/
theorem Pattern.ofItems_inlined
    (hName : startsWithSigil x = true)
    (items : List Value) :
    Pattern.ofItems (items.map (Value.inlined x v)) =
      { entity :=
          Value.inlined x v (Pattern.ofItems items).entity
        attr := Value.inlined x v (Pattern.ofItems items).attr
        value :=
          Value.inlined x v (Pattern.ofItems items).value } := by
  have hBlank :
      Value.inlined x v blankToken = blankToken := by
    have hOther : ("_" == x) = false := by
      apply beq_false_of_ne
      rintro rfl
      exact absurd hName (by decide)
    simp [Value.inlined, blankToken, hOther]
  have hToken :
      ∀ i : Nat,
        (items.map (Value.inlined x v)).getD i blankToken =
          Value.inlined x v (items.getD i blankToken) := by
    intro i
    rw [List.getD_eq_getElem?_getD, List.getElem?_map,
      List.getD_eq_getElem?_getD]
    cases items[i]? with
    | none => exact hBlank.symm
    | some token => rfl
  unfold Pattern.ofItems
  rw [hToken, hToken, hToken]

/- A literal asks for no binding of the variable. -/
theorem Value.marks_inlined
    (hName : startsWithSigil x = true)
    (token : Value)
    (held : Held) :
    (Value.inlined x v token).marks held =
      (token.marks held).filter (fun m => m.1 != x) := by
  cases token with
  | str s =>
      unfold Value.inlined
      by_cases hEq : s = x
      · subst hEq
        simp [Value.marks, Value.slot?, hName]
      · simp only [beq_false_of_ne hEq, Bool.false_eq_true,
          if_false, Value.marks, Value.slot?]
        cases startsWithSigil s <;> simp [hEq]
  | _ => rfl

/- The same for a whole pattern. -/
theorem Pattern.marks_inlined
    (hName : startsWithSigil x = true)
    (items : List Value)
    (d : Datom) :
    (Pattern.ofItems (items.map (Value.inlined x v))).marks d =
      ((Pattern.ofItems items).marks d).filter
        (fun m => m.1 != x) := by
  rw [Pattern.ofItems_inlined hName]
  unfold Pattern.marks
  simp only [List.filter_append, Value.marks_inlined hName]

namespace Database

variable {db : Database}
variable {σ σ' : Assignment}

/- What is known about an entity does not depend on the clause. -/
private theorem entityConstraint_eq_ok
    (clause clause' : List Value)
    {reading : Reading}
    {found : Constraint} :
    db.entityConstraint clause reading = .ok found ↔
      db.entityConstraint clause' reading = .ok found := by
  cases reading with
  | known w =>
      cases w with
      | str s =>
          unfold entityConstraint
          simp only
          split <;> simp [throw, throwThe, MonadExceptOf.throw,
            bind, Except.bind]
      | _ => exact Iff.rfl
  | _ => exact Iff.rfl

/- The same facts are let through. -/
theorem admits_inlined
    (h : σ.Simulates x v σ')
    (hName : startsWithSigil x = true)
    (items : List Value)
    (d : Datom) :
    db.admits items σ d =
      db.admits (items.map (Value.inlined x v)) σ' d := by
  rw [Bool.eq_iff_iff, admits_iff, admits_iff,
    Pattern.ofItems_inlined hName]
  simp only [h.read_eq hName,
    entityConstraint_eq_ok items
      (items.map (Value.inlined x v))]

/-
  The facts that a pattern is concerned with hold a value, at
  the places of a variable, in the form in which it is given:
  not as another number of its magnitude, say.
-/
def HoldsAsGiven
    (db : Database)
    (x : String)
    (v : Value)
    (items : List Value) : Prop :=
  ∀ d ∈ db.datoms, db.concerns items d = true →
    ∀ m ∈ (Pattern.ofItems items).marks d, m.1 = x →
      v.equals m.2.value = .ok true
          ∨ m.2.value.equals v = .ok true →
        m.2.value = v

/-
  A pattern goes on with the variable just where the fact
  carries its value and the pattern goes on with the value in
  place.
-/
theorem meet_inlined
    (h : σ.Simulates x v σ')
    (hName : startsWithSigil x = true)
    {items : List Value}
    {d : Datom}
    (hDatom : d ∈ db.datoms)
    (hGiven : db.HoldsAsGiven x v items) :
    Option.Rel (Assignment.Simulates x v) (db.meet items σ d)
      (if (Goal.pattern items).carries x v (some d) then
        db.meet (items.map (Value.inlined x v)) σ' d
      else none) := by
  unfold meet
  rw [admits_inlined h hName, Pattern.marks_inlined hName]
  cases hAdmits :
      db.admits (items.map (Value.inlined x v)) σ' d with
  | false =>
      simp only [Bool.false_eq_true, if_false, ite_self]
      exact .none
  | true =>
      rw [← admits_inlined h hName] at hAdmits
      have hConcerns := concerns_of_admits hAdmits
      simp only [if_true]
      apply h.along
      intro m hm hx hEquals
      exact hGiven d hDatom hConcerns m hm hx (.inl hEquals)

/-
  Goals can be followed with the variable just where the
  facts carry its value and the goals can be followed with
  the value in place.
-/
theorem follow_inlined
    (hName : startsWithSigil x = true)
    {goals : List Goal}
    (hGoals :
      ∀ goal ∈ goals, ∃ items, goal = .pattern items
        ∧ db.HoldsAsGiven x v items)
    {way : List (Option Datom)}
    (hWay : way ∈ db.ways goals)
    (h : σ.Simulates x v σ') :
    Option.Rel (Assignment.Simulates x v)
      (db.follow goals way σ)
      (if Database.carries x v goals way then
        db.follow (goals.map (Goal.inlined x v)) way σ'
      else none) := by
  induction goals generalizing way σ σ' with
  | nil => exact .some h
  | cons goal goals ih =>
      rcases mem_ways_cons.mp hWay with
        ⟨choice, hChoice, rest, hRest, rfl⟩
      rw [List.forall_mem_cons] at hGoals
      rcases hGoals with ⟨⟨items, rfl, hGiven⟩, hLater⟩
      rcases List.mem_map.mp hChoice with ⟨d, hDatom, rfl⟩
      have hMeet := meet_inlined h hName hDatom hGiven
      have hCarries :
          Database.carries x v (.pattern items :: goals)
              (some d :: rest) =
            ((Goal.pattern items).carries x v (some d)
              && Database.carries x v goals rest) := rfl
      rw [hCarries]
      simp only [List.map_cons, Goal.inlined, follow, reach]
      generalize db.meet items σ d = left at hMeet ⊢
      cases hFirst :
          (Goal.pattern items).carries x v (some d) with
      | false =>
          rw [hFirst] at hMeet
          cases hMeet
          exact .none
      | true =>
          rw [hFirst, if_pos rfl] at hMeet
          generalize
            db.meet (items.map (Value.inlined x v)) σ' d = right
            at hMeet ⊢
          cases hMeet with
          | none =>
              simp only [Option.bind_none, ite_self]
              exact .none
          | some hNext => exact ih hLater hRest hNext

------------------------------------------------------------
-- Values that Name
------------------------------------------------------------

/-
  A pattern has the variable where its value, which is no id
  itself, may be followed to what it names.
-/
def MayName
    (db : Database)
    (x : String)
    (v : Value)
    (items : List Value) : Prop :=
  let p := Pattern.ofItems items
  (p.entity = .str x ∧ ∀ n : Int, v ≠ .int n)
    ∨ (p.attr = .str x ∧ ∃ s, v = .str s)
    ∨ (p.value = .str x ∧ v.int? = none
        ∧ ∃ d ∈ db.datoms,
            db.concerns items d = true
              ∧ db.isRef d.attr = true)

/-
  A pattern has the variable where its value, which is no id,
  is followed to what it names in any case.
-/
def MustName
    (db : Database)
    (x : String)
    (v : Value)
    (items : List Value) : Prop :=
  let p := Pattern.ofItems items
  (p.entity = .str x ∧ ∀ n : Int, v ≠ .int n)
    ∨ (p.attr = .str x ∧ ∀ n : Int, v ≠ .int n)
    ∨ (p.value = .str x ∧ v.int? = none
        ∧ (∃ attr, p.attr.constant? = some attr)
        ∧ ∀ d ∈ db.datoms, db.concerns items d = true →
            db.isRef d.attr = true)

/-
  Where the value is not followed to what it names, a fact
  that is let through holds what equals it.
-/
theorem equals_of_admits
    {items : List Value}
    {d : Datom}
    (hValue : σ.get? x = some v)
    (hAdmits : db.admits items σ d = true)
    (hDatom : d ∈ db.datoms)
    (hNames : ¬ db.MayName x v items)
    {m : Mark}
    (hMark : m ∈ (Pattern.ofItems items).marks d)
    (hVariable : m.1 = x) :
    m.2.value.equals v = .ok true := by
  unfold MayName at hNames
  simp only [not_or, not_and, not_forall, not_not] at hNames
  rcases hNames with ⟨hByEntity, hByAttr, hByValue⟩
  rcases admits_iff.mp hAdmits with
    ⟨entity, known, value, hEntity, hAttr, hValueAt, hFits,
      hFitsAttr, hFitsValue⟩
  unfold Pattern.marks at hMark
  simp only [List.mem_append] at hMark
  rcases hMark with (hMark | hMark) | hMark
  · rcases Value.eq_of_mem_marks hMark with
      ⟨hToken, hName, hHeld⟩
    rw [hVariable] at hToken hName
    rcases hByEntity hToken with ⟨n, rfl⟩
    rw [hToken, Assignment.read_of_get? hName hValue] at hEntity
    have hOnly : entity = .only (.int n) :=
      (Except.ok.inj hEntity).symm
    rw [hHeld]
    rw [hOnly] at hFits
    exact hFits
  · rcases Value.eq_of_mem_marks hMark with
      ⟨hToken, hName, hHeld⟩
    rw [hVariable] at hToken hName
    rw [hToken, Assignment.read_of_get? hName hValue] at hAttr
    rw [hHeld]
    exact
      equals_of_attributeConstraint hAttr hFitsAttr
        (fun s hText => hByAttr hToken ⟨s, hText⟩)
  · rcases Value.eq_of_mem_marks hMark with
      ⟨hToken, hName, hHeld⟩
    rw [hVariable] at hToken hName
    rw [hToken, Assignment.read_of_get? hName hValue] at hValueAt
    rw [hHeld]
    rcases valueConstraint_cases hValueAt hFitsValue with
      ⟨hFollowed, _⟩ | ⟨_, hEqual⟩
    · rw [Bool.and_eq_true, Option.isNone_iff_eq_none]
        at hFollowed
      rcases (Option.any_eq_true _ _).mp hFollowed.1 with
        ⟨schema, hSchema, hRef⟩
      have hDefined :=
        schemaOf?_of_attributeConstraint hAttr hSchema hFitsAttr
      have hIsRef : db.isRef d.attr = true := by
        simp [isRef, hDefined, hRef]
      exact
        absurd
          ⟨d, hDatom, concerns_of_admits hAdmits, hIsRef⟩
          (hByValue hToken hFollowed.2)
    · exact hEqual

/- What names an entity without being an id equals no id. -/
private theorem not_equals_int_of_resolve
    {n m : Int}
    (hNumber : v.int? = none)
    (hResolve : db.resolve v = .ok (some n))
    (hEquals : v.equals (.int m) = .ok true) : False := by
  have hApart : v.same (.int m) = false := by
    cases v with
    | bool b => simp [Value.int?] at hNumber
    | int k => simp [Value.int?] at hNumber
    | float y => simp [resolve, Value.sequence?] at hResolve
    | _ => simp [Value.same]
  cases hEndless : v.endless with
  | false =>
      rw [Value.same_of_equals hEndless hEquals] at hApart
      cases hApart
  | true =>
      have hUndefined : v.isUndefined = false := by
        cases v <;> simp [Value.endless] at hEndless <;> rfl
      have hOther : (Value.int m).endless = false := rfl
      simp only [Value.equals, Value.equals?, hUndefined,
        Value.alike?_of_endless_of_not_endless _ _ hEndless
          hOther, Bool.false_eq_true, if_false] at hEquals
      cases hEquals

/-
  A fact that refers to what the value names does not hold
  the value itself.
-/
private theorem ne_value_of_followed
    {items : List Value}
    {d : Datom}
    (hName : startsWithSigil x = true)
    (hValue : σ.get? x = some v)
    (hToken : (Pattern.ofItems items).value = .str x)
    (hNumber : v.int? = none)
    {attr : Value}
    (hConstant :
      (Pattern.ofItems items).attr.constant? = some attr)
    (hIsRef : db.isRef d.attr = true)
    (hAdmits : db.admits items σ d = true) : d.value ≠ v := by
  intro hHeld
  rcases admits_iff.mp hAdmits with
    ⟨_, known, value, _, hAttr, hValueAt, _, hFitsAttr, hFits⟩
  rw [Assignment.read_of_constant σ hConstant] at hAttr
  rw [hToken, Assignment.read_of_get? hName hValue] at hValueAt
  rcases isSome_of_attributeConstraint hAttr hFitsAttr with
    ⟨schema, hSchema⟩
  have hDefined :=
    schemaOf?_of_attributeConstraint hAttr hSchema hFitsAttr
  have hRef : schema.isRef = true := by
    simpa [isRef, hDefined] using hIsRef
  rcases valueConstraint_cases hValueAt hFits with
    ⟨_, n, hResolve, hEqual⟩ | ⟨hDirect, _⟩
  · rw [hHeld] at hEqual
    exact not_equals_int_of_resolve hNumber hResolve hEqual
  · simp [hSchema, hRef, hNumber] at hDirect

/-
  Where the value is followed to what it names, the pattern
  goes on with no fact.
-/
theorem meet_eq_none_of_mustName
    {items : List Value}
    {d : Datom}
    (hName : startsWithSigil x = true)
    (hValue : σ.get? x = some v)
    (hDatom : d ∈ db.datoms)
    (hGiven : db.HoldsAsGiven x v items)
    (hNames : db.MustName x v items) :
    db.meet items σ d = none := by
  cases hMeet : db.meet items σ d with
  | none => rfl
  | some τ =>
      exfalso
      have hSelf : σ.Simulates x v σ := ⟨hValue, fun _ _ => rfl⟩
      have hInlined := meet_inlined hSelf hName hDatom hGiven
      have hAdmits : db.admits items σ d = true := by
        unfold meet at hMeet
        split at hMeet
        next hAdmits => exact hAdmits
        next => cases hMeet
      have hCarries :
          (Goal.pattern items).carries x v (some d) = true := by
        cases hCarries :
            (Goal.pattern items).carries x v (some d) with
        | true => rfl
        | false =>
            rw [hMeet, hCarries] at hInlined
            cases hInlined
      -- What the fact carries is the value itself.
      have hHeld :
          ∀ m ∈ (Pattern.ofItems items).marks d, m.1 = x →
            m.2.value = v := by
        intro m hm hx
        have hCarry := List.all_eq_true.mp hCarries m hm
        simp only [Mark.carries, hx, bne_self_eq_false,
          Bool.false_or] at hCarry
        exact
          hGiven d hDatom (concerns_of_admits hAdmits) m hm hx
            (.inl (Outcome.holds_iff.mp hCarry))
      rcases hNames with
        ⟨hToken, hNoId⟩ | ⟨hToken, hNoId⟩ |
          ⟨hToken, hNumber, ⟨attr, hConstant⟩, hRefs⟩
      · have hMark :=
          hHeld (x, .fresh (.int d.entity)) (by
            simp [Pattern.marks, hToken,
              Value.mem_marks_str hName]) rfl
        exact hNoId d.entity hMark.symm
      · have hMark :=
          hHeld (x, .fresh (.int d.attr)) (by
            simp [Pattern.marks, hToken,
              Value.mem_marks_str hName]) rfl
        exact hNoId d.attr hMark.symm
      · have hMark : d.value = v :=
          hHeld (x, .ofDatom d) (by
            simp [Pattern.marks, hToken,
              Value.mem_marks_str hName]) rfl
        have hIsRef :=
          hRefs d hDatom (concerns_of_admits hAdmits)
        exact
          ne_value_of_followed hName hValue hToken hNumber
            hConstant hIsRef hAdmits hMark

/- Nothing can be followed where the value must name. -/
theorem follow_eq_none_of_mustName
    (hName : startsWithSigil x = true)
    {goals : List Goal}
    (hGoals :
      ∀ goal ∈ goals, ∃ items, goal = .pattern items
        ∧ db.HoldsAsGiven x v items)
    (hNames :
      ∃ items, .pattern items ∈ goals ∧ db.MustName x v items)
    {way : List (Option Datom)}
    (hWay : way ∈ db.ways goals)
    (hValue : σ.get? x = some v) :
    db.follow goals way σ = none := by
  induction goals generalizing way σ with
  | nil => simp at hNames
  | cons goal goals ih =>
      rcases mem_ways_cons.mp hWay with
        ⟨choice, hChoice, rest, hRest, rfl⟩
      rw [List.forall_mem_cons] at hGoals
      rcases hGoals with ⟨⟨items, rfl, hGiven⟩, hLater⟩
      rcases List.mem_map.mp hChoice with ⟨d, hDatom, rfl⟩
      simp only [follow, reach]
      rcases hNames with ⟨named, hMem, hMust⟩
      rcases List.mem_cons.mp hMem with hHere | hThere
      · rw [Goal.pattern.injEq] at hHere
        subst hHere
        rw [meet_eq_none_of_mustName hName hValue hDatom hGiven
          hMust]
        rfl
      · have hSelf : σ.Simulates x v σ :=
          ⟨hValue, fun _ _ => rfl⟩
        have hMeet := meet_inlined hSelf hName hDatom hGiven
        generalize db.meet items σ d = next at hMeet ⊢
        cases next with
        | none => rfl
        | some τ =>
            refine ih hLater ⟨named, hThere, hMust⟩ hRest ?_
            split at hMeet
            · generalize db.meet _ σ d = other at hMeet
              cases hMeet with
              | some hNext => exact hNext.value
            · cases hMeet

/-
  Where the value never has to name, the facts of every way
  with the value in place carry the value.
-/
theorem carries_of_follow
    (hName : startsWithSigil x = true)
    {goals : List Goal}
    (hGoals :
      ∀ goal ∈ goals, ∃ items, goal = .pattern items
        ∧ db.HoldsAsGiven x v items
        ∧ ¬ db.MayName x v items)
    {way : List (Option Datom)}
    (hWay : way ∈ db.ways goals)
    (h : σ.Simulates x v σ')
    {τ : Assignment}
    (hFollow :
      db.follow (goals.map (Goal.inlined x v)) way σ' = some τ) :
    Database.carries x v goals way = true := by
  induction goals generalizing way σ σ' with
  | nil => simp [Database.carries]
  | cons goal goals ih =>
      rcases mem_ways_cons.mp hWay with
        ⟨choice, hChoice, rest, hRest, rfl⟩
      rw [List.forall_mem_cons] at hGoals
      rcases hGoals with ⟨⟨items, rfl, hGiven, hNames⟩, hLater⟩
      rcases List.mem_map.mp hChoice with ⟨d, hDatom, rfl⟩
      simp only [List.map_cons, Goal.inlined, follow, reach]
        at hFollow
      have hMeet := meet_inlined h hName hDatom hGiven
      cases hNext :
          db.meet (items.map (Value.inlined x v)) σ' d with
      | none =>
          rw [hNext] at hFollow
          cases hFollow
      | some υ =>
          have hAdmits : db.admits items σ d = true := by
            unfold meet at hNext
            split at hNext
            next hAdmits =>
              rw [admits_inlined h hName]
              exact hAdmits
            next => cases hNext
          have hHere :
              (Goal.pattern items).carries x v (some d)
                = true := by
            apply List.all_eq_true.mpr
            intro m hm
            by_cases hx : m.1 = x
            · have hEquals :=
                equals_of_admits h.value hAdmits hDatom hNames
                  hm hx
              have hHeld :=
                hGiven d hDatom (concerns_of_admits hAdmits) m
                  hm hx (.inr hEquals)
              rw [hHeld] at hEquals
              simp [Mark.carries, hHeld, hEquals]
            · simp [Mark.carries, hx]
          rw [hNext] at hFollow
          rw [hHere, if_pos rfl, hNext] at hMeet
          generalize db.meet items σ d = left at hMeet
          cases hMeet with
          | some hRel =>
              have hThere := ih hLater hRest hRel hFollow
              unfold Database.carries at hThere ⊢
              rw [List.zip_cons_cons, List.all_cons, hHere,
                hThere]
              rfl

end Database

end FactBase
