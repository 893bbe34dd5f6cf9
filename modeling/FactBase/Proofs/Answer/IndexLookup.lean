import FactBase.Proofs.Answer.Literal
import FactBase.Proofs.Fact.Seeking

/-
  This file looks up facts by value in three ways.  The index
  of attributes and values is asked for the sort key of a
  value, the index of references for the reference itself,
  and a query has a pattern that compares the values of facts
  one by one.  Each of them turns an ident into an id on its
  own, but all of them find the same facts.

  Key definitions include:
    * `Value.IsConstant`
    * `Database.denoted`
    * `Database.factsWith`
    * `lookupCall`

  Key theorems include:
    * `Value.same_orderKey`
    * `Database.exists_scan_avet`
    * `Database.exists_scan_vaet`
    * `Database.matching_constant`
    * `Database.lookups_agree`
-/

------------------------------------------------------------
-- Constants
------------------------------------------------------------

namespace FactBase

open Sorting

/- Nothing that starts with the sigil is spelled so. -/
theorem Keyword.isSpelled_sigil (cs : List Char) :
    Keyword.isSpelled (sigil :: cs) = false := by
  have hInitial : Keyword.isInitial sigil = false := by
    decide
  have hOther : (sigil != '/') = true := by
    decide
  unfold Keyword.isSpelled
  rw [List.takeWhile_cons, List.dropWhile_cons, hOther]
  dsimp only [if_true]
  split <;> simp [Keyword.isPart, hInitial]

/- A line feed at the end is behind the sigil. -/
theorem Keyword.exists_withoutFinalBreak_sigil
    (cs : List Char) :
    ∃ rest,
      Keyword.withoutFinalBreak (sigil :: cs)
        = sigil :: rest := by
  cases cs with
  | nil => exact ⟨[], by decide⟩
  | cons c cs =>
      unfold Keyword.withoutFinalBreak
      split <;> exact ⟨_, rfl⟩

/- No keyword starts like a variable. -/
theorem Keyword.startsWithSigil_eq_false
    {s : String}
    (h : Keyword.isKeyword s = true) :
    startsWithSigil s = false := by
  rw [Bool.eq_false_iff]
  intro hStarts
  unfold startsWithSigil at hStarts
  unfold Keyword.isKeyword at h
  cases hChars : s.toList with
  | nil =>
      rw [hChars] at hStarts
      cases hStarts
  | cons c cs =>
      rw [hChars] at hStarts h
      have hSigil : c = sigil := by simpa using hStarts
      subst hSigil
      rcases Keyword.exists_withoutFinalBreak_sigil cs with
        ⟨rest, hRest⟩
      rw [hRest, Keyword.isSpelled_sigil] at h
      cases h

namespace Value

/-
  An integer, or a text that stands for itself in a pattern:
  neither a variable nor the text for a blank.
-/
inductive IsConstant : Value → Prop where
  | int (n : Int) : IsConstant (.int n)
  | text
      (s : String)
      (hBlank : s ≠ "_")
      (hName : startsWithSigil s = false) :
      IsConstant (.str s)

variable {v w : Value}

/- A constant is not wrapped to become a token. -/
theorem IsConstant.token
    (h : v.IsConstant) : (Value.lit v).token = v := by
  rw [Value.token, if_neg]
  cases h with
  | int n => simp [isVariable, variableName?]
  | text s _ hName => simp [isVariable, variableName?, hName]

/- A constant is read as it is. -/
theorem IsConstant.read
    (h : v.IsConstant)
    (σ : Assignment) : σ.read v = .known v := by
  cases h with
  | int n => rfl
  | text s hBlank hName =>
      simp [Assignment.read, hBlank, hName]

/-
  A value has the sort key of an integer or a text exactly if
  it is the same, except that truth values have keys of their
  own.
-/
theorem same_orderKey
    (hTruth : ∀ b, w ≠ .bool b)
    (hv : (∃ n, v = .int n) ∨ ∃ s, v = .str s) :
    w.orderKey.same v.orderKey = w.same v := by
  rcases hv with ⟨n, rfl⟩ | ⟨s, rfl⟩ <;>
    cases w with
    | bool b => exact absurd rfl (hTruth b)
    | _ =>
        simp [orderKey, same, sameItems, isInt, hasMagnitude,
          magnitude?]

/- Integers and texts can be compared with every value. -/
theorem equals_of_int_or_text
    (w : Value)
    (hv : (∃ n, v = .int n) ∨ ∃ s, v = .str s) :
    w.equals v = .ok (w.same v) := by
  rcases hv with ⟨n, rfl⟩ | ⟨s, rfl⟩
  · rw [equals_of_isInt w (n := n) (by simp [isInt]),
      same_int_right]
  · exact equals_bare w rfl rfl

end Value

------------------------------------------------------------
-- What a Constant Stands For
------------------------------------------------------------

/-
  What a constant stands for as a value of an attribute: where
  the attribute refers to entities, an ident stands for the id
  that it names.
-/
def Database.denoted
    (db : Database)
    (schema : Schema)
    (v : Value) : Value :=
  if schema.isRef && v.int?.isNone then
    ((Table.find? v db.idents).map Value.int).getD v
  else v

/-
  A fact of an attribute has a value.  The value is compared
  as the members of containers are.
-/
def DatomOf.hasValue
    (attr : Int)
    (v : Value)
    (d : Datom) : Bool :=
  d.attr == attr && d.value.same v

/- The facts that have for an attribute what is denoted. -/
def Database.factsWith
    (db : Database)
    (attr : Installed)
    (v : Value) : List Datom :=
  db.datoms.filter
    (DatomOf.hasValue attr.eid (db.denoted attr.schema v))

namespace Database

variable {db : Database}
variable {schema : Schema}
variable {attr : Installed}
variable {ident : String}
variable {v : Value}

/- An integer stands for itself. -/
theorem denoted_int (n : Int) :
    db.denoted schema (.int n) = .int n := by
  simp [denoted, Value.int?]

/- So does a text, unless it may name an entity. -/
theorem denoted_of_plain
    (hRef : schema.isRef = false) :
    db.denoted schema v = v := by
  simp [denoted, hRef]

/- Then it stands for the entity, if there is one. -/
theorem denoted_of_ref
    (hRef : schema.isRef = true)
    (s : String) :
    db.denoted schema (.str s)
      = ((Table.find? (.str s) db.idents).map Value.int).getD
        (.str s) := by
  simp [denoted, hRef, Value.int?]

/- A constant stands for an integer or a text. -/
theorem denoted_cases
    (h : v.IsConstant) :
    (∃ n, db.denoted schema v = .int n)
      ∨ ∃ s, db.denoted schema v = .str s := by
  cases h with
  | int n => exact .inl ⟨n, denoted_int n⟩
  | text s _ _ =>
      cases hRef : schema.isRef with
      | false => exact .inr ⟨s, denoted_of_plain hRef⟩
      | true =>
          rw [denoted_of_ref hRef]
          rcases Table.find? (.str s) db.idents with _ | eid
          · exact .inr ⟨s, rfl⟩
          · exact .inl ⟨eid, rfl⟩

/- An index takes a constant for what it stands for. -/
theorem valueComponent_constant
    (h : v.IsConstant) :
    db.valueComponent (some schema) v
      = .ok (db.denoted schema v).orderKey := by
  unfold valueComponent
  cases h with
  | int n =>
      rw [denoted_int]
      simp [Value.int?, pure, Except.pure]
  | text s _ _ =>
      cases hRef : schema.isRef with
      | false =>
          rw [denoted_of_plain hRef]
          simp [hRef, pure, Except.pure]
      | true =>
          rw [denoted_of_ref hRef]
          simp only [Option.any_some, hRef, Value.int?,
            Option.isNone_none, Bool.and_self, if_true,
            entityComponent, resolve, ok_bind]
          cases Table.find? (.str s) db.idents <;> rfl

/-
  So does a pattern.  Where it finds no id for an ident, no
  reference is the same as the ident.
-/
theorem exists_valueConstraint_constant
    (h : v.IsConstant) :
    ∃ c,
      db.valueConstraint (some schema) (.known v) = .ok c
        ∧ ∀ w : Value,
          (schema.isRef = true → w.int?.isSome = true) →
            c.admits w
              = .ok (w.same (db.denoted schema v)) := by
  have hOnly
      {u : Value}
      (hu : (∃ n, u = .int n) ∨ ∃ s, u = .str s)
      (w : Value) :
      Constraint.admits (.only u) w = .ok (w.same u) :=
    Value.equals_of_int_or_text w hu
  unfold valueConstraint
  cases h with
  | int n =>
      rw [denoted_int]
      refine ⟨.only (.int n), by simp [Value.int?], ?_⟩
      exact fun w _ => hOnly (.inl ⟨n, rfl⟩) w
  | text s _ _ =>
      cases hRef : schema.isRef with
      | false =>
          rw [denoted_of_plain hRef]
          refine ⟨.only (.str s), by simp [hRef], ?_⟩
          exact fun w _ => hOnly (.inr ⟨s, rfl⟩) w
      | true =>
          rw [denoted_of_ref hRef]
          simp only [Option.any_some, hRef, Value.int?,
            Option.isNone_none, Bool.and_self, if_true,
            resolve, ok_bind]
          rcases Table.find? (.str s) db.idents with _ | eid
          · refine ⟨.never, rfl, fun w hInt => ?_⟩
            have hOther : w.same (.str s) = false := by
              cases w <;>
                simp_all [Value.same, Value.isInt,
                  Value.hasMagnitude, Value.magnitude?]
            simp only [Option.map_none, Option.getD_none]
            rw [hOther]
            rfl
          · refine ⟨.only (.int eid), rfl, ?_⟩
            exact fun w _ => hOnly (.inl ⟨eid, rfl⟩) w

end Database

------------------------------------------------------------
-- The Three Ways
------------------------------------------------------------

namespace Database

variable {db : Database}
variable {attr : Installed}
variable {ident : String}
variable {v : Value}

/- The facts of an attribute refer to entities if it does. -/
private theorem isRef_of_attr_eq
    (hAttr : db.installed (.str ident) = .ok attr)
    {d : Datom}
    (hOf : d.attr = attr.eid) :
    db.isRef d.attr = attr.schema.isRef := by
  rw [hOf, isRef, schemaOf?_of_installed hAttr]
  rfl

/-
  The index of attributes and values has the facts with what
  a constant stands for, if the attribute has no truth values.
-/
theorem exists_scan_avet
    (hAttr : db.installed (.str ident) = .ok attr)
    (hTruth :
      ∀ d ∈ db.datoms, d.attr = attr.eid →
        ∀ b, d.value ≠ .bool b)
    (hv : v.IsConstant) :
    ∃ facts,
      db.scan (.str "avet") [.str ident, v] = .ok facts
        ∧ facts.Perm (db.factsWith attr v) := by
  have hSort :
      ∃ sorted, db.sortedFacts .avet = .ok sorted
        ∧ sorted.Perm (db.indexedFacts .avet) :=
    exists_sortedFacts nofun
  rcases hSort with ⟨sorted, hSorted, hPerm⟩
  have hKey :
      db.componentKey .avet [.str ident, v]
        = .ok
          [ .int attr.eid
          , (db.denoted attr.schema v).orderKey ] := by
    simp [componentKey, componentKeys, FactIndex.parts,
      attributeComponent, hAttr, valueComponent_constant hv,
      ok_bind, pure, Except.pure]
  refine ⟨_, scan_eq_filter hSorted hKey, ?_⟩
  refine (hPerm.filter _).trans (.of_eq ?_)
  refine List.filter_congr ?_
  intro d hd
  have hBegins :
      FactIndex.avet.begins
          [ .int attr.eid
          , (db.denoted attr.schema v).orderKey ] d
        = (d.attr == attr.eid
          && d.value.orderKey.same
            (db.denoted attr.schema v).orderKey) := by
    simp [FactIndex.begins, FactIndex.keyOf, FactIndex.parts,
      FactIndex.partOf, FactIndex.valueKey, Value.sameItems,
      Value.same, Value.isInt, BEq.comm]
  rw [hBegins, DatomOf.hasValue]
  by_cases hOf : d.attr = attr.eid
  · rw [Value.same_orderKey (hTruth d hd hOf) (denoted_cases hv)]
  · rw [beq_false_of_ne hOf, Bool.false_and, Bool.false_and]

/- Integers can be sorted as references. -/
theorem referencesSort_of_int?
    (hReferences :
      ∀ d ∈ db.datoms, db.isRef d.attr = true →
        d.value.int?.isSome = true) : db.ReferencesSort := by
  have hRanks :
      ∀ d ∈ db.datoms, db.isRef d.attr = true →
        FactIndex.vaet.Ranks d := by
    intro d hd hRef
    have hInt := hReferences d hd hRef
    refine ⟨?_, fun _ => hInt⟩
    cases hValue : d.value <;>
      simp_all [Value.int?, Value.isUndefined]
  intro d hd d' hd' hRef hRef'
  exact
    FactIndex.sortsWith_value (hRanks d hd hRef)
      (hRanks d' hd' hRef')

/-
  The index of references has the same facts, if the attribute
  refers to entities and the constant stands for one.
-/
theorem exists_scan_vaet
    (hReferences :
      ∀ d ∈ db.datoms, db.isRef d.attr = true →
        d.value.int?.isSome = true)
    (hAttr : db.installed (.str ident) = .ok attr)
    (hRef : attr.schema.isRef = true)
    (hv : v.IsConstant)
    {eid : Int}
    (hResolved : db.resolve v = .ok (some eid)) :
    ∃ facts,
      db.scan (.str "vaet") [v, .str ident] = .ok facts
        ∧ facts.Perm (db.factsWith attr v) := by
  rcases
      exists_sortedFacts (i := .vaet)
        (fun _ => referencesSort_of_int? hReferences) with
    ⟨sorted, hSorted, hPerm⟩
  have hKey :
      db.componentKey .vaet [v, .str ident]
        = .ok [.int eid, .int attr.eid] := by
    simp [componentKey, componentKeys, FactIndex.parts,
      entityComponent, attributeComponent, hAttr, hResolved,
      ok_bind, pure, Except.pure]
  have hDenoted : db.denoted attr.schema v = .int eid := by
    cases hv with
    | int n =>
        have hSame : n = eid := by
          simpa [resolve] using hResolved
        rw [denoted_int, hSame]
    | text s _ _ =>
        have hNamed :
            Table.find? (.str s) db.idents = some eid := by
          simpa [resolve] using hResolved
        rw [denoted_of_ref hRef, hNamed]
        rfl
  refine ⟨_, scan_eq_filter hSorted hKey, ?_⟩
  refine (hPerm.filter _).trans (.of_eq ?_)
  have hIndexed :
      db.indexedFacts .vaet
        = db.datoms.filter (fun d => db.isRef d.attr) := rfl
  rw [hIndexed, List.filter_filter, factsWith, hDenoted]
  refine List.filter_congr ?_
  intro d _
  have hBegins :
      FactIndex.vaet.begins [.int eid, .int attr.eid] d
        = (d.value.same (.int eid) && d.attr == attr.eid) := by
    simp [FactIndex.begins, FactIndex.keyOf, FactIndex.parts,
      FactIndex.partOf, FactIndex.valueKey, Value.sameItems,
      Value.same, Value.isInt, BEq.comm]
  rw [hBegins, DatomOf.hasValue]
  by_cases hOf : d.attr = attr.eid
  · rw [isRef_of_attr_eq hAttr hOf, hRef, Bool.and_true,
      Bool.and_comm]
  · rw [beq_false_of_ne hOf, Bool.and_false, Bool.false_and,
      Bool.false_and]

/- The facts that pass what is known about a constant. -/
private theorem filterM_admitFact_constant
    (hReferences :
      ∀ d ∈ db.datoms, db.isRef d.attr = true →
        d.value.int?.isSome = true)
    (hAttr : db.installed (.str ident) = .ok attr)
    {c : Constraint}
    (hAdmits :
      ∀ w : Value,
        (attr.schema.isRef = true → w.int?.isSome = true) →
          c.admits w
            = .ok (w.same (db.denoted attr.schema v))) :
    db.datoms.filterM
        (Constraints.admitFact
          { entity := .free
            attr := .only (.int attr.eid)
            value := c })
      = .ok (db.factsWith attr v) := by
  refine Outcome.filterM_eq_ok ?_
  intro d hd
  have hFree :
      Constraint.admits .free (.int d.entity) = .ok true := rfl
  have hOnly :
      Constraint.admits (.only (.int attr.eid)) (.int d.attr)
        = .ok (d.attr == attr.eid) := Value.equals_int _ _
  simp only [Constraints.admitFact, DatomOf.hasValue, hFree,
    hOnly, ok_bind, if_true]
  by_cases hOf : d.attr = attr.eid
  · have hFit :
        attr.schema.isRef = true →
          d.value.int?.isSome = true := by
      intro hRef
      exact
        hReferences d hd
          ((isRef_of_attr_eq hAttr hOf).trans hRef)
    rw [hAdmits d.value hFit]
    simp [hOf]
  · simp [hOf, pure, Except.pure]

/- A pattern matches the same facts. -/
theorem matching_constant
    (hReferences :
      ∀ d ∈ db.datoms, db.isRef d.attr = true →
        d.value.int?.isSome = true)
    (hAttr : db.installed (.str ident) = .ok attr)
    (hName : startsWithSigil ident = false)
    (hBlank : ident ≠ "_")
    (hv : v.IsConstant) :
    db.matching (literalItems ident v) []
      = (do
          let found ← Except.ok (db.factsWith attr v)
          return found.map DatomOf.binding) := by
  have hEntity :
      db.entityConstraint (literalItems ident v)
          (Assignment.read []
            (Pattern.ofItems (literalItems ident v)).entity)
        = .ok .free := rfl
  have hKnown := attributeConstraint_literal hAttr hName
  have hOther : Value.same (.str ident) blankToken = false := by
    rw [blankToken, Table.same_str]
    exact beq_false_of_ne hBlank
  rw [hOther, if_neg Bool.false_ne_true] at hKnown
  rcases @exists_valueConstraint_constant db attr.schema v hv
    with ⟨c, hValue, hAdmits⟩
  have hRead :
      Assignment.read [] (Value.lit v).token = .known v := by
    rw [hv.token, hv.read]
  unfold matching
  simp only [hEntity, ok_bind]
  change
    (db.attributeConstraint (Assignment.read [] (.str ident))
      >>= _) = _
  rw [hKnown, ok_bind]
  change
    (db.valueConstraint (some attr.schema)
      (Assignment.read [] (Value.lit v).token) >>= _) = _
  rw [hRead, hValue, ok_bind,
    bindings_literal hName (fun _ => rfl),
    filterM_admitFact_constant hReferences hAttr hAdmits]
  rfl

end Database

/-
  The query for the entities that have a value for an
  attribute.
-/
def lookupCall
    (db : Database)
    (ident : String)
    (v : Value) : Call where
  find := [.str entityVariable]
  inputs := [.str "$"]
  clauses := [.tuple [.str entityVariable, .str ident, v]]
  args := [.database db]

/-
  Looking a constant up by value gives the same entities, and
  each as often, whether the index of attributes and values is
  scanned or a query is evaluated.  Where the attribute refers
  to entities and the constant stands for one, the index of
  references has the same facts.  It is enough that references
  are integers and that no truth value is stored for the
  attribute, whose key would tell it from the integer that it
  equals.
-/
theorem Database.lookups_agree
    {db : Database}
    {attr : Installed}
    {ident : String}
    {v : Value}
    (hReferences :
      ∀ d ∈ db.datoms, db.isRef d.attr = true →
        d.value.int?.isSome = true)
    (hAttr : db.installed (.str ident) = .ok attr)
    (hKeyword : Keyword.isKeyword ident = true)
    (hBlank : ident ≠ "_")
    (hTruth :
      ∀ d ∈ db.datoms, d.attr = attr.eid →
        ∀ b, d.value ≠ .bool b)
    (hv : v.IsConstant)
    (growths : Growths) :
    ∃ facts rows,
      db.scan (.str "avet") [.str ident, v] = .ok facts
        ∧ (lookupCall db ident v).evaluate.run.run growths
          = (.ok rows, growths)
        ∧ rows.Perm (facts.map (fun d => [Value.int d.entity]))
        ∧ (attr.schema.isRef = true →
          ∀ eid, db.resolve v = .ok (some eid) →
            ∃ references,
              db.scan (.str "vaet") [v, .str ident]
                  = .ok references
                ∧ references.Perm facts) := by
  have hName := Keyword.startsWithSigil_eq_false hKeyword
  rcases exists_scan_avet hAttr hTruth hv with
    ⟨facts, hFacts, hPerm⟩
  have hCall :
      lookupCall db ident v
        = (literalDocument db ident v).call := by
    unfold lookupCall literalDocument QueryDocument.call
    simp only [literalItems, hv.token]
  refine
    ⟨facts,
      (db.factsWith attr v).map
        (fun d => [Value.int d.entity]),
      hFacts, ?_, hPerm.symm.map _, ?_⟩
  · rw [hCall,
      Call.evaluate_of_matching
        (matching_constant hReferences hAttr hName hBlank hv)]
    rfl
  · intro hRef eid hResolved
    rcases exists_scan_vaet hReferences hAttr hRef hv hResolved
      with ⟨references, hFound, hSame⟩
    exact ⟨references, hFound, hSame.trans hPerm.symm⟩

/-
  The second entity is a member of two groups, and all three
  ways find both of them.
-/
theorem Database.lookups_agree_memberEngine :
    ∃ facts rows references,
      Engine.memberEngine.db.scan (.str "avet")
          [.str "group/member", .int (Engine.memberId + 1)]
        = .ok facts
        ∧ (lookupCall Engine.memberEngine.db "group/member"
            (.int (Engine.memberId + 1))).evaluate.run.run []
          = (.ok rows, [])
        ∧ rows.Perm (facts.map (fun d => [Value.int d.entity]))
        ∧ Engine.memberEngine.db.scan (.str "vaet")
            [.int (Engine.memberId + 1), .str "group/member"]
          = .ok references
        ∧ references.Perm facts := by
  have hReferences :
      ∀ d ∈ Engine.memberEngine.db.datoms,
        Engine.memberEngine.db.isRef d.attr = true →
          d.value.int?.isSome = true := by
    decide +kernel
  have hInstalled :
      (Engine.memberEngine.db.installed
        (.str "group/member")).toOption.any
          (fun attr => attr.eid == 22 && attr.schema.isRef)
        = true := by
    decide +kernel
  rcases hAttr :
      Engine.memberEngine.db.installed (.str "group/member") with
    fault | attr
  · rw [hAttr] at hInstalled
    cases hInstalled
  rw [hAttr] at hInstalled
  have hBoth : attr.eid = 22 ∧ attr.schema.isRef = true := by
    simpa [Except.toOption] using hInstalled
  have hKinds :
      Engine.memberEngine.db.datoms.all (fun d =>
        d.attr != 22 || !d.value.same (.bool true)
          && !d.value.same (.bool false)) = true := by
    decide +kernel
  have hTruth :
      ∀ d ∈ Engine.memberEngine.db.datoms, d.attr = attr.eid →
        ∀ b, d.value ≠ .bool b := by
    intro d hd hOf b hValue
    have hKind := List.all_eq_true.mp hKinds d hd
    rw [hOf, hBoth.1, hValue] at hKind
    cases b <;> simp [Value.same_refl] at hKind
  rcases lookups_agree hReferences hAttr (by decide +kernel)
      (by decide) hTruth (.int (Engine.memberId + 1)) [] with
    ⟨facts, rows, hFacts, hRows, hPerm, hOthers⟩
  rcases hOthers hBoth.2 _ rfl with ⟨references, hFound, hSame⟩
  exact
    ⟨facts, rows, references, hFacts, hRows, hPerm, hFound,
      hSame⟩

end FactBase
