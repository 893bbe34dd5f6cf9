import FactBase.Proofs.Fact.Removal

/-
  This file says what a ledger becomes when values are added
  to it one after the other.  Where the values of an attribute
  that can have only one agree, the facts in the end do not
  depend on the order: they are the facts from before that no
  new value displaces, and one fact for each new value.

  Key definitions include:
    * `Assertion`
    * `Assertion.Agree`
    * `Ledger.knows`
    * `Ledger.cleared`
    * `Ledger.enter`
    * `Ledger.displaces`
    * `Ledger.Entered`

  Key theorems include:
    * `Ledger.add_definite`
    * `Ledger.knows_congr`
    * `Ledger.Entered.enter`
    * `Ledger.entered_enterAll`
    * `Ledger.Entered.sameFacts`
    * `Ledger.enterAll_of_known`
-/

------------------------------------------------------------
-- Known Values
------------------------------------------------------------

namespace FactBase

open Sorting

namespace Ledger

/- Some fact gives an entity a value for an attribute. -/
def knows
    (entity attr : Int)
    (v : Value)
    (l : Ledger) : Bool :=
  l.datoms.any (fun d =>
    isAbout entity attr d && d.value.same v)

/-
  The ledger in which an entity is ready for one more value
  of an attribute.
-/
def cleared
    (tx entity : Int)
    (attr : Installed)
    (l : Ledger) : Ledger :=
  if attr.schema.many then l
  else
    { datoms :=
        l.datoms.filter
          (fun d => !d.goesWith (isAbout entity attr.eid))
      log :=
        l.log ++
          (l.datoms.filter
            (·.goesWith (isAbout entity attr.eid))).map
            (·.retraction tx) }

/- A known value is given by a fact. -/
theorem knows_iff
    {entity attr : Int}
    {v : Value}
    {l : Ledger} :
    l.knows entity attr v = true
      ↔ ∃ d ∈ l.datoms,
          d.entity = entity ∧ d.attr = attr
            ∧ d.value.same v = true := by
  simp [knows, isAbout, and_assoc]

/- To know a value is to know what it is the same as. -/
theorem knows_of_same
    {entity attr : Int}
    {v w : Value}
    {l : Ledger}
    (hSame : v.same w = true)
    (h : l.knows entity attr v = true) :
    l.knows entity attr w = true := by
  rcases knows_iff.mp h with ⟨d, hd, hEntity, hAttr, hValue⟩
  exact
    knows_iff.mpr
      ⟨d, hd, hEntity, hAttr, Value.same_trans hValue hSame⟩

/- A definite value that is not known is entered at the end. -/
theorem add_definite
    (tx entity : Int)
    (attr : Installed)
    {v : Value}
    (hDefinite : v.definite = true)
    (l : Ledger) :
    l.add tx entity attr v
      = .ok
        (if l.knows entity attr.eid v then l
          else
            (l.cleared tx entity attr).append
              { entity := entity
                attr := attr.eid
                value := v
                tx := tx
                added := true
                origin :=
                  (l.cleared tx entity attr).nextOrigin tx }) := by
  have hKnown :
      (l.about entity attr.eid).anyM
          (fun d => d.value.equals v)
        = (pure (l.knows entity attr.eid v) : Outcome Bool) := by
    have hTest :
        (fun d : Datom => d.value.equals v)
          = fun d => (pure (d.value.same v) : Outcome Bool) :=
      funext fun d => Value.equals_definite d.value hDefinite
    rw [hTest, List.anyM_pure]
    unfold knows about isAbout
    rw [List.any_filter]
  unfold add cleared
  simp only [hKnown, pure_bind]
  by_cases hKnows : l.knows entity attr.eid v = true
  · simp only [if_pos hKnows]
    rfl
  · simp only [if_neg hKnows]
    cases attr.schema.many with
    | true => rfl
    | false =>
        simp only [Bool.false_eq_true, if_false,
          retractAll_about, ok_bind]
        rfl

end Ledger

------------------------------------------------------------
-- Assertions
------------------------------------------------------------

/- An entity with a value for an installed attribute. -/
structure Assertion where
  entity : Int
  attr : Installed
  value : Value

namespace Assertion

/- Both give one entity a value for one attribute. -/
def Meets (a b : Assertion) : Prop :=
  a.entity = b.entity ∧ a.attr.eid = b.attr.eid

/-
  The assertions are definite, and those that give an entity
  a value for an attribute that can have only one give it the
  same one.
-/
structure Agree (as : List Assertion) : Prop where
  definite : ∀ a ∈ as, a.value.definite = true
  attr :
    ∀ a ∈ as, ∀ b ∈ as,
      a.attr.eid = b.attr.eid → a.attr = b.attr
  single :
    ∀ a ∈ as, ∀ b ∈ as,
      a.Meets b → a.attr.schema.many = false →
        a.value.same b.value = true

variable {as bs : List Assertion}

/- Of assertions that agree, some of them do. -/
theorem Agree.subset
    (h : Agree bs)
    (hSub : ∀ a ∈ as, a ∈ bs) : Agree as where
  definite a ha := h.definite a (hSub a ha)
  attr a ha b hb := h.attr a (hSub a ha) b (hSub b hb)
  single a ha b hb := h.single a (hSub a ha) b (hSub b hb)

end Assertion

namespace Ledger

variable {tx : Int}
variable {l start : Ledger}
variable {a : Assertion}
variable {as bs : List Assertion}

/- The ledger in which an assertion was entered. -/
def enter
    (tx : Int)
    (l : Ledger)
    (a : Assertion) : Ledger :=
  if l.knows a.entity a.attr.eid a.value then l
  else
    let cleared := l.cleared tx a.entity a.attr
    cleared.append
      { entity := a.entity
        attr := a.attr.eid
        value := a.value
        tx := tx
        added := true
        origin := cleared.nextOrigin tx }

/- The ledger in which assertions were entered in turn. -/
def enterAll
    (tx : Int)
    (as : List Assertion)
    (l : Ledger) : Ledger :=
  as.foldl (enter tx) l

/- Entering what is known changes nothing. -/
theorem enterAll_of_known
    (h :
      ∀ a ∈ as, l.knows a.entity a.attr.eid a.value = true) :
    l.enterAll tx as = l := by
  induction as with
  | nil => rfl
  | cons a as ih =>
      rw [List.forall_mem_cons] at h
      have hFirst : l.enter tx a = l := if_pos h.1
      rw [enterAll, List.foldl_cons, hFirst]
      exact ih h.2

------------------------------------------------------------
-- What Is Displaced
------------------------------------------------------------

/- The fact states what is asserted. -/
def States
    (d : Datom)
    (a : Assertion) : Prop :=
  d.entity = a.entity ∧ d.attr = a.attr.eid
    ∧ d.value = a.value

/-
  The fact has to make room for an assertion that is not
  known.
-/
def Displaces
    (l : Ledger)
    (a : Assertion)
    (d : Datom) : Prop :=
  a.attr.schema.many = false
    ∧ d.goesWith (isAbout a.entity a.attr.eid) = true
    ∧ l.knows a.entity a.attr.eid a.value = false

/- What makes room is about the entity and the attribute. -/
private theorem about_of_goesWith
    {d : Datom}
    (h : d.goesWith (isAbout a.entity a.attr.eid) = true) :
    d.entity = a.entity ∧ d.attr = a.attr.eid := by
  simp only [DatomOf.goesWith, isAbout, Bool.and_eq_true,
    beq_iff_eq] at h
  exact h.1

/- What stays when room is made for an assertion. -/
theorem mem_cleared_iff
    {d : Datom} :
    d ∈ (l.cleared tx a.entity a.attr).datoms
      ↔ d ∈ l.datoms
        ∧ ¬(a.attr.schema.many = false
          ∧ d.goesWith (isAbout a.entity a.attr.eid)
              = true) := by
  unfold cleared
  cases a.attr.schema.many <;> simp

/-
  The facts after assertions were entered: those from before
  that none of them displaces, and others that they state.
  All of them are known, and what the log tells besides is
  about their attributes.
-/
structure Entered
    (start : Ledger)
    (as : List Assertion)
    (l : Ledger) : Prop where
  stays :
    ∀ d ∈ start.datoms,
      (∀ a ∈ as, ¬start.Displaces a d) → d ∈ l.datoms
  comes :
    ∀ d ∈ l.datoms,
      (d ∈ start.datoms ∧ ∀ a ∈ as, ¬start.Displaces a d)
        ∨ ∃ a ∈ as, States d a
  known :
    ∀ a ∈ as, l.knows a.entity a.attr.eid a.value = true
  log :
    ∃ entries,
      l.log = start.log ++ entries
        ∧ ∀ d ∈ entries, ∃ a ∈ as, d.attr = a.attr.eid

/- Nothing has been entered. -/
theorem Entered.refl (start : Ledger) : start.Entered [] start where
  stays _ hd _ := hd
  comes _ hd :=
    .inl ⟨hd, fun _ ha => absurd ha List.not_mem_nil⟩
  known _ ha := absurd ha List.not_mem_nil
  log :=
    ⟨[], (List.append_nil _).symm,
      fun _ hd => absurd hd List.not_mem_nil⟩

/- What an assertion stands for is known before if now. -/
private theorem displaces_of_known
    (hAgree : Assertion.Agree (as ++ [a]))
    (h : start.Entered as l)
    (hKnown : l.knows a.entity a.attr.eid a.value = true)
    {d : Datom}
    (hDisplaces : start.Displaces a d) :
    ∃ b ∈ as, start.Displaces b d := by
  rcases hDisplaces with ⟨hOne, hGoes, hNew⟩
  rcases knows_iff.mp hKnown with
    ⟨c, hc, hEntity, hAttr, hSame⟩
  rcases h.comes c hc with ⟨hStart, _⟩ | ⟨b, hb, hStates⟩
  · have hOld :=
      knows_iff.mpr ⟨c, hStart, hEntity, hAttr, hSame⟩
    rw [hNew] at hOld
    cases hOld
  · rcases hStates with ⟨hbEntity, hbAttr, _⟩
    have hMeets : a.Meets b :=
      ⟨hEntity.symm.trans hbEntity, hAttr.symm.trans hbAttr⟩
    have ha : a ∈ as ++ [a] := by simp
    have hb' : b ∈ as ++ [a] := List.mem_append_left _ hb
    have hSchema := hAgree.attr a ha b hb' hMeets.2
    refine ⟨b, hb, hSchema ▸ hOne, ?_, ?_⟩
    · rw [← hMeets.1, ← hMeets.2]
      exact hGoes
    · rw [Bool.eq_false_iff] at hNew ⊢
      intro hOld
      rw [← hMeets.1, ← hMeets.2] at hOld
      refine hNew (knows_of_same ?_ hOld)
      exact
        hAgree.single b hb' a ha
          ⟨hMeets.1.symm, hMeets.2.symm⟩ (hSchema ▸ hOne)

/- What was known before is known as long as it agrees. -/
private theorem not_known_of_not_known
    (hAgree : Assertion.Agree (as ++ [a]))
    (h : start.Entered as l)
    (hNew : l.knows a.entity a.attr.eid a.value = false) :
    start.knows a.entity a.attr.eid a.value = false := by
  rw [Bool.eq_false_iff] at hNew ⊢
  intro hOld
  rcases knows_iff.mp hOld with ⟨c, hc, hEntity, hAttr, hSame⟩
  refine
    hNew
      (knows_iff.mpr
        ⟨c, h.stays c hc ?_, hEntity, hAttr, hSame⟩)
  rintro b hb ⟨hOne, hGoes, hUnknown⟩
  -- What displaces the fact agrees with what it states.
  rcases about_of_goesWith hGoes with ⟨hEntity', hAttr'⟩
  have hMeets : b.Meets a :=
    ⟨hEntity'.symm.trans hEntity, hAttr'.symm.trans hAttr⟩
  have hbKnown : start.knows b.entity b.attr.eid b.value = true := by
    rw [hMeets.1, hMeets.2]
    refine knows_of_same ?_ hOld
    exact
      hAgree.single a (by simp) b (List.mem_append_left _ hb)
        ⟨hMeets.1.symm, hMeets.2.symm⟩
        (hAgree.attr b (List.mem_append_left _ hb) a (by simp)
          hMeets.2 ▸ hOne)
  rw [hUnknown] at hbKnown
  cases hbKnown

/- Entering one more assertion that is known already. -/
private theorem Entered.enter_known
    (hAgree : Assertion.Agree (as ++ [a]))
    (h : start.Entered as l)
    (hKnown : l.knows a.entity a.attr.eid a.value = true) :
    start.Entered (as ++ [a]) l where
  stays d hd hStays :=
    h.stays d hd
      (fun b hb => hStays b (List.mem_append_left _ hb))
  comes d hd := by
    rcases h.comes d hd with ⟨hStart, hStays⟩ | ⟨b, hb, hStates⟩
    · refine
        .inl
          ⟨hStart,
            forall_mem_append_singleton.mpr ⟨hStays, ?_⟩⟩
      intro hDisplaces
      rcases displaces_of_known hAgree h hKnown hDisplaces with
        ⟨b, hb, hOther⟩
      exact hStays b hb hOther
    · exact .inr ⟨b, List.mem_append_left _ hb, hStates⟩
  known := forall_mem_append_singleton.mpr ⟨h.known, hKnown⟩
  log := by
    rcases h.log with ⟨entries, hLog, hAbout⟩
    refine ⟨entries, hLog, ?_⟩
    intro d hd
    rcases hAbout d hd with ⟨b, hb, hAttr⟩
    exact ⟨b, List.mem_append_left _ hb, hAttr⟩

/- What the log tells of making room is about the attribute. -/
private theorem exists_log_cleared
    (tx : Int)
    (l : Ledger)
    (a : Assertion) :
    ∃ entries,
      (l.cleared tx a.entity a.attr).log = l.log ++ entries
        ∧ ∀ d ∈ entries, d.attr = a.attr.eid := by
  unfold cleared
  cases a.attr.schema.many with
  | true =>
      exact
        ⟨[], (List.append_nil _).symm,
          fun _ hd => absurd hd List.not_mem_nil⟩
  | false =>
      refine ⟨_, rfl, ?_⟩
      rw [List.forall_mem_map]
      intro d hd
      exact (about_of_goesWith (List.mem_filter.mp hd).2).2

/-
  What is known stays known when room is made for another
  assertion, as only values that agree make room for one
  another.
-/
private theorem knows_of_cleared
    (hSingle :
      a.Meets b → a.attr.schema.many = false →
        a.value.same b.value = true)
    {fact : Datom}
    (hStates : States fact a)
    (hKnown : l.knows b.entity b.attr.eid b.value = true) :
    ((l.cleared tx a.entity a.attr).append fact).knows
      b.entity b.attr.eid b.value = true := by
  rcases knows_iff.mp hKnown with
    ⟨c, hc, hEntity, hAttr, hSame⟩
  rw [knows_iff]
  by_cases hGone :
      a.attr.schema.many = false
        ∧ c.goesWith (isAbout a.entity a.attr.eid) = true
  · rcases about_of_goesWith hGone.2 with ⟨hEntity', hAttr'⟩
    have hMeets : a.Meets b :=
      ⟨hEntity'.symm.trans hEntity, hAttr'.symm.trans hAttr⟩
    refine
      ⟨fact, List.mem_append_right _ (by simp),
        hStates.1.trans hMeets.1,
        hStates.2.1.trans hMeets.2, ?_⟩
    rw [hStates.2.2]
    exact hSingle hMeets hGone.1
  · exact
      ⟨c,
        List.mem_append_left _ (mem_cleared_iff.mpr ⟨hc, hGone⟩),
        hEntity, hAttr, hSame⟩

/- Entering one more assertion that is not known yet. -/
private theorem Entered.enter_new
    (hAgree : Assertion.Agree (as ++ [a]))
    (h : start.Entered as l)
    (hNew : l.knows a.entity a.attr.eid a.value = false)
    {fact : Datom}
    (hStates : States fact a) :
    start.Entered (as ++ [a])
      ((l.cleared tx a.entity a.attr).append fact) where
  stays d hd hStays := by
    rw [forall_mem_append_singleton] at hStays
    refine
      List.mem_append_left _
        (mem_cleared_iff.mpr ⟨h.stays d hd hStays.1, ?_⟩)
    rintro ⟨hOne, hGoes⟩
    exact
      hStays.2
        ⟨hOne, hGoes, not_known_of_not_known hAgree h hNew⟩
  comes d hd := by
    rcases List.mem_append.mp hd with hd | hd
    · rcases mem_cleared_iff.mp hd with ⟨hBefore, hKept⟩
      rcases h.comes d hBefore with
        ⟨hStart, hStays⟩ | ⟨b, hb, hOther⟩
      · refine
          .inl
            ⟨hStart,
              forall_mem_append_singleton.mpr ⟨hStays, ?_⟩⟩
        exact fun hGone => hKept ⟨hGone.1, hGone.2.1⟩
      · exact .inr ⟨b, List.mem_append_left _ hb, hOther⟩
    · rcases List.mem_singleton.mp hd with rfl
      exact .inr ⟨a, by simp, hStates⟩
  known := by
    refine forall_mem_append_singleton.mpr ⟨?_, ?_⟩
    · intro b hb
      refine knows_of_cleared ?_ hStates (h.known b hb)
      exact
        hAgree.single a (by simp) b (List.mem_append_left _ hb)
    · refine
        knows_iff.mpr
          ⟨fact, List.mem_append_right _ (by simp), hStates.1,
            hStates.2.1, ?_⟩
      rw [hStates.2.2]
      exact Value.same_refl _
  log := by
    rcases h.log with ⟨entries, hLog, hAbout⟩
    rcases exists_log_cleared tx l a with
      ⟨gone, hGone, hGoneAbout⟩
    refine ⟨entries ++ gone ++ [fact], ?_, ?_⟩
    · change (l.cleared tx a.entity a.attr).log ++ [fact] = _
      rw [hGone, hLog]
      simp
    · rw [forall_mem_append_singleton, List.forall_mem_append]
      refine ⟨⟨?_, ?_⟩, a, by simp, hStates.2.1⟩
      · intro d hd
        rcases hAbout d hd with ⟨b, hb, hAttr⟩
        exact ⟨b, List.mem_append_left _ hb, hAttr⟩
      · exact fun d hd => ⟨a, by simp, hGoneAbout d hd⟩

/-
  Entering assertions that agree gives the facts from before
  that none of them displaces, and those that they state.  The
  induction takes one more assertion at the end, so that the
  others are entered already.
-/
theorem entered_enterAll
    (hAgree : Assertion.Agree as)
    (start : Ledger) :
    start.Entered as (start.enterAll tx as) := by
  induction as using List.reverseRecOn with
  | nil => exact .refl start
  | append_singleton as a ih =>
      have hSoFar :=
        ih (hAgree.subset
          (fun b hb => List.mem_append_left _ hb))
      rw [enterAll, List.foldl_append]
      change
        start.Entered _
          (enter tx (start.enterAll tx as) a)
      unfold enter
      by_cases hKnown :
          (start.enterAll tx as).knows a.entity a.attr.eid
            a.value = true
      · rw [if_pos hKnown]
        exact hSoFar.enter_known hAgree hKnown
      · rw [if_neg hKnown]
        exact
          hSoFar.enter_new hAgree
            (Bool.eq_false_iff.mpr hKnown) ⟨rfl, rfl, rfl⟩

------------------------------------------------------------
-- Facts in Any Order
------------------------------------------------------------

/- Each fact of one list states what one of the other does. -/
def Covers (facts others : List Datom) : Prop :=
  ∀ d ∈ others, ∃ c ∈ facts,
    c.entity = d.entity ∧ c.attr = d.attr
      ∧ c.value.same d.value = true

/- Both lists of facts state the same. -/
def SameFacts (facts others : List Datom) : Prop :=
  Covers facts others ∧ Covers others facts

/- One of two ledgers covers the other. -/
private theorem Entered.covers
    {other : Ledger}
    (h : start.Entered as l)
    (hOther : start.Entered bs other)
    (hMem : ∀ a, a ∈ as ↔ a ∈ bs) :
    Covers l.datoms other.datoms := by
  intro d hd
  rcases hOther.comes d hd with
    ⟨hStart, hStays⟩ | ⟨b, hb, hEntity, hAttr, hValue⟩
  · have hLeft :=
      h.stays d hStart (fun a ha => hStays a ((hMem a).mp ha))
    exact ⟨d, hLeft, rfl, rfl, Value.same_refl _⟩
  · have hKnown := h.known b ((hMem b).mpr hb)
    rw [hEntity, hAttr, hValue]
    exact knows_iff.mp hKnown

/- Entering the same assertions leads to the same facts. -/
theorem Entered.sameFacts
    {other : Ledger}
    (h : start.Entered as l)
    (hOther : start.Entered bs other)
    (hMem : ∀ a, a ∈ as ↔ a ∈ bs) :
    SameFacts l.datoms other.datoms :=
  ⟨h.covers hOther hMem,
    hOther.covers h (fun a => (hMem a).symm)⟩

end Ledger

end FactBase
