import Mathlib.Logic.Relation
import FactBase.Proofs.Fact.Retraction
import FactBase.Proofs.Outcome

/-
  This file says once what can happen to the facts under a
  transaction: one fact goes, or one fact that is not there
  yet is entered at the end, and the log tells of it.  All
  that a ledger offers is made of such changes.

  Key definitions include:
    * `Installed.Takes`
    * `Ledger.Change`
    * `Ledger.Changes`
    * `Ledger.Tells`

  Key theorems include:
    * `split_of_withoutFirst?`
    * `Ledger.retract_changes`
    * `Ledger.add_changes`
    * `Ledger.retractEntities_changes`
    * `Ledger.Changes.invariant`
    * `Ledger.Changes.invariant_of_log`
    * `Ledger.Change.filter_eq`
    * `Ledger.Changes.filter_eq`
    * `Ledger.tells_add`
-/

------------------------------------------------------------
-- The First Fact that Passes
------------------------------------------------------------

namespace FactBase

open Sorting

/-
  Taking out the first item that passes splits the list
  there: the items before it did not pass.
-/
theorem split_of_withoutFirst?
    {α : Type}
    {test : α → Outcome Bool}
    {xs rest : List α}
    (h : withoutFirst? test xs = .ok (some rest)) :
    ∃ before x after,
      xs = before ++ x :: after ∧ rest = before ++ after
        ∧ test x = .ok true
        ∧ ∀ y ∈ before, test y = .ok false := by
  induction xs generalizing rest with
  | nil => simp [withoutFirst?] at h
  | cons x xs ih =>
      rw [withoutFirst?] at h
      rcases bind_eq_ok.mp h with ⟨b, hHead, hTail⟩
      cases b with
      | true =>
          have hRest : xs = rest := by
            simpa [pure, Except.pure] using hTail
          exact ⟨[], x, xs, rfl, hRest.symm, hHead, by simp⟩
      | false =>
          simp only [Bool.false_eq_true, if_false] at hTail
          rcases bind_eq_ok.mp hTail with ⟨found, hFound, hEq⟩
          cases found with
          | none => simp [pure, Except.pure] at hEq
          | some ys =>
              have hRest : x :: ys = rest := by
                simpa [pure, Except.pure] using hEq
              rcases ih hFound with
                ⟨before, y, after, rfl, rfl, hTest, hBefore⟩
              refine
                ⟨x :: before, y, after, rfl, hRest.symm, hTest,
                  ?_⟩
              intro z hz
              rcases List.mem_cons.mp hz with rfl | hz
              · exact hHead
              · exact hBefore z hz

/- Nothing but the item taken out is lost. -/
theorem sublist_of_withoutFirst?
    {α : Type}
    {test : α → Outcome Bool}
    {xs rest : List α}
    (h : withoutFirst? test xs = .ok (some rest)) :
    rest.Sublist xs := by
  rcases split_of_withoutFirst? h with
    ⟨before, x, after, rfl, rfl, _⟩
  exact (List.sublist_cons_self x after).append_left before

------------------------------------------------------------
-- Changes
------------------------------------------------------------

/-
  What an attribute takes for an entity: an entity id, if its
  values are entities.  Only the instant of the transaction
  itself is taken as it is.
-/
def Installed.Takes
    (attr : Installed)
    (tx entity : Int)
    (v : Value) : Prop :=
  attr.schema.isRef = true →
    (∃ n : Int, v = .int n)
      ∨ (entity = tx ∧ ∃ t : Int, v = .instant t)

namespace Ledger

/-
  One change of a ledger under a transaction of a database.
  What is entered is of a given sort.  It is the only value
  where the attribute can have only one, but for undefined
  numbers, which never go.
-/
inductive Change
    (db : Database)
    (tx : Int)
    (V : Value → Prop) : Ledger → Ledger → Prop where
  | retract
      {l : Ledger}
      {entity attr : Int}
      {v : Value}
      {origin : Origin}
      {rest : List Datom}
      (hRest :
        withoutFirst? (v.states entity attr) l.datoms
          = .ok (some rest)) :
      Change db tx V l
        { datoms := rest
          log := l.log ++
            [{ entity := entity
               attr := attr
               value := v
               tx := tx
               added := false
               origin := origin }] }
  | enter
      {l : Ledger}
      {entity : Int}
      {attr : Installed}
      {v : Value}
      {origin : Origin}
      (hAttr : db.schemaOf? attr.eid = some attr.schema)
      (hNew :
        ∀ d ∈ l.about entity attr.eid,
          d.value.equals v = .ok false)
      (hAlone :
        attr.schema.many = false →
          ∀ d ∈ l.about entity attr.eid,
            d.value.isUndefined = true)
      (hTakes : attr.Takes tx entity v)
      (hValue : V v) :
      Change db tx V l
        (l.append
          { entity := entity
            attr := attr.eid
            value := v
            tx := tx
            added := true
            origin := origin })

/- Any number of changes, one after the other. -/
abbrev Changes
    (db : Database)
    (tx : Int)
    (V : Value → Prop) : Ledger → Ledger → Prop :=
  Relation.ReflTransGen (Change db tx V)

variable {db : Database}
variable {tx : Int}
variable {V : Value → Prop}
variable {l after : Ledger}

/- What every change keeps, any number of changes keeps. -/
theorem Changes.invariant
    (P : Ledger → Prop)
    (hStep : ∀ l l', Change db tx V l l' → P l → P l')
    (h : Changes db tx V l after)
    (hStart : P l) : P after := by
  induction h with
  | refl => exact hStart
  | tail _ hLast ih => exact hStep _ _ hLast ih

/- A change enters one thing in the log, at its end. -/
theorem Change.exists_log_eq
    (h : Change db tx V l after) :
    ∃ d, after.log = l.log ++ [d] := by
  cases h <;> exact ⟨_, rfl⟩

/-
  What every change keeps that enters something of a given
  sort, changes with a log of that sort keep.
-/
theorem Changes.invariant_of_log
    (H : Datom → Prop)
    (P : Ledger → Prop)
    (hStep :
      ∀ l l' d,
        Change db tx V l l' → l'.log = l.log ++ [d] → H d →
          P l → P l')
    (h : Changes db tx V l after)
    (hLog : ∀ d ∈ after.log, H d)
    (hStart : P l) : P after := by
  induction h with
  | refl => exact hStart
  | tail _ hLast ih =>
      rcases hLast.exists_log_eq with ⟨d, hEq⟩
      rw [hEq, forall_mem_append_singleton] at hLog
      exact hStep _ _ d hLast hEq hLog.2 (ih hLog.1)

/-
  A sort of facts that is told by their entities and their
  attributes.  A change that is entered as one of another sort
  leaves the facts of this sort alone.
-/
theorem Change.filter_eq
    {sort : Datom → Bool}
    (hSort :
      ∀ c d : Datom,
        c.entity = d.entity → c.attr = d.attr →
          sort c = sort d)
    (h : Change db tx V l after)
    {entry : Datom}
    (hLog : after.log = l.log ++ [entry])
    (hOther : sort entry = false) :
    after.datoms.filter sort = l.datoms.filter sort := by
  cases h with
  | @retract entity attr v origin rest hRest =>
      rcases List.append_inj_right' hLog rfl with ⟨⟩
      rcases split_of_withoutFirst? hRest with
        ⟨before, c, left, hSplit, rfl, hStates, _⟩
      rcases Value.of_states hStates with ⟨hEntity, hAttr, _⟩
      have hGone : sort c = false :=
        (hSort c _ hEntity hAttr).trans hOther
      simp [hSplit, hGone]
  | enter =>
      rcases List.append_inj_right' hLog rfl with ⟨⟩
      simp [append, hOther]

/- So do any number of changes that are entered as others. -/
theorem Changes.filter_eq
    {sort : Datom → Bool}
    (hSort :
      ∀ c d : Datom,
        c.entity = d.entity → c.attr = d.attr →
          sort c = sort d)
    (h : Changes db tx V l after) :
    ∃ entries, after.log = l.log ++ entries
      ∧ ((∀ d ∈ entries, sort d = false) →
        after.datoms.filter sort = l.datoms.filter sort) := by
  induction h with
  | refl =>
      exact ⟨[], (List.append_nil _).symm, fun _ => rfl⟩
  | tail _ hLast ih =>
      rcases ih with ⟨entries, hSoFar, hKept⟩
      rcases hLast.exists_log_eq with ⟨d, hLog⟩
      refine ⟨entries ++ [d], ?_, ?_⟩
      · rw [hLog, hSoFar, List.append_assoc]
      · intro hOthers
        rw [forall_mem_append_singleton] at hOthers
        rw [hLast.filter_eq hSort hLog hOthers.2,
          hKept hOthers.1]

------------------------------------------------------------
-- What a Ledger Offers
------------------------------------------------------------

/- Retracting a value takes out a fact or does nothing. -/
theorem retract_changes
    {entity attr : Int}
    {v : Value}
    {origin : Origin}
    (h : l.retract tx entity attr v origin = .ok after) :
    Changes db tx V l after := by
  unfold retract at h
  rcases bind_eq_ok.mp h with ⟨found, hFound, hEq⟩
  cases found with
  | none =>
      rw [pure_eq_ok] at hEq
      exact hEq ▸ .refl
  | some rest =>
      rw [pure_eq_ok] at hEq
      exact hEq ▸ .single (.retract hFound)

/- Retracting facts is retracting one after the other. -/
theorem retractAll_changes
    {facts : List Datom}
    (h : l.retractAll tx facts = .ok after) :
    Changes db tx V l after := by
  refine
    Outcome.foldlM_invariant (Changes db tx V l) ?_ h .refl
  intro d _ s t hStep hSoFar
  exact hSoFar.trans (retract_changes hStep)

/- Retracting leaves no fact that was not there. -/
theorem sublist_of_retractAll
    {facts : List Datom}
    (h : l.retractAll tx facts = .ok after) :
    after.datoms.Sublist l.datoms := by
  refine
    Outcome.foldlM_invariant
      (fun s => s.datoms.Sublist l.datoms) ?_ h
      (List.Sublist.refl _)
  intro d _ s t hStep hSoFar
  refine List.Sublist.trans ?_ hSoFar
  unfold retract at hStep
  rcases bind_eq_ok.mp hStep with ⟨found, hFound, hEq⟩
  cases found with
  | none =>
      rw [pure_eq_ok] at hEq
      exact hEq ▸ List.Sublist.refl _
  | some rest =>
      rw [pure_eq_ok] at hEq
      exact hEq ▸ sublist_of_withoutFirst? hFound

/-
  Adding a value enters a fact, after other values have gone
  if there can be only one, or does nothing.
-/
theorem add_changes
    {entity : Int}
    {attr : Installed}
    {v : Value}
    (hAttr : db.schemaOf? attr.eid = some attr.schema)
    (hTakes : attr.Takes tx entity v)
    (hValue : V v)
    (h : l.add tx entity attr v = .ok after) :
    Changes db tx V l after := by
  unfold add at h
  rcases bind_eq_ok.mp h with ⟨present, hPresent, hRest⟩
  cases present with
  | true =>
      simp only [if_true, pure_eq_ok] at hRest
      exact hRest ▸ .refl
  | false =>
      have hOther := Outcome.forall_of_anyM_eq_false hPresent
      simp only [Bool.false_eq_true, if_false] at hRest
      split at hRest
      next hMany =>
        rw [pure_bind, pure_eq_ok] at hRest
        refine
          hRest ▸
            .single (.enter hAttr hOther ?_ hTakes hValue)
        intro hOne
        rw [hMany] at hOne
        cases hOne
      next _ =>
        rcases bind_eq_ok.mp hRest with ⟨cleared, hClear, hEq⟩
        rw [pure_eq_ok] at hEq
        have hCleared : Changes db tx V l cleared :=
          retractAll_changes hClear
        refine
          hEq ▸ hCleared.tail
            (.enter hAttr ?_ (fun _ => ?_) hTakes hValue)
        · intro d hd
          have hSub := sublist_of_retractAll hClear
          exact hOther d ((hSub.filter _).subset hd)
        · exact isUndefined_of_retractAll_about hClear

/- Retracting an entity is retracting facts. -/
theorem sweep_changes
    {entity : Value}
    (h : l.sweep db tx entity = .ok after) :
    Changes db tx V l after := by
  unfold sweep at h
  rcases bind_eq_ok.mp h with ⟨own, hOwn, hRest⟩
  rcases bind_eq_ok.mp hRest with ⟨references, _, hLast⟩
  exact
    (retractAll_changes hOwn).trans (retractAll_changes hLast)

/- So is retracting entities with all their parts. -/
theorem retractEntities_changes
    {pending : List Value}
    (h : l.retractEntities db tx pending = .ok after) :
    Changes db tx V l after := by
  induction hn : (l.datoms.length, pending.length)
      using WellFounded.induction
        (Prod.lex Nat.lt_wfRel Nat.lt_wfRel).wf
      generalizing l pending with
  | _ n ih =>
      subst hn
      rw [retractEntities.eq_def] at h
      cases pending with
      | nil =>
          simp only [pure_eq_ok] at h
          exact h ▸ .refl
      | cons entity rest =>
          simp only at h
          rcases bind_eq_ok.mp h with ⟨swept, hSwept, hRest⟩
          by_cases hLess :
              swept.datoms.length < l.datoms.length
          · rw [if_pos hLess] at hRest
            refine (sweep_changes hSwept).trans ?_
            exact ih _ (Prod.Lex.left _ _ hLess) hRest rfl
          · rw [if_neg hLess] at hRest
            refine ih _ ?_ hRest rfl
            exact Prod.Lex.right _ (Nat.lt_succ_self _)

------------------------------------------------------------
-- What a Log Tells
------------------------------------------------------------

variable {P Q : Datom → Prop}
variable {m : Ledger}
variable {entity : Int}

/-
  The log of a later ledger tells of facts of a given sort
  only, besides what was told before.
-/
def Tells
    (P : Datom → Prop)
    (l after : Ledger) : Prop :=
  ∃ entries, after.log = l.log ++ entries
    ∧ ∀ d ∈ entries, P d

/- Nothing more is told. -/
theorem Tells.refl (l : Ledger) : Tells P l l :=
  ⟨[], (List.append_nil _).symm, by simp⟩

/- One fact more is told. -/
theorem Tells.single
    {d : Datom}
    (hLog : after.log = l.log ++ [d])
    (hd : P d) : Tells P l after :=
  ⟨[d], hLog, List.forall_mem_singleton.mpr hd⟩

/- What is told goes on. -/
theorem Tells.trans
    (h : Tells P l m)
    (h' : Tells P m after) : Tells P l after := by
  rcases h with ⟨entries, hLog, hEntries⟩
  rcases h' with ⟨entries', hLog', hEntries'⟩
  refine ⟨entries ++ entries', ?_, ?_⟩
  · rw [hLog', hLog, List.append_assoc]
  · exact List.forall_mem_append.mpr ⟨hEntries, hEntries'⟩

/- What is of one sort is of a wider one. -/
theorem Tells.weaken
    (h : Tells P l after)
    (hQ : ∀ d, P d → Q d) : Tells Q l after := by
  rcases h with ⟨entries, hLog, hEntries⟩
  exact ⟨entries, hLog, fun d hd => hQ d (hEntries d hd)⟩

/- Retracting a value tells of the entity and the attribute. -/
theorem tells_retract
    {attr : Int}
    {v : Value}
    {origin : Origin}
    (h : l.retract tx entity attr v origin = .ok after) :
    Tells (fun d => d.entity = entity ∧ d.attr = attr) l
      after := by
  unfold retract at h
  rcases bind_eq_ok.mp h with ⟨found, _, hEq⟩
  cases found with
  | none =>
      rw [pure_eq_ok] at hEq
      exact hEq ▸ .refl l
  | some rest =>
      rw [pure_eq_ok] at hEq
      subst hEq
      exact .single rfl ⟨rfl, rfl⟩

/- So does adding one, also where others make room for it. -/
theorem tells_add
    {attr : Installed}
    {v : Value}
    (h : l.add tx entity attr v = .ok after) :
    Tells (fun d => d.entity = entity ∧ d.attr = attr.eid) l
      after := by
  have hCleared {cleared : Ledger}
      (hClear :
        l.retractAll tx (l.about entity attr.eid)
          = .ok cleared) :
      Tells (fun d => d.entity = entity ∧ d.attr = attr.eid)
        l cleared := by
    refine Outcome.foldlM_invariant (Tells _ l) ?_ hClear
      (.refl l)
    intro d hd s t hStep hSoFar
    have hAbout : d.entity = entity ∧ d.attr = attr.eid := by
      simpa using (List.mem_filter.mp hd).2
    refine hSoFar.trans ((tells_retract hStep).weaken ?_)
    rintro c ⟨hEntity, hAttr⟩
    exact ⟨hEntity.trans hAbout.1, hAttr.trans hAbout.2⟩
  unfold add at h
  rcases bind_eq_ok.mp h with ⟨present, _, hRest⟩
  cases present with
  | true =>
      simp only [if_true, pure_eq_ok] at hRest
      exact hRest ▸ .refl l
  | false =>
      simp only [Bool.false_eq_true, if_false] at hRest
      split at hRest
      · rw [pure_bind, pure_eq_ok] at hRest
        exact hRest ▸ .single rfl ⟨rfl, rfl⟩
      · rcases bind_eq_ok.mp hRest with ⟨cleared, hClear, hEq⟩
        rw [pure_eq_ok] at hEq
        exact
          hEq ▸ (hCleared hClear).trans (.single rfl ⟨rfl, rfl⟩)

end Ledger

end FactBase
