import FactBase.Fact.Ledger
import FactBase.Proofs.Value.Equality
import FactBase.Sorting.Attempt

/-
  This file says what is left of a ledger after facts of it
  were retracted one after the other, and how the log tells
  of them.

  Key definitions include:
    * `DatomOf.retraction`
    * `DatomOf.goesWith`
    * `Ledger.isAbout`

  Key theorems include:
    * `pairwise_append_singleton`
    * `withoutFirst?_of_first`
    * `Value.of_states`
    * `Ledger.retract_first`
    * `Ledger.retract_eq`
    * `Ledger.retractAll_filter`
    * `Ledger.mem_about`
    * `Ledger.retractAll_about`
-/

------------------------------------------------------------
-- One More Item
------------------------------------------------------------

namespace FactBase

open Sorting

variable {α : Type}

/- What holds of each item and of one more at the end. -/
theorem forall_mem_append_singleton
    {P : α → Prop}
    {xs : List α}
    {x : α} :
    (∀ y ∈ xs ++ [x], P y) ↔ (∀ y ∈ xs, P y) ∧ P x := by
  rw [List.forall_mem_append, List.forall_mem_singleton]

/- What relates the items and each of them to one more. -/
theorem pairwise_append_singleton
    {R : α → α → Prop}
    {xs : List α}
    {x : α} :
    (xs ++ [x]).Pairwise R
      ↔ xs.Pairwise R ∧ ∀ y ∈ xs, R y x := by
  rw [List.pairwise_append]
  simp

------------------------------------------------------------
-- The First Item that Passes
------------------------------------------------------------

variable {test : α → Outcome Bool}

/- Nothing is taken out where nothing passes. -/
theorem withoutFirst?_of_none
    {xs : List α}
    (h : ∀ x ∈ xs, test x = .ok false) :
    withoutFirst? test xs = .ok none := by
  induction xs with
  | nil => rfl
  | cons x xs ih =>
      rw [List.forall_mem_cons] at h
      rw [withoutFirst?, h.1, ok_bind, ih h.2]
      rfl

/- The first item that passes is taken out. -/
theorem withoutFirst?_of_first
    {before after : List α}
    {x : α}
    (hBefore : ∀ y ∈ before, test y = .ok false)
    (hx : test x = .ok true) :
    withoutFirst? test (before ++ x :: after)
      = .ok (some (before ++ after)) := by
  induction before with
  | nil =>
      rw [List.nil_append, withoutFirst?, hx]
      rfl
  | cons y before ih =>
      rw [List.forall_mem_cons] at hBefore
      rw [List.cons_append, withoutFirst?, hBefore.1, ok_bind,
        ih hBefore.2]
      rfl

------------------------------------------------------------
-- Facts that State a Value
------------------------------------------------------------

/- What states a value of an entity is a fact about it. -/
theorem Value.states_eq_false
    {entity attr : Int}
    {d : Datom}
    (h : d.entity = entity → d.attr ≠ attr)
    (v : Value) :
    v.states entity attr d = .ok false := by
  unfold Value.states
  rw [if_neg]
  simpa using h

/- The fact about an entity states the value that it equals. -/
theorem Value.states_eq
    {entity attr : Int}
    {d : Datom}
    (hEntity : d.entity = entity)
    (hAttr : d.attr = attr)
    (v : Value) :
    v.states entity attr d = d.value.equals v := by
  simp [Value.states, hEntity, hAttr]

/- What a fact states is about its entity and its attribute. -/
theorem Value.of_states
    {entity attr : Int}
    {v : Value}
    {d : Datom}
    (h : v.states entity attr d = .ok true) :
    d.entity = entity ∧ d.attr = attr
      ∧ d.value.equals v = .ok true := by
  unfold Value.states at h
  split at h
  next hBoth =>
    simp only [Bool.and_eq_true, beq_iff_eq] at hBoth
    exact ⟨hBoth.1, hBoth.2, h⟩
  next => cases h

/- No fact states an undefined number. -/
theorem Value.states_of_isUndefined
    {entity attr : Int}
    {v : Value}
    (h : v.isUndefined = true)
    (d : Datom) :
    v.states entity attr d = .ok false := by
  unfold Value.states
  rw [Value.equals_of_isUndefined (.inr h), ite_self]

/- A fact states its own value unless it is undefined. -/
theorem Value.states_self
    {d : Datom}
    (h : d.value.isUndefined = false) :
    d.value.states d.entity d.attr d = .ok true := by
  rw [Value.states_eq rfl rfl, Value.equals_self, h]
  rfl

------------------------------------------------------------
-- Retracting Facts
------------------------------------------------------------

/- The entry of a log that tells that a fact is gone. -/
def DatomOf.retraction
    (tx : Int)
    (d : Datom) : Datom :=
  { d with
    tx := tx
    added := false }

/-
  The fact goes when the facts that pass a test are
  retracted.  Undefined numbers stay, because they are not
  even found again.
-/
def DatomOf.goesWith
    (p : Datom → Bool)
    (d : Datom) : Bool :=
  p d && !d.value.isUndefined

namespace Ledger

variable {tx : Int}
variable {p : Datom → Bool}

/- Retracting a value takes out the first fact that states it. -/
theorem retract_first
    {entity attr : Int}
    {v : Value}
    {before after log : List Datom}
    {d : Datom}
    (hBefore :
      ∀ c ∈ before, v.states entity attr c = .ok false)
    (hd : v.states entity attr d = .ok true)
    (origin : Origin) :
    retract tx entity attr v origin
        { datoms := before ++ d :: after, log := log }
      = .ok
        { datoms := before ++ after
          log :=
            log ++
              [{ entity := entity
                 attr := attr
                 value := v
                 tx := tx
                 added := false
                 origin := origin }] } := by
  unfold retract
  rw [withoutFirst?_of_first hBefore hd]
  rfl

/- Retracting the value of a fact that no earlier one states. -/
theorem retract_eq
    {before after log : List Datom}
    {d : Datom}
    (hBefore :
      ∀ c ∈ before,
        d.value.states d.entity d.attr c = .ok false)
    (hDefined : d.value.isUndefined = false) :
    retract tx d.entity d.attr d.value d.origin
        { datoms := before ++ d :: after, log := log }
      = .ok
        { datoms := before ++ after
          log := log ++ [d.retraction tx] } :=
  retract_first hBefore (Value.states_self hDefined) d.origin

/- Retracting an undefined number changes nothing. -/
theorem retract_of_isUndefined
    {entity attr : Int}
    {v : Value}
    (h : v.isUndefined = true)
    (origin : Origin)
    (l : Ledger) :
    l.retract tx entity attr v origin = .ok l := by
  unfold retract
  rw [withoutFirst?_of_none
    (fun d _ => Value.states_of_isUndefined h d)]
  rfl

/- Retracting facts begins with the first of them. -/
theorem retractAll_cons
    (d : Datom)
    (facts : List Datom)
    (l : Ledger) :
    l.retractAll tx (d :: facts) =
      (do
        let l ← l.retract tx d.entity d.attr d.value d.origin
        l.retractAll tx facts) :=
  List.foldlM_cons

/- A fact that stays is passed over. -/
private theorem retractAll_of_stays
    {rest : List Datom}
    {d : Datom}
    (hd : d.goesWith p = false)
    (l : Ledger) :
    l.retractAll tx ((d :: rest).filter p)
      = l.retractAll tx (rest.filter p) := by
  by_cases hp : p d = true
  · have hUndefined : d.value.isUndefined = true := by
      simpa [DatomOf.goesWith, hp] using hd
    rw [List.filter_cons_of_pos hp, retractAll_cons,
      retract_of_isUndefined hUndefined, ok_bind]
  · rw [List.filter_cons_of_neg hp]

/- A fact that goes is the first to state its value. -/
private theorem retractAll_of_goes
    {before rest log : List Datom}
    {d : Datom}
    (hBefore :
      ∀ c ∈ before,
        d.value.states d.entity d.attr c = .ok false)
    (hd : d.goesWith p = true) :
    retractAll tx ((d :: rest).filter p)
        { datoms := before ++ d :: rest, log := log }
      = retractAll tx (rest.filter p)
        { datoms := before ++ rest
          log := log ++ [d.retraction tx] } := by
  simp only [DatomOf.goesWith, Bool.and_eq_true,
    Bool.not_eq_true'] at hd
  rw [List.filter_cons_of_pos hd.1, retractAll_cons,
    retract_eq hBefore hd.2, ok_bind]

/-
  The induction goes through the facts that have not been
  looked at yet; those before them are there to stay.
-/
private theorem retractAll_along
    {kept rest log : List Datom}
    (hKept : ∀ c ∈ kept, c.goesWith p = false)
    (h :
      ∀ c ∈ kept ++ rest, c.goesWith p = false →
        ∀ d ∈ rest, p d = true →
          d.value.states d.entity d.attr c = .ok false) :
    retractAll tx (rest.filter p)
        { datoms := kept ++ rest, log := log }
      = .ok
        { datoms :=
            kept ++ rest.filter (fun d => !d.goesWith p)
          log :=
            log ++ (rest.filter (·.goesWith p)).map
              (·.retraction tx) } := by
  induction rest generalizing kept log with
  | nil => simp [retractAll, pure, Except.pure]
  | cons d rest ih =>
      cases hd : d.goesWith p with
      | false =>
          have hNext := @ih (kept ++ [d]) log
            (forall_mem_append_singleton.mpr ⟨hKept, hd⟩)
            (by
              intro c hc hStays d' hd'
              rw [List.append_cons] at h
              exact
                h c hc hStays d' (List.mem_cons_of_mem d hd'))
          rw [retractAll_of_stays hd]
          simpa [hd] using hNext
      | true =>
          have hp : p d = true := by
            simp only [DatomOf.goesWith, Bool.and_eq_true] at hd
            exact hd.1
          have hBefore :
              ∀ c ∈ kept,
                d.value.states d.entity d.attr c = .ok false :=
            fun c hc =>
              h c (List.mem_append_left _ hc) (hKept c hc) d
                List.mem_cons_self hp
          have hNext := @ih kept (log ++ [d.retraction tx]) hKept
            (by
              intro c hc hStays d' hd'
              refine
                h c ?_ hStays d' (List.mem_cons_of_mem d hd')
              refine
                (List.Sublist.append_left ?_ kept).subset hc
              exact List.sublist_cons_self d rest)
          rw [retractAll_of_goes hBefore hd]
          simpa [hd] using hNext

/-
  Retracting all facts that pass a test takes out these very
  facts, in order, if no fact that stays states what one of
  them does.
-/
theorem retractAll_filter
    {l : Ledger}
    (h :
      ∀ c ∈ l.datoms, c.goesWith p = false →
        ∀ d ∈ l.datoms, p d = true →
          d.value.states d.entity d.attr c = .ok false) :
    l.retractAll tx (l.datoms.filter p)
      = .ok
        { datoms := l.datoms.filter (fun d => !d.goesWith p)
          log :=
            l.log ++ (l.datoms.filter (·.goesWith p)).map
              (·.retraction tx) } :=
  retractAll_along (fun _ hc => absurd hc List.not_mem_nil) h

/- The fact gives an entity a value for an attribute. -/
def isAbout
    (entity attr : Int)
    (d : Datom) : Bool :=
  d.entity == entity && d.attr == attr

/- What gives an entity a value is a fact of the ledger. -/
theorem mem_about
    {entity attr : Int}
    {l : Ledger}
    {d : Datom} :
    d ∈ l.about entity attr
      ↔ d ∈ l.datoms ∧ d.entity = entity ∧ d.attr = attr := by
  simp [about]

/-
  Retracting all values of an entity for an attribute leaves
  at most undefined numbers.
-/
theorem retractAll_about
    (entity attr : Int)
    (l : Ledger) :
    l.retractAll tx (l.about entity attr)
      = .ok
        { datoms :=
            l.datoms.filter
              (fun d => !d.goesWith (isAbout entity attr))
          log :=
            l.log ++
              (l.datoms.filter
                (·.goesWith (isAbout entity attr))).map
                (·.retraction tx) } := by
  apply retractAll_filter (p := isAbout entity attr)
  intro c _ hStays d _ hd
  simp only [isAbout, Bool.and_eq_true, beq_iff_eq] at hd
  rcases hd with ⟨rfl, rfl⟩
  by_cases hc : c.entity = d.entity ∧ c.attr = d.attr
  · have hUndefined : c.value.isUndefined = true := by
      simpa [DatomOf.goesWith, isAbout, hc] using hStays
    rw [Value.states_eq hc.1 hc.2]
    exact Value.equals_of_isUndefined (.inl hUndefined)
  · exact Value.states_eq_false (by simpa using hc) _

/- No defined value is left after that. -/
theorem isUndefined_of_retractAll_about
    {entity attr : Int}
    {l after : Ledger}
    (h : l.retractAll tx (l.about entity attr) = .ok after) :
    ∀ d ∈ after.about entity attr,
      d.value.isUndefined = true := by
  rw [retractAll_about] at h
  have hAfter := Except.ok.inj h
  subst hAfter
  intro d hd
  rcases List.mem_filter.mp hd with ⟨hLeft, hAbout⟩
  have hStays := (List.mem_filter.mp hLeft).2
  simpa [DatomOf.goesWith, isAbout, hAbout] using hStays

end Ledger

end FactBase
