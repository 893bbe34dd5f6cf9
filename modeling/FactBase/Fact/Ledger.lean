import FactBase.Fact.Database

/-
  This file defines the working copy of the facts on which a
  transaction acts.  Every change to the facts is entered in
  a log at the same time, in the same order.

  Key definitions include:
    * `Ledger`
    * `Ledger.retract`
    * `Ledger.add`
    * `Ledger.retractEntities`
-/

------------------------------------------------------------
-- Single Facts
------------------------------------------------------------

namespace FactBase

/-
  The items without the first one that passes a test, if any
  does.
-/
def withoutFirst?
    {α : Type}
    (test : α → Outcome Bool) :
    List α → Outcome (Option (List α))
  | [] => .ok none
  | x :: xs => do
      if ← test x then return some xs
      else return (← withoutFirst? test xs).map (x :: ·)

/- The fact says that an entity has a value. -/
def Value.states
    (entity attr : Int)
    (v : Value)
    (d : Datom) : Outcome Bool :=
  if d.entity == entity && d.attr == attr then
    d.value.equals v
  else .ok false

/- The facts of a database in change, and the changes so far. -/
structure Ledger where
  datoms : List Datom
  log : List Datom

namespace Ledger

/- A database that nothing has changed. -/
def ofDatabase (db : Database) : Ledger where
  datoms := db.datoms
  log := []

/- The origin of a value that is entered next. -/
def nextOrigin
    (tx : Int)
    (l : Ledger) : Origin where
  tx := tx
  position := l.log.length

/-
  Retract one value of an entity.  Only the first fact that
  states it goes, and nothing happens if there is none.
-/
def retract
    (tx entity attr : Int)
    (v : Value)
    (origin : Origin)
    (l : Ledger) : Outcome Ledger := do
  match ← withoutFirst? (v.states entity attr) l.datoms with
  | none => return l
  | some rest =>
      return {
        datoms := rest
        log := l.log ++
          [{ entity := entity
             attr := attr
             value := v
             tx := tx
             added := false
             origin := origin }] }

/-
  Retract facts one after the other.  The log holds the very
  values that the facts held.
-/
def retractAll
    (tx : Int)
    (facts : List Datom)
    (l : Ledger) : Outcome Ledger :=
  facts.foldlM
    (fun l d =>
      l.retract tx d.entity d.attr d.value d.origin)
    l

/- Enter a new fact at the end. -/
def append
    (d : Datom)
    (l : Ledger) : Ledger where
  datoms := l.datoms ++ [d]
  log := l.log ++ [d]

/- The facts that give an entity a value for an attribute. -/
def about
    (entity attr : Int)
    (l : Ledger) : List Datom :=
  l.datoms.filter
    (fun d => d.entity == entity && d.attr == attr)

/-
  Add one value of an entity.  A value that is there already
  is left alone; other values are retracted first where the
  attribute can have only one.
-/
def add
    (tx entity : Int)
    (attr : Installed)
    (v : Value)
    (l : Ledger) : Outcome Ledger := do
  let present := l.about entity attr.eid
  if ← present.anyM (fun d => d.value.equals v) then
    return l
  else
    let cleared ←
      if attr.schema.many then pure l
      else l.retractAll tx present
    return cleared.append
      { entity := entity
        attr := attr.eid
        value := v
        tx := tx
        added := true
        origin := cleared.nextOrigin tx }

------------------------------------------------------------
-- Whole Entities
------------------------------------------------------------

/- The facts about an entity. -/
def own
    (entity : Value)
    (l : Ledger) : List Datom :=
  l.datoms.filter (fun d => entity.isInt d.entity)

/- The facts that refer to an entity. -/
def references
    (db : Database)
    (entity : Value)
    (l : Ledger) : Outcome (List Datom) :=
  l.datoms.filterM (fun d => do
    if ← d.value.equals entity then return db.isRef d.attr
    else return false)

/- The parts of an entity. -/
def components
    (db : Database)
    (entity : Value)
    (l : Ledger) : List Value :=
  ((l.own entity).filter (fun d => db.isComponent d.attr)).map
    DatomOf.value

/- Retract the facts about an entity, then those that refer to it. -/
def sweep
    (db : Database)
    (tx : Int)
    (entity : Value)
    (l : Ledger) : Outcome Ledger := do
  let l ← l.retractAll tx (l.own entity)
  l.retractAll tx (← l.references db entity)

/-
  Retract entities with all their parts.  The parts of an
  entity come before the entities that still wait.  Entities
  without facts are passed over: the only parts that such an
  entity can have are undefined numbers, and those are no
  entities.
-/
def retractEntities
    (db : Database)
    (tx : Int)
    (pending : List Value)
    (l : Ledger) : Outcome Ledger := do
  match pending with
  | [] => return l
  | entity :: rest =>
      let swept ← l.sweep db tx entity
      if swept.datoms.length < l.datoms.length then
        retractEntities db tx
          (l.components db entity ++ rest) swept
      else
        retractEntities db tx rest l
termination_by (l.datoms.length, pending.length)

------------------------------------------------------------
-- Lengths
------------------------------------------------------------

/- What is left is shorter by one. -/
theorem length_of_withoutFirst?
    {α : Type}
    {test : α → Outcome Bool}
    {xs rest : List α}
    (h : withoutFirst? test xs = .ok (some rest)) :
    rest.length + 1 = xs.length := by
  induction xs generalizing rest with
  | nil => simp [withoutFirst?] at h
  | cons x xs ih =>
      rcases hTest : test x with fault | b
      · simp [withoutFirst?, hTest, bind, Except.bind] at h
      · rcases hRest : withoutFirst? test xs with fault | r
        · cases b <;>
            simp [withoutFirst?, hTest, hRest, bind,
              Except.bind, pure, Except.pure] at h
          simp [h]
        · cases b
          · simp [withoutFirst?, hTest, hRest, bind,
              Except.bind, pure, Except.pure] at h
            rcases h with ⟨ys, rfl, rfl⟩
            simp [ih hRest]
          · simp [withoutFirst?, hTest, bind,
              Except.bind, pure, Except.pure] at h
            simp [h]

/- Retracting never adds a fact. -/
theorem length_retract_le
    {tx entity attr : Int}
    {v : Value}
    {origin : Origin}
    {l after : Ledger}
    (h : l.retract tx entity attr v origin = .ok after) :
    after.datoms.length ≤ l.datoms.length := by
  unfold retract at h
  rcases hRest : withoutFirst? (v.states entity attr) l.datoms
    with fault | r
  · simp [hRest, bind, Except.bind] at h
  · cases r with
    | none =>
        simp [hRest, bind, Except.bind, pure, Except.pure] at h
        simp [h]
    | some rest =>
        simp [hRest, bind, Except.bind, pure, Except.pure] at h
        have := length_of_withoutFirst? hRest
        subst h
        simp only
        omega

/- A ledger from which nothing went is unchanged. -/
theorem retract_eq_self_of_length
    {tx entity attr : Int}
    {v : Value}
    {origin : Origin}
    {l after : Ledger}
    (h : l.retract tx entity attr v origin = .ok after)
    (hLength : after.datoms.length = l.datoms.length) :
    after = l := by
  unfold retract at h
  rcases hRest : withoutFirst? (v.states entity attr) l.datoms
    with fault | r
  · simp [hRest, bind, Except.bind] at h
  · cases r with
    | none =>
        simp [hRest, bind, Except.bind, pure, Except.pure] at h
        exact h.symm
    | some rest =>
        simp [hRest, bind, Except.bind, pure, Except.pure] at h
        have := length_of_withoutFirst? hRest
        subst h
        simp only at hLength
        omega

end Ledger

end FactBase
