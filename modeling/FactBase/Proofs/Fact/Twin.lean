import FactBase.Proofs.Fact.Removal

/-
  This file compares the facts of two transactions that do
  the same at different moments.  Their facts are twins: they
  differ at most in the entity and the instant of the
  transactions themselves.  Changes that speak of neither
  transaction lead from twins to twins, whether they succeed
  or fail, and twins lead to databases that are twins.

  Key definitions include:
    * `Moment`
    * `DatomOf.Twin`
    * `Ledger.Twin`
    * `Database.Twin`

  Key theorems include:
    * `Ledger.Twin.add`
    * `Ledger.Twin.retractEntities`
    * `Database.resolve_twin`
    * `Database.afterLog_twin`
-/

------------------------------------------------------------
-- Moments
------------------------------------------------------------

namespace FactBase

open Sorting

/- The entity and the instant of a transaction. -/
structure Moment where
  tx : Int
  instant : Int

namespace Moment

variable {m n : Moment}

/- The fact that gives the instant of a transaction. -/
def fact
    (attr : Int)
    (m : Moment) : Datom where
  entity := m.tx
  attr := attr
  value := .instant m.instant
  tx := m.tx
  added := true
  origin := { tx := m.tx, position := 0 }

/- The value is neither of two transactions. -/
structure Misses
    (m n : Moment)
    (v : Value) : Prop where
  left : v.isInt m.tx = false
  right : v.isInt n.tx = false

/- An entity is neither of them if it is no such number. -/
theorem misses_int_iff {eid : Int} :
    Misses m n (.int eid) ↔ eid ≠ m.tx ∧ eid ≠ n.tx := by
  constructor
  · rintro ⟨hLeft, hRight⟩
    simp only [Value.isInt, beq_eq_false_iff_ne] at hLeft hRight
    exact ⟨hLeft.symm, hRight.symm⟩
  · rintro ⟨hLeft, hRight⟩
    constructor <;>
      simpa only [Value.isInt, beq_eq_false_iff_ne, ne_comm]

/- The transaction is the same, or each has its own. -/
def Moves
    (m n : Moment)
    (t t' : Int) : Prop :=
  t = t' ∨ (t = m.tx ∧ t' = n.tx)

end Moment

open Moment (Misses Moves)

namespace DatomOf

/-
  Two facts say the same, and at most were entered by one
  transaction each.  They speak of neither transaction.
-/
structure Like
    (m n : Moment)
    (d d' : Datom) : Prop where
  entity : d.entity = d'.entity
  attr : d.attr = d'.attr
  value : d.value = d'.value
  added : d.added = d'.added
  tx : Moves m n d.tx d'.tx
  origin : Moves m n d.origin.tx d'.origin.tx
  position : d.origin.position = d'.origin.position
  missesEntity : Misses m n (.int d.entity)
  missesValue : Misses m n d.value

/-
  Two facts differ at most in the entity and the instant of
  the transactions that entered them.
-/
inductive Twin
    (attr : Int)
    (m n : Moment) : Datom → Datom → Prop where
  | like
      {d d' : Datom}
      (h : d.Like m n d') : Twin attr m n d d'
  | instant : Twin attr m n (m.fact attr) (n.fact attr)

variable {attr : Int}
variable {m n : Moment}
variable {d d' : Datom}

/- Twins about another entity say the same. -/
theorem Twin.like_of_ne
    (h : d.Twin attr m n d')
    (hEntity : d.entity ≠ m.tx) : d.Like m n d' := by
  cases h with
  | like h => exact h
  | instant => exact absurd rfl hEntity

/- Twins about another attribute say the same. -/
theorem Twin.like_of_attr_ne
    (h : d.Twin attr m n d')
    (hAttr : d.attr ≠ attr) : d.Like m n d' := by
  cases h with
  | like h => exact h
  | instant => exact absurd rfl hAttr

/- Twins are about the same attribute. -/
theorem Twin.attr_eq (h : d.Twin attr m n d') :
    d.attr = d'.attr := by
  cases h with
  | like h => exact h.attr
  | instant => rfl

/- Either both were added or neither. -/
theorem Twin.added_eq (h : d.Twin attr m n d') :
    d.added = d'.added := by
  cases h with
  | like h => exact h.added
  | instant => rfl

/- They are about a value alike, unless it is one of them. -/
theorem Twin.isInt_entity_eq
    (h : d.Twin attr m n d')
    {v : Value}
    (hv : Misses m n v) :
    v.isInt d.entity = v.isInt d'.entity := by
  cases h with
  | like h => rw [h.entity]
  | instant => exact hv.left.trans hv.right.symm

/- Twins state the same values of other entities. -/
theorem Twin.states_eq
    (h : d.Twin attr m n d')
    {entity other : Int}
    (hEntity : Misses m n (.int entity))
    (v : Value) :
    v.states entity other d = v.states entity other d' := by
  cases h with
  | like h =>
      unfold Value.states
      rw [h.entity, h.attr, h.value]
  | instant =>
      rw [Moment.misses_int_iff] at hEntity
      rw [Value.states_eq_false (fun hSame =>
          absurd hSame.symm hEntity.1),
        Value.states_eq_false (fun hSame =>
          absurd hSame.symm hEntity.2)]

/- A fact that speaks of neither is a twin of itself. -/
theorem twin_refl
    (hEntity : Misses m n (.int d.entity))
    (hValue : Misses m n d.value) : d.Twin attr m n d :=
  .like
    { entity := rfl
      attr := rfl
      value := rfl
      added := rfl
      tx := .inl rfl
      origin := .inl rfl
      position := rfl
      missesEntity := hEntity
      missesValue := hValue }

end DatomOf

------------------------------------------------------------
-- Ledgers
------------------------------------------------------------

/- Whether an instant equals a value can always be told. -/
theorem Value.exists_instant_equals
    (t : Int)
    (v : Value) :
    ∃ b, (Value.instant t).equals v = .ok b := by
  cases hEnd : v.endless with
  | false => exact ⟨_, equals_of_not_endless _ v rfl hEnd⟩
  | true =>
      refine ⟨false, ?_⟩
      have hOther :
          alike? (.instant t) v = some false := by
        simp [alike?, alikeWithin, hEnd, endless]
      rw [equals, equals?, hOther, ite_self]

/- Related lists stay so without the first that passes. -/
theorem alike_withoutFirst?
    {α β : Type}
    {R : α → β → Prop}
    {p : α → Outcome Bool}
    {q : β → Outcome Bool}
    {xs : List α}
    {ys : List β}
    (h : List.Forall₂ R xs ys)
    (hTest : ∀ x y, R x y → p x = q y) :
    Outcome.Alike (Option.Rel (List.Forall₂ R))
      (withoutFirst? p xs) (withoutFirst? q ys) := by
  induction h with
  | nil => exact .ok .none
  | @cons x y _ _ hHead hTail ih =>
      rw [withoutFirst?, withoutFirst?, ← hTest x y hHead]
      refine (Outcome.alike_refl (p x)).bind ?_
      rintro b _ rfl
      cases b with
      | true => exact .ok (.some hTail)
      | false =>
          refine ih.bind ?_
          intro rest rest' hRest
          cases hRest with
          | none => exact .ok .none
          | some hRest => exact .ok (.some (.cons hHead hRest))

namespace Ledger

/- Two ledgers have twins for facts and in their logs. -/
structure Twin
    (attr : Int)
    (m n : Moment)
    (l l' : Ledger) : Prop where
  datoms :
    List.Forall₂ (DatomOf.Twin attr m n) l.datoms l'.datoms
  log : List.Forall₂ (DatomOf.Twin attr m n) l.log l'.log

variable {db : Database}
variable {attr : Int}
variable {m n : Moment}
variable {l l' : Ledger}
variable {entity : Int}
variable {origin origin' : Origin}
variable {v : Value}

/- What is entered next has a place like its twin. -/
theorem Twin.nextOrigin
    (h : l.Twin attr m n l') :
    Moves m n (l.nextOrigin m.tx).tx (l'.nextOrigin n.tx).tx
      ∧ (l.nextOrigin m.tx).position
        = (l'.nextOrigin n.tx).position :=
  ⟨.inr ⟨rfl, rfl⟩, h.log.length_eq⟩

/- Retracting a value of another entity. -/
theorem Twin.retract
    (h : l.Twin attr m n l')
    (hEntity : Misses m n (.int entity))
    (hValue : Misses m n v)
    (hOrigin : Moves m n origin.tx origin'.tx)
    (hPosition : origin.position = origin'.position) :
    Outcome.Alike (Twin attr m n)
      (l.retract m.tx entity other v origin)
      (l'.retract n.tx entity other v origin') := by
  unfold Ledger.retract
  refine
    (alike_withoutFirst? h.datoms
      (fun _ _ hTwin => hTwin.states_eq hEntity v)).bind ?_
  intro found found' hFound
  cases hFound with
  | none => exact .ok h
  | some hRest =>
      refine .ok ⟨hRest, List.rel_append h.log ?_⟩
      refine .cons (.like ?_) .nil
      exact
        { entity := rfl
          attr := rfl
          value := rfl
          added := rfl
          tx := .inr ⟨rfl, rfl⟩
          origin := hOrigin
          position := hPosition
          missesEntity := hEntity
          missesValue := hValue }

/- Retracting facts that say the same. -/
theorem Twin.retractAll
    (h : l.Twin attr m n l')
    {facts facts' : List Datom}
    (hFacts : List.Forall₂ (DatomOf.Like m n) facts facts') :
    Outcome.Alike (Twin attr m n)
      (l.retractAll m.tx facts) (l'.retractAll n.tx facts') := by
  refine Outcome.alike_foldlM hFacts ?_ h
  intro d d' hLike l l' hTwin
  rw [← hLike.entity, ← hLike.attr, ← hLike.value]
  exact
    hTwin.retract hLike.missesEntity hLike.missesValue
      hLike.origin hLike.position

/- What gives another entity a value says the same. -/
theorem Twin.about
    (h : l.Twin attr m n l')
    (hEntity : Misses m n (.int entity))
    (other : Int) :
    List.Forall₂ (DatomOf.Like m n)
      (l.about entity other) (l'.about entity other) := by
  have hTest :
      ∀ d d' : Datom, d.Twin attr m n d' →
        (d.entity == entity && d.attr == other)
          = (d'.entity == entity && d'.attr == other) := by
    intro d d' hTwin
    have hSame := hTwin.isInt_entity_eq hEntity
    simp only [Value.isInt] at hSame
    rw [hTwin.attr_eq, hSame]
  refine (Outcome.forall₂_filter h.datoms hTest).imp ?_
  rintro d d' ⟨hTwin, hAbout⟩
  simp only [Bool.and_eq_true, beq_iff_eq] at hAbout
  refine hTwin.like_of_ne ?_
  rw [hAbout.1]
  exact (Moment.misses_int_iff.mp hEntity).1

/- Entering a value of another entity. -/
theorem Twin.append
    (h : l.Twin attr m n l')
    (hEntity : Misses m n (.int entity))
    (hValue : Misses m n v) :
    (l.append
      { entity := entity
        attr := other
        value := v
        tx := m.tx
        added := true
        origin := l.nextOrigin m.tx }).Twin attr m n
      (l'.append
        { entity := entity
          attr := other
          value := v
          tx := n.tx
          added := true
          origin := l'.nextOrigin n.tx }) := by
  refine
    ⟨List.rel_append h.datoms (.cons (.like ?_) .nil),
      List.rel_append h.log (.cons (.like ?_) .nil)⟩
  all_goals
    exact
      { entity := rfl
        attr := rfl
        value := rfl
        added := rfl
        tx := .inr ⟨rfl, rfl⟩
        origin := h.nextOrigin.1
        position := h.nextOrigin.2
        missesEntity := hEntity
        missesValue := hValue }

/- Adding a value of another entity. -/
theorem Twin.add
    (h : l.Twin attr m n l')
    (hEntity : Misses m n (.int entity))
    (hValue : Misses m n v)
    (a : Installed) :
    Outcome.Alike (Twin attr m n)
      (l.add m.tx entity a v) (l'.add n.tx entity a v) := by
  have hAbout := h.about hEntity a.eid
  have hPresent :
      (l.about entity a.eid).anyM (fun d => d.value.equals v)
        = (l'.about entity a.eid).anyM
          (fun d => d.value.equals v) :=
    Outcome.anyM_congr
      (hAbout.imp (fun _ _ hLike => by rw [hLike.value]))
  unfold Ledger.add
  simp only [hPresent]
  refine (Outcome.alike_refl _).bind ?_
  rintro present _ rfl
  cases present with
  | true => exact .ok h
  | false =>
      cases a.schema.many with
      | true => exact .ok (h.append hEntity hValue)
      | false =>
          refine (h.retractAll hAbout).bind ?_
          intro cleared cleared' hTwin
          exact .ok (hTwin.append hEntity hValue)

/- The facts about another entity say the same. -/
theorem Twin.own
    (h : l.Twin attr m n l')
    (hv : Misses m n v) :
    List.Forall₂ (DatomOf.Like m n) (l.own v) (l'.own v) := by
  refine
    (Outcome.forall₂_filter h.datoms
      (fun _ _ hTwin => hTwin.isInt_entity_eq hv)).imp ?_
  rintro d d' ⟨hTwin, hOwn⟩
  refine hTwin.like_of_ne ?_
  intro hSame
  rw [hSame, hv.left] at hOwn
  cases hOwn

/- The fact has a value, and its attribute is a reference. -/
def refersTo
    (db : Database)
    (entity : Value)
    (d : Datom) : Outcome Bool := do
  if ← d.value.equals entity then return db.isRef d.attr
  else return false

/-
  The facts that refer to an entity say the same, as long as
  instants refer to none.
-/
theorem Twin.references
    (h : l.Twin attr m n l')
    (hAttr : db.isRef attr = false)
    (v : Value) :
    Outcome.Alike (List.Forall₂ (DatomOf.Like m n))
      (l.references db v) (l'.references db v) := by
  have hNone :
      ∀ k : Moment, refersTo db v (k.fact attr) = .ok false := by
    intro k
    rcases Value.exists_instant_equals k.instant v with ⟨b, hb⟩
    change ((Value.instant k.instant).equals v >>= _) = _
    rw [hb, ok_bind]
    cases b with
    | true => exact congrArg Except.ok hAttr
    | false => rfl
  have hTest :
      ∀ d d' : Datom, d.Twin attr m n d' →
        refersTo db v d = refersTo db v d' := by
    intro d d' hTwin
    cases hTwin with
    | like hLike =>
        rw [refersTo, refersTo, hLike.value, hLike.attr]
    | instant => rw [hNone, hNone]
  refine
    (Outcome.alike_filterM h.datoms hTest).mono ?_
  intro found found' hFound
  refine hFound.imp ?_
  rintro d d' ⟨hTwin, hRefers⟩
  cases hTwin with
  | like hLike => exact hLike
  | instant =>
      rw [hNone] at hRefers
      cases hRefers

/- The parts of another entity are the same. -/
theorem Twin.components
    (h : l.Twin attr m n l')
    (hv : Misses m n v)
    (db : Database) :
    l.components db v = l'.components db v
      ∧ ∀ x ∈ l.components db v, Misses m n x := by
  have hParts :
      List.Forall₂ (DatomOf.Like m n)
        ((l.own v).filter (fun d => db.isComponent d.attr))
        ((l'.own v).filter (fun d => db.isComponent d.attr)) :=
    (Outcome.forall₂_filter (h.own hv)
      (fun _ _ hLike => by rw [hLike.attr])).imp
        (fun _ _ hBoth => hBoth.1)
  unfold Ledger.components
  generalize (l.own v).filter _ = parts at hParts
  generalize (l'.own v).filter _ = parts' at hParts
  induction hParts with
  | nil => simp
  | cons hHead _ ih =>
      simp only [List.map_cons, List.forall_mem_cons]
      exact
        ⟨by rw [hHead.value, ih.1], hHead.missesValue, ih.2⟩

/- Retracting what is about an entity or refers to it. -/
theorem Twin.sweep
    (h : l.Twin attr m n l')
    (hAttr : db.isRef attr = false)
    (hv : Misses m n v) :
    Outcome.Alike (Twin attr m n)
      (l.sweep db m.tx v) (l'.sweep db n.tx v) := by
  refine (h.retractAll (h.own hv)).bind ?_
  intro left left' hLeft
  refine (hLeft.references hAttr v).bind ?_
  intro facts facts' hFacts
  exact hLeft.retractAll hFacts

/- Retracting entities with all their parts. -/
theorem Twin.retractEntities
    (h : l.Twin attr m n l')
    (hAttr : db.isRef attr = false)
    {pending : List Value}
    (hPending : ∀ v ∈ pending, Misses m n v) :
    Outcome.Alike (Twin attr m n)
      (l.retractEntities db m.tx pending)
      (l'.retractEntities db n.tx pending) := by
  induction pending, l using Ledger.retractEntities.induct db
      generalizing l' with
  | case1 l =>
      rw [retractEntities.eq_1, retractEntities.eq_1]
      exact .ok h
  | case2 l v rest hParts hRest =>
      rw [retractEntities.eq_2, retractEntities.eq_2]
      rw [List.forall_mem_cons] at hPending
      rcases hPending with ⟨hv, hPending⟩
      refine (h.sweep hAttr hv).bind ?_
      intro swept swept' hSwept
      rw [← hSwept.datoms.length_eq, ← h.datoms.length_eq]
      split
      next hLess =>
        rcases h.components hv db with ⟨hSame, hMiss⟩
        rw [← hSame]
        refine hParts swept hLess hSwept ?_
        exact List.forall_mem_append.mpr ⟨hMiss, hPending⟩
      · exact hRest swept h hPending

end Ledger

------------------------------------------------------------
-- Databases
------------------------------------------------------------

namespace Database

variable {db : Database}
variable {attr : Int}
variable {m n : Moment}
variable {l l' : Ledger}

/- The texts among the idents name neither transaction. -/
def TextsMiss
    (m n : Moment)
    (db : Database) : Prop :=
  ∀ (s : String) (eid : Int),
    Table.find? (.str s) db.idents = some eid →
      Misses m n (.int eid)

/- The value is a pair that looks up a value of an attribute. -/
def looksUp
    (db : Database)
    (attr : Int)
    (v : Value) : Bool :=
  match v.sequence? with
  | some [name, _] =>
      (db.installed name).toOption.any (fun a => a.eid == attr)
  | _ => false

/-
  What is looked up in twins is the same entity, and it is
  neither transaction, unless it is looked up by its instant.
-/
theorem resolve_twin
    (h : l.Twin attr m n l')
    (hTexts : db.TextsMiss m n)
    {spec : Value}
    (hMisses : Misses m n spec)
    (hLookup : db.looksUp attr spec = false)
    (t t' : Int) :
    Outcome.Alike
      (fun a b =>
        a = b ∧ ∀ eid, a = some eid → Misses m n (.int eid))
      (((Ground.mk db t).current l).resolve spec)
      (((Ground.mk db t').current l').resolve spec) := by
  unfold resolve
  split
  · refine .ok ⟨rfl, ?_⟩
    rintro _ ⟨⟩
    exact hMisses
  · exact .ok ⟨rfl, fun eid hFound => hTexts _ eid hFound⟩
  · split
    next name x hPair =>
      change
        Outcome.Alike _
          (db.installed name >>= fun a =>
            ((Ground.mk db t).current l).entityWith? a.eid x)
          (db.installed name >>= fun a =>
            ((Ground.mk db t').current l').entityWith? a.eid x)
      refine Outcome.alike_bind ?_
      intro a hName
      have hOther : a.eid ≠ attr := by
        intro hAttr
        simp [looksUp, hPair, hName, hAttr, Except.toOption]
          at hLookup
      have hTest :
          ∀ d d' : Datom, d.Twin attr m n d' →
            (if d.attr == a.eid then d.value.equals x
              else .ok false)
            = (if d'.attr == a.eid then d'.value.equals x
              else .ok false) := by
        intro d d' hTwin
        cases hTwin with
        | like hLike => rw [hLike.attr, hLike.value]
        | instant =>
            have hNot : (attr == a.eid) = false := by
              simpa using hOther.symm
            simp only [Moment.fact, hNot, Bool.false_eq_true,
              if_false]
      refine
        (Outcome.alike_findM? h.datoms hTest).bind ?_
      intro found found' hFound
      cases hFound with
      | none => exact .ok ⟨rfl, nofun⟩
      | @some d d' hBoth =>
          rcases hBoth with ⟨hTwin, hHolds⟩
          have hLike : d.Like m n d' := by
            refine hTwin.like_of_attr_ne ?_
            intro hAttr
            have hNot : ¬(d.attr == a.eid) = true := by
              simpa [hAttr] using hOther.symm
            rw [if_neg hNot] at hHolds
            cases hHolds
          refine .ok ⟨congrArg some hLike.entity, ?_⟩
          rintro _ ⟨⟩
          exact hLike.missesEntity
    · exact .ok ⟨rfl, nofun⟩

/- Twins define an attribute alike. -/
theorem defined_twin
    {datoms datoms' : List Datom}
    (h :
      List.Forall₂ (DatomOf.Twin attr m n) datoms datoms')
    {v : Value}
    (hv : Misses m n v) :
    db.defined datoms v = db.defined datoms' v := by
  have hOwn :=
    Outcome.forall₂_filter h
      (fun _ _ hTwin => hTwin.isInt_entity_eq hv)
  have hSame :
      db.definitionOf datoms v = db.definitionOf datoms' v := by
    unfold definitionOf
    generalize ([] : List (Value × Value)) = entries
    generalize datoms.filter _ = own at hOwn
    generalize datoms'.filter _ = own' at hOwn
    induction hOwn generalizing entries with
    | nil => rfl
    | @cons d d' _ _ hHead _ ih =>
        have hLike : d.Like m n d' := by
          refine hHead.1.like_of_ne ?_
          intro hTx
          have hNot := hHead.2
          rw [hTx, hv.left] at hNot
          cases hNot
        rw [List.foldl_cons, List.foldl_cons, hLike.attr,
          hLike.value]
        exact ih _
  unfold defined
  rw [hSame]

/-
  Two databases are the same but for their facts, and those
  are twins.
-/
structure Twin
    (attr : Int)
    (m n : Moment)
    (db db' : Database) : Prop where
  basis : db.basis = db'.basis
  datoms :
    List.Forall₂ (DatomOf.Twin attr m n) db.datoms db'.datoms
  idents : db.idents = db'.idents
  attributes : db.attributes = db'.attributes
  partitions : db.partitions = db'.partitions

/-
  No instant is an ident, and none is installed as an
  attribute or a partition.
-/
def InstallsElsewhere
    (attr : Int)
    (db : Database) : Prop :=
  ∀ name ∈
      ["db/ident", "db.install/attribute",
        "db.install/partition"],
    ∀ a, db.installed (.str name) = .ok a → a.eid ≠ attr

/- Twins lead to databases that are twins. -/
theorem afterLog_twin
    (h : l.Twin attr m n l')
    (hElsewhere : db.InstallsElsewhere attr) :
    Outcome.Alike (Twin attr m n)
      (db.afterLog l) (db.afterLog l') := by
  simp only [InstallsElsewhere, List.forall_mem_cons]
    at hElsewhere
  rcases hElsewhere with ⟨hIdent, hAttribute, hPartition, _⟩
  refine Outcome.alike_bind ?_
  intro ident hName
  have hIdents :
      List.Forall₂ (DatomOf.Like m n)
        (l.log.filter (fun d => d.attr == ident.eid))
        (l'.log.filter (fun d => d.attr == ident.eid)) := by
    refine
      (Outcome.forall₂_filter h.log
        (fun _ _ hTwin => by rw [hTwin.attr_eq])).imp ?_
    rintro d d' ⟨hTwin, hAttr⟩
    refine hTwin.like_of_attr_ne ?_
    rw [beq_iff_eq.mp hAttr]
    exact hIdent ident hName
  refine Outcome.Alike.bind (R := Eq) ?_ ?_
  · refine Outcome.alike_foldlM hIdents ?_ rfl
    rintro d d' hLike table _ rfl
    unfold followIdent
    rw [hLike.value, hLike.added, hLike.entity]
    exact Outcome.alike_refl _
  rintro idents _ rfl
  refine Outcome.alike_bind ?_
  intro newAttr hNewAttr
  refine Outcome.alike_bind ?_
  intro newPart hNewPart
  refine Outcome.Alike.bind (R := Eq) ?_ ?_
  · refine
      Outcome.alike_foldlM
        (Outcome.forall₂_filter h.log
          (fun _ _ hTwin => hTwin.added_eq)) ?_ rfl
    rintro d d' ⟨hTwin, _⟩ i _ rfl
    cases hTwin with
    | like hLike =>
        rw [hLike.attr, hLike.value, installAttribute,
          defined_twin h.datoms (hLike.value ▸ hLike.missesValue)]
        exact Outcome.alike_refl _
    | instant =>
        simp only [Moment.fact,
          beq_eq_false_iff_ne.mpr
            (hAttribute newAttr hNewAttr).symm,
          beq_eq_false_iff_ne.mpr
            (hPartition newPart hNewPart).symm]
        exact .ok rfl
  · rintro i _ rfl
    exact .ok ⟨rfl, h.datoms, rfl, rfl, rfl⟩

end Database

end FactBase
