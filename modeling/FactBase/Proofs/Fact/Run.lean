import FactBase.Fact.Engine
import FactBase.Proofs.Fact.Succession
import FactBase.Proofs.Fact.Transacting

/-
  This file says what one transaction does to an engine, and
  defines the runs of an engine: any number of transactions,
  be they committed or not.

  Key definitions include:
    * `Engine.Commits`
    * `Engine.Next`
    * `Engine.Run`
    * `Engine.RunOf`

  Key theorems include:
    * `Engine.fst_transactItems`
    * `Engine.result_of_ok`
    * `Engine.commits_of_ok`
    * `Engine.commits_of_transact`
    * `Engine.advances_transactItems`
    * `Engine.Run.invariant`
    * `Engine.nextOf_of_all`
    * `Engine.RunOf.invariant`
-/

------------------------------------------------------------
-- One Transaction
------------------------------------------------------------

namespace FactBase

open Sorting

namespace Engine

variable {V : Value → Prop}

/- The steps of a transaction only advance its state. -/
theorem advancing_steps
    (hV : Value.Inherited V)
    (e : Engine)
    {items : List Value}
    (h : ∀ x ∈ items, V x) :
    Transacting.Advancing e.ground V (e.steps items)
      (fun _ => True) := by
  refine .bind (Transacting.advancing_installed _) ?_
  intro instant hInstant
  have hAttr :=
    Database.schemaOf?_of_installed hInstant
  have hTakes :
      instant.Takes e.ground.tx e.ground.tx
        (.instant (e.clock e.ticks)) :=
    fun _ => .inr ⟨rfl, _, rfl⟩
  refine
    .bind
      (Transacting.advancing_add _ hAttr hTakes
        (hV.instant _)) ?_
  intro _ _
  apply Transacting.Advancing.forM
  intro x hx
  exact Transacting.advancing_applyItem hV (h x hx)

/- All values are of the sort of all values. -/
theorem inherited_true :
    Value.Inherited (fun _ => True) :=
  ⟨fun _ => trivial, fun _ => trivial,
    fun _ _ _ _ => trivial, fun _ _ _ => trivial⟩

/-
  What comes of a transaction: its failure, or the database
  that its log leads to.
-/
theorem fst_transactItems
    (e : Engine)
    (items : List Value) :
    (e.transactItems items).1 =
      (match Transacting.exec (e.steps items)
          e.ground e.opened with
      | (.error fault, _) => .error fault
      | (.ok _, w) => do
          let after ← e.db.afterLog w.ledger
          return {
            before := e.db
            after := after
            facts := w.ledger.log
            tempids := w.tempids }) := by
  rcases hExec :
      Transacting.exec (e.steps items) e.ground e.opened with
    ⟨fault | done, w⟩
  all_goals
    change (e.attempt items).1 = _
    unfold attempt
    unfold Transacting.exec at hExec
    rw [hExec]
    rfl

/-
  A result comes of an engine when changes to the facts of
  its database lead there.
-/
structure Commits
    (e : Engine)
    (V : Value → Prop)
    (l : Ledger)
    (r : TxResult) : Prop where
  changes :
    Ledger.Changes e.db e.ground.tx V (.ofDatabase e.db) l
  before : r.before = e.db
  facts : r.facts = l.log
  after : e.db.afterLog l = .ok r.after

/- What a transaction that succeeds is made from. -/
theorem result_of_ok
    {e : Engine}
    {items : List Value}
    {r : TxResult}
    (h : (e.transactItems items).1 = .ok r) :
    e.db.afterLog (e.attempt items).2.ledger = .ok r.after
      ∧ r.before = e.db
      ∧ r.facts = (e.attempt items).2.ledger.log
      ∧ r.tempids = (e.attempt items).2.tempids := by
  have hLast :
      (e.attempt items).2
        = (Transacting.exec (e.steps items)
            e.ground e.opened).2 := rfl
  rw [fst_transactItems] at h
  rw [hLast]
  rcases hExec :
      Transacting.exec (e.steps items) e.ground e.opened with
    ⟨fault | done, w⟩
  · rw [hExec] at h
    cases h
  · rw [hExec] at h
    rcases bind_eq_ok.mp h with ⟨after, hAfter, hEq⟩
    rw [pure_eq_ok] at hEq
    subst hEq
    exact ⟨hAfter, rfl, rfl, rfl⟩

/- A transaction that succeeds was committed. -/
theorem commits_of_ok
    (hV : Value.Inherited V)
    (e : Engine)
    {items : List Value}
    (h : ∀ x ∈ items, V x)
    {r : TxResult}
    (hResult : (e.transactItems items).1 = .ok r) :
    ∃ l, e.Commits V l r := by
  have hAdvance := (advancing_steps hV e h e.opened).1
  rcases result_of_ok hResult with
    ⟨hAfter, hBefore, hFacts, _⟩
  exact ⟨_, hAdvance.ledger, hBefore, hFacts, hAfter⟩

/- So was a call that succeeds, and its database is the next. -/
theorem commits_of_transact
    {e : Engine}
    {data : Value}
    {r : TxResult}
    (h : (e.transact data).1 = .ok r) :
    ∃ l, e.Commits (fun _ => True) l r
      ∧ (e.transact data).2.db = r.after := by
  unfold transact at h ⊢
  cases hItems : data.sequence? with
  | none =>
      rw [hItems] at h
      cases h
  | some items =>
      rw [hItems] at h
      rcases commits_of_ok inherited_true e
        (fun _ _ => trivial) h with ⟨l, hCommits⟩
      exact ⟨l, hCommits, db_transactItems_of_ok e items h⟩

/- A call that fails leaves the database alone. -/
theorem db_transact_of_error
    {e : Engine}
    {data : Value}
    {fault : Fault}
    (h : (e.transact data).1 = .error fault) :
    (e.transact data).2.db = e.db := by
  unfold transact at h ⊢
  cases hItems : data.sequence? with
  | none => rfl
  | some items =>
      rw [hItems] at h
      exact db_transactItems_of_error e items h

/-
  A transaction advances from where it opens, and what comes
  of it is either the database as it was or the one that its
  log leads to.
-/
theorem advances_transactItems
    (hV : Value.Inherited V)
    (e : Engine)
    {items : List Value}
    (h : ∀ x ∈ items, V x) :
    ∃ w : Working,
      e.opened.Advances e.ground V w
        ∧ (e.transactItems items).2.allocator = w.allocator
        ∧ ((e.transactItems items).2.db = e.db
            ∨ e.db.afterLog w.ledger
                = .ok (e.transactItems items).2.db) := by
  have hAdvance := (advancing_steps hV e h e.opened).1
  refine ⟨_, hAdvance, rfl, ?_⟩
  rcases hResult : (e.transactItems items).1 with fault | r
  · exact .inl (db_transactItems_of_error e items hResult)
  · right
    rw [db_transactItems_of_ok e items hResult]
    exact (result_of_ok hResult).1

------------------------------------------------------------
-- Runs
------------------------------------------------------------

/- One call for a transaction, whatever comes of it. -/
def Next
    (V : Value → Prop)
    (e f : Engine) : Prop :=
  ∃ data : Value, V data ∧ f = (e.transact data).2

/- Any number of calls, with data of a given sort. -/
abbrev Run (V : Value → Prop) :
    Engine → Engine → Prop :=
  Relation.ReflTransGen (Next V)

/-
  What a transaction keeps, a run keeps.  Data that is no
  sequence leaves the engine as it is.
-/
theorem Run.invariant
    (hV : Value.Inherited V)
    (P : Engine → Prop)
    (hStep :
      ∀ (e : Engine) (items : List Value),
        (∀ x ∈ items, V x) → P e →
          P (e.transactItems items).2)
    {e f : Engine}
    (h : Run V e f)
    (hStart : P e) : P f := by
  induction h with
  | refl => exact hStart
  | @tail e' f' _ hLast ih =>
      rcases hLast with ⟨data, hData, rfl⟩
      unfold transact
      cases hItems : data.sequence? with
      | none => exact ih
      | some items =>
          apply hStep _ _ _ ih
          exact
            hV.items hData (Value.items?_of_sequence? hItems)

/-
  One call for a transaction.  Its result is as stated, if it
  has one.
-/
def NextOf
    (P : TxResult → Prop)
    (e f : Engine) : Prop :=
  ∃ data : Value,
    (∀ r, (e.transact data).1 = .ok r → P r)
      ∧ f = (e.transact data).2

/- A call whose result is seen to be as stated, if any. -/
theorem nextOf_of_all
    {e : Engine}
    {data : Value}
    {P : TxResult → Prop}
    {check : TxResult → Bool}
    (hCheck :
      ∀ l r, e.Commits (fun _ => True) l r →
        check r = true → P r)
    (h : (e.transact data).1.toOption.all check = true) :
    NextOf P e (e.transact data).2 := by
  refine ⟨data, ?_, rfl⟩
  intro r hResult
  rcases commits_of_transact hResult with ⟨l, hCommits, _⟩
  rw [hResult] at h
  exact hCheck l r hCommits h

/- Any number of calls, with results as stated. -/
abbrev RunOf (P : TxResult → Prop) :
    Engine → Engine → Prop :=
  Relation.ReflTransGen (NextOf P)

/-
  What every transaction that is committed keeps, a run
  keeps.  A call that fails leaves the database alone.
-/
theorem RunOf.invariant
    {P : TxResult → Prop}
    (Q : Database → Prop)
    (hStep :
      ∀ (e : Engine) (l : Ledger) (r : TxResult),
        e.Commits (fun _ => True) l r → P r → Q e.db →
          Q r.after)
    {e f : Engine}
    (h : RunOf P e f)
    (hStart : Q e.db) : Q f.db := by
  induction h with
  | refl => exact hStart
  | @tail e' f' _ hLast ih =>
      rcases hLast with ⟨data, hData, rfl⟩
      rcases hResult : (e'.transact data).1 with fault | r
      · rw [db_transact_of_error hResult]
        exact ih
      · rcases commits_of_transact hResult with
          ⟨l, hCommits, hDb⟩
        rw [hDb]
        exact hStep e' l r hCommits (hData r hResult) ih

end Engine

end FactBase
