import FactBase.Proofs.Fact.Run

/-
  This file shows that the log of a transaction says exactly
  what the transaction did: whoever has the facts of before
  and carries out the log gets the facts of after, and no
  entry of the log could be left out.

  Key definitions include:
    * `Replay.step`
    * `Replay.run`
    * `Replay.Minimal`

  Key theorems include:
    * `Replay.step_of_retracted`
    * `Ledger.Change.replayed`
    * `Engine.replay_facts`
-/

------------------------------------------------------------
-- Carrying Out a Log
------------------------------------------------------------

namespace FactBase

open Sorting

/-
  A fact gives the entity of another one an equal value for
  the same attribute.
-/
def DatomOf.restates (c d : Datom) : Bool :=
  c.entity == d.entity && c.attr == d.attr
    && Outcome.holds (c.value.equals d.value)

/- What restates a fact is what states its value. -/
theorem DatomOf.restates_eq (c d : Datom) :
    c.restates d =
      Outcome.holds (d.value.states d.entity d.attr c) := by
  unfold DatomOf.restates Value.states
  split
  next h => rw [h, Bool.true_and]
  next h =>
    rw [Bool.not_eq_true] at h
    rw [h, Bool.false_and, Outcome.holds_ok]

namespace Replay

/-
  Carry out one entry of a log: a fact that was added comes
  last, of a fact that was retracted the first copy goes.
-/
def step
    (datoms : List Datom)
    (d : Datom) : List Datom :=
  if d.added then datoms ++ [d]
  else datoms.eraseP (fun c => c.restates d)

/- Carry out a log from its first entry to its last. -/
def run
    (datoms : List Datom)
    (log : List Datom) : List Datom :=
  log.foldl step datoms

/-
  The entry makes a difference: what it adds is not there
  yet, what it retracts is there.
-/
def Needed
    (datoms : List Datom)
    (d : Datom) : Prop :=
  if d.added then
    ∀ c ∈ datoms,
      c.entity = d.entity → c.attr = d.attr →
        c.value.equals d.value = .ok false
  else ∃ c ∈ datoms, c.restates d = true

/- Each entry makes a difference when it is carried out. -/
def Minimal : List Datom → List Datom → Prop
  | _, [] => True
  | datoms, d :: log =>
      Needed datoms d ∧ Minimal (step datoms d) log

/- Carrying out one more entry. -/
theorem run_append_singleton
    (datoms log : List Datom)
    (d : Datom) :
    run datoms (log ++ [d]) = step (run datoms log) d := by
  simp [run]

/- One more entry that makes a difference. -/
theorem Minimal.append_singleton
    {datoms log : List Datom}
    {d : Datom}
    (h : Minimal datoms log)
    (hNeeded : Needed (run datoms log) d) :
    Minimal datoms (log ++ [d]) := by
  induction log generalizing datoms with
  | nil => exact ⟨hNeeded, trivial⟩
  | cons c log ih => exact ⟨h.1, ih h.2 hNeeded⟩

/-
  Taking out the first fact that states a value is carrying
  out the retraction of that value, which made a difference.
-/
theorem step_of_retracted
    {datoms rest : List Datom}
    {d : Datom}
    (hRetracted : d.added = false)
    (h :
      withoutFirst? (d.value.states d.entity d.attr) datoms
        = .ok (some rest)) :
    step datoms d = rest ∧ Needed datoms d := by
  rcases split_of_withoutFirst? h with
    ⟨before, c, after, rfl, rfl, hFirst, hBefore⟩
  have hFound : c.restates d = true := by
    rw [DatomOf.restates_eq, hFirst]
    rfl
  constructor
  · simp only [step, hRetracted, Bool.false_eq_true, if_false]
    rw [List.eraseP_append_right]
    · exact
        congrArg (before ++ ·) (List.eraseP_cons_of_pos hFound)
    intro b hb
    rw [DatomOf.restates_eq, hBefore b hb]
    simp
  · simp only [Needed, hRetracted, Bool.false_eq_true, if_false]
    exact ⟨c, by simp, hFound⟩

end Replay

------------------------------------------------------------
-- Logs of Transactions
------------------------------------------------------------

namespace Ledger

open Replay

variable {db : Database}
variable {tx : Int}
variable {V : Value → Prop}
variable {l after : Ledger}

/-
  The log leads from given facts to those of the ledger, by
  entries of one transaction that all make a difference.
-/
structure Replays
    (tx : Int)
    (datoms : List Datom)
    (l : Ledger) : Prop where
  run : Replay.run datoms l.log = l.datoms
  minimal : Minimal datoms l.log
  tx : ∀ d ∈ l.log, d.tx = tx

/- Nothing was changed, and nothing is in the log. -/
theorem replays_ofDatabase (db : Database) :
    Replays tx db.datoms (.ofDatabase db) where
  run := rfl
  minimal := trivial
  tx := fun _ hd => absurd hd List.not_mem_nil

/- An entry that is carried out with its change. -/
theorem Replays.append
    {datoms rest : List Datom}
    {d : Datom}
    (h : Replays tx datoms l)
    (hTx : d.tx = tx)
    (hStep : step l.datoms d = rest)
    (hNeeded : Needed l.datoms d) :
    Replays tx datoms
      { datoms := rest
        log := l.log ++ [d] } where
  run := by rw [run_append_singleton, h.run, hStep]
  minimal := h.minimal.append_singleton (by rwa [h.run])
  tx := forall_mem_append_singleton.mpr ⟨h.tx, hTx⟩

/- Every change enters what it does in the log. -/
theorem Change.replayed
    {datoms : List Datom}
    (h : Change db tx V l after)
    (hSoFar : Replays tx datoms l) :
    Replays tx datoms after := by
  cases h with
  | @retract entity attr v origin rest hRest =>
      let gone : Datom :=
        { entity := entity
          attr := attr
          value := v
          tx := tx
          added := false
          origin := origin }
      rcases step_of_retracted (d := gone) rfl hRest with
        ⟨hStep, hNeeded⟩
      exact hSoFar.append rfl hStep hNeeded
  | @enter entity attr v origin _ hNew _ _ _ =>
      refine hSoFar.append rfl rfl ?_
      simp only [Needed, if_true]
      intro c hc hEntity hAttr
      exact hNew c (mem_about.mpr ⟨hc, hEntity, hAttr⟩)

end Ledger

------------------------------------------------------------
-- Results
------------------------------------------------------------

namespace Engine

/-
  Whenever a transaction is committed, its log leads from the
  facts of before to the facts of after.  When it is carried
  out, what an entry adds is not there yet and what an entry
  retracts is there, and all entries are of the transaction.
-/
theorem replay_facts
    {e : Engine}
    {data : Value}
    {r : TxResult}
    (h : (e.transact data).1 = .ok r) :
    r.before = e.db
      ∧ Replay.run r.before.datoms r.facts = r.after.datoms
      ∧ Replay.Minimal r.before.datoms r.facts
      ∧ ∀ d ∈ r.facts, d.tx = e.ground.tx := by
  rcases commits_of_transact h with ⟨l, hCommits, _⟩
  have hReplays :
      Ledger.Replays e.ground.tx e.db.datoms l :=
    hCommits.changes.invariant
      (Ledger.Replays e.ground.tx e.db.datoms)
      (fun _ _ hChange => hChange.replayed)
      (Ledger.replays_ofDatabase e.db)
  rw [hCommits.before, hCommits.facts,
    (Database.extends_afterLog hCommits.after).1]
  exact ⟨rfl, hReplays.run, hReplays.minimal, hReplays.tx⟩

/-
  Transaction data that documents an entity twice, the second
  time in vain, then otherwise, and that retracts a value
  which is not there and one which is.
-/
def revisionData : Value :=
  let entity : Value := .tempid "db.part/user" (-1)
  .list
    [ .list
        [.str "db/add", entity, .str "db/doc", .str "first"]
    , .list
        [.str "db/add", entity, .str "db/doc", .str "first"]
    , .list
        [.str "db/add", entity, .str "db/doc", .str "second"]
    , .list
        [.str "db/retract", entity, .str "db/doc",
          .str "first"]
    , .list
        [.str "db/retract", .str "db/ident", .str "db/index",
          .bool true] ]

/-
  The log of such a transaction has five entries: the instant,
  the document, its retraction for the other one, that one,
  and the last retraction.
-/
theorem replay_facts_revisionData :
    ∃ r,
      ((start (fun _ => 0)).transact revisionData).1 = .ok r
        ∧ r.facts.map DatomOf.added
            = [true, true, false, true, false]
        ∧ Replay.run (Bootstrap.database 0).datoms r.facts
            = r.after.datoms
        ∧ Replay.Minimal
            (Bootstrap.database 0).datoms r.facts := by
  have hLog :
      ((start (fun _ => 0)).transact
          revisionData).1.toOption.map
          (fun r => r.facts.map DatomOf.added)
        = some [true, true, false, true, false] := by
    decide +kernel
  rcases hResult :
      ((start (fun _ => 0)).transact revisionData).1 with
    fault | r
  · rw [hResult] at hLog
    cases hLog
  · rw [hResult] at hLog
    rcases replay_facts hResult with
      ⟨hBefore, hRun, hMinimal, _⟩
    rw [hBefore] at hRun hMinimal
    exact ⟨r, rfl, Option.some.inj hLog, hRun, hMinimal⟩

end Engine

end FactBase
