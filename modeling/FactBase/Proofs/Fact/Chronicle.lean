import FactBase.Proofs.Fact.Listing

/-
  This file shows that the list of all transactions is the
  history of what was committed.  Every transaction that is
  committed leaves one fact about itself, with its instant,
  and those that fail leave none.  Ids of transactions are
  given out in ascending order, however many of them are lost
  in between.

  Key definitions include:
    * `TxResult.LeavesTransactions`
    * `Engine.committed`
    * `Engine.Chronicled`

  Key theorems include:
    * `Engine.Chronicled.txFacts_after`
    * `Engine.Chronicled.transactItems`
    * `Engine.Chronicled.after`
    * `Engine.after_transactions`
-/

------------------------------------------------------------
-- What a Commit Leaves
------------------------------------------------------------

namespace FactBase

open Sorting
open Bootstrap
open EntityId

/-
  A commit leaves the transactions alone: the attribute of
  instants stays what it is, and but for its own instant,
  which comes first, it says nothing about any of them.
-/
structure TxResult.LeavesTransactions (r : TxResult) : Prop where
  installed :
    r.after.installed (.str "db/txInstant")
      = .ok instantInstalled
  elsewhere :
    ∀ d ∈ r.facts.tail, partitionIndex d.entity ≠ txPartition

/- The definition is the one that the attribute has at first. -/
def Schema.isOfInstants : Schema → Bool
  | { ident := "db/txInstant"
      valueType := .instant
      cardinality := .one
      unique := none
      index := .bool true
      fulltext := .bool false
      component := .bool false
      noHistory := .bool false
      doc := none } => true
  | _ => false

/- There is one such definition. -/
theorem Schema.isOfInstants_iff
    {s : Schema} :
    s.isOfInstants = true ↔ s = plain "db/txInstant" .instant := by
  constructor
  · intro h
    unfold isOfInstants at h
    split at h
    · rfl
    · cases h
  · rintro rfl
    rfl

/- It can be computed whether a commit leaves them alone. -/
instance
    (r : TxResult) : Decidable r.LeavesTransactions :=
  decidable_of_iff
    ((r.after.installed (.str "db/txInstant")).toOption.any
          (fun a => a.eid == instantAttr && a.schema.isOfInstants)
        = true
      ∧ ∀ d ∈ r.facts.tail,
        partitionIndex d.entity ≠ txPartition) <| by
    refine
      Iff.trans (and_congr_left' ?_)
        ⟨fun h => ⟨h.1, h.2⟩, fun h => ⟨h.1, h.2⟩⟩
    rcases r.after.installed (.str "db/txInstant") with _ | a
    · simp [Except.toOption]
    · rcases a with ⟨eid, schema⟩
      simp [Except.toOption, instantInstalled,
        Schema.isOfInstants_iff]

namespace Engine

/- The instants and the results of the calls that succeed. -/
def committed (e : Engine) : List Value → List (Int × TxResult)
  | [] => []
  | data :: calls =>
      let rest := (e.transact data).2.committed calls
      match (e.transact data).1 with
      | .ok r => (e.clock e.ticks, r) :: rest
      | .error _ => rest

/-
  The database dates all that was committed, by ids that were
  given out.
-/
structure Chronicled
    (e : Engine)
    (instants : List Int) : Prop where
  dated : e.db.Dated instants
  given :
    ∀ d ∈ e.db.txFacts,
      d.entity < span + e.allocator.next txPartition
  count : instants.length = e.db.basis + 1

variable {e : Engine}
variable {instants : List Int}

/- The fact with its instant is one about a transaction. -/
theorem aboutTx_timeFact
    (hRoom : e.allocator.next txPartition < span)
    (instant : Installed) :
    (e.timeFact instant).aboutTx = true :=
  beq_iff_eq.mpr (partitionIndex_inPartition _ _ hRoom)

/- No fact is about the next transaction. -/
theorem Chronicled.fresh_tx
    (h : e.Chronicled instants)
    (hRoom : e.allocator.next txPartition < span) :
    ∀ d ∈ e.db.datoms, d.entity ≠ e.ground.tx := by
  intro d hd hSame
  have hAbout : d.aboutTx = true := by
    rw [← aboutTx_timeFact hRoom instantInstalled]
    unfold DatomOf.aboutTx
    rw [hSame]
    rfl
  have hLess := h.given d (List.mem_filter.mpr ⟨hd, hAbout⟩)
  rw [hSame, e.ground_tx hRoom] at hLess
  exact lt_irrefl _ hLess

/- Once the instant is entered, the items change the facts. -/
theorem changes_attempt
    {instant : Installed}
    (hInstant :
      e.db.installed (.str "db/txInstant") = .ok instant)
    (hNew : ∀ d ∈ e.db.datoms, d.entity ≠ e.ground.tx)
    (items : List Value) :
    Ledger.Changes e.db e.ground.tx (fun _ => True)
      ((Ledger.ofDatabase e.db).append (e.timeFact instant))
      (e.attempt items).2.ledger := by
  have hItems :
      Transacting.Advancing e.ground (fun _ => True)
        (items.forM Transacting.applyItem) (fun _ => True) :=
    Transacting.Advancing.forM fun _ _ =>
      Transacting.advancing_applyItem inherited_true trivial
  have hExec := exec_steps hInstant hNew items
  have hAdvance :=
    (hItems
      { e.opened with
        ledger :=
          (Ledger.ofDatabase e.db).append
            (e.timeFact instant) }).1.ledger
  rw [← hExec] at hAdvance
  exact hAdvance

/-
  The fact about the next transaction is entered behind all
  others about transactions, and it stays.
-/
theorem Chronicled.txFacts_after
    (h : e.Chronicled instants)
    (hRoom : e.allocator.next txPartition < span)
    {items : List Value}
    {r : TxResult}
    (hResult : (e.transactItems items).1 = .ok r)
    (hLeaves : r.LeavesTransactions) :
    r.after.txFacts
      = e.db.txFacts ++ [e.timeFact instantInstalled] := by
  rcases result_of_ok hResult with ⟨hAfter, -, hFacts, -⟩
  have hChanges :=
    changes_attempt h.dated.installed (h.fresh_tx hRoom) items
  have hSort :
      ∀ c d : Datom,
        c.entity = d.entity → c.attr = d.attr →
          c.aboutTx = d.aboutTx := by
    intro c d hEntity _
    rw [DatomOf.aboutTx, DatomOf.aboutTx, hEntity]
  rcases hChanges.filter_eq hSort with ⟨entries, hLog, hKept⟩
  have hTail : r.facts.tail = entries := by
    rw [hFacts, hLog]
    rfl
  have hOthers : ∀ d ∈ entries, d.aboutTx = false := by
    intro d hd
    rw [← hTail] at hd
    exact beq_eq_false_iff_ne.mpr (hLeaves.elsewhere d hd)
  unfold Database.txFacts
  rw [(Database.extends_afterLog hAfter).1, hKept hOthers]
  change (e.db.datoms ++ [_]).filter _ = _
  rw [List.filter_append, List.filter_singleton,
    aboutTx_timeFact hRoom]
  rfl

/- A transaction takes an id for itself, be it committed or not. -/
theorem next_lt_transactItems
    (e : Engine)
    (items : List Value) :
    e.allocator.next txPartition
      < (e.transactItems items).2.allocator.next txPartition := by
  rw [← Nat.succ_le_iff, Nat.succ_eq_add_one,
    ← Allocator.next_take_self]
  exact (e.issues_attempt items).next_le txPartition

/- A transaction that is committed counts one further. -/
theorem basis_of_ok
    {items : List Value}
    {r : TxResult}
    (hResult : (e.transactItems items).1 = .ok r) :
    r.after.basis = e.db.basis + 1 := by
  rcases Database.afterLog_eq_ok.mp (result_of_ok hResult).1
    with ⟨_, _, _, _, _, -, -, -, -, -, hAfter⟩
  exact hAfter ▸ rfl

/-
  A transaction that is committed adds its instant to those
  that are dated, provided that it leaves the others alone and
  that there was an id for it.
-/
theorem Chronicled.transactItems
    (h : e.Chronicled instants)
    {items : List Value}
    {r : TxResult}
    (hResult : (e.transactItems items).1 = .ok r)
    (hRoom :
      (e.transactItems items).2.allocator.next txPartition
        ≤ span)
    (hLeaves : r.LeavesTransactions) :
    (e.transactItems items).2.Chronicled
      (instants ++ [e.clock e.ticks]) := by
  have hNext := e.next_lt_transactItems items
  have hFit : e.allocator.next txPartition < span := by omega
  have hFacts := h.txFacts_after hFit hResult hLeaves
  have hTx :
      (e.timeFact instantInstalled).entity
        = span + e.allocator.next txPartition :=
    e.ground_tx hFit
  have hDb := db_transactItems_of_ok e items hResult
  constructor
  · rw [hDb]
    refine
      h.dated.append hLeaves.installed hFacts ⟨rfl, rfl⟩ ?_
    intro c hc
    rw [hTx]
    exact h.given c hc
  · intro d hd
    rw [hDb, hFacts, List.mem_append, List.mem_singleton] at hd
    rcases hd with hd | rfl
    · have hLess := h.given d hd
      omega
    · rw [hTx]
      omega
  · rw [hDb, basis_of_ok hResult, List.length_append, h.count]
    rfl

/- So does a call that succeeds. -/
theorem Chronicled.transact
    (h : e.Chronicled instants)
    {data : Value}
    {r : TxResult}
    (hResult : (e.transact data).1 = .ok r)
    (hRoom :
      (e.transact data).2.allocator.next txPartition ≤ span)
    (hLeaves : r.LeavesTransactions) :
    (e.transact data).2.Chronicled
      (instants ++ [e.clock e.ticks]) := by
  unfold Engine.transact at hResult hRoom ⊢
  cases hItems : data.sequence? with
  | none =>
      rw [hItems] at hResult
      cases hResult
  | some items =>
      rw [hItems] at hResult hRoom
      exact h.transactItems hResult hRoom hLeaves

/- A call that fails adds none. -/
theorem Chronicled.transact_of_error
    (h : e.Chronicled instants)
    {data : Value}
    {fault : Fault}
    (hResult : (e.transact data).1 = .error fault) :
    (e.transact data).2.Chronicled instants := by
  have hDb := db_transact_of_error hResult
  have hNext := e.next_le_transact data txPartition
  constructor
  · rw [hDb]
    exact h.dated
  · intro d hd
    rw [hDb] at hd
    have hLess := h.given d hd
    omega
  · rw [hDb]
    exact h.count

/-
  Any number of calls add the instants of those that succeed,
  one after the other.
-/
theorem Chronicled.after
    (h : e.Chronicled instants)
    (calls : List Value)
    (hRoom :
      (e.after calls).allocator.next txPartition ≤ span)
    (hLeaves :
      ∀ c ∈ e.committed calls, c.2.LeavesTransactions) :
    (e.after calls).Chronicled
      (instants ++ (e.committed calls).map Prod.fst) := by
  induction calls generalizing e instants with
  | nil =>
      rw [committed, List.map_nil, List.append_nil]
      exact h
  | cons data calls ih =>
      have hFirst :
          (e.transact data).2.allocator.next txPartition
            ≤ span :=
        (next_le_after _ calls txPartition).trans hRoom
      rw [committed] at hLeaves ⊢
      rcases hResult : (e.transact data).1 with fault | r
      · rw [hResult] at hLeaves
        exact ih (h.transact_of_error hResult) hRoom hLeaves
      · rw [hResult] at hLeaves
        rw [List.forall_mem_cons] at hLeaves
        have hRest :=
          ih (h.transact hResult hFirst hLeaves.1) hRoom
            hLeaves.2
        rwa [List.append_assoc] at hRest

end Engine

------------------------------------------------------------
-- Runs
------------------------------------------------------------

namespace Bootstrap

/- The first database has one fact about a transaction. -/
theorem txFacts_database (instant : Int) :
    (database instant).txFacts = [instantFact instant] := by
  have hNone : fixedFacts.filter DatomOf.aboutTx = [] := by
    decide +kernel
  have hAbout : (instantFact instant).aboutTx = true := by
    change (partitionIndex tx == txPartition) = true
    decide +kernel
  change (fixedFacts ++ [instantFact instant]).filter _ = _
  rw [List.filter_append, hNone, List.nil_append,
    List.filter_singleton, hAbout]
  rfl

/- It dates its own transaction. -/
theorem dated_database (instant : Int) :
    (database instant).Dated [instant] where
  installed := by
    have hListed :
        (plain "db/txInstant" .instant, instantAttr)
          ∈ attributeIds :=
      List.mem_of_getElem? (rfl : attributeIds[9]? = some _)
    exact
      (Database.keepsBootstrap_database instant).installed hListed
  facts := by
    rw [txFacts_database]
    exact .cons ⟨rfl, rfl⟩ .nil
  ascending := by
    rw [txFacts_database]
    exact List.pairwise_singleton _ _

end Bootstrap

namespace Engine

/- So does a new engine. -/
theorem chronicled_start (clock : Nat → Int) :
    (start clock).Chronicled [clock 0] := by
  refine ⟨dated_database (clock 0), ?_, rfl⟩
  intro d hd
  have hFirst : d ∈ [instantFact (clock 0)] :=
    txFacts_database (clock 0) ▸ hd
  rw [List.mem_singleton.mp hFirst]
  change tx < (span : Int) + ((1 : Nat) : Int)
  decide +kernel

/-
  The list of all transactions is the history of what was
  committed, whatever failed in between: one map for the start
  of the engine and for each call that succeeded, in the order
  of the calls, with the instant at which it was made.  Ids of
  transactions have to last, and what was committed may say
  nothing about transactions but its own instant, nor touch the
  attribute of instants.  No value may be undefined, and all
  facts have to be about ids in some partition.  What has
  grown since then does not matter, because only sets grow.
-/
theorem after_transactions
    (clock : Nat → Int)
    (calls : List Value)
    {e : Engine}
    (hEngine : (start clock).after calls = e)
    (hRoom : e.allocator.next txPartition ≤ span)
    (hLeaves :
      ∀ c ∈ (start clock).committed calls,
        c.2.LeavesTransactions)
    (hDefined :
      ∀ d ∈ e.db.datoms, d.value.isUndefined = false)
    (hInside :
      ∀ d ∈ e.db.datoms,
        0 ≤ d.entity ∧ d.entity < e.db.partitions.length * span)
    {growths : Growths}
    (hStay : e.db.InstantsStay growths) :
    ∃ maps,
      e.db.transactions.run.run growths = (.ok maps, growths)
        ∧ maps.length = e.db.basis + 1
        ∧ maps
          = (clock 0
              :: ((start clock).committed calls).map
                Prod.fst).map
            (fun t => [(.str "db/txInstant", .instant t)]) := by
  subst hEngine
  have hChronicled :=
    (chronicled_start clock).after calls hRoom hLeaves
  rcases (run_after (start clock) calls).sound_extends
      inherited_true (sound_database (clock 0)) with
    ⟨hSound, hExtends⟩
  rcases hExtends.partitions with ⟨more, hMore⟩
  have hPartitioned :
      ((start clock).after calls).db.Partitioned := by
    refine ⟨hSound.partitions, ?_, hInside⟩
    rw [← hMore]
    rfl
  refine
    ⟨_, Database.run_transactions hChronicled.dated hPartitioned
      hDefined hStay, ?_, rfl⟩
  rw [List.length_map]
  exact hChronicled.count

/-
  Transaction data that gives an instant to an entity of the
  partition of users.
-/
def datedData : Value :=
  .list
    [ .list
        [ .str "db/add", .tempid "db.part/user" (-1)
        , .str "db/txInstant", .instant 7 ] ]

/- Two calls that succeed and one in between that fails. -/
def eventfulCalls : List Value :=
  [datedData, failingData, exampleData]

/- They are dated by the first and the third instant. -/
theorem after_transactions_eventfulCalls :
    ((soundEngine.after eventfulCalls).db.transactions.run.run
        []).1
      = .ok
        ([0, 1, 3].map (fun t =>
          [(.str "db/txInstant", .instant t)])) := by
  have hRoom :
      (soundEngine.after eventfulCalls).allocator.next
        txPartition ≤ span := by
    decide +kernel
  have hLeaves :
      ∀ c ∈ soundEngine.committed eventfulCalls,
        c.2.LeavesTransactions := by
    decide +kernel
  have hDefined :
      ∀ d ∈ (soundEngine.after eventfulCalls).db.datoms,
        d.value.isUndefined = false := by
    decide +kernel
  have hInside :
      ∀ d ∈ (soundEngine.after eventfulCalls).db.datoms,
        0 ≤ d.entity
          ∧ d.entity
            < (soundEngine.after eventfulCalls).db.partitions.length
              * span := by
    decide +kernel
  have hCommitted :
      (soundEngine.committed eventfulCalls).map Prod.fst
        = [1, 3] := by
    decide +kernel
  have hStay :
      (soundEngine.after eventfulCalls).db.InstantsStay [] :=
    nofun
  rcases after_transactions (fun n => n) eventfulCalls rfl hRoom
      hLeaves hDefined hInside hStay with
    ⟨maps, hRun, -, rfl⟩
  refine (congrArg Prod.fst hRun).trans ?_
  change
    Except.ok
        ((0 :: (soundEngine.committed eventfulCalls).map
          Prod.fst).map _) = _
  rw [hCommitted]

end Engine

end FactBase
