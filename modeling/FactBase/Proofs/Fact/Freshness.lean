import FactBase.Proofs.Fact.Issuing
import FactBase.Proofs.Fact.Invariant
import FactBase.Proofs.Fact.Removal

/-
  This file shows that no id is given out twice, whatever an
  engine was called for and whether it was committed, and
  that ids lie in the partitions that were asked for them.
  An id that a transaction gives to a temporary id is new to
  the database, provided that data names only ids that were
  given out and that no attribute with facts is made one
  whose values are entities.

  Key definitions include:
    * `Engine.after`
    * `Engine.issuedAlong`
    * `Engine.Accounted`
    * `Engine.namesGiven`
    * `Engine.CoveredBy`

  Key theorems include:
    * `Database.covered_afterLog`
    * `Engine.issuing_steps`
    * `Engine.Accounted.after`
    * `Engine.Covered.after`
    * `Engine.after_gives_fresh_ids`
-/

------------------------------------------------------------
-- The Next Database
------------------------------------------------------------

namespace FactBase

open Sorting
open Issuance (Issues)

/- An entry of a table was there before or is what was put. -/
theorem Table.mem_or_eq_of_mem_put
    {α : Type}
    {key : Value}
    {x : α}
    {table : List (Value × α)}
    {b : Value × α}
    (h : b ∈ put key x table) : b ∈ table ∨ b.2 = x := by
  induction table with
  | nil => exact .inr (congrArg Prod.snd (List.mem_singleton.mp h))
  | cons e rest ih =>
      rcases e with ⟨k, y⟩
      rw [put] at h
      split at h
      · rcases List.mem_cons.mp h with rfl | hRest
        · exact .inr rfl
        · exact .inl (List.mem_cons_of_mem _ hRest)
      · rcases List.mem_cons.mp h with rfl | hRest
        · exact .inl List.mem_cons_self
        · exact (ih hRest).imp_left (List.mem_cons_of_mem _)

/- Erasing leaves only entries that were there. -/
theorem Table.erase_sublist
    {α : Type}
    (key : Value)
    (table : List (Value × α)) :
    (erase key table).Sublist table := by
  induction table with
  | nil => exact List.Sublist.refl _
  | cons e rest ih =>
      rcases e with ⟨k, y⟩
      rw [erase]
      split
      · exact List.sublist_cons_self _ _
      · exact ih.cons_cons _

variable {A A' K : Int → Prop}

/-
  The database after a transaction speaks of known entities,
  if its facts do and no attribute that has facts comes to
  count.
-/
theorem Database.covered_afterLog
    {db after : Database}
    {l : Ledger}
    (hCovered : l.Covered db A K)
    (hAfter : db.afterLog l = .ok after)
    (hKept : ∀ d ∈ after.datoms, A' d.attr → A d.attr) :
    (Ledger.ofDatabase after).Covered after A' K := by
  rcases afterLog_eq_ok.mp hAfter with
    ⟨ident, idents, newAttr, newPart, installs, _, hIdents, _,
      _, _, rfl⟩
  refine ⟨?_, ?_, by simp [Ledger.ofDatabase]⟩
  · refine
      Outcome.foldlM_invariant
        (fun table => ∀ b ∈ table, K b.2) ?_ hIdents
        hCovered.idents
    intro d hd table next hStep hTable
    have hEntity :=
      hCovered.log d (List.mem_filter.mp hd).1
    unfold followIdent at hStep
    rcases bind_eq_ok.mp hStep with ⟨owner, _, hRest⟩
    split at hRest
    · rw [pure_eq_ok] at hRest
      subst hRest
      intro b hb
      rcases Table.mem_or_eq_of_mem_put hb with hOld | hNew
      · exact hTable b hOld
      · exact hNew ▸ hEntity
    · split at hRest
      · rw [pure_eq_ok] at hRest
        subst hRest
        intro b hb
        exact hTable b ((Table.erase_sublist _ _).subset hb)
      · rw [pure_eq_ok] at hRest
        exact hRest ▸ hTable
  · intro d hd
    have hFact := hCovered.datoms d hd
    exact
      ⟨hFact.entity,
        fun hCounts => hFact.value (hKept d hd hCounts)⟩

/- More entities may be known, and fewer values may count. -/
theorem Ledger.Covered.mono
    {db : Database}
    {l : Ledger}
    {K' : Int → Prop}
    (h : l.Covered db A K)
    (hA : ∀ d ∈ l.datoms, A' d.attr → A d.attr)
    (hK : ∀ n, K n → K' n) : l.Covered db A' K' where
  idents := fun b hb => hK _ (h.idents b hb)
  datoms := fun d hd =>
    ⟨hK _ (h.datoms d hd).entity,
      fun hCounts n hn =>
        hK _ ((h.datoms d hd).value (hA d hd hCounts) n hn)⟩
  log := fun d hd => hK _ (h.log d hd)

------------------------------------------------------------
-- One Transaction
------------------------------------------------------------

namespace Engine

open Bootstrap

variable {P : Prop}

/- The steps of a transaction give ids to temporary ids. -/
theorem issuing_steps
    (e : Engine)
    {items : List Value}
    (hA : ∀ a, A a → e.db.isRef a = true)
    (hTx : P → K e.ground.tx)
    (h :
      P → ∀ item ∈ items, ∀ n,
        Value.int n ∈ e.db.itemSpecs item → K n) :
    Transacting.Issuing e.ground A K P (e.steps items)
      (fun _ => True) := by
  refine .bind (Transacting.issuing_installed _) ?_
  intro instant
  refine .bind (Transacting.issuing_add ?_) ?_
  · rintro ⟨hP, _⟩
    refine ⟨hTx hP, ?_⟩
    intro _ n hn
    cases hn
  · intro _
    apply Transacting.Issuing.forM
    intro item hItem
    apply Transacting.issuing_applyItem hA
    exact fun hP n hn => h hP.1.1 item hItem n hn

/- The ids that an attempt gives out: its own one comes first. -/
def issuedBy
    (e : Engine)
    (items : List Value) : List (String × Int) :=
  (txPartitionName, e.ground.tx)
    :: requests (e.attempt items).2.tempids

/- An attempt takes an id for itself, then for temporary ids. -/
theorem issues_attempt
    (e : Engine)
    (items : List Value) :
    Issues e.db e.opened.issuance
      (e.attempt items).2.issuance :=
  (@issuing_steps (fun _ => False) (fun _ => True) True e
    items (fun _ => False.elim) (fun _ => trivial)
    (fun _ _ _ _ _ => trivial) e.opened).1

/- So it takes no id back. -/
theorem next_le_attempt
    (e : Engine)
    (items : List Value)
    (p : Nat) :
    e.allocator.next p
      ≤ (e.attempt items).2.allocator.next p :=
  (e.allocator.next_le_next_take txPartition p).trans
    ((e.issues_attempt items).next_le p)

/- The ids that a call gives out. -/
def issued
    (e : Engine)
    (data : Value) : List (String × Int) :=
  match data.sequence? with
  | some items => e.issuedBy items
  | none => []

/-
  The books of an engine are kept, and the partitions that
  every database has come first.
-/
structure Accounted
    (e : Engine)
    (ids : List (String × Int)) : Prop where
  accounts : Accounts e.db.partitions e.allocator ids
  first : partitions.map Value.str <+: e.db.partitions

namespace Accounted

variable {e : Engine}
variable {ids : List (String × Int)}

/- An attempt keeps the books, whatever comes of it. -/
theorem attempt
    (h : e.Accounted ids)
    (items : List Value) :
    Accounts e.db.partitions (e.attempt items).2.allocator
      (ids ++ e.issuedBy items) := by
  have hTx :
      Database.positionOf? (.str txPartitionName)
        e.db.partitions = some txPartition := by
    refine Database.positionOf?_of_prefix h.first ?_
    decide +kernel
  have hOpened :
      Accounts e.db.partitions e.opened.issuance.allocator
        (ids ++ [(txPartitionName, e.ground.tx)]
          ++ requests e.opened.issuance.tempids) := by
    change Accounts _ _ (_ ++ [])
    rw [List.append_nil]
    exact h.accounts.take hTx
  have hAll := Accounts.issues (e.issues_attempt items) hOpened
  rw [List.append_assoc] at hAll
  exact hAll

/- So does a call. -/
theorem transact
    (h : e.Accounted ids)
    (data : Value) :
    (e.transact data).2.Accounted (ids ++ e.issued data) := by
  unfold Engine.transact issued
  cases data.sequence? with
  | none =>
      simp only [List.append_nil]
      exact h
  | some items =>
      have hExtends :
          e.db.partitions
            <+: (e.transactItems items).2.db.partitions := by
        rcases advances_transactItems inherited_true e
          (fun _ _ => trivial) with ⟨w, _, _, hDb | hAfter⟩
        · rw [hDb]
        · exact
            (Database.extends_afterLog hAfter).2.1.partitions
      exact
        ⟨(h.attempt items).widen hExtends,
          h.first.trans hExtends⟩

end Accounted

------------------------------------------------------------
-- Known Entities
------------------------------------------------------------

/- The ids that data names as entities. -/
def idsNamed
    (db : Database)
    (data : Value) : List Int :=
  ((data.sequence?.getD []).flatMap db.itemSpecs).filterMap
    (fun spec =>
      match spec with
      | .int n => some n
      | _ => none)

/- If data is committed, then the ids it names were given out. -/
def namesGiven
    (e : Engine)
    (data : Value) : Bool :=
  (e.transact data).1.toOption.isNone
    || (idsNamed e.db data).all
      (e.transact data).2.allocator.hasGiven

/-
  If data is committed, then it makes no attribute that has
  facts one whose values are entities.
-/
def keepsReferences
    (e : Engine)
    (data : Value) : Bool :=
  (e.transact data).1.toOption.all (fun r =>
    r.after.datoms.all (fun d =>
      !r.after.isRef d.attr || e.db.isRef d.attr))

/-
  The database speaks only of entities whose ids were given
  out, as far as the values of given attributes count.
-/
def CoveredBy
    (e : Engine)
    (A : Int → Prop) : Prop :=
  (Ledger.ofDatabase e.db).Covered e.db A
    (fun n => e.allocator.hasGiven n = true)

/- The same where all values count that are entities. -/
def Covered (e : Engine) : Prop :=
  e.CoveredBy (fun a => e.db.isRef a = true)

/- The ids noted by an attempt are given out by then. -/
theorem hasGiven_of_mem_tempids
    {e : Engine}
    {items : List Value}
    (hLast :
      ∀ p,
        (e.attempt items).2.allocator.next p ≤ EntityId.span)
    {b : Value × Int}
    (hb : b ∈ (e.attempt items).2.tempids) :
    (e.attempt items).2.allocator.hasGiven b.2 = true
      ∧ e.allocator.hasGiven b.2 = false := by
  rcases (e.issues_attempt items).serial rfl b hb with
    ⟨p, s, hEq, hFrom, hTo⟩
  have hFit : s < EntityId.span := hTo.trans_le (hLast p)
  have hBefore : e.allocator.next p ≤ s :=
    (e.allocator.next_le_next_take txPartition p).trans hFrom
  rw [hEq]
  constructor
  · exact (Allocator.hasGiven_inPartition _ p hFit).mpr hTo
  · rw [Bool.eq_false_iff, Ne,
      Allocator.hasGiven_inPartition _ p hFit]
    omega

/-
  A transaction whose data names only entities that were
  given out leaves facts that speak of such entities only.
-/
theorem CoveredBy.attempt
    {e : Engine}
    (h : e.CoveredBy A)
    (hA : ∀ a, A a → e.db.isRef a = true)
    {items : List Value}
    (hLast :
      ∀ p,
        (e.attempt items).2.allocator.next p ≤ EntityId.span)
    (hNames :
      ∀ item ∈ items, ∀ n,
        Value.int n ∈ e.db.itemSpecs item →
          (e.attempt items).2.allocator.hasGiven n = true) :
    (e.attempt items).2.ledger.Covered e.db A
      (fun n =>
        (e.attempt items).2.allocator.hasGiven n = true) := by
  have hTx :
      (e.attempt items).2.allocator.hasGiven e.ground.tx
        = true := by
    have hTaken :
        e.allocator.next txPartition
          < (e.attempt items).2.allocator.next txPartition := by
      have hNext := (e.issues_attempt items).next_le txPartition
      change (e.allocator.take txPartition).next _ ≤ _ at hNext
      rw [Allocator.next_take_self] at hNext
      exact hNext
    exact
      (Allocator.hasGiven_inPartition _ _
        (hTaken.trans_le (hLast txPartition))).mpr hTaken
  have hOpened :
      e.opened.ledger.Covered e.db A
        (fun n =>
          (e.attempt items).2.allocator.hasGiven n = true) :=
    h.mono (fun _ _ => id) (fun n hn =>
      Allocator.hasGiven_mono (e.next_le_attempt items) hn)
  have hSteps :=
    (issuing_steps (P := True) e hA (fun _ => hTx)
      (fun _ => hNames) e.opened).2
  exact
    (hSteps trivial
      (fun b hb => (hasGiven_of_mem_tempids hLast hb).1)
      hOpened).1

/-
  A call keeps the database to entities given out, if no
  attribute that has facts comes to count.
-/
theorem CoveredBy.transact
    {e : Engine}
    (h : e.CoveredBy A)
    (hA : ∀ a, A a → e.db.isRef a = true)
    {data : Value}
    (hLast :
      ∀ p,
        (e.transact data).2.allocator.next p ≤ EntityId.span)
    (hNames : e.namesGiven data = true)
    (hKept :
      ∀ d ∈ (e.transact data).2.db.datoms,
        A' d.attr → A d.attr) :
    (e.transact data).2.CoveredBy A' := by
  rcases hItems : data.sequence? with _ | items
  · have hCall :
        e.transact data = (.error (.engine .itemsNotList), e) := by
      rw [Engine.transact, hItems]
    rw [hCall] at hKept ⊢
    exact h.mono hKept (fun _ => id)
  · have hCall :
        e.transact data = e.transactItems items := by
      rw [Engine.transact, hItems]
    unfold namesGiven idsNamed at hNames
    rw [hItems, hCall] at hNames
    rw [hCall] at hKept hLast ⊢
    have hAllocator :
        (e.transactItems items).2.allocator
          = (e.attempt items).2.allocator := rfl
    rw [hAllocator] at hNames hLast
    rcases hResult : (e.transactItems items).1 with fault | r
    · unfold CoveredBy
      rw [db_transactItems_of_error e items hResult] at hKept ⊢
      rw [hAllocator]
      exact
        h.mono hKept (fun n hn =>
          Allocator.hasGiven_mono (e.next_le_attempt items) hn)
    · rw [hResult] at hNames
      have hLedger := h.attempt hA hLast (by
        intro item hItem n hn
        simp only [Except.toOption, Option.isNone_some,
          Bool.false_or, Option.getD_some, List.all_eq_true]
          at hNames
        apply hNames n
        exact
          List.mem_filterMap.mpr
            ⟨.int n, List.mem_flatMap.mpr ⟨item, hItem, hn⟩, rfl⟩)
      have hAfter := (result_of_ok hResult).1
      unfold CoveredBy
      rw [db_transactItems_of_ok e items hResult] at hKept ⊢
      rw [hAllocator]
      exact Database.covered_afterLog hLedger hAfter hKept

/-
  So it does if all values count that are entities, and no
  attribute that has facts is made one whose values are.
-/
theorem Covered.transact
    {e : Engine}
    (h : e.Covered)
    {data : Value}
    (hLast :
      ∀ p,
        (e.transact data).2.allocator.next p ≤ EntityId.span)
    (hNames : e.namesGiven data = true)
    (hKept : e.keepsReferences data = true) :
    (e.transact data).2.Covered := by
  refine CoveredBy.transact h (fun _ => id) hLast hNames ?_
  intro d hd hRef
  rcases hResult : (e.transact data).1 with fault | r
  · rw [db_transact_of_error hResult] at hRef
    exact hRef
  · rcases commits_of_transact hResult with ⟨_, _, hDb⟩
    unfold keepsReferences at hKept
    rw [hResult] at hKept
    rw [hDb] at hd hRef
    simp only [Except.toOption, Option.all_some,
      List.all_eq_true] at hKept
    have hFact := hKept d hd
    rw [hRef] at hFact
    exact hFact

------------------------------------------------------------
-- Runs
------------------------------------------------------------

/- The engine after calls with given data. -/
def after (e : Engine) : List Value → Engine
  | [] => e
  | data :: calls => (e.transact data).2.after calls

/- The ids that calls give out, one call after the other. -/
def issuedAlong (e : Engine) :
    List Value → List (String × Int)
  | [] => []
  | data :: calls =>
      e.issued data ++ (e.transact data).2.issuedAlong calls

/- Calls one after the other are a run. -/
theorem run_after
    (e : Engine)
    (calls : List Value) :
    Run (fun _ => True) e (e.after calls) := by
  induction calls generalizing e with
  | nil => exact .refl
  | cons data calls ih =>
      exact .head ⟨data, trivial, rfl⟩ (ih _)

/- Each call passes a test in the engine that it is made to. -/
def along
    (test : Engine → Value → Bool)
    (e : Engine) : List Value → Bool
  | [] => true
  | data :: calls =>
      test e data && (e.transact data).2.along test calls

/- A call takes no id back. -/
theorem next_le_transact
    (e : Engine)
    (data : Value)
    (p : Nat) :
    e.allocator.next p
      ≤ (e.transact data).2.allocator.next p := by
  unfold Engine.transact
  cases data.sequence? with
  | none => exact Nat.le_refl _
  | some items => exact e.next_le_attempt items p

/- Neither do any number of calls. -/
theorem next_le_after
    (e : Engine)
    (calls : List Value)
    (p : Nat) :
    e.allocator.next p ≤ (e.after calls).allocator.next p := by
  induction calls generalizing e with
  | nil => exact Nat.le_refl _
  | cons data calls ih =>
      exact (e.next_le_transact data p).trans (ih _)

/- Any number of calls keep the books. -/
theorem Accounted.after
    {e : Engine}
    {ids : List (String × Int)}
    (h : e.Accounted ids)
    (calls : List Value) :
    (e.after calls).Accounted (ids ++ e.issuedAlong calls) := by
  induction calls generalizing e ids with
  | nil => exact (List.append_nil ids).symm ▸ h
  | cons data calls ih =>
      have hRest := ih (h.transact data)
      rw [List.append_assoc] at hRest
      exact hRest

/-
  Calls keep the database to entities given out if their data
  names only such entities and makes no attribute with facts
  one whose values are entities.
-/
theorem Covered.after
    {e : Engine}
    (h : e.Covered)
    {calls : List Value}
    (hLast :
      ∀ p,
        (e.after calls).allocator.next p ≤ EntityId.span)
    (hNames : e.along namesGiven calls = true)
    (hKept : e.along keepsReferences calls = true) :
    (e.after calls).Covered := by
  induction calls generalizing e with
  | nil => exact h
  | cons data calls ih =>
      simp only [along, Bool.and_eq_true] at hNames hKept
      have hNow :
          ∀ p,
            (e.transact data).2.allocator.next p
              ≤ EntityId.span :=
        fun p =>
          (next_le_after _ calls p).trans (hLast p)
      exact
        ih (h.transact hNow hNames.1 hKept.1) hLast hNames.2
          hKept.2

------------------------------------------------------------
-- The First Engine
------------------------------------------------------------

/- The books of a new engine. -/
theorem accounted_start (clock : Nat → Int) :
    (start clock).Accounted Bootstrap.issued where
  accounts := Bootstrap.accounts (clock 0)
  first := List.prefix_rfl

/- A fact of the first database speaks of entities given out. -/
private def isCovered (d : Datom) : Bool :=
  Bootstrap.allocator.hasGiven d.entity
    && (!(database 0).isRef d.attr
      || match d.value with
        | .int n => Bootstrap.allocator.hasGiven n
        | _ => false)

/- A new engine speaks only of entities given out. -/
theorem covered_start (clock : Nat → Int) :
    (start clock).Covered where
  idents := by
    have hIdents :
        ∀ b ∈ (database 0).idents,
          Bootstrap.allocator.hasGiven b.2 = true := by
      decide +kernel
    exact hIdents
  datoms := by
    have hFixed : ∀ d ∈ fixedFacts, isCovered d = true := by
      decide +kernel
    refine forall_mem_datoms ?_ ?_
    · intro d hd
      have hFact := hFixed d hd
      rw [isCovered, Bool.and_eq_true] at hFact
      refine ⟨hFact.1, ?_⟩
      intro hRef n hn
      have hValue := hFact.2
      rw [show (database 0).isRef d.attr = true from hRef]
        at hValue
      simp only [Bool.not_true, Bool.false_or] at hValue
      split at hValue
      next m hEq =>
        rw [hEq, Value.isInt, beq_iff_eq] at hn
        exact hn ▸ hValue
      next => cases hValue
    · refine ⟨?_, ?_⟩
      · change Bootstrap.allocator.hasGiven tx = true
        decide +kernel
      · intro _ n hn
        cases hn
  log := by simp [Ledger.ofDatabase]

------------------------------------------------------------
-- Ids Are Not Used Again
------------------------------------------------------------

/-
  An attempt notes one id for each temporary id and a
  different one for each, if its ids differ.
-/
theorem tempids_eq_iff
    {e : Engine}
    {items : List Value}
    (h : ((e.issuedBy items).map Prod.snd).Nodup)
    {b c : Value × Int}
    (hb : b ∈ (e.attempt items).2.tempids)
    (hc : c ∈ (e.attempt items).2.tempids) :
    b.1 = c.1 ↔ b.2 = c.2 := by
  have hIssues := e.issues_attempt items
  have hRequests := map_snd_requests hIssues rfl
  have hEids :
      ((e.attempt items).2.issuance.tempids.map
        Prod.snd).Nodup :=
    hRequests ▸ (List.nodup_cons.mp h).2
  constructor
  · intro hSame
    exact
      congrArg Prod.snd
        (List.inj_on_of_nodup_map (hIssues.tempids_nodup rfl)
          hb hc hSame)
  · intro hSame
    exact
      congrArg Prod.fst
        (List.inj_on_of_nodup_map hEids hb hc hSame)

/-
  What an attempt notes for a temporary id is new to a
  database that speaks only of entities given out.
-/
theorem Covered.not_of_mem_tempids
    {e : Engine}
    (h : e.Covered)
    {items : List Value}
    (hLast :
      ∀ p,
        (e.attempt items).2.allocator.next p ≤ EntityId.span)
    {b : Value × Int}
    (hb : b ∈ (e.attempt items).2.tempids)
    {d : Datom}
    (hd : d ∈ e.db.datoms) :
    d.entity ≠ b.2
      ∧ (e.db.isRef d.attr = true →
          d.value.isInt b.2 = false) := by
  have hNew := (hasGiven_of_mem_tempids hLast hb).2
  have hFact := h.datoms d hd
  constructor
  · intro hSame
    rw [← hSame, hFact.entity] at hNew
    cases hNew
  · intro hRef
    rw [Bool.eq_false_iff]
    intro hValue
    rw [hFact.value hRef _ hValue] at hNew
    cases hNew

/-
  The ids of a run and of one attempt after it: those of the
  first database, those that the calls gave out, and those
  that the attempt gives out.
-/
def idsUpTo
    (clock : Nat → Int)
    (calls items : List Value) : List (String × Int) :=
  Bootstrap.issued ++ (start clock).issuedAlong calls
    ++ ((start clock).after calls).issuedBy items

/-
  Whatever an engine was called for since its start, and
  whatever comes of one more attempt: as long as serial
  numbers last, all ids given out differ and lie in the
  partitions that were asked for them.  These are all ids, for
  they account for the serial numbers that are next.  A
  temporary id is always resolved to what the attempt has
  noted for it in the end, and different ones are resolved to
  different ids.  If data named only ids that were given out,
  and made no attribute with facts one whose values are
  entities, then these ids are new to the database.
-/
theorem after_gives_fresh_ids
    (clock : Nat → Int)
    (calls items : List Value)
    {e : Engine}
    {w : Working}
    {ids : List (String × Int)}
    (hEngine : (start clock).after calls = e)
    (hAttempt : (e.attempt items).2 = w)
    (hIds : idsUpTo clock calls items = ids)
    (hLast :
      ∀ index,
        requestsIn e.db.partitions index ids
          + Bootstrap.reserved index ≤ EntityId.span) :
    (∀ index,
        w.allocator.next index
          = requestsIn e.db.partitions index ids
            + Bootstrap.reserved index)
      ∧ (ids.map Prod.snd).Nodup
      ∧ (∀ id ∈ ids, ∃ index : Nat,
          Database.positionOf? (.str id.1) e.db.partitions
              = some index
            ∧ EntityId.partitionIndex id.2 = index)
      ∧ (∀ (w₁ w₂ : Working) (partition : String) (n eid : Int),
          Transacting.exec
              (Transacting.entity (.tempid partition n))
              e.ground w₁ = (.ok eid, w₂) →
            Issues e.db w₂.issuance w.issuance →
              (.tempid partition n, eid) ∈ w.tempids)
      ∧ (∀ b ∈ w.tempids, ∀ c ∈ w.tempids,
          b.1 = c.1 ↔ b.2 = c.2)
      ∧ ((start clock).along namesGiven calls = true →
          (start clock).along keepsReferences calls = true →
            ∀ b ∈ w.tempids, ∀ d ∈ e.db.datoms,
              d.entity ≠ b.2
                ∧ (e.db.isRef d.attr = true →
                    d.value.isInt b.2 = false)) := by
  subst hEngine hAttempt hIds
  have hAccounts :=
    ((accounted_start clock).after calls).attempt items
  have hNext :
      ∀ p,
        (((start clock).after calls).attempt
            items).2.allocator.next p ≤ EntityId.span :=
    fun p => (hAccounts.counted p).trans_le (hLast p)
  have hDistinct := hAccounts.distinct hNext
  refine
    ⟨hAccounts.counted, hDistinct,
      fun id hId => hAccounts.partitionIndex_eq hNext hId, ?_,
      ?_, ?_⟩
  · intro w₁ w₂ partition n eid hExec hLater
    exact
      hLater.tempids_prefix.subset
        (Transacting.mem_tempids_of_exec_entity hExec)
  · intro b hb c hc
    rw [List.map_append, List.nodup_append] at hDistinct
    exact tempids_eq_iff hDistinct.2.1 hb hc
  · intro hNames hKept b hb d hd
    have hBefore :
        ∀ p,
          ((start clock).after calls).allocator.next p
            ≤ EntityId.span :=
      fun p => (next_le_attempt _ items p).trans (hNext p)
    exact
      ((covered_start clock).after hBefore hNames
        hKept).not_of_mem_tempids hNext hb hd

/- Serial numbers last where there are few ids. -/
theorem lasts_of_length
    {ids : List (String × Int)}
    (h : ids.length + firstAttribute ≤ EntityId.span)
    (partitions : List Value)
    (index : Nat) :
    requestsIn partitions index ids
      + Bootstrap.reserved index ≤ EntityId.span := by
  have hCount : requestsIn partitions index ids ≤ ids.length :=
    List.countP_le_length
  have hReserved : Bootstrap.reserved index ≤ firstAttribute := by
    unfold Bootstrap.reserved
    split
    · exact Nat.sub_le _ _
    · exact Nat.zero_le _
  omega

/- Transaction data that installs an attribute of entities. -/
def friendAttribute : Value :=
  .list
    [ .map
        [ (.str "db/id", .tempid "db.part/db" (-1))
        , (.str "db.install/_attribute", .str "db.part/db")
        , (.str "db/ident", .str "user/friend")
        , (.str "db/valueType", .str "db.type/ref") ] ]

/-
  Transaction data that documents the attribute by its id and
  adds two entities, of which one refers to the other.
-/
def friendsData : Value :=
  .list
    [ .list
        [ .str "db/add", .int 22
        , .str "db/doc", .str "a friend" ]
    , .map
        [ (.str "db/id", .tempid "db.part/user" (-1))
        , (.str "user/friend", .tempid "db.part/user" (-2)) ] ]

/- Items that add an entity that refers to the first one. -/
def newFriend : List Value :=
  [ .map
      [ (.str "db/id", .tempid "db.part/user" (-1))
      , (.str "user/friend", .int 8796093022208) ] ]

/-
  After the first two transactions, the third gives an id that
  is new to the database and that no other request was given.
-/
theorem newFriend_gives_fresh_id :
    let e :=
      (start (fun _ => 0)).after [friendAttribute, friendsData]
    (e.attempt newFriend).2.tempids.map Prod.snd
        = [8796093022210]
      ∧ (∀ d ∈ e.db.datoms,
          d.entity ≠ 8796093022210
            ∧ (e.db.isRef d.attr = true →
                d.value.isInt 8796093022210 = false))
      ∧ ((idsUpTo (fun _ => 0) [friendAttribute, friendsData]
          newFriend).map Prod.snd).Nodup := by
  intro e
  have hEids :
      (e.attempt newFriend).2.tempids.map Prod.snd
        = [8796093022210] := by
    decide +kernel
  have hFew :
      (idsUpTo (fun _ => 0) [friendAttribute, friendsData]
          newFriend).length + firstAttribute
        ≤ EntityId.span := by
    decide +kernel
  have hNames :
      (start (fun _ => 0)).along namesGiven
        [friendAttribute, friendsData] = true := by
    decide +kernel
  have hKept :
      (start (fun _ => 0)).along keepsReferences
        [friendAttribute, friendsData] = true := by
    decide +kernel
  rcases after_gives_fresh_ids (fun _ => 0)
      [friendAttribute, friendsData] newFriend
      (rfl : _ = e) rfl rfl (lasts_of_length hFew _) with
    ⟨_, hDistinct, _, _, _, hFresh⟩
  refine ⟨hEids, ?_, hDistinct⟩
  have hMember :
      (8796093022210 : Int)
        ∈ (e.attempt newFriend).2.tempids.map Prod.snd := by
    rw [hEids]
    exact List.mem_cons_self
  rcases List.mem_map.mp hMember with ⟨b, hb, hEq⟩
  rw [← hEq]
  exact hFresh hNames hKept b hb

end Engine

------------------------------------------------------------
-- Ids that Are Used Again
------------------------------------------------------------

/- The temporary ids that are drawn for the first partition. -/
def TempId.systemAt (k : Nat) : Value :=
  .tempid systemPartition (serialAt k)

open TempId (systemAt)

/- Each draw gives another one. -/
theorem TempId.eq_of_same_systemAt
    {m n : Nat}
    (h : (systemAt m).same (systemAt n) = true) : m = n := by
  have hKey := (Value.same_bare_right_iff rfl).mp h
  injection hKey with _ hSerial
  exact serialAt_injective hSerial

/- A map that only names an entity. -/
def bareMap (spec : Value) : Value :=
  .map [(.str "db/id", spec)]

/- Items that take a number of ids in the first partition. -/
def crowd (n : Nat) : List Value :=
  (List.range n).map (fun k => bareMap (systemAt k))

/- What a transaction notes for them. -/
def crowdTempids (serial n : Nat) : List (Value × Int) :=
  (List.range n).map (fun k =>
    (systemAt k, EntityId.inPartition 0 ((serial + k : Nat) : Int)))

/- One more item comes at the end. -/
theorem crowd_succ (n : Nat) :
    crowd (n + 1) = crowd n ++ [bareMap (systemAt n)] := by
  rw [crowd, List.range_succ, List.map_append]
  rfl

/- So does what is noted for it. -/
theorem crowdTempids_succ (serial n : Nat) :
    crowdTempids serial (n + 1)
      = crowdTempids serial n
        ++ [(systemAt n,
          EntityId.inPartition 0 ((serial + n : Nat) : Int))] := by
  rw [crowdTempids, List.range_succ, List.map_append]
  rfl

/- Its temporary id was not noted before. -/
theorem find?_crowdTempids (serial n : Nat) :
    Table.find? (systemAt n) (crowdTempids serial n) = none := by
  rw [Option.eq_none_iff_forall_ne_some]
  intro eid hFound
  rcases Table.mem_of_find? hFound with ⟨k, hMember, hSame⟩
  rcases List.mem_map.mp hMember with ⟨m, hm, hEq⟩
  rcases hEq with ⟨⟩
  rw [TempId.eq_of_same_systemAt hSame] at hm
  simp at hm

namespace Transacting

variable {g : Ground}

/- Such a map does nothing but resolve its entity. -/
theorem exec_bareMap
    {spec : Value}
    {eid : Int}
    {w w' : Working}
    (h : exec (entity spec) g w = (.ok eid, w')) :
    exec (applyItem (bareMap spec)) g w = (.ok (), w') := by
  have hField :
      Value.field? [(.str "db/id", spec)] "db/id"
        = some spec := by
    simp [Value.field?, Table.find?]
  change exec (applyMap _) g w = _
  unfold applyMap
  rw [hField]
  change exec (entity spec >>= _) g w = _
  rw [exec_bind, h]
  simp only
  rw [exec_forM_singleton]
  rfl

/- Many of them take one id after the other. -/
theorem exec_crowd
    {w : Working}
    (hPartition :
      Database.positionOf? (.str TempId.systemPartition)
        g.db.partitions = some 0)
    (hNone : w.tempids = [])
    (n : Nat) :
    exec ((crowd n).forM applyItem) g w =
      (.ok (),
        { w with
          tempids := crowdTempids (w.allocator.next 0) n
          allocator :=
            w.allocator.goOn 0 (w.allocator.next 0 + n) }) := by
  induction n with
  | zero =>
      rw [Nat.add_zero, Allocator.goOn_next]
      rcases w with ⟨ledger, tempids, allocator, drawn⟩
      rcases hNone with rfl
      rfl
  | succ n ih =>
      have hNew := find?_crowdTempids (w.allocator.next 0) n
      have hSplit :
          (crowd n ++ [bareMap (systemAt n)]).forM applyItem
            = (crowd n).forM applyItem >>= fun _ =>
                [bareMap (systemAt n)].forM applyItem :=
        List.forM_append
      rw [crowd_succ, hSplit, exec_bind, ih]
      simp only
      rw [exec_forM_singleton]
      apply exec_bareMap
      change exec (entityOfTempid (systemAt n) _) g _ = _
      rw [exec_entityOfTempid]
      simp only [hNew, hPartition]
      rw [Table.put_of_find?_eq_none hNew, Allocator.take_goOn,
        crowdTempids_succ]
      rfl

end Transacting

namespace Engine

open Bootstrap

/- Where an attempt with such items gets to. -/
theorem exists_attempt_crowd (n : Nat) :
    ∃ l : Ledger,
      ((start (fun _ => 0)).attempt (crowd n)).2 =
        { ledger := l
          tempids := crowdTempids 22 n
          allocator :=
            (Bootstrap.allocator.take txPartition).goOn 0
              (22 + n)
          drawn := 0 } := by
  have hInstalled :
      ((start (fun _ => 0)).db.installed
        (.str "db/txInstant")).toOption.map Installed.eid
          = some 19 := by
    decide +kernel
  have hNew :
      ∀ d ∈ (start (fun _ => 0)).db.datoms,
        d.entity ≠ (start (fun _ => 0)).ground.tx := by
    decide +kernel
  have hPartition :
      Database.positionOf? (.str TempId.systemPartition)
        (start (fun _ => 0)).ground.db.partitions = some 0 := by
    decide +kernel
  rcases Database.exists_installed hInstalled with
    ⟨instant, hInstant, _⟩
  refine
    ⟨(Ledger.ofDatabase (start (fun _ => 0)).db).append
      ((start (fun _ => 0)).timeFact instant), ?_⟩
  change
    (Transacting.exec ((start (fun _ => 0)).steps (crowd n))
      (start (fun _ => 0)).ground
      (start (fun _ => 0)).opened).2 = _
  rw [exec_steps hInstant hNew,
    Transacting.exec_crowd hPartition rfl]
  rfl

/-
  As the first database leaves out serial numbers, it takes
  fewer ids than there are serial numbers until the last id of
  the first partition is that of the first transaction.
-/
theorem crowd_meets_first_transaction
    {n : Nat}
    (hn : n + 21 = EntityId.span) :
    (∀ index,
        requestsIn (start (fun _ => 0)).db.partitions index
            (idsUpTo (fun _ => 0) [] (crowd n))
          < EntityId.span)
      ∧ (TempId.systemPartition, tx)
          ∈ idsUpTo (fun _ => 0) [] (crowd n)
      ∧ ¬((idsUpTo (fun _ => 0) []
            (crowd n)).map Prod.snd).Nodup := by
  have hAccounts :=
    (accounted_start (fun _ => 0)).attempt (crowd n)
  rcases exists_attempt_crowd n with ⟨l, hAttempt⟩
  have hSpan : EntityId.span = 4398046511104 := rfl
  have hId :
      (systemAt (n - 1), tx) ∈ crowdTempids 22 n := by
    refine
      List.mem_map.mpr ⟨n - 1, List.mem_range.mpr (by omega), ?_⟩
    rw [show 22 + (n - 1) = EntityId.span by omega]
    rfl
  have hTx :
      (TempId.systemPartition, tx)
        ∈ (start (fun _ => 0)).issuedBy (crowd n) := by
    refine List.mem_cons_of_mem _ ?_
    rw [hAttempt]
    exact List.mem_filterMap.mpr ⟨_, hId, rfl⟩
  have hIds :
      idsUpTo (fun _ => 0) [] (crowd n)
        = Bootstrap.issued
          ++ (start (fun _ => 0)).issuedBy (crowd n) := by
    rw [idsUpTo, issuedAlong, List.append_nil]
    rfl
  rw [hIds]
  refine ⟨?_, List.mem_append_right _ hTx, ?_⟩
  · intro index
    have hCount := hAccounts.counted index
    rw [hAttempt] at hCount
    match index with
    | 0 =>
        change 22 + n = _ + 7 at hCount
        omega
    | 1 =>
        change 2 = _ + 0 at hCount
        omega
    | index + 2 =>
        change 0 = _ + 0 at hCount
        omega
  · intro hDistinct
    rw [List.map_append, List.nodup_append] at hDistinct
    refine
      hDistinct.2.2 tx ?_ tx (List.mem_map_of_mem hTx) rfl
    decide +kernel

/- Transaction data that installs an attribute of numbers. -/
def numberAttribute : Value :=
  .list
    [ .map
        [ (.str "db/id", .tempid "db.part/db" (-1))
        , (.str "db.install/_attribute", .str "db.part/db")
        , (.str "db/ident", .str "user/number")
        , (.str "db/valueType", .str "db.type/long") ] ]

/- Transaction data that gives an entity a number. -/
def numberData : Value :=
  .list
    [ .list
        [ .str "db/add", .int 0
        , .str "user/number", .int 8796093022208 ] ]

/-
  Transaction data that makes the values of the attribute
  entities and installs it again.
-/
def retypeData : Value :=
  .list
    [ .list
        [ .str "db/add", .int 22
        , .str "db/valueType", .str "db.type/ref" ]
    , .list
        [ .str "db/retract", .int 0
        , .str "db.install/attribute", .int 22 ]
    , .list
        [ .str "db/add", .int 0
        , .str "db.install/attribute", .int 22 ] ]

/- Items that add an entity. -/
def newEntityItems : List Value :=
  [ .list
      [ .str "db/add", .tempid "db.part/user" (-1)
      , .str "db/doc", .str "new" ] ]

/-
  It is not enough that few ids are given out and that data
  names only ids that were.  First, the serial numbers that
  the first database leaves out count as well.  Second, a
  number that was stored as such becomes an entity where its
  attribute is made one whose values are entities, and then
  the id that comes next is one that the database has as a
  value.
-/
theorem not_always_fresh :
    (∃ items : List Value,
        (∀ index,
          requestsIn (start (fun _ => 0)).db.partitions index
              (idsUpTo (fun _ => 0) [] items)
            < EntityId.span)
        ∧ (∃ id ∈ idsUpTo (fun _ => 0) [] items,
            id.1 = TempId.systemPartition
              ∧ EntityId.partitionIndex id.2 = txPartition)
        ∧ ¬((idsUpTo (fun _ => 0) [] items).map
              Prod.snd).Nodup)
      ∧ (idsUpTo (fun _ => 0)
            [numberAttribute, numberData, retypeData]
            newEntityItems).length < 100
      ∧ (start (fun _ => 0)).along namesGiven
          [numberAttribute, numberData, retypeData,
            .list newEntityItems] = true
      ∧ ∃ b ∈ (((start (fun _ => 0)).after
            [numberAttribute, numberData, retypeData]).attempt
              newEntityItems).2.tempids,
          ∃ d ∈ ((start (fun _ => 0)).after
              [numberAttribute, numberData,
                retypeData]).db.datoms,
            ((start (fun _ => 0)).after
                [numberAttribute, numberData,
                  retypeData]).db.isRef d.attr = true
              ∧ d.value.isInt b.2 = true := by
  refine
    ⟨⟨crowd (EntityId.span - 21), ?_⟩, by decide +kernel,
      by decide +kernel, by decide +kernel⟩
  rcases crowd_meets_first_transaction
      (show EntityId.span - 21 + 21 = EntityId.span by
        decide +kernel) with
    ⟨hFew, hTx, hTwice⟩
  exact
    ⟨hFew, ⟨_, hTx, rfl, by decide +kernel⟩, hTwice⟩

end Engine

end FactBase
