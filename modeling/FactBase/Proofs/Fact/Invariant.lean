import FactBase.Proofs.Fact.Run
import FactBase.Proofs.Value.Equality

/-
  This file shows what holds of every database that an engine
  can reach, whatever the transactions that were called for:
  no fact is stated twice, facts are about installed
  attributes and stand in the order of their transactions,
  and attributes and partitions are never lost.

  Key definitions include:
    * `DatomOf.Apart`
    * `Database.Sound`
    * `Engine.Timely`

  Key theorems include:
    * `Ledger.Changes.sound`
    * `Engine.sound_transactItems`
    * `Bootstrap.sound_database`
    * `Engine.Run.sound_extends_timely`
-/

------------------------------------------------------------
-- Sound Facts
------------------------------------------------------------

namespace FactBase

/-
  Two facts do not give one entity equal values for one
  attribute.  Proper values can be compared either way.
-/
def DatomOf.Apart (d d' : Datom) : Prop :=
  d.entity = d'.entity → d.attr = d'.attr →
    d.value.equals d'.value = .ok false
      ∧ (d.value.proper = true → d'.value.proper = true →
          d'.value.equals d.value = .ok false)

/- One comparison tells two facts apart. -/
theorem DatomOf.apart_of_equals
    {d d' : Datom}
    (h :
      d.entity = d'.entity → d.attr = d'.attr →
        d.value.equals d'.value = .ok false) :
    d.Apart d' := by
  intro hEntity hAttr
  have hDiffer := h hEntity hAttr
  refine ⟨hDiffer, ?_⟩
  intro hd hd'
  rw [Value.equals_of_proper hd hd'] at hDiffer
  rw [Value.equals_of_proper hd' hd, Value.equal_comm hd' hd]
  exact hDiffer

/-
  The facts are told apart, none of them is a retraction, and
  all are about attributes of a database.
-/
structure Database.SoundFacts
    (db : Database)
    (datoms : List Datom) : Prop where
  distinct : datoms.Pairwise DatomOf.Apart
  asserted : ∀ d ∈ datoms, d.added = true
  installed :
    ∀ d ∈ datoms, (db.schemaOf? d.attr).isSome = true

/- The facts of a database are sound, its partitions distinct. -/
structure Database.Sound (db : Database) : Prop where
  facts : db.SoundFacts db.datoms
  partitions : Database.PartitionsDistinct db.partitions

namespace Ledger

variable {db : Database}
variable {tx : Int}
variable {V : Value → Prop}
variable {l after : Ledger}

/- One change keeps facts sound. -/
theorem Change.sound
    (h : Change db tx V l after)
    (hSound : db.SoundFacts l.datoms) :
    db.SoundFacts after.datoms := by
  cases h with
  | retract hRest =>
      have hSub := sublist_of_withoutFirst? hRest
      exact
        ⟨hSound.distinct.sublist hSub,
          fun d hd => hSound.asserted d (hSub.subset hd),
          fun d hd => hSound.installed d (hSub.subset hd)⟩
  | @enter entity attr v origin hAttr hNew _ _ _ =>
      refine ⟨?_, ?_, ?_⟩
      · refine
          List.pairwise_append.mpr
            ⟨hSound.distinct, List.pairwise_singleton _ _, ?_⟩
        intro d hd d' hd'
        rcases List.mem_singleton.mp hd' with rfl
        apply DatomOf.apart_of_equals
        intro hEntity hSameAttr
        apply hNew d
        simp only [about, List.mem_filter, Bool.and_eq_true,
          beq_iff_eq]
        exact ⟨hd, hEntity, hSameAttr⟩
      · intro d hd
        rcases List.mem_append.mp hd with hd | hd
        · exact hSound.asserted d hd
        · rcases List.mem_singleton.mp hd with rfl
          rfl
      · intro d hd
        rcases List.mem_append.mp hd with hd | hd
        · exact hSound.installed d hd
        · rcases List.mem_singleton.mp hd with rfl
          exact Option.isSome_of_eq_some hAttr

/- So does any number of changes. -/
theorem Changes.sound
    (h : Changes db tx V l after)
    (hSound : db.SoundFacts l.datoms) :
    db.SoundFacts after.datoms :=
  h.invariant (fun l => db.SoundFacts l.datoms)
    (fun _ _ hChange => hChange.sound) hSound

/- The facts stand in the order of their transactions. -/
def InOrder (datoms : List Datom) : Prop :=
  datoms.Pairwise (fun d d' => d.tx ≤ d'.tx)

/- One change keeps the order where none was later. -/
theorem Change.inOrder
    (h : Change db tx V l after)
    (hOrder :
      InOrder l.datoms ∧ ∀ d ∈ l.datoms, d.tx ≤ tx) :
    InOrder after.datoms ∧ ∀ d ∈ after.datoms, d.tx ≤ tx := by
  rcases hOrder with ⟨hOrder, hLast⟩
  cases h with
  | retract hRest =>
      have hSub := sublist_of_withoutFirst? hRest
      exact
        ⟨hOrder.sublist hSub,
          fun d hd => hLast d (hSub.subset hd)⟩
  | @enter entity attr v origin hAttr hNew _ _ _ =>
      constructor
      · refine
          List.pairwise_append.mpr
            ⟨hOrder, List.pairwise_singleton _ _, ?_⟩
        intro d hd d' hd'
        rcases List.mem_singleton.mp hd' with rfl
        exact hLast d hd
      · intro d hd
        rcases List.mem_append.mp hd with hd | hd
        · exact hLast d hd
        · rcases List.mem_singleton.mp hd with rfl
          exact Int.le_refl _

end Ledger

------------------------------------------------------------
-- Transactions
------------------------------------------------------------

variable {V : Value → Prop}

/- The database that changes and their log lead to is sound. -/
theorem Database.Sound.after
    {db after : Database}
    {tx : Int}
    {l : Ledger}
    (hSound : db.Sound)
    (hChanges : Ledger.Changes db tx V (.ofDatabase db) l)
    (hAfter : db.afterLog l = .ok after) :
    after.Sound := by
  rcases Database.extends_afterLog hAfter with
    ⟨hDatoms, hExtends, hDistinct⟩
  have hFacts := hChanges.sound hSound.facts
  refine ⟨?_, hDistinct hSound.partitions⟩
  rw [hDatoms]
  exact
    ⟨hFacts.distinct, hFacts.asserted,
      fun d hd =>
        hExtends.isSome_schemaOf? (hFacts.installed d hd)⟩

/- A transaction keeps a database sound and extends it. -/
theorem Engine.sound_transactItems
    (hV : Value.Inherited V)
    (e : Engine)
    {items : List Value}
    (h : ∀ x ∈ items, V x)
    (hSound : e.db.Sound) :
    (e.transactItems items).2.db.Sound
      ∧ e.db.Extends (e.transactItems items).2.db := by
  rcases advances_transactItems hV e h with
    ⟨w, hAdvances, _, hDb | hAfter⟩
  · rw [hDb]
    exact ⟨hSound, .refl _⟩
  · exact
      ⟨hSound.after hAdvances.ledger hAfter,
        (Database.extends_afterLog hAfter).2.1⟩

namespace Engine

open Bootstrap

/-
  As long as the ids of transactions last, all facts are of
  earlier transactions than the next and stand in the order
  of theirs.
-/
def Timely (e : Engine) : Prop :=
  e.allocator.next txPartition ≤ EntityId.span →
    Ledger.InOrder e.db.datoms
      ∧ ∀ d ∈ e.db.datoms,
          d.tx < EntityId.span + e.allocator.next txPartition

/- The next transaction is the next id of its partition. -/
theorem ground_tx
    (e : Engine)
    (hRoom : e.allocator.next txPartition < EntityId.span) :
    e.ground.tx =
      EntityId.span + e.allocator.next txPartition := by
  change EntityId.inPartition txPartition
    (e.allocator.next txPartition) = _
  rw [EntityId.inPartition_of_lt _ _ hRoom]
  simp [txPartition]

/- A transaction keeps the order of transactions. -/
theorem timely_transactItems
    (hV : Value.Inherited V)
    (e : Engine)
    {items : List Value}
    (h : ∀ x ∈ items, V x)
    (hTimely : e.Timely) :
    (e.transactItems items).2.Timely := by
  rcases advances_transactItems hV e h with
    ⟨w, hAdvances, hAllocator, hDb⟩
  intro hSpan
  have hNext :
      e.allocator.next txPartition + 1
        ≤ w.allocator.next txPartition := by
    have hTaken := hAdvances.allocator txPartition
    rw [← Allocator.next_take_self]
    exact hTaken
  rw [hAllocator] at hSpan ⊢
  rcases hTimely (by omega) with ⟨hOrder, hEarlier⟩
  rcases hDb with hDb | hAfter
  · rw [hDb]
    refine ⟨hOrder, ?_⟩
    intro d hd
    have hLess := hEarlier d hd
    omega
  · rcases Database.extends_afterLog hAfter with ⟨hDatoms, _⟩
    have hTx := e.ground_tx (by omega)
    have hKept :
        Ledger.InOrder w.ledger.datoms
          ∧ ∀ d ∈ w.ledger.datoms, d.tx ≤ e.ground.tx :=
      hAdvances.ledger.invariant
        (fun l =>
          Ledger.InOrder l.datoms
            ∧ ∀ d ∈ l.datoms, d.tx ≤ e.ground.tx)
        (fun _ _ hChange => hChange.inOrder)
        ⟨hOrder, fun d hd => by
          have hLess := hEarlier d hd
          omega⟩
    rw [hDatoms]
    refine ⟨hKept.1, ?_⟩
    intro d hd
    have hMost := hKept.2 d hd
    omega

end Engine

------------------------------------------------------------
-- The First Database
------------------------------------------------------------

namespace Bootstrap

/- The facts of the first database but for its instant. -/
def fixedFacts : List Datom :=
  partitionIds.flatMap partitionFacts
    ++ attributeIds.flatMap attributeFacts

/- The last fact of the first database. -/
def instantFact (instant : Int) : Datom :=
  fact tx "db/txInstant" (.instant instant)

/- What holds of each of these holds of the first facts. -/
theorem forall_mem_datoms
    {P : Datom → Prop}
    {instant : Int}
    (hFixed : ∀ d ∈ fixedFacts, P d)
    (hLast : P (instantFact instant)) :
    ∀ d ∈ (database instant).datoms, P d :=
  List.forall_mem_append.mpr
    ⟨hFixed, List.forall_mem_singleton.mpr hLast⟩

/- The instant is of an entity that no other fact is about. -/
theorem entity_of_mem_fixedFacts :
    ∀ d ∈ fixedFacts,
      d.entity ≠ (instantFact 0).entity := by
  decide +kernel

/- So it is apart from all other facts. -/
theorem pairwise_datoms
    {R : Datom → Datom → Prop}
    {instant : Int}
    (hFixed : fixedFacts.Pairwise R)
    (hApart : ∀ d d' : Datom, d.entity ≠ d'.entity → R d d') :
    (database instant).datoms.Pairwise R := by
  refine
    List.pairwise_append.mpr
      ⟨hFixed, List.pairwise_singleton _ _, ?_⟩
  intro d hd d' hd'
  rcases List.mem_singleton.mp hd' with rfl
  exact hApart d _ (entity_of_mem_fixedFacts d hd)

private theorem equals_of_mem_fixedFacts
    {d d' : Datom}
    (hd : d ∈ fixedFacts)
    (hd' : d' ∈ fixedFacts) :
    d.value.equals d'.value
      = .ok (d.value.equal d'.value) := by
  have hProper :
      ∀ d ∈ fixedFacts, d.value.proper = true := by
    decide +kernel
  exact Value.equals_of_proper (hProper d hd) (hProper d' hd')

private theorem apart_fixedFacts :
    fixedFacts.Pairwise DatomOf.Apart := by
  have hDiffer :
      fixedFacts.Pairwise (fun d d' =>
        d.entity = d'.entity → d.attr = d'.attr →
          d.value.equal d'.value = false) := by
    decide +kernel
  refine hDiffer.imp_of_mem ?_
  intro d d' hd hd' h
  apply DatomOf.apart_of_equals
  intro hEntity hAttr
  rw [equals_of_mem_fixedFacts hd hd', h hEntity hAttr]

/- The first database is sound. -/
theorem sound_database (instant : Int) :
    (database instant).Sound := by
  have hSchema :
      ∀ attr : Int,
        (database instant).schemaOf? attr
          = (database 0).schemaOf? attr := fun _ => rfl
  refine ⟨⟨?_, ?_, ?_⟩, ?_⟩
  · apply pairwise_datoms apart_fixedFacts
    intro d d' hDiffer hSame
    exact absurd hSame hDiffer
  · refine forall_mem_datoms ?_ rfl
    decide +kernel
  · simp only [hSchema]
    refine forall_mem_datoms ?_ ?_
    · decide +kernel
    · change
        ((database 0).schemaOf?
          (attributeId "db/txInstant")).isSome = true
      decide +kernel
  · have hNames :
        (partitions.map Value.str).Pairwise
          (fun p q => p.same q = false) := by
      decide +kernel
    exact hNames

/- The facts of the first database are of one transaction. -/
theorem timely_start (clock : Nat → Int) :
    (Engine.start clock).Timely := by
  have hFixed : ∀ d ∈ fixedFacts, d.tx = tx := by
    decide +kernel
  have hAll :
      ∀ d ∈ (database (clock 0)).datoms, d.tx = tx :=
    forall_mem_datoms hFixed rfl
  intro _
  constructor
  · apply List.pairwise_of_forall_mem_list
    intro d hd d' hd'
    rw [hAll d hd, hAll d' hd']
  · intro d hd
    rw [hAll d hd]
    change tx < (EntityId.span : Int) + ((1 : Nat) : Int)
    decide +kernel

end Bootstrap

------------------------------------------------------------
-- Runs
------------------------------------------------------------

namespace Engine

open Bootstrap

variable {V : Value → Prop}
variable {e f : Engine}

/- A run keeps databases sound and extends them. -/
theorem Run.sound_extends
    (hV : Value.Inherited V)
    (h : Run V e f)
    (hSound : e.db.Sound) :
    f.db.Sound ∧ e.db.Extends f.db := by
  refine
    h.invariant hV
      (fun f => f.db.Sound ∧ e.db.Extends f.db) ?_
      ⟨hSound, .refl _⟩
  intro f items hItems hKept
  rcases sound_transactItems hV f hItems hKept.1 with
    ⟨hNext, hExtends⟩
  exact ⟨hNext, hKept.2.trans hExtends⟩

/-
  Whatever an engine was called for since its start, no two
  facts of its database give one entity equal values for one
  attribute, no fact is a retraction, and all facts are about
  installed attributes.  No two partitions are the same, and
  later databases lose neither a partition nor an attribute.
  As long as the ids of transactions last, facts stand in the
  order of their transactions.
-/
theorem Run.sound_extends_timely
    {clock : Nat → Int}
    (h : Run (fun _ => True) (start clock) e)
    (hLater : Run (fun _ => True) e f) :
    f.db.Sound
      ∧ e.db.Extends f.db
      ∧ (f.allocator.next txPartition ≤ EntityId.span →
          Ledger.InOrder f.db.datoms) := by
  have hSound : e.db.Sound :=
    (h.sound_extends inherited_true (sound_database _)).1
  rcases hLater.sound_extends inherited_true hSound with
    ⟨hLast, hExtends⟩
  refine ⟨hLast, hExtends, ?_⟩
  have hTimely : f.Timely :=
    Run.invariant inherited_true Timely
      (fun e items hItems =>
        timely_transactItems inherited_true e hItems)
      (h.trans hLater) (timely_start clock)
  exact fun hSpan => (hTimely hSpan).1

/- Transaction data that documents a new entity. -/
def exampleData : Value :=
  .list
    [ .list
        [ .str "db/add", .tempid "db.part/user" (-1)
        , .str "db/doc", .str "first" ] ]

/- The engine that starts at 0 after that transaction. -/
def exampleEngine : Engine :=
  ((start (fun _ => 0)).transact exampleData).2

/- The run of one transaction that adds two facts. -/
theorem sound_extends_timely_exampleEngine :
    exampleEngine.db.datoms.length
        = (Bootstrap.database 0).datoms.length + 2
      ∧ exampleEngine.db.Sound
      ∧ (start (fun _ => 0)).db.Extends exampleEngine.db
      ∧ Ledger.InOrder exampleEngine.db.datoms := by
  have hNext :
      Run (fun _ => True) (start (fun _ => 0))
        exampleEngine :=
    .single ⟨exampleData, trivial, rfl⟩
  have hSpan :
      exampleEngine.allocator.next txPartition
        ≤ EntityId.span := by
    decide +kernel
  rcases Run.sound_extends_timely .refl hNext with
    ⟨hSound, hExtends, hOrder⟩
  exact ⟨by decide +kernel, hSound, hExtends, hOrder hSpan⟩

end Engine

end FactBase
