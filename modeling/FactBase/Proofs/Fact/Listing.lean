import FactBase.Proofs.Fact.Aftermath
import FactBase.Proofs.Fact.Gathering
import FactBase.Proofs.Fact.Partition

/-
  This file shows what the list of all transactions reads off
  a database.  Where the facts about transactions give them
  their instants and are stored in the order of their ids, the
  index that is read for the list holds them in that order,
  among other facts with instants that are passed over.

  Key definitions include:
    * `Database.txFacts`
    * `Database.Dated`
    * `Database.Partitioned`
    * `Database.InstantsStay`

  Key theorems include:
    * `Database.Dated.append`
    * `Database.Dated.entityOf_entity`
    * `Database.Partitioned.isTransaction_entity`
    * `Database.Dated.exists_scan`
    * `Database.run_transactions`
-/

------------------------------------------------------------
-- Facts about Transactions
------------------------------------------------------------

namespace FactBase

open Sorting
open Bootstrap
open EntityId

/- The attribute of instants as it is installed at first. -/
def Bootstrap.instantInstalled : Installed where
  eid := instantAttr
  schema := plain "db/txInstant" .instant

/- The fact is about an entity of the partition of transactions. -/
def DatomOf.aboutTx (d : Datom) : Bool :=
  partitionIndex d.entity == txPartition

/- It gives its entity an instant. -/
structure DatomOf.Dates
    (d : Datom)
    (instant : Int) : Prop where
  attr : d.attr = instantAttr
  value : d.value = .instant instant

namespace Database

/- The facts about transactions, in the order of storage. -/
def txFacts (db : Database) : List Datom :=
  db.datoms.filter DatomOf.aboutTx

/- What has grown are other values than instants. -/
def InstantsStay
    (db : Database)
    (growths : Growths) : Prop :=
  ∀ g ∈ growths, ∀ d ∈ db.datoms,
    d.origin = g.origin → ∀ t, d.value ≠ .instant t

/-
  The facts about transactions give them their instants, one
  fact for each, in the order of their ids.
-/
structure Dated
    (db : Database)
    (instants : List Int) : Prop where
  installed :
    db.installed (.str "db/txInstant") = .ok instantInstalled
  facts : List.Forall₂ DatomOf.Dates db.txFacts instants
  ascending :
    db.txFacts.Pairwise (fun c d => c.entity < d.entity)

end Database

------------------------------------------------------------
-- Entities of Transactions
------------------------------------------------------------

namespace Database

variable {db : Database}
variable {instants : List Int}
variable {d : Datom}

/- The facts about transactions are known by their entities. -/
theorem Dated.eq_of_entity_eq
    (h : db.Dated instants)
    {c : Datom}
    (hc : c ∈ db.txFacts)
    (hd : d ∈ db.txFacts)
    (hEntity : c.entity = d.entity) : c = d := by
  have hDistinct : (db.txFacts.map DatomOf.entity).Nodup := by
    rw [List.nodup_iff_pairwise_ne, List.pairwise_map]
    exact h.ascending.imp (fun hLess => hLess.ne)
  exact List.inj_on_of_nodup_map hDistinct hc hd hEntity

/- Each of them gives an instant. -/
theorem Dated.exists_instant
    (h : db.Dated instants)
    (hd : d ∈ db.txFacts) : ∃ t, d.Dates t := by
  rcases h with ⟨-, hFacts, -⟩
  generalize db.txFacts = facts at hFacts hd
  induction hFacts with
  | nil => cases hd
  | cons hHead _ ih =>
      rcases List.mem_cons.mp hd with rfl | hd
      · exact ⟨_, hHead⟩
      · exact ih hd

/- One more fact about a later transaction dates it as well. -/
theorem Dated.append
    (h : db.Dated instants)
    {after : Database}
    {t : Int}
    (hInstalled :
      after.installed (.str "db/txInstant")
        = .ok instantInstalled)
    (hFacts : after.txFacts = db.txFacts ++ [d])
    (hDates : d.Dates t)
    (hLater : ∀ c ∈ db.txFacts, c.entity < d.entity) :
    after.Dated (instants ++ [t]) where
  installed := hInstalled
  facts := by
    rw [hFacts]
    exact List.rel_append h.facts (.cons hDates .nil)
  ascending := by
    rw [hFacts]
    refine
      List.pairwise_append.mpr
        ⟨h.ascending, List.pairwise_singleton _ _, ?_⟩
    intro c hc d' hd'
    rw [List.mem_singleton.mp hd']
    exact hLater c hc

/- A transaction has no other fact. -/
theorem Dated.factsOf_entity
    (h : db.Dated instants)
    (hd : d ∈ db.txFacts) :
    db.factsOf (.int d.entity) = [d] := by
  have hAbout : d.aboutTx = true := (List.mem_filter.mp hd).2
  have hFacts :
      db.factsOf (.int d.entity)
        = db.txFacts.filter (fun c => c.entity == d.entity) := by
    unfold factsOf txFacts
    rw [List.filter_filter]
    refine List.filter_congr ?_
    intro c _
    rw [Value.isInt, Bool.eq_iff_iff]
    simp only [Bool.and_eq_true, beq_iff_eq]
    constructor
    · intro hEntity
      refine ⟨hEntity, ?_⟩
      rwa [DatomOf.aboutTx, hEntity]
    · exact And.left
  have hUp := h.ascending
  rcases List.append_of_mem hd with ⟨before, later, hSplit⟩
  rw [hSplit, List.pairwise_append, List.pairwise_cons] at hUp
  rcases hUp with ⟨-, ⟨hLater, -⟩, hBefore⟩
  have hNone :
      before.filter (fun c => c.entity == d.entity) = [] := by
    rw [List.filter_eq_nil_iff]
    intro c hc
    simpa using (hBefore c hc d List.mem_cons_self).ne
  have hNoMore :
      later.filter (fun c => c.entity == d.entity) = [] := by
    rw [List.filter_eq_nil_iff]
    intro c hc
    simpa using (hLater c hc).ne'
  rw [hFacts, hSplit, List.filter_append, List.filter_cons,
    hNone, hNoMore]
  simp

/- So what it shows is its instant. -/
theorem Dated.entityOf_entity
    (h : db.Dated instants)
    (hd : d ∈ db.txFacts) :
    db.entityOf d.entity
      = pure [(.str "db/txInstant", .ofDatom d)] := by
  rcases h.exists_instant hd with ⟨t, hAttr, -⟩
  have hSchema :
      db.schemaOf? d.attr
        = some (plain "db/txInstant" .instant) :=
    hAttr ▸ schemaOf?_of_installed h.installed
  unfold entityOf
  rw [h.factsOf_entity hd, List.foldlM_cons]
  simp only [addFact, hSchema]
  rfl

end Database

------------------------------------------------------------
-- Telling Transactions
------------------------------------------------------------

namespace Database

variable {db : Database}
variable {instants : List Int}
variable {d : Datom}

/-
  The partition of transactions has its place and its name,
  all partitions are told apart, and all facts are about
  entities in some partition.
-/
structure Partitioned (db : Database) : Prop where
  distinct : PartitionsDistinct db.partitions
  named :
    db.partitions[txPartition]? = some (.str "db.part/tx")
  inside :
    ∀ d ∈ db.datoms,
      0 ≤ d.entity
        ∧ d.entity < db.partitions.length * span

/- So it can be told what a transaction is. -/
theorem Partitioned.isTransaction_entity
    (h : db.Partitioned)
    (hd : d ∈ db.datoms) :
    db.isTransaction (.int d.entity) = .ok d.aboutTx := by
  rcases h.inside d hd with ⟨hLower, hUpper⟩
  have hNonneg := partitionIndex_nonneg hLower
  rcases exists_partition hLower hUpper with ⟨p, hPlace⟩
  have hEqual : p.equal (.str "db.part/tx") = d.aboutTx := by
    rw [Bool.eq_iff_iff, DatomOf.aboutTx, beq_iff_eq,
      Value.equal, Bool.and_eq_true, Value.same_str_right]
    constructor
    · rintro ⟨-, rfl⟩
      have hFirst := positionOf?_of_getElem? h.distinct hPlace
      rw [positionOf?_of_getElem? h.distinct h.named,
        Option.some.injEq] at hFirst
      rw [hFirst, Int.toNat_of_nonneg hNonneg]
    · intro hIndex
      have hNamed := h.named
      rw [hIndex, Int.toNat_natCast, hNamed,
        Option.some.injEq] at hPlace
      exact ⟨hPlace ▸ rfl, hPlace.symm⟩
  unfold isTransaction partitionName
  simp only [resolve, ok_bind]
  rw [(partitionOf_eq_ok_iff hLower).mpr hPlace, ok_bind, hEqual]
  rfl

/-
  What is shown of a fact with an instant: its entity, if that
  is a transaction.
-/
theorem run_transactionOf
    (hDated : db.Dated instants)
    (hPartitions : db.Partitioned)
    (hd : d ∈ db.datoms)
    (growths : Growths) :
    (db.transactionOf d).run.run growths
      = (.ok
          (if d.aboutTx then
            some [(.str "db/txInstant", .ofDatom d)]
          else none),
        growths) := by
  unfold transactionOf
  rw [hPartitions.isTransaction_entity hd]
  cases hAbout : d.aboutTx with
  | false => rfl
  | true =>
      have hMember : d ∈ db.txFacts :=
        List.mem_filter.mpr ⟨hd, hAbout⟩
      rw [hDated.entityOf_entity hMember]
      rfl

------------------------------------------------------------
-- Reading the Index
------------------------------------------------------------

/- Facts about one attribute are in the order of entities. -/
theorem entity_le_of_rankOf_le
    {c d : Datom}
    (hAttr : c.attr = d.attr)
    (h : FactIndex.aevt.rankOf c ≤ FactIndex.aevt.rankOf d) :
    c.entity ≤ d.entity := by
  have hFirst := take_le_take h 2
  change
    [(Value.int c.attr).rank, (Value.int c.entity).rank]
      ≤ [(Value.int d.attr).rank, (Value.int d.entity).rank]
    at hFirst
  rw [hAttr] at hFirst
  rw [← Value.rank_int_le_iff]
  simpa [← not_lt, List.cons_lt_cons_iff] using hFirst

/- An ident is looked for by the attribute that it names. -/
theorem componentKey_aevt
    {name : String}
    {attr : Installed}
    (h : db.installed (.str name) = .ok attr) :
    db.componentKey .aevt [.str name] = .ok [.int attr.eid] := by
  change (db.attributeComponent (.str name) >>= _) = _
  unfold attributeComponent
  simp only [h]
  rfl

/- The facts that begin with it are those about it. -/
theorem begins_aevt_iff
    {attr : Int} :
    FactIndex.aevt.begins [.int attr] d = true
      ↔ attr = d.attr := by
  change Value.sameItems [.int d.attr] [.int attr] = true ↔ _
  simp [Value.sameItems, Value.same_int_right, Value.isInt]

/- Facts that are dated can be put in that order in one way. -/
theorem Dated.eq_txFacts
    (h : db.Dated instants)
    {facts : List Datom}
    (hPerm : facts.Perm db.txFacts)
    (hUp :
      facts.Pairwise
        (fun c d =>
          FactIndex.aevt.rankOf c ≤ FactIndex.aevt.rankOf d)) :
    facts = db.txFacts := by
  have hAscend :
      facts.Pairwise (fun c d => c.entity ≤ d.entity) := by
    refine hUp.imp_of_mem ?_
    intro c d hc hd hLe
    rcases h.exists_instant (hPerm.mem_iff.mp hc) with
      ⟨_, hLeft, -⟩
    rcases h.exists_instant (hPerm.mem_iff.mp hd) with
      ⟨_, hRight, -⟩
    exact entity_le_of_rankOf_le (hLeft.trans hRight.symm) hLe
  refine
    hPerm.eq_of_pairwise ?_ hAscend
      (h.ascending.imp (fun hLess => hLess.le))
  intro c d hc hd hLe hGe
  exact
    h.eq_of_entity_eq (hPerm.mem_iff.mp hc) hd
      (le_antisymm hLe hGe)

/-
  The index of attributes has all facts with instants, and
  those about transactions stand in it as they are stored.
-/
theorem Dated.exists_scan
    (h : db.Dated instants)
    (hDefined :
      ∀ d ∈ db.datoms, d.value.isUndefined = false) :
    ∃ facts,
      db.scan (.str "aevt") [.str "db/txInstant"] = .ok facts
        ∧ (∀ d ∈ facts, d ∈ db.datoms)
        ∧ facts.filter DatomOf.aboutTx = db.txFacts := by
  have hRanks :
      ∀ d ∈ db.indexedFacts .aevt, FactIndex.aevt.Ranks d :=
    fun d hd => ⟨hDefined d hd, nofun⟩
  rcases exists_sortedFacts_ascending hRanks with
    ⟨facts, hFacts, hPerm, hUp⟩
  have hKey := componentKey_aevt h.installed
  refine ⟨_, scan_eq_filter hFacts hKey, ?_, ?_⟩
  · intro d hd
    exact hPerm.mem_iff.mp (List.mem_of_mem_filter hd)
  · rw [← h.eq_txFacts (hPerm.filter _) (hUp.filter _),
      List.filter_filter]
    refine List.filter_congr ?_
    intro d hd
    cases hAbout : d.aboutTx with
    | false => rfl
    | true =>
        have hMember : d ∈ db.txFacts :=
          List.mem_filter.mpr ⟨hPerm.mem_iff.mp hd, hAbout⟩
        rcases h.exists_instant hMember with ⟨t, hAttr, -⟩
        exact begins_aevt_iff.mpr hAttr.symm

------------------------------------------------------------
-- The List of Transactions
------------------------------------------------------------

/- What is known of a transaction: its instant. -/
def txMap (instant : Int) : List (Value × Value) :=
  [(.str "db/txInstant", .instant instant)]

/- An instant is shown as it is stored. -/
theorem InstantsStay.current_ofDatom
    {growths : Growths}
    (h : db.InstantsStay growths)
    (hd : d ∈ db.datoms)
    {t : Int}
    (hValue : d.value = .instant t) :
    growths.current (.ofDatom d) = .instant t := by
  have hNone : growths.of? d.origin = none := by
    rw [Growths.of?, List.find?_eq_none]
    intro g hg hOrigin
    exact h g hg d hd (beq_iff_eq.mp hOrigin).symm t hValue
  have hHeld : growths.holdings d.origin = none := by
    unfold Growths.holdings Growths.within
    rw [hNone]
  unfold Growths.current Held.now Held.ofDatom
  rw [Option.bind_some, hHeld, Option.getD_none, hValue]
  simp only [Value.renewed]

/- So the entity of a transaction shows its instant. -/
theorem InstantsStay.run_lookThrough
    {growths : Growths}
    (h : db.InstantsStay growths)
    (hd : d ∈ db.datoms)
    {t : Int}
    (hDates : d.Dates t) :
    (Gathering.lookThrough
        [(.str "db/txInstant", .ofDatom d)]).run.run growths
      = (.ok (txMap t), growths) := by
  have hValue := h.current_ofDatom hd hDates.value
  change
    (Except.ok
        [(Value.str "db/txInstant", growths.current (.ofDatom d))],
      growths) = _
  rw [hValue]
  rfl

/-
  Where the facts about transactions give them their instants,
  these are what is listed, one map for each.
-/
theorem run_transactions
    (hDated : db.Dated instants)
    (hPartitions : db.Partitioned)
    (hDefined :
      ∀ d ∈ db.datoms, d.value.isUndefined = false)
    {growths : Growths}
    (hStay : db.InstantsStay growths) :
    db.transactions.run.run growths
      = (.ok (instants.map txMap), growths) := by
  rcases hDated.exists_scan hDefined with
    ⟨facts, hScan, hMem, hAbout⟩
  let shown (d : Datom) : List (Value × Shown) :=
    [(.str "db/txInstant", .ofDatom d)]
  have hMaps :
      (facts.mapM db.transactionOf).run.run growths
        = (.ok
            (facts.map fun d =>
              if d.aboutTx then some (shown d) else none),
          growths) := by
    refine Gathering.run_mapM ?_
    rw [List.forall₂_map_right_iff, List.forall₂_same]
    exact fun d hd =>
      run_transactionOf hDated hPartitions (hMem d hd) growths
  have hKept :
      (facts.map fun d =>
          if d.aboutTx then some (shown d) else none).filterMap id
        = db.txFacts.map shown := by
    rw [← hAbout, List.filterMap_map, ← List.filterMap_eq_map,
      List.filterMap_filter]
    rfl
  have hLooks :
      ((db.txFacts.map shown).mapM
          Gathering.lookThrough).run.run growths
        = (.ok (instants.map txMap), growths) := by
    refine Gathering.run_mapM ?_
    rw [List.forall₂_map_left_iff, List.forall₂_map_right_iff]
    have hStored : ∀ d ∈ db.txFacts, d ∈ db.datoms :=
      fun d hd => List.mem_of_mem_filter hd
    refine
      ((List.forall₂_and_left _ _).mpr
        ⟨hStored, hDated.facts⟩).imp ?_
    exact fun d t h => hStay.run_lookThrough h.1 h.2
  unfold transactions
  rw [hScan, Gathering.run_bind]
  change
    (facts.mapM db.transactionOf >>= _).run.run growths = _
  rw [Gathering.run_bind, hMaps]
  change
    (List.mapM Gathering.lookThrough (List.filterMap id _)
      ).run.run growths = _
  rw [hKept, hLooks]

end Database

end FactBase
