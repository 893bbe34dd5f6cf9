import FactBase.Fact.Inspection
import FactBase.Proofs.Fact.Freshness
import FactBase.Proofs.Fact.Lookup
import FactBase.Proofs.Fact.Seeking

/-
  This file shows which partition an entity id lies in, and
  which ids are found in a partition.  A partition has the
  span of ids that begins with its first one, and ids are
  found in the order of an index, where those of a partition
  are not parted by others.

  Key definitions include:
    * `Database.Spans`
    * `Database.NamesDefined`

  Key theorems include:
    * `Database.spans_iff`
    * `Database.whileIn_eq_takeWhile`
    * `Database.exists_seek_entity`
    * `Database.exists_ids_from`
    * `Engine.Run.partitionOf_spans`
    * `Engine.Run.partitionIds_ascend`
-/

------------------------------------------------------------
-- Entity Ids
------------------------------------------------------------

namespace FactBase

open Sorting

namespace EntityId

/- The first id of a partition. -/
theorem inPartition_zero (p : Nat) :
    inPartition p (0 : Nat) = ((p * span : Nat) : Int) := by
  rw [inPartition_of_lt p 0 (Nat.two_pow_pos serialBits),
    Nat.add_zero]

/- The ids of a partition are the span from its first one on. -/
theorem partitionIndex_eq_iff
    {n : Int}
    {p : Nat} :
    partitionIndex n = p ↔
      inPartition p (0 : Nat) ≤ n
        ∧ n < inPartition p (0 : Nat) + span := by
  have hSpan : (0 : Int) < span := by
    exact_mod_cast Nat.two_pow_pos serialBits
  rw [inPartition_zero, partitionIndex,
    Int.ediv_eq_iff_of_pos hSpan, Nat.cast_mul]

/- That many partitions further on. -/
theorem partitionIndex_add_mul
    (n : Int)
    (count : Nat) :
    partitionIndex (n + count * span)
      = partitionIndex n + count := by
  have hSpan : (span : Int) ≠ 0 := by
    exact_mod_cast (Nat.two_pow_pos serialBits).ne'
  exact Int.add_mul_ediv_right n count hSpan

/- An id lies before a partition if it is less than its ids. -/
theorem partitionIndex_lt_iff
    {n : Int}
    {p : Int} :
    partitionIndex n < p ↔ n < p * span := by
  have hSpan : (0 : Int) < span := by
    exact_mod_cast Nat.two_pow_pos serialBits
  exact Int.ediv_lt_iff_lt_mul hSpan

/- An id that is not negative lies in no negative partition. -/
theorem partitionIndex_nonneg
    {n : Int}
    (h : 0 ≤ n) : 0 ≤ partitionIndex n := by
  rw [← not_lt, partitionIndex_lt_iff]
  omega

end EntityId

open EntityId

------------------------------------------------------------
-- The Partition of an Id
------------------------------------------------------------

namespace Database

variable {db : Database}
variable {n : Int}
variable {p : Value}
variable {index : Nat}

/-
  Among values that are told apart, the first one that is the
  same as one of them is that one.
-/
theorem positionOf?_of_getElem?
    {items : List Value}
    (hDistinct : PartitionsDistinct items)
    (h : items[index]? = some p) :
    positionOf? p items = some index := by
  rcases List.getElem?_eq_some_iff.mp h with ⟨hLt, rfl⟩
  unfold positionOf?
  rw [List.findIdx?_eq_some_iff_getElem]
  refine ⟨hLt, Value.same_refl _, ?_⟩
  intro j hj
  have hApart :=
    List.pairwise_iff_getElem.mp hDistinct j index (by omega)
      hLt hj
  simp [hApart]

/-
  An id that is not negative lies in the partition of its
  index.
-/
theorem partitionOf_eq_ok_iff (h : 0 ≤ n) :
    db.partitionOf (.int n) = .ok p ↔
      db.partitions[(partitionIndex n).toNat]? = some p := by
  have hIndex := not_lt.mpr (partitionIndex_nonneg h)
  simp only [partitionOf, Value.int?, partitionAt,
    if_neg hIndex]
  cases db.partitions[(partitionIndex n).toNat]? <;> simp

/- If there is no such partition, the id is outside of all. -/
theorem partitionOf_eq_error
    (h : 0 ≤ n)
    (hNone : db.partitions[(partitionIndex n).toNat]? = none) :
    db.partitionOf (.int n)
      = .error (.engine (.outsidePartitions (.int n))) := by
  have hIndex := not_lt.mpr (partitionIndex_nonneg h)
  simp only [partitionOf, Value.int?, partitionAt,
    if_neg hIndex, hNone]

/- An id before the end of all partitions lies in one of them. -/
theorem exists_partition
    (h : 0 ≤ n)
    (hUpper : n < db.partitions.length * span) :
    ∃ p, db.partitions[(partitionIndex n).toNat]? = some p := by
  have hNonneg := partitionIndex_nonneg h
  rw [← partitionIndex_lt_iff] at hUpper
  have hLess :
      (partitionIndex n).toNat < db.partitions.length := by
    omega
  exact ⟨_, List.getElem?_eq_getElem hLess⟩

/- A negative id is taken as one that is counted from the end. -/
theorem partitionOf_of_neg
    (h : n < 0)
    (hCount : -(db.partitions.length * span : Int) ≤ n) :
    db.partitionOf (.int n)
      = db.partitionOf
          (.int (n + db.partitions.length * span)) := by
  have hIndex : partitionIndex n < 0 := by
    rw [partitionIndex_lt_iff]
    omega
  have hLast :
      -(db.partitions.length : Int) ≤ partitionIndex n := by
    rw [← not_lt, partitionIndex_lt_iff, neg_mul]
    omega
  have hWrapped :
      ¬partitionIndex n + db.partitions.length < 0 := by omega
  have hLt :
      (partitionIndex n + db.partitions.length).toNat
        < db.partitions.length := by omega
  simp only [partitionOf, Value.int?, partitionAt,
    partitionIndex_add_mul, if_pos hIndex, if_neg hWrapped,
    List.getElem?_eq_getElem hLt]

/- Ids before all of these have no partition to be taken for. -/
theorem partitionOf_of_lt
    (h : n < -(db.partitions.length * span : Int)) :
    db.partitionOf (.int n) = .error (.mishap .outOfRange) := by
  have hBefore :
      partitionIndex n < -(db.partitions.length : Int) := by
    rw [partitionIndex_lt_iff, neg_mul]
    exact h
  have hIndex : partitionIndex n < 0 := by omega
  have hStill :
      partitionIndex n + db.partitions.length < 0 := by omega
  simp only [partitionOf, Value.int?, partitionAt,
    if_pos hIndex, if_pos hStill]

/-
  An id is one of the span of ids that begins with the first
  one of a partition.
-/
def Spans
    (db : Database)
    (p : Value)
    (n : Int) : Prop :=
  p ∈ db.partitions ∧
    ∃ first, db.entityIdAt p (.int 0) = .ok first
      ∧ first ≤ n ∧ n < first + span

/- The partition that spans an id is the one of its index. -/
theorem spans_iff
    (hDistinct : PartitionsDistinct db.partitions)
    (h : 0 ≤ n) :
    db.Spans p n ↔
      db.partitions[(partitionIndex n).toNat]? = some p := by
  have hFirst {k : Nat} (hk : db.partitions[k]? = some p) :
      db.entityIdAt p (.int 0) = .ok (inPartition k (0 : Nat)) := by
    unfold entityIdAt
    rw [positionOf?_of_getElem? hDistinct hk]
    rfl
  have hNonneg := partitionIndex_nonneg h
  constructor
  · rintro ⟨hMem, first, hEntity, hLower, hUpper⟩
    rcases List.getElem?_of_mem hMem with ⟨k, hk⟩
    rw [hFirst hk, Except.ok.injEq] at hEntity
    subst hEntity
    rw [partitionIndex_eq_iff.mpr ⟨hLower, hUpper⟩,
      Int.toNat_natCast]
    exact hk
  · intro hk
    have hBounds :=
      partitionIndex_eq_iff.mp (Int.toNat_of_nonneg hNonneg).symm
    exact
      ⟨List.mem_of_getElem? hk, _, hFirst hk, hBounds⟩

------------------------------------------------------------
-- The Names of Partitions
------------------------------------------------------------

/-
  No ident and no partition is named by an undefined number.
-/
structure NamesDefined (db : Database) : Prop where
  idents : ∀ b ∈ db.idents, b.1.isUndefined = false
  partitions : ∀ p ∈ db.partitions, p.isUndefined = false

end Database

namespace Ledger

variable {db : Database}
variable {tx : Int}
variable {V : Value → Prop}
variable {l after : Ledger}

/- The facts before a change are defined if those after it are. -/
theorem Change.defined
    (h : Change db tx V l after)
    (hDefined :
      ∀ d ∈ after.datoms, d.value.isUndefined = false) :
    (∀ d ∈ l.datoms, d.value.isUndefined = false)
      ∧ ∀ d ∈ after.log, d ∈ l.log ∨ d.added = false
          ∨ d.value.isUndefined = false := by
  cases h with
  | retract hRest =>
      rcases split_of_withoutFirst? hRest with
        ⟨before, x, rest, hSplit, rfl, hStates, -⟩
      have hGone : x.value.isUndefined = false := by
        rw [Bool.eq_false_iff]
        intro hUndefined
        have hEquals := (Value.of_states hStates).2.2
        rw [Value.equals_of_isUndefined (.inl hUndefined)]
          at hEquals
        cases hEquals
      constructor
      · rw [hSplit]
        simp only [List.forall_mem_append, List.forall_mem_cons]
          at hDefined ⊢
        exact ⟨hDefined.1, hGone, hDefined.2⟩
      · exact
          forall_mem_append_singleton.mpr
            ⟨fun d hd => .inl hd, .inr (.inl rfl)⟩
  | enter =>
      have hBoth := forall_mem_append_singleton.mp hDefined
      exact
        ⟨hBoth.1,
          forall_mem_append_singleton.mpr
            ⟨fun d hd => .inl hd, .inr (.inr hBoth.2)⟩⟩

/-
  An undefined number never goes.  If none is left, there was
  none at the start, and none was added.
-/
theorem Changes.defined
    (h : Changes db tx V (.ofDatabase db) after)
    (hDefined :
      ∀ d ∈ after.datoms, d.value.isUndefined = false) :
    (∀ d ∈ db.datoms, d.value.isUndefined = false)
      ∧ ∀ d ∈ after.log, d.added = true →
          d.value.isUndefined = false := by
  revert hDefined
  refine
    h.invariant
      (fun l =>
        (∀ d ∈ l.datoms, d.value.isUndefined = false) →
          (∀ d ∈ db.datoms, d.value.isUndefined = false)
            ∧ ∀ d ∈ l.log, d.added = true →
                d.value.isUndefined = false) ?_
      (fun hStart => ⟨hStart, nofun⟩)
  intro l l' hChange hSoFar hDefined
  rcases hChange.defined hDefined with ⟨hBefore, hLog⟩
  refine ⟨(hSoFar hBefore).1, ?_⟩
  intro d hd hAdded
  rcases hLog d hd with hOld | hRemoved | hValue
  · exact (hSoFar hBefore).2 d hOld hAdded
  · rw [hRemoved] at hAdded
    cases hAdded
  · exact hValue

end Ledger

namespace Database

variable {db after : Database}
variable {l : Ledger}

/- Idents follow a log without undefined numbers. -/
private theorem idents_defined
    {table next : List (Value × Int)}
    {d : Datom}
    (h : followIdent table d = .ok next)
    (hAdded : d.added = true → d.value.isUndefined = false)
    (hTable : ∀ b ∈ table, b.1.isUndefined = false) :
    ∀ b ∈ next, b.1.isUndefined = false := by
  rcases bind_eq_ok.mp h with ⟨owner, -, hRest⟩
  split at hRest
  next hNew =>
    rw [pure_eq_ok] at hRest
    subst hRest
    intro b hb
    rcases Table.key_of_mem_put hb with ⟨c, hc, hKey⟩ | hKey
    · exact hKey ▸ hTable c hc
    · exact hKey ▸ hAdded hNew
  next =>
    split at hRest <;> rw [pure_eq_ok] at hRest <;> subst hRest
    · exact
        fun b hb =>
          hTable b ((Table.erase_sublist _ _).subset hb)
    · exact hTable

/- A partition that is installed is named by an ident. -/
private theorem partitions_defined
    {table : List (Value × Int)}
    {i j : Installations}
    {eid : Value}
    (h : installPartition table i eid = .ok j)
    (hTable : ∀ b ∈ table, b.1.isUndefined = false)
    (hNames : ∀ p ∈ i.partitions, p.isUndefined = false) :
    ∀ p ∈ j.partitions, p.isUndefined = false := by
  unfold installPartition at h
  split at h
  · split at h
    · cases h
    next name hNamed =>
      split at h
      · exact Except.ok.inj h ▸ hNames
      · rw [← Except.ok.inj h]
        refine forall_mem_append_singleton.mpr ⟨hNames, ?_⟩
        cases hLast : lastIdentOf? table eid with
        | none => rfl
        | some ident =>
            unfold lastIdentOf? at hLast
            rcases Option.map_eq_some_iff.mp hLast with
              ⟨b, hb, rfl⟩
            exact
              hTable b
                (List.mem_reverse.mp (List.mem_of_find?_eq_some hb))
  · cases h

/- Names stay defined under a log without undefined numbers. -/
theorem NamesDefined.afterLog
    (h : db.NamesDefined)
    (hAfter : db.afterLog l = .ok after)
    (hLog :
      ∀ d ∈ l.log, d.added = true →
        d.value.isUndefined = false) :
    after.NamesDefined := by
  rcases afterLog_eq_ok.mp hAfter with
    ⟨ident, idents, newAttr, newPart, installs, -, hIdents, -,
      -, hInstalls, rfl⟩
  have hTable : ∀ b ∈ idents, b.1.isUndefined = false := by
    refine
      Outcome.foldlM_invariant
        (fun table => ∀ b ∈ table, b.1.isUndefined = false) ?_
        hIdents h.idents
    intro d hd table next hStep hSoFar
    exact
      idents_defined hStep (hLog d (List.mem_filter.mp hd).1)
        hSoFar
  refine ⟨hTable, ?_⟩
  refine
    Outcome.foldlM_invariant
      (fun i => ∀ p ∈ i.partitions, p.isUndefined = false) ?_
      hInstalls h.partitions
  intro d _ i j hStep hSoFar
  unfold installedBy at hStep
  split at hStep
  · rw [partitions_installAttribute hStep]
    exact hSoFar
  · split at hStep
    · exact partitions_defined hStep hTable hSoFar
    · rw [pure_eq_ok] at hStep
      exact hStep ▸ hSoFar

end Database

------------------------------------------------------------
-- The Ids of a Partition
------------------------------------------------------------

namespace Database

/- Leaving out repeats leaves no id out. -/
theorem mem_withoutRepeats
    {ids : List Int}
    {n : Int} : n ∈ withoutRepeats ids ↔ n ∈ ids := by
  fun_induction withoutRepeats ids with
  | case1 => rfl
  | case2 => rfl
  | case3 eid next rest hSame ih =>
      rw [ih, beq_iff_eq.mp hSame]
      simp
  | case4 eid next rest _ ih =>
      rw [List.mem_cons, ih, List.mem_cons (a := n) (b := eid)]

/- Ids that ascend then do so strictly. -/
theorem pairwise_withoutRepeats
    {ids : List Int}
    (h : ids.Pairwise (· ≤ ·)) :
    (withoutRepeats ids).Pairwise (· < ·) := by
  fun_induction withoutRepeats ids with
  | case1 => exact .nil
  | case2 eid => exact List.pairwise_singleton _ _
  | case3 eid next rest _ ih => exact ih h.tail
  | case4 eid next rest hDiffer ih =>
      refine List.pairwise_cons.mpr ⟨?_, ih h.tail⟩
      intro n hn
      rw [mem_withoutRepeats] at hn
      have hNext : eid ≤ next :=
        List.rel_of_pairwise_cons h List.mem_cons_self
      have hLater : next ≤ n := by
        rcases List.mem_cons.mp hn with rfl | hn
        · exact le_refl _
        · exact List.rel_of_pairwise_cons h.tail hn
      have hNe : eid ≠ next := by simpa using hDiffer
      omega

variable {db : Database}
variable {p q : Value}
variable {index k : Nat}

/-
  A partition equals a given name exactly if it is at the
  position of the name.
-/
theorem equal_of_positionOf?
    (hDistinct : PartitionsDistinct db.partitions)
    (hProper : ∀ q ∈ db.partitions, q.proper = true)
    (hDefined : ∀ q ∈ db.partitions, q.isUndefined = false)
    (hPosition : positionOf? p db.partitions = some index)
    (hk : db.partitions[k]? = some q) :
    q.equal p = (k == index) := by
  rcases List.findIdx?_eq_some_iff_getElem.mp hPosition with
    ⟨hIndex, hFound, -⟩
  rcases List.getElem?_eq_some_iff.mp hk with ⟨hLt, rfl⟩
  have hThere := List.getElem_mem hLt
  have hNamed := List.getElem_mem hIndex
  unfold Value.equal
  rw [hDefined _ hThere, Bool.not_false, Bool.true_and]
  by_cases hEq : k = index
  · subst hEq
    rw [hFound, beq_self_eq_true]
  · rw [beq_false_of_ne hEq, Bool.eq_false_iff]
    intro hSame
    have hBoth :
        db.partitions[k].same db.partitions[index] = true :=
      Value.same_trans hSame
        (Value.same_symm (hProper _ hNamed) hFound)
    have hApart := List.pairwise_iff_getElem.mp hDistinct
    rcases Nat.lt_or_gt_of_ne hEq with hLess | hMore
    · rw [hApart k index hLt hIndex hLess] at hBoth
      cases hBoth
    · have hBack :=
        Value.same_symm (hProper _ hThere) hBoth
      rw [hApart index k hIndex hLt hMore] at hBack
      cases hBack

/-
  Going on while ids are in a partition is to go on while they
  have its index, if all of them are in some partition.
-/
theorem whileIn_eq_takeWhile
    (hDistinct : PartitionsDistinct db.partitions)
    (hProper : ∀ q ∈ db.partitions, q.proper = true)
    (hDefined : ∀ q ∈ db.partitions, q.isUndefined = false)
    (hPosition : positionOf? p db.partitions = some index)
    {ids : List Int}
    (hIds :
      ∀ n ∈ ids, 0 ≤ n ∧ n < db.partitions.length * span) :
    db.whileIn p ids
      = .ok
        (ids.takeWhile (fun n => partitionIndex n == index)) := by
  induction ids with
  | nil => rfl
  | cons n ids ih =>
      rw [List.forall_mem_cons] at hIds
      rcases hIds with ⟨⟨hLower, hUpper⟩, hRest⟩
      have hNonneg := partitionIndex_nonneg hLower
      rcases exists_partition hLower hUpper with ⟨q, hk⟩
      have hSame :
          ((partitionIndex n).toNat == index)
            = (partitionIndex n == index) := by
        rw [Bool.eq_iff_iff, beq_iff_eq, beq_iff_eq]
        omega
      rw [whileIn, (partitionOf_eq_ok_iff hLower).mpr hk, ok_bind,
        equal_of_positionOf? hDistinct hProper hDefined hPosition
          hk, hSame, List.takeWhile_cons, ih hRest]
      split <;> rfl

------------------------------------------------------------
-- Seeking Entities
------------------------------------------------------------

/- It can be told which of two integers in keys is greater. -/
theorem exists_compared_int (m n : Int) :
    ∃ b,
      Value.compared .atLeast
          (.tuple [.int m]) (.tuple [.int n]) = .ok b := by
  rw [Value.compared_of_not_endless _ _ _ rfl rfl]
  simp only [Value.ordered, Value.orderedItems]
  split <;> exact ⟨_, rfl⟩

/-
  The facts from an entity on stand in the order of their
  entities.
-/
theorem exists_seek_entity
    (hDefined :
      ∀ d ∈ db.datoms, d.value.isUndefined = false)
    (first : Int) :
    ∃ facts, db.seek (.str "eavt") [.int first] = .ok facts
      ∧ (facts.map DatomOf.entity).Pairwise (· ≤ ·)
      ∧ ∀ d, d ∈ facts ↔ d ∈ db.datoms ∧ first ≤ d.entity := by
  have hRanks :
      ∀ d ∈ db.indexedFacts .eavt, FactIndex.eavt.Ranks d :=
    fun d hd => ⟨hDefined d hd, nofun⟩
  rcases exists_sortedFacts_ascending hRanks with
    ⟨facts, hFacts, hPerm, hUp⟩
  have hKey :
      db.componentKey .eavt [.int first] = .ok [.int first] := rfl
  have hMeets :
      ∀ d ∈ facts, FactIndex.eavt.Meets [.int first] d :=
    fun d _ => exists_compared_int d.entity first
  -- Of the ranks by which the index is sorted the first counts.
  have hSingle {m n : Int} :
      [(Value.int m).rank] ≤ [(Value.int n).rank]
        ↔ m ≤ n := by
    rw [← not_lt, List.cons_lt_cons_iff,
      ← Value.rank_int_le_iff]
    simp
  refine ⟨_, seek_eq_filter hFacts hKey hMeets, ?_, ?_⟩
  · rw [List.pairwise_map]
    refine (hUp.filter _).imp ?_
    intro c d hLe
    exact hSingle.mp (take_le_take hLe 1)
  · intro d
    rw [List.mem_filter, hPerm.mem_iff]
    refine and_congr_right fun hd => ?_
    have hTold :=
      FactIndex.reaches_begins_iff (takes_of_componentKey hKey)
        (hRanks d hd) (exists_compared_int d.entity first)
    exact hTold.1.trans hSingle

/-
  The ids of a partition are looked for among those from its
  first one on: every id that a fact is about, once, in
  ascending order.
-/
theorem exists_ids_from
    (hDefined :
      ∀ d ∈ db.datoms, d.value.isUndefined = false)
    {p : Value}
    {index : Nat}
    (hPosition : positionOf? p db.partitions = some index) :
    ∃ ids, db.partitionIds p = db.whileIn p ids
      ∧ ids.Pairwise (· < ·)
      ∧ ∀ n, n ∈ ids ↔
          inPartition index (0 : Nat) ≤ n
            ∧ ∃ d ∈ db.datoms, d.entity = n := by
  rcases exists_seek_entity hDefined
    (inPartition index (0 : Nat)) with
    ⟨facts, hSeek, hAscend, hFacts⟩
  have hFirst :
      db.entityIdAt p (.int 0)
        = .ok (inPartition index (0 : Nat)) := by
    unfold entityIdAt
    rw [hPosition]
    rfl
  refine
    ⟨withoutRepeats (facts.map DatomOf.entity), ?_,
      pairwise_withoutRepeats hAscend, ?_⟩
  · unfold partitionIds
    rw [hFirst, ok_bind, hSeek, ok_bind]
  · intro n
    simp only [mem_withoutRepeats, List.mem_map, hFacts]
    constructor
    · rintro ⟨d, ⟨hd, hLe⟩, rfl⟩
      exact ⟨hLe, d, hd, rfl⟩
    · rintro ⟨hLe, d, hd, rfl⟩
      exact ⟨d, ⟨hd, hLe⟩, rfl⟩

end Database

------------------------------------------------------------
-- Runs
------------------------------------------------------------

namespace Bootstrap

/- The names of the first database are texts. -/
theorem namesDefined_database (instant : Int) :
    (database instant).NamesDefined where
  idents := by
    change ∀ b ∈ (database 0).idents, b.1.isUndefined = false
    decide +kernel
  partitions := by
    change ∀ p ∈ (database 0).partitions, p.isUndefined = false
    decide +kernel

end Bootstrap

namespace Engine

variable {clock : Nat → Int}
variable {e : Engine}

/- Where no fact is undefined, no name is. -/
theorem Run.namesDefined
    (h : Run (fun _ => True) (start clock) e)
    (hDefined :
      ∀ d ∈ e.db.datoms, d.value.isUndefined = false) :
    e.db.NamesDefined := by
  revert hDefined
  refine
    h.invariant inherited_true
      (fun e =>
        (∀ d ∈ e.db.datoms, d.value.isUndefined = false) →
          e.db.NamesDefined) ?_
      (fun _ => Bootstrap.namesDefined_database (clock 0))
  intro e items hItems hSoFar hDefined
  rcases advances_transactItems inherited_true e hItems with
    ⟨w, hAdvance, -, hSame | hAfter⟩
  · rw [hSame] at hDefined ⊢
    exact hSoFar hDefined
  · rw [(Database.extends_afterLog hAfter).1] at hDefined
    rcases Ledger.Changes.defined hAdvance.ledger hDefined with
      ⟨hBefore, hLog⟩
    exact (hSoFar hBefore).afterLog hAfter hLog

/-
  An id that is not negative lies in a partition exactly if it
  is in the span of ids that begins with the first one of the
  partition, and no other such id lies in any.  A negative id
  is taken for the one that is reached from it through all
  partitions, as long as there is one, so that the last
  partition is also the one of the ids before the first.
-/
theorem Run.partitionOf_spans
    (h : Run (fun _ => True) (start clock) e)
    (n : Int) :
    (0 ≤ n →
      (∀ p, e.db.partitionOf (.int n) = .ok p ↔ e.db.Spans p n)
        ∧ ((∀ p, ¬e.db.Spans p n) →
          e.db.partitionOf (.int n)
            = .error (.engine (.outsidePartitions (.int n)))))
      ∧ (n < 0 → -(e.db.partitions.length * span : Int) ≤ n →
        e.db.partitionOf (.int n)
          = e.db.partitionOf
              (.int (n + e.db.partitions.length * span)))
      ∧ (n < -(e.db.partitions.length * span : Int) →
        e.db.partitionOf (.int n)
          = .error (.mishap .outOfRange)) := by
  have hDistinct :=
    (h.sound_extends inherited_true
      (Bootstrap.sound_database (clock 0))).1.partitions
  refine
    ⟨fun hNonneg => ⟨fun p => ?_, fun hNone => ?_⟩,
      Database.partitionOf_of_neg, Database.partitionOf_of_lt⟩
  · rw [Database.partitionOf_eq_ok_iff hNonneg,
      Database.spans_iff hDistinct hNonneg]
  · refine Database.partitionOf_eq_error hNonneg ?_
    rw [Option.eq_none_iff_forall_ne_some]
    intro p hp
    exact
      hNone p ((Database.spans_iff hDistinct hNonneg).mpr hp)

/-
  The id before the first one is taken for the last one of the
  last partition.
-/
theorem partitionOf_spans_start :
    (start (fun _ => 0)).db.partitionOf (.int (-1))
        = .ok (.str "db.part/user")
      ∧ (start (fun _ => 0)).db.Spans (.str "db.part/user")
          (-1 + 3 * span) := by
  have hRun :
      Run (fun _ => True) (start (fun _ => 0))
        (start (fun _ => 0)) := .refl
  rcases Run.partitionOf_spans hRun (-1) with ⟨-, hWrapped, -⟩
  rcases Run.partitionOf_spans hRun (-1 + 3 * span) with
    ⟨hSpans, -⟩
  have hLast :
      (start (fun _ => 0)).db.partitionOf
          (.int (-1 + 3 * span))
        = .ok (.str "db.part/user") := rfl
  refine
    ⟨?_, ((hSpans (by decide +kernel)).1 _).mp hLast⟩
  exact (hWrapped (by decide) (by decide +kernel)).trans hLast

/-
  The ids of a partition are found in ascending order, each
  once, and they are all ids of the partition that facts are
  about, provided that no fact is about an id behind all
  partitions.  No value may be undefined, and a partition may
  not be named by a set that has anything twice.
-/
theorem Run.partitionIds_ascend
    (h : Run (fun _ => True) (start clock) e)
    (hDefined :
      ∀ d ∈ e.db.datoms, d.value.isUndefined = false)
    (hBelow :
      ∀ d ∈ e.db.datoms,
        d.entity < e.db.partitions.length * span)
    (hProper : ∀ q ∈ e.db.partitions, q.proper = true)
    {p : Value}
    {index : Nat}
    (hPosition :
      Database.positionOf? p e.db.partitions = some index) :
    ∃ ids, e.db.partitionIds p = .ok ids
      ∧ ids.Pairwise (· < ·)
      ∧ ∀ n, n ∈ ids ↔
          partitionIndex n = index
            ∧ ∃ d ∈ e.db.datoms, d.entity = n := by
  have hDistinct :=
    (h.sound_extends inherited_true
      (Bootstrap.sound_database (clock 0))).1.partitions
  rcases Database.exists_ids_from hDefined hPosition with
    ⟨ids, hRun, hStrict, hIds⟩
  rw [hRun]
  have hNonneg : 0 ≤ inPartition index (0 : Nat) := by
    rw [inPartition_zero]
    exact Int.natCast_nonneg _
  have hInside :
      ∀ n ∈ ids, 0 ≤ n ∧ n < e.db.partitions.length * span := by
    intro n hn
    rcases (hIds n).mp hn with ⟨hLe, d, hd, rfl⟩
    exact ⟨hNonneg.trans hLe, hBelow d hd⟩
  have hFalls :
      Falls (fun n => partitionIndex n == index) ids := by
    refine hStrict.imp_of_mem ?_
    intro m n hm _ hLess hIndex
    rw [beq_iff_eq, partitionIndex_eq_iff] at hIndex ⊢
    exact ⟨((hIds m).mp hm).1, hLess.trans hIndex.2⟩
  refine
    ⟨_, Database.whileIn_eq_takeWhile hDistinct hProper
      (h.namesDefined hDefined).partitions hPosition hInside,
      ?_, ?_⟩
  · rw [← filter_eq_takeWhile_of_falls hFalls]
    exact hStrict.filter _
  · intro n
    rw [← filter_eq_takeWhile_of_falls hFalls, List.mem_filter,
      hIds, beq_iff_eq]
    constructor
    · rintro ⟨⟨-, hFact⟩, hIndex⟩
      exact ⟨hIndex, hFact⟩
    · rintro ⟨hIndex, hFact⟩
      exact
        ⟨⟨(partitionIndex_eq_iff.mp hIndex).1, hFact⟩, hIndex⟩

/- The ids of users after the first of them was added. -/
theorem partitionIds_ascend_exampleEngine :
    ∃ ids,
      exampleEngine.db.partitionIds (.str "db.part/user")
        = .ok ids
      ∧ ids.Pairwise (· < ·)
      ∧ inPartition 2 (0 : Nat) ∈ ids := by
  have hRun :
      Run (fun _ => True) (start (fun _ => 0)) exampleEngine :=
    .single ⟨exampleData, trivial, rfl⟩
  have hDefined :
      ∀ d ∈ exampleEngine.db.datoms,
        d.value.isUndefined = false := by
    decide +kernel
  have hBelow :
      ∀ d ∈ exampleEngine.db.datoms,
        d.entity
          < exampleEngine.db.partitions.length * span := by
    decide +kernel
  have hProper :
      ∀ q ∈ exampleEngine.db.partitions, q.proper = true := by
    decide +kernel
  have hPosition :
      Database.positionOf? (.str "db.part/user")
        exampleEngine.db.partitions = some 2 := by
    decide +kernel
  have hStored :
      ∃ d ∈ exampleEngine.db.datoms,
        d.entity = inPartition 2 (0 : Nat) := by
    decide +kernel
  rcases Run.partitionIds_ascend hRun hDefined hBelow hProper
    hPosition with ⟨ids, hIds, hAscend, hMem⟩
  refine ⟨ids, hIds, hAscend, (hMem _).mpr ⟨?_, hStored⟩⟩
  exact partitionIndex_inPartition 2 0 (by decide +kernel)

end Engine

end FactBase
