import FactBase.Proofs.Fact.Run
import FactBase.Proofs.Value.TextTable

/-
  This file accounts for the ids that partitions give out.
  In a transaction, each temporary id that was not met before
  takes the next id of its partition, and nothing else takes
  any.  So the next serial number of a partition counts the
  ids asked for there, and ids differ as long as serial
  numbers fit into their bits.

  Key definitions include:
    * `Allocator.hasGiven`
    * `Issuance.Issue`
    * `Issuance.Issues`
    * `requests`
    * `Accounts`

  Key theorems include:
    * `EntityId.eq_of_inPartition_eq`
    * `Issuance.Issues.tempids_prefix`
    * `Issuance.Issues.serial`
    * `Accounts.take`
    * `Accounts.widen`
    * `Accounts.issues`
    * `Bootstrap.accounts`
-/

------------------------------------------------------------
-- Entity Ids
------------------------------------------------------------

namespace FactBase

open Sorting

/- An id determines its partition and its serial number. -/
theorem EntityId.eq_of_inPartition_eq
    {p q s t : Nat}
    (hs : s < span)
    (ht : t < span)
    (h :
      inPartition p (s : Int) = inPartition q (t : Int)) :
    p = q ∧ s = t := by
  have hIndex :
      partitionIndex (inPartition p (s : Int))
        = partitionIndex (inPartition q (t : Int)) := by
    rw [h]
  rw [partitionIndex_inPartition p s hs,
    partitionIndex_inPartition q t ht] at hIndex
  have hPartition : p = q := by exact_mod_cast hIndex
  subst hPartition
  rw [inPartition_of_lt p s hs, inPartition_of_lt p t ht] at h
  refine ⟨rfl, ?_⟩
  omega

namespace Allocator

/- The id was given out, or lies before one that was. -/
def hasGiven
    (a : Allocator)
    (eid : Int) : Bool :=
  decide (0 ≤ eid)
    && decide
      ((eid % EntityId.span).toNat
        < a.next (EntityId.partitionIndex eid).toNat)

/- Below the span, this is to ask for the serial number. -/
theorem hasGiven_inPartition
    (a : Allocator)
    (p : Nat)
    {s : Nat}
    (h : s < EntityId.span) :
    a.hasGiven (EntityId.inPartition p (s : Int)) = true ↔
      s < a.next p := by
  have hIndex := EntityId.partitionIndex_inPartition p s h
  have hSerial :
      EntityId.inPartition p (s : Int) % EntityId.span
        = (s : Int) := by
    rw [EntityId.inPartition_of_lt p s h]
    have hMod : (p * EntityId.span + s) % EntityId.span = s := by
      rw [Nat.mul_add_mod_self_right, Nat.mod_eq_of_lt h]
    exact_mod_cast hMod
  rw [hasGiven, Bool.and_eq_true, decide_eq_true_iff,
    decide_eq_true_iff, hSerial, hIndex, Int.toNat_natCast,
    Int.toNat_natCast]
  refine and_iff_right ?_
  rw [EntityId.inPartition_of_lt p s h]
  exact Int.natCast_nonneg _

/- An id that was given out stays so. -/
theorem hasGiven_mono
    {a b : Allocator}
    (h : ∀ p, a.next p ≤ b.next p)
    {eid : Int}
    (hGiven : a.hasGiven eid = true) :
    b.hasGiven eid = true := by
  simp only [hasGiven, Bool.and_eq_true, decide_eq_true_iff]
    at hGiven ⊢
  exact ⟨hGiven.1, Nat.lt_of_lt_of_le hGiven.2 (h _)⟩

/- Taking an id takes none back. -/
theorem next_le_next_take
    (a : Allocator)
    (p q : Nat) :
    a.next q ≤ (a.take p).next q := by
  by_cases h : q = p
  · subst h
    rw [next_take_self]
    omega
  · rw [next_take_of_ne a h]

/- Going on where one is changes nothing. -/
theorem goOn_next
    (a : Allocator)
    (p : Nat) :
    a.goOn p (a.next p) = a := by
  unfold goOn
  congr 1
  funext q
  by_cases h : q = p <;> simp [h]

/- Taking an id is going on by one. -/
theorem take_goOn
    (a : Allocator)
    (p serial : Nat) :
    (a.goOn p serial).take p = a.goOn p (serial + 1) := by
  unfold take goOn
  congr 1
  funext q
  by_cases h : q = p <;> simp [h]

end Allocator

------------------------------------------------------------
-- Temporary Ids
------------------------------------------------------------

/-
  The entities of the temporary ids that a transaction has
  met, and the ids still to give out.
-/
structure Issuance where
  tempids : List (Value × Int)
  allocator : Allocator

/- How far a transaction has come in giving out ids. -/
def Working.issuance (w : Working) : Issuance where
  tempids := w.tempids
  allocator := w.allocator

namespace Issuance

/-
  A temporary id that was not met takes the next id of the
  partition that it names.
-/
inductive Issue (db : Database) : Issuance → Issuance → Prop where
  | issue
      {i : Issuance}
      {partition : String}
      {n : Int}
      {index : Nat}
      (hNew :
        Table.find? (.tempid partition n) i.tempids = none)
      (hPartition :
        Database.positionOf? (.str partition) db.partitions
          = some index) :
      Issue db i
        { tempids :=
            i.tempids
              ++ [(.tempid partition n, i.allocator.eid index)]
          allocator := i.allocator.take index }

/- Any number of ids, one after the other. -/
abbrev Issues (db : Database) : Issuance → Issuance → Prop :=
  Relation.ReflTransGen (Issue db)

namespace Issues

variable {db : Database}
variable {i j : Issuance}

/- What was noted under a temporary id stays. -/
theorem tempids_prefix (h : Issues db i j) :
    i.tempids <+: j.tempids := by
  induction h with
  | refl => exact List.prefix_rfl
  | tail _ hLast ih =>
      cases hLast
      exact ih.trans (List.prefix_append _ _)

/- No id is taken back. -/
theorem next_le
    (h : Issues db i j)
    (p : Nat) :
    i.allocator.next p ≤ j.allocator.next p := by
  induction h with
  | refl => exact Nat.le_refl _
  | tail _ hLast ih =>
      cases hLast
      exact ih.trans (Allocator.next_le_next_take _ _ _)

/- Every id that was noted was taken in between. -/
theorem serial
    (h : Issues db i j)
    (hStart : i.tempids = []) :
    ∀ b ∈ j.tempids, ∃ p s : Nat,
      b.2 = EntityId.inPartition p (s : Int)
        ∧ i.allocator.next p ≤ s
        ∧ s < j.allocator.next p := by
  induction h with
  | refl => simp [hStart]
  | @tail k _ hBefore hLast ih =>
      cases hLast with
      | @issue partition n index _ _ =>
          rw [forall_mem_append_singleton]
          constructor
          · intro b hb
            rcases ih b hb with ⟨p, s, hEq, hFrom, hTo⟩
            refine ⟨p, s, hEq, hFrom, hTo.trans_le ?_⟩
            exact Allocator.next_le_next_take _ _ _
          · refine
              ⟨index, k.allocator.next index, rfl,
                next_le hBefore index, ?_⟩
            simp only [Allocator.next_take_self]
            omega

/- No temporary id is noted twice. -/
theorem tempids_nodup
    (h : Issues db i j)
    (hStart : i.tempids = []) :
    (j.tempids.map Prod.fst).Nodup := by
  induction h with
  | refl => simp [hStart]
  | @tail k _ _ hLast ih =>
      cases hLast with
      | @issue partition n index hNew _ =>
          rw [List.map_append, List.map_singleton,
            ← List.concat_eq_append, List.nodup_concat]
          refine ⟨?_, ih⟩
          intro hMember
          have hFound :
              (Table.find? (.tempid partition n)
                k.tempids).isSome = true :=
            Table.find?_isSome_iff.mpr
              ⟨_, hMember, Value.same_refl _⟩
          rw [hNew] at hFound
          cases hFound

end Issues

end Issuance

------------------------------------------------------------
-- Requests
------------------------------------------------------------

/- The partition of a temporary id. -/
def Value.tempidPartition? : Value → Option String
  | .tempid partition _ => some partition
  | _ => none

/- The partitions asked for an id, with the ids they gave. -/
def requests
    (tempids : List (Value × Int)) : List (String × Int) :=
  tempids.filterMap (fun b =>
    b.1.tempidPartition?.map (fun p => (p, b.2)))

/- One more temporary id is one more request. -/
theorem requests_append_tempid
    (tempids : List (Value × Int))
    (partition : String)
    (n eid : Int) :
    requests (tempids ++ [(.tempid partition n, eid)])
      = requests tempids ++ [(partition, eid)] := by
  simp [requests, Value.tempidPartition?]

/- All that a transaction notes are requests. -/
theorem map_snd_requests
    {db : Database}
    {i j : Issuance}
    (h : Issuance.Issues db i j)
    (hStart : i.tempids = []) :
    (requests j.tempids).map Prod.snd
      = j.tempids.map Prod.snd := by
  induction h with
  | refl => simp [hStart, requests]
  | tail _ hLast ih =>
      cases hLast with
      | issue _ _ =>
          rw [requests_append_tempid, List.map_append, ih,
            List.map_append]
          rfl

/- The number of requests to the partition at an index. -/
def requestsIn
    (partitions : List Value)
    (index : Nat)
    (ids : List (String × Int)) : Nat :=
  ids.countP (fun id =>
    Database.positionOf? (.str id.1) partitions == some index)

/- Serial numbers that the first database leaves out. -/
def Bootstrap.reserved (index : Nat) : Nat :=
  if index = 0 then firstAttribute - partitions.length else 0

/-
  The books on the ids given out.  The next serial number of
  a partition counts the requests, each request has a serial
  number of its partition, and no id was given twice as long
  as serial numbers fit into their bits.
-/
structure Accounts
    (partitions : List Value)
    (a : Allocator)
    (ids : List (String × Int)) : Prop where
  counted :
    ∀ index,
      a.next index
        = requestsIn partitions index ids
          + Bootstrap.reserved index
  placed :
    ∀ id ∈ ids, ∃ index serial : Nat,
      Database.positionOf? (.str id.1) partitions = some index
        ∧ serial < a.next index
        ∧ id.2 = EntityId.inPartition index (serial : Int)
  distinct :
    (∀ index, a.next index ≤ EntityId.span) →
      (ids.map Prod.snd).Nodup

/- A value keeps its position when a list gets longer. -/
theorem Database.positionOf?_of_prefix
    {v : Value}
    {items more : List Value}
    (h : items <+: more)
    {index : Nat}
    (hIndex : positionOf? v items = some index) :
    positionOf? v more = some index := by
  rcases h with ⟨rest, rfl⟩
  unfold positionOf? at hIndex ⊢
  rw [List.findIdx?_append, hIndex, Option.some_or]

namespace Accounts

variable {partitions : List Value}
variable {a : Allocator}
variable {ids : List (String × Int)}

/- Partitions that are added change nothing. -/
theorem widen
    (h : Accounts partitions a ids)
    {more : List Value}
    (hMore : partitions <+: more) : Accounts more a ids where
  counted := by
    intro index
    rw [h.counted index]
    congr 1
    apply List.countP_congr
    intro id hId
    rcases h.placed id hId with ⟨at?, _, hPosition, _⟩
    rw [hPosition,
      Database.positionOf?_of_prefix hMore hPosition]
  placed := by
    intro id hId
    rcases h.placed id hId with
      ⟨index, serial, hPosition, hRest⟩
    exact
      ⟨index, serial,
        Database.positionOf?_of_prefix hMore hPosition, hRest⟩
  distinct := h.distinct

/- The next id of a partition was not given before. -/
theorem eid_not_mem
    (h : Accounts partitions a ids)
    (hLast : ∀ index, a.next index ≤ EntityId.span)
    {index : Nat}
    (hNext : a.next index < EntityId.span) :
    a.eid index ∉ ids.map Prod.snd := by
  intro hMember
  rcases List.mem_map.mp hMember with ⟨id, hId, hSame⟩
  rcases h.placed id hId with ⟨at?, serial, _, hSerial, hEq⟩
  rw [hEq] at hSame
  have hFit : serial < EntityId.span :=
    hSerial.trans_le (hLast at?)
  rcases EntityId.eq_of_inPartition_eq hFit hNext hSame with
    ⟨rfl, rfl⟩
  exact Nat.lt_irrefl _ hSerial

/- Giving out the next id of a partition keeps the books. -/
theorem take
    (h : Accounts partitions a ids)
    {partition : String}
    {index : Nat}
    (hPartition :
      Database.positionOf? (.str partition) partitions
        = some index) :
    Accounts partitions (a.take index)
      (ids ++ [(partition, a.eid index)]) where
  counted := by
    intro other
    have hCount := h.counted other
    by_cases hOther : other = index
    · subst hOther
      rw [Allocator.next_take_self, hCount]
      simp only [requestsIn, List.countP_append,
        List.countP_singleton, hPartition, beq_self_eq_true,
        if_true]
      omega
    · rw [Allocator.next_take_of_ne a hOther, hCount]
      have hNot : (some index == some other) = false := by
        simpa using Ne.symm hOther
      simp only [requestsIn, List.countP_append,
        List.countP_singleton, hPartition, hNot,
        Bool.false_eq_true, if_false, Nat.add_zero]
  placed := by
    rw [forall_mem_append_singleton]
    constructor
    · intro id hId
      rcases h.placed id hId with
        ⟨at?, serial, hPosition, hSerial, hEq⟩
      refine ⟨at?, serial, hPosition, ?_, hEq⟩
      exact hSerial.trans_le (a.next_le_next_take index at?)
    · refine ⟨index, a.next index, hPartition, ?_, rfl⟩
      rw [Allocator.next_take_self]
      omega
  distinct := by
    intro hLast
    have hBefore : ∀ p, a.next p ≤ EntityId.span :=
      fun p => (a.next_le_next_take index p).trans (hLast p)
    have hNext : a.next index < EntityId.span := by
      have hTaken := hLast index
      rw [Allocator.next_take_self] at hTaken
      omega
    rw [List.map_append, List.map_singleton,
      ← List.concat_eq_append, List.nodup_concat]
    exact ⟨h.eid_not_mem hBefore hNext, h.distinct hBefore⟩

/- So does giving out ids to temporary ids. -/
theorem issues
    {db : Database}
    {i j : Issuance}
    (hIssues : Issuance.Issues db i j)
    (h :
      Accounts db.partitions i.allocator
        (ids ++ requests i.tempids)) :
    Accounts db.partitions j.allocator
      (ids ++ requests j.tempids) := by
  induction hIssues with
  | refl => exact h
  | tail _ hLast ih =>
      cases hLast with
      | issue _ hPartition =>
          rw [requests_append_tempid, ← List.append_assoc]
          exact ih.take hPartition

/- An id lies in the partition that it was asked for in. -/
theorem partitionIndex_eq
    (h : Accounts partitions a ids)
    (hLast : ∀ index, a.next index ≤ EntityId.span)
    {id : String × Int}
    (hId : id ∈ ids) :
    ∃ index : Nat,
      Database.positionOf? (.str id.1) partitions = some index
        ∧ EntityId.partitionIndex id.2 = index := by
  rcases h.placed id hId with
    ⟨index, serial, hPosition, hSerial, hEq⟩
  refine ⟨index, hPosition, ?_⟩
  rw [hEq]
  exact
    EntityId.partitionIndex_inPartition index serial
      (hSerial.trans_le (hLast index))

end Accounts

------------------------------------------------------------
-- The First Database
------------------------------------------------------------

namespace Bootstrap

/- The name of the partition of transactions. -/
def txPartitionName : String := "db.part/tx"

/- The ids of the first database and where they were taken. -/
def issued : List (String × Int) :=
  partitionIds.map (fun p => (TempId.systemPartition, p.2))
    ++ attributeIds.map
      (fun attr => (TempId.systemPartition, attr.2))
    ++ [(txPartitionName, tx)]

/- The place of an id, as its bits give it. -/
private def isPlaced (id : String × Int) : Bool :=
  let index := (EntityId.partitionIndex id.2).toNat
  let serial := (id.2 % EntityId.span).toNat
  index < 2
    && Database.positionOf? (.str id.1)
        (partitions.map Value.str) == some index
    && serial < allocator.next index
    && id.2 == EntityId.inPartition index serial

private theorem isPlaced_of_mem_issued :
    ∀ id ∈ issued, isPlaced id = true := by
  decide +kernel

/- The books of the first database. -/
theorem accounts (instant : Int) :
    Accounts (database instant).partitions allocator
      issued where
  counted := by
    intro index
    match index with
    | 0 =>
        change
          allocator.next 0
            = requestsIn (partitions.map Value.str) 0 issued
              + reserved 0
        decide +kernel
    | 1 =>
        change
          allocator.next 1
            = requestsIn (partitions.map Value.str) 1 issued
              + reserved 1
        decide +kernel
    | index + 2 =>
        have hNone :
            requestsIn (partitions.map Value.str) (index + 2)
              issued = 0 := by
          apply List.countP_eq_zero.mpr
          intro id hId hAt
          have hPlaced := isPlaced_of_mem_issued id hId
          simp only [isPlaced, Bool.and_eq_true,
            decide_eq_true_iff, beq_iff_eq] at hPlaced hAt
          rw [hAt] at hPlaced
          have hSame := Option.some.inj hPlaced.1.1.2
          omega
        change 0 = requestsIn (partitions.map Value.str) _ _ + 0
        rw [hNone]
  placed := by
    intro id hId
    have hPlaced := isPlaced_of_mem_issued id hId
    simp only [isPlaced, Bool.and_eq_true,
      decide_eq_true_iff, beq_iff_eq] at hPlaced
    exact
      ⟨_, _, hPlaced.1.1.2, hPlaced.1.2, hPlaced.2⟩
  distinct := fun _ => by
    decide +kernel

end Bootstrap

end FactBase
