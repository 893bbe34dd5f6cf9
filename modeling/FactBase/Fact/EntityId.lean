/-
  This file defines the layout of entity ids.  Every
  partition owns a span of consecutive integers, and an id
  is its partition's index followed by a serial number.

  Key definitions include:
    * `EntityId.span`
    * `EntityId.inPartition`
    * `EntityId.partitionIndex`
    * `Allocator`
    * `Allocator.take`
-/

------------------------------------------------------------
-- The Layout
------------------------------------------------------------

namespace FactBase

namespace EntityId

/- The number of bits of a serial number. -/
def serialBits : Nat := 42

/- The number of ids in a partition. -/
def span : Nat := Nat.pow 2 serialBits

/-
  The id with a serial number in a partition: the index of
  the partition is set above the bits of the serial number.
  A negative serial number has all higher bits set.
-/
def inPartition
    (partition : Nat) :
    Int → Int
  | .ofNat serial => ((partition * span) ||| serial : Nat)
  | .negSucc n =>
      .negSucc (n - (n &&& (partition * span)))

/- The index of the partition that an id lies in. -/
def partitionIndex (eid : Int) : Int :=
  eid / span

/- A serial number below the span is kept as it is. -/
theorem inPartition_of_lt
    (partition serial : Nat)
    (h : serial < span) :
    inPartition partition (serial : Int) =
      ((partition * span + serial : Nat) : Int) := by
  have hOr :
      span * partition + serial = span * partition ||| serial :=
    Nat.two_pow_add_eq_or_of_lt h partition
  rw [Nat.mul_comm span partition] at hOr
  change (((partition * span) ||| serial : Nat) : Int) = _
  rw [hOr]

/- An id lies in the partition that it was made for. -/
theorem partitionIndex_inPartition
    (partition serial : Nat)
    (h : serial < span) :
    partitionIndex (inPartition partition (serial : Int)) =
      partition := by
  rw [inPartition_of_lt partition serial h, partitionIndex,
    ← Int.natCast_ediv]
  have hSpan : 0 < span := Nat.two_pow_pos serialBits
  rw [Nat.add_comm, Nat.add_mul_div_right _ _ hSpan,
    Nat.div_eq_of_lt h, Nat.zero_add]

end EntityId

------------------------------------------------------------
-- Allocation
------------------------------------------------------------

/- The next serial number of each partition. -/
structure Allocator where
  next : Nat → Nat

namespace Allocator

/- No id was taken from any partition. -/
def empty : Allocator where
  next := fun _ => 0

/- The id that a partition gives out next. -/
def eid
    (a : Allocator)
    (partition : Nat) : Int :=
  EntityId.inPartition partition (a.next partition)

/- Go on with a serial number in a partition. -/
def goOn
    (a : Allocator)
    (partition serial : Nat) : Allocator where
  next := fun p => if p = partition then serial else a.next p

/- Take the next id of a partition. -/
def take
    (a : Allocator)
    (partition : Nat) : Allocator :=
  a.goOn partition (a.next partition + 1)

/- Taking an id advances its partition by one. -/
theorem next_take_self
    (a : Allocator)
    (p : Nat) :
    (a.take p).next p = a.next p + 1 := by
  simp [take, goOn]

/- Taking an id leaves the other partitions alone. -/
theorem next_take_of_ne
    (a : Allocator)
    {p q : Nat}
    (h : q ≠ p) :
    (a.take p).next q = a.next q := by
  simp [take, goOn, h]

end Allocator

end FactBase
