import FactBase.Fault
import FactBase.Attribute.Keyword

/-
  This file defines the supply of temporary entity ids.  Each
  request takes the next serial number, and a number that was
  taken stays taken even where the request then fails.

  Key definitions include:
    * `Drawing`
    * `TempId.serialAt`
    * `TempId.draw`
-/

------------------------------------------------------------
-- Temporary Ids
------------------------------------------------------------

namespace FactBase

/-
  A computation that may draw temporary ids and may fail.
  The state counts the ids drawn so far.
-/
abbrev Drawing := ExceptT Fault (StateM Nat)

namespace TempId

/- The partition of ids that name none. -/
def userPartition : String := "db.part/user"

/- The partition of attributes and partitions. -/
def systemPartition : String := "db.part/db"

/- The serial number of the `n`th id drawn. -/
def serialAt (n : Nat) : Int :=
  -(1000001 + n)

/- Draw an id whose partition is known to be a keyword. -/
def drawIn (partition : String) : Drawing Value := do
  let n ← get
  set (n + 1)
  return .tempid partition (serialAt n)

/- Draw an id in a partition, which must be a keyword. -/
def draw (partition : Value) : Drawing Value :=
  match partition with
  | .str s =>
      if Keyword.isKeyword s then drawIn s
      else throw (.identifier (.partition partition))
  | v => throw (.identifier (.partition v))

/- Different draws give different serial numbers. -/
theorem serialAt_injective
    {m n : Nat}
    (h : serialAt m = serialAt n) :
    m = n := by
  unfold serialAt at h
  omega

end TempId

end FactBase
