import FactBase.Value.Equality

/-
  This file defines the order of values: numbers by
  magnitude, texts and byte strings by their code points and
  bytes, sequences by their first difference, sets by
  inclusion.  Values of unlike kinds have no order.

  Key definitions include:
    * `Comparison`
    * `Incomparable`
    * `Value.ordered`
-/

------------------------------------------------------------
-- Comparisons
------------------------------------------------------------

namespace FactBase

/- The four comparisons that need an order. -/
inductive Comparison where
  | less
  | greater
  | atMost
  | atLeast
deriving DecidableEq, Repr

namespace Comparison

/- The sign of a comparison. -/
def sign : Comparison → String
  | .less => "<"
  | .greater => ">"
  | .atMost => "<="
  | .atLeast => ">="

/- Whether a comparison holds of two things so ordered. -/
def accepts : Comparison → Ordering → Bool
  | .less, o => o == .lt
  | .greater, o => o == .gt
  | .atMost, o => o != .gt
  | .atLeast, o => o != .lt

end Comparison

/- A comparison of two kinds that have no common order. -/
structure Incomparable where
  comparison : Comparison
  left : String
  right : String
deriving DecidableEq, Repr

/- The text that says which kinds cannot be compared. -/
def Incomparable.message (i : Incomparable) : String :=
  "'" ++ i.comparison.sign
    ++ "' not supported between instances of '" ++ i.left
    ++ "' and '" ++ i.right ++ "'"

------------------------------------------------------------
-- The Order of Values
------------------------------------------------------------

namespace Value

/- The name of a kind where comparisons are refused. -/
def qualifiedKind : Value → String
  | .instant _ => "datetime.datetime"
  | v => v.kind

/- Texts are ordered by code points. -/
def compareTexts (s t : String) : Ordering :=
  compare (s.toList.map Char.toNat) (t.toList.map Char.toNat)

/- Byte strings are ordered by their bytes. -/
def compareBytes (xs ys : List UInt8) : Ordering :=
  compare (xs.map UInt8.toNat) (ys.map UInt8.toNat)

/- All members of the first set are in the second. -/
def included (xs ys : List Value) : Bool :=
  xs.all (fun x => x.memberOf ys)

/- Sets are ordered by inclusion. -/
def orderedSets
    (c : Comparison)
    (xs ys : List Value) : Bool :=
  match c with
  | .less => xs.length < ys.length && included xs ys
  | .atMost => xs.length ≤ ys.length && included xs ys
  | .greater => ys.length < xs.length && included ys xs
  | .atLeast => ys.length ≤ xs.length && included ys xs

/- The members of a set of either sort. -/
def members? : Value → Option (List Value)
  | .set items => some items
  | .frozenset items => some items
  | _ => none

/- Compare two values that hold no other values. -/
def orderedAtoms
    (c : Comparison)
    (a b : Value) : Except Incomparable Bool :=
  match a.magnitude?, b.magnitude? with
  | some m, some n =>
      .ok ((m.compare? n).any c.accepts)
  | _, _ =>
      match a, b with
      | .str s, .str t => .ok (c.accepts (compareTexts s t))
      | .bytes xs, .bytes ys =>
          .ok (c.accepts (compareBytes xs ys))
      | .instant m, .instant n => .ok (c.accepts (compare m n))
      | a, b =>
          match a.members?, b.members? with
          | some xs, some ys => .ok (orderedSets c xs ys)
          | _, _ =>
              .error
                { comparison := c
                  left := a.qualifiedKind
                  right := b.qualifiedKind }

mutual

/- Whether a comparison holds between two values. -/
def ordered
    (c : Comparison) :
    Value → Value → Except Incomparable Bool
  | .list xs, b =>
      match b with
      | .list ys => orderedItems c xs ys
      | b => orderedAtoms c (.list xs) b
  | .tuple xs, b =>
      match b with
      | .tuple ys => orderedItems c xs ys
      | b => orderedAtoms c (.tuple xs) b
  | a, b => orderedAtoms c a b

/-
  Sequences compare by the first items that differ, or by
  length when there are none.
-/
def orderedItems
    (c : Comparison) :
    List Value → List Value → Except Incomparable Bool
  | [], ys => .ok (c.accepts (compare 0 ys.length))
  | x :: xs, ys =>
      match ys with
      | [] => .ok (c.accepts .gt)
      | y :: ys =>
          if same x y then orderedItems c xs ys
          else ordered c x y

end

end Value

end FactBase
