import FactBase.Number.Binary64

/-
  This file writes a double-precision number with the fewest
  digits that read back to it, and reads such a text again.

  Key definitions include:
    * `Decimal`
    * `Decimal.readsBack`
    * `Decimal.shortest`
    * `Binary64.text`
    * `Binary64.ofText?`
-/

------------------------------------------------------------
-- Decimals and the Rounding Interval
------------------------------------------------------------

namespace FactBase

/- The number `digits * 10 ^ exponent`. -/
structure Decimal where
  digits : Nat
  exponent : Int
deriving DecidableEq, Repr

namespace Decimal

/- Order a decimal against `n * 2 ^ j`, exactly. -/
def compareTo
    (d : Decimal)
    (n : Nat)
    (j : Int) : Ordering :=
  compare
    (d.digits * Nat.pow 10 d.exponent.toNat
      * Nat.pow 2 (-j).toNat)
    (n * Nat.pow 2 j.toNat * Nat.pow 10 (-d.exponent).toNat)

/-
  A decimal reads back to `m * 2 ^ e` when it lies between
  the halfway points to the two neighbours.  The halfway
  points belong to the even significand.  Below a power of
  two the neighbour is only half as far away.
-/
def readsBack
    (m : Nat)
    (e : Int)
    (d : Decimal) : Bool :=
  let narrow := m == Nat.pow 2 52 && e > Binary64.leastExponent
  let low := if narrow then 4 * m - 1 else 4 * m - 2
  let below := d.compareTo low (e - 2)
  let above := d.compareTo (4 * m + 2) (e - 2)
  if m % 2 == 0 then
    below != .lt && above != .gt
  else
    below == .gt && above == .lt

/-
  The least power of ten above `m * 2 ^ e`.  The binary
  logarithm leaves four candidates.
-/
def scale
    (m : Nat)
    (e : Int) : Int :=
  let guess := ((m.log2 : Int) + e) * 30103 / 100000
  let candidates := [guess - 1, guess, guess + 1]
  match candidates.find? (fun k =>
      compareTo ⟨1, k⟩ m e == .gt) with
  | some k => k
  | none => guess + 2

/-
  The decimal nearest to `m * 2 ^ e` among the two
  neighbouring multiples of `10 ^ g` that read back, if any
  does.  Of two equally near ones the even one is taken.
-/
def onGrid?
    (m : Nat)
    (e : Int)
    (g : Int) : Option Decimal :=
  let num := m * Nat.pow 2 e.toNat * Nat.pow 10 (-g).toNat
  let den := Nat.pow 2 (-e).toNat * Nat.pow 10 g.toNat
  let low : Decimal := ⟨num / den, g⟩
  let high : Decimal := ⟨num / den + 1, g⟩
  match readsBack m e low, readsBack m e high with
  | true, true =>
      match compare (2 * num) ((2 * low.digits + 1) * den) with
      | .lt => some low
      | .gt => some high
      | .eq => some (if low.digits % 2 == 0 then low else high)
  | true, false => some low
  | false, true => some high
  | false, false => none

/- Move trailing zeros of the digits into the exponent. -/
def stripZeros : Nat → Decimal → Decimal
  | 0, d => d
  | n + 1, d =>
      if d.digits != 0 && d.digits % 10 == 0 then
        stripZeros n ⟨d.digits / 10, d.exponent + 1⟩
      else
        d

/-
  The decimal with the fewest digits that reads back to the
  positive number `m * 2 ^ e`.  Seventeen digits suffice.
-/
def shortest
    (m : Nat)
    (e : Int) : Decimal :=
  let k := scale m e
  let found := (List.range 17).findSome? (fun (n : Nat) =>
    onGrid? m e (k - 1 - (n : Int)))
  match found with
  | some d => stripZeros 17 d
  | none => ⟨m * Nat.pow 2 e.toNat * Nat.pow 5 (-e).toNat, min e 0⟩

end Decimal

------------------------------------------------------------
-- Written Numbers
------------------------------------------------------------

namespace Binary64

/-
  Lay out the digits of a number whose leading digit counts
  powers of ten `k`.  Exponents from -4 to 15 are written
  positionally, with at least one digit after the point; all
  others with a signed exponent of at least two digits.
-/
def layout
    (digits : List Char)
    (k : Int) : String :=
  let n := digits.length
  if -4 ≤ k ∧ k < 0 then
    "0." ++ String.ofList
      (List.replicate (-k - 1).toNat '0' ++ digits)
  else if 0 ≤ k ∧ k < 16 then
    let whole := k.toNat + 1
    if n ≤ whole then
      String.ofList
        (digits ++ List.replicate (whole - n) '0') ++ ".0"
    else
      String.ofList (digits.take whole) ++ "."
        ++ String.ofList (digits.drop whole)
  else
    let size := toString k.natAbs
    let size := if size.length < 2 then "0" ++ size else size
    let power := (if k < 0 then "e-" else "e+") ++ size
    let fraction :=
      if n ≤ 1 then ""
      else "." ++ String.ofList (digits.drop 1)
    String.ofList (digits.take 1) ++ fraction ++ power

/-
  The text of a number: the fewest digits that read back to
  it, the sign of zero included.
-/
def text : Binary64 → String
  | .undefined _ => "nan"
  | .infinite negative => if negative then "-inf" else "inf"
  | .finite negative m e =>
      let mark := if negative then "-" else ""
      if m == 0 then
        mark ++ "0.0"
      else
        let d := Decimal.shortest m e
        let digits := Nat.toDigits 10 d.digits
        mark ++ layout digits
          (d.exponent + digits.length - 1)

/- The value of a run of decimal digits. -/
def digitsValue (cs : List Char) : Nat :=
  cs.foldl (fun n c => n * 10 + (c.toNat - '0'.toNat)) 0

/- An exponent: an optional sign and digits. -/
def exponentValue : List Char → Int
  | '-' :: cs => -(digitsValue cs : Int)
  | '+' :: cs => digitsValue cs
  | cs => digitsValue cs

/-
  Read an unsigned number: digits, an optional fraction and
  an optional exponent.
-/
def ofUnsigned?
    (negative : Bool)
    (cs : List Char) : Option Binary64 :=
  let whole := cs.takeWhile Char.isDigit
  let rest := cs.dropWhile Char.isDigit
  let (fraction, rest) :=
    match rest with
    | '.' :: rest =>
        (rest.takeWhile Char.isDigit, rest.dropWhile Char.isDigit)
    | rest => ([], rest)
  let digits := whole ++ fraction
  if digits.isEmpty then
    none
  else
    match rest with
    | [] =>
        some (ofDecimal negative (digitsValue digits)
          (-(fraction.length : Int)))
    | 'e' :: power =>
        some (ofDecimal negative (digitsValue digits)
          (exponentValue power - fraction.length))
    | _ => none

/-
  Read a written number.  The occurrence marks an undefined
  result, should the text name one.
-/
def ofText?
    (occurrence : Nat)
    (s : String) : Option Binary64 :=
  let (negative, cs) :=
    match s.toList with
    | '-' :: cs => (true, cs)
    | cs => (false, cs)
  match String.ofList cs with
  | "nan" => some (.undefined occurrence)
  | "inf" => some (.infinite negative)
  | _ => ofUnsigned? negative cs

end Binary64

end FactBase
