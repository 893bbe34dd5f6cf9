import FactBase.Text.DecimalDigit

/-
  This file reads integers from texts: decimal digits of any
  script, an optional sign, single low lines between digits,
  and blanks around the whole.

  Key definitions include:
    * `Text.isBlank`
    * `Text.isAsciiBlank`
    * `Text.readDigits?`
    * `Text.readInteger?`
-/

------------------------------------------------------------
-- Blanks
------------------------------------------------------------

namespace FactBase

namespace Text

/- The blanks among the first 128 code points. -/
def isAsciiBlank (c : Char) : Bool :=
  (0x09 ≤ c.toNat && c.toNat ≤ 0x0D) || c == ' '

/- The blanks that may stand around a numeral. -/
def isBlank (c : Char) : Bool :=
  let n := c.toNat
  isAsciiBlank c || n == 0x85 || n == 0xA0 || n == 0x1680
    || (0x2000 ≤ n && n ≤ 0x200A) || n == 0x2028
    || n == 0x2029 || n == 0x202F || n == 0x205F
    || n == 0x3000

------------------------------------------------------------
-- Integers
------------------------------------------------------------

/- The most digits that a numeral may have. -/
def mostDigits : Nat := 4300

/-
  The value of a run of digits, in which a single low line
  may stand between two digits.  `value` and `count` tell
  what was read so far.
-/
def readDigits?
    (value count : Nat) :
    List Char → Option Nat
  | [] =>
      if 0 < count && count ≤ mostDigits then some value
      else none
  | '_' :: c :: cs =>
      if count == 0 then none
      else
        match digitValue? c with
        | some d =>
            readDigits? (value * 10 + d) (count + 1) cs
        | none => none
  | c :: cs =>
      match digitValue? c with
      | some d =>
          readDigits? (value * 10 + d) (count + 1) cs
      | none => none

/- Drop the characters of a class at both ends. -/
def trimmed
    (blank : Char → Bool)
    (cs : List Char) : List Char :=
  ((cs.dropWhile blank).reverse.dropWhile blank).reverse

/- A numeral without blanks: an optional sign and digits. -/
def readSigned? : List Char → Option Int
  | '-' :: cs =>
      (readDigits? 0 0 cs).map (fun n => -(n : Int))
  | '+' :: cs => (readDigits? 0 0 cs).map (fun n => (n : Int))
  | cs => (readDigits? 0 0 cs).map (fun n => (n : Int))

/- The integer that a text spells, if it spells one. -/
def readInteger? (s : String) : Option Int :=
  readSigned? (trimmed isBlank s.toList)

/-
  The integer that a byte string spells.  Bytes from 128 on
  belong to no numeral.
-/
def readIntegerOfBytes? (bytes : List UInt8) : Option Int :=
  if bytes.all (fun b => b.toNat < 0x80) then
    readSigned?
      (trimmed isAsciiBlank
        (bytes.map (fun b => Char.ofNat b.toNat)))
  else
    none

end Text

end FactBase
