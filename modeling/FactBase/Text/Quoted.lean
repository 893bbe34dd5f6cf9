import FactBase.Text.Printable

/-
  This file writes texts and byte strings in quotes, with
  escapes for what cannot stand for itself.

  Key definitions include:
    * `Text.hexDigits`
    * `Text.quoteMark`
    * `Text.escape`
    * `Text.quoted`
    * `Text.quotedBytes`
    * `Text.jsonQuoted`
-/

------------------------------------------------------------
-- Hexadecimal Escapes
------------------------------------------------------------

namespace FactBase

namespace Text

/- The lower-case hexadecimal digits of `n`, padded to `width`. -/
def hexDigits
    (width n : Nat) : List Char :=
  let digits := Nat.toDigits 16 n
  List.replicate (width - digits.length) '0' ++ digits

/-
  The numbered escape of a code point: two, four or eight
  hexadecimal digits, whichever suffices.
-/
def numberedEscape (n : Nat) : List Char :=
  if n < 0x100 then
    '\\' :: 'x' :: hexDigits 2 n
  else if n < 0x10000 then
    '\\' :: 'u' :: hexDigits 4 n
  else
    '\\' :: 'U' :: hexDigits 8 n

------------------------------------------------------------
-- Quoted Texts
------------------------------------------------------------

/- The single quotation mark. -/
def singleQuote : Char := Char.ofNat 0x27

/- The double quotation mark. -/
def doubleQuote : Char := Char.ofNat 0x22

/-
  The mark that encloses a text: the single one, unless the
  text holds it and does not hold the double one.
-/
def quoteMark (cs : List Char) : Char :=
  if cs.contains singleQuote && !cs.contains doubleQuote then
    doubleQuote
  else
    singleQuote

/- How one character is written between `mark`s. -/
def escape
    (mark c : Char) : List Char :=
  if c == mark || c == '\\' then ['\\', c]
  else if c == '\n' then ['\\', 'n']
  else if c == '\r' then ['\\', 'r']
  else if c == '\t' then ['\\', 't']
  else if isPrintable c then [c]
  else numberedEscape c.toNat

/- A text in quotes. -/
def quoted (s : String) : String :=
  let cs := s.toList
  let mark := quoteMark cs
  String.ofList
    (mark :: cs.flatMap (escape mark) ++ [mark])

/-
  A byte string in quotes, after the letter `b`.  Each byte
  is written as the character of its number, and those from
  128 on are not printable.
-/
def quotedBytes (bytes : List UInt8) : String :=
  let cs := bytes.map (fun b => Char.ofNat b.toNat)
  let mark := quoteMark cs
  let body := cs.flatMap (fun c =>
    if c.toNat < 0x80 then escape mark c
    else numberedEscape c.toNat)
  String.ofList ('b' :: mark :: body ++ [mark])

------------------------------------------------------------
-- Quoted Texts of a JSON Document
------------------------------------------------------------

/-
  How one character is written in a JSON string.  Only what
  must be escaped is.
-/
def jsonEscape (c : Char) : List Char :=
  if c == doubleQuote || c == '\\' then ['\\', c]
  else if c == '\n' then ['\\', 'n']
  else if c == '\r' then ['\\', 'r']
  else if c == '\t' then ['\\', 't']
  else if c.toNat == 0x08 then ['\\', 'b']
  else if c.toNat == 0x0C then ['\\', 'f']
  else if c.toNat < 0x20 then
    '\\' :: 'u' :: hexDigits 4 c.toNat
  else [c]

/- A JSON string. -/
def jsonQuoted (s : String) : String :=
  String.ofList
    (doubleQuote :: s.toList.flatMap jsonEscape
      ++ [doubleQuote])

end Text

end FactBase
