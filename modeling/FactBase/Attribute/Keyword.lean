import FactBase.Text.WordCharacter
import FactBase.Value.Basic

/-
  This file defines keywords, the names of attributes,
  partitions and enumerated entities.  A keyword is one part,
  or two parts joined by a slash, the first of which is its
  namespace.  An underscore after the slash turns an
  attribute around.

  Key definitions include:
    * `Keyword.isPart`
    * `Keyword.isKeyword`
    * `Keyword.namespace?`
    * `Keyword.forward`
-/

------------------------------------------------------------
-- The Form of Keywords
------------------------------------------------------------

namespace FactBase

namespace Keyword

/- The signs that may stand anywhere in a part. -/
def signs : List Char :=
  ['*', '+', '!', '<', '>', '=', '.', '-']

/- The characters that may start a part. -/
def isInitial (c : Char) : Bool :=
  c.isAlpha || c == '_' || signs.contains c

/- The characters that may follow in a part. -/
def isConstituent (c : Char) : Bool :=
  Text.isWordCharacter c || c == '?' || signs.contains c

/- One part of a keyword. -/
def isPart : List Char → Bool
  | [] => false
  | c :: cs => isInitial c && cs.all isConstituent

/- The characters of one keyword. -/
def isSpelled (cs : List Char) : Bool :=
  let head := cs.takeWhile (· != '/')
  match cs.dropWhile (· != '/') with
  | [] => isPart head
  | _ :: tail => isPart head && isPart tail

/- The text without a line feed at its very end. -/
def withoutFinalBreak (cs : List Char) : List Char :=
  if cs.getLast? == some '\n' then cs.dropLast else cs

/- A keyword may be followed by a single line feed. -/
def isKeyword (s : String) : Bool :=
  isSpelled (withoutFinalBreak s.toList)

/- No text that starts with a slash is a keyword. -/
theorem isSpelled_slash (cs : List Char) :
    isSpelled ('/' :: cs) = false := by
  simp [isSpelled, isPart]

------------------------------------------------------------
-- Namespaces and Direction
------------------------------------------------------------

/- The part before the first slash, if there is a slash. -/
def namespace? (s : String) : Option String :=
  let cs := s.toList
  if cs.contains '/' then
    some (String.ofList (cs.takeWhile (· != '/')))
  else
    none

/-
  The attribute that a name stands for when read forward: an
  underscore right after the first slash is dropped.
-/
def forward (s : String) : String :=
  let cs := s.toList
  match cs.dropWhile (· != '/') with
  | '/' :: '_' :: name =>
      String.ofList
        (cs.takeWhile (· != '/') ++ '/' :: name)
  | _ => s

/- The namespaces whose names need no declaration. -/
def builtinNamespaces : List String :=
  ["db", "db.install", "db.fn", "db.part", "db.type",
   "db.cardinality", "db.unique"]

end Keyword

/- The value is a keyword. -/
def Value.isKeyword : Value → Bool
  | .str s => Keyword.isKeyword s
  | _ => false

end FactBase
