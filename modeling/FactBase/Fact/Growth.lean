import FactBase.Fault
import FactBase.Fact.Held

/-
  This file defines how collections that facts hold can grow.
  Where two attributes have one ident, an entity shows their
  values under one key, and the values of the second may be
  added to the very collection that a fact of the first
  holds.  The collection then has grown in every database
  that has the fact, and wherever it stands inside something
  else that was shown or added, be it inside itself.

  Key definitions include:
    * `Shown`
    * `Growth`
    * `Growths.holdings`
    * `Growths.current`
    * `Shown.value`
    * `Gathering`
    * `Gathering.look`
-/

------------------------------------------------------------
-- Shown Values
------------------------------------------------------------

namespace FactBase

/-
  A collection with one more value.  A set takes no value
  twice, and what is no collection stays as it is.
-/
def Value.adding
    (v added : Value) : Value :=
  match v with
  | .list items => .list (items ++ [added])
  | .set items =>
      .set
        (if added.memberOf items then items
         else items ++ [added])
  | v => v

/-
  What is shown of facts: single values, and lists and maps
  that are made to show them.  It tells which parts are held
  by facts, so that it can be looked at once they have grown.
-/
inductive Shown where
  | one (h : Held)
  | list (items : List Shown)
  | map (entries : List (Value × Shown))

namespace Shown

/- A value that no fact holds. -/
def fresh (v : Value) : Shown := .one (.fresh v)

/- The value that a fact holds. -/
def ofDatom (d : Datom) : Shown := .one (.ofDatom d)

mutual

/- The value that is shown, given what facts hold by now. -/
def valueWith
    (held : Held → Value) : Shown → Value
  | .one h => held h
  | .list items => .list (itemsWith held items)
  | .map entries => .map (entriesWith held entries)

/- The values of all items. -/
def itemsWith
    (held : Held → Value) : List Shown → List Value
  | [] => []
  | s :: items => valueWith held s :: itemsWith held items

/- The entries with their values. -/
def entriesWith
    (held : Held → Value) :
    List (Value × Shown) → List (Value × Value)
  | [] => []
  | (k, s) :: entries =>
      (k, valueWith held s) :: entriesWith held entries

end

/- All items are looked at one by one. -/
theorem itemsWith_eq_map
    (held : Held → Value)
    (items : List Shown) :
    itemsWith held items = items.map (valueWith held) := by
  induction items with
  | nil => simp [itemsWith]
  | cons s items ih => simp [itemsWith, ih]

end Shown

------------------------------------------------------------
-- Growth
------------------------------------------------------------

/-
  How a collection has grown: where it comes from, what it
  was when it was stored, and what was added to it in order.
-/
structure Growth where
  origin : Origin
  start : Value
  added : List Shown

/- The growth of all collections that have grown. -/
abbrev Growths := List Growth

namespace Growths

/- How the collection of an origin has grown, if it has. -/
def of?
    (origin : Origin)
    (growths : Growths) : Option Growth :=
  growths.find? (fun g => g.origin == origin)

/-
  Add something to the collection of an origin.  What the
  collection is now counts only if it has not grown before.
-/
def add
    (origin : Origin)
    (now : Value)
    (s : Shown) : Growths → Growths
  | [] => [{ origin := origin, start := now, added := [s] }]
  | g :: growths =>
      if g.origin == origin then
        { g with added := g.added ++ [s] } :: growths
      else g :: add origin now s growths

/-
  What is held by now at an origin, inside collections of
  given origins.  One of these is not shown again, so every
  step down enters another collection that has grown.
-/
def within
    (growths : Growths) : Nat → List Origin → Holdings
  | depth, around, origin =>
      match growths.of? origin with
      | none => none
      | some g =>
          if around.contains origin then
            some (.enclosing origin)
          else
            match depth with
            | 0 => some g.start
            | depth + 1 =>
                let now := within growths depth (origin :: around)
                let added :=
                  g.added.map (Shown.valueWith (Held.now now))
                let whole :=
                  added.foldl Value.adding (g.start.renewed now)
                some (whole.closed origin)

/-
  What is held by now.  No more collections can stand one
  inside the other than have grown.
-/
def holdings (growths : Growths) : Holdings :=
  growths.within growths.length []

/- The value that is held by now. -/
def current
    (growths : Growths)
    (h : Held) : Value :=
  h.now growths.holdings

/- Nothing has changed where there is no growth. -/
theorem holdings_nil :
    holdings [] = .unchanged := by
  funext origin
  simp [holdings, within, of?, Holdings.unchanged]

/- Nothing has grown where there is no growth. -/
@[simp]
theorem current_nil (h : Held) :
    current [] h = h.value := by
  unfold current
  rw [holdings_nil, Held.now_unchanged]

end Growths

/- The value that is shown. -/
def Shown.value
    (growths : Growths)
    (s : Shown) : Value :=
  s.valueWith growths.current

------------------------------------------------------------
-- Gatherings
------------------------------------------------------------

/-
  A computation that gathers values of facts and may fail.
  Collections that facts hold may grow by it, also if it
  fails later.
-/
abbrev Gathering :=
  ExceptT Fault (StateM Growths)

namespace Gathering

/- Take over an outcome. -/
def lift
    {α : Type}
    (outcome : Outcome α) : Gathering α :=
  (outcome : Except Fault α)

/- Add something to a collection that a fact holds. -/
def add
    (origin : Origin)
    (now : Value)
    (s : Shown) : Gathering Unit :=
  modify (Growths.add origin now s)

/- The value that is shown, once nothing more is added. -/
def look (s : Shown) : Gathering Value := do
  return s.value (← get)

/- The values of entries, once nothing more is added. -/
def lookThrough
    (entries : List (Value × Shown)) :
    Gathering (List (Value × Value)) := do
  return Shown.entriesWith (← get).current entries

end Gathering

end FactBase
