import FactBase.Value.Endless

/-
  This file defines the values that facts hold.  Such a value
  is known by its origin, and what is held at an origin can
  change; a database that is a value itself shows by its
  facts what they hold by now.

  Key definitions include:
    * `Held`
    * `Holdings`
    * `Value.renewed`
    * `Held.now`

  Key theorems include:
    * `Value.renewed_unchanged`
-/

------------------------------------------------------------
-- Held Values
------------------------------------------------------------

namespace FactBase

/-
  A value, together with its origin if it is one that a fact
  holds.
-/
structure Held where
  value : Value
  origin : Option Origin

namespace Held

/- A value that no fact holds. -/
def fresh (v : Value) : Held where
  value := v
  origin := none

/- The value that a fact holds. -/
def ofDatom (d : Datom) : Held where
  value := d.value
  origin := some d.origin

end Held

------------------------------------------------------------
-- Changed Holdings
------------------------------------------------------------

/- What is held by now at each origin where it has changed. -/
abbrev Holdings := Origin → Option Value

namespace Holdings

/- Nothing has changed. -/
def unchanged : Holdings := fun _ => none

end Holdings

namespace Value

mutual

/-
  A value in which the facts of databases hold what they hold
  by now.
-/
def renewed (now : Holdings) : Value → Value
  | .list items => .list (renewedItems now items)
  | .tuple items => .tuple (renewedItems now items)
  | .map entries => .map (renewedEntries now entries)
  | .set items => .set (renewedItems now items)
  | .frozenset items => .frozenset (renewedItems now items)
  | .lit v => .lit (renewed now v)
  | .database db => .database (renewedDatabase now db)
  | v => v

/- All items are renewed. -/
def renewedItems (now : Holdings) : List Value → List Value
  | [] => []
  | v :: vs => renewed now v :: renewedItems now vs

/- All keys and values of entries are renewed. -/
def renewedEntries (now : Holdings) :
    List (Value × Value) → List (Value × Value)
  | [] => []
  | (k, v) :: entries =>
      (renewed now k, renewed now v)
        :: renewedEntries now entries

/- The values of all facts of a database are renewed. -/
def renewedDatabase
    (now : Holdings) : DatabaseOf Value → DatabaseOf Value
  | ⟨basis, datoms, idents, attributes, partitions⟩ =>
      { basis := basis
        datoms := renewedDatoms now datoms
        idents := idents
        attributes := attributes
        partitions := partitions }

/- All facts hold what they hold by now. -/
def renewedDatoms (now : Holdings) :
    List (DatomOf Value) → List (DatomOf Value)
  | [] => []
  | ⟨entity, attr, value, tx, added, origin⟩ :: datoms =>
      { entity := entity
        attr := attr
        value := (now origin).getD (renewed now value)
        tx := tx
        added := added
        origin := origin } :: renewedDatoms now datoms

end

mutual

/- A value stays as it is where nothing has changed. -/
theorem renewed_unchanged :
    ∀ v : Value, renewed .unchanged v = v
  | .list items => by
      rw [renewed, renewedItems_unchanged items]
  | .tuple items => by
      rw [renewed, renewedItems_unchanged items]
  | .map entries => by
      rw [renewed, renewedEntries_unchanged entries]
  | .set items => by
      rw [renewed, renewedItems_unchanged items]
  | .frozenset items => by
      rw [renewed, renewedItems_unchanged items]
  | .lit v => by
      rw [renewed, renewed_unchanged v]
  | .database db => by
      rw [renewed, renewedDatabase_unchanged db]
  | .null => by simp only [renewed]
  | .bool _ => by simp only [renewed]
  | .int _ => by simp only [renewed]
  | .float _ => by simp only [renewed]
  | .str _ => by simp only [renewed]
  | .bytes _ => by simp only [renewed]
  | .instant _ => by simp only [renewed]
  | .var _ => by simp only [renewed]
  | .wildcard _ => by simp only [renewed]
  | .tempid _ _ => by simp only [renewed]
  | .schema _ => by simp only [renewed]
  | .context _ => by simp only [renewed]
  | .cyclic _ _ => by simp only [renewed]
  | .enclosing _ => by simp only [renewed]

/- Items stay as they are. -/
theorem renewedItems_unchanged :
    ∀ items : List Value,
      renewedItems .unchanged items = items
  | [] => by rw [renewedItems]
  | v :: vs => by
      rw [renewedItems, renewed_unchanged v,
        renewedItems_unchanged vs]

/- Entries stay as they are. -/
theorem renewedEntries_unchanged :
    ∀ entries : List (Value × Value),
      renewedEntries .unchanged entries = entries
  | [] => by rw [renewedEntries]
  | (k, v) :: entries => by
      rw [renewedEntries, renewed_unchanged k,
        renewed_unchanged v, renewedEntries_unchanged entries]

/- A database stays as it is. -/
theorem renewedDatabase_unchanged :
    ∀ db : DatabaseOf Value,
      renewedDatabase .unchanged db = db
  | ⟨_, datoms, _, _, _⟩ => by
      rw [renewedDatabase, renewedDatoms_unchanged datoms]

/- Facts stay as they are. -/
theorem renewedDatoms_unchanged :
    ∀ datoms : List (DatomOf Value),
      renewedDatoms .unchanged datoms = datoms
  | [] => by rw [renewedDatoms]
  | ⟨_, _, value, _, _, _⟩ :: datoms => by
      rw [renewedDatoms, renewed_unchanged value,
        renewedDatoms_unchanged datoms]
      rfl

end

end Value

/- What is held by now. -/
def Held.now
    (now : Holdings)
    (h : Held) : Value :=
  (h.origin.bind now).getD (h.value.renewed now)

/- What is held stays as it is where nothing has changed. -/
@[simp]
theorem Held.now_unchanged (h : Held) :
    h.now .unchanged = h.value := by
  unfold Held.now
  rw [Value.renewed_unchanged]
  cases h.origin <;> rfl

end FactBase
