import Mathlib.Data.List.Basic
import Mathlib.Tactic.Tauto
import FactBase.Value.Endless

/-
  This file defines which values are proper: those that a
  caller can write down.  No list in them stands inside
  itself, and no set and no map in them holds anything twice.

  Key definitions include:
    * `Value.parts`
    * `Value.tidy`
    * `Value.proper`

  Key theorems include:
    * `Value.inductionOnParts`
    * `Value.proper_iff`
    * `Value.not_endless_of_proper`
-/

------------------------------------------------------------
-- Parts of a Value
------------------------------------------------------------

namespace FactBase

namespace Value

/- The values that a value is made of. -/
def parts : Value → List Value
  | .list items => items
  | .tuple items => items
  | .map entries =>
      entries.map Prod.fst ++ entries.map Prod.snd
  | .set items => items
  | .frozenset items => items
  | .lit v => [v]
  | .schema s => [s.index, s.fulltext, s.component, s.noHistory]
  | .context c =>
      [c.bindings, c.projection, c.clauses, c.preds, c.rules]
  | _ => []

/- A part is smaller than the whole. -/
theorem sizeOf_lt_of_mem_parts
    {v x : Value}
    (h : x ∈ v.parts) : sizeOf x < sizeOf v := by
  cases v with
  | list items =>
      have hItem : x ∈ items := h
      have hLess := List.sizeOf_lt_of_mem hItem
      simp only [list.sizeOf_spec]
      omega
  | tuple items =>
      have hItem : x ∈ items := h
      have hLess := List.sizeOf_lt_of_mem hItem
      simp only [tuple.sizeOf_spec]
      omega
  | map entries =>
      have hEntry : ∃ e ∈ entries, x = e.1 ∨ x = e.2 := by
        rcases List.mem_append.mp h with h | h
        · rcases List.mem_map.mp h with ⟨e, he, rfl⟩
          exact ⟨e, he, .inl rfl⟩
        · rcases List.mem_map.mp h with ⟨e, he, rfl⟩
          exact ⟨e, he, .inr rfl⟩
      rcases hEntry with ⟨⟨k, w⟩, he, hx⟩
      have hLess := List.sizeOf_lt_of_mem he
      simp only [Prod.mk.sizeOf_spec] at hLess
      simp only [map.sizeOf_spec]
      rcases hx with rfl | rfl <;> omega
  | set items =>
      have hItem : x ∈ items := h
      have hLess := List.sizeOf_lt_of_mem hItem
      simp only [set.sizeOf_spec]
      omega
  | frozenset items =>
      have hItem : x ∈ items := h
      have hLess := List.sizeOf_lt_of_mem hItem
      simp only [frozenset.sizeOf_spec]
      omega
  | lit w =>
      rcases List.mem_singleton.mp h with rfl
      simp only [lit.sizeOf_spec]
      omega
  | schema s =>
      rcases s
      simp only [parts, List.mem_cons, List.not_mem_nil,
        or_false] at h
      simp only [schema.sizeOf_spec, SchemaOf.mk.sizeOf_spec]
      rcases h with rfl | rfl | rfl | rfl <;> omega
  | context c =>
      rcases c
      simp only [parts, List.mem_cons, List.not_mem_nil,
        or_false] at h
      simp only [context.sizeOf_spec, ContextOf.mk.sizeOf_spec]
      rcases h with rfl | rfl | rfl | rfl | rfl <;> omega
  | _ => exact absurd h List.not_mem_nil

/-
  What holds of every value of whose parts it holds, holds of
  all values.
-/
theorem inductionOnParts
    {P : Value → Prop}
    (h : ∀ v, (∀ x ∈ v.parts, P x) → P v)
    (v : Value) : P v := by
  induction hSize : sizeOf v using Nat.strongRecOn
      generalizing v with
  | _ n ih =>
      apply h
      intro x hx
      have hLess := sizeOf_lt_of_mem_parts hx
      exact ih (sizeOf x) (hSize ▸ hLess) x rfl

------------------------------------------------------------
-- Proper Values
------------------------------------------------------------

/- No item is taken for a later one. -/
def apart : List Value → Bool
  | [] => true
  | v :: vs => vs.all (fun w => !same v w) && apart vs

/- The items of a list are apart. -/
theorem apart_iff {items : List Value} :
    apart items = true ↔
      items.Pairwise (fun v w => same v w = false) := by
  induction items with
  | nil => simp [apart]
  | cons v vs ih => simp [apart, ih]

/-
  The value itself is in order: it is no list that stands
  inside itself, and no set or map that has anything twice.
-/
def tidy : Value → Bool
  | .map entries => apart (entries.map Prod.fst)
  | .set items => apart items
  | .frozenset items => apart items
  | .cyclic _ _ => false
  | .enclosing _ => false
  | _ => true

mutual

/- The value is in order through and through. -/
def proper : Value → Bool
  | .list items => properItems items
  | .tuple items => properItems items
  | .map entries =>
      tidy (.map entries) && properEntries entries
  | .set items => tidy (.set items) && properItems items
  | .frozenset items =>
      tidy (.frozenset items) && properItems items
  | .lit v => proper v
  | .schema s => properSchema s
  | .context c => properContext c
  | .cyclic _ _ => false
  | .enclosing _ => false
  | _ => true

/- All items are in order. -/
def properItems : List Value → Bool
  | [] => true
  | v :: vs => proper v && properItems vs

/- All keys and values are in order. -/
def properEntries : List (Value × Value) → Bool
  | [] => true
  | (k, v) :: entries =>
      proper k && proper v && properEntries entries

/- All switches are in order. -/
def properSchema : SchemaOf Value → Bool
  | ⟨_, _, _, _, index, fulltext, component, noHistory, _⟩ =>
      proper index && proper fulltext
        && proper component && proper noHistory

/- All sections are in order. -/
def properContext : ContextOf Value → Bool
  | ⟨bindings, projection, clauses, preds, rules⟩ =>
      proper bindings && proper projection
        && proper clauses && proper preds
        && proper rules

end

/- Items are in order one by one. -/
theorem properItems_iff {items : List Value} :
    properItems items = true ↔
      ∀ v ∈ items, proper v = true := by
  induction items with
  | nil => simp [properItems]
  | cons v vs ih => simp [properItems, ih]

/- Entries are in order one by one. -/
theorem properEntries_iff {entries : List (Value × Value)} :
    properEntries entries = true ↔
      ∀ v ∈ (Value.map entries).parts, proper v = true := by
  simp only [parts, List.forall_mem_append,
    List.forall_mem_map]
  induction entries with
  | nil => simp [properEntries]
  | cons e entries ih =>
      rcases e with ⟨k, v⟩
      simp only [properEntries, Bool.and_eq_true, ih,
        List.forall_mem_cons]
      tauto

/-
  A value is in order through and through if it is itself and
  its parts are.
-/
theorem proper_iff {v : Value} :
    v.proper = true ↔
      v.tidy = true ∧ ∀ x ∈ v.parts, x.proper = true := by
  cases v with
  | list items => simp [proper, tidy, parts, properItems_iff]
  | tuple items => simp [proper, tidy, parts, properItems_iff]
  | map entries => rw [proper, Bool.and_eq_true, properEntries_iff]
  | set items => simp [proper, tidy, parts, properItems_iff]
  | frozenset items =>
      simp [proper, tidy, parts, properItems_iff]
  | lit v => simp [proper, tidy, parts]
  | schema s =>
      rcases s
      simp [proper, properSchema, tidy, parts, and_assoc]
  | context c =>
      rcases c
      simp [proper, properContext, tidy, parts, and_assoc]
  | _ => simp [proper, tidy, parts]

/- The parts of a proper value are proper. -/
theorem proper_of_mem_parts
    {v x : Value}
    (h : v.proper = true)
    (hx : x ∈ v.parts) : x.proper = true :=
  (proper_iff.mp h).2 x hx

/- The items of a proper sequence are proper. -/
theorem proper_of_mem_sequence
    {v x : Value}
    {items : List Value}
    (h : v.proper = true)
    (hItems : v.sequence? = some items)
    (hx : x ∈ items) : x.proper = true := by
  cases v with
  | list xs =>
      rw [← Option.some.inj hItems] at hx
      exact proper_of_mem_parts h hx
  | tuple xs =>
      rw [← Option.some.inj hItems] at hx
      exact proper_of_mem_parts h hx
  | cyclic origin xs => cases h
  | _ => cases hItems

private theorem endlessItems_eq_false
    {items : List Value}
    (h : ∀ v ∈ items, endless v = false) :
    endlessItems items = false := by
  induction items with
  | nil => simp [endlessItems]
  | cons v vs ih =>
      rw [List.forall_mem_cons] at h
      simp [endlessItems, h.1, ih h.2]

private theorem endlessEntries_eq_false
    {entries : List (Value × Value)}
    (h : ∀ e ∈ entries, endless e.2 = false) :
    endlessEntries entries = false := by
  induction entries with
  | nil => simp [endlessEntries]
  | cons e entries ih =>
      rcases e with ⟨k, v⟩
      rw [List.forall_mem_cons] at h
      have hFirst : endless v = false := h.1
      simp [endlessEntries, hFirst, ih h.2]

/- A proper value has an end. -/
theorem not_endless_of_proper
    {v : Value}
    (h : v.proper = true) : v.endless = false := by
  induction v using inductionOnParts with
  | h v ih =>
      rcases proper_iff.mp h with ⟨hTidy, hParts⟩
      have hEnd : ∀ x ∈ v.parts, x.endless = false :=
        fun x hx => ih x hx (hParts x hx)
      cases v with
      | list items =>
          rw [endless]
          exact endlessItems_eq_false hEnd
      | tuple items =>
          rw [endless]
          exact endlessItems_eq_false hEnd
      | map entries =>
          rw [endless]
          apply endlessEntries_eq_false
          intro e he
          apply hEnd
          simp only [parts]
          exact
            List.mem_append_right _ (List.mem_map_of_mem he)
      | cyclic origin items => simp [tidy] at hTidy
      | enclosing origin => simp [tidy] at hTidy
      | _ => rw [endless] <;> simp

end Value

end FactBase
