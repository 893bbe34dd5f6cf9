import FactBase.Fact.Database
import FactBase.Sorting.Attempt
import FactBase.Proofs.Value.Equality

/-
  This file gathers what the lookups of a database find, and
  what it means that a database extends another: whatever was
  installed stays installed.

  Key definitions include:
    * `Database.Extends`

  Key theorems include:
    * `Table.find?_isSome_iff`
    * `Table.find?_congr`
    * `Table.mem_of_find?`
    * `Table.find?_put_of_apart`
    * `Table.prefix_keys_put`
    * `Database.installed_eq_ok`
    * `Database.schemaOf?_of_installed`
    * `Database.Extends.isSome_schemaOf?`
-/

------------------------------------------------------------
-- Tables
------------------------------------------------------------

namespace FactBase

open Sorting

/- A key is found where some key is the same. -/
theorem Table.find?_isSome_iff
    {α : Type}
    {key : Value}
    {table : List (Value × α)} :
    (find? key table).isSome = true ↔
      ∃ k ∈ table.map Prod.fst, k.same key = true := by
  induction table with
  | nil => simp [find?]
  | cons e rest ih =>
      rcases e with ⟨k, x⟩
      by_cases h : k.same key = true
      · simp [find?, h]
      · simp [find?, h, ih]

/- What is found under a key is an entry of the table. -/
theorem Table.mem_of_find?
    {α : Type}
    {key : Value}
    {x : α}
    {table : List (Value × α)}
    (h : find? key table = some x) :
    ∃ k, (k, x) ∈ table ∧ k.same key = true := by
  induction table with
  | nil => cases h
  | cons e rest ih =>
      rcases e with ⟨k, y⟩
      by_cases hk : k.same key = true
      · rw [find?, if_pos hk] at h
        cases h
        exact ⟨k, List.mem_cons_self, hk⟩
      · rw [find?, if_neg hk] at h
        rcases ih h with ⟨k', hMem, hSame⟩
        exact ⟨k', List.mem_cons_of_mem _ hMem, hSame⟩

/- Putting an entry leaves what is under other keys alone. -/
theorem Table.find?_put_of_apart
    {α : Type}
    {key other : Value}
    (h : ∀ k : Value, k.same key = true → k.same other = false)
    (x : α)
    (table : List (Value × α)) :
    find? other (put key x table) = find? other table := by
  induction table with
  | nil => simp [put, find?, h key (Value.same_refl key)]
  | cons e rest ih =>
      rcases e with ⟨k, y⟩
      by_cases hk : k.same key = true
      · simp [put, find?, hk, h k hk]
      · simp [put, find?, hk, ih]

/- Putting an entry takes no key away. -/
theorem Table.prefix_keys_put
    {α : Type}
    (key : Value)
    (x : α)
    (table : List (Value × α)) :
    table.map Prod.fst <+: (put key x table).map Prod.fst := by
  induction table with
  | nil => exact List.nil_prefix
  | cons e rest ih =>
      rcases e with ⟨k, y⟩
      by_cases h : k.same key = true
      · simp [put, h]
      · simpa [put, h] using ih

/- Keys that are the same find the same entry. -/
theorem Table.find?_congr
    {α : Type}
    {key other : Value}
    (h : key.same other = true)
    (h' : other.same key = true)
    (table : List (Value × α)) :
    find? key table = find? other table := by
  induction table with
  | nil => rfl
  | cons e rest ih =>
      rcases e with ⟨k, y⟩
      have hKeys : k.same key = k.same other := by
        rw [Bool.eq_iff_iff]
        exact
          ⟨fun hk => Value.same_trans hk h,
            fun hk => Value.same_trans hk h'⟩
      rw [find?, find?, hKeys, ih]

------------------------------------------------------------
-- Databases
------------------------------------------------------------

namespace Database

/- An ident names what the table has, if it is installed. -/
theorem installed_eq_ok
    {db : Database}
    {ident : Value}
    {attr : Installed} :
    db.installed ident = .ok attr ↔
      ident.hashable = true
        ∧ Table.find? ident db.idents = some attr.eid
        ∧ db.schemaOf? attr.eid = some attr.schema := by
  unfold Database.installed Table.seek
  cases ident.hashable with
  | false => simp [bind, Except.bind]
  | true =>
      simp only [if_true, ok_bind, true_and]
      rcases Table.find? ident db.idents with _ | eid
      · simp [throw, throwThe, MonadExceptOf.throw]
      · simp only [Option.some.injEq]
        rcases hSchema : db.schemaOf? eid with _ | schema
        · refine iff_of_false ?_ ?_
          · simp [throw, throwThe, MonadExceptOf.throw]
          · rintro ⟨rfl, hOther⟩
            rw [hSchema] at hOther
            cases hOther
        · simp only [pure_eq_ok]
          constructor
          · rintro rfl
            exact ⟨rfl, hSchema⟩
          · rintro ⟨rfl, hOther⟩
            rw [hSchema] at hOther
            rcases hOther with ⟨⟩
            rfl

/- The definition of an installed attribute is in force. -/
theorem schemaOf?_of_installed
    {db : Database}
    {ident : Value}
    {attr : Installed}
    (h : db.installed ident = .ok attr) :
    db.schemaOf? attr.eid = some attr.schema :=
  (installed_eq_ok.mp h).2.2

/- What an ident is seen to name is an installed attribute. -/
theorem exists_installed
    {db : Database}
    {ident : Value}
    {eid : Int}
    (h :
      (db.installed ident).toOption.map Installed.eid
        = some eid) :
    ∃ attr, db.installed ident = .ok attr ∧ attr.eid = eid := by
  rcases hAttr : db.installed ident with fault | attr
  · rw [hAttr] at h
    cases h
  · rw [hAttr] at h
    exact ⟨attr, rfl, Option.some.inj h⟩

/- No attribute and no partition is lost. -/
structure Extends (before after : Database) : Prop where
  attributes :
    before.attributes.map Prod.fst
      <+: after.attributes.map Prod.fst
  partitions : before.partitions <+: after.partitions

/- A database extends itself. -/
theorem Extends.refl (db : Database) : db.Extends db where
  attributes := List.prefix_rfl
  partitions := List.prefix_rfl

/- One extension after the other. -/
theorem Extends.trans
    {a b c : Database}
    (h : a.Extends b)
    (h' : b.Extends c) : a.Extends c where
  attributes := h.attributes.trans h'.attributes
  partitions := h.partitions.trans h'.partitions

/- An attribute stays an attribute. -/
theorem Extends.isSome_schemaOf?
    {before after : Database}
    (h : before.Extends after)
    {attr : Int}
    (hAttr : (before.schemaOf? attr).isSome = true) :
    (after.schemaOf? attr).isSome = true := by
  rcases Table.find?_isSome_iff.mp hAttr with ⟨k, hk, hSame⟩
  apply Table.find?_isSome_iff.mpr
  exact ⟨k, h.attributes.subset hk, hSame⟩

end Database

end FactBase
