import FactBase.Proofs.Number.Shortest
import FactBase.Proofs.Value.Proper

/-
  This file defines plain values, which are made of constants,
  numbers, texts and byte strings alone.  Their sets and maps
  are as they come about: a member or key is there once, and
  nothing in it can change.

  Key definitions include:
    * `Value.IsPlain`

  Key theorems include:
    * `Value.IsPlain.proper`
    * `Value.IsPlain.isUndefined`
    * `Value.hashableItems_iff`
-/

------------------------------------------------------------
-- Plain Values
------------------------------------------------------------

namespace FactBase

namespace Value

/-
  A value that is built from nothing, truth values, numbers,
  texts and byte strings by sequences, sets and maps with any
  keys.  No number in it is undefined, and binary numbers are
  canonical, as those are that come from rounding.
-/
inductive IsPlain : Value → Prop where
  | null : IsPlain .null
  | bool (b : Bool) : IsPlain (.bool b)
  | int (n : Int) : IsPlain (.int n)
  | float
      {x : Binary64}
      (hCanonical : x.canonical = true)
      (hDefined : x.isUndefined = false) : IsPlain (.float x)
  | str (s : String) : IsPlain (.str s)
  | bytes (bs : List UInt8) : IsPlain (.bytes bs)
  | list
      {items : List Value}
      (h : ∀ v ∈ items, IsPlain v) : IsPlain (.list items)
  | tuple
      {items : List Value}
      (h : ∀ v ∈ items, IsPlain v) : IsPlain (.tuple items)
  | set
      {items : List Value}
      (h : ∀ v ∈ items, IsPlain v)
      (hMembers : ∀ v ∈ items, hashable v = true)
      (hApart : apart items = true) : IsPlain (.set items)
  | frozenset
      {items : List Value}
      (h : ∀ v ∈ items, IsPlain v)
      (hMembers : ∀ v ∈ items, hashable v = true)
      (hApart : apart items = true) : IsPlain (.frozenset items)
  | map
      {entries : List (Value × Value)}
      (hKeys : ∀ e ∈ entries, IsPlain e.1)
      (hMembers : ∀ e ∈ entries, hashable e.1 = true)
      (hApart : apart (entries.map Prod.fst) = true)
      (hValues : ∀ e ∈ entries, IsPlain e.2) :
      IsPlain (.map entries)

/- Items may be members one by one. -/
theorem hashableItems_iff {items : List Value} :
    hashableItems items = true ↔
      ∀ v ∈ items, hashable v = true := by
  induction items with
  | nil => simp [hashableItems]
  | cons v vs ih => simp [hashableItems, ih]

variable {v : Value}

/- Plain values are in order. -/
theorem IsPlain.proper (h : IsPlain v) : v.proper = true := by
  induction h with
  | list _ ih => exact proper_iff.mpr ⟨rfl, ih⟩
  | tuple _ ih => exact proper_iff.mpr ⟨rfl, ih⟩
  | set _ _ hApart ih => exact proper_iff.mpr ⟨hApart, ih⟩
  | frozenset _ _ hApart ih => exact proper_iff.mpr ⟨hApart, ih⟩
  | map _ _ hApart _ ihKeys ihValues =>
      refine proper_iff.mpr ⟨hApart, ?_⟩
      intro x hx
      rcases List.mem_append.mp hx with hKey | hValue
      · rcases List.mem_map.mp hKey with ⟨e, he, rfl⟩
        exact ihKeys e he
      · rcases List.mem_map.mp hValue with ⟨e, he, rfl⟩
        exact ihValues e he
  | _ => rfl

/- No plain value is undefined. -/
theorem IsPlain.isUndefined (h : IsPlain v) :
    v.isUndefined = false := by
  cases h with
  | @float x _ hDefined =>
      cases x with
      | undefined n => cases hDefined
      | _ => rfl
  | _ => rfl

/- The members of a plain set are plain and apart. -/
theorem IsPlain.of_mem_members
    {members : List Value}
    (h : IsPlain v)
    (hMembers : v.members? = some members) :
    (∀ x ∈ members, IsPlain x)
      ∧ (∀ x ∈ members, hashable x = true)
      ∧ apart members = true := by
  cases h with
  | set hItems hHashable hApart =>
      cases hMembers
      exact ⟨hItems, hHashable, hApart⟩
  | frozenset hItems hHashable hApart =>
      cases hMembers
      exact ⟨hItems, hHashable, hApart⟩
  | _ => cases hMembers

end Value

end FactBase
