import FactBase.Proofs.Value.Freezing

/-
  This file shows when equal plain values have equal frozen
  forms.  Maps are frozen in the order in which their keys are
  described, and equal keys may be described differently, as
  the integer one and the truth value are.  So the frozen
  forms are equal exactly if the keys of the maps, put in
  order, pair up wherever maps stand in the values.

  Key definitions include:
    * `Value.sortedKeys`
    * `Value.aligned`

  Key theorems include:
    * `Value.frozen_of_isKey`
    * `Value.isKey_frozen`
    * `Value.KeyTable.sortedKeys_eq_of_ascend`
    * `Value.same_frozen_iff_aligned`
-/

------------------------------------------------------------
-- Frozen Plain Values
------------------------------------------------------------

namespace FactBase

namespace Value

variable {items : List Value}
variable {v w : Value}

/- Items that are apart are kept as they are. -/
theorem distinct_of_apart (h : apart items = true) :
    distinct items = items := by
  rw [apart_iff] at h
  induction items using List.reverseRecOn with
  | nil => rfl
  | append_singleton items x ih =>
      rw [List.pairwise_append] at h
      rw [distinct_concat, ih h.1, keep, if_neg]
      rw [memberOf_iff]
      rintro ⟨y, hy, hSame⟩
      rw [h.2.2 y hy x (List.mem_singleton_self x)] at hSame
      cases hSame

/- Items that are frozen already stay as they are. -/
theorem frozenItems_eq_self
    (h : ∀ v ∈ items, frozen v = v) :
    frozenItems items = items := by
  rw [frozenItems_eq_map]
  exact (List.map_congr_left h).trans (List.map_id items)

/- A key is its own frozen form. -/
theorem frozen_of_isKey (h : IsKey v) : frozen v = v := by
  rcases h with ⟨hPlain, hHashable⟩
  induction hPlain with
  | list => cases hHashable
  | set => cases hHashable
  | map => cases hHashable
  | tuple _ ih =>
      rw [hashable, hashableItems_iff] at hHashable
      rw [frozen, frozenItems_eq_self]
      exact fun x hx => ih x hx (hHashable x hx)
  | frozenset _ hMembers hApart ih =>
      rw [frozen, frozenItems_eq_self, distinct_of_apart hApart]
      exact fun x hx => ih x hx (hMembers x hx)
  | _ => rfl

/- A set freezes to the set of its members. -/
theorem frozen_of_plain_members
    {members : List Value}
    (hPlain : IsPlain v)
    (h : v.members? = some members) :
    frozen v = .frozenset members := by
  rcases hPlain.of_mem_members h with
    ⟨hItems, hMembers, hApart⟩
  rw [frozen_of_members h, frozenItems_eq_self,
    distinct_of_apart hApart]
  exact fun x hx => frozen_of_isKey ⟨hItems x hx, hMembers x hx⟩

/- Tuples of keys are keys. -/
theorem IsKey.tuple (h : ∀ v ∈ items, IsKey v) :
    IsKey (.tuple items) :=
  ⟨.tuple (fun v hv => (h v hv).plain),
    hashableItems_iff.mpr (fun v hv => (h v hv).hashable)⟩

/- Plain values freeze to keys. -/
theorem isKey_frozen (h : IsPlain v) : IsKey (frozen v) := by
  have hItems :
      ∀ {items : List Value}, (∀ v ∈ items, IsKey (frozen v)) →
        IsKey (.tuple (frozenItems items)) := by
    intro items ih
    refine .tuple ?_
    intro x hx
    rcases mem_frozenItems.mp hx with ⟨v, hv, rfl⟩
    exact ih v hv
  induction h with
  | null => exact ⟨.null, rfl⟩
  | bool b => exact ⟨.bool b, rfl⟩
  | int n => exact ⟨.int n, rfl⟩
  | float hCanonical hDefined =>
      exact ⟨.float hCanonical hDefined, rfl⟩
  | str s => exact ⟨.str s, rfl⟩
  | bytes bs => exact ⟨.bytes bs, rfl⟩
  | list _ ih => exact hItems ih
  | tuple _ ih => exact hItems ih
  | set h hMembers hApart _ =>
      rw [frozen_of_plain_members (.set h hMembers hApart) rfl]
      exact ⟨.frozenset h hMembers hApart, rfl⟩
  | frozenset h hMembers hApart _ =>
      rw [frozen_of_plain_members (.frozenset h hMembers hApart)
        rfl]
      exact ⟨.frozenset h hMembers hApart, rfl⟩
  | map hKeys hMembers _ _ _ ihValues =>
      rw [frozen]
      refine .tuple ?_
      intro x hx
      rcases mem_sortedBy_frozenEntries.mp hx with ⟨e, he, rfl⟩
      refine .tuple ?_
      rw [List.forall_mem_cons, List.forall_mem_singleton]
      exact ⟨⟨hKeys e he, hMembers e he⟩, ihValues e he⟩

------------------------------------------------------------
-- Sorted Keys
------------------------------------------------------------

variable {xs ys entries : List (Value × Value)}

/- The keys of a plain map make a table. -/
theorem IsPlain.keyTable (h : IsPlain (.map entries)) :
    KeyTable entries := by
  cases h with
  | map hKeys hMembers hApart _ =>
      refine ⟨fun e he => ⟨hKeys e he, hMembers e he⟩, ?_⟩
      refine (List.pairwise_map.mp (apart_iff.mp hApart)).imp ?_
      intro e e' hDiffer hEq
      rw [hEq, same_refl] at hDiffer
      cases hDiffer

/- The keys of a map in the order of their descriptions. -/
def sortedKeys (entries : List (Value × Value)) : List Value :=
  sortedBy description (entries.map Prod.fst)

/- Only one order of the keys of a table ascends. -/
theorem KeyTable.sortedKeys_eq_of_ascend
    {keys : List Value}
    (h : KeyTable entries)
    (hPerm : keys.Perm (entries.map Prod.fst))
    (hAscend : TextsAscend description keys) :
    sortedKeys entries = keys := by
  refine
    (textsAscend_sortedBy description _).eq_of_perm hAscend ?_
      ((sortedBy_perm description _).trans hPerm.symm)
  refine ((sortedBy_perm description _).map _).nodup_iff.mpr ?_
  rw [List.map_map]
  exact h.nodup_descriptions

/- Sorting entries by their keys sorts the keys. -/
theorem KeyTable.sortedKeys_eq (h : KeyTable entries) :
    sortedKeys entries
      = (sortedBy keyDescription entries).map Prod.fst :=
  h.sortedKeys_eq_of_ascend
    ((sortedBy_perm keyDescription entries).map Prod.fst)
    (List.pairwise_map.mpr
      (textsAscend_sortedBy keyDescription entries))

/- The order in which entries came does not matter. -/
theorem KeyTable.sortedKeys_of_perm
    (h : KeyTable xs)
    (hPerm : (xs.map Prod.fst).Perm (ys.map Prod.fst)) :
    sortedKeys xs = sortedKeys ys := by
  refine (sortedBy_eq_iff ?_).mpr hPerm
  rw [List.map_map]
  exact h.nodup_descriptions

------------------------------------------------------------
-- Alignment
------------------------------------------------------------

mutual

/-
  Whether maps that stand at one place of both values have
  keys that are the same in order.
-/
def aligned : Value → Value → Bool
  | .list xs, b =>
      match b with | .list ys => alignedItems xs ys | _ => true
  | .tuple xs, b =>
      match b with | .tuple ys => alignedItems xs ys | _ => true
  | .map xs, b =>
      match b with
      | .map ys =>
          sameItems (sortedKeys xs) (sortedKeys ys)
            && alignedEntries xs ys
      | _ => true
  | _, _ => true

/- Whether this holds item by item. -/
def alignedItems : List Value → List Value → Bool
  | [], _ => true
  | x :: xs, ys =>
      match ys with
      | [] => true
      | y :: ys => aligned x y && alignedItems xs ys

/- Whether it holds of the values under the same keys. -/
def alignedEntries :
    List (Value × Value) → List (Value × Value) → Bool
  | [], _ => true
  | (k, v) :: xs, ys =>
      ys.all (fun y => !same k y.1 || aligned v y.2)
        && alignedEntries xs ys

end

/- Entries are aligned one by one. -/
theorem alignedEntries_iff :
    alignedEntries xs ys = true ↔
      ∀ x ∈ xs, ∀ y ∈ ys,
        same x.1 y.1 = true → aligned x.2 y.2 = true := by
  induction xs with
  | nil => simp [alignedEntries]
  | cons x xs ih =>
      rcases x with ⟨k, v⟩
      simp only [alignedEntries, Bool.and_eq_true, ih,
        List.forall_mem_cons, List.all_eq_true, Bool.or_eq_true,
        Bool.not_eq_true', ← Bool.not_eq_true,
        ← imp_iff_not_or]

/-
  Maps are aligned if their keys are in order, and the values
  under the same keys.
-/
theorem aligned_map_iff :
    aligned (.map xs) (.map ys) = true ↔
      List.Forall₂ (fun k l => same k l = true)
          (sortedKeys xs) (sortedKeys ys)
        ∧ ∀ x ∈ xs, ∀ y ∈ ys,
          same x.1 y.1 = true → aligned x.2 y.2 = true := by
  rw [aligned, Bool.and_eq_true, sameItems_iff,
    alignedEntries_iff]

/- Items freeze alike where they are aligned. -/
theorem same_frozenItems_iff
    {xs ys : List Value}
    (ih :
      ∀ x ∈ xs, ∀ y ∈ ys, same x y = true →
        (same (frozen x) (frozen y) = true ↔
          aligned x y = true))
    (h : List.Forall₂ (fun x y => same x y = true) xs ys) :
    same (.tuple (frozenItems xs)) (.tuple (frozenItems ys))
        = true
      ↔ alignedItems xs ys = true := by
  induction h with
  | nil => simp [frozenItems, alignedItems]
  | @cons x y xs ys hHead _ ihTail =>
      have hFirst :=
        ih x List.mem_cons_self y List.mem_cons_self hHead
      have hRest :=
        ihTail (fun x hx y hy =>
          ih x (List.mem_cons_of_mem _ hx) y
            (List.mem_cons_of_mem _ hy))
      simp only [same] at hRest
      simp only [frozenItems, same, sameItems, alignedItems,
        Bool.and_eq_true, hFirst, hRest]

/- Only one entry of a plain map has a key that equals another. -/
theorem IsPlain.eq_of_same_keys
    {k : Value}
    {y y' : Value × Value}
    (h : IsPlain (.map ys))
    (hy : y ∈ ys)
    (hy' : y' ∈ ys)
    (hk : k.proper = true)
    (hSame : same k y.1 = true)
    (hSame' : same k y'.1 = true) : y = y' := by
  have hProper : ∀ y ∈ ys, y.1.proper = true :=
    fun y hy => (h.keyTable.keys y hy).plain.proper
  have hApart :
      ys.Pairwise (fun y y' =>
        same y.1 y'.1 = false ∧ same y'.1 y.1 = false) := by
    refine
      (List.pairwise_map.mp
        (apart_iff.mp (proper_iff.mp h.proper).1)).imp_of_mem ?_
    intro y y' hy hy' hDiffer
    exact
      ⟨hDiffer,
        same_comm (hProper y hy) (hProper y' hy') ▸ hDiffer⟩
  by_contra hOther
  have hSymm :
      Std.Symm (fun y y' : Value × Value =>
        same y.1 y'.1 = false ∧ same y'.1 y.1 = false) :=
    ⟨fun _ _ => And.symm⟩
  have hDiffer := hApart.forall hy hy' hOther
  rw [← same_congr_left hk hSame, hSame'] at hDiffer
  cases hDiffer.1

/-
  Sorted entries agree in keys and values if they agree in
  keys, and the values under the same keys agree in what
  amounts to that.
-/
theorem forall₂_and_iff
    {α β : Type}
    {K F A : α → β → Prop}
    {xs sorted : List α}
    {ys sorted' : List β}
    (hXs : sorted.Perm xs)
    (hYs : sorted'.Perm ys)
    (hUnique :
      ∀ x ∈ xs, ∀ y ∈ ys, ∀ y' ∈ ys, K x y → K x y' → y = y')
    (hAmounts :
      ∀ x ∈ xs, ∀ y ∈ ys, K x y → (F x y ↔ A x y)) :
    List.Forall₂ (fun x y => K x y ∧ F x y) sorted sorted' ↔
      List.Forall₂ K sorted sorted'
        ∧ ∀ x ∈ xs, ∀ y ∈ ys, K x y → A x y := by
  constructor
  · intro h
    refine ⟨h.imp (fun _ _ hBoth => hBoth.1), ?_⟩
    intro x hx y hy hKey
    rcases List.forall₂_iff_get.mp h with ⟨hLength, hAgree⟩
    rcases List.get_of_mem (hXs.mem_iff.mpr hx) with ⟨i, rfl⟩
    have hBoth := hAgree i i.isLt (hLength ▸ i.isLt)
    have hPartner :=
      hYs.mem_iff.mp (List.get_mem sorted' ⟨i, hLength ▸ i.isLt⟩)
    rw [hUnique _ hx y hy _ hPartner hKey hBoth.1]
    exact (hAmounts _ hx _ hPartner hBoth.1).mp hBoth.2
  · rintro ⟨hKeys, hValues⟩
    rcases List.forall₂_iff_zip.mp hKeys with ⟨hLength, hZip⟩
    refine List.forall₂_iff_zip.mpr ⟨hLength, ?_⟩
    intro x y hPair
    have hKey := hZip hPair
    have hx := hXs.mem_iff.mp (List.of_mem_zip hPair).1
    have hy := hYs.mem_iff.mp (List.of_mem_zip hPair).2
    exact
      ⟨hKey,
        (hAmounts x hx y hy hKey).mpr (hValues x hx y hy hKey)⟩

/-
  Plain values that are the same have frozen forms that are
  the same exactly if they are aligned.
-/
theorem same_frozen_iff_aligned
    (hv : IsPlain v)
    (hw : IsPlain w)
    (h : same v w = true) :
    same (frozen v) (frozen w) = true ↔ aligned v w = true := by
  have hBare :
      ∀ {v w : Value}, v.bare = true → same v w = true →
        same (frozen v) (frozen w) = true := by
    intro v w hBare h
    rw [(same_bare_iff hBare).mp h]
    exact same_refl _
  have hNumber :
      ∀ {v w : Value}, v.magnitude?.isSome = true →
        same v w = true →
          same (frozen v) (frozen w) = true := by
    intro v w hNumber h
    rw [frozen_of_number hNumber, frozen_of_same_number hNumber h]
    exact h
  have hSets :
      ∀ {v w : Value} {xs : List Value}, IsPlain v → IsPlain w →
        v.members? = some xs → same v w = true →
          same (frozen v) (frozen w) = true := by
    intro v w xs hv hw hMembers h
    rcases (same_members_iff hMembers).mp h with
      ⟨ys, hOther, hLength, hFound⟩
    rw [frozen_of_plain_members hv hMembers,
      frozen_of_plain_members hw hOther]
    exact
      (same_members_iff rfl).mpr ⟨ys, rfl, hLength, hFound⟩
  induction hv generalizing w with
  | null => simp [aligned, hBare rfl h]
  | bool b => simp [aligned, hNumber rfl h]
  | int n => simp [aligned, hNumber rfl h]
  | float => simp [aligned, hNumber rfl h]
  | str s => simp [aligned, hBare rfl h]
  | bytes bs => simp [aligned, hBare rfl h]
  | set hItems hMembers hApart =>
      simp [aligned,
        hSets (.set hItems hMembers hApart) hw rfl h]
  | frozenset hItems hMembers hApart =>
      simp [aligned,
        hSets (.frozenset hItems hMembers hApart) hw rfl h]
  | list _ ih =>
      rcases same_list_iff.mp h with ⟨ys, rfl, hxy⟩
      cases hw with
      | list hYs =>
          rw [frozen, frozen, aligned]
          exact
            same_frozenItems_iff
              (fun x hx y hy => ih x hx (hYs y hy)) hxy
  | tuple _ ih =>
      rcases same_tuple_iff.mp h with ⟨ys, rfl, hxy⟩
      cases hw with
      | tuple hYs =>
          rw [frozen, frozen, aligned]
          exact
            same_frozenItems_iff
              (fun x hx y hy => ih x hx (hYs y hy)) hxy
  | @map xs hKeys hMembers hApart hValues _ ih =>
      rcases same_map_iff.mp h with ⟨ys, rfl, _, hFound⟩
      have hXs : IsPlain (.map xs) :=
        .map hKeys hMembers hApart hValues
      rw [same_frozen_map_iff hXs.keyTable hw.keyTable,
        aligned_map_iff, hXs.keyTable.sortedKeys_eq,
        hw.keyTable.sortedKeys_eq, List.forall₂_map_left_iff,
        List.forall₂_map_right_iff]
      refine
        forall₂_and_iff (sortedBy_perm _ _) (sortedBy_perm _ _)
          ?_ ?_
      · intro x hx y hy y' hy' hSame hSame'
        exact
          hw.eq_of_same_keys hy hy' (hKeys x hx).proper hSame
            hSame'
      · intro x hx y hy hSame
        rcases hFound x hx with ⟨y', hy', hKey, hValue⟩
        have hProper := (hKeys x hx).proper
        rw [← hw.eq_of_same_keys hy hy' hProper hSame hKey]
          at hValue
        cases hw with
        | map _ _ _ hYs => exact ih x hx (hYs y hy) hValue

end Value

end FactBase
