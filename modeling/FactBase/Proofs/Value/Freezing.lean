import FactBase.Value.Frozen
import FactBase.Proofs.Value.Descriptions
import FactBase.Proofs.Value.Equality
import FactBase.Proofs.Value.TextTable

/-
  This file shows that values that are the same have frozen
  forms that are the same, which may be members of a set.
  The entries of a map are frozen in the order of their keys,
  so the order in which they came does not matter; and of
  members of a set that freeze alike, one is kept.

  Key definitions include:
    * `Value.IsData`
    * `Value.frozenEntry`

  Key theorems include:
    * `Value.apart_distinct`
    * `Value.exists_mem_distinct`
    * `Value.sortedBy_frozenEntries`
    * `Value.hashable_frozen`
    * `Value.proper_frozen`
    * `Value.same_frozen`
-/

------------------------------------------------------------
-- Distinct Items
------------------------------------------------------------

namespace FactBase

namespace Value

/- Keep a value unless it is there already. -/
def keep
    (kept : List Value)
    (v : Value) : List Value :=
  if v.memberOf kept then kept else kept ++ [v]

/- The distinct items are those that are kept. -/
theorem distinct_concat
    (items : List Value)
    (v : Value) :
    distinct (items ++ [v]) = keep (distinct items) v := by
  rw [distinct, distinct, List.foldl_append]
  rfl

/- A value is among others if one of them is taken for it. -/
theorem memberOf_iff
    {v : Value}
    {items : List Value} :
    v.memberOf items = true ↔ ∃ x ∈ items, x.same v = true :=
  List.any_eq_true

/- What is kept is what was there, and what is new. -/
theorem mem_keep
    {kept : List Value}
    {v x : Value}
    (h : x ∈ keep kept v) : x ∈ kept ∨ x = v := by
  unfold keep at h
  split at h
  · exact .inl h
  · simpa using h

/- What is kept was there before. -/
theorem mem_of_mem_distinct
    {items : List Value}
    {v : Value}
    (h : v ∈ distinct items) : v ∈ items := by
  induction items using List.reverseRecOn with
  | nil => exact h
  | append_singleton items w ih =>
      rw [distinct_concat] at h
      rcases mem_keep h with hOld | rfl
      · exact List.mem_append_left _ (ih hOld)
      · exact List.mem_append_right _ List.mem_cons_self

/- No item that is kept is taken for a later one. -/
theorem apart_distinct (items : List Value) :
    apart (distinct items) = true := by
  rw [apart_iff]
  induction items using List.reverseRecOn with
  | nil => exact .nil
  | append_singleton items w ih =>
      rw [distinct_concat, keep]
      split
      · exact ih
      next hNew =>
        rw [memberOf_iff] at hNew
        rw [List.pairwise_append]
        refine ⟨ih, List.pairwise_singleton _ _, ?_⟩
        intro x hx y hy
        rw [List.mem_singleton.mp hy, Bool.eq_false_iff]
        exact fun hSame => hNew ⟨x, hx, hSame⟩

/- Every item is kept, or one that is taken for it. -/
theorem exists_mem_distinct
    {items : List Value}
    {v : Value}
    (h : v ∈ items) : ∃ x ∈ distinct items, x.same v = true := by
  induction items using List.reverseRecOn with
  | nil => cases h
  | append_singleton items w ih =>
      rw [distinct_concat, keep]
      rcases List.mem_append.mp h with hOld | hNew
      · rcases ih hOld with ⟨x, hx, hSame⟩
        refine ⟨x, ?_, hSame⟩
        split
        · exact hx
        · exact List.mem_append_left _ hx
      · rw [List.mem_singleton.mp hNew]
        split
        next hKnown => exact memberOf_iff.mp hKnown
        · exact
            ⟨w, List.mem_append_right _ List.mem_cons_self,
              same_refl w⟩

/- So what is among the items is among those kept. -/
theorem memberOf_distinct
    (v : Value)
    (items : List Value) :
    v.memberOf (distinct items) = v.memberOf items := by
  rw [Bool.eq_iff_iff, memberOf_iff, memberOf_iff]
  constructor
  · rintro ⟨x, hx, hSame⟩
    exact ⟨x, mem_of_mem_distinct hx, hSame⟩
  · rintro ⟨x, hx, hSame⟩
    rcases exists_mem_distinct hx with ⟨y, hy, hKept⟩
    exact ⟨y, hy, same_trans hKept hSame⟩

/- Where the same values are equal, none is lost. -/
theorem mem_distinct
    {items : List Value}
    (h :
      ∀ x ∈ items, ∀ y ∈ items, x.same y = true → x = y)
    {v : Value} : v ∈ distinct items ↔ v ∈ items := by
  refine ⟨mem_of_mem_distinct, ?_⟩
  intro hv
  rcases exists_mem_distinct hv with ⟨x, hx, hSame⟩
  rw [← h x (mem_of_mem_distinct hx) v hv hSame]
  exact hx

/- None is kept twice. -/
theorem nodup_distinct (items : List Value) :
    (distinct items).Nodup := by
  refine (apart_iff.mp (apart_distinct items)).imp ?_
  rintro x _ hDiffer rfl
  rw [same_refl] at hDiffer
  cases hDiffer

/-
  A list of values that are apart is not longer than one in
  which each of them is found.
-/
theorem length_le_of_apart
    {xs ys : List Value}
    (hApart : apart xs = true)
    (hProper : ∀ x ∈ xs, x.proper = true)
    (h : ∀ x ∈ xs, ∃ y ∈ ys, x.same y = true) :
    xs.length ≤ ys.length := by
  refine length_le_of_found h ?_
  refine (apart_iff.mp hApart).imp_of_mem ?_
  intro x x' _ hx' hDiffer y hxy hxy'
  have hSame := same_trans hxy (same_symm (hProper x' hx') hxy')
  rw [hDiffer] at hSame
  cases hSame

------------------------------------------------------------
-- Data
------------------------------------------------------------

/-
  A value that is built from nothing, truth values, integers,
  texts and byte strings by sequences, sets and maps whose
  keys are texts.
-/
inductive IsData : Value → Prop where
  | null : IsData .null
  | bool (b : Bool) : IsData (.bool b)
  | int (n : Int) : IsData (.int n)
  | str (s : String) : IsData (.str s)
  | bytes (bs : List UInt8) : IsData (.bytes bs)
  | list
      {items : List Value}
      (h : ∀ v ∈ items, IsData v) : IsData (.list items)
  | tuple
      {items : List Value}
      (h : ∀ v ∈ items, IsData v) : IsData (.tuple items)
  | set
      {items : List Value}
      (h : ∀ v ∈ items, IsData v) : IsData (.set items)
  | frozenset
      {items : List Value}
      (h : ∀ v ∈ items, IsData v) : IsData (.frozenset items)
  | map
      {entries : List (Value × Value)}
      (hKeys : ∀ e ∈ entries, ∃ s, e.1 = .str s)
      (hValues : ∀ e ∈ entries, IsData e.2) :
      IsData (.map entries)

/- The keys of a map that is data are texts, each there once. -/
theorem ofTexts_of_proper
    {entries : List (Value × Value)}
    (hKeys : ∀ e ∈ entries, ∃ s, e.1 = .str s)
    (h : proper (.map entries) = true) :
    Table.OfTexts entries where
  texts := hKeys
  distinct := by
    have hApart := List.pairwise_map.mp
      (apart_iff.mp (proper_iff.mp h).1)
    refine hApart.imp ?_
    intro e e' hDiffer hEq
    rw [hEq, same_refl] at hDiffer
    cases hDiffer

------------------------------------------------------------
-- Frozen Maps
------------------------------------------------------------

/- An entry as a pair of key and frozen value. -/
def frozenEntry (e : Value × Value) : Value :=
  .tuple [e.1, frozen e.2]

/- All entries are frozen one by one. -/
theorem frozenEntries_eq_map (entries : List (Value × Value)) :
    frozenEntries entries = entries.map frozenEntry := by
  induction entries with
  | nil => rfl
  | cons e entries ih =>
      rcases e with ⟨k, v⟩
      rw [frozenEntries, ih, List.map_cons]
      rfl

/- The description of the key of an entry. -/
def keyDescription (e : Value × Value) : String :=
  description e.1

/- The keys of a table are plain, and each is there once. -/
structure KeyTable (entries : List (Value × Value)) : Prop where
  keys : ∀ e ∈ entries, e.1.IsKey
  distinct : entries.Pairwise (fun e e' => e.1 ≠ e'.1)

variable {entries : List (Value × Value)}

/- Texts are such keys. -/
theorem KeyTable.ofTexts (h : Table.OfTexts entries) :
    KeyTable entries where
  keys := by
    intro e he
    rcases h.texts e he with ⟨s, hText⟩
    rw [hText]
    exact ⟨.str s, rfl⟩
  distinct := h.distinct

/- The order of the entries does not matter. -/
theorem KeyTable.of_perm
    {entries' : List (Value × Value)}
    (h : KeyTable entries)
    (hPerm : entries'.Perm entries) : KeyTable entries' where
  keys := fun e he => h.keys e (hPerm.mem_iff.mp he)
  distinct := (hPerm.pairwise_iff Ne.symm).mpr h.distinct

/- The keys are described differently. -/
theorem KeyTable.nodup_descriptions (h : KeyTable entries) :
    (entries.map keyDescription).Nodup := by
  refine List.pairwise_map.mpr (h.distinct.imp_of_mem ?_)
  intro e e' he he' hDiffer hEq
  exact hDiffer (description_inj (h.keys e he) (h.keys e' he') hEq)

/- Entries are in the order of their keys. -/
theorem KeyTable.compareTexts_frozenEntry
    (h : KeyTable entries)
    {e e' : Value × Value}
    (he : e ∈ entries)
    (he' : e' ∈ entries)
    (hDiffer : e.1 ≠ e'.1) :
    compareTexts (description (frozenEntry e))
        (description (frozenEntry e'))
      = compareTexts (keyDescription e) (keyDescription e') :=
  compareTexts_description_pair (h.keys e he) (h.keys e' he')
    hDiffer _ _

/-
  Frozen entries are sorted by their keys, whatever the values
  are.
-/
theorem sortedBy_frozenEntries
    (h : KeyTable entries) :
    sortedBy description (frozenEntries entries)
      = (sortedBy keyDescription entries).map frozenEntry := by
  have hPerm := sortedBy_perm keyDescription entries
  have hSorted := h.of_perm hPerm
  rw [frozenEntries_eq_map]
  refine
    (textsAscend_sortedBy description _).eq_of_perm ?_ ?_ ?_
  · refine List.pairwise_map.mpr ?_
    refine
      (hSorted.distinct.and
        (textsAscend_sortedBy keyDescription entries)).imp_of_mem
          ?_
    rintro e e' he he' ⟨hDiffer, hUp⟩
    rw [hSorted.compareTexts_frozenEntry he he' hDiffer]
    exact hUp
  · refine
      ((sortedBy_perm description _).map _).nodup_iff.mpr ?_
    rw [List.map_map]
    refine List.pairwise_map.mpr (h.distinct.imp_of_mem ?_)
    intro e e' he he' hDiffer hEq
    have hSame := h.compareTexts_frozenEntry he he' hDiffer
    have hEqual :
        compareTexts (description (frozenEntry e))
            (description (frozenEntry e'))
          = .eq :=
      Std.LawfulEqCmp.compare_eq_iff_eq.mpr hEq
    rw [hSame] at hEqual
    exact
      hDiffer
        (description_inj (h.keys e he) (h.keys e' he')
          (Std.LawfulEqCmp.eq_of_compare hEqual))
  · exact (sortedBy_perm description _).trans
      (hPerm.symm.map frozenEntry)

/- Frozen entries are the same if keys and frozen values are. -/
theorem same_frozenEntry_iff {e e' : Value × Value} :
    same (frozenEntry e) (frozenEntry e') = true ↔
      same e.1 e'.1 = true
        ∧ same (frozen e.2) (frozen e'.2) = true := by
  simp [frozenEntry, same, sameItems]

/- Maps freeze alike if their sorted entries do. -/
theorem same_frozen_map_iff
    {xs ys : List (Value × Value)}
    (hXs : KeyTable xs)
    (hYs : KeyTable ys) :
    same (frozen (.map xs)) (frozen (.map ys)) = true ↔
      List.Forall₂
        (fun x y =>
          same x.1 y.1 = true
            ∧ same (frozen x.2) (frozen y.2) = true)
        (sortedBy keyDescription xs)
        (sortedBy keyDescription ys) := by
  rw [frozen, frozen, sortedBy_frozenEntries hXs,
    sortedBy_frozenEntries hYs, same_tuple_iff]
  simp only [tuple.injEq, exists_eq_left',
    List.forall₂_map_left_iff, List.forall₂_map_right_iff,
    same_frozenEntry_iff]

------------------------------------------------------------
-- Frozen Data
------------------------------------------------------------

/- A tuple is in order if its items are. -/
theorem proper_tuple_iff {items : List Value} :
    proper (.tuple items) = true ↔
      ∀ v ∈ items, proper v = true := by
  rw [proper, properItems_iff]

/- What frozen items are. -/
theorem mem_frozenItems
    {items : List Value}
    {x : Value} :
    x ∈ frozenItems items ↔ ∃ v ∈ items, frozen v = x := by
  rw [frozenItems_eq_map, List.mem_map]

/- What frozen entries are. -/
theorem mem_sortedBy_frozenEntries {x : Value} :
    x ∈ sortedBy description (frozenEntries entries)
      ↔ ∃ e ∈ entries, frozenEntry e = x := by
  rw [(sortedBy_perm description _).mem_iff,
    frozenEntries_eq_map, List.mem_map]

variable {v w : Value}

/- Frozen data may be a member of a set. -/
theorem hashable_frozen (h : IsData v) :
    hashable (frozen v) = true := by
  have hItems :
      ∀ {items : List Value},
        (∀ v ∈ items, hashable (frozen v) = true) →
          hashable (.tuple (frozenItems items)) = true := by
    intro items hAll
    rw [hashable, hashableItems_iff]
    intro x hx
    rcases mem_frozenItems.mp hx with ⟨v, hv, rfl⟩
    exact hAll v hv
  induction h with
  | list _ ih => exact hItems ih
  | tuple _ ih => exact hItems ih
  | map hKeys _ ih =>
      rw [frozen, hashable, hashableItems_iff]
      intro x hx
      rcases mem_sortedBy_frozenEntries.mp hx with
        ⟨⟨k, v⟩, he, rfl⟩
      rcases hKeys _ he with ⟨s, hText⟩
      change k = .str s at hText
      subst hText
      rw [frozenEntry, hashable, hashableItems_iff]
      simp [hashable, ih _ he]
  | _ => rfl

/- Frozen data is in order. -/
theorem proper_frozen (h : IsData v) :
    proper (frozen v) = true := by
  have hItems :
      ∀ {items : List Value},
        (∀ v ∈ items, proper (frozen v) = true) →
          ∀ x ∈ frozenItems items, proper x = true := by
    intro items hAll x hx
    rcases mem_frozenItems.mp hx with ⟨v, hv, rfl⟩
    exact hAll v hv
  have hMembers :
      ∀ {items : List Value},
        (∀ v ∈ items, proper (frozen v) = true) →
          proper (.frozenset (distinct (frozenItems items)))
            = true := by
    intro items hAll
    refine proper_iff.mpr ⟨apart_distinct _, ?_⟩
    exact fun x hx => hItems hAll x (mem_of_mem_distinct hx)
  induction h with
  | list _ ih => exact proper_tuple_iff.mpr (hItems ih)
  | tuple _ ih => exact proper_tuple_iff.mpr (hItems ih)
  | set _ ih => exact hMembers ih
  | frozenset _ ih => exact hMembers ih
  | map hKeys _ ih =>
      rw [frozen, proper_tuple_iff]
      intro x hx
      rcases mem_sortedBy_frozenEntries.mp hx with
        ⟨⟨k, v⟩, he, rfl⟩
      rcases hKeys _ he with ⟨s, hText⟩
      change k = .str s at hText
      subst hText
      rw [frozenEntry, proper_tuple_iff]
      simp [proper, ih _ he]
  | _ => rfl

/- A number is its own frozen form. -/
theorem frozen_of_number
    (h : v.magnitude?.isSome = true) : frozen v = v := by
  cases v <;> first | rfl | cases h

/- So is what is the same as a number. -/
theorem frozen_of_same_number
    (hNumber : v.magnitude?.isSome = true)
    (h : same v w = true) : frozen w = w := by
  rcases (same_number_iff hNumber).mp h with
    ⟨p, _, hPlace⟩ | ⟨_, rfl⟩
  · exact frozen_of_number (isSome_magnitude?_of_place? hPlace)
  · exact frozen_of_number hNumber

/- The frozen forms of items are the same where the items are. -/
theorem forall₂_frozenItems
    {xs ys : List Value}
    (ih :
      ∀ x ∈ xs, ∀ y ∈ ys,
        same x y = true → same (frozen x) (frozen y) = true)
    (h : List.Forall₂ (fun x y => same x y = true) xs ys) :
    List.Forall₂ (fun x y => same x y = true)
      (frozenItems xs) (frozenItems ys) := by
  rw [frozenItems_eq_map, frozenItems_eq_map,
    List.forall₂_map_left_iff, List.forall₂_map_right_iff]
  induction h with
  | nil => exact .nil
  | cons hHead _ ihTail =>
      refine .cons ?_ (ihTail ?_)
      · exact ih _ List.mem_cons_self _ List.mem_cons_self hHead
      · intro x hx y hy
        exact
          ih x (List.mem_cons_of_mem _ hx) y
            (List.mem_cons_of_mem _ hy)

variable {members : List Value}

/- A set freezes to the distinct frozen members. -/
theorem frozen_of_members
    (h : v.members? = some members) :
    frozen v = .frozenset (distinct (frozenItems members)) := by
  cases v with
  | set items =>
      rw [← Option.some.inj h]
      rfl
  | frozenset items =>
      rw [← Option.some.inj h]
      rfl
  | _ => cases h

/- The members of a set that is in order are. -/
theorem proper_of_mem_members
    (h : v.members? = some members)
    (hProper : v.proper = true)
    {x : Value}
    (hx : x ∈ members) : x.proper = true := by
  cases v with
  | set items =>
      rw [← Option.some.inj h] at hx
      exact proper_of_mem_parts hProper hx
  | frozenset items =>
      rw [← Option.some.inj h] at hx
      exact proper_of_mem_parts hProper hx
  | _ => cases h

/- The members of a set that is data are data. -/
theorem isData_of_mem_members
    (h : v.members? = some members)
    (hData : IsData v)
    {x : Value}
    (hx : x ∈ members) : IsData x := by
  cases hData with
  | set hItems =>
      rw [← Option.some.inj h] at hx
      exact hItems x hx
  | frozenset hItems =>
      rw [← Option.some.inj h] at hx
      exact hItems x hx
  | _ => cases h

/- Sets of the same members freeze to sets of the same. -/
theorem same_frozen_members
    {xs ys : List Value}
    (hXs : ∀ x ∈ xs, IsData x)
    (hYs : ∀ y ∈ ys, IsData y)
    (ih :
      ∀ x ∈ xs, ∀ y ∈ ys,
        same x y = true → same (frozen x) (frozen y) = true)
    (hFound : ∀ x ∈ xs, ∃ y ∈ ys, same x y = true)
    (hBack : ∀ y ∈ ys, ∃ x ∈ xs, same x y = true) :
    same (.frozenset (distinct (frozenItems xs)))
        (.frozenset (distinct (frozenItems ys)))
      = true := by
  have hProper :
      ∀ {items : List Value}, (∀ v ∈ items, IsData v) →
        ∀ z ∈ distinct (frozenItems items), z.proper = true := by
    intro items hItems z hz
    rcases mem_frozenItems.mp (mem_of_mem_distinct hz) with
      ⟨v, hv, rfl⟩
    exact proper_frozen (hItems v hv)
  have hThere :
      ∀ z ∈ distinct (frozenItems xs),
        ∃ z' ∈ distinct (frozenItems ys),
          same z z' = true := by
    intro z hz
    rcases mem_frozenItems.mp (mem_of_mem_distinct hz) with
      ⟨x, hx, rfl⟩
    rcases hFound x hx with ⟨y, hy, hxy⟩
    rcases exists_mem_distinct
        (mem_frozenItems.mpr ⟨y, hy, rfl⟩) with
      ⟨z', hz', hKept⟩
    refine ⟨z', hz', same_trans (ih x hx y hy hxy) ?_⟩
    exact same_symm (hProper hYs z' hz') hKept
  have hFrom :
      ∀ z ∈ distinct (frozenItems ys),
        ∃ z' ∈ distinct (frozenItems xs),
          same z z' = true := by
    intro z hz
    rcases mem_frozenItems.mp (mem_of_mem_distinct hz) with
      ⟨y, hy, rfl⟩
    rcases hBack y hy with ⟨x, hx, hxy⟩
    rcases exists_mem_distinct
        (mem_frozenItems.mpr ⟨x, hx, rfl⟩) with
      ⟨z', hz', hKept⟩
    refine ⟨z', hz', same_symm (hProper hXs z' hz') ?_⟩
    exact same_trans hKept (ih x hx y hy hxy)
  refine (same_members_iff rfl).mpr ⟨_, rfl, ?_, hThere⟩
  exact
    Nat.le_antisymm
      (length_le_of_apart (apart_distinct _) (hProper hXs) hThere)
      (length_le_of_apart (apart_distinct _) (hProper hYs) hFrom)

/- So sets that are the same freeze to sets that are. -/
theorem same_frozen_of_members
    (hMembers : v.members? = some members)
    (hData : IsData v)
    (hOther : IsData w)
    (hProper : v.proper = true)
    (hProper' : w.proper = true)
    (ih :
      ∀ x ∈ members, ∀ {y : Value}, IsData y →
        x.proper = true → y.proper = true → same x y = true →
          same (frozen x) (frozen y) = true)
    (h : same v w = true) :
    same (frozen v) (frozen w) = true := by
  rcases (same_members_iff hMembers).mp h with
    ⟨ys, hYs, _, hFound⟩
  rcases (same_members_iff hYs).mp (same_symm hProper h) with
    ⟨xs, hXs, _, hBack⟩
  rw [hMembers, Option.some.injEq] at hXs
  subst hXs
  have hYProper : ∀ y ∈ ys, y.proper = true :=
    fun _ hy => proper_of_mem_members hYs hProper' hy
  have hYData : ∀ y ∈ ys, IsData y :=
    fun _ hy => isData_of_mem_members hYs hOther hy
  rw [frozen_of_members hMembers, frozen_of_members hYs]
  refine
    same_frozen_members
      (fun _ hx => isData_of_mem_members hMembers hData hx)
      hYData ?_ hFound ?_
  · intro x hx y hy hxy
    exact
      ih x hx (hYData y hy)
        (proper_of_mem_members hMembers hProper hx)
        (hYProper y hy) hxy
  · intro y hy
    rcases hBack y hy with ⟨x, hx, hyx⟩
    exact ⟨x, hx, same_symm (hYProper y hy) hyx⟩

/-
  Tables with the same keys in the same order agree entry by
  entry if each entry of the one is found in the other.
-/
theorem forall₂_of_keys
    {R : Value → Value → Prop}
    {xs ys : List (Value × Value)}
    (hKeys : xs.map Prod.fst = ys.map Prod.fst)
    (hOnce : ys.Pairwise (fun a b => a.1 ≠ b.1))
    (h : ∀ x ∈ xs, ∃ y ∈ ys, x.1 = y.1 ∧ R x.2 y.2) :
    List.Forall₂ (fun x y => x.1 = y.1 ∧ R x.2 y.2) xs ys := by
  induction xs generalizing ys with
  | nil =>
      cases ys with
      | nil => exact .nil
      | cons y ys => cases hKeys
  | cons x xs ih =>
      cases ys with
      | nil => cases hKeys
      | cons y ys =>
          rw [List.map_cons, List.map_cons] at hKeys
          rcases List.cons.inj hKeys with ⟨hKey, hRest⟩
          rcases List.pairwise_cons.mp hOnce with
            ⟨hOther, hTail⟩
          refine .cons ?_ (ih hRest hTail ?_)
          · rcases h x List.mem_cons_self with ⟨z, hz, hSame⟩
            rcases List.mem_cons.mp hz with rfl | hz
            · exact hSame
            · exact
                absurd (hKey.symm.trans hSame.1) (hOther z hz)
          · intro x' hx'
            rcases h x' (List.mem_cons_of_mem x hx') with
              ⟨z, hz, hSame⟩
            rcases List.mem_cons.mp hz with rfl | hz
            · have hMem : x'.1 ∈ ys.map Prod.fst :=
                hRest ▸ List.mem_map_of_mem hx'
              rcases List.mem_map.mp hMem with ⟨y', hy', hEq⟩
              exact
                absurd (hSame.1.symm.trans hEq.symm)
                  (hOther y' hy')
            · exact ⟨z, hz, hSame⟩

/- Tables with the same keys have them in the same order. -/
theorem map_fst_sortedBy_eq
    {xs ys : List (Value × Value)}
    (hXs : KeyTable xs)
    (hPerm : (xs.map Prod.fst).Perm (ys.map Prod.fst)) :
    (sortedBy keyDescription xs).map Prod.fst
      = (sortedBy keyDescription ys).map Prod.fst := by
  have hAscend :
      ∀ zs : List (Value × Value),
        TextsAscend description
          ((sortedBy keyDescription zs).map Prod.fst) :=
    fun zs =>
      List.pairwise_map.mpr (textsAscend_sortedBy keyDescription zs)
  have hSorted :
      ∀ zs : List (Value × Value),
        ((sortedBy keyDescription zs).map Prod.fst).Perm
          (zs.map Prod.fst) :=
    fun zs => (sortedBy_perm keyDescription zs).map Prod.fst
  refine
    (hAscend xs).eq_of_perm (hAscend ys) ?_
      ((hSorted xs).trans (hPerm.trans (hSorted ys).symm))
  refine ((hSorted xs).map description).nodup_iff.mpr ?_
  rw [List.map_map]
  exact hXs.nodup_descriptions

/- Maps of the same entries freeze to the same entries. -/
theorem same_frozen_map
    {xs ys : List (Value × Value)}
    (hXs : KeyTable xs)
    (hYs : KeyTable ys)
    (hLength : xs.length = ys.length)
    (h :
      ∀ x ∈ xs, ∃ y ∈ ys,
        x.1 = y.1 ∧ same (frozen x.2) (frozen y.2) = true) :
    same (frozen (.map xs)) (frozen (.map ys)) = true := by
  have hPermX := sortedBy_perm keyDescription xs
  have hPermY := sortedBy_perm keyDescription ys
  have hSubset : xs.map Prod.fst ⊆ ys.map Prod.fst := by
    intro k hk
    rcases List.mem_map.mp hk with ⟨x, hx, rfl⟩
    rcases h x hx with ⟨y, hy, hEq, _⟩
    exact List.mem_map.mpr ⟨y, hy, hEq.symm⟩
  have hPerm : (xs.map Prod.fst).Perm (ys.map Prod.fst) := by
    refine
      (List.subperm_of_subset
        (List.pairwise_map.mpr hXs.distinct)
        hSubset).perm_of_length_le ?_
    rw [List.length_map, List.length_map, hLength]
  have hAgree :=
    forall₂_of_keys
      (R := fun v w => same (frozen v) (frozen w) = true)
      (map_fst_sortedBy_eq hXs hPerm)
      (hYs.of_perm hPermY).distinct
      (fun x hx => by
        rcases h x (hPermX.mem_iff.mp hx) with ⟨y, hy, hBoth⟩
        exact ⟨y, hPermY.mem_iff.mpr hy, hBoth⟩)
  refine (same_frozen_map_iff hXs hYs).mpr (hAgree.imp ?_)
  rintro ⟨k, v⟩ ⟨l, w⟩ ⟨hKey, hValue⟩
  change k = l at hKey
  subst hKey
  exact ⟨same_refl k, hValue⟩

/-
  Data that is the same has frozen forms that are the same.
-/
theorem same_frozen
    (hData : IsData v)
    (hOther : IsData w)
    (hProper : v.proper = true)
    (hProper' : w.proper = true)
    (h : same v w = true) :
    same (frozen v) (frozen w) = true := by
  induction hData generalizing w with
  | null => exact (same_bare_iff rfl).mp h ▸ same_refl _
  | str s => exact (same_bare_iff rfl).mp h ▸ same_refl _
  | bytes bs => exact (same_bare_iff rfl).mp h ▸ same_refl _
  | bool b =>
      rw [frozen_of_same_number rfl h]
      exact h
  | int n =>
      rw [frozen_of_same_number rfl h]
      exact h
  | list _ ih =>
      rcases same_list_iff.mp h with ⟨ys, rfl, hxy⟩
      cases hOther with
      | list hYs =>
          refine same_tuple_iff.mpr ⟨_, rfl, ?_⟩
          refine forall₂_frozenItems ?_ hxy
          intro x hx y hy
          exact
            ih x hx (hYs y hy)
              (proper_of_mem_parts hProper hx)
              (proper_of_mem_parts hProper' hy)
  | tuple _ ih =>
      rcases same_tuple_iff.mp h with ⟨ys, rfl, hxy⟩
      cases hOther with
      | tuple hYs =>
          refine same_tuple_iff.mpr ⟨_, rfl, ?_⟩
          refine forall₂_frozenItems ?_ hxy
          intro x hx y hy
          exact
            ih x hx (hYs y hy)
              (proper_of_mem_parts hProper hx)
              (proper_of_mem_parts hProper' hy)
  | set hXs ih =>
      exact
        same_frozen_of_members rfl (.set hXs) hOther hProper
          hProper' ih h
  | frozenset hXs ih =>
      exact
        same_frozen_of_members rfl (.frozenset hXs) hOther hProper
          hProper' ih h
  | map hKeys _ ih =>
      rcases same_map_iff.mp h with ⟨ys, rfl, hLength, hFound⟩
      have hXTexts := ofTexts_of_proper hKeys hProper
      cases hOther with
      | map hYKeys hYValues =>
          refine
            same_frozen_map (.ofTexts hXTexts)
              (.ofTexts (ofTexts_of_proper hYKeys hProper'))
              hLength ?_
          intro x hx
          rcases hFound x hx with ⟨y, hy, hKey, hValue⟩
          rcases hKeys x hx with ⟨s, hText⟩
          rw [hText] at hKey ⊢
          refine ⟨y, hy, (same_bare_iff rfl).mp hKey, ?_⟩
          have hPart :
              ∀ {zs : List (Value × Value)} {z : Value × Value},
                z ∈ zs → proper (.map zs) = true →
                  z.2.proper = true :=
            fun hz hMap =>
              proper_of_mem_parts hMap
                (List.mem_append_right _ (List.mem_map_of_mem hz))
          exact
            ih x hx (hYValues y hy) (hPart hx hProper)
              (hPart hy hProper') hValue

end Value

end FactBase
