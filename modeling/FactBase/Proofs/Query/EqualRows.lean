import FactBase.Proofs.Query.Shapes
import FactBase.Proofs.Value.Alignment

/-
  This file shows which equal rows are kept apart.  Rows of
  plain values are always recognised by their frozen forms,
  and of equal rows these are equal exactly if the rows are
  aligned.  So of equal rows that are aligned only the first
  is kept, in either shape.

  Key definitions include:
    * `IsPlainRow`

  Key theorems include:
    * `Value.equals_frozen`
    * `shapeRows_aligned`
-/

------------------------------------------------------------
-- Equal Values
------------------------------------------------------------

namespace FactBase

namespace Value

variable {v w : Value}

/- Plain values are equal if they are the same. -/
theorem IsPlain.equals_eq
    (hv : IsPlain v)
    (hw : IsPlain w) : v.equals w = .ok (same v w) := by
  rw [equals_of_proper hv.proper hw.proper, equal,
    hv.isUndefined]
  rfl

/-
  Equal plain values have equal frozen forms exactly if they
  are aligned.
-/
theorem equals_frozen
    (hv : IsPlain v)
    (hw : IsPlain w)
    (h : v.equals w = .ok true) :
    (frozen v).equals (frozen w) = .ok (aligned v w) := by
  rw [hv.equals_eq hw] at h
  rw [(isKey_frozen hv).plain.equals_eq (isKey_frozen hw).plain]
  refine congrArg _ (Bool.eq_iff_iff.mpr ?_)
  exact same_frozen_iff_aligned hv hw (Except.ok.inj h)

/- In what order the entries of a map came does not matter. -/
theorem aligned_map_of_perm
    {xs ys : List (Value × Value)}
    (h : IsPlain (.map xs))
    (hPerm : (xs.map Prod.fst).Perm (ys.map Prod.fst)) :
    aligned (.map xs) (.map ys) = alignedEntries xs ys := by
  have hKeys :
      sameItems (sortedKeys xs) (sortedKeys ys) = true := by
    rw [h.keyTable.sortedKeys_of_perm hPerm, sameItems_iff,
      List.forall₂_same]
    exact fun k _ => same_refl k
  rw [aligned, hKeys, Bool.true_and]

end Value

------------------------------------------------------------
-- Equal Rows
------------------------------------------------------------

/- A row of plain values. -/
def IsPlainRow (row : List Value) : Prop :=
  ∀ v ∈ row, v.IsPlain

/- It is recognised by its frozen form. -/
theorem IsPlainRow.rowKey_eq_ok
    {row : List Value}
    (h : IsPlainRow row) : rowKey row = .ok (frozenRow row) :=
  rowKey_eq_frozenRow (fun v hv => (h v hv).proper)
    (fun v hv => (Value.isKey_frozen (h v hv)).hashable)

/- Equal rows freeze alike if they are aligned. -/
theorem IsPlainRow.same_frozenRow_iff
    {row row' : List Value}
    (h : IsPlainRow row)
    (h' : IsPlainRow row')
    (hEqual :
      List.Forall₂ (fun v w => v.equals w = .ok true)
        row row') :
    (frozenRow row).same (frozenRow row') = true ↔
      Value.alignedItems row row' = true := by
  have hSame :
      List.Forall₂ (fun v w => Value.same v w = true)
        row row' := by
    rcases List.forall₂_iff_zip.mp hEqual with ⟨hLength, hZip⟩
    refine List.forall₂_iff_zip.mpr ⟨hLength, ?_⟩
    intro v w hPair
    have hv := h v (List.of_mem_zip hPair).1
    exact
      Value.same_of_equals (Value.not_endless_of_proper hv.proper)
        (hZip hPair)
  exact
    Value.same_frozenItems_iff
      (fun v hv w hw =>
        Value.same_frozen_iff_aligned (h v hv) (h' w hw)) hSame

/- The first rows are some of the rows, in their order. -/
theorem firstRows_sublist (rows : List (List Value)) :
    (firstRows rows).Sublist rows := by
  unfold firstRows
  have hFilter :=
    List.filter_sublist (p := fun p : List Value × ℕ =>
      !(frozenRow p.1).memberOf
        ((rows.take p.2).map frozenRow)) (l := rows.zipIdx)
  have hMap := hFilter.map Prod.fst
  rwa [List.zipIdx_map_fst] at hMap

/- Every row freezes to what one of the first rows freezes to. -/
theorem exists_mem_firstRows
    {rows : List (List Value)}
    {row : List Value}
    (h : row ∈ rows) :
    ∃ r ∈ firstRows rows,
      (frozenRow r).same (frozenRow row) = true := by
  rcases Value.exists_mem_distinct (List.mem_map_of_mem h) with
    ⟨x, hx, hSame⟩
  rw [← map_frozenRow_firstRows] at hx
  rcases List.mem_map.mp hx with ⟨r, hr, rfl⟩
  exact ⟨r, hr, hSame⟩

/-
  Plain values freeze to what may be a member of a set, and
  equal ones freeze to equal ones exactly if they are aligned.
  In what order the entries of their maps came does not matter
  for this.  So both shapes keep some of the rows, in order,
  one for each frozen form; and of two equal rows that are
  aligned, not both.
-/
theorem shapeRows_aligned
    {source : Value}
    {rows : List (List Value)}
    (hRows :
      shapeRows .rowList none source
        = .ok (.list (rows.map Value.tuple)))
    (hPlain : ∀ row ∈ rows, IsPlainRow row) :
    (∀ v w : Value, v.IsPlain → w.IsPlain →
        v.frozen.hashable = true
          ∧ (v.equals w = .ok true →
            v.frozen.equals w.frozen = .ok (v.aligned w)))
      ∧ (∀ xs ys : List (Value × Value), (Value.map xs).IsPlain →
        (xs.map Prod.fst).Perm (ys.map Prod.fst) →
          (Value.map xs).aligned (.map ys)
            = Value.alignedEntries xs ys)
      ∧ ∃ kept : List (List Value),
        kept.Sublist rows
          ∧ shapeRows .tupleSet none source
            = .ok (.set (kept.map frozenRow))
          ∧ (∀ (labels : List String) (labelling : Value),
            labelling.items = .ok (labels.map Value.str) →
              (∀ row ∈ rows, row.length = labels.length) →
                shapeRows .mapSet (some labelling) source
                  = .ok (.list (kept.map (rowMap labels))))
          ∧ (∀ row ∈ rows, ∃ r ∈ kept,
            (frozenRow r).same (frozenRow row) = true)
          ∧ kept.Pairwise (fun r s =>
            List.Forall₂ (fun v w => v.equals w = .ok true) r s →
              Value.alignedItems r s = false) := by
  have hKeys :
      ∀ row ∈ rows, rowKey row = .ok (frozenRow row) :=
    fun row hRow => (hPlain row hRow).rowKey_eq_ok
  refine ⟨?_, ?_, firstRows rows, firstRows_sublist rows, ?_⟩
  · intro v w hv hw
    exact
      ⟨(Value.isKey_frozen hv).hashable,
        Value.equals_frozen hv hw⟩
  · exact fun xs ys => Value.aligned_map_of_perm
  · refine
      ⟨shapeRows_tupleSet hRows hKeys, ?_,
        fun row => exists_mem_firstRows, ?_⟩
    · intro labels labelling hLabelling hWidth
      exact shapeRows_rowMap hLabelling hRows hKeys hWidth
    · refine (pairwise_firstRows rows).imp_of_mem ?_
      intro r s hr hs hDiffer hEqual
      rw [Bool.eq_false_iff]
      intro hAligned
      have hSame :=
        ((hPlain r (mem_of_mem_firstRows hr)).same_frozenRow_iff
          (hPlain s (mem_of_mem_firstRows hs)) hEqual).mpr
          hAligned
      rw [hDiffer] at hSame
      cases hSame

/- A map with an integer as key. -/
def oneMap : Value :=
  .map [(.int 1, .str "a"), (.int 2, .str "b")]

/- An equal map, whose first key comes last in order. -/
def trueMap : Value :=
  .map [(.bool true, .str "a"), (.int 2, .str "b")]

/- They are plain. -/
theorem isPlain_oneMap : oneMap.IsPlain := by
  refine .map ?_ ?_ (by decide +kernel) ?_
  · simp [Value.IsPlain.int]
  · simp [Value.hashable]
  · simp [Value.IsPlain.str]

/- So is this one. -/
theorem isPlain_trueMap : trueMap.IsPlain := by
  refine .map ?_ ?_ (by decide +kernel) ?_
  · simp [Value.IsPlain.int, Value.IsPlain.bool]
  · simp [Value.hashable]
  · simp [Value.IsPlain.str]

/- Their keys do not pair up in order. -/
theorem not_aligned_oneMap_trueMap :
    oneMap.aligned trueMap = false := by
  have hOne :
      Value.sortedKeys
          [(.int 1, .str "a"), (.int 2, .str "b")]
        = [.int 1, .int 2] := by
    refine
      isPlain_oneMap.keyTable.sortedKeys_eq_of_ascend (.refl _) ?_
    exact List.pairwise_pair.mpr (by decide +kernel)
  have hTrue :
      Value.sortedKeys
          [(.bool true, .str "a"), (.int 2, .str "b")]
        = [.int 2, .bool true] := by
    refine
      isPlain_trueMap.keyTable.sortedKeys_eq_of_ascend
        (.swap _ _ _) ?_
    exact List.pairwise_pair.mpr (by decide +kernel)
  rw [oneMap, trueMap, Value.aligned, hOne, hTrue]
  decide +kernel

/- So their rows are both kept, although they are equal. -/
theorem shapeRows_oneMap_trueMap :
    let source := Value.list [.tuple [oneMap], .tuple [trueMap]]
    let labels := Value.list [.str "x"]
    oneMap.equals trueMap = .ok true
      ∧ oneMap.frozen.equals trueMap.frozen = .ok false
      ∧ ∃ kept : List (List Value),
        shapeRows .tupleSet none source
            = .ok (.set (kept.map frozenRow))
          ∧ shapeRows .mapSet (some labels) source
            = .ok (.list (kept.map (rowMap ["x"])))
          ∧ [oneMap] ∈ kept
          ∧ [trueMap] ∈ kept := by
  intro source labels
  have hLabelling :
      labels.items = .ok (["x"].map Value.str) := rfl
  have hRows :
      shapeRows .rowList none source
        = .ok
          (.list ([[oneMap], [trueMap]].map Value.tuple)) := rfl
  have hWidth :
      ∀ row ∈ [[oneMap], [trueMap]],
        row.length = ["x"].length := by
    simp
  have hPlain :
      ∀ row ∈ [[oneMap], [trueMap]], IsPlainRow row := by
    simp [IsPlainRow, isPlain_oneMap, isPlain_trueMap]
  rcases shapeRows_aligned hRows hPlain with
    ⟨hValues, -, kept, hSub, hSet, hMaps, hFound, -⟩
  have hEqual : oneMap.equals trueMap = .ok true := by
    have hSame : oneMap.same trueMap = true := by decide +kernel
    rw [isPlain_oneMap.equals_eq isPlain_trueMap, hSame]
  have hFrozen :=
    (hValues _ _ isPlain_oneMap isPlain_trueMap).2 hEqual
  rw [not_aligned_oneMap_trueMap] at hFrozen
  have hOne := (Value.isKey_frozen isPlain_oneMap).plain
  have hTrue := (Value.isKey_frozen isPlain_trueMap).plain
  have hDiffer : oneMap.frozen.same trueMap.frozen = false :=
    Except.ok.inj ((hOne.equals_eq hTrue).symm.trans hFrozen)
  have hDiffer' : trueMap.frozen.same oneMap.frozen = false :=
    Value.same_comm hOne.proper hTrue.proper ▸ hDiffer
  refine
    ⟨hEqual, hFrozen, kept, hSet,
      hMaps ["x"] labels hLabelling hWidth, ?_, ?_⟩
  · rcases hFound _ List.mem_cons_self with ⟨r, hr, hSame⟩
    have hMem := hSub.subset hr
    simp only [List.mem_cons, List.not_mem_nil, or_false] at hMem
    rcases hMem with rfl | rfl
    · exact hr
    · simp [frozenRow, Value.frozenItems, Value.same,
        Value.sameItems, hDiffer'] at hSame
  · rcases hFound _ (List.mem_cons_of_mem _ List.mem_cons_self)
      with ⟨r, hr, hSame⟩
    have hMem := hSub.subset hr
    simp only [List.mem_cons, List.not_mem_nil, or_false] at hMem
    rcases hMem with rfl | rfl
    · simp [frozenRow, Value.frozenItems, Value.same,
        Value.sameItems, hDiffer] at hSame
    · exact hr

end FactBase
