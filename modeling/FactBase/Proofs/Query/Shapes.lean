import Mathlib.Logic.Relation
import FactBase.Query.Rows
import FactBase.Proofs.Outcome
import FactBase.Proofs.Value.Freezing

/-
  This file shows that the shapes of a result describe the
  same rows.  Both the set of frozen rows and the list of maps
  have one member for each row that freezes to something new,
  in the order of the rows.  That nothing is lost or there
  twice among the maps rests on data freezing alike where it
  is the same.

  Key definitions include:
    * `IsDataRow`
    * `firstRows`
    * `DropsRepeat`

  Key theorems include:
    * `firstRows_concat`
    * `map_frozenRow_firstRows`
    * `firstRows_of_dropsRepeat`
    * `shapeRows_tupleSet`
    * `shapeRows_rowMap`
    * `shapeRows_mapSet`
    * `shapeRows_firstRows`
-/

------------------------------------------------------------
-- First Rows
------------------------------------------------------------

namespace FactBase

open Sorting

open Value in
/-
  The rows that freeze to what no row before them freezes to,
  in their order.
-/
def firstRows (rows : List (List Value)) : List (List Value) :=
  (rows.zipIdx.filter (fun p =>
    !(frozenRow p.1).memberOf
      ((rows.take p.2).map frozenRow))).map Prod.fst

/- A further row is a first one if it freezes to something new. -/
theorem firstRows_concat
    (rows : List (List Value))
    (row : List Value) :
    firstRows (rows ++ [row])
      = if (frozenRow row).memberOf (rows.map frozenRow) then
          firstRows rows
        else firstRows rows ++ [row] := by
  have hBefore :
      rows.zipIdx.filter (fun p =>
          !(frozenRow p.1).memberOf
            (((rows ++ [row]).take p.2).map frozenRow))
        = rows.zipIdx.filter (fun p =>
          !(frozenRow p.1).memberOf
            ((rows.take p.2).map frozenRow)) := by
    apply List.filter_congr
    rintro ⟨r, i⟩ hp
    have hLess : i < rows.length := by
      have hBounds := List.mem_zipIdx hp
      omega
    rw [List.take_append_of_le_length (by omega)]
  unfold firstRows
  rw [List.zipIdx_append, List.filter_append, List.map_append,
    hBefore]
  cases hKnown :
      (frozenRow row).memberOf (rows.map frozenRow) <;>
    simp [hKnown]

/- The first rows freeze to what all rows freeze to. -/
theorem map_frozenRow_firstRows (rows : List (List Value)) :
    (firstRows rows).map frozenRow
      = Value.distinct (rows.map frozenRow) := by
  induction rows using List.reverseRecOn with
  | nil => rfl
  | append_singleton rows row ih =>
      rw [firstRows_concat, List.map_append, List.map_singleton,
        Value.distinct_concat, Value.keep,
        Value.memberOf_distinct, ← ih]
      split
      · rfl
      · rw [List.map_append, List.map_singleton]

/- Every first row is one of the rows. -/
theorem mem_of_mem_firstRows
    {rows : List (List Value)}
    {row : List Value}
    (h : row ∈ firstRows rows) : row ∈ rows := by
  induction rows using List.reverseRecOn with
  | nil => exact h
  | append_singleton rows r ih =>
      rw [firstRows_concat] at h
      split at h
      · exact List.mem_append_left _ (ih h)
      · rcases List.mem_append.mp h with hOld | hNew
        · exact List.mem_append_left _ (ih hOld)
        · exact List.mem_append_right _ hNew

/- No first row freezes to what a later one freezes to. -/
theorem pairwise_firstRows (rows : List (List Value)) :
    (firstRows rows).Pairwise (fun r s =>
      (frozenRow r).same (frozenRow s) = false) := by
  have hApart :=
    Value.apart_iff.mp
      (Value.apart_distinct (rows.map frozenRow))
  rw [← map_frozenRow_firstRows] at hApart
  exact List.pairwise_map.mp hApart

/-
  A row is left out that freezes to what some row before it
  freezes to.
-/
inductive DropsRepeat :
    List (List Value) → List (List Value) → Prop where
  | drop
      {before after : List (List Value)}
      {row : List Value}
      (h :
        ∃ s ∈ before,
          (frozenRow s).same (frozenRow row) = true) :
      DropsRepeat (before ++ row :: after) (before ++ after)

/- Leaving it out changes nothing about the first rows. -/
theorem firstRows_of_dropsRepeat
    {rows rows' : List (List Value)}
    (h : DropsRepeat rows rows') :
    firstRows rows = firstRows rows' := by
  rcases h with ⟨⟨s, hs, hSame⟩⟩
  rename_i before after row
  induction after using List.reverseRecOn with
  | nil =>
      rw [firstRows_concat, List.append_nil, if_pos]
      exact
        Value.memberOf_iff.mpr
          ⟨_, List.mem_map_of_mem hs, hSame⟩
  | append_singleton after r ih =>
      have hKnown :
          (frozenRow r).memberOf
              ((before ++ row :: after).map frozenRow)
            = (frozenRow r).memberOf
              ((before ++ after).map frozenRow) := by
        rw [Bool.eq_iff_iff, Value.memberOf_iff,
          Value.memberOf_iff]
        simp only [List.map_append, List.map_cons,
          List.mem_append, List.mem_cons]
        constructor
        · rintro ⟨x, hBefore | rfl | hAfter, hx⟩
          · exact ⟨x, .inl hBefore, hx⟩
          · exact
              ⟨_, .inl (List.mem_map_of_mem hs),
                Value.same_trans hSame hx⟩
          · exact ⟨x, .inr hAfter, hx⟩
        · rintro ⟨x, hBefore | hAfter, hx⟩
          · exact ⟨x, .inl hBefore, hx⟩
          · exact ⟨x, .inr (.inr hAfter), hx⟩
      rw [← List.cons_append, ← List.append_assoc,
        ← List.append_assoc, firstRows_concat,
        firstRows_concat, hKnown, ih]

/- What is left are rows that were there. -/
theorem subset_of_dropsRepeat
    {rows rows' : List (List Value)}
    (h : DropsRepeat rows rows') : rows' ⊆ rows := by
  rcases h with ⟨_⟩
  intro r hr
  simp only [List.mem_append, List.mem_cons] at hr ⊢
  tauto

------------------------------------------------------------
-- Rows of Data
------------------------------------------------------------

/-
  A row of data as callers have it: no set and no map in it
  holds anything twice.
-/
def IsDataRow (row : List Value) : Prop :=
  ∀ v ∈ row, v.IsData ∧ v.proper = true

/- A row in order whose frozen form may be a member is known by it. -/
theorem rowKey_eq_frozenRow
    {row : List Value}
    (hProper : ∀ v ∈ row, v.proper = true)
    (hHashable : ∀ v ∈ row, (Value.frozen v).hashable = true) :
    rowKey row = .ok (frozenRow row) := by
  have hEnd : row.mapM Value.toEnd = .ok row := by
    rw [Outcome.mapM_eq_ok, List.forall₂_same]
    intro v hv
    rw [Value.toEnd, Value.not_endless_of_proper (hProper v hv)]
    rfl
  have hMember : (frozenRow row).hashable = true := by
    rw [frozenRow, Value.hashable, Value.hashableItems_iff]
    intro x hx
    rcases Value.mem_frozenItems.mp hx with ⟨v, hv, rfl⟩
    exact hHashable v hv
  rw [rowKey, hEnd, ok_bind, if_pos hMember]
  rfl

/- Such a row is recognised by its frozen form. -/
theorem IsDataRow.rowKey_eq_ok
    {row : List Value}
    (h : IsDataRow row) : rowKey row = .ok (frozenRow row) :=
  rowKey_eq_frozenRow (fun v hv => (h v hv).2)
    (fun v hv => Value.hashable_frozen (h v hv).1)

/- Rows that are the same freeze to the same. -/
theorem IsDataRow.same_frozenRow
    {row row' : List Value}
    (h : IsDataRow row)
    (h' : IsDataRow row')
    (hSame :
      List.Forall₂ (fun v w => Value.same v w = true)
        row row') :
    (frozenRow row).same (frozenRow row') = true := by
  refine Value.same_tuple_iff.mpr ⟨_, rfl, ?_⟩
  refine Value.forall₂_frozenItems ?_ hSame
  intro v hv w hw
  exact
    Value.same_frozen (h v hv).1 (h' w hw).1 (h v hv).2
      (h' w hw).2

------------------------------------------------------------
-- Rows as Maps
------------------------------------------------------------

/- A row as a map from its labels. -/
def rowRecord
    (labels : List String)
    (row : List Value) : Value :=
  .map ((labels.map Value.str).zip row)

/-
  A row as a map from labels that may be repeated.  The later
  value stands under such a label.
-/
def rowMap
    (labels : List String)
    (row : List Value) : Value :=
  .map (Table.putAll ((labels.map Value.str).zip row) [])

section Records

variable {labels : List String}
variable {row row' : List Value}

/- Labels are texts, so a row can always be labelled. -/
theorem labeledRow_eq_ok
    (labels : List String)
    (row : List Value) :
    labeledRow (labels.map Value.str) row
      = .ok (rowMap labels row) := by
  have hTexts :
      ((labels.map Value.str).take row.length).all
          Value.hashable
        = true := by
    rw [List.all_eq_true]
    intro v hv
    rcases List.mem_map.mp (List.mem_of_mem_take hv) with
      ⟨s, _, rfl⟩
    rfl
  rw [labeledRow, if_pos hTexts]
  rfl

/- The keys of the map are the labels. -/
theorem keys_rowRecord
    (hWidth : row.length = labels.length) :
    ((labels.map Value.str).zip row).map Prod.fst
      = labels.map Value.str := by
  rw [List.map_fst_zip]
  rw [List.length_map, hWidth]

/- Its values are those of the row. -/
theorem values_rowRecord
    (hWidth : row.length = labels.length) :
    ((labels.map Value.str).zip row).map Prod.snd = row := by
  rw [List.map_snd_zip]
  rw [List.length_map, hWidth]

/- Labels that are distinct make a table. -/
theorem ofTexts_rowRecord
    (hLabels : labels.Nodup)
    (hWidth : row.length = labels.length) :
    Table.OfTexts ((labels.map Value.str).zip row) where
  texts := by
    intro e he
    rcases List.mem_map.mp (List.of_mem_zip he).1 with
      ⟨s, _, hEq⟩
    exact ⟨s, hEq.symm⟩
  distinct := by
    have hKeys : (labels.map Value.str).Nodup :=
      hLabels.map (fun _ _ hEq => Value.str.inj hEq)
    rw [← keys_rowRecord hWidth] at hKeys
    exact List.pairwise_map.mp hKeys

/- Entries that are put in one by one stay where they are. -/
theorem rowMap_eq_rowRecord
    (hLabels : labels.Nodup)
    (hWidth : row.length = labels.length) :
    rowMap labels row = rowRecord labels row := by
  have hTable :
      Table.OfTexts ([] ++ (labels.map Value.str).zip row) :=
    ofTexts_rowRecord hLabels hWidth
  rw [rowMap, hTable.putAll_eq_append]
  rfl

/- Maps from the same labels are the same if the rows are. -/
theorem forall₂_of_same_rowRecord
    (hLabels : labels.Nodup)
    (hWidth : row.length = labels.length)
    (hWidth' : row'.length = labels.length)
    (h :
      (rowRecord labels row).same (rowRecord labels row')
        = true) :
    List.Forall₂ (fun v w => Value.same v w = true)
      row row' := by
  rcases Value.same_map_iff.mp h with ⟨ys, hEq, _, hFound⟩
  rw [rowRecord, Value.map.injEq] at hEq
  subst hEq
  have hTable := ofTexts_rowRecord hLabels hWidth
  have hAgree :=
    Value.forall₂_of_keys
      (R := fun v w => Value.same v w = true)
      ((keys_rowRecord hWidth).trans
        (keys_rowRecord hWidth').symm)
      (ofTexts_rowRecord hLabels hWidth').distinct
      (fun x hx => by
        rcases hFound x hx with ⟨y, hy, hKey, hValue⟩
        rcases hTable.texts x hx with ⟨s, hText⟩
        rw [hText] at hKey ⊢
        exact ⟨y, hy, (Value.same_bare_iff rfl).mp hKey, hValue⟩)
  rw [← values_rowRecord hWidth, ← values_rowRecord hWidth',
    List.forall₂_map_left_iff, List.forall₂_map_right_iff]
  exact hAgree.imp (fun _ _ hBoth => hBoth.2)

/- A map of a row of data is in order. -/
theorem proper_rowRecord
    (hLabels : labels.Nodup)
    (hWidth : row.length = labels.length)
    (h : IsDataRow row) :
    (rowRecord labels row).proper = true := by
  have hTable := ofTexts_rowRecord hLabels hWidth
  refine Value.proper_iff.mpr ⟨?_, ?_⟩
  · refine Value.apart_iff.mpr (List.pairwise_map.mpr ?_)
    refine hTable.distinct.imp_of_mem ?_
    intro e e' he _ hDiffer
    rcases hTable.texts e he with ⟨s, hText⟩
    rw [Bool.eq_false_iff, hText]
    intro hSame
    refine hDiffer ?_
    rw [hText]
    exact (Value.same_bare_iff rfl).mp hSame
  · intro x hx
    rw [rowRecord, Value.parts, keys_rowRecord hWidth,
      values_rowRecord hWidth, List.mem_append] at hx
    rcases hx with hx | hx
    · rcases List.mem_map.mp hx with ⟨s, _, rfl⟩
      rfl
    · exact (h x hx).2

end Records

------------------------------------------------------------
-- Shapes
------------------------------------------------------------

/- The rows that a result gives one by one. -/
theorem exists_of_rowList
    {source : Value}
    {rows : List (List Value)}
    (h :
      shapeRows .rowList none source
        = .ok (.list (rows.map Value.tuple))) :
    ∃ given, source.items = .ok given
      ∧ List.Forall₂ (fun g row => Value.items g = .ok row)
        given rows := by
  unfold shapeRows at h
  rcases bind_eq_ok.mp h with ⟨given, hGiven, hRest⟩
  rcases bind_eq_ok.mp hRest with ⟨found, hItems, hEq⟩
  have hTuples : found.map Value.tuple = rows.map Value.tuple :=
    Value.list.inj (pure_eq_ok.mp hEq)
  have hRows : found = rows :=
    List.map_injective_iff.mpr
      (fun _ _ hSame => Value.tuple.inj hSame) hTuples
  rw [hRows, Outcome.mapM_eq_ok] at hItems
  exact ⟨given, hGiven, hItems⟩

section Folds

variable {given : List Value}
variable {rows : List (List Value)}

/- Frozen rows are kept one by one. -/
theorem foldlM_addFrozen
    (hItems :
      List.Forall₂ (fun g row => Value.items g = .ok row)
        given rows)
    (hKeys : ∀ row ∈ rows, rowKey row = .ok (frozenRow row))
    (kept : List Value) :
    given.foldlM addFrozen kept
      = .ok ((rows.map frozenRow).foldl Value.keep kept) := by
  induction hItems generalizing kept with
  | nil => rfl
  | @cons g row given rows hHead _ ih =>
      rw [List.forall_mem_cons] at hKeys
      have hAdd :
          addFrozen kept g
            = .ok (Value.keep kept (frozenRow row)) := by
        rw [addFrozen, hHead, ok_bind, hKeys.1]
        rfl
      rw [List.foldlM_cons, hAdd, ok_bind]
      exact ih hKeys.2 _

/- The rows kept so far, with their maps. -/
def KeyedRows.ofRows
    (labels : List String)
    (rows : List (List Value)) : KeyedRows where
  seen := (firstRows rows).map frozenRow
  maps := (firstRows rows).map (rowMap labels)

/- So are rows as maps, unless they freeze to nothing new. -/
theorem foldlM_addKeyed
    {labels : List String}
    (hItems :
      List.Forall₂ (fun g row => Value.items g = .ok row)
        given rows)
    (hKeys : ∀ row ∈ rows, rowKey row = .ok (frozenRow row))
    (hWidth : ∀ row ∈ rows, row.length = labels.length)
    (before : List (List Value)) :
    given.foldlM (addKeyed (labels.map Value.str))
        (KeyedRows.ofRows labels before)
      = .ok (KeyedRows.ofRows labels (before ++ rows)) := by
  induction hItems generalizing before with
  | nil =>
      rw [List.append_nil]
      rfl
  | @cons g row given rows hHead _ ih =>
      rw [List.forall_mem_cons] at hKeys hWidth
      have hAdd :
          addKeyed (labels.map Value.str)
              (KeyedRows.ofRows labels before) g
            = .ok
              (KeyedRows.ofRows labels (before ++ [row])) := by
        unfold addKeyed KeyedRows.ofRows
        rw [hHead, ok_bind, if_pos (by simp [hWidth.1]),
          hKeys.1, ok_bind, map_frozenRow_firstRows,
          map_frozenRow_firstRows, Value.memberOf_distinct,
          firstRows_concat, List.map_append, List.map_singleton,
          Value.distinct_concat, Value.keep,
          Value.memberOf_distinct]
        split
        · rfl
        · rw [labeledRow_eq_ok, ok_bind, List.map_append,
            List.map_singleton]
          rfl
      rw [List.foldlM_cons, hAdd, ok_bind,
        ih hKeys.2 hWidth.2, List.append_assoc,
        List.singleton_append]

end Folds

variable {source : Value}
variable {rows : List (List Value)}

/- The set of rows has the frozen forms of the first rows. -/
theorem shapeRows_tupleSet
    (hRows :
      shapeRows .rowList none source
        = .ok (.list (rows.map Value.tuple)))
    (hKeys : ∀ row ∈ rows, rowKey row = .ok (frozenRow row)) :
    shapeRows .tupleSet none source
      = .ok (.set ((firstRows rows).map frozenRow)) := by
  rcases exists_of_rowList hRows with ⟨given, hGiven, hItems⟩
  unfold shapeRows
  rw [hGiven, ok_bind, foldlM_addFrozen hItems hKeys, ok_bind,
    map_frozenRow_firstRows]
  rfl

/- The maps are those of the first rows. -/
theorem shapeRows_rowMap
    {labels : List String}
    {labelling : Value}
    (hLabelling : labelling.items = .ok (labels.map Value.str))
    (hRows :
      shapeRows .rowList none source
        = .ok (.list (rows.map Value.tuple)))
    (hKeys : ∀ row ∈ rows, rowKey row = .ok (frozenRow row))
    (hWidth : ∀ row ∈ rows, row.length = labels.length) :
    shapeRows .mapSet (some labelling) source
      = .ok (.list ((firstRows rows).map (rowMap labels))) := by
  rcases exists_of_rowList hRows with ⟨given, hGiven, hItems⟩
  have hStart :
      ({ seen := [], maps := [] } : KeyedRows)
        = KeyedRows.ofRows labels [] := rfl
  simp only [shapeRows]
  rw [hLabelling, ok_bind, hGiven, ok_bind, hStart,
    foldlM_addKeyed hItems hKeys hWidth, ok_bind]
  rfl

/- Without repeated labels, they have the values in order. -/
theorem shapeRows_mapSet
    {labels : List String}
    {labelling : Value}
    (hLabels : labels.Nodup)
    (hLabelling : labelling.items = .ok (labels.map Value.str))
    (hRows :
      shapeRows .rowList none source
        = .ok (.list (rows.map Value.tuple)))
    (hKeys : ∀ row ∈ rows, rowKey row = .ok (frozenRow row))
    (hWidth : ∀ row ∈ rows, row.length = labels.length) :
    shapeRows .mapSet (some labelling) source
      = .ok
        (.list ((firstRows rows).map (rowRecord labels))) := by
  have hMaps :
      (firstRows rows).map (rowMap labels)
        = (firstRows rows).map (rowRecord labels) := by
    apply List.map_congr_left
    intro row hRow
    exact
      rowMap_eq_rowRecord hLabels
        (hWidth row (mem_of_mem_firstRows hRow))
  rw [shapeRows_rowMap hLabelling hRows hKeys hWidth, hMaps]

/- Maps of rows that freeze differently are not equal. -/
theorem equals_rowRecord
    {labels : List String}
    {row row' : List Value}
    (hLabels : labels.Nodup)
    (hWidth : row.length = labels.length)
    (hWidth' : row'.length = labels.length)
    (h : IsDataRow row)
    (h' : IsDataRow row')
    (hDiffer :
      (frozenRow row).same (frozenRow row') = false) :
    (rowRecord labels row).equals (rowRecord labels row')
        = .ok false
      ∧ (rowRecord labels row').equals (rowRecord labels row)
        = .ok false := by
  have hProper := proper_rowRecord hLabels hWidth h
  have hProper' := proper_rowRecord hLabels hWidth' h'
  have hUnequal :
      (rowRecord labels row).equal (rowRecord labels row')
        = false := by
    rw [Bool.eq_false_iff]
    intro hEqual
    have hSame :=
      forall₂_of_same_rowRecord hLabels hWidth hWidth'
        (Value.same_of_equal hEqual)
    rw [h.same_frozenRow h' hSame] at hDiffer
    cases hDiffer
  rw [Value.equals_of_proper hProper hProper',
    Value.equals_of_proper hProper' hProper,
    Value.equal_comm hProper' hProper, hUnequal]
  exact ⟨rfl, rfl⟩

/-
  The set of rows and the list of maps describe the same rows.
  Each row that freezes to something new has its frozen form
  in the set, once, and its values in a map, and no two maps
  are equal.  Rows that freeze to what was there before can be
  left out.
-/
theorem shapeRows_firstRows
    {labels : List String}
    {labelling : Value}
    (hLabels : labels.Nodup)
    (hLabelling : labelling.items = .ok (labels.map Value.str))
    (hRows :
      shapeRows .rowList none source
        = .ok (.list (rows.map Value.tuple)))
    (hWidth : ∀ row ∈ rows, row.length = labels.length)
    (hData : ∀ row ∈ rows, IsDataRow row) :
    shapeRows .tupleSet none source
        = .ok (.set ((firstRows rows).map frozenRow))
      ∧ shapeRows .mapSet (some labelling) source
        = .ok (.list ((firstRows rows).map (rowRecord labels)))
      ∧ ((firstRows rows).map frozenRow).Pairwise
        (fun v w => v.same w = false)
      ∧ ((firstRows rows).map (rowRecord labels)).Pairwise
        (fun m n =>
          m.equals n = .ok false ∧ n.equals m = .ok false)
      ∧ ∀ rows' source',
        Relation.ReflTransGen DropsRepeat rows rows' →
          shapeRows .rowList none source'
              = .ok (.list (rows'.map Value.tuple)) →
            shapeRows .tupleSet none source'
                = shapeRows .tupleSet none source
              ∧ shapeRows .mapSet (some labelling) source'
                = shapeRows .mapSet (some labelling) source := by
  have hKeys :
      ∀ row ∈ rows, rowKey row = .ok (frozenRow row) :=
    fun row hRow => (hData row hRow).rowKey_eq_ok
  have hSet := shapeRows_tupleSet hRows hKeys
  have hMaps :=
    shapeRows_mapSet hLabels hLabelling hRows hKeys hWidth
  refine ⟨hSet, hMaps, ?_, ?_, ?_⟩
  · exact List.pairwise_map.mpr (pairwise_firstRows rows)
  · refine
      List.pairwise_map.mpr
        ((pairwise_firstRows rows).imp_of_mem ?_)
    intro r s hr hs hDiffer
    have hr' := mem_of_mem_firstRows hr
    have hs' := mem_of_mem_firstRows hs
    exact
      equals_rowRecord hLabels (hWidth r hr') (hWidth s hs')
        (hData r hr') (hData s hs') hDiffer
  · intro rows' source' hDrops hRows'
    have hLess :
        firstRows rows' = firstRows rows ∧ rows' ⊆ rows := by
      clear hRows'
      induction hDrops with
      | refl => exact ⟨rfl, fun _ hr => hr⟩
      | tail _ hStep ih =>
          exact
            ⟨(firstRows_of_dropsRepeat hStep).symm.trans ih.1,
              fun _ hr =>
                ih.2 (subset_of_dropsRepeat hStep hr)⟩
    have hKeys' :
        ∀ row ∈ rows', rowKey row = .ok (frozenRow row) :=
      fun row hRow => hKeys row (hLess.2 hRow)
    have hWidth' :
        ∀ row ∈ rows', row.length = labels.length :=
      fun row hRow => hWidth row (hLess.2 hRow)
    rw [shapeRows_tupleSet hRows' hKeys',
      shapeRows_mapSet hLabels hLabelling hRows' hKeys' hWidth',
      hSet, hMaps, hLess.1]
    exact ⟨rfl, rfl⟩

/- A row with a list and a map. -/
def listRow : List Value :=
  [ .list [.int 1]
  , .map [(.str "a", .int 1), (.str "b", .int 2)] ]

/- A row that freezes to what that one does. -/
def turnedRow : List Value :=
  [ .tuple [.bool true]
  , .map [(.str "b", .int 2), (.str "a", .int 1)] ]

/- Rows of which the second repeats the first. -/
def repeatedRows : List (List Value) :=
  [listRow, turnedRow, [.null, .set [.str "a"]]]

/- They are rows of data. -/
theorem isDataRow_repeatedRows :
    ∀ row ∈ repeatedRows, IsDataRow row := by
  unfold repeatedRows listRow turnedRow IsDataRow
  simp only [List.forall_mem_cons, List.not_mem_nil,
    false_imp_iff, implies_true, and_true]
  refine
    ⟨⟨⟨?_, by decide +kernel⟩, ?_, by decide +kernel⟩,
      ⟨⟨?_, by decide +kernel⟩, ?_, by decide +kernel⟩,
      ⟨.null, by decide +kernel⟩, ?_, by decide +kernel⟩
  · exact .list (by simpa using .int 1)
  · exact .map (by simp) (by simp [Value.IsData.int])
  · exact .tuple (by simpa using .bool true)
  · exact .map (by simp) (by simp [Value.IsData.int])
  · exact .set (by simpa using .str "a")

/- So the second one can be left out. -/
theorem dropsRepeat_repeatedRows :
    DropsRepeat repeatedRows
      ([listRow] ++ [[.null, .set [.str "a"]]]) := by
  have hRow := List.forall_mem_cons.mp isDataRow_repeatedRows
  have hNext := List.forall_mem_cons.mp hRow.2
  have hMap := hRow.1 _ (List.mem_cons_of_mem _ List.mem_cons_self)
  have hMap' := hNext.1 _ (List.mem_cons_of_mem _ List.mem_cons_self)
  have hSame :
      (frozenRow listRow).same (frozenRow turnedRow) = true := by
    refine Value.same_tuple_iff.mpr ⟨_, rfl, ?_⟩
    refine .cons (by decide +kernel) (.cons ?_ .nil)
    exact
      Value.same_frozen hMap.1 hMap'.1 hMap.2 hMap'.2
        (by decide +kernel)
  exact .drop ⟨listRow, List.mem_singleton_self _, hSame⟩

/- It is in neither shape. -/
theorem shapeRows_repeatedRows :
    let source := Value.list (repeatedRows.map Value.tuple)
    let labels := Value.list [.str "x", .str "y"]
    ∃ members maps : List Value,
      shapeRows .tupleSet none source = .ok (.set members)
        ∧ shapeRows .mapSet (some labels) source
          = .ok (.list maps)
        ∧ members.length = 2
        ∧ maps.length = 2 := by
  intro source labels
  have hLabels : ["x", "y"].Nodup := by decide
  have hLabelling :
      labels.items = .ok (["x", "y"].map Value.str) := rfl
  have hRows :
      shapeRows .rowList none source
        = .ok (.list (repeatedRows.map Value.tuple)) := rfl
  have hWidth :
      ∀ row ∈ repeatedRows,
        row.length = ["x", "y"].length := by
    decide
  rcases
    shapeRows_firstRows hLabels hLabelling hRows hWidth
      isDataRow_repeatedRows with
    ⟨hSet, hMaps, -⟩
  have hLength : (firstRows repeatedRows).length = 2 := by
    rw [firstRows_of_dropsRepeat dropsRepeat_repeatedRows,
      firstRows_concat, if_neg]
    · decide +kernel
    · rw [Value.memberOf_iff, List.map_singleton]
      rintro ⟨_, hMem, hSame⟩
      rw [List.mem_singleton.mp hMem] at hSame
      rcases Value.same_tuple_iff.mp hSame with ⟨_, hEq, hItems⟩
      cases hEq
      cases hItems with
      | cons hHead _ => exact absurd hHead (by decide +kernel)
  refine ⟨_, _, hSet, hMaps, ?_, ?_⟩
  · rw [List.length_map, hLength]
  · rw [List.length_map, hLength]

end FactBase
