import FactBase.Proofs.Outcome
import FactBase.Proofs.Query.Diagnosis
import FactBase.Proofs.Value.Proper
import FactBase.Proofs.Value.TextOrder
import FactBase.Proofs.Value.TextTable
import FactBase.Sorting.Comparable
import FactBase.Sorting.Linked

/-
  This file tells which documents have a canonical text, and
  so when examining a context comes to a result.  All values
  are written but for what literals wrap: there keys of maps
  are not made texts, and keys that are unfit for JSON or have
  no common order stop the writing.

  Key definitions include:
    * `Value.keySort`
    * `Value.fitKeys`
    * `Value.writable`
    * `QueryDocument.writable`

  Key theorems include:
    * `Value.fitKeys_iff`
    * `Value.exists_objectOf_iff`
    * `Value.exists_json_iff`
    * `QueryDocument.exists_canonicalText_iff`
    * `exists_diagnose_iff`
-/

------------------------------------------------------------
-- Keys
------------------------------------------------------------

namespace FactBase

open Sorting

/- What a value is as a key of an object. -/
inductive KeySort where
  | nothing
  | number
  | text
  | unfit
deriving DecidableEq, Repr

namespace Value

/- The sort of key that a value is. -/
def keySort : Value → KeySort
  | .null => .nothing
  | .bool _ => .number
  | .int _ => .number
  | .float _ => .number
  | .str _ => .text
  | _ => .unfit

/-
  Keys that can be written in order: numbers, texts, or
  nothing on its own.
-/
def fitKeys (keys : List Value) : Bool :=
  keys.all (fun k => k.keySort == .number)
    || keys.all (fun k => k.keySort == .text)
    || keys.map keySort == [.nothing]

variable {a b k : Value}
variable {r : Bool}

/- Numbers are what has a magnitude. -/
theorem keySort_eq_number_iff :
    k.keySort = .number ↔ k.magnitude?.isSome = true := by
  cases k <;> simp [keySort, magnitude?]

/- A key is written unless it is unfit. -/
theorem exists_jsonKey_iff :
    (∃ s, jsonKey k = .ok s) ↔ k.keySort ≠ .unfit := by
  cases k <;> simp [jsonKey, keySort]

/- Sets of either sort are unfit. -/
theorem keySort_of_members?
    {xs : List Value}
    (h : k.members? = some xs) : k.keySort = .unfit := by
  cases k <;> first | rfl | simp [members?] at h

/- What has an order is of one sort. -/
theorem keySort_of_orderedAtoms
    {c : Comparison}
    (h : orderedAtoms c a b = .ok r) :
    a.keySort = b.keySort ∧ a.keySort ≠ .nothing := by
  unfold orderedAtoms at h
  split at h
  next m n hm hn =>
    have ha : a.keySort = .number :=
      keySort_eq_number_iff.mpr (Option.isSome_of_eq_some hm)
    have hb : b.keySort = .number :=
      keySort_eq_number_iff.mpr (Option.isSome_of_eq_some hn)
    rw [ha, hb]
    exact ⟨rfl, nofun⟩
  next =>
    split at h
    next => exact ⟨rfl, nofun⟩
    next => exact ⟨rfl, nofun⟩
    next => exact ⟨rfl, nofun⟩
    next =>
      split at h
      next xs ys hxs hys =>
        rw [keySort_of_members? hxs, keySort_of_members? hys]
        exact ⟨rfl, nofun⟩
      next => cases h

/- So is what has an order by its items. -/
theorem keySort_of_ordered
    {c : Comparison}
    (h : ordered c a b = .ok r) :
    a.keySort = b.keySort ∧ a.keySort ≠ .nothing := by
  unfold ordered at h
  split at h
  · split at h
    · exact ⟨rfl, nofun⟩
    · exact keySort_of_orderedAtoms h
  · split at h
    · exact ⟨rfl, nofun⟩
    · exact keySort_of_orderedAtoms h
  · exact keySort_of_orderedAtoms h

/- Numbers have an order. -/
theorem exists_ordered_of_number
    {c : Comparison}
    (ha : a.keySort = .number)
    (hb : b.keySort = .number) :
    ∃ r, ordered c a b = .ok r := by
  have hAtoms : ordered c a b = orderedAtoms c a b := by
    cases a <;> cases ha <;> simp [ordered]
  rw [keySort_eq_number_iff, Option.isSome_iff_exists] at ha hb
  rcases ha with ⟨m, hm⟩
  rcases hb with ⟨n, hn⟩
  rw [hAtoms]
  unfold orderedAtoms
  rw [hm, hn]
  exact ⟨_, rfl⟩

/- Texts have an order. -/
theorem exists_ordered_of_text
    {c : Comparison}
    (ha : a.keySort = .text)
    (hb : b.keySort = .text) :
    ∃ r, ordered c a b = .ok r := by
  cases a <;> cases ha
  cases b <;> cases hb
  simp [ordered, orderedAtoms, magnitude?]

/- Two keys are of one sort, which has an order. -/
def KeysAlike (a b : Value) : Prop :=
  a.keySort = b.keySort ∧ a.keySort ≠ .nothing

/- Keys are fit if all are, and any two of them are alike. -/
theorem fitKeys_iff {keys : List Value} :
    fitKeys keys = true ↔
      (∀ k ∈ keys, k.keySort ≠ .unfit)
        ∧ keys.Pairwise KeysAlike := by
  constructor
  · intro h
    have hAll :
        ∀ sort : KeySort, sort ≠ .unfit → sort ≠ .nothing →
          (∀ k ∈ keys, k.keySort = sort) →
            (∀ k ∈ keys, k.keySort ≠ .unfit)
              ∧ keys.Pairwise KeysAlike := by
      intro sort hFit hOrder hSort
      refine ⟨fun k hk => hSort k hk ▸ hFit, ?_⟩
      refine List.pairwise_of_forall_mem_list ?_
      intro a ha b hb
      refine ⟨(hSort a ha).trans (hSort b hb).symm, ?_⟩
      exact hSort a ha ▸ hOrder
    simp only [fitKeys, Bool.or_eq_true, List.all_eq_true,
      beq_iff_eq] at h
    rcases h with (hNumbers | hTexts) | hNothing
    · exact hAll .number nofun nofun hNumbers
    · exact hAll .text nofun nofun hTexts
    · rcases List.map_eq_singleton_iff.mp hNothing with
        ⟨k, rfl, hk⟩
      refine ⟨?_, List.pairwise_singleton _ k⟩
      rw [List.forall_mem_singleton, hk]
      nofun
  · rintro ⟨hFit, hAlike⟩
    cases keys with
    | nil => rfl
    | cons k rest =>
        have hSame :
            ∀ b ∈ k :: rest, b.keySort = k.keySort := by
          intro b hb
          rcases List.mem_cons.mp hb with rfl | hb
          · rfl
          · exact ((List.pairwise_cons.mp hAlike).1 b hb).1.symm
        simp only [fitKeys, Bool.or_eq_true, List.all_eq_true,
          beq_iff_eq]
        cases hSort : k.keySort with
        | number =>
            exact .inl (.inl fun b hb => (hSame b hb).trans hSort)
        | text =>
            exact .inl (.inr fun b hb => (hSame b hb).trans hSort)
        | unfit =>
            exact absurd hSort (hFit k List.mem_cons_self)
        | nothing =>
            right
            cases rest with
            | nil => rw [List.map_singleton, hSort]
            | cons b rest =>
                have hFirst :=
                  (List.pairwise_cons.mp hAlike).1 b
                    List.mem_cons_self
                exact absurd hSort hFirst.2

------------------------------------------------------------
-- Objects
------------------------------------------------------------

/- Entries whose keys can be compared have keys alike. -/
theorem links_keyBefore
    {α : Type} :
    Links
      (fun p q : Value × α => KeysAlike p.1 q.1) keyBefore where
  compared := by
    intro p q b h
    unfold keyBefore at h
    split at h
    next hOrdered => exact keySort_of_ordered hOrdered
    next => cases h
  symm := fun ⟨hSame, hSort⟩ => ⟨hSame.symm, hSame ▸ hSort⟩
  trans := fun ⟨hFirst, hSort⟩ ⟨hSecond, _⟩ =>
    ⟨hFirst.trans hSecond, hSort⟩

/- Entries can be sorted if their keys are fit. -/
theorem exists_sort_keyBefore
    {α : Type}
    {entries : List (Value × α)}
    (h : fitKeys (entries.map Prod.fst) = true) :
    ∃ out, sort keyBefore entries = .ok out := by
  have hSort :
      ∀ s : KeySort,
        (∀ {a b : Value}, a.keySort = s → b.keySort = s →
          ∃ r, ordered .less a b = .ok r) →
        (∀ k ∈ entries.map Prod.fst, k.keySort = s) →
          ∃ out, sort keyBefore entries = .ok out := by
    intro s hOrdered hKeys
    refine
      exists_sort (P := fun p => p.1.keySort = s) ?_
        (List.forall_mem_map.mp hKeys)
    intro p q hp hq
    rcases hOrdered hp hq with ⟨r, hr⟩
    exact ⟨r, by rw [keyBefore, hr]⟩
  simp only [fitKeys, Bool.or_eq_true, List.all_eq_true,
    beq_iff_eq] at h
  rcases h with (hNumbers | hTexts) | hNothing
  · exact hSort .number exists_ordered_of_number hNumbers
  · exact hSort .text exists_ordered_of_text hTexts
  · rw [List.map_map] at hNothing
    rcases List.map_eq_singleton_iff.mp hNothing with
      ⟨e, rfl, -⟩
    exact ⟨[e], sort_singleton e⟩

/-
  An object is written exactly if its keys are fit and its
  values are written.
-/
theorem exists_objectOf_iff
    {entries : List (Value × Outcome String)} :
    (∃ s, objectOf entries = .ok s) ↔
      fitKeys (entries.map Prod.fst) = true
        ∧ ∀ e ∈ entries, ∃ s, e.2 = .ok s := by
  constructor
  · rintro ⟨s, h⟩
    rcases bind_eq_ok.mp h with ⟨sorted, hSorted, h⟩
    rcases bind_eq_ok.mp h with ⟨written, hWritten, -⟩
    have hEach :
        ∀ e ∈ entries,
          (∃ s, jsonKey e.1 = .ok s) ∧ ∃ s, e.2 = .ok s := by
      intro e he
      have hMem := (sort_perm hSorted).mem_iff.mpr he
      rcases Outcome.exists_mapM_eq_ok_iff.mp
          ⟨written, hWritten⟩ e hMem with
        ⟨out, hOut⟩
      rcases bind_eq_ok.mp hOut with ⟨key, hKey, hOut⟩
      rcases bind_eq_ok.mp hOut with ⟨value, hValue, -⟩
      exact ⟨⟨key, hKey⟩, value, hValue⟩
    refine ⟨fitKeys_iff.mpr ⟨?_, ?_⟩, fun e he => (hEach e he).2⟩
    · refine List.forall_mem_map.mpr fun e he => ?_
      exact exists_jsonKey_iff.mp (hEach e he).1
    · exact List.pairwise_map.mpr
        (pairwise_sort links_keyBefore hSorted)
  · rintro ⟨hKeys, hValues⟩
    refine exists_bind (exists_sort_keyBefore hKeys) ?_
    intro sorted hSorted
    refine exists_bind ?_ (fun _ _ => ⟨_, rfl⟩)
    refine Outcome.exists_mapM_eq_ok_iff.mpr ?_
    intro e he
    have hMem := (sort_perm hSorted).mem_iff.mp he
    have hFit :=
      (fitKeys_iff.mp hKeys).1 e.1 (List.mem_map_of_mem hMem)
    refine exists_bind (exists_jsonKey_iff.mpr hFit) ?_
    intro key _
    exact exists_bind (hValues e hMem) (fun _ _ => ⟨_, rfl⟩)

------------------------------------------------------------
-- Writable Values
------------------------------------------------------------

mutual

/-
  The value can be written.  Where keys of maps are texts,
  only the values that survive are written; otherwise the
  keys must be fit.  What a literal wraps is written as it is.
-/
def writable (textKeys : Bool) : Value → Bool
  | .list items => writableItems textKeys items
  | .tuple items => writableItems textKeys items
  | .map entries =>
      (textKeys || fitKeys (entries.map Prod.fst))
        && writableEntries textKeys entries
  | .set items => writableItems true items
  | .frozenset items => writableItems true items
  | .lit v => writable false v
  | _ => true

/- All items can be written. -/
def writableItems (textKeys : Bool) : List Value → Bool
  | [] => true
  | v :: vs => writable textKeys v && writableItems textKeys vs

/- The values of all entries that are left can be written. -/
def writableEntries
    (textKeys : Bool) : List (Value × Value) → Bool
  | [] => true
  | (k, v) :: entries =>
      (writable textKeys v
          || (textKeys
            && entries.any (fun e => e.1.text == k.text)))
        && writableEntries textKeys entries

end

/- Pairs are fit for keys only where keys are texts. -/
example :
    let pairs := Value.map [(.tuple [.int 1, .int 2], .int 3)]
    pairs.writable true = true
      ∧ (Value.lit pairs).writable true = false := by
  decide

variable {textKeys : Bool}
variable {items : List Value}
variable {entries : List (Value × Value)}

/- Whether items can be written is a matter of each. -/
theorem writableItems_iff :
    writableItems textKeys items = true ↔
      ∀ v ∈ items, writable textKeys v = true := by
  induction items with
  | nil => simp [writableItems]
  | cons v vs ih =>
      rw [writableItems, Bool.and_eq_true, ih,
        List.forall_mem_cons]

/- Where keys stay as they are, all values are written. -/
theorem writableEntries_iff :
    writableEntries false entries = true ↔
      ∀ e ∈ entries, writable false e.2 = true := by
  induction entries with
  | nil => simp [writableEntries]
  | cons e entries ih =>
      rcases e with ⟨k, v⟩
      rw [writableEntries, Bool.and_eq_true, ih,
        List.forall_mem_cons, Bool.false_and, Bool.or_false]

------------------------------------------------------------
-- Writing Values
------------------------------------------------------------

/- Items are written one by one. -/
theorem jsonItems_eq_map (items : List Value) :
    jsonItems textKeys items = items.map (json textKeys) := by
  induction items with
  | nil => rfl
  | cons v vs ih => rw [jsonItems, ih, List.map_cons]

/- So are the values of entries. -/
theorem jsonEntries_eq_map (entries : List (Value × Value)) :
    jsonEntries textKeys entries
      = entries.map (fun e => (e.1, json textKeys e.2)) := by
  induction entries with
  | nil => rfl
  | cons e entries ih =>
      rw [jsonEntries, ih, List.map_cons]

/- And so are the members of sets. -/
theorem jsonMembers_eq_map (items : List Value) :
    jsonMembers items
      = items.map
        (fun v => ((plain v).description, json true v)) := by
  induction items with
  | nil => rfl
  | cons v vs ih => rw [jsonMembers, ih, List.map_cons]

/- An array is written if its items are. -/
theorem exists_jsonArray_iff
    {written : List (Outcome String)} :
    (∃ s, (do return jsonArray (← written.mapM id)) = Except.ok s)
      ↔ ∀ x ∈ written, ∃ s, x = .ok s := by
  rw [exists_bind_pure_iff]
  exact Outcome.exists_mapM_eq_ok_iff

/- An object with texts for keys holds what survives. -/
theorem exists_objectOf_putAll_iff
    {entries : List (Value × Outcome String)}
    (h : ∀ e ∈ entries, ∃ s, e.1 = .str s) :
    (∃ s, objectOf (Table.putAll entries []) = .ok s) ↔
      ∀ e ∈ Table.surviving entries, ∃ s, e.2 = .ok s := by
  have hTexts := Table.OfTexts.nil.putAll h
  have hKeys :
      fitKeys ((Table.putAll entries []).map Prod.fst)
        = true := by
    have hAll :
        ∀ k ∈ (Table.putAll entries []).map Prod.fst,
          k.keySort = .text := by
      refine List.forall_mem_map.mpr fun e he => ?_
      rcases hTexts.texts e he with ⟨s, hs⟩
      rw [hs]
      rfl
    simp only [fitKeys, Bool.or_eq_true, List.all_eq_true,
      beq_iff_eq]
    exact .inl (.inr hAll)
  rw [exists_objectOf_iff, hKeys]
  simp only [Table.OfTexts.nil.mem_putAll_iff h,
    List.not_mem_nil, false_and, false_or, true_and]

/- The values that survive as texts become keys. -/
theorem forall_surviving_iff
    (h :
      ∀ e ∈ entries,
        (∃ s, json true e.2 = .ok s) ↔ writable true e.2 = true) :
    (∀ e ∈ Table.surviving
          ((jsonEntries true entries).map
            (fun e => (Value.str e.1.text, e.2))),
        ∃ s, e.2 = .ok s)
      ↔ writableEntries true entries = true := by
  induction entries with
  | nil => simp [jsonEntries, Table.surviving, writableEntries]
  | cons e entries ih =>
      rcases e with ⟨k, v⟩
      rcases List.forall_mem_cons.mp h with ⟨hValue, hRest⟩
      have hAgain :
          ((jsonEntries true entries).map
              (fun e => (Value.str e.1.text, e.2))).any
              (fun b => b.1.same (.str k.text))
            = entries.any (fun e => e.1.text == k.text) := by
        rw [jsonEntries_eq_map, List.map_map, List.any_map]
        refine List.any_congr rfl fun e => ?_
        exact Table.same_str e.1.text k.text
      rw [jsonEntries, List.map_cons, Table.surviving, hAgain,
        writableEntries, Bool.and_eq_true, ← ih hRest,
        Bool.true_and, Bool.or_eq_true, ← hValue]
      split
      next hLater => simp [hLater]
      next hLater => simp [hLater]

/-
  A value is written exactly if it is writable.  The induction
  is on its parts, for keys of both sorts at once, as literals
  change from one to the other.
-/
theorem exists_json_iff
    (textKeys : Bool)
    (v : Value) :
    (∃ s, json textKeys v = .ok s)
      ↔ writable textKeys v = true := by
  induction v using inductionOnParts generalizing textKeys with
  | h v ih =>
      have hItems :
          ∀ items : List Value, items = v.parts →
            ((∀ x ∈ jsonItems textKeys items, ∃ s, x = .ok s)
              ↔ writableItems textKeys items = true) := by
        rintro items rfl
        rw [jsonItems_eq_map, List.forall_mem_map,
          writableItems_iff]
        exact forall₂_congr fun x hx => ih x hx textKeys
      have hMembers :
          ∀ items : List Value, items = v.parts →
            ((∀ x ∈ (sortedBy Prod.fst
                  (jsonMembers items)).map Prod.snd,
                ∃ s, x = .ok s)
              ↔ writableItems true items = true) := by
        rintro items rfl
        have hPerm :=
          sortedBy_perm Prod.fst (jsonMembers v.parts)
        rw [jsonMembers_eq_map] at hPerm ⊢
        simp only [List.forall_mem_map, hPerm.mem_iff]
        rw [writableItems_iff]
        exact forall₂_congr fun x hx => ih x hx true
      cases v with
      | list items =>
          rw [json, exists_jsonArray_iff, writable]
          exact hItems items rfl
      | tuple items =>
          rw [json, exists_jsonArray_iff, writable]
          exact hItems items rfl
      | set items =>
          rw [json, exists_jsonArray_iff, writable]
          exact hMembers items rfl
      | frozenset items =>
          rw [json, exists_jsonArray_iff, writable]
          exact hMembers items rfl
      | lit w =>
          rw [json, exists_bind_pure_iff, writable]
          exact ih w List.mem_cons_self false
      | map entries =>
          have hValues :
              ∀ b, ∀ e ∈ entries,
                (∃ s, json b e.2 = .ok s)
                  ↔ writable b e.2 = true := by
            intro b e he
            refine ih e.2 ?_ b
            exact
              List.mem_append_right _ (List.mem_map_of_mem he)
          rw [json, writable]
          cases textKeys with
          | true =>
              rw [if_pos rfl, Bool.true_or, Bool.true_and,
                ← forall_surviving_iff (hValues true)]
              refine exists_objectOf_putAll_iff ?_
              exact
                List.forall_mem_map.mpr fun e _ => ⟨_, rfl⟩
          | false =>
              rw [if_neg nofun, Bool.false_or, Bool.and_eq_true,
                writableEntries_iff, exists_objectOf_iff,
                jsonEntries_eq_map, List.map_map,
                List.forall_mem_map]
              exact
                and_congr_right fun _ =>
                  forall₂_congr (hValues false)
      | _ => simp [json, writable]

end Value

------------------------------------------------------------
-- Writing Documents
------------------------------------------------------------

namespace QueryDocument

/- All terms of a document can be written. -/
def writable (d : QueryDocument) : Bool :=
  (d.find ++ d.inputs ++ d.clauses).all (Value.writable true)

/- A document has a canonical text if it can be written. -/
theorem exists_canonicalText_iff (d : QueryDocument) :
    (∃ text, d.canonicalText = .ok text)
      ↔ d.writable = true := by
  have hRecord :
      d.plainRecord.writable true
        = (Value.writableItems true d.find
          && (Value.writableItems true d.inputs
            && Value.writableItems true d.clauses)) := by
    simp [plainRecord, Value.record, Value.writable,
      Value.writableEntries, Value.text]
  rw [canonicalText, Value.plainJson, Value.exists_json_iff,
    hRecord]
  simp only [writable, Bool.and_eq_true, List.all_append,
    List.all_eq_true, Value.writableItems_iff, and_assoc]

/- So it has a name just then. -/
theorem exists_queryId_iff (d : QueryDocument) :
    (∃ id, d.queryId = .ok id) ↔ d.writable = true := by
  rw [← exists_canonicalText_iff]
  exact exists_bind_pure_iff

end QueryDocument

/-
  Examining a context comes to a result, unless the context
  compiles to a document that cannot be written.
-/
theorem exists_diagnose_iff
    (o : CompileOptions)
    (v : Value) :
    (∃ diagnosis, diagnose o v = .ok diagnosis) ↔
      ∀ d, compileQuery o v = .ok d → d.writable = true := by
  have hAgrees :
      Diagnosis.Agrees (compileQuery o v) (diagnose o v) := by
    cases hRead : readContext o v with
    | error fault => exact Diagnosis.agrees_of_unread hRead
    | ok c => exact Diagnosis.agrees_of_read hRead
  constructor
  · rintro ⟨diagnosis, hDiagnosis⟩ d hDocument
    rw [hDiagnosis, hDocument] at hAgrees
    cases hAgrees with
    | accepted _ _ hName _ =>
        exact d.exists_queryId_iff.mp ⟨_, hName⟩
  · intro hWritable
    cases hDiagnosis : diagnose o v with
    | ok diagnosis => exact ⟨diagnosis, rfl⟩
    | error fault =>
        rw [hDiagnosis] at hAgrees
        generalize hCompiled : compileQuery o v = compiled
          at hAgrees
        cases hAgrees with
        | unwritable hText =>
            have hNamed :=
              (QueryDocument.exists_canonicalText_iff _).mpr
                (hWritable _ hCompiled)
            rw [hText] at hNamed
            rcases hNamed with ⟨_, ⟨⟩⟩

/- A literal around a map with a pair for a key stops it. -/
example :
    let pairs := Value.map [(.tuple [.int 1, .int 2], .int 3)]
    let c := Value.record
      [ ("let", .list [.str "$", .int 1])
      , ("yield", .list [.lit pairs])
      , ("where", .list [Value.record [("db/id", .int 1)]]) ]
    (compileQuery {} c).toOption.isSome = true
      ∧ (diagnose {} c).toOption.isNone = true := by
  decide +kernel

end FactBase
