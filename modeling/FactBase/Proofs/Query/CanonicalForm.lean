import FactBase.Proofs.Query.JsonText
import FactBase.Proofs.Query.Writing

/-
  This file proves that the canonical text of a document is a
  canonical form, for documents that are made of elementary
  values.  An elementary value is written as the text of a
  JSON tree, where entries of maps stand sorted by key.  Two
  values have one tree exactly if they agree up to the sorts
  of their sequences and the order of their entries, and trees
  are known by their texts.

  Key definitions include:
    * `Value.SameForm`
    * `Value.elementary`
    * `Value.form`
    * `QueryDocument.SameQuery`

  Key theorems include:
    * `Value.json_eq_text`
    * `Value.form_eq_iff`
    * `QueryDocument.canonicalBytes_iff_sameQuery`
-/

------------------------------------------------------------
-- Elementary Values
------------------------------------------------------------

namespace FactBase

open Sorting

namespace Value

/-
  Two values have the same form: they are equal, or sequences
  of either sort with the same forms one by one, or maps with
  the same keys and the same form under each.
-/
inductive SameForm : Value → Value → Prop where
  | refl (v : Value) : SameForm v v
  | sequence
      {v w : Value}
      {xs ys : List Value}
      (hLeft : v.sequence? = some xs)
      (hRight : w.sequence? = some ys)
      (hItems : List.Forall₂ SameForm xs ys) :
      SameForm v w
  | map
      {es fs : List (Value × Value)}
      (hKeys : ∀ k, k ∈ es.map Prod.fst ↔ k ∈ fs.map Prod.fst)
      (hValues :
        ∀ k x y, (k, x) ∈ es → (k, y) ∈ fs → SameForm x y) :
      SameForm (.map es) (.map fs)

/- A truth value is no number, whatever it is worth. -/
example : ¬SameForm (.bool true) (.int 1) := by
  nofun

/-
  Keys that are texts, each of which occurs once.  The key
  that tells terms from maps is not among them.
-/
def plainKeys (keys : List Value) : Bool :=
  keys.all (fun k => k.keySort == .text && k.text != "kind")
    && decide (keys.map text).Nodup

mutual

/-
  Values made of simple ones by sequences and by maps with
  plain keys.  Terms are simple, and so is a literal around a
  text.
-/
def elementary : Value → Bool
  | .null => true
  | .bool _ => true
  | .int _ => true
  | .str _ => true
  | .list items => elementaryItems items
  | .tuple items => elementaryItems items
  | .map entries =>
      plainKeys (entries.map Prod.fst)
        && elementaryEntries entries
  | .var _ => true
  | .wildcard _ => true
  | .lit (.str _) => true
  | _ => false

/- All items are elementary. -/
def elementaryItems : List Value → Bool
  | [] => true
  | v :: vs => elementary v && elementaryItems vs

/- The values of all entries are elementary. -/
def elementaryEntries : List (Value × Value) → Bool
  | [] => true
  | (_, v) :: entries =>
      elementary v && elementaryEntries entries

end

/- The tree of a term: its kind, and a text under a field. -/
def termForm (kind field text : String) : Json :=
  .object [("kind", .str kind), (field, .str text)]

mutual

/- The tree that an elementary value is written as. -/
def form : Value → Json
  | .null => .null
  | .bool b => .bool b
  | .int n => .int n
  | .str s => .str s
  | .list items => .array (itemForms items)
  | .tuple items => .array (itemForms items)
  | .map entries =>
      .object (sortedBy Prod.fst (entryForms entries))
  | .var name => termForm "var" "name" name
  | .wildcard name => termForm "wildcard" "name" name
  | .lit (.str s) => termForm "lit" "value" s
  | _ => .null

/- The trees of all items. -/
def itemForms : List Value → List Json
  | [] => []
  | v :: vs => form v :: itemForms vs

/- The keys and trees of all entries. -/
def entryForms :
    List (Value × Value) → List (String × Json)
  | [] => []
  | (k, v) :: entries =>
      (k.text, form v) :: entryForms entries

end

variable {v w : Value}
variable {items xs ys : List Value}
variable {entries es fs : List (Value × Value)}

/- Items are elementary if each is. -/
theorem elementaryItems_iff :
    elementaryItems items = true ↔
      ∀ v ∈ items, elementary v = true := by
  induction items with
  | nil => simp [elementaryItems]
  | cons v vs ih =>
      rw [elementaryItems, Bool.and_eq_true, ih,
        List.forall_mem_cons]

/- So it is with the values of entries. -/
theorem elementaryEntries_iff :
    elementaryEntries entries = true ↔
      ∀ e ∈ entries, elementary e.2 = true := by
  induction entries with
  | nil => simp [elementaryEntries]
  | cons e entries ih =>
      rw [elementaryEntries, Bool.and_eq_true, ih,
        List.forall_mem_cons]

/- Items get their trees one by one. -/
theorem itemForms_eq_map (items : List Value) :
    itemForms items = items.map form := by
  induction items with
  | nil => rfl
  | cons v vs ih => rw [itemForms, ih, List.map_cons]

/- So do entries. -/
theorem entryForms_eq_map (entries : List (Value × Value)) :
    entryForms entries
      = entries.map (fun e => (e.1.text, e.2.form)) := by
  induction entries with
  | nil => rfl
  | cons e entries ih => rw [entryForms, ih, List.map_cons]

------------------------------------------------------------
-- Plain Keys
------------------------------------------------------------

/- A value whose sort of key is text is one. -/
theorem eq_str_of_keySort
    {k : Value}
    (h : k.keySort = .text) : k = .str k.text := by
  cases k <;> cases h
  rfl

/- Plain keys are distinct texts, and not the one of terms. -/
theorem plainKeys_iff {keys : List Value} :
    plainKeys keys = true ↔
      (∀ k ∈ keys, k.keySort = .text ∧ k.text ≠ "kind")
        ∧ (keys.map text).Nodup := by
  simp only [plainKeys, Bool.and_eq_true, List.all_eq_true,
    beq_iff_eq, bne_iff_ne, decide_eq_true_eq]

/- The keys of trees are those of the entries. -/
theorem map_fst_entryForms (entries : List (Value × Value)) :
    (entryForms entries).map Prod.fst
      = (entries.map Prod.fst).map text := by
  rw [entryForms_eq_map, List.map_map, List.map_map]
  rfl

/- Under a plain key stands one value. -/
theorem eq_of_plainKeys
    {k x y : Value}
    (h : plainKeys (es.map Prod.fst) = true)
    (hx : (k, x) ∈ es)
    (hy : (k, y) ∈ es) : x = y := by
  have hDistinct := (plainKeys_iff.mp h).2
  rw [List.map_map] at hDistinct
  exact congrArg Prod.snd
    (List.inj_on_of_nodup_map hDistinct hx hy rfl)

------------------------------------------------------------
-- Writing Elementary Values
------------------------------------------------------------

/- Items are written as the trees they have. -/
theorem jsonItems_eq_text
    (h : ∀ v ∈ items, json true v = .ok v.form.text) :
    (do return jsonArray (← (jsonItems true items).mapM id))
      = (.ok (Json.array (itemForms items)).text
        : Outcome String) := by
  have hItems :
      (jsonItems true items).mapM id
        = .ok (items.map (fun v => v.form.text)) := by
    rw [jsonItems_eq_map, List.mapM_map]
    exact Outcome.mapM_eq_ok_map h
  rw [hItems, ok_bind, Json.text, Json.itemTexts_eq_map,
    itemForms_eq_map, List.map_map]
  rfl

/- An entry of an object before it is written. -/
def writtenEntry
    (e : String × Json) : Value × Outcome String :=
  (.str e.1, .ok e.2.text)

/-
  Entries with distinct keys are written in the one order in
  which the keys ascend.
-/
theorem objectOf_eq_text
    {entries : List (String × Json)}
    (h : (entries.map Prod.fst).Nodup) :
    objectOf (entries.map writtenEntry)
      = .ok (Json.object (sortedBy Prod.fst entries)).text := by
  have hSorted :
      Sorting.sort keyBefore (entries.map writtenEntry)
        = .ok ((sortedBy Prod.fst entries).map writtenEntry) := by
    refine
      sort_eq_of_textsAscend (fun e => e.1.text)
        (P := fun e => ∃ s, e.1 = .str s) ?_ ?_ ?_ ?_ ?_
    · rintro ⟨k, x⟩ ⟨l, y⟩ ⟨s, hs⟩ ⟨t, ht⟩
      cases hs
      cases ht
      rfl
    · exact List.forall_mem_map.mpr fun e _ => ⟨e.1, rfl⟩
    · rw [List.map_map]
      exact h
    · exact
        List.pairwise_map.mpr
          (textsAscend_sortedBy Prod.fst entries)
    · exact (sortedBy_perm Prod.fst entries).map writtenEntry
  have hWritten :
      ((sortedBy Prod.fst entries).map writtenEntry).mapM
          (fun e => do
            let key ← jsonKey e.1
            let value ← e.2
            return (Text.jsonQuoted key, value))
        = .ok ((sortedBy Prod.fst entries).map
            (fun e => (Text.jsonQuoted e.1, e.2.text))) := by
    rw [List.mapM_map]
    exact Outcome.mapM_eq_ok_map fun e _ => rfl
  rw [objectOf, hSorted, ok_bind, hWritten, ok_bind, Json.text,
    Json.entryTexts_eq_map]
  rfl

/- The texts of plain keys stay as they are. -/
theorem putAll_writtenEntries
    (hKeys : plainKeys (entries.map Prod.fst) = true)
    (h : ∀ e ∈ entries, json true e.2 = .ok e.2.form.text) :
    Table.putAll ((jsonEntries true entries).map
        (fun e => (.str e.1.text, e.2))) []
      = (entryForms entries).map writtenEntry := by
  have hEntries :
      (jsonEntries true entries).map
          (fun e => (Value.str e.1.text, e.2))
        = (entryForms entries).map writtenEntry := by
    rw [jsonEntries_eq_map, entryForms_eq_map, List.map_map,
      List.map_map]
    refine List.map_congr_left fun e he => ?_
    exact congrArg (Prod.mk _) (h e he)
  have hTexts :
      Table.OfTexts
        ([] ++ (entryForms entries).map writtenEntry) := by
    refine ⟨List.forall_mem_map.mpr fun e _ => ⟨e.1, rfl⟩, ?_⟩
    have hDistinct := (plainKeys_iff.mp hKeys).2
    rw [← map_fst_entryForms, List.Nodup,
      List.pairwise_map] at hDistinct
    refine List.pairwise_map.mpr (hDistinct.imp ?_)
    exact fun hNe hSame => hNe (Value.str.inj hSame)
  rw [hEntries, hTexts.putAll_eq_append, List.nil_append]

/-
  An elementary value is written as the text of its tree.  The
  induction is on its parts.
-/
theorem json_eq_text
    (h : v.elementary = true) :
    json true v = .ok v.form.text := by
  induction v using inductionOnParts with
  | h v ih =>
      cases v with
      | list items =>
          rw [elementary, elementaryItems_iff] at h
          rw [json, form]
          exact jsonItems_eq_text fun x hx => ih x hx (h x hx)
      | tuple items =>
          rw [elementary, elementaryItems_iff] at h
          rw [json, form]
          exact jsonItems_eq_text fun x hx => ih x hx (h x hx)
      | map entries =>
          rw [elementary, Bool.and_eq_true,
            elementaryEntries_iff] at h
          rcases h with ⟨hKeys, hValues⟩
          have hEach :
              ∀ e ∈ entries,
                json true e.2 = .ok e.2.form.text := by
            intro e he
            refine ih e.2 ?_ (hValues e he)
            exact
              List.mem_append_right _ (List.mem_map_of_mem he)
          rw [json, if_pos rfl, form,
            putAll_writtenEntries hKeys hEach]
          refine objectOf_eq_text ?_
          rw [map_fst_entryForms]
          exact (plainKeys_iff.mp hKeys).2
      | lit w =>
          cases w with
          | str s => rfl
          | _ => cases h
      | null => rfl
      | bool b => rfl
      | int n => rfl
      | str s => rfl
      | var name => rfl
      | wildcard name => rfl
      | _ => cases h

------------------------------------------------------------
-- Forms of Maps
------------------------------------------------------------

/- What is in the tree of a map comes from an entry. -/
theorem mem_entryForms_iff
    {s : String}
    {j : Json}
    (h : plainKeys (es.map Prod.fst) = true) :
    (s, j) ∈ entryForms es
      ↔ ∃ x, (.str s, x) ∈ es ∧ x.form = j := by
  rw [entryForms_eq_map, List.mem_map]
  constructor
  · rintro ⟨⟨k, x⟩, hMem, hSame⟩
    cases hSame
    have hSort :=
      (plainKeys_iff.mp h).1 k (List.mem_map_of_mem hMem)
    rw [← eq_str_of_keySort hSort.1]
    exact ⟨x, hMem, rfl⟩
  · rintro ⟨x, hMem, rfl⟩
    exact ⟨(.str s, x), hMem, rfl⟩

/- Maps have one tree if what is under their keys has. -/
theorem form_map_eq_iff
    (hEs : plainKeys (es.map Prod.fst) = true)
    (hFs : plainKeys (fs.map Prod.fst) = true) :
    form (.map es) = form (.map fs) ↔
      (∀ k, k ∈ es.map Prod.fst ↔ k ∈ fs.map Prod.fst)
        ∧ ∀ k x y, (k, x) ∈ es → (k, y) ∈ fs →
          x.form = y.form := by
  have hDistinct :
      ∀ {es : List (Value × Value)},
        plainKeys (es.map Prod.fst) = true →
          ((entryForms es).map Prod.fst).Nodup := by
    intro es h
    rw [map_fst_entryForms]
    exact (plainKeys_iff.mp h).2
  rw [form, form, Json.object.injEq,
    sortedBy_eq_iff (hDistinct hEs),
    List.perm_ext_iff_of_nodup (hDistinct hEs).of_map
      (hDistinct hFs).of_map]
  constructor
  · intro h
    have hKeys :
        ∀ {es fs : List (Value × Value)},
          plainKeys (es.map Prod.fst) = true →
          plainKeys (fs.map Prod.fst) = true →
          (∀ e ∈ entryForms es, e ∈ entryForms fs) →
            ∀ k ∈ es.map Prod.fst, k ∈ fs.map Prod.fst := by
      intro es fs hEs hFs h k hk
      have hText :=
        eq_str_of_keySort ((plainKeys_iff.mp hEs).1 k hk).1
      rw [hText] at hk ⊢
      rcases List.mem_map.mp hk with ⟨⟨l, x⟩, hx, hKey⟩
      cases hKey
      rcases (mem_entryForms_iff hFs).mp
          (h _ ((mem_entryForms_iff hEs).mpr ⟨x, hx, rfl⟩)) with
        ⟨y, hy, -⟩
      exact List.mem_map.mpr ⟨_, hy, rfl⟩
    refine ⟨fun k => ⟨?_, ?_⟩, ?_⟩
    · exact hKeys hEs hFs (fun e => (h e).mp) k
    · exact hKeys hFs hEs (fun e => (h e).mpr) k
    · intro k x y hx hy
      have hText :=
        eq_str_of_keySort
          ((plainKeys_iff.mp hEs).1 k (List.mem_map_of_mem hx)).1
      rw [hText] at hx hy
      rcases (mem_entryForms_iff hFs).mp
          ((h _).mp ((mem_entryForms_iff hEs).mpr
            ⟨x, hx, rfl⟩)) with
        ⟨z, hz, hForm⟩
      rw [← hForm, eq_of_plainKeys hFs hy hz]
  · rintro ⟨hKeys, hValues⟩ ⟨s, j⟩
    rw [mem_entryForms_iff hEs, mem_entryForms_iff hFs]
    constructor
    · rintro ⟨x, hx, rfl⟩
      rcases List.mem_map.mp
          ((hKeys _).mp (List.mem_map_of_mem hx)) with
        ⟨⟨k, y⟩, hy, rfl⟩
      exact ⟨y, hy, (hValues _ x y hx hy).symm⟩
    · rintro ⟨y, hy, rfl⟩
      rcases List.mem_map.mp
          ((hKeys _).mpr (List.mem_map_of_mem hy)) with
        ⟨⟨k, x⟩, hx, rfl⟩
      exact ⟨x, hx, hValues _ x y hx hy⟩

------------------------------------------------------------
-- Forms of Values
------------------------------------------------------------

/- The kind of a term, and the field that its text is under. -/
def term? : Value → Option (String × String × String)
  | .var name => some ("var", "name", name)
  | .wildcard name => some ("wildcard", "name", name)
  | .lit (.str s) => some ("lit", "value", s)
  | _ => none

/- What a tree tells of a value whose form it is. -/
inductive HasForm : Value → Json → Prop where
  | null : HasForm .null .null
  | bool (b : Bool) : HasForm (.bool b) (.bool b)
  | int (n : Int) : HasForm (.int n) (.int n)
  | str (s : String) : HasForm (.str s) (.str s)
  | sequence
      {v : Value}
      {xs : List Value}
      {trees : List Json}
      (hItems : v.sequence? = some xs)
      (hTrees : trees = xs.map form) :
      HasForm v (.array trees)
  | map
      {es : List (Value × Value)}
      {trees : List (String × Json)}
      (hTrees : trees = sortedBy Prod.fst (entryForms es)) :
      HasForm (.map es) (.object trees)
  | term
      {v : Value}
      {kind field text : String}
      {trees : List (String × Json)}
      (hTerm : v.term? = some (kind, field, text))
      (hTrees :
        trees = [("kind", .str kind), (field, .str text)]) :
      HasForm v (.object trees)

/- An elementary value has its form. -/
theorem hasForm_form
    (h : v.elementary = true) : HasForm v v.form := by
  cases v with
  | null => exact .null
  | bool b => exact .bool b
  | int n => exact .int n
  | str s => exact .str s
  | list items => exact .sequence rfl (itemForms_eq_map items)
  | tuple items => exact .sequence rfl (itemForms_eq_map items)
  | map entries => exact .map rfl
  | var name => exact .term rfl rfl
  | wildcard name => exact .term rfl rfl
  | lit w =>
      cases w with
      | str s => exact .term rfl rfl
      | _ => cases h
  | _ => cases h

/- The term of a kind with a text. -/
def termOf (t : String × String × String) : Value :=
  if t.1 = "var" then .var t.2.2
  else if t.1 = "wildcard" then .wildcard t.2.2
  else .lit (.str t.2.2)

/- A term is known by its kind and its text. -/
theorem termOf_eq
    {t : String × String × String}
    (h : v.term? = some t) : termOf t = v := by
  unfold term? at h
  split at h
  · cases h
    rfl
  · cases h
    rfl
  · cases h
    rfl
  · cases h

/- No map has the tree of a term. -/
theorem sortedBy_entryForms_ne
    {j : Json}
    {trees : List (String × Json)}
    (h : plainKeys (es.map Prod.fst) = true) :
    sortedBy Prod.fst (entryForms es) ≠ ("kind", j) :: trees := by
  intro hSame
  have hMem : ("kind", j) ∈ sortedBy Prod.fst (entryForms es) :=
    hSame ▸ List.mem_cons_self
  rw [(sortedBy_perm Prod.fst (entryForms es)).mem_iff,
    mem_entryForms_iff h] at hMem
  rcases hMem with ⟨x, hx, -⟩
  exact
    ((plainKeys_iff.mp h).1 _ (List.mem_map_of_mem hx)).2 rfl

/- The items of an elementary sequence are its parts. -/
theorem parts_of_sequence
    (h : v.elementary = true)
    (hItems : v.sequence? = some xs) :
    v.parts = xs ∧ ∀ x ∈ xs, x.elementary = true := by
  cases v with
  | list items =>
      cases hItems
      exact ⟨rfl, elementaryItems_iff.mp h⟩
  | tuple items =>
      cases hItems
      exact ⟨rfl, elementaryItems_iff.mp h⟩
  | cyclic origin items => cases h
  | _ => cases hItems

/- A sequence has the array of the trees of its items. -/
theorem form_of_sequence
    (h : v.elementary = true)
    (hItems : v.sequence? = some xs) :
    v.form = .array (xs.map form) := by
  cases v with
  | list items =>
      cases hItems
      rw [form, itemForms_eq_map]
  | tuple items =>
      cases hItems
      rw [form, itemForms_eq_map]
  | cyclic origin items => cases h
  | _ => cases hItems

/- Items have the same trees if each two have. -/
theorem map_form_eq_iff
    (h :
      ∀ x ∈ xs, ∀ y ∈ ys, x.form = y.form ↔ SameForm x y) :
    xs.map form = ys.map form ↔ List.Forall₂ SameForm xs ys := by
  induction xs generalizing ys with
  | nil =>
      rw [List.forall₂_nil_left_iff, List.map_nil, eq_comm,
        List.map_eq_nil_iff]
  | cons x xs ih =>
      cases ys with
      | nil => simp
      | cons y ys =>
          rw [List.map_cons, List.map_cons, List.cons.injEq,
            List.forall₂_cons,
            h x List.mem_cons_self y List.mem_cons_self,
            ih fun x hx y hy => h x (List.mem_cons_of_mem _ hx)
              y (List.mem_cons_of_mem _ hy)]

/- The parts of an elementary map can be told by key. -/
theorem parts_of_map
    (h : (map es).elementary = true) :
    plainKeys (es.map Prod.fst) = true
      ∧ ∀ e ∈ es,
        e.2 ∈ (map es).parts ∧ e.2.elementary = true := by
  rw [elementary, Bool.and_eq_true, elementaryEntries_iff] at h
  refine ⟨h.1, fun e he => ⟨?_, h.2 e he⟩⟩
  exact List.mem_append_right _ (List.mem_map_of_mem he)

/-
  Elementary values have one tree exactly if they have the
  same form.  The induction is on the parts of one of them.
-/
theorem form_eq_iff
    (hv : v.elementary = true)
    (hw : w.elementary = true) :
    v.form = w.form ↔ SameForm v w := by
  induction v using inductionOnParts generalizing w with
  | h v ih =>
      have hItems :
          ∀ {xs ys : List Value},
            v.sequence? = some xs → w.sequence? = some ys →
              (xs.map form = ys.map form
                ↔ List.Forall₂ SameForm xs ys) := by
        intro xs ys hLeft hRight
        rcases parts_of_sequence hv hLeft with ⟨rfl, hXs⟩
        refine map_form_eq_iff fun x hx y hy => ?_
        exact ih x hx (hXs x hx)
          ((parts_of_sequence hw hRight).2 y hy)
      have hValues :
          ∀ {es fs : List (Value × Value)},
            v = .map es → w = .map fs →
              ∀ k x y, (k, x) ∈ es → (k, y) ∈ fs →
                (x.form = y.form ↔ SameForm x y) := by
        rintro es fs rfl rfl k x y hx hy
        have hLeft := (parts_of_map hv).2 _ hx
        have hRight := (parts_of_map hw).2 _ hy
        exact ih x hLeft.1 hLeft.2 hRight.2
      constructor
      · intro h
        have hLeft := hasForm_form hv
        have hRight := hasForm_form hw
        rw [h] at hLeft
        generalize hTree : w.form = tree at hLeft hRight
        cases hLeft with
        | null =>
            cases hRight with
            | null => exact .refl _
        | bool b =>
            cases hRight with
            | bool => exact .refl _
        | int n =>
            cases hRight with
            | int => exact .refl _
        | str s =>
            cases hRight with
            | str => exact .refl _
        | sequence hXs hTrees =>
            cases hRight with
            | sequence hYs hOthers =>
                refine .sequence hXs hYs ((hItems hXs hYs).mp ?_)
                exact hTrees.symm.trans hOthers
        | map hTrees =>
            cases hRight with
            | map =>
                rcases
                    (form_map_eq_iff (parts_of_map hv).1
                      (parts_of_map hw).1).mp h with
                  ⟨hKeys, hForms⟩
                refine .map hKeys fun k x y hx hy => ?_
                exact
                  (hValues rfl rfl k x y hx hy).mp
                    (hForms k x y hx hy)
            | term _ hOthers =>
                exact absurd (hTrees.symm.trans hOthers)
                  (sortedBy_entryForms_ne (parts_of_map hv).1)
        | term hTerm hTrees =>
            cases hRight with
            | map hOthers =>
                exact absurd (hOthers.symm.trans hTrees)
                  (sortedBy_entryForms_ne (parts_of_map hw).1)
            | term hOther hOthers =>
                cases hTrees
                cases hOthers
                rw [← termOf_eq hTerm, termOf_eq hOther]
                exact .refl _
      · intro h
        cases h with
        | refl => rfl
        | sequence hXs hYs hSame =>
            rw [form_of_sequence hv hXs, form_of_sequence hw hYs,
              (hItems hXs hYs).mpr hSame]
        | map hKeys hSame =>
            refine
              (form_map_eq_iff (parts_of_map hv).1
                (parts_of_map hw).1).mpr
                ⟨hKeys, fun k x y hx hy => ?_⟩
            exact
              (hValues rfl rfl k x y hx hy).mpr
                (hSame k x y hx hy)

/- So it is with elementary items one by one. -/
theorem itemForms_eq_iff
    (hXs : ∀ x ∈ xs, x.elementary = true)
    (hYs : ∀ y ∈ ys, y.elementary = true) :
    itemForms xs = itemForms ys
      ↔ List.Forall₂ SameForm xs ys := by
  rw [itemForms_eq_map, itemForms_eq_map]
  exact map_form_eq_iff fun x hx y hy =>
    form_eq_iff (hXs x hx) (hYs y hy)

end Value

------------------------------------------------------------
-- Documents
------------------------------------------------------------

namespace QueryDocument

/- All terms of a document are elementary. -/
def elementary (d : QueryDocument) : Bool :=
  (d.find ++ d.inputs ++ d.clauses).all Value.elementary

/-
  Two documents ask for the same: their projections, inputs
  and clauses have the same form.  Arguments and labels may
  differ.
-/
structure SameQuery (d d' : QueryDocument) : Prop where
  find : List.Forall₂ Value.SameForm d.find d'.find
  inputs : List.Forall₂ Value.SameForm d.inputs d'.inputs
  clauses : List.Forall₂ Value.SameForm d.clauses d'.clauses

/- Documents ask for the same in each of their sections. -/
theorem sameQuery_iff
    {d d' : QueryDocument} :
    d.SameQuery d' ↔
      List.Forall₂ Value.SameForm d.find d'.find
        ∧ List.Forall₂ Value.SameForm d.inputs d'.inputs
        ∧ List.Forall₂ Value.SameForm d.clauses d'.clauses :=
  ⟨fun h => ⟨h.find, h.inputs, h.clauses⟩,
    fun h => ⟨h.1, h.2.1, h.2.2⟩⟩

/- The canonical text as bytes. -/
def canonicalBytes (d : QueryDocument) : Outcome ByteArray := do
  return (← d.canonicalText).toUTF8

variable {d d' : QueryDocument}

/- The terms are those of all sections. -/
theorem elementary_iff :
    d.elementary = true ↔
      (∀ v ∈ d.find, v.elementary = true)
        ∧ (∀ v ∈ d.inputs, v.elementary = true)
        ∧ ∀ v ∈ d.clauses, v.elementary = true := by
  simp only [elementary, List.all_append, Bool.and_eq_true,
    List.all_eq_true, and_assoc]

/- Elementary terms make an elementary record. -/
theorem elementary_plainRecord
    (h : d.elementary = true) :
    d.plainRecord.elementary = true := by
  rcases elementary_iff.mp h with ⟨hFind, hInputs, hClauses⟩
  have hKeys :
      Value.plainKeys [.str "find", .str "in", .str "where"]
        = true := by
    decide +kernel
  rw [plainRecord, Value.record, Value.elementary,
    Bool.and_eq_true, Value.elementaryEntries_iff]
  refine ⟨hKeys, ?_⟩
  simp only [List.map_cons, List.map_nil, List.forall_mem_cons,
    Value.elementary, Value.elementaryItems_iff]
  exact ⟨hFind, hInputs, hClauses, List.forall_mem_nil _⟩

/- Records have one tree if the documents ask for the same. -/
theorem form_plainRecord_eq_iff
    (h : d.elementary = true)
    (h' : d'.elementary = true) :
    d.plainRecord.form = d'.plainRecord.form
      ↔ d.SameQuery d' := by
  rcases elementary_iff.mp h with ⟨hFind, hInputs, hClauses⟩
  rcases elementary_iff.mp h' with ⟨hFind', hInputs', hClauses'⟩
  rw [sameQuery_iff,
    ← Value.itemForms_eq_iff hFind hFind',
    ← Value.itemForms_eq_iff hInputs hInputs',
    ← Value.itemForms_eq_iff hClauses hClauses']
  constructor
  · intro hSame
    rcases
        (Value.form_map_eq_iff
          (Value.parts_of_map (elementary_plainRecord h)).1
          (Value.parts_of_map (elementary_plainRecord h')).1).mp
          hSame with
      ⟨-, hUnder⟩
    have hFinds :=
      hUnder (.str "find") (.tuple d.find) (.tuple d'.find)
        (by simp) (by simp)
    have hIns :=
      hUnder (.str "in") (.tuple d.inputs) (.tuple d'.inputs)
        (by simp) (by simp)
    have hWheres :=
      hUnder (.str "where") (.tuple d.clauses)
        (.tuple d'.clauses) (by simp) (by simp)
    simp only [Value.form, Json.array.injEq]
      at hFinds hIns hWheres
    exact ⟨hFinds, hIns, hWheres⟩
  · rintro ⟨hFinds, hIns, hWheres⟩
    simp only [plainRecord, Value.record, List.map_cons,
      List.map_nil, Value.form, Value.entryForms, hFinds, hIns,
      hWheres]

/- The canonical text is that of the tree of the record. -/
theorem canonicalText_eq
    (h : d.elementary = true) :
    d.canonicalText = .ok d.plainRecord.form.text :=
  Value.json_eq_text (elementary_plainRecord h)

/-
  The names of two documents collide: their texts differ, but
  the digests of these start with the same digits.
-/
def NamesCollide (d d' : QueryDocument) : Prop :=
  ∃ text text',
    d.canonicalText = .ok text ∧ d'.canonicalText = .ok text'
      ∧ text ≠ text'
      ∧ (Digest.hex text).toList.take 12
        = (Digest.hex text').toList.take 12

/- Texts are equal if the documents ask for the same. -/
theorem text_eq_iff_sameQuery
    (h : d.elementary = true)
    (h' : d'.elementary = true) :
    d.plainRecord.form.text = d'.plainRecord.form.text
      ↔ d.SameQuery d' :=
  Json.text_inj.trans (form_plainRecord_eq_iff h h')

/- So are names, but for those that collide. -/
theorem queryId_eq_iff_sameQuery
    (h : d.elementary = true)
    (h' : d'.elementary = true) :
    ∃ id id',
      d.queryId = .ok id ∧ d'.queryId = .ok id'
        ∧ (id = id' ↔ d.SameQuery d' ∨ d.NamesCollide d') := by
  have hNamed :
      ∀ {d : QueryDocument}, d.elementary = true →
        d.queryId = .ok ("query__" ++ String.ofList
          ((Digest.hex d.plainRecord.form.text).toList.take
            12)) := by
    intro d h
    rw [queryId, canonicalText_eq h]
    rfl
  refine ⟨_, _, hNamed h, hNamed h', ?_⟩
  rw [String.append_right_inj, String.ofList_inj,
    ← text_eq_iff_sameQuery h h']
  constructor
  · intro hDigits
    by_cases hSame :
        d.plainRecord.form.text = d'.plainRecord.form.text
    · exact .inl hSame
    · exact .inr ⟨_, _, canonicalText_eq h, canonicalText_eq h',
        hSame, hDigits⟩
  · rintro (hSame | ⟨text, text', hText, hText', -, hDigits⟩)
    · rw [hSame]
    · rw [canonicalText_eq h, Except.ok.injEq] at hText
      rw [canonicalText_eq h', Except.ok.injEq] at hText'
      rw [hText, hText', hDigits]

/-
  Documents that are made of elementary values have the same
  canonical bytes exactly if they ask for the same, whatever
  their arguments and labels.  So they have the same name
  exactly if they do or their names collide.
-/
theorem canonicalBytes_iff_sameQuery
    (h : d.elementary = true)
    (h' : d'.elementary = true) :
    (∃ bytes bytes',
      d.canonicalBytes = .ok bytes
        ∧ d'.canonicalBytes = .ok bytes'
        ∧ (bytes = bytes' ↔ d.SameQuery d'))
      ∧ ∃ id id',
        d.queryId = .ok id ∧ d'.queryId = .ok id'
          ∧ (id = id' ↔ d.SameQuery d' ∨ d.NamesCollide d') := by
  have hBytes :
      ∀ {d : QueryDocument}, d.elementary = true →
        d.canonicalBytes
          = .ok d.plainRecord.form.text.toUTF8 := by
    intro d h
    rw [canonicalBytes, canonicalText_eq h]
    rfl
  refine ⟨⟨_, _, hBytes h, hBytes h', ?_⟩, ?_⟩
  · rw [String.toUTF8_eq_toByteArray,
      String.toUTF8_eq_toByteArray, String.toByteArray_inj]
    exact text_eq_iff_sameQuery h h'
  · exact queryId_eq_iff_sameQuery h h'

/- A document with a map in one of its clauses. -/
def withMap : QueryDocument where
  find := [.str "?e"]
  inputs := [.str "$"]
  clauses :=
    [ .tuple
        [ .var "?e"
        , .map [(.str "a", .int 1), (.str "b", .bool true)] ] ]
  args := [.int 1]
  labels := [some "e"]

/- The same with entries the other way round, and a list. -/
def withMapReversed : QueryDocument where
  find := [.str "?e"]
  inputs := [.str "$"]
  clauses :=
    [ .list
        [ .var "?e"
        , .map [(.str "b", .bool true), (.str "a", .int 1)] ] ]
  args := []
  labels := [none]

/- Both ask for the same. -/
theorem sameQuery_withMap :
    withMap.SameQuery withMapReversed where
  find := .cons (.refl _) .nil
  inputs := .cons (.refl _) .nil
  clauses := by
    refine .cons (.sequence rfl rfl ?_) .nil
    refine .cons (.refl _) (.cons (.map ?_ ?_) .nil)
    · simp [or_comm]
    · intro k x y hx hy
      simp only [List.mem_cons, List.not_mem_nil, or_false,
        Prod.mk.injEq] at hx hy
      rcases hx with ⟨rfl, rfl⟩ | ⟨rfl, rfl⟩
      · rcases hy with ⟨hKey, -⟩ | ⟨-, rfl⟩
        · exact absurd (Value.str.inj hKey) (by decide)
        · exact .refl _
      · rcases hy with ⟨-, rfl⟩ | ⟨hKey, -⟩
        · exact .refl _
        · exact absurd (Value.str.inj hKey) (by decide)

/- So they have the same bytes. -/
theorem canonicalBytes_withMap :
    ∃ bytes bytes',
      withMap.canonicalBytes = .ok bytes
        ∧ withMapReversed.canonicalBytes = .ok bytes'
        ∧ bytes = bytes' := by
  have hLeft : withMap.elementary = true := by decide +kernel
  have hRight : withMapReversed.elementary = true := by
    decide +kernel
  rcases (canonicalBytes_iff_sameQuery hLeft hRight).1 with
    ⟨bytes, bytes', hBytes, hBytes', hIff⟩
  exact
    ⟨bytes, bytes', hBytes, hBytes', hIff.mpr sameQuery_withMap⟩

end QueryDocument

end FactBase
