import FactBase.Proofs.Answer.Grouping

/-
  This file shows that the three ways to read an entity agree:
  its facts in an index, its map, and all that is pulled of
  it.  The facts of an attribute are one entry of the map and
  of what is pulled, provided that no two attributes have one
  ident and that all values can be members of a set.

  Key definitions include:
    * `Database.shownValue`
    * `Database.pulledValue`
    * `Database.Shows`
    * `Database.Entered`
    * `Database.Legible`
    * `Database.ReadsAgree`
    * `TxResult.Sparing`

  Key theorems include:
    * `Database.exists_scan_entity`
    * `Database.Entered.shows`
    * `Database.Legible.readsAgree`
    * `Engine.RunOf.reads_agree`
-/

------------------------------------------------------------
-- Values
------------------------------------------------------------

namespace FactBase

open Sorting Bootstrap

namespace Value

mutual

/- What may be a member of a set has an end. -/
theorem not_endless_of_hashable :
    ∀ {v : Value}, v.hashable = true → v.endless = false
  | .tuple items, h => by
      rw [hashable] at h
      rw [endless]
      exact not_endlessItems_of_hashable h
  | .list _, h => by simp [hashable] at h
  | .map _, h => by simp [hashable] at h
  | .cyclic _ _, h => by simp [hashable] at h
  | .enclosing _, h => by simp [hashable] at h
  | .null, _ | .bool _, _ | .int _, _ | .float _, _
  | .str _, _ | .bytes _, _ | .instant _, _ | .set _, _
  | .frozenset _, _ | .var _, _ | .wildcard _, _
  | .lit _, _ | .tempid _ _, _ | .schema _, _
  | .context _, _ | .database _, _ => by simp [endless]

/- So do all items of a tuple. -/
theorem not_endlessItems_of_hashable :
    ∀ {vs : List Value},
      hashableItems vs = true → endlessItems vs = false
  | [], _ => rfl
  | v :: vs, h => by
      rw [hashableItems, Bool.and_eq_true] at h
      rw [endlessItems, not_endless_of_hashable h.1,
        not_endlessItems_of_hashable h.2]
      rfl

end

/- Such values that are not equal are not the same either. -/
theorem not_same_of_hashable
    {v w : Value}
    (hLeft : v.hashable = true)
    (hRight : w.hashable = true)
    (hDefined : v.isUndefined = false)
    (h : v.equals w = .ok false) : v.same w = false := by
  rw [equals_of_not_endless v w (not_endless_of_hashable hLeft)
    (not_endless_of_hashable hRight)] at h
  simpa [equal, hDefined] using Except.ok.inj h

/- Maps with one key are the same if what is under it is. -/
theorem same_singleton_map (k v w : Value) :
    (Value.map [(k, v)]).same (.map [(k, w)]) = v.same w := by
  simp [same, sameEntries]

end Value

------------------------------------------------------------
-- Entries
------------------------------------------------------------

namespace Shown

/- All entries are looked at one by one. -/
theorem entriesWith_eq_map
    (held : Held → Value)
    (table : List (Value × Shown)) :
    entriesWith held table
      = table.map (fun e => (e.1, e.2.valueWith held)) := by
  induction table with
  | nil => simp [entriesWith]
  | cons e table ih => simp [entriesWith, ih]

/- What is found is looked at. -/
theorem find?_entriesWith
    (held : Held → Value)
    (key : Value)
    (table : List (Value × Shown)) :
    Table.find? key (entriesWith held table)
      = (Table.find? key table).map (valueWith held) := by
  induction table with
  | nil => simp [entriesWith, Table.find?]
  | cons e table ih =>
      rcases e with ⟨k, s⟩
      rw [entriesWith, Table.find?, Table.find?]
      split
      · rfl
      · exact ih

/- The keys stay as they are. -/
theorem ofTexts_entriesWith
    {table : List (Value × Shown)}
    (h : Table.OfTexts table)
    (held : Held → Value) :
    Table.OfTexts (entriesWith held table) := by
  rw [entriesWith_eq_map]
  refine ⟨?_, List.pairwise_map.mpr h.distinct⟩
  intro entry hEntry
  rcases List.mem_map.mp hEntry with ⟨e, he, rfl⟩
  exact h.texts e he

end Shown

------------------------------------------------------------
-- Scanning an Entity
------------------------------------------------------------

namespace Database

variable {db : Database}

/- All facts of an entity can be read, in some order. -/
theorem exists_scan_entity
    (db : Database)
    (eid : Int) :
    ∃ facts, db.scan (.str "eavt") [.int eid] = .ok facts
      ∧ facts.Perm (db.factsOf (.int eid)) := by
  have hSorted :
      ∃ facts, db.sortedFacts .eavt = .ok facts
        ∧ facts.Perm (db.indexedFacts .eavt) :=
    exists_sortedFacts nofun
  rcases hSorted with ⟨facts, hFacts, hPerm⟩
  have hKey :
      db.componentKey .eavt [.int eid] = .ok [.int eid] := rfl
  have hBegins :
      ∀ d : Datom,
        Value.sameItems
            ((FactIndex.eavt.keyOf d).take 1) [.int eid]
          = (Value.int eid).isInt d.entity := by
    intro d
    simp [FactIndex.keyOf, FactIndex.parts, FactIndex.partOf,
      Value.sameItems, Value.same]
  refine
    ⟨facts.filter (fun d => (Value.int eid).isInt d.entity), ?_,
      hPerm.filter _⟩
  unfold scan
  rw [show (Value.str "eavt") = .str FactIndex.eavt.name from rfl,
    FactIndex.ofValue_name, ok_bind, hFacts, ok_bind]
  simp only [hKey, ok_bind, List.length_singleton, hBegins]
  rfl

------------------------------------------------------------
-- Entries that Show Facts
------------------------------------------------------------

/-
  A value as an entity has to show it: a reference by the
  ident of what it refers to, if that has one.
-/
def shownValue
    (db : Database)
    (s : Schema)
    (v : Value) : Value :=
  if s.isRef then (db.identOf v).getD v else v

/- A value as it has to be pulled: a reference as a map. -/
def pulledValue
    (s : Schema)
    (v : Value) : Value :=
  if s.isRef then .map [(.str "db/id", v)] else v

/-
  Entries show facts, given what is shown of a value and of
  many values.  All facts are about installed attributes, and
  each of these has one entry.  The only fact of an attribute
  that can have only one is shown by itself.  Otherwise all
  facts of the attribute are shown together, each by a value
  of its own.
-/
structure Shows
    (db : Database)
    (alone : Schema → Value → Value)
    (together : List Value → Value)
    (facts : List Datom)
    (entries : List (Value × Value)) : Prop where
  texts : Table.OfTexts entries
  installed :
    ∀ d ∈ facts, (db.schemaOf? d.attr).isSome = true
  attributes :
    ∀ ident,
      Value.hasField entries ident = true ↔
        ∃ d ∈ facts, ∃ s, db.schemaOf? d.attr = some s
          ∧ s.ident = ident
  single :
    ∀ d ∈ facts, ∀ s, db.schemaOf? d.attr = some s →
      s.many = false →
        ofAttr d.attr facts = [d]
          ∧ Value.field? entries s.ident
              = some (alone s d.value)
  many :
    ∀ d ∈ facts, ∀ s, db.schemaOf? d.attr = some s →
      s.many = true →
        ∃ items,
          Value.field? entries s.ident = some (together items)
            ∧ items.Perm
                ((ofAttr d.attr facts).map
                  (fun d' => alone s d'.value))
            ∧ items.Pairwise (fun v w => v.same w = false)

/- Two facts are shown by values of their own. -/
def ApartBy
    (alone : Schema → Value → Value)
    (q p : Described) : Prop :=
  (alone q.1 q.2.value).same (alone p.1 p.2.value) = false

/-
  The facts of an entity were entered in groups in a table.
  What was entered of a fact and of a group is looked at as
  given, and no value of a group is looked at twice.
-/
structure Entered
    (db : Database)
    (eid : Int)
    (one : Described → Shown)
    (all : List Described → Shown)
    (alone : Schema → Value → Value)
    (together : List Value → Value)
    (table : List (Value × Shown)) : Prop where
  texts : Table.OfTexts table
  found :
    ∀ ident,
      Table.find? (.str ident) table
        = shownGroup one all
            (underIdent ident (db.described (.int eid)))
  apart :
    (db.described (.int eid)).Pairwise
      (Together (ApartBy alone))
  one : ∀ p, (one p).value [] = alone p.1 p.2.value
  all :
    ∀ group : List Described,
      (all group).value []
        = together (group.map (fun p => alone p.1 p.2.value))

namespace Entered

variable {eid : Int}
variable {one : Described → Shown}
variable {all : List Described → Shown}
variable {alone : Schema → Value → Value}
variable {together : List Value → Value}
variable {table : List (Value × Shown)}
variable {d : Datom}
variable {s : Schema}

/- What is seen under an ident is what is shown of its facts. -/
theorem field?_eq
    (h : db.Entered eid one all alone together table)
    (ident : String) :
    Value.field?
        (Shown.entriesWith (Growths.current []) table) ident
      = (shownGroup one all
          (underIdent ident (db.described (.int eid)))).map
            (Shown.value []) := by
  rw [Value.field?, Shown.find?_entriesWith, h.found]
  rfl

/- Something is seen where a fact has that ident. -/
theorem hasField_iff
    (h : db.Entered eid one all alone together table)
    (ident : String) :
    Value.hasField
        (Shown.entriesWith (Growths.current []) table) ident
      = true ↔
      ∃ d ∈ db.factsOf (.int eid), ∃ s,
        db.schemaOf? d.attr = some s ∧ s.ident = ident := by
  rw [Value.hasField, h.field?_eq, Option.isSome_map,
    isSome_shownGroup_iff]
  simp only [underIdent, List.mem_filter, mem_described_iff,
    beq_iff_eq]
  constructor
  · rintro ⟨p, ⟨hFact, hSchema⟩, hIdent⟩
    exact ⟨p.2, hFact, p.1, hSchema, hIdent⟩
  · rintro ⟨d, hFact, s, hSchema, hIdent⟩
    exact ⟨(s, d), ⟨hFact, hSchema⟩, hIdent⟩

/- The facts of an attribute stand together. -/
theorem pairwise_ofAttr
    (h : db.Entered eid one all alone together table)
    (hIdents : db.IdentsApart)
    (hSchema : db.schemaOf? d.attr = some s) :
    (ofAttr d.attr (db.factsOf (.int eid))).Pairwise
      (fun c c' =>
        Together (ApartBy alone) (s, c) (s, c')) := by
  rw [← List.pairwise_map (f := fun c => (s, c)),
    ← underIdent_described hIdents hSchema]
  exact List.Pairwise.filter _ h.apart

/- If there can be only one of them, there is no other. -/
theorem ofAttr_eq_singleton
    (h : db.Entered eid one all alone together table)
    (hIdents : db.IdentsApart)
    (hd : d ∈ db.factsOf (.int eid))
    (hSchema : db.schemaOf? d.attr = some s)
    (hOne : s.many = false) :
    ofAttr d.attr (db.factsOf (.int eid)) = [d] := by
  have hMem : d ∈ ofAttr d.attr (db.factsOf (.int eid)) :=
    List.mem_filter.mpr ⟨hd, beq_self_eq_true _⟩
  have hTwo := h.pairwise_ofAttr hIdents hSchema
  rcases hList : ofAttr d.attr (db.factsOf (.int eid)) with
    _ | ⟨c, _ | ⟨c', rest⟩⟩
  · rw [hList] at hMem
    cases hMem
  · rw [hList, List.mem_singleton] at hMem
    rw [hMem]
  · rw [hList] at hTwo
    have hBoth :=
      List.rel_of_pairwise_cons hTwo List.mem_cons_self
    rw [(hBoth rfl).1] at hOne
    cases hOne

/- It is seen by itself. -/
theorem field?_single
    (h : db.Entered eid one all alone together table)
    (hIdents : db.IdentsApart)
    (hd : d ∈ db.factsOf (.int eid))
    (hSchema : db.schemaOf? d.attr = some s)
    (hOne : s.many = false) :
    Value.field?
        (Shown.entriesWith (Growths.current []) table) s.ident
      = some (alone s d.value) := by
  rw [h.field?_eq, underIdent_described hIdents hSchema,
    h.ofAttr_eq_singleton hIdents hd hSchema hOne,
    List.map_singleton, shownGroup, if_neg (by simp [hOne]),
    Option.map_some, h.one]

/- Facts of which there can be many are seen together. -/
theorem field?_many
    (h : db.Entered eid one all alone together table)
    (hIdents : db.IdentsApart)
    (hd : d ∈ db.factsOf (.int eid))
    (hSchema : db.schemaOf? d.attr = some s)
    (hMany : s.many = true) :
    Value.field?
        (Shown.entriesWith (Growths.current []) table) s.ident
      = some
          (together
            ((ofAttr d.attr (db.factsOf (.int eid))).map
              (fun c => alone s c.value))) := by
  have hGroup := underIdent_described hIdents hSchema (.int eid)
  have hMem :
      (s, d) ∈ underIdent s.ident (db.described (.int eid)) :=
    List.mem_filter.mpr
      ⟨mem_described_iff.mpr ⟨hd, hSchema⟩, beq_self_eq_true _⟩
  have hAllMany :
      ∀ p ∈ underIdent s.ident (db.described (.int eid)),
        p.1.many = true := by
    rw [hGroup]
    intro p hp
    rcases List.mem_map.mp hp with ⟨c, _, rfl⟩
    exact hMany
  rw [h.field?_eq,
    shownGroup_of_many hAllMany (List.ne_nil_of_mem hMem),
    Option.map_some, h.all, hGroup, List.map_map]
  rfl

/- So what is seen shows the facts, in whatever order. -/
theorem shows
    (h : db.Entered eid one all alone together table)
    (hIdents : db.IdentsApart)
    (hInstalled :
      ∀ d ∈ db.datoms, (db.schemaOf? d.attr).isSome = true)
    {facts : List Datom}
    (hPerm : facts.Perm (db.factsOf (.int eid))) :
    db.Shows alone together facts
      (Shown.entriesWith (Growths.current []) table) := by
  have hSame (attr : Int) :
      (ofAttr attr facts).Perm
        (ofAttr attr (db.factsOf (.int eid))) :=
    hPerm.filter _
  refine ⟨Shown.ofTexts_entriesWith h.texts _, ?_, ?_, ?_, ?_⟩
  · intro d hd
    rw [hPerm.mem_iff] at hd
    exact hInstalled d (List.mem_filter.mp hd).1
  · intro ident
    simp only [h.hasField_iff, hPerm.mem_iff]
  · intro d hd s hSchema hOne
    rw [hPerm.mem_iff] at hd
    refine ⟨?_, h.field?_single hIdents hd hSchema hOne⟩
    rw [← List.perm_singleton,
      ← h.ofAttr_eq_singleton hIdents hd hSchema hOne]
    exact hSame d.attr
  · intro d hd s hSchema hMany
    rw [hPerm.mem_iff] at hd
    refine
      ⟨_, h.field?_many hIdents hd hSchema hMany,
        (hSame d.attr).symm.map _, ?_⟩
    rw [List.pairwise_map]
    exact
      (h.pairwise_ofAttr hIdents hSchema).imp
        fun hTogether => (hTogether rfl).2.2

end Entered

------------------------------------------------------------
-- Legible Databases
------------------------------------------------------------

/-
  A database whose facts can be read alike: its facts keep to
  types and go with idents that are not empty, all values can
  be members of sets, and attributes are told apart.
-/
structure Legible (db : Database) : Prop where
  sound : db.Sound
  typed : db.TypedFacts db.datoms
  named : db.WellNamed
  hashable : ∀ d ∈ db.datoms, d.value.hashable = true
  nonempty :
    ∀ d ∈ db.datoms, d.attr = identAttr → d.value ≠ .str ""
  idents : db.IdentsApart

namespace Legible

variable {v w : Value}
variable {s : Schema}

/- Idents are texts that are not empty. -/
theorem exists_ident
    (h : db.Legible)
    (hIdent : db.identOf v = some w) :
    ∃ t, w = .str t ∧ t ≠ "" := by
  unfold identOf at hIdent
  rcases Option.map_eq_some_iff.mp hIdent with ⟨b, hFound, rfl⟩
  have hb := List.mem_of_find?_eq_some hFound
  rcases h.named.named.keys.texts b hb with ⟨t, hText⟩
  rcases h.named.named.stored b hb with
    ⟨d, hd, -, hAttr, hValue⟩
  refine ⟨t, hText, ?_⟩
  rintro rfl
  exact h.nonempty d hd hAttr (hValue.trans hText)

/- So references are shown as they have to be. -/
theorem value_shown
    (h : db.Legible)
    (s : Schema)
    (d : Datom) :
    (db.shown s d).value = db.shownValue s d.value := by
  unfold shown shownValue
  split
  · rcases hIdent : db.identOf d.value with _ | ident
    · rfl
    · rcases h.exists_ident hIdent with ⟨t, rfl, hSome⟩
      have hTruthy : (Value.str t).truthy = true := by
        simpa [Value.truthy] using hSome
      simp only [hTruthy, if_true]
      rfl
  · rfl

/- What is shown can be a member of a set. -/
theorem hashable_shownValue
    (h : db.Legible)
    (hHashable : v.hashable = true) :
    (db.shownValue s v).hashable = true := by
  unfold shownValue
  split
  · rcases hIdent : db.identOf v with _ | ident
    · exact hHashable
    · rcases h.exists_ident hIdent with ⟨t, rfl, -⟩
      exact Value.hashable_str t
  · exact hHashable

/- An ident is not the same for two values that are not. -/
theorem not_same_identOf
    (h : db.Legible)
    (hApart : v.same w = false)
    {i j : Value}
    (hLeft : db.identOf v = some i)
    (hRight : db.identOf w = some j) : i.same j = false := by
  rw [Bool.eq_false_iff]
  intro hSame
  rcases h.exists_ident hLeft with ⟨t, rfl, -⟩
  rw [Value.eq_str_of_same hSame] at hRight
  rcases h.named.resolve_identOf hLeft with ⟨n, hn, hFound⟩
  rcases h.named.resolve_identOf hRight with ⟨m, hm, hFound'⟩
  rw [hFound] at hFound'
  rcases hFound' with ⟨⟩
  have hBoth : v.same w = true := by
    refine Value.same_trans (b := .int n) ?_ ?_
    · rw [Value.same_int_right, hn]
    · rw [Value.same, hm]
  rw [hApart] at hBoth
  cases hBoth

/- A reference is no text. -/
theorem not_same_str_of_isRef
    (h : db.Legible)
    {d : Datom}
    (hd : d ∈ db.datoms)
    (hRef : db.isRef d.attr = true)
    (t : String) : d.value.same (.str t) = false := by
  rcases h.typed.references d hd hRef with
    ⟨n, hn⟩ | ⟨-, n, hn⟩
  · simp [hn, Value.same, Value.isInt, Value.hasMagnitude,
      Value.magnitude?]
  · simp [hn, Value.same]

/- References of one attribute are shown by values apart. -/
theorem not_same_shownValue
    (h : db.Legible)
    {d d' : Datom}
    (hd : d ∈ db.datoms)
    (hd' : d' ∈ db.datoms)
    (hSchema : db.schemaOf? d.attr = some s)
    (hAttr : d.attr = d'.attr)
    (hApart : d.value.same d'.value = false) :
    (db.shownValue s d.value).same (db.shownValue s d'.value)
      = false := by
  unfold shownValue
  split
  next hRef =>
    have hIsRef : db.isRef d.attr = true := by
      rw [isRef, hSchema]
      exact hRef
    rcases hLeft : db.identOf d.value with _ | i <;>
      rcases hRight : db.identOf d'.value with _ | j
    · exact hApart
    · rcases h.exists_ident hRight with ⟨t, rfl, -⟩
      exact h.not_same_str_of_isRef hd hIsRef t
    · rcases h.exists_ident hLeft with ⟨t, rfl, -⟩
      rw [Bool.eq_false_iff]
      intro hSame
      have hText := Value.eq_str_of_same hSame
      have hNot :=
        h.not_same_str_of_isRef hd' (hAttr ▸ hIsRef) t
      rw [Option.getD_none] at hText
      rw [hText, Value.same_refl] at hNot
      cases hNot
    · exact h.not_same_identOf hApart hLeft hRight
  next => exact hApart

/- References that are not the same are pulled apart. -/
theorem not_same_pulledValue
    (hApart : v.same w = false) :
    (pulledValue s v).same (pulledValue s w) = false := by
  unfold pulledValue
  split
  · rw [Value.same_singleton_map, hApart]
  · exact hApart

/-
  Facts of an entity under one ident are of one attribute,
  which has many values, and these are not the same.
-/
theorem pairwise_described
    (h : db.Legible)
    (eid : Int)
    {Apart : Described → Described → Prop}
    (hApart :
      ∀ s, ∀ d ∈ db.datoms, ∀ d' ∈ db.datoms,
        db.schemaOf? d.attr = some s → d.attr = d'.attr →
          d.value.same d'.value = false →
            Apart (s, d) (s, d')) :
    (db.described (.int eid)).Pairwise (Together Apart) := by
  unfold described
  rw [List.pairwise_filterMap]
  have hSub :
      (db.factsOf (.int eid)).Sublist db.datoms :=
    List.filter_sublist
  have hFacts :=
    (h.sound.facts.distinct.and h.typed.single).sublist hSub
  refine hFacts.imp_of_mem ?_
  rintro d d' hd hd' ⟨hDistinct, hSingle⟩ p hp q hq hIdent
  rcases Option.map_eq_some_iff.mp hp with ⟨s, hSchema, rfl⟩
  rcases Option.map_eq_some_iff.mp hq with ⟨s', hSchema', rfl⟩
  have hAttr : d.attr = d'.attr :=
    h.idents.eq_of_ident hSchema hSchema' hIdent
  have hEqual : s' = s := by
    rw [hAttr, hSchema'] at hSchema
    exact Option.some.inj hSchema
  subst hEqual
  have hEntity : d.entity = d'.entity := by
    have hOwner (c : Datom) (hc : c ∈ db.factsOf (.int eid)) :
        c.entity = eid := by
      simpa [Value.isInt] using (List.mem_filter.mp hc).2
    rw [hOwner d hd, hOwner d' hd']
  have hMem := hSub.subset hd
  have hMem' := hSub.subset hd'
  have hMany := hSingle hEntity hAttr s' hSchema
  refine ⟨hMany, hMany, ?_⟩
  exact
    hApart s' d hMem d' hMem' hSchema hAttr
      (Value.not_same_of_hashable (h.hashable d hMem)
        (h.hashable d' hMem') (h.typed.defined d hMem)
        (hDistinct hEntity hAttr).1)

/- The map of an entity shows its facts. -/
theorem exists_entity
    (h : db.Legible)
    (eid : Int)
    {facts : List Datom}
    (hPerm : facts.Perm (db.factsOf (.int eid))) :
    ∃ entries,
      (db.entity (.int eid)).run.run [] = (.ok entries, [])
        ∧ db.Shows db.shownValue .set facts entries := by
  have hValue (p : Described) :
      (db.shown p.1 p.2).value = db.shownValue p.1 p.2.value :=
    h.value_shown p.1 p.2
  have hPairs :
      (db.described (.int eid)).Pairwise
        (Together (ApartBy db.shownValue)) :=
    h.pairwise_described eid
      fun _ _ hd _ hd' => h.not_same_shownValue hd hd'
  have hFits :
      ∀ p ∈ db.described (.int eid), p.1.many = true →
        (db.shown p.1 p.2).value.hashable = true := by
    intro p hp _
    rw [hValue]
    have hFact := (mem_described_iff.mp hp).1
    exact
      h.hashable_shownValue
        (h.hashable p.2 (List.mem_filter.mp hFact).1)
  have hShown :
      (db.described (.int eid)).Pairwise
        (Together (fun q p =>
          (db.shown q.1 q.2).value.same (db.shown p.1 p.2).value
            = false)) := by
    refine hPairs.imp fun hTogether => hTogether.mono ?_
    intro hApart
    rw [hValue, hValue]
    exact hApart
  have hStart :
      ∀ p ∈ db.described (.int eid),
        Table.find? (.str p.1.ident)
            ([] : List (Value × Shown)) = none :=
    fun _ _ => rfl
  rcases (groups_showDescribed db).exists_run_foldlM
      hFits hShown hStart [] with
    ⟨table, hRun, hTexts, hFound⟩
  refine ⟨Shown.entriesWith (Growths.current []) table, ?_, ?_⟩
  · rw [entity_eq_described h.sound.facts.installed,
      Gathering.run_bind, hRun]
    rfl
  · refine
      Entered.shows ⟨hTexts, hFound, hPairs, ?_, ?_⟩ h.idents
        h.sound.facts.installed hPerm
    · intro p
      rw [Shown.value, Shown.valueWith, Growths.current_nil,
        hValue]
    · intro group
      rw [Shown.value, Shown.fresh, Shown.valueWith,
        Growths.current_nil, Held.fresh]
      simp only [hValue]

/- What is pulled of a value is looked at as it has to be. -/
theorem value_pulledFlat
    (s : Schema)
    (d : Datom) :
    (pulledFlat s d).value [] = pulledValue s d.value := by
  unfold pulledFlat pulledValue
  split
  · simp [Shown.value, Shown.valueWith, Shown.entriesWith,
      Shown.ofDatom, Held.ofDatom, idEntry]
  · simp [Shown.value, Shown.valueWith, Shown.ofDatom,
      Held.ofDatom]

/- The id of the entity is looked at in front. -/
theorem value_withId
    (eid : Int)
    (table : List (Value × Shown)) :
    (Shown.map
        ((idEntry, .one (.fresh (.int eid))) :: table)).value []
      = .map ((.str "db/id", .int eid)
          :: Shown.entriesWith (Growths.current []) table) := by
  rw [Shown.value, Shown.valueWith, Shown.entriesWith,
    Shown.valueWith, Growths.current_nil]
  rfl

/- No fact is entered in its place. -/
theorem find?_idEntry
    (h : db.Legible)
    {eid : Value}
    {p : Described}
    (hp : p ∈ db.described eid)
    (x : Shown) :
    Table.find? (.str p.1.ident) [(idEntry, x)] = none := by
  rcases Table.mem_of_find? (mem_described_iff.mp hp).2 with
    ⟨k, hMem, -⟩
  have hOwn := h.idents.own _ hMem
  rw [idEntry, Table.find?, Table.same_str,
    if_neg (by simpa using hOwn.symm), Table.find?]

/- What is pulled of an entity shows its facts. -/
theorem exists_pull
    (h : db.Legible)
    (eid : Int)
    {facts : List Datom}
    (hPerm : facts.Perm (db.factsOf (.int eid))) :
    ∃ entries,
      (db.pull (.list [.str "*"]) (.fresh (.int eid))
          >>= Gathering.look).run.run []
        = (.ok (.map ((.str "db/id", .int eid) :: entries)), [])
        ∧ db.Shows pulledValue .list facts entries := by
  have hPairs :
      (db.described (.int eid)).Pairwise
        (Together (ApartBy pulledValue)) := by
    refine h.pairwise_described eid ?_
    intro _ _ _ _ _ _ _ hApart
    exact not_same_pulledValue hApart
  rcases groups_pullDescribed.exists_run_foldlM
      (fun _ _ _ => trivial)
      (hPairs.imp fun hApart => hApart.mono fun _ => trivial)
      (fun _ hp => h.find?_idEntry hp (.one (.fresh (.int eid))))
      [] with
    ⟨table, hRun, hTexts, hFound⟩
  refine ⟨Shown.entriesWith (Growths.current []) table, ?_, ?_⟩
  · have hPut :
        Table.put idEntry (Shown.one (.fresh (.int eid))) []
          = [(idEntry, Shown.one (.fresh (.int eid)))] := rfl
    rw [pull_eq_described h.sound.facts.installed, hPut,
      Gathering.run_bind, Gathering.run_bind, hRun]
    exact
      congrArg (fun v => (Except.ok v, []))
        (value_withId eid table)
  · have hValue (p : Described) :
        (pulledFlat p.1 p.2).value []
          = pulledValue p.1 p.2.value :=
      value_pulledFlat p.1 p.2
    refine
      Entered.shows ⟨hTexts, hFound, hPairs, hValue, ?_⟩ h.idents
        h.sound.facts.installed hPerm
    intro group
    rw [Shown.value, Shown.valueWith, Shown.itemsWith_eq_map,
      List.map_map]
    exact
      congrArg Value.list
        (List.map_congr_left fun p _ => hValue p)

end Legible

------------------------------------------------------------
-- Agreement
------------------------------------------------------------

/-
  The three ways to read an entity agree: all of its facts can
  be read in the index of entities, its map shows these facts,
  with references by their idents and many values as a set,
  and so does all that is pulled of it behind the id of the
  entity, with references as maps and many values as a list.
  Where nothing that facts hold has grown, nothing grows by
  reading either.
-/
def ReadsAgree
    (db : Database)
    (eid : Int) : Prop :=
  ∃ facts entries pulled,
    db.scan (.str "eavt") [.int eid] = .ok facts
      ∧ facts.Perm (db.datoms.filter (fun d => d.entity == eid))
      ∧ (db.entity (.int eid)).run.run [] = (.ok entries, [])
      ∧ (db.pull (.list [.str "*"]) (.fresh (.int eid))
          >>= Gathering.look).run.run []
        = (.ok (.map ((.str "db/id", .int eid) :: pulled)), [])
      ∧ db.Shows db.shownValue .set facts entries
      ∧ db.Shows pulledValue .list facts pulled

/- In a legible database they do. -/
theorem Legible.readsAgree
    (h : db.Legible)
    (eid : Int) : db.ReadsAgree eid := by
  rcases db.exists_scan_entity eid with ⟨facts, hScan, hPerm⟩
  rcases h.exists_entity eid hPerm with
    ⟨entries, hEntity, hShows⟩
  rcases h.exists_pull eid hPerm with ⟨pulled, hPull, hPulled⟩
  exact
    ⟨facts, entries, pulled, hScan, hPerm, hEntity, hPull,
      hShows, hPulled⟩

end Database

------------------------------------------------------------
-- Runs
------------------------------------------------------------

/-
  A transaction that is steady and spares the idents of the
  first database.
-/
structure TxResult.Sparing (r : TxResult) : Prop where
  steady : r.Steady
  names : ∀ d ∈ r.facts, d.SparesNames

namespace Engine

/-
  In every database that steady transactions lead to that
  spare the idents of the first one, the three ways to read an
  entity agree, provided that all values that are stored can
  be members of a set, that no ident is empty, and that no two
  attributes have one ident and none that of the entity id.
-/
theorem RunOf.reads_agree
    {clock : Nat → Int}
    {e : Engine}
    (h : RunOf TxResult.Sparing (start clock) e)
    (hHashable : ∀ d ∈ e.db.datoms, d.value.hashable = true)
    (hNonempty :
      ∀ d ∈ e.db.datoms, d.attr = identAttr →
        d.value ≠ .str "")
    (hIdents : e.db.IdentsApart)
    (eid : Int) : e.db.ReadsAgree eid := by
  have hKept :
      e.db.Sound ∧ e.db.TypedFacts e.db.datoms
        ∧ e.db.WellNamed := by
    refine
      h.invariant
        (fun db =>
          db.Sound ∧ db.TypedFacts db.datoms ∧ db.WellNamed) ?_
        ⟨sound_database _, typedFacts_database _,
          Database.wellNamed_database _⟩
    rintro e l r hCommits hSparing ⟨hSound, hTyped, hNamed⟩
    -- The attribute of idents keeps its cardinality.
    have hSingle :
        ∃ s, r.after.schemaOf? identAttr = some s
          ∧ s.many = false := by
      rcases hNamed.single with ⟨s, hSchema, hOne⟩
      rw [← hCommits.before] at hSchema
      rcases hSparing.steady.types identAttr s hSchema with
        ⟨s', hAfter, -, hSame⟩
      refine ⟨s', hAfter, ?_⟩
      rw [Schema.many, hSame]
      exact hOne
    exact
      ⟨hSound.after hCommits.changes hCommits.after,
        .after hCommits hSparing.steady hSound hTyped,
        hNamed.after_of_single hCommits hSparing.names hSingle⟩
  rcases hKept with ⟨hSound, hTyped, hNamed⟩
  have hLegible : e.db.Legible :=
    { sound := hSound
      typed := hTyped
      named := hNamed
      hashable := hHashable
      nonempty := hNonempty
      idents := hIdents }
  exact hLegible.readsAgree eid

/-
  By this, a transaction can be seen to be such, given the
  attribute that installs attributes.
-/
def seenSparing
    (attr : Int)
    (r : TxResult) : Bool :=
  (r.before.installed
      (.str "db.install/attribute")).toOption.map
        Installed.eid == some attr
    && r.installsNew attr && r.facts.all seenToSpare

/- What is seen to be such is. -/
theorem nextOf_sparing
    {e : Engine}
    {data : Value}
    (attr : Int)
    (h :
      (e.transact data).1.toOption.all (seenSparing attr)
        = true) :
    NextOf TxResult.Sparing e (e.transact data).2 := by
  refine nextOf_of_all ?_ h
  intro l r hCommits hSeen
  simp only [seenSparing, Bool.and_eq_true, beq_iff_eq] at hSeen
  rcases hSeen with ⟨⟨hAttr, hNew⟩, hSpares⟩
  rw [hCommits.before] at hAttr
  rcases Database.exists_installed hAttr with
    ⟨newAttr, hInstalled, rfl⟩
  refine ⟨hCommits.steady hInstalled hNew, ?_⟩
  intro d hd
  exact
    (sparesIdents_of_seen
      (List.all_eq_true.mp hSpares d hd)).names

/-
  By this, the values and the idents of a database can be seen
  to be such that an entity can be read alike.
-/
def seenFit (db : Database) : Bool :=
  db.datoms.all (fun d =>
      d.value.hashable
        && (d.attr != identAttr || d.value.truthy))
    && decide
      (db.attributes.Pairwise (fun a b =>
        a.2.ident ≠ b.2.ident))
    && db.attributes.all (fun a => a.2.ident != "db/id")

/- What is seen to be such is. -/
theorem fit_of_seen
    {db : Database}
    (h : seenFit db = true) :
    (∀ d ∈ db.datoms, d.value.hashable = true)
      ∧ (∀ d ∈ db.datoms, d.attr = identAttr →
          d.value ≠ .str "")
      ∧ db.IdentsApart := by
  simp only [seenFit, Bool.and_eq_true, List.all_eq_true,
    Bool.or_eq_true, bne_iff_ne, decide_eq_true_eq] at h
  rcases h with ⟨⟨hFacts, hDistinct⟩, hOwn⟩
  refine ⟨fun d hd => (hFacts d hd).1, ?_, hDistinct, hOwn⟩
  intro d hd hAttr hEmpty
  rcases (hFacts d hd).2 with hOther | hTruthy
  · exact hOther hAttr
  · rw [hEmpty] at hTruthy
    cases hTruthy

/-
  The partition of attributes refers to each attribute that is
  installed in it, the new one among them, by its ident.
-/
theorem reads_agree_partnerEngine :
    RunOf TxResult.Sparing (start (fun _ => 0)) partnerEngine
      ∧ (partnerEngine.db.datoms.any (fun d =>
          d.entity == 0 && d.attr == installAttr
            && partnerEngine.db.isRef d.attr
            && (partnerEngine.db.identOf d.value).isSome))
          = true
      ∧ partnerEngine.db.ReadsAgree 0 := by
  have hFirst :
      NextOf TxResult.Sparing (start (fun _ => 0))
        ((start (fun _ => 0)).transact partnerAttribute).2 :=
    nextOf_sparing 21 (by decide +kernel)
  have hRun :
      RunOf TxResult.Sparing (start (fun _ => 0))
        partnerEngine :=
    (Relation.ReflTransGen.single hFirst).tail
      (nextOf_sparing 21 (by decide +kernel))
  have hFit : seenFit partnerEngine.db = true := by
    decide +kernel
  rcases fit_of_seen hFit with
    ⟨hHashable, hNonempty, hIdents⟩
  exact
    ⟨hRun, by decide +kernel,
      hRun.reads_agree hHashable hNonempty hIdents 0⟩

end Engine

end FactBase
