import FactBase.Proofs.Fact.Invariant
import FactBase.Proofs.Value.TextTable

/-
  This file shows that idents and entities go together one to
  one: each ident is stored as a fact about the entity that it
  names, and no entity has two idents.  This is so as long as
  idents are texts and those of the first database are left
  alone.

  Key definitions include:
    * `DatomOf.SparesIdents`
    * `DatomOf.SparesNames`
    * `Database.Named`
    * `Database.WellNamed`

  Key theorems include:
    * `Ledger.Change.named`
    * `Database.WellNamed.after`
    * `Database.WellNamed.identOf_resolve`
    * `Engine.RunOf.idents_inverse`
-/

------------------------------------------------------------
-- Named Entities
------------------------------------------------------------

namespace FactBase

open Sorting

namespace Bootstrap

/- The idents of the first database. -/
def idents : List (Value × Int) := (database 0).idents

/- The attribute of idents. -/
def identAttr : Int := attributeId "db/ident"

/- The attribute by which attributes are installed. -/
def installAttr : Int := attributeId "db.install/attribute"

end Bootstrap

open Bootstrap

/-
  An entry of a log that leaves the idents of the first
  database alone: it takes none from its entity, gives such an
  entity no other, and gives none of them to another entity.
  What it adds as an ident is a text, and it does not install
  the attribute of idents.
-/
structure DatomOf.SparesIdents (d : Datom) : Prop where
  text :
    d.attr = identAttr → d.added = true →
      ∃ s, d.value = .str s
  entity :
    d.attr = identAttr → ∀ b ∈ idents, d.entity ≠ b.2
  ident :
    d.attr = identAttr → d.added = true →
      ∀ b ∈ idents, d.value ≠ b.1
  install :
    d.attr = installAttr → d.added = true →
      d.value.isInt identAttr = false

/-
  The same of an entry that may install the attribute of
  idents.
-/
structure DatomOf.SparesNames (d : Datom) : Prop where
  text :
    d.attr = identAttr → d.added = true →
      ∃ s, d.value = .str s
  entity :
    d.attr = identAttr → ∀ b ∈ idents, d.entity ≠ b.2
  ident :
    d.attr = identAttr → d.added = true →
      ∀ b ∈ idents, d.value ≠ b.1

/- To install it is all that is let in by that. -/
theorem DatomOf.SparesIdents.names
    {d : Datom}
    (h : d.SparesIdents) : d.SparesNames :=
  ⟨h.text, h.entity, h.ident⟩

/-
  A table of idents goes with facts: an entity has one ident
  at most, which is a text, the table has only idents that
  are stored, and those of the first database are there.
-/
structure Database.Named
    (datoms : List Datom)
    (table : List (Value × Int)) : Prop where
  texts :
    ∀ d ∈ datoms, d.attr = identAttr →
      ∃ s, d.value = .str s
  single :
    datoms.Pairwise (fun d d' =>
      d.attr = identAttr → d'.attr = identAttr →
        d.entity ≠ d'.entity)
  keys : Table.OfTexts table
  stored :
    ∀ b ∈ table, ∃ d ∈ datoms,
      d.entity = b.2 ∧ d.attr = identAttr ∧ d.value = b.1
  kept : ∀ b ∈ idents, b ∈ table

namespace Database.Named

variable {before after datoms : List Datom}
variable {table : List (Value × Int)}
variable {c : Datom}
variable {s : String}

/- The facts that are left still have one ident each. -/
private theorem texts_single_of_removed
    (h : Named (before ++ c :: after) table) :
    (∀ d ∈ before ++ after, d.attr = identAttr →
        ∃ s, d.value = .str s)
      ∧ (before ++ after).Pairwise (fun d d' =>
          d.attr = identAttr → d'.attr = identAttr →
            d.entity ≠ d'.entity) := by
  have hSub :
      (before ++ after).Sublist (before ++ c :: after) :=
    (List.sublist_cons_self c after).append_left before
  exact
    ⟨fun d hd => h.texts d (hSub.subset hd),
      h.single.sublist hSub⟩

/- A fact that is no ident can go. -/
theorem remove_other
    (h : Named (before ++ c :: after) table)
    (hc : c.attr ≠ identAttr) :
    Named (before ++ after) table where
  texts := h.texts_single_of_removed.1
  single := h.texts_single_of_removed.2
  keys := h.keys
  stored := by
    intro b hb
    rcases h.stored b hb with ⟨d, hd, hEntity, hAttr, hValue⟩
    rw [List.mem_append, List.mem_cons] at hd
    rcases hd with hd | rfl | hd
    · exact
        ⟨d, List.mem_append_left _ hd, hEntity, hAttr, hValue⟩
    · exact absurd hAttr hc
    · exact
        ⟨d, List.mem_append_right _ hd, hEntity, hAttr, hValue⟩
  kept := h.kept

/-
  An ident can go if its entry goes as well.  The entry stays
  if it names another entity by now.
-/
theorem remove_ident
    (h : Named (before ++ c :: after) table)
    (hValue : c.value = .str s)
    (hEntity : ∀ b ∈ idents, c.entity ≠ b.2) :
    Named (before ++ after)
      (if Table.find? (.str s) table = some c.entity then
        Table.erase (.str s) table
      else table) where
  texts := h.texts_single_of_removed.1
  single := h.texts_single_of_removed.2
  keys := by
    split
    · exact h.keys.erase s
    · exact h.keys
  stored := by
    intro b hb
    have hMem :
        b ∈ table ∧ ¬(b.1 = .str s ∧ b.2 = c.entity) := by
      split at hb
      · rw [h.keys.mem_erase_iff] at hb
        exact ⟨hb.1, fun hBoth => hb.2 hBoth.1⟩
      next hNot =>
        refine ⟨hb, ?_⟩
        rintro ⟨hName, hSame⟩
        rw [h.keys.find?_eq_some_iff, ← hName, ← hSame] at hNot
        exact hNot hb
    rcases h.stored b hMem.1 with
      ⟨d, hd, hOwner, hAttr, hName⟩
    rw [List.mem_append, List.mem_cons] at hd
    rcases hd with hd | rfl | hd
    · exact ⟨d, List.mem_append_left _ hd, hOwner, hAttr, hName⟩
    · exact absurd ⟨hName ▸ hValue, hOwner.symm⟩ hMem.2
    · exact
        ⟨d, List.mem_append_right _ hd, hOwner, hAttr, hName⟩
  kept := by
    intro b hb
    split
    next hFound =>
      rw [h.keys.find?_eq_some_iff] at hFound
      refine h.keys.mem_erase_iff.mpr ⟨h.kept b hb, ?_⟩
      -- The text would name both entities.
      intro hName
      have hOwn := h.kept b hb
      rw [show b = (.str s, b.2) from Prod.ext hName rfl,
        ← h.keys.find?_eq_some_iff] at hOwn
      rw [← h.keys.find?_eq_some_iff, hOwn] at hFound
      exact hEntity b hb (Option.some.inj hFound).symm
    · exact h.kept b hb

/- A fact that is no ident can be entered. -/
theorem enter_other
    (h : Named datoms table)
    (hc : c.attr ≠ identAttr) :
    Named (datoms ++ [c]) table where
  texts :=
    forall_mem_append_singleton.mpr
      ⟨h.texts, fun hAttr => absurd hAttr hc⟩
  single :=
    pairwise_append_singleton.mpr
      ⟨h.single, fun _ _ _ hAttr => absurd hAttr hc⟩
  keys := h.keys
  stored := by
    intro b hb
    rcases h.stored b hb with ⟨d, hd, hRest⟩
    exact ⟨d, List.mem_append_left _ hd, hRest⟩
  kept := h.kept

/-
  An ident can be entered for an entity without one, whatever
  the text named before.
-/
theorem enter_ident
    (h : Named datoms table)
    (hAttr : c.attr = identAttr)
    (hValue : c.value = .str s)
    (hAlone :
      ∀ d ∈ datoms, d.attr = identAttr →
        d.entity ≠ c.entity)
    (hIdent : ∀ b ∈ idents, c.value ≠ b.1) :
    Named (datoms ++ [c])
      (Table.put (.str s) c.entity table) where
  texts :=
    forall_mem_append_singleton.mpr
      ⟨h.texts, fun _ => ⟨s, hValue⟩⟩
  single :=
    pairwise_append_singleton.mpr
      ⟨h.single, fun d hd hOther _ => hAlone d hd hOther⟩
  keys := h.keys.put s c.entity
  stored := by
    intro b hb
    rcases h.keys.mem_put_iff.mp hb with rfl | ⟨hMem, _⟩
    · exact
        ⟨c, List.mem_append_right _ List.mem_cons_self, rfl,
          hAttr, hValue⟩
    · rcases h.stored b hMem with ⟨d, hd, hRest⟩
      exact ⟨d, List.mem_append_left _ hd, hRest⟩
  kept := by
    intro b hb
    refine h.keys.mem_put_iff.mpr (.inr ⟨h.kept b hb, ?_⟩)
    exact fun hName => hIdent b hb (hValue.trans hName.symm)

end Database.Named

------------------------------------------------------------
-- Idents under Changes
------------------------------------------------------------

/- What is the same as a text is that text. -/
theorem Value.eq_str_of_same
    {v : Value}
    {s : String}
    (h : (Value.str s).same v = true) : v = .str s := by
  cases v <;> simp_all [Value.same]

/- What is made as a text is one. -/
theorem Value.exists_text
    {v : Value}
    (h : (v matches .str _) = true) : ∃ s, v = .str s := by
  split at h
  next s => exact ⟨s, rfl⟩
  next => cases h

/- A text can be looked up. -/
theorem Value.hashable_str (s : String) :
    (Value.str s).hashable = true := by
  simp [Value.hashable]

/- Only that text is at the place of a text. -/
theorem Value.apart_of_ne
    {v : Value}
    {s : String}
    (h : v ≠ .str s) :
    ∀ k : Value, k.same v = true → k.same (.str s) = false := by
  intro k hk
  rw [Bool.eq_false_iff]
  intro hText
  rw [Value.same_bare_right_iff rfl] at hText
  rw [hText] at hk
  exact h (Value.eq_str_of_same hk)

/- What is put under a text is found under that text only. -/
theorem Table.find?_put_str
    {α : Type}
    (s t : String)
    (x : α)
    (table : List (Value × α)) :
    find? (.str t) (put (.str s) x table)
      = if s == t then some x else find? (.str t) table := by
  by_cases hSame : s = t
  · subst hSame
    rw [if_pos (beq_self_eq_true s),
      find?_put _ _ _ (Value.same_refl _)]
  · rw [if_neg (by simpa using hSame)]
    exact
      find?_put_of_apart
        (Value.apart_of_ne (by simpa using hSame)) x table

/- A text can always be followed. -/
theorem Database.followIdent_text
    {d : Datom}
    {s : String}
    (hValue : d.value = .str s)
    (table : List (Value × Int)) :
    followIdent table d
      = .ok
        (if d.added then Table.put (.str s) d.entity table
        else if Table.find? (.str s) table = some d.entity then
          Table.erase (.str s) table
        else table) := by
  unfold followIdent Table.seek
  rw [hValue, if_pos (Value.hashable_str s), ok_bind]
  by_cases hAdded : d.added = true
  · simp [hAdded, pure, Except.pure]
  · by_cases hOwner :
        Table.find? (.str s) table = some d.entity
    · simp [hAdded, hOwner, pure, Except.pure]
    · simp [hAdded, hOwner, pure, Except.pure]

namespace Ledger

variable {db : Database}
variable {tx : Int}
variable {V : Value → Prop}
variable {l after : Ledger}

/-
  The log can be followed from the idents of a database to a
  table that goes with the facts of the ledger.
-/
def NamedFrom
    (start : List (Value × Int))
    (l : Ledger) : Prop :=
  ∃ table,
    (l.log.filter (fun d => d.attr == identAttr)).foldlM
        Database.followIdent start = .ok table
      ∧ Database.Named l.datoms table

variable {start : List (Value × Int)}
variable {datoms : List Datom}
variable {entry : Datom}

/- An entry that is about no ident is passed over. -/
private theorem namedFrom_other
    (hEntry : entry.attr ≠ identAttr)
    (h :
      ∃ table,
        (l.log.filter (fun d => d.attr == identAttr)).foldlM
            Database.followIdent start = .ok table
          ∧ Database.Named datoms table) :
    NamedFrom start
      { datoms := datoms, log := l.log ++ [entry] } := by
  rcases h with ⟨table, hFollow, hNamed⟩
  refine ⟨table, ?_, hNamed⟩
  rw [List.filter_append, List.filter_cons_of_neg
    (by simpa using hEntry)]
  simpa using hFollow

/- An entry about an ident is followed. -/
private theorem namedFrom_ident
    (hEntry : entry.attr = identAttr)
    {table after : List (Value × Int)}
    (hTable :
      (l.log.filter (fun d => d.attr == identAttr)).foldlM
        Database.followIdent start = .ok table)
    (hFollow : Database.followIdent table entry = .ok after)
    (hNamed : Database.Named datoms after) :
    NamedFrom start
      { datoms := datoms, log := l.log ++ [entry] } := by
  refine ⟨after, ?_, hNamed⟩
  rw [List.filter_append, List.filter_cons_of_pos
    (by simpa using hEntry), List.foldlM_append, hTable, ok_bind,
    List.filter_nil, List.foldlM_cons, hFollow, ok_bind]
  rfl

/-
  A change that spares the idents of the first database keeps
  idents and facts together.
-/
theorem Change.named
    (h : Change db tx V l after)
    (hLog : after.log = l.log ++ [entry])
    (hEntry : entry.SparesNames)
    (hOne :
      ∃ s, db.schemaOf? identAttr = some s ∧ s.many = false)
    (hNamed : NamedFrom start l) :
    NamedFrom start after := by
  rcases hNamed with ⟨table, hTable, hNamed⟩
  cases h with
  | @retract entity attr v origin rest hRest =>
      rcases List.append_inj_right' hLog rfl with ⟨⟩
      rcases split_of_withoutFirst? hRest with
        ⟨before, c, left, hSplit, rfl, hFirst, _⟩
      rcases Value.of_states hFirst with
        ⟨rfl, rfl, hEquals⟩
      rw [hSplit] at hNamed
      by_cases hAttr : c.attr = identAttr
      · rcases hNamed.texts c (by simp) hAttr with ⟨s, hValue⟩
        rw [hValue] at hEquals
        have hText :=
          Value.eq_str_of_same (Value.same_of_equals rfl hEquals)
        exact
          namedFrom_ident hAttr hTable
            (Database.followIdent_text hText table)
            (hNamed.remove_ident hValue (hEntry.entity hAttr))
      · exact
          namedFrom_other hAttr
            ⟨table, hTable, hNamed.remove_other hAttr⟩
  | @enter entity attr v origin hSchema _ hAlone _ _ =>
      rcases List.append_inj_right' hLog rfl with ⟨⟩
      by_cases hAttr : attr.eid = identAttr
      · rcases hEntry.text hAttr rfl with ⟨s, hText⟩
        rcases hOne with ⟨schema, hIdent, hMany⟩
        rw [hAttr, hIdent] at hSchema
        rcases hSchema with ⟨⟩
        refine
          namedFrom_ident hAttr hTable
            (Database.followIdent_text hText table)
            (hNamed.enter_ident hAttr hText ?_
              (hEntry.ident hAttr rfl))
        -- An ident that was there would be an undefined number.
        intro d hd hOther hSame
        have hLeft :=
          hAlone hMany d
            (mem_about.mpr
              ⟨hd, hSame, hOther.trans hAttr.symm⟩)
        rcases hNamed.texts d hd hOther with ⟨t, hValue⟩
        rw [hValue] at hLeft
        cases hLeft
      · exact
          namedFrom_other hAttr
            ⟨table, hTable, hNamed.enter_other hAttr⟩

end Ledger

------------------------------------------------------------
-- Databases
------------------------------------------------------------

namespace Database

variable {db : Database}

/- The idents of a database go with its facts. -/
structure WellNamed (db : Database) : Prop where
  named : Named db.datoms db.idents
  single :
    ∃ s, db.schemaOf? identAttr = some s ∧ s.many = false

/- The first database is well named. -/
theorem wellNamed_database (instant : Int) :
    (database instant).WellNamed := by
  have hTexts :
      ∀ d ∈ (database instant).datoms, d.attr = identAttr →
        ∃ s, d.value = .str s := by
    refine forall_mem_datoms ?_ ?_
    · have hFixed :
          ∀ d ∈ fixedFacts, d.attr = identAttr →
            (d.value matches .str _) = true := by
        decide +kernel
      intro d hd hAttr
      exact Value.exists_text (hFixed d hd hAttr)
    · have hDiffer : (instantFact 0).attr ≠ identAttr := by
        decide +kernel
      exact fun hAttr => absurd hAttr hDiffer
  refine ⟨⟨hTexts, ?_, ⟨?_, ?_⟩, ?_, fun _ hb => hb⟩, ?_⟩
  · refine pairwise_datoms ?_ (fun _ _ hDiffer _ _ => hDiffer)
    decide +kernel
  · have hKeys :
        ∀ b ∈ idents, (b.1 matches .str _) = true := by
      decide +kernel
    exact fun b hb => Value.exists_text (hKeys b hb)
  · have hDistinct :
        idents.Pairwise (fun a b => a.1.same b.1 = false) := by
      decide +kernel
    refine hDistinct.imp ?_
    intro a b hDiffer hSame
    rw [hSame, Value.same_refl] at hDiffer
    cases hDiffer
  · have hStored :
        ∀ b ∈ idents, ∃ d ∈ fixedFacts,
          d.entity = b.2 ∧ d.attr = identAttr
            ∧ d.value.same b.1 = true := by
      decide +kernel
    intro b hb
    rcases hStored b hb with ⟨d, hd, hEntity, hAttr, hSame⟩
    have hFact : d ∈ (database instant).datoms :=
      List.mem_append_left _ hd
    refine ⟨d, hFact, hEntity, hAttr, ?_⟩
    rcases hTexts d hFact hAttr with ⟨s, hValue⟩
    rw [hValue] at hSame ⊢
    exact (Value.eq_str_of_same hSame).symm
  · have hOne :
        ((database 0).schemaOf? identAttr).any
          (fun s => !s.many) = true := by
      decide +kernel
    change
      ∃ s, (database 0).schemaOf? identAttr = some s
        ∧ s.many = false
    rcases hSchema : (database 0).schemaOf? identAttr with _ | s
    · rw [hSchema] at hOne
      cases hOne
    · rw [hSchema] at hOne
      exact ⟨s, rfl, by simpa using hOne⟩

namespace WellNamed

variable {s : String}
variable {eid : Int}

/- An ident of the first database names what it named there. -/
theorem find?_ident
    (h : db.WellNamed)
    (hIdent : Table.find? (.str s) idents = some eid) :
    Table.find? (.str s) db.idents = some eid := by
  have hFirst := (wellNamed_database 0).named.keys
  apply h.named.keys.find?_eq_some_iff.mpr
  exact h.named.kept _ (hFirst.find?_eq_some_iff.mp hIdent)

/- So an attribute that it names is the same as there. -/
theorem eid_of_installed
    (h : db.WellNamed)
    (hIdent : Table.find? (.str s) idents = some eid)
    {attr : Installed}
    (hAttr : db.installed (.str s) = .ok attr) :
    attr.eid = eid := by
  have hFound := (installed_eq_ok.mp hAttr).2.1
  rw [h.find?_ident hIdent] at hFound
  exact (Option.some.inj hFound).symm

/- The attribute of idents can still be found by its ident. -/
theorem exists_installed_ident
    (h : db.WellNamed) :
    ∃ attr, db.installed (.str "db/ident") = .ok attr
      ∧ attr.eid = identAttr := by
  rcases h.single with ⟨schema, hSchema, _⟩
  have hFound :
      Table.find? (.str "db/ident") db.idents
        = some identAttr :=
    h.find?_ident (by decide +kernel)
  exact
    ⟨{ eid := identAttr, schema := schema },
      installed_eq_ok.mpr
        ⟨Value.hashable_str _, hFound, hSchema⟩,
      rfl⟩

/-
  A transaction that spares the idents of the first database
  leads from a well-named database to a well-named one, as
  long as an entity can have only one ident.
-/
theorem after_of_single
    {e : Engine}
    {l : Ledger}
    {r : TxResult}
    {V : Value → Prop}
    (h : e.db.WellNamed)
    (hCommits : e.Commits V l r)
    (hSpares : ∀ d ∈ r.facts, d.SparesNames)
    (hSingle :
      ∃ s, r.after.schemaOf? identAttr = some s
        ∧ s.many = false) :
    r.after.WellNamed := by
  rw [hCommits.facts] at hSpares
  have hStart :
      Ledger.NamedFrom e.db.idents (.ofDatabase e.db) :=
    ⟨e.db.idents, rfl, h.named⟩
  rcases hCommits.changes.invariant_of_log
      DatomOf.SparesNames (Ledger.NamedFrom e.db.idents)
      (fun _ _ _ hChange hLog hEntry hSoFar =>
        hChange.named hLog hEntry h.single hSoFar)
      hSpares hStart with
    ⟨table, hTable, hNamed⟩
  rcases afterLog_eq_ok.mp hCommits.after with
    ⟨ident, table', newAttr, newPart, installs, hIdent,
      hTable', _, _, _, hAfter⟩
  have hIdentId : ident.eid = identAttr :=
    h.eid_of_installed (by decide +kernel) hIdent
  refine ⟨?_, hSingle⟩
  rw [hIdentId, hTable] at hTable'
  rw [hAfter, ← Except.ok.inj hTable']
  exact hNamed

/- They can have only one where their attribute is left alone. -/
theorem after
    {e : Engine}
    {l : Ledger}
    {r : TxResult}
    {V : Value → Prop}
    (h : e.db.WellNamed)
    (hCommits : e.Commits V l r)
    (hSpares : ∀ d ∈ r.facts, d.SparesIdents) :
    r.after.WellNamed := by
  refine
    h.after_of_single hCommits (fun d hd => (hSpares d hd).names)
      ?_
  rcases h.single with ⟨schema, hSchema, hMany⟩
  refine ⟨schema, ?_, hMany⟩
  rw [schemaOf?_afterLog hCommits.after]
  · exact hSchema
  intro attr hAttr d hd hAdded hInstalls
  have hAttrId : attr.eid = installAttr :=
    h.eid_of_installed (by decide +kernel) hAttr
  rw [← hCommits.facts] at hd
  exact
    (hSpares d hd).install (hInstalls.trans hAttrId) hAdded

/- Entries of the table for one entity are for one ident. -/
theorem eq_of_entity_eq
    (h : db.WellNamed)
    {a b : Value × Int}
    (ha : a ∈ db.idents)
    (hb : b ∈ db.idents)
    (hSame : a.2 = b.2) : a.1 = b.1 := by
  rcases h.named.stored a ha with
    ⟨d, hd, hEntity, hAttr, hValue⟩
  rcases h.named.stored b hb with
    ⟨d', hd', hEntity', hAttr', hValue'⟩
  have hSymm :
      Std.Symm (fun d d' : Datom =>
        d.attr = identAttr → d'.attr = identAttr →
          d.entity ≠ d'.entity) :=
    ⟨fun _ _ hApart hRight hLeft hEq =>
      hApart hLeft hRight hEq.symm⟩
  have hFact : d = d' := by
    by_contra hDiffer
    exact
      h.named.single.forall hd hd' hDiffer hAttr hAttr'
        (hEntity.trans (hSame.trans hEntity'.symm))
  rw [← hValue, ← hValue', hFact]

/- No two idents name one entity. -/
theorem pairwise_ne
    (h : db.WellNamed) :
    db.idents.Pairwise (fun a b => a.2 ≠ b.2) := by
  refine h.named.keys.distinct.imp_of_mem ?_
  intro a b ha hb hDiffer hSame
  exact hDiffer (h.eq_of_entity_eq ha hb hSame)

/- What an ident names has that ident. -/
theorem identOf_resolve
    (h : db.WellNamed)
    (hResolve : db.resolve (.str s) = .ok (some eid)) :
    db.identOf (.int eid) = some (.str s) := by
  have hMem : (Value.str s, eid) ∈ db.idents :=
    h.named.keys.find?_eq_some_iff.mp (Except.ok.inj hResolve)
  rcases hFound :
      db.idents.find?
        (fun entry => (Value.int eid).isInt entry.2) with
    _ | b
  · have hNot := List.find?_eq_none.mp hFound _ hMem
    simp [Value.isInt] at hNot
  · have hb := List.mem_of_find?_eq_some hFound
    have hTest : (Value.int eid).isInt b.2 = true := by
      simpa using List.find?_some hFound
    have hSame : b.2 = eid := by
      simpa only [Value.isInt, beq_iff_eq] using hTest
    rw [identOf, hFound, Option.map_some,
      h.eq_of_entity_eq hb hMem hSame]

/- The ident of an entity names it. -/
theorem resolve_identOf
    (h : db.WellNamed)
    {v i : Value}
    (hIdent : db.identOf v = some i) :
    ∃ n : Int, v.isInt n = true
      ∧ db.resolve i = .ok (some n) := by
  unfold identOf at hIdent
  rcases Option.map_eq_some_iff.mp hIdent with ⟨b, hFound, rfl⟩
  have hb := List.mem_of_find?_eq_some hFound
  have hTest : v.isInt b.2 = true := by
    simpa using List.find?_some hFound
  refine ⟨b.2, hTest, ?_⟩
  rcases h.named.keys.texts b hb with ⟨s, hText⟩
  rw [hText]
  refine
    congrArg Except.ok
      (h.named.keys.find?_eq_some_iff.mpr ?_)
  rw [← hText]
  exact hb

end WellNamed

end Database

------------------------------------------------------------
-- Runs
------------------------------------------------------------

namespace Engine

/-
  In every database that a run leads to that spares the idents
  of the first one, each ident is stored as a fact about the
  entity that it names, no two idents name one entity, and so
  looking up the entity of an ident and the ident of an entity
  undo each other.
-/
theorem RunOf.idents_inverse
    {clock : Nat → Int}
    {e : Engine}
    (h :
      RunOf (fun r => ∀ d ∈ r.facts, d.SparesIdents)
        (start clock) e) :
    (∃ attr, e.db.installed (.str "db/ident") = .ok attr
        ∧ attr.eid = identAttr)
      ∧ (∀ b ∈ e.db.idents, ∃ d ∈ e.db.datoms,
          d.entity = b.2 ∧ d.attr = identAttr ∧ d.value = b.1)
      ∧ e.db.idents.Pairwise (fun a b => a.2 ≠ b.2)
      ∧ (∀ (s : String) (eid : Int),
          e.db.resolve (.str s) = .ok (some eid) →
            e.db.identOf (.int eid) = some (.str s))
      ∧ ∀ v i : Value, e.db.identOf v = some i →
          ∃ n : Int, v.isInt n = true
            ∧ e.db.resolve i = .ok (some n) := by
  have hNamed : e.db.WellNamed :=
    h.invariant Database.WellNamed
      (fun _ _ _ hCommits hSpares hSoFar =>
        hSoFar.after hCommits hSpares)
      (Database.wellNamed_database _)
  exact
    ⟨hNamed.exists_installed_ident, hNamed.named.stored,
      hNamed.pairwise_ne, fun _ _ => hNamed.identOf_resolve,
      fun _ _ => hNamed.resolve_identOf⟩

/- By this, an entry can be seen to spare the first idents. -/
def seenToSpare (d : Datom) : Bool :=
  (d.attr != identAttr
      || ((!d.added || d.value matches .str _)
        && idents.all (fun b =>
          d.entity != b.2
            && (!d.added || !b.1.same d.value))))
    && (d.attr != installAttr
      || (!d.added || !d.value.isInt identAttr))

/- Entries that are seen to spare them do so. -/
theorem sparesIdents_of_seen
    {d : Datom}
    (h : seenToSpare d = true) : d.SparesIdents := by
  simp only [seenToSpare, Bool.and_eq_true, Bool.or_eq_true,
    bne_iff_ne, ne_eq, Bool.not_eq_true', List.all_eq_true]
    at h
  rcases h with ⟨hIdent, hInstall⟩
  refine ⟨?_, ?_, ?_, ?_⟩
  · intro hAttr hAdded
    rcases hIdent with hOther | ⟨hNot | hText, _⟩
    · exact absurd hAttr hOther
    · rw [hAdded] at hNot
      cases hNot
    · exact Value.exists_text hText
  · intro hAttr b hb
    rcases hIdent with hOther | ⟨_, hAll⟩
    · exact absurd hAttr hOther
    · exact (hAll b hb).1
  · intro hAttr hAdded b hb hSame
    rcases hIdent with hOther | ⟨_, hAll⟩
    · exact absurd hAttr hOther
    · rcases (hAll b hb).2 with hNot | hDiffer
      · rw [hAdded] at hNot
        cases hNot
      · rw [hSame, Value.same_refl] at hDiffer
        cases hDiffer
  · intro hAttr hAdded
    rcases hInstall with hOther | hNot | hElse
    · exact absurd hAttr hOther
    · rw [hAdded] at hNot
      cases hNot
    · exact hElse

/- So does a transaction with such entries. -/
theorem nextOf_sparesIdents
    {e : Engine}
    {data : Value}
    (h :
      (e.transact data).1.toOption.all
        (fun r => r.facts.all seenToSpare) = true) :
    NextOf (fun r => ∀ d ∈ r.facts, d.SparesIdents) e
      (e.transact data).2 := by
  refine nextOf_of_all ?_ h
  intro _ r _ hSeen d hd
  exact sparesIdents_of_seen (List.all_eq_true.mp hSeen d hd)

/- Transaction data that gives two new entities idents. -/
def namingData : Value :=
  let name (n : Int) (s : String) : Value :=
    .list
      [ .str "db/add", .tempid "db.part/user" n
      , .str "db/ident", .str s ]
  .list [name (-1) "user/first", name (-2) "user/second"]

/- Transaction data by which they change their idents. -/
def swappingData : Value :=
  let rename (s t : String) : Value :=
    .list [.str "db/add", .str s, .str "db/ident", .str t]
  .list
    [ rename "user/first" "user/second"
    , rename "user/second" "user/first" ]

/- The engine after both transactions. -/
def swappedEngine : Engine :=
  (((start (fun _ => 0)).transact namingData).2.transact
    swappingData).2

/-
  After that, the first ident names the second entity, and
  that entity has the first ident.
-/
theorem idents_inverse_swappedEngine :
    RunOf (fun r => ∀ d ∈ r.facts, d.SparesIdents)
        (start (fun _ => 0)) swappedEngine
      ∧ swappedEngine.db.resolve (.str "user/first")
          = .ok (some (EntityId.inPartition 2 1))
      ∧ swappedEngine.db.identOf
            (.int (EntityId.inPartition 2 1))
          = some (.str "user/first")
      ∧ swappedEngine.db.idents.Pairwise
          (fun a b => a.2 ≠ b.2) := by
  have hFirst :
      NextOf (fun r => ∀ d ∈ r.facts, d.SparesIdents)
        (start (fun _ => 0))
        ((start (fun _ => 0)).transact namingData).2 :=
    nextOf_sparesIdents (by decide +kernel)
  have hRun :
      RunOf (fun r => ∀ d ∈ r.facts, d.SparesIdents)
        (start (fun _ => 0)) swappedEngine :=
    (Relation.ReflTransGen.single hFirst).tail
      (nextOf_sparesIdents (by decide +kernel))
  have hFound :
      Table.find? (.str "user/first") swappedEngine.db.idents
        = some (EntityId.inPartition 2 1) := by
    decide +kernel
  have hResolve :
      swappedEngine.db.resolve (.str "user/first")
        = .ok (some (EntityId.inPartition 2 1)) :=
    congrArg Except.ok hFound
  rcases RunOf.idents_inverse hRun with
    ⟨_, _, hApart, hInverse, _⟩
  exact ⟨hRun, hResolve, hInverse _ _ hResolve, hApart⟩

end Engine

end FactBase
