import Mathlib.Data.List.Induction
import FactBase.Attribute.Registry
import FactBase.Proofs.Outcome
import FactBase.Proofs.Value.TextOrder

/-
  This file describes the shelf by what was done with it.  Two
  settings choose a directory at each moment.  A definition is
  read back if it was the last of its ident to be kept in the
  directory that is chosen in the end, and that directory has
  not been cleared since.

  Key definitions include:
    * `ShelfEvent`
    * `Shelf.after`
    * `ShelfEvent.chosen`
    * `ShelfEvent.Overwrites`
    * `ShelfEvent.LastKept`

  Key theorems include:
    * `Shelf.directory_after`
    * `Shelf.entriesAt_apply`
    * `Shelf.mem_entriesAt_after_iff`
    * `Shelf.after_readBack`
-/

------------------------------------------------------------
-- Files of Definitions
------------------------------------------------------------

namespace FactBase

namespace Registry

variable {entries : List (String × Schema)}
variable {entry : String × Schema}
variable {name : String}
variable {s : Schema}

/- Each definition is under its own ident, and only once. -/
structure Filed (entries : List (String × Schema)) : Prop where
  named : ∀ entry ∈ entries, entry.1 = entry.2.ident
  distinct : (entries.map Prod.fst).Nodup

/- What has a new name is placed at the end. -/
theorem place_eq_append
    (hNew : name ∉ entries.map Prod.fst) :
    place name s entries = entries ++ [(name, s)] := by
  induction entries with
  | nil => rfl
  | cons e rest ih =>
      rcases e with ⟨n, t⟩
      simp only [List.map_cons, List.mem_cons, not_or] at hNew
      simp [place, Ne.symm hNew.1, ih hNew.2]

/- What is placed replaces what was under its name. -/
theorem mem_place_iff
    (hDistinct : (entries.map Prod.fst).Nodup) :
    entry ∈ place name s entries ↔
      entry = (name, s)
        ∨ (entry ∈ entries ∧ entry.1 ≠ name) := by
  induction entries with
  | nil => simp [place]
  | cons e rest ih =>
      rcases e with ⟨n, t⟩
      rw [List.map_cons, List.nodup_cons] at hDistinct
      rw [place]
      by_cases hName : n = name
      · subst hName
        have hApart : entry ∈ rest → entry.1 ≠ n :=
          fun hMem hEq =>
            hDistinct.1 (List.mem_map.mpr ⟨entry, hMem, hEq⟩)
        simp only [beq_self_eq_true, if_true, List.mem_cons]
        constructor
        · rintro (hEq | hMem)
          · exact .inl hEq
          · exact .inr ⟨.inr hMem, hApart hMem⟩
        · rintro (hEq | ⟨rfl | hMem, hNe⟩)
          · exact .inl hEq
          · exact absurd rfl hNe
          · exact .inr hMem
      · simp only [beq_iff_eq, hName, if_false, List.mem_cons,
          ih hDistinct.2]
        constructor
        · rintro (rfl | hEq | ⟨hMem, hNe⟩)
          · exact .inr ⟨.inl rfl, hName⟩
          · exact .inl hEq
          · exact .inr ⟨.inr hMem, hNe⟩
        · rintro (hEq | ⟨rfl | hMem, hNe⟩)
          · exact .inr (.inl hEq)
          · exact .inl rfl
          · exact .inr (.inr ⟨hMem, hNe⟩)

/- The names are those there were, and the one placed. -/
theorem names_place :
    (place name s entries).map Prod.fst
      = if name ∈ entries.map Prod.fst then
          entries.map Prod.fst
        else entries.map Prod.fst ++ [name] := by
  induction entries with
  | nil => rfl
  | cons e rest ih =>
      rcases e with ⟨n, t⟩
      by_cases hName : n = name
      · simp [place, hName]
      · by_cases hMem : name ∈ rest.map Prod.fst <;>
          simp_all [place, Ne.symm hName]

/- A definition is filed under its own ident. -/
theorem Filed.place
    (h : Filed entries)
    (s : Schema) : Filed (place s.ident s entries) where
  named := by
    intro entry hEntry
    rcases (mem_place_iff h.distinct).mp hEntry with
      rfl | ⟨hMem, -⟩
    · rfl
    · exact h.named entry hMem
  distinct := by
    rw [names_place]
    split
    · exact h.distinct
    · rename_i hNew
      exact List.nodup_append.mpr
        ⟨h.distinct, List.nodup_singleton _,
          fun a ha b hb hab =>
            hNew ((List.mem_singleton.mp hb) ▸ hab ▸ ha)⟩

/-
  Definitions of distinct idents are all in their registry, in
  the order in which they come.
-/
theorem entries_ofSchemas
    {schemas : List Schema}
    (hDistinct : (schemas.map SchemaOf.ident).Nodup) :
    (ofSchemas schemas).entries
      = schemas.map (fun s => (s.ident, s)) := by
  -- What is registered last comes last, behind all others.
  induction schemas using List.reverseRecOn with
  | nil => rfl
  | append_singleton front s ih =>
      rw [List.map_append, List.nodup_append] at hDistinct
      rw [ofSchemas, List.foldl_append]
      change place s.ident s (ofSchemas front).entries = _
      rw [ih hDistinct.1, place_eq_append, List.map_append]
      · rfl
      · rw [List.map_map]
        intro hMem
        exact hDistinct.2.2 s.ident hMem s.ident (by simp) rfl

end Registry

------------------------------------------------------------
-- Events
------------------------------------------------------------

/-
  What happens to a shelf: one of its two settings is changed
  or taken away, a definition is kept, or a directory cleared.
-/
inductive ShelfEvent where
  | attributeSetting (setting : Option String)
  | generalSetting (setting : Option String)
  | keep (schema : Schema)
  | clear

namespace ShelfEvent

/- What an event makes of a shelf. -/
def apply : ShelfEvent → Shelf → Shelf
  | .attributeSetting setting, shelf =>
      { shelf with attributeSetting := setting }
  | .generalSetting setting, shelf =>
      { shelf with generalSetting := setting }
  | .keep schema, shelf => shelf.keep schema
  | .clear, shelf => shelf.clear

/- What an event sets the first setting to. -/
def attributeSet? : ShelfEvent → Option (Option String)
  | .attributeSetting setting => some setting
  | _ => none

/- What an event sets the second setting to. -/
def generalSet? : ShelfEvent → Option (Option String)
  | .generalSetting setting => some setting
  | _ => none

/- The setting that the events left.  First there is none. -/
def settingLeft
    (set? : ShelfEvent → Option (Option String))
    (events : List ShelfEvent) : Option String :=
  (events.filterMap set?).getLast?.join

/- The directory that is chosen after the events. -/
def chosen
    (places : Places)
    (events : List ShelfEvent) : String :=
  places.choose (settingLeft attributeSet? events)
    (settingLeft generalSet? events)

/-
  A definition does not survive that its directory is cleared,
  nor that one of the same ident is kept there.
-/
def Overwrites (s : Schema) : ShelfEvent → Prop
  | .keep t => t.ident = s.ident
  | .clear => True
  | _ => False

/-
  At some moment a definition was kept in a directory, and
  nothing that happened there later has overwritten it.
-/
def LastKept
    (places : Places)
    (events : List ShelfEvent)
    (directory : String)
    (s : Schema) : Prop :=
  ∃ before later : List ShelfEvent,
    events = before ++ .keep s :: later
      ∧ chosen places before = directory
      ∧ ∀ (between : List ShelfEvent) (event : ShelfEvent),
          between ++ [event] <+: later →
          chosen places (before ++ .keep s :: between)
            = directory →
          ¬event.Overwrites s

variable {directory : String}
variable {event : ShelfEvent}
variable {events : List ShelfEvent}
variable {places : Places}
variable {s : Schema}

/- The last event sets a setting, or it stays as it was. -/
theorem settingLeft_append
    (set? : ShelfEvent → Option (Option String))
    (events : List ShelfEvent)
    (event : ShelfEvent) :
    settingLeft set? (events ++ [event])
      = (set? event).getD (settingLeft set? events) := by
  rw [settingLeft, List.filterMap_append]
  cases h : set? event with
  | none => simp [h, settingLeft]
  | some setting => simp [h]

/- What was last kept, with one event more. -/
theorem lastKept_append_iff :
    LastKept places (events ++ [event]) directory s ↔
      (event = .keep s ∧ chosen places events = directory)
        ∨ (LastKept places events directory s
          ∧ (chosen places events = directory →
            ¬event.Overwrites s)) := by
  constructor
  · rintro ⟨before, later, hEvents, hBefore, hLater⟩
    rcases List.eq_nil_or_concat later with
      rfl | ⟨later, last, rfl⟩
    · rcases List.append_inj' hEvents rfl with ⟨rfl, hLast⟩
      exact .inl ⟨List.singleton_inj.mp hLast, hBefore⟩
    · rw [List.concat_eq_append, ← List.cons_append,
        ← List.append_assoc] at hEvents
      rcases List.append_inj' hEvents rfl with ⟨rfl, hLast⟩
      rcases List.singleton_inj.mp hLast
      refine .inr ⟨⟨before, later, rfl, hBefore, ?_⟩, ?_⟩
      · intro between event hBetween
        exact hLater between event
          (hBetween.trans (by simp))
      · exact hLater later event (by simp)
  · rintro (⟨rfl, hChosen⟩ | ⟨hKept, hLast⟩)
    · refine ⟨events, [], rfl, hChosen, ?_⟩
      intro between event hBetween
      simp at hBetween
    · rcases hKept with
        ⟨before, later, rfl, hBefore, hLater⟩
      refine
        ⟨before, later ++ [event], by simp, hBefore, ?_⟩
      intro between next hBetween hChosen
      rcases List.prefix_concat_iff.mp hBetween with
        hWhole | hInner
      · rcases List.append_inj' hWhole rfl with ⟨rfl, hNext⟩
        rcases List.singleton_inj.mp hNext
        exact hLast hChosen
      · exact hLater between next hInner hChosen

/- What was last kept was kept. -/
theorem LastKept.mem
    (h : LastKept places events directory s) :
    .keep s ∈ events := by
  rcases h with ⟨before, later, rfl, -⟩
  simp

end ShelfEvent

------------------------------------------------------------
-- Shelves after Events
------------------------------------------------------------

namespace Shelf

open Registry ShelfEvent

variable {events : List ShelfEvent}
variable {places : Places}
variable {s : Schema}

/- What all events, one after the other, make of a new shelf. -/
def after
    (places : Places)
    (events : List ShelfEvent) : Shelf :=
  events.foldl (fun shelf event => event.apply shelf)
    (new places)

/- The last event is applied to what the others made. -/
theorem after_append
    (places : Places)
    (events : List ShelfEvent)
    (event : ShelfEvent) :
    after places (events ++ [event])
      = event.apply (after places events) := by
  rw [after, List.foldl_append]
  rfl

/- The settings of a shelf are those that the events left. -/
theorem settings_after
    (places : Places)
    (events : List ShelfEvent) :
    (after places events).places = places
      ∧ (after places events).attributeSetting
        = settingLeft attributeSet? events
      ∧ (after places events).generalSetting
        = settingLeft generalSet? events := by
  induction events using List.reverseRecOn with
  | nil => exact ⟨rfl, rfl, rfl⟩
  | append_singleton events event ih =>
      rw [after_append, settingLeft_append, settingLeft_append]
      cases event with
      | attributeSetting setting => exact ⟨ih.1, rfl, ih.2.2⟩
      | generalSetting setting => exact ⟨ih.1, ih.2.1, rfl⟩
      | keep schema => exact ih
      | clear => exact ih

/- The settings decide which directory is the chosen one. -/
theorem directory_after
    (places : Places)
    (events : List ShelfEvent) :
    (after places events).directory = chosen places events := by
  rcases settings_after places events with
    ⟨hPlaces, hAttribute, hGeneral⟩
  rw [directory, hPlaces, hAttribute, hGeneral, chosen]

/- Only what the chosen directory keeps is replaced. -/
theorem entriesAt_withEntries
    (shelf : Shelf)
    (kept : List (String × Schema))
    (directory : String) :
    (shelf.withEntries kept).entriesAt directory
      = if shelf.directory = directory then kept
        else shelf.entriesAt directory := by
  have hOther (hNe : ¬shelf.directory = directory)
      (directories : List (String × List (String × Schema))) :
      (directories.filter
          (fun d => d.1 != shelf.directory)).lookup directory
        = directories.lookup directory := by
    induction directories with
    | nil => rfl
    | cons d rest ih =>
        rcases d with ⟨name, entries⟩
        by_cases hName : name = shelf.directory
        · have hAway : (directory == name) = false := by
            simp [hName, Ne.symm hNe]
          rw [List.filter_cons_of_neg (by simp [hName]), ih,
            List.lookup_cons, hAway]
        · rw [List.filter_cons_of_pos (by simp [hName]),
            List.lookup_cons, List.lookup_cons, ih]
  rw [entriesAt, withEntries, List.lookup_cons]
  split
  · rename_i hEq
    rw [if_pos (beq_iff_eq.mp hEq).symm]
    rfl
  · rename_i hNe
    rw [if_neg (fun h => by simp [h] at hNe), hOther]
    · rfl
    · exact fun h => by simp [h] at hNe

/-
  Whatever is in a directory is in its own file there: it is
  the last of its ident that was kept.
-/
theorem mem_entriesAt_after_iff
    (places : Places)
    (events : List ShelfEvent)
    (directory : String) :
    Filed ((after places events).entriesAt directory)
      ∧ ∀ s,
        (s.ident, s) ∈ (after places events).entriesAt directory
          ↔ LastKept places events directory s := by
  induction events using List.reverseRecOn with
  | nil =>
      refine ⟨⟨by simp [after, new, entriesAt],
        by simp [after, new, entriesAt]⟩, ?_⟩
      intro s
      constructor
      · intro hMem
        simp [after, new, entriesAt] at hMem
      · intro hKept
        exact absurd hKept.mem List.not_mem_nil
  | append_singleton events event ih =>
      rcases ih with ⟨hFiled, hMem⟩
      have hDirectory := directory_after places events
      rw [after_append]
      cases event with
      | attributeSetting setting =>
          refine ⟨hFiled, fun s => ?_⟩
          rw [lastKept_append_iff, ← hMem]
          simp [apply, entriesAt, Overwrites]
      | generalSetting setting =>
          refine ⟨hFiled, fun s => ?_⟩
          rw [lastKept_append_iff, ← hMem]
          simp [apply, entriesAt, Overwrites]
      | keep t =>
          simp only [apply, keep, entriesAt_withEntries,
            hDirectory, lastKept_append_iff, ← hMem, entries]
          split
          · rename_i hChosen
            subst hChosen
            refine ⟨hFiled.place t, fun s => ?_⟩
            rw [mem_place_iff hFiled.distinct]
            have hSame :
                (s.ident, s) = (t.ident, t)
                  ↔ ShelfEvent.keep t = .keep s := by
              simp only [Prod.ext_iff, ShelfEvent.keep.injEq]
              exact
                ⟨fun h => h.2.symm, fun h => h ▸ ⟨rfl, rfl⟩⟩
            simp [Overwrites, hSame, eq_comm]
          · rename_i hNe
            exact ⟨hFiled, fun s => by simp [hNe]⟩
      | clear =>
          simp only [apply, clear, entriesAt_withEntries,
            hDirectory, lastKept_append_iff, ← hMem]
          split
          · rename_i hChosen
            refine ⟨⟨by simp, by simp⟩, fun s => ?_⟩
            simp [hChosen, Overwrites]
          · rename_i hNe
            exact ⟨hFiled, fun s => by simp [hNe]⟩

------------------------------------------------------------
-- What Is Read Back
------------------------------------------------------------

/- The definitions of a file have as many idents. -/
theorem nodup_idents
    {entries : List (String × Schema)}
    (h : Filed entries) :
    ((entries.map Prod.snd).map SchemaOf.ident).Nodup := by
  have hNames :
      entries.map Prod.fst
        = entries.map (fun e => e.2.ident) :=
    List.map_congr_left h.named
  rw [List.map_map]
  exact hNames ▸ h.distinct

/- Definitions of distinct idents are sorted strictly. -/
theorem sortedBy_ident_strict
    {schemas : List Schema}
    (hDistinct : (schemas.map SchemaOf.ident).Nodup) :
    (Value.sortedBy SchemaOf.ident schemas).Pairwise
      (fun a b =>
        Value.compareTexts a.ident b.ident = .lt) := by
  have hSorted : (Value.sortedBy SchemaOf.ident schemas).Pairwise
      (fun a b => a.ident ≠ b.ident) :=
    List.pairwise_map.mp
      (((Value.sortedBy_perm _ schemas).map _).nodup_iff.mpr
        hDistinct)
  refine
    (Value.textsAscend_sortedBy SchemaOf.ident schemas).imp₂ ?_
      hSorted
  intro a b hLe hNe
  cases hOrder : Value.compareTexts a.ident b.ident with
  | lt => rfl
  | eq => exact absurd (Std.LawfulEqCmp.eq_of_compare hOrder) hNe
  | gt => simp [hOrder] at hLe

/-
  Whatever happened to a shelf, what is read back from it are
  the definitions that were last kept in the directory that is
  chosen now, each ident once and in their order, and these
  are the registry of the shelf.
-/
theorem after_readBack
    (places : Places)
    (events : List ShelfEvent)
    (hValid :
      ∀ s, .keep s ∈ events →
        Keyword.isKeyword s.ident = true)
    (hSwitches : ∀ s, .keep s ∈ events → s.normalized = s) :
    ∃ kept : List Schema,
      (after places events).readBack = .ok kept
        ∧ kept.Pairwise (fun a b =>
          Value.compareTexts a.ident b.ident = .lt)
        ∧ (∀ s, s ∈ kept ↔
          LastKept places events (chosen places events) s)
        ∧ (after places events).registry
          = Registry.ofSchemas kept
        ∧ (after places events).registry.entries
          = kept.map (fun s => (s.ident, s)) := by
  rcases mem_entriesAt_after_iff places events
      (chosen places events) with ⟨hFiled, hMem⟩
  rw [← directory_after] at hFiled hMem
  change Filed (after places events).entries at hFiled
  -- Only definitions that were kept can be in a directory.
  have hKept :
      ∀ e ∈ (after places events).entries,
        .keep e.2 ∈ events := by
    intro e he
    have hOwn : (e.2.ident, e.2) = e :=
      Prod.ext (hFiled.named e he).symm rfl
    exact ((hMem e.2).mp (hOwn ▸ he)).mem
  have hNormalized :
      (after places events).entries.map (fun e => e.2.normalized)
        = (after places events).entries.map Prod.snd :=
    List.map_congr_left
      (fun e he => hSwitches e.2 (hKept e he))
  have hRead :
      (after places events).entries.mapM
          (fun e => Schema.ofRecord e.2.toRecord)
        = .ok ((after places events).entries.map
          (fun e => e.2.normalized)) :=
    Outcome.mapM_eq_ok_map
      (fun e he =>
        Schema.ofRecord_toRecord e.2 (hValid e.2 (hKept e he)))
  have hStrict := sortedBy_ident_strict (nodup_idents hFiled)
  refine
    ⟨(after places events).load, ?_, ?_, ?_, rfl, ?_⟩
  · rw [readBack, hRead]
    rfl
  · rw [load, hNormalized]
    exact hStrict
  · intro s
    rw [load, hNormalized, (Value.sortedBy_perm _ _).mem_iff,
      ← directory_after, ← hMem, List.mem_map]
    constructor
    · rintro ⟨e, he, rfl⟩
      exact hFiled.named e he ▸ he
    · exact fun h => ⟨_, h, rfl⟩
  · rw [registry, load, hNormalized]
    refine entries_ofSchemas ?_
    exact
      ((Value.sortedBy_perm _ _).map _).nodup_iff.mpr
        (nodup_idents hFiled)

/- A definition of a single text with some documentation. -/
def textSchema (ident doc : String) : Schema where
  ident := ident
  valueType := .string
  cardinality := .one
  unique := none
  index := .bool true
  fulltext := .bool false
  component := .bool false
  noHistory := .bool false
  doc := some doc

/-
  Two directories are used in turn.  An empty setting leaves
  the choice to the other one, and only the second directory
  is cleared.
-/
def turns : List ShelfEvent :=
  [ .attributeSetting (some "/a")
  , .keep (textSchema "user/name" "old")
  , .keep (textSchema "user/email" "first")
  , .attributeSetting (some "")
  , .generalSetting (some "/b")
  , .keep (textSchema "user/email" "elsewhere")
  , .clear
  , .attributeSetting (some "/a")
  , .keep (textSchema "user/name" "new") ]

/- Names are keywords and switches truth values throughout. -/
theorem valid_turns :
    ∀ s, .keep s ∈ turns →
      Keyword.isKeyword s.ident = true ∧ s.normalized = s := by
  intro s hs
  simp only [turns, List.mem_cons, ShelfEvent.keep.injEq,
    reduceCtorEq, false_or, or_false, List.not_mem_nil] at hs
  rcases hs with rfl | rfl | rfl | rfl <;>
    exact ⟨by decide +kernel, rfl⟩

/-
  In the end the first directory holds what was kept in it,
  and of the two that have one ident the later.
-/
theorem readBack_turns :
    ∃ kept : List Schema,
      (after { named := id, fallback := "" } turns).readBack
          = .ok kept
        ∧ ∀ s, s ∈ kept ↔
          s = textSchema "user/name" "new"
            ∨ s = textSchema "user/email" "first" := by
  rcases after_readBack { named := id, fallback := "" } turns
      (fun s hs => (valid_turns s hs).1)
      (fun s hs => (valid_turns s hs).2) with
    ⟨kept, hRead, -, hMem, -⟩
  have hEntries :
      (after { named := id, fallback := "" } turns).entriesAt
          (chosen { named := id, fallback := "" } turns)
        = [ ("user/name", textSchema "user/name" "new")
          , ("user/email", textSchema "user/email" "first") ] :=
    rfl
  refine ⟨kept, hRead, fun s => ?_⟩
  rw [hMem, ← (mem_entriesAt_after_iff _ _ _).2, hEntries]
  simp only [List.mem_cons, Prod.mk.injEq, List.not_mem_nil,
    or_false]
  constructor
  · rintro (⟨-, h⟩ | ⟨-, h⟩)
    · exact .inl h
    · exact .inr h
  · rintro (rfl | rfl)
    · exact .inl ⟨rfl, rfl⟩
    · exact .inr ⟨rfl, rfl⟩

end Shelf

end FactBase
