import FactBase.Answer.Pull
import FactBase.Proofs.Fact.Gathering
import FactBase.Proofs.Fact.Idents
import FactBase.Proofs.Fact.Invariant
import FactBase.Proofs.Fact.Scanning
import FactBase.Proofs.Fact.Typing

/-
  This file says which entities can be shown, and which can
  be pulled as a whole.  Nothing is said of a value when it is
  stored, so a value may be no fit for the set in which an
  entity shows it; and where two attributes have one ident,
  many values may have to go to what a single one has left.

  Key definitions include:
    * `Described`
    * `lastAlone?`
    * `Collects`
    * `Database.CanShow`
    * `Database.CanPull`

  Key theorems include:
    * `Collects.exists_foldlM_iff`
    * `Database.exists_entity_iff`
    * `Database.exists_pull_iff`
    * `Engine.Run.reads`
-/

------------------------------------------------------------
-- Gatherings that Succeed
------------------------------------------------------------

namespace FactBase

open Sorting

/- What is done last may as well be left out if it succeeds. -/
theorem Gathering.exists_run_bind_iff
    {α β : Type}
    {m : Gathering α}
    {f : α → Gathering β}
    (h : ∀ a g, ∃ b, ((f a).run.run g).1 = .ok b)
    {g : Growths} :
    (∃ b, ((m >>= f).run.run g).1 = .ok b)
      ↔ ∃ a, (m.run.run g).1 = .ok a := by
  rw [run_bind]
  rcases m.run.run g with ⟨fault | a, g'⟩
  · simp
  · exact iff_of_true (h a g') ⟨a, rfl⟩

------------------------------------------------------------
-- Facts with Definitions
------------------------------------------------------------

/- A fact, and the definition of its attribute in front. -/
abbrev Described := Schema × Datom

/- The facts about an entity whose attributes are installed. -/
def Database.described
    (db : Database)
    (eid : Value) : List Described :=
  (db.factsOf eid).filterMap (fun d =>
    (db.schemaOf? d.attr).map (fun s => (s, d)))

/-
  The last fact under an ident whose attribute can have only
  one value.
-/
def lastAlone?
    (ident : String)
    (facts : List Described) : Option Described :=
  facts.reverse.find? (fun p =>
    !p.1.many && p.1.ident == ident)

/- One more fact is the last one, or it changes nothing. -/
theorem lastAlone?_append_singleton
    (ident : String)
    (facts : List Described)
    (p : Described) :
    lastAlone? ident (facts ++ [p])
      = if !p.1.many && p.1.ident == ident then some p
        else lastAlone? ident facts := by
  unfold lastAlone?
  rw [List.reverse_append, List.reverse_singleton,
    List.singleton_append, List.find?_cons]
  cases !p.1.many && p.1.ident == ident <;> rfl

/- A property of each place of a list, from its first one. -/
theorem forall_split_cons_iff
    {α : Type}
    {P : List α → α → Prop}
    {x : α}
    {xs : List α} :
    (∀ before y after, x :: xs = before ++ y :: after →
        P before y)
      ↔ P [] x
        ∧ ∀ before y after, xs = before ++ y :: after →
            P (x :: before) y := by
  constructor
  · intro h
    refine ⟨h [] x xs rfl, ?_⟩
    rintro before y after rfl
    exact h (x :: before) y after rfl
  · rintro ⟨hHead, hTail⟩ before y after hSplit
    cases before with
    | nil =>
        rcases List.cons_eq_cons.mp hSplit with ⟨rfl, -⟩
        exact hHead
    | cons z before =>
        rcases List.cons_eq_cons.mp hSplit with ⟨rfl, hRest⟩
        exact hTail before y after hRest

------------------------------------------------------------
-- Collecting Values under Idents
------------------------------------------------------------

/-
  A way to enter facts in a table under the idents of their
  attributes.  A lone value takes the place of what is there.
  One of many goes to what is there, provided that it fits and
  that there is room, which only lone values change.
-/
structure Collects
    (step :
      List (Value × Shown) → Described →
        Gathering (List (Value × Shown)))
    (room : List (Value × Shown) → String → Bool)
    (leaves fits : Described → Bool) : Prop where
  alone :
    ∀ p, p.1.many = false → ∀ entries g,
      ∃ next, (step entries p).run.run g = (.ok next, g)
        ∧ ∀ k, room next k =
            if p.1.ident == k then leaves p else room entries k
  takes :
    ∀ p, p.1.many = true → fits p = true → ∀ entries,
      room entries p.1.ident = true → ∀ g,
        ∃ next g', (step entries p).run.run g = (.ok next, g')
          ∧ ∀ k, room next k = room entries k
  refuses :
    ∀ p, p.1.many = true → ∀ entries,
      (fits p && room entries p.1.ident) = false → ∀ g,
        ∃ fault g',
          (step entries p).run.run g = (.error fault, g')

section Collects

variable
  {step :
    List (Value × Shown) → Described →
      Gathering (List (Value × Shown))}
variable {room : List (Value × Shown) → String → Bool}
variable {leaves fits : Described → Bool}

/- The induction keeps the facts that were entered before. -/
private theorem Collects.exists_foldlM_after_iff
    (h : Collects step room leaves fits)
    (start : String → Bool)
    {before facts : List Described}
    {entries : List (Value × Shown)}
    (hRoom :
      ∀ k, room entries k =
        ((lastAlone? k before).map leaves).getD (start k))
    (g : Growths) :
    (∃ table,
        ((facts.foldlM step entries).run.run g).1 = .ok table)
      ↔ ∀ between p after, facts = between ++ p :: after →
          p.1.many = true →
            fits p = true
              ∧ ((lastAlone? p.1.ident (before ++ between)).map
                  leaves).getD (start p.1.ident) = true := by
  induction facts generalizing before entries g with
  | nil => exact iff_of_true ⟨entries, rfl⟩ (by simp)
  | cons p facts ih =>
      rw [List.foldlM_cons, Gathering.run_bind,
        forall_split_cons_iff, List.append_nil, ← hRoom]
      have hLater {next : List (Value × Shown)}
          (hNext :
            ∀ k, room next k =
              if !p.1.many && p.1.ident == k then leaves p
              else room entries k) :
          ∀ k, room next k =
            ((lastAlone? k (before ++ [p])).map leaves).getD
              (start k) := by
        intro k
        rw [hNext, lastAlone?_append_singleton, hRoom]
        split <;> rfl
      have hShift :
          ∀ between,
            before ++ [p] ++ between = before ++ p :: between :=
        fun between => List.append_assoc before [p] between
      cases hMany : p.1.many with
      | false =>
          rcases h.alone p hMany entries g with
            ⟨next, hRun, hNext⟩
          rw [hRun]
          simp only [ih (hLater (by simpa [hMany] using hNext)),
            hShift, Bool.false_eq_true, false_implies, true_and]
      | true =>
          by_cases hTakes :
              (fits p && room entries p.1.ident) = true
          · rw [Bool.and_eq_true] at hTakes
            rcases h.takes p hMany hTakes.1 entries hTakes.2 g
              with ⟨next, g', hRun, hNext⟩
            rw [hRun]
            simp only [ih (hLater (by simpa [hMany] using hNext)),
              hShift, hTakes, true_implies, and_self, true_and]
          · rw [Bool.not_eq_true] at hTakes
            rcases h.refuses p hMany entries hTakes g with
              ⟨fault, g', hRun⟩
            rw [hRun]
            refine iff_of_false (by simp) ?_
            rintro ⟨hBoth, -⟩
            rw [← Bool.and_eq_true, hTakes] at hBoth
            exact absurd (hBoth rfl) Bool.false_ne_true

/-
  Facts can be entered exactly if each of many values fits,
  and if there is room at the start or, after a lone value
  under the ident, in what the last of these has left.
-/
theorem Collects.exists_foldlM_iff
    (h : Collects step room leaves fits)
    (facts : List Described)
    (entries : List (Value × Shown))
    (g : Growths) :
    (∃ table,
        ((facts.foldlM step entries).run.run g).1 = .ok table)
      ↔ ∀ before p after, facts = before ++ p :: after →
          p.1.many = true →
            fits p = true
              ∧ ((lastAlone? p.1.ident before).map leaves).getD
                  (room entries p.1.ident) = true :=
  h.exists_foldlM_after_iff (room entries)
    (fun k =>
      show room entries k
        = ((lastAlone? k []).map leaves).getD (room entries k)
      from rfl) g

end Collects

/-
  Facts of installed attributes can be walked through with
  their definitions.
-/
theorem Database.foldlM_described
    {db : Database}
    {f : List (Value × Shown) → Datom →
      Gathering (List (Value × Shown))}
    {step : List (Value × Shown) → Described →
      Gathering (List (Value × Shown))}
    (hStep :
      ∀ entries d s, db.schemaOf? d.attr = some s →
        f entries d = step entries (s, d))
    (hInstalled :
      ∀ d ∈ db.datoms, (db.schemaOf? d.attr).isSome = true)
    (eid : Value)
    (entries : List (Value × Shown)) :
    (db.factsOf eid).foldlM f entries
      = (db.described eid).foldlM step entries := by
  unfold described
  have hFacts :
      ∀ d ∈ db.factsOf eid,
        (db.schemaOf? d.attr).isSome = true :=
    fun d hd => hInstalled d (List.mem_filter.mp hd).1
  generalize db.factsOf eid = facts at hFacts
  induction facts generalizing entries with
  | nil => rfl
  | cons d facts ih =>
      rw [List.forall_mem_cons] at hFacts
      rcases Option.isSome_iff_exists.mp hFacts.1 with
        ⟨s, hSchema⟩
      rw [List.foldlM_cons, List.filterMap_cons, hSchema,
        hStep entries d s hSchema]
      simp only [Option.map_some, List.foldlM_cons]
      exact bind_congr fun next => ih next hFacts.2

/- What stands under an ident, if anything, is of a sort. -/
def roomFor
    (sort : Shown → Bool)
    (entries : List (Value × Shown))
    (ident : String) : Bool :=
  (Table.find? (.str ident) entries).all sort

/- There is room in what is put there if it is of the sort. -/
theorem roomFor_put
    (sort : Shown → Bool)
    (ident k : String)
    (shown : Shown)
    (entries : List (Value × Shown)) :
    roomFor sort (Table.put (.str ident) shown entries) k
      = if ident == k then sort shown
        else roomFor sort entries k := by
  unfold roomFor
  rw [Table.find?_put_str, apply_ite (Option.all sort)]
  rfl

/- Where there was room, putting something there leaves some. -/
theorem roomFor_put_self
    {sort : Shown → Bool}
    {ident : String}
    {shown : Shown}
    {entries : List (Value × Shown)}
    (hRoom : roomFor sort entries ident = true)
    (hSort : sort shown = true)
    (k : String) :
    roomFor sort (Table.put (.str ident) shown entries) k
      = roomFor sort entries k := by
  rw [roomFor_put]
  split
  next hSame => rw [← beq_iff_eq.mp hSame, hRoom, hSort]
  next => rfl

------------------------------------------------------------
-- Entities
------------------------------------------------------------

/- The value is a set that can take members. -/
def Value.isSet : Value → Bool
  | .set _ => true
  | _ => false

/- What is shown is such a set. -/
def Shown.isSet : Shown → Bool
  | .one h => h.value.isSet
  | _ => false

namespace Database

variable {db : Database}

/- Show a fact of an entity with its definition. -/
def showDescribed
    (db : Database)
    (entries : List (Value × Shown))
    (p : Described) : Gathering (List (Value × Shown)) :=
  if p.1.many then
    addToSet p.1.ident (db.shown p.1 p.2) entries
  else
    return Table.put (.str p.1.ident)
      (.one (db.shown p.1 p.2)) entries

/- A value that can be a member goes to a set with room. -/
private theorem exists_addToSet
    {ident : String}
    {h : Held}
    {entries : List (Value × Shown)}
    (hKey : h.value.hashable = true)
    (hRoom : roomFor Shown.isSet entries ident = true)
    (g : Growths) :
    ∃ next g',
      (addToSet ident h entries).run.run g = (.ok next, g')
        ∧ ∀ k,
            roomFor Shown.isSet next k
              = roomFor Shown.isSet entries k := by
  have hPut := @roomFor_put_self Shown.isSet ident
  unfold addToSet
  unfold roomFor at hRoom
  rcases hFound : Table.find? (.str ident) entries with
    _ | shown
  · simp only [Option.getD_none, Shown.fresh, Held.fresh, hKey,
      if_true]
    exact ⟨_, g, rfl, hPut hRoom rfl⟩
  · rw [hFound, Option.all_some] at hRoom
    cases shown with
    | list _ => cases hRoom
    | map _ => cases hRoom
    | one held =>
        rcases held with ⟨v, origin⟩
        cases v with
        | set items =>
            simp only [Option.getD_some, hKey, if_true]
            cases origin with
            | none =>
                refine ⟨_, g, rfl, hPut ?_ rfl⟩
                rw [roomFor, hFound]
                rfl
            | some origin => exact ⟨entries, _, rfl, fun _ => rfl⟩
        | _ => cases hRoom

/- No other value does, and it goes to nothing else. -/
private theorem addToSet_refuses
    {ident : String}
    {h : Held}
    {entries : List (Value × Shown)}
    (hNot :
      (h.value.hashable && roomFor Shown.isSet entries ident)
        = false)
    (g : Growths) :
    ∃ fault g',
      (addToSet ident h entries).run.run g
        = (.error fault, g') := by
  unfold addToSet
  unfold roomFor at hNot
  rcases hFound : Table.find? (.str ident) entries with
    _ | shown
  · rw [hFound, Option.all_none, Bool.and_true] at hNot
    simp only [Option.getD_none, Shown.fresh, Held.fresh, hNot]
    exact ⟨_, g, rfl⟩
  · rw [hFound, Option.all_some] at hNot
    cases shown with
    | list _ => exact ⟨_, g, rfl⟩
    | map _ => exact ⟨_, g, rfl⟩
    | one held =>
        rcases held with ⟨v, origin⟩
        cases v with
        | set items =>
            rw [Shown.isSet, Value.isSet, Bool.and_true] at hNot
            simp only [Option.getD_some, hNot]
            exact ⟨_, g, rfl⟩
        | _ => exact ⟨_, g, rfl⟩

/- Values that are shown in sets are collected. -/
theorem collects_showDescribed (db : Database) :
    Collects db.showDescribed (roomFor Shown.isSet)
      (fun p => (db.shown p.1 p.2).value.isSet)
      (fun p => (db.shown p.1 p.2).value.hashable) where
  alone := by
    intro p hOne entries g
    unfold showDescribed
    rw [if_neg (by simp [hOne])]
    exact ⟨_, rfl, fun k => roomFor_put _ _ k _ entries⟩
  takes := by
    intro p hMany hFits entries hRoom g
    unfold showDescribed
    rw [if_pos hMany]
    exact exists_addToSet hFits hRoom g
  refuses := by
    intro p hMany entries hNot g
    unfold showDescribed
    rw [if_pos hMany]
    exact addToSet_refuses hNot g

/-
  The values of an entity can all be shown: each one that
  goes to a set can be a member, and if a lone value was shown
  under the ident before it, the last such value is a set.
-/
def CanShow
    (db : Database)
    (eid : Int) : Prop :=
  ∀ before p after,
    db.described (.int eid) = before ++ p :: after →
      p.1.many = true →
        (db.shown p.1 p.2).value.hashable = true
          ∧ ((lastAlone? p.1.ident before).all fun q =>
              (db.shown q.1 q.2).value.isSet) = true

/- The map of an entity, by facts with their definitions. -/
theorem entity_eq_described
    (hInstalled :
      ∀ d ∈ db.datoms, (db.schemaOf? d.attr).isSome = true)
    (eid : Int) :
    db.entity (.int eid)
      = (db.described (.int eid)).foldlM db.showDescribed []
        >>= Gathering.lookThrough := by
  have hStep :
      ∀ entries d s, db.schemaOf? d.attr = some s →
        db.addFact entries d
          = db.showDescribed entries (s, d) := by
    intro entries d s hSchema
    unfold addFact showDescribed
    rw [hSchema]
  rw [← foldlM_described hStep hInstalled]
  rfl

/- An entity is shown exactly if all its values can be. -/
theorem exists_entity_iff
    (hInstalled :
      ∀ d ∈ db.datoms, (db.schemaOf? d.attr).isSome = true)
    (eid : Int)
    (g : Growths) :
    (∃ entries,
        ((db.entity (.int eid)).run.run g).1 = .ok entries)
      ↔ db.CanShow eid := by
  have hRoom (ident : String) (before : List Described) :
      ((lastAlone? ident before).map fun p =>
          (db.shown p.1 p.2).value.isSet).getD
          (roomFor Shown.isSet [] ident)
        = (lastAlone? ident before).all fun p =>
          (db.shown p.1 p.2).value.isSet := by
    cases lastAlone? ident before <;> rfl
  rw [entity_eq_described hInstalled,
    Gathering.exists_run_bind_iff (fun _ _ => ⟨_, rfl⟩),
    (collects_showDescribed db).exists_foldlM_iff]
  simp only [hRoom, CanShow]

end Database

------------------------------------------------------------
-- Pulling Everything
------------------------------------------------------------

/- The value is a list that can grow. -/
def Value.isListed : Value → Bool
  | .list _ => true
  | .cyclic _ _ => true
  | _ => false

/- What is shown is a list, or one that a fact holds. -/
def Shown.isListed : Shown → Bool
  | .list _ => true
  | .one ⟨v, some _⟩ => v.isListed
  | _ => false

namespace Database

variable {db : Database}

/- Pull a fact with its definition. -/
def pullDescribed
    (entries : List (Value × Shown))
    (p : Described) : Gathering (List (Value × Shown)) :=
  addPulled p.1 (pulledFlat p.1 p.2) entries

/- One of many values goes to a list with room. -/
private theorem exists_addPulled
    {schema : Schema}
    {entries : List (Value × Shown)}
    (hMany : schema.many = true)
    (hRoom : roomFor Shown.isListed entries schema.ident = true)
    (shown : Shown)
    (g : Growths) :
    ∃ next g',
      (addPulled schema shown entries).run.run g = (.ok next, g')
        ∧ ∀ k,
            roomFor Shown.isListed next k
              = roomFor Shown.isListed entries k := by
  have hPut (items : List Shown) :
      ∀ k,
        roomFor Shown.isListed
            (Table.put (.str schema.ident) (.list items) entries) k
          = roomFor Shown.isListed entries k :=
    roomFor_put_self hRoom rfl
  unfold addPulled
  simp only [hMany, if_true]
  unfold roomFor at hRoom
  rcases hFound : Table.find? (.str schema.ident) entries with
    _ | found
  · exact ⟨_, g, rfl, hPut _⟩
  · rw [hFound, Option.all_some] at hRoom
    cases found with
    | list items => exact ⟨_, g, rfl, hPut _⟩
    | map _ => cases hRoom
    | one held =>
        rcases held with ⟨v, _ | origin⟩
        · cases hRoom
        · cases v with
          | list _ => exact ⟨entries, _, rfl, fun _ => rfl⟩
          | cyclic _ _ => exact ⟨entries, _, rfl, fun _ => rfl⟩
          | _ => cases hRoom

/- It goes to nothing else. -/
private theorem addPulled_refuses
    {schema : Schema}
    {entries : List (Value × Shown)}
    (hMany : schema.many = true)
    (hNot : roomFor Shown.isListed entries schema.ident = false)
    (shown : Shown)
    (g : Growths) :
    ∃ fault g',
      (addPulled schema shown entries).run.run g
        = (.error fault, g') := by
  unfold addPulled
  simp only [hMany, if_true]
  unfold roomFor at hNot
  rcases hFound : Table.find? (.str schema.ident) entries with
    _ | found
  · rw [hFound] at hNot
    cases hNot
  · rw [hFound, Option.all_some] at hNot
    cases found with
    | list items => cases hNot
    | map _ => exact ⟨_, g, rfl⟩
    | one held =>
        rcases held with ⟨v, _ | origin⟩
        · cases v <;> exact ⟨_, g, rfl⟩
        · cases v with
          | list _ => cases hNot
          | cyclic _ _ => cases hNot
          | _ => exact ⟨_, g, rfl⟩

/- Values that are pulled into lists are collected. -/
theorem collects_pullDescribed :
    Collects pullDescribed (roomFor Shown.isListed)
      (fun p => (pulledFlat p.1 p.2).isListed)
      (fun _ => true) where
  alone := by
    intro p hOne entries g
    unfold pullDescribed addPulled
    simp only [hOne, Bool.false_eq_true, if_false]
    exact ⟨_, rfl, fun k => roomFor_put _ _ k _ entries⟩
  takes := by
    intro p hMany _ entries hRoom g
    exact exists_addPulled hMany hRoom _ g
  refuses := by
    intro p hMany entries hNot g
    rw [Bool.true_and] at hNot
    exact addPulled_refuses hMany hNot _ g

/-
  The values of an entity can all be pulled: if a lone value
  was pulled under the ident before one of many, the last such
  value is a list and no reference, and otherwise the ident is
  not that of the entry for the entity itself.
-/
def CanPull
    (db : Database)
    (eid : Int) : Prop :=
  ∀ before p after,
    db.described (.int eid) = before ++ p :: after →
      p.1.many = true →
        ((lastAlone? p.1.ident before).map fun q =>
            !q.1.isRef && q.2.value.isListed).getD
          (p.1.ident != "db/id") = true

/- A lone value leaves a list if it is one. -/
theorem isListed_pulledFlat (p : Described) :
    (pulledFlat p.1 p.2).isListed
      = (!p.1.isRef && p.2.value.isListed) := by
  unfold pulledFlat
  cases p.1.isRef <;> rfl

/- What is pulled as a whole, by facts with definitions. -/
theorem pull_eq_described
    (hInstalled :
      ∀ d ∈ db.datoms, (db.schemaOf? d.attr).isSome = true)
    (eid : Int) :
    db.pull (.list [.str "*"]) (.fresh (.int eid))
      = (db.described (.int eid)).foldlM pullDescribed
          (Table.put idEntry (.one (.fresh (.int eid))) [])
        >>= fun entries =>
          (pure (.map entries) : Gathering Shown) := by
  have hStep :
      ∀ entries d s, db.schemaOf? d.attr = some s →
        db.pullFact entries d = pullDescribed entries (s, d) := by
    intro entries d s hSchema
    unfold pullFact
    rw [hSchema]
    rfl
  rw [← foldlM_described hStep hInstalled, pull, pullItems,
    pullItem, pullNamed, if_pos (beq_self_eq_true "*")]
  simp only [pullItems, bind_pure]
  rfl

/-
  An entity is pulled as a whole exactly if all its values can
  be.
-/
theorem exists_pull_iff
    (hInstalled :
      ∀ d ∈ db.datoms, (db.schemaOf? d.attr).isSome = true)
    (eid : Int)
    (g : Growths) :
    (∃ shown,
        ((db.pull (.list [.str "*"])
          (.fresh (.int eid))).run.run g).1 = .ok shown)
      ↔ db.CanPull eid := by
  have hRoom (ident : String) :
      roomFor Shown.isListed
          (Table.put idEntry (.one (.fresh (.int eid))) []) ident
        = (ident != "db/id") := by
    rw [idEntry, roomFor_put]
    by_cases hSame : ident = "db/id"
    · subst hSame
      rfl
    · rw [if_neg (by simpa using Ne.symm hSame), bne,
        beq_false_of_ne hSame]
      rfl
  rw [pull_eq_described hInstalled,
    Gathering.exists_run_bind_iff (fun _ _ => ⟨_, rfl⟩),
    collects_pullDescribed.exists_foldlM_iff]
  simp only [isListed_pulledFlat, hRoom, true_and, CanPull]

/- References that are integers can be sorted. -/
theorem referencesSort_of_int
    (h :
      ∀ d ∈ db.datoms, db.isRef d.attr = true →
        ∃ n : Int, d.value = .int n) : db.ReferencesSort := by
  intro d hd d' hd' hRef hRef'
  rcases h d hd hRef with ⟨n, hn⟩
  rcases h d' hd' hRef' with ⟨n', hn'⟩
  rw [hn, hn']
  exact Value.sortsWith_int n n'

end Database

------------------------------------------------------------
-- Reading What Was Stored
------------------------------------------------------------

namespace Engine

/-
  Whatever an engine was called for since its start, three
  indexes of its database can be read as a whole, and so can
  the fourth one if its references can be sorted.  An entity
  is shown exactly if its values can all be shown, and it is
  pulled exactly if they can all be pulled, whatever else has
  grown before.
-/
theorem Run.reads
    {clock : Nat → Int}
    {e : Engine}
    (h : Run (fun _ => True) (start clock) e) :
    (∀ i : FactIndex, i ≠ .vaet →
        ∃ facts, e.db.scan (.str i.name) [] = .ok facts)
      ∧ (e.db.ReferencesSort →
          ∃ facts, e.db.scan (.str "vaet") [] = .ok facts)
      ∧ ∀ (eid : Int) (g : Growths),
          ((∃ entries,
              ((e.db.entity (.int eid)).run.run g).1
                = .ok entries)
            ↔ e.db.CanShow eid)
          ∧ ((∃ shown,
                ((e.db.pull (.list [.str "*"])
                  (.fresh (.int eid))).run.run g).1
                  = .ok shown)
              ↔ e.db.CanPull eid) := by
  have hInstalled :=
    (h.sound_extends inherited_true
      (Bootstrap.sound_database _)).1.facts.installed
  refine ⟨?_, ?_, ?_⟩
  · intro i hi
    exact Database.exists_scan (fun hVaet => absurd hVaet hi)
  · intro hSort
    exact
      Database.exists_scan (i := .vaet) (fun _ => hSort)
  · intro eid g
    exact
      ⟨Database.exists_entity_iff hInstalled eid g,
        Database.exists_pull_iff hInstalled eid g⟩

/- All of the first fact that was stored can be read. -/
theorem reads_exampleEngine :
    Run (fun _ => True) (start (fun _ => 0)) exampleEngine
      ∧ exampleEngine.db.ReferencesSort
      ∧ (∃ facts,
          exampleEngine.db.scan (.str "eavt") [] = .ok facts)
      ∧ (∃ facts,
          exampleEngine.db.scan (.str "vaet") [] = .ok facts)
      ∧ (exampleEngine.db.CanShow (EntityId.inPartition 2 0)
          ↔ ∃ entries,
              ((exampleEngine.db.entity
                (.int (EntityId.inPartition 2 0))).run.run
                  []).1 = .ok entries) := by
  have hRun :
      Run (fun _ => True) (start (fun _ => 0)) exampleEngine :=
    .single ⟨exampleData, trivial, rfl⟩
  have hInts :
      ∀ d ∈ exampleEngine.db.datoms,
        exampleEngine.db.isRef d.attr = true →
          d.value.isId = true := by
    decide +kernel
  have hSort : exampleEngine.db.ReferencesSort :=
    Database.referencesSort_of_int fun d hd hRef =>
      Value.exists_of_isId (hInts d hd hRef)
  rcases hRun.reads with ⟨hScan, hVaet, hEntity⟩
  exact
    ⟨hRun, hSort, hScan .eavt nofun, hVaet hSort,
      (hEntity (EntityId.inPartition 2 0) []).1.symm⟩

/- A map that installs an attribute for texts. -/
private def textAttribute
    (serial : Int)
    (ident cardinality : String) : Value :=
  .map
    [ (.str "db/id", .tempid "db.part/db" serial)
    , (.str "db/ident", .str ident)
    , (.str "db/valueType", .str "db.type/string")
    , (.str "db/cardinality", .str cardinality)
    , (.str "db.install/_attribute", .str "db.part/db") ]

/- Transaction data that installs three attributes. -/
def looseAttributes : Value :=
  .list
    [ textAttribute (-1) "user/tag" "db.cardinality/many"
    , textAttribute (-2) "db/id" "db.cardinality/many"
    , textAttribute (-3) "user/text" "db.cardinality/one" ]

/-
  Transaction data with a list for one of many values, a value
  under the ident for the entity itself, and a text.
-/
def looseData : Value :=
  .list
    [ .list
        [ .str "db/add", .int 5, .str "user/tag"
        , .list [.list [.str "x"]] ]
    , .list
        [.str "db/add", .int 6, .str "db/id", .str "x"]
    , .list
        [.str "db/add", .int 7, .str "user/text", .str "a"] ]

/- Transaction data by which the text becomes a reference. -/
def looseReference : Value :=
  .list
    [ .list
        [ .str "db/add", .int 24, .str "db/valueType"
        , .str "db.type/ref" ]
    , .list
        [ .str "db/retract", .int 0
        , .str "db.install/attribute", .int 24 ]
    , .list
        [ .str "db/add", .int 0
        , .str "db.install/attribute", .int 24 ] ]

/- The engine after the three transactions. -/
def looseEngine : Engine :=
  ((((start (fun _ => 0)).transact looseAttributes).2.transact
    looseData).2.transact looseReference).2

/-
  Then the first entity cannot be shown, the second one cannot
  be pulled, and the references cannot be sorted.
-/
theorem not_reads_looseEngine :
    Run (fun _ => True) (start (fun _ => 0)) looseEngine
      ∧ (¬∃ entries,
          ((looseEngine.db.entity (.int 5)).run.run []).1
            = .ok entries)
      ∧ (¬∃ shown,
          ((looseEngine.db.pull (.list [.str "*"])
            (.fresh (.int 6))).run.run []).1 = .ok shown)
      ∧ ¬∃ facts,
          looseEngine.db.scan (.str "vaet") [] = .ok facts := by
  have hRun :
      Run (fun _ => True) (start (fun _ => 0)) looseEngine :=
    ((Relation.ReflTransGen.single
      ⟨looseAttributes, trivial, rfl⟩).tail
        ⟨looseData, trivial, rfl⟩).tail
          ⟨looseReference, trivial, rfl⟩
  have hFails
      {α : Type}
      {x : Outcome α}
      (h : x.toOption.isNone = true) : ¬∃ a, x = .ok a := by
    rintro ⟨a, rfl⟩
    cases h
  exact
    ⟨hRun, hFails (by decide +kernel), hFails (by decide +kernel),
      hFails (by decide +kernel)⟩

end Engine

end FactBase
