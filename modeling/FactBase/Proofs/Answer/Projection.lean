import FactBase.Proofs.Fact.Gathering
import FactBase.Proofs.Answer.Predicate
import FactBase.Proofs.Answer.Pulling

/-
  This file shows that the rows of a query depend on the
  values of its variables only up to sameness, and on no
  other row, as long as no collection of a fact grows while
  they are gathered.

  Key definitions include:
    * `Shown.Alike`
    * `Assignment.Twin`
    * `Solution.GivesRow`

  Key theorems include:
    * `Database.grows_project`
    * `Database.tracks_project`
    * `Solution.rows_perm`
-/

------------------------------------------------------------
-- Growth by Pulls
------------------------------------------------------------

namespace FactBase

namespace Database

open Gathering

/- No step of a pull forgets any growth. -/
theorem pervades_grows (db : Database) : db.Pervades Grows where
  pure := grows_pure
  bind := fun _ _ => grows_bind
  fault := fun fault _ => grows_throw fault
  add := grows_add
  installed := fun ident => grows_lift (db.installed ident)

/- Projecting a term forgets no growth. -/
theorem grows_project
    (db : Database)
    (σ : Assignment)
    (term : Value) : Grows (db.project σ term) :=
  db.pervades_grows.project
    (fun _ _ _ _ => grows_throw _)
    (fun _ _ _ _ => grows_throw _)

end Database

------------------------------------------------------------
-- Like Pulls
------------------------------------------------------------

/- Where nothing has grown, the same is shown. -/
def Shown.Alike (s t : Shown) : Prop :=
  (s.value []).same (t.value []) = true

/-
  Two entries are the same, or show one of two held values
  each.
-/
def Held.EntryAlike
    (h k : Held)
    (e f : Value × Shown) : Prop :=
  e.1 = f.1 ∧ (e.2 = f.2 ∨ (e.2 = .one h ∧ f.2 = .one k))

namespace Database

open Gathering

variable {h k : Held}
variable {entries entries' : List (Value × Shown)}

/- Putting like values keeps entries alike. -/
theorem put_alike
    (hEntries : List.Forall₂ (h.EntryAlike k) entries entries')
    (key : Value)
    {s t : Shown}
    (hShown : s = t ∨ (s = .one h ∧ t = .one k)) :
    List.Forall₂ (h.EntryAlike k) (Table.put key s entries)
      (Table.put key t entries') := by
  induction hEntries with
  | nil => exact .cons ⟨rfl, hShown⟩ .nil
  | @cons e f es fs hHead hTail ih =>
      rcases e with ⟨key', s'⟩
      rcases f with ⟨other, t'⟩
      have hKey : key' = other := hHead.1
      subst hKey
      unfold Table.put
      split
      · exact .cons ⟨rfl, hShown⟩ hTail
      · exact .cons hHead ih

/- What is found among like entries is alike. -/
theorem find?_alike
    (hEntries : List.Forall₂ (h.EntryAlike k) entries entries')
    (key : Value) :
    Table.find? key entries = Table.find? key entries'
      ∨ (Table.find? key entries = some (.one h)
          ∧ Table.find? key entries' = some (.one k)) := by
  induction hEntries with
  | nil => exact .inl rfl
  | @cons e f es fs hHead _ ih =>
      rcases e with ⟨key', s'⟩
      rcases f with ⟨other, t'⟩
      have hKey : key' = other := hHead.1
      subst hKey
      unfold Table.find?
      split
      · rcases hHead.2 with hEq | ⟨hLeft, hRight⟩
        · exact .inl (congrArg some hEq)
        · exact .inr ⟨congrArg some hLeft, congrArg some hRight⟩
      · exact ih

/-
  Adding a value keeps entries alike.  A number that is shown
  takes nothing more, so adding to it fails.
-/
theorem tracks_addPulled
    (hNumber : h.value.magnitude?.isSome = true)
    (hEntries : List.Forall₂ (h.EntryAlike k) entries entries')
    (schema : Schema)
    (s : Shown) :
    Tracks (List.Forall₂ (h.EntryAlike k))
      (addPulled schema s entries)
      (addPulled schema s entries') := by
  unfold addPulled
  simp only
  split
  · rcases find?_alike hEntries (.str schema.ident) with
      hFound | ⟨hFound, _⟩
    · rw [hFound]
      split
      · exact tracks_pure (put_alike hEntries _ (.inl rfl))
      · exact
          tracks_bind (tracks_self _)
            (fun _ _ _ => tracks_pure hEntries)
      · exact
          tracks_bind (tracks_self _)
            (fun _ _ _ => tracks_pure hEntries)
      · exact tracks_throw _ _
    · rw [hFound]
      rcases h with ⟨v, origin⟩
      cases v with
      | list items => cases hNumber
      | cyclic other items => cases hNumber
      | _ => exact tracks_throw _ _
  · exact tracks_pure (put_alike hEntries _ (.inl rfl))

/- The facts of an entity, if there are any, have a number. -/
theorem isSome_magnitude?_of_mem_factsOf
    {db : Database}
    {v : Value}
    {d : Datom}
    (hd : d ∈ db.factsOf v) : v.magnitude?.isSome = true := by
  unfold factsOf at hd
  have hInt := (List.mem_filter.mp hd).2
  rw [Value.isInt_iff] at hInt
  exact Value.isSome_magnitude?_of_place? hInt

/- Like values have the same facts. -/
theorem factsOf_congr
    (db : Database)
    {v w : Value}
    (hAlike : v.Alike w) : db.factsOf v = db.factsOf w := by
  unfold factsOf
  apply List.filter_congr
  intro d _
  have hSame :
      (Value.int d.entity).same v = (Value.int d.entity).same w :=
    Value.same_congr_right hAlike.left hAlike.same
  simp only [Value.same] at hSame
  exact hSame

/- Pulling a fact keeps entries alike. -/
theorem tracks_pullFact
    (db : Database)
    (hNumber : h.value.magnitude?.isSome = true)
    (hEntries : List.Forall₂ (h.EntryAlike k) entries entries')
    (d : Datom) :
    Tracks (List.Forall₂ (h.EntryAlike k))
      (db.pullFact entries d) (db.pullFact entries' d) := by
  unfold pullFact
  split
  · exact tracks_addPulled hNumber hEntries _ _
  · exact tracks_throw _ _

/- Pulling an attribute keeps entries alike. -/
theorem tracks_pullAttribute
    (db : Database)
    (hAlike : h.value.Alike k.value)
    (hEntries : List.Forall₂ (h.EntryAlike k) entries entries')
    (ident : Value)
    (further : Schema → Datom → Gathering Shown) :
    Tracks (List.Forall₂ (h.EntryAlike k))
      (db.pullAttribute h ident further entries)
      (db.pullAttribute k ident further entries') := by
  unfold pullAttribute
  apply tracks_bind (tracks_self _)
  rintro attr _ rfl
  unfold factsAbout
  rw [← factsOf_congr db hAlike]
  refine tracks_foldlM ?_ hEntries
  intro d hd es fs hKept
  have hNumber :=
    isSome_magnitude?_of_mem_factsOf (List.mem_filter.mp hd).1
  apply tracks_bind (tracks_self _)
  rintro s _ rfl
  exact tracks_addPulled hNumber hKept attr.schema s

/- Pulling what a text asks for keeps entries alike. -/
theorem tracks_pullNamed
    (db : Database)
    (hAlike : h.value.Alike k.value)
    (hEntries : List.Forall₂ (h.EntryAlike k) entries entries')
    (name : String) :
    Tracks (List.Forall₂ (h.EntryAlike k))
      (db.pullNamed h name entries)
      (db.pullNamed k name entries') := by
  have hPut :=
    put_alike hEntries idEntry (.inr ⟨rfl, rfl⟩)
  unfold pullNamed
  split
  · rw [← factsOf_congr db hAlike]
    refine tracks_foldlM ?_ hPut
    intro d hd es fs hKept
    have hNumber := isSome_magnitude?_of_mem_factsOf hd
    exact tracks_pullFact db hNumber hKept d
  · split
    · exact tracks_pure hPut
    · exact tracks_pullAttribute db hAlike hEntries _ _

/- Pulling by attributes with patterns keeps entries alike. -/
theorem tracks_pullEntries
    (db : Database)
    (hAlike : h.value.Alike k.value)
    (hEntries : List.Forall₂ (h.EntryAlike k) entries entries')
    (subs : List (Value × Value)) :
    Tracks (List.Forall₂ (h.EntryAlike k))
      (db.pullEntries subs h entries)
      (db.pullEntries subs k entries') := by
  induction subs generalizing entries entries' with
  | nil =>
      rw [pullEntries, pullEntries]
      exact tracks_pure hEntries
  | cons e subs ih =>
      rcases e with ⟨ident, sub⟩
      rw [pullEntries, pullEntries]
      exact
        tracks_bind
          (tracks_pullAttribute db hAlike hEntries ident _)
          (fun _ _ hKept => ih hKept)

/- Pulling by one element keeps entries alike. -/
theorem tracks_pullItem
    (db : Database)
    (hAlike : h.value.Alike k.value)
    (hEntries : List.Forall₂ (h.EntryAlike k) entries entries')
    (item : Value) :
    Tracks (List.Forall₂ (h.EntryAlike k))
      (db.pullItem item h entries)
      (db.pullItem item k entries') := by
  cases item with
  | str name =>
      rw [pullItem, pullItem]
      exact tracks_pullNamed db hAlike hEntries name
  | map subs =>
      rw [pullItem, pullItem]
      exact tracks_pullEntries db hAlike hEntries subs
  | _ =>
      rw [pullItem]
      · exact tracks_throw _ _
      · simp
      · simp

/- Pulling by all elements keeps entries alike. -/
theorem tracks_pullItems
    (db : Database)
    (hAlike : h.value.Alike k.value)
    (hEntries : List.Forall₂ (h.EntryAlike k) entries entries')
    (items : List Value) :
    Tracks (List.Forall₂ (h.EntryAlike k))
      (db.pullItems items h entries)
      (db.pullItems items k entries') := by
  induction items generalizing entries entries' with
  | nil =>
      rw [pullItems, pullItems]
      exact tracks_pure hEntries
  | cons item items ih =>
      rw [pullItems, pullItems]
      exact
        tracks_bind (tracks_pullItem db hAlike hEntries item)
          (fun _ _ hKept => ih hKept)

/- Where nothing has grown, like entries show the same. -/
theorem shown_alike_of_entryAlike
    (hAlike : h.value.Alike k.value)
    (hEntries : List.Forall₂ (h.EntryAlike k) entries entries') :
    (Shown.map entries).Alike (.map entries') := by
  have hCurrent :
      Growths.current [] = Held.value := by
    funext held
    exact Growths.current_nil held
  simp only [Shown.Alike, Shown.value, Shown.valueWith, hCurrent]
  apply Value.same_map_iff.mpr
  refine ⟨_, rfl, ?_, ?_⟩
  · induction hEntries with
    | nil => rfl
    | @cons e f _ _ _ _ ih =>
        rcases e with ⟨key, s⟩
        rcases f with ⟨key', t⟩
        rw [Shown.entriesWith, Shown.entriesWith]
        simp [ih]
  · induction hEntries with
    | nil => simp [Shown.entriesWith]
    | @cons e f es fs hHead _ ih =>
        rcases e with ⟨key, s⟩
        rcases f with ⟨key', t⟩
        have hKey : key = key' := hHead.1
        subst hKey
        rw [Shown.entriesWith, Shown.entriesWith]
        intro x hx
        rcases List.mem_cons.mp hx with rfl | hx
        · refine ⟨_, List.mem_cons_self, Value.same_refl _, ?_⟩
          rcases hHead.2 with hEq | ⟨hLeft, hRight⟩
          · have hShown : s = t := hEq
            rw [hShown]
            exact Value.same_refl _
          · have hs : s = .one h := hLeft
            have ht : t = .one k := hRight
            rw [hs, ht]
            simp only [Shown.valueWith]
            exact hAlike.same
        · rcases ih x hx with ⟨y, hy, hSame⟩
          exact ⟨y, List.mem_cons_of_mem _ hy, hSame⟩

/- Pulling from like entities shows the same. -/
theorem tracks_pull
    (db : Database)
    (hAlike : h.value.Alike k.value)
    (pattern : Value) :
    Tracks Shown.Alike (db.pull pattern h)
      (db.pull pattern k) := by
  have hItems :
      ∀ items,
        Tracks Shown.Alike
          (do return Shown.map (← db.pullItems items h []))
          (do return Shown.map (← db.pullItems items k [])) := by
    intro items
    apply tracks_bind (tracks_pullItems db hAlike .nil items)
    intro es fs hEntries
    exact tracks_pure (shown_alike_of_entryAlike hAlike hEntries)
  cases pattern with
  | list items =>
      rw [pull, pull]
      exact hItems items
  | tuple items =>
      rw [pull, pull]
      exact hItems items
  | _ =>
      rw [pull]
      · exact tracks_throw _ _
      · simp
      · simp

end Database

------------------------------------------------------------
-- Rows
------------------------------------------------------------

/- Two assignments give all variables values that are alike. -/
def Assignment.Twin (σ τ : Assignment) : Prop :=
  ∀ x, Option.Rel (fun h k => h.value.Alike k.value)
    (σ.held? x) (τ.held? x)

/- A term shows the same under either. -/
theorem Database.tracks_project
    (db : Database)
    {σ τ : Assignment}
    (hTwin : σ.Twin τ)
    (term : Value) :
    Gathering.Tracks Shown.Alike (db.project σ term)
      (db.project τ term) := by
  unfold project
  cases term with
  | str name =>
      have hRel := hTwin name
      simp only
      split
      · generalize σ.held? name = found at hRel ⊢
        generalize τ.held? name = found' at hRel ⊢
        cases hRel with
        | none => exact Gathering.tracks_throw _ _
        | some hAlike =>
            apply Gathering.tracks_pure
            simp only [Shown.Alike, Shown.value, Shown.valueWith,
              Growths.current_nil]
            exact hAlike.same
      · exact Gathering.tracks_throw _ _
  | _ =>
      simp only
      split
      next x pattern _ =>
        have hRel :
            Option.Rel (fun h k => h.value.Alike k.value)
              (x.str?.bind σ.held?) (x.str?.bind τ.held?) := by
          cases x with
          | str name => exact hTwin name
          | _ => exact .none
        generalize x.str?.bind σ.held? = found at hRel ⊢
        generalize x.str?.bind τ.held? = found' at hRel ⊢
        cases hRel with
        | none =>
            simp only
            by_cases hHashable : x.hashable = true
            · rw [if_pos hHashable]
              exact Gathering.tracks_throw _ _
            · rw [if_neg hHashable]
              exact Gathering.tracks_throw _ _
        | some hAlike => exact db.tracks_pull hAlike pattern
      next => exact Gathering.tracks_throw _ _

namespace Solution

/- The row that an assignment gives where nothing grows. -/
def GivesRow
    (db : Database)
    (find : List Value)
    (σ : Assignment)
    (row : List Value) : Prop :=
  ∃ shown : List Shown,
    (find.mapM (db.project σ)).run.run [] = (.ok shown, [])
      ∧ shown.map (Shown.value []) = row

/- Looking lets nothing grow. -/
private theorem grows_look (s : Shown) :
    Gathering.Grows (Gathering.look s) :=
  fun _ => Nat.le_refl _

/- Looking at what is shown gives its values. -/
private theorem look_of_mapM
    {row : List Shown}
    {values : List Value}
    (h :
      (row.mapM Gathering.look).run.run [] = (.ok values, [])) :
    row.map (Shown.value []) = values := by
  have hEach := Gathering.run_mapM_nil grows_look h
  clear h
  induction hEach with
  | nil => rfl
  | @cons s v _ _ hHead _ ih =>
      have hValue : s.value [] = v :=
        Except.ok.inj (congrArg Prod.fst hHead)
      rw [List.map_cons, hValue, ih]

/- Where nothing grows, each assignment gives its own row. -/
theorem givesRow_of_rows
    {db : Database}
    {find : List Value}
    {σs : List Assignment}
    {rows : List (List Value)}
    (h :
      (Solution.rows find
          { db := db, assignments := σs }).run.run []
        = (.ok rows, [])) :
    List.Forall₂ (GivesRow db find) σs rows := by
  have hLook :
      ∀ row : List Shown,
        Gathering.Grows (row.mapM Gathering.look) :=
    Gathering.grows_mapM grows_look
  unfold Solution.rows at h
  rcases
      Gathering.run_bind_nil
        (fun rows => Gathering.grows_mapM hLook rows) h
    with ⟨shown, hShown, hLooked⟩
  have hEach :
      List.Forall₂
        (fun σ row =>
          (find.mapM (db.project σ)).run.run [] = (.ok row, []))
        σs shown :=
    Gathering.run_mapM_nil
      (fun σ =>
        Gathering.grows_mapM (db.grows_project σ) find) hShown
  have hRows := Gathering.run_mapM_nil hLook hLooked
  clear h hShown hLooked
  induction hEach generalizing rows with
  | nil =>
      cases hRows
      exact .nil
  | @cons σ row σs shown hHead _ ih =>
      cases hRows with
      | cons hFirst hRest =>
          refine .cons ⟨row, hHead, ?_⟩ (ih hRest)
          exact look_of_mapM hFirst

/- Two assignments that are alike give rows that are. -/
theorem same_of_givesRow
    {db : Database}
    {find : List Value}
    {σ τ : Assignment}
    {row row' : List Value}
    (hTwin : σ.Twin τ)
    (h : GivesRow db find σ row)
    (h' : GivesRow db find τ row') :
    List.Forall₂ (fun v w => v.same w = true) row row' := by
  rcases h with ⟨shown, hRun, rfl⟩
  rcases h' with ⟨shown', hRun', rfl⟩
  have hTracks :=
    Gathering.tracks_mapM (db.tracks_project hTwin) find
  rcases hTracks [] shown [] hRun with ⟨other, hOther, hAlike⟩
  have hEq : other = shown' := by
    rw [hRun'] at hOther
    exact (Except.ok.inj (congrArg Prod.fst hOther)).symm
  subst hEq
  rw [List.forall₂_map_left_iff, List.forall₂_map_right_iff]
  exact hAlike

/-
  Where nothing grows, a solution in another order, and with
  values that are the same, has the same rows in another
  order.
-/
theorem rows_perm
    {db : Database}
    {find : List Value}
    {σs τs υs : List Assignment}
    {rows rows' : List (List Value)}
    (hPerm : σs.Perm τs)
    (hTwin : List.Forall₂ Assignment.Twin τs υs)
    (h :
      (Solution.rows find
          { db := db, assignments := σs }).run.run []
        = (.ok rows, []))
    (h' :
      (Solution.rows find
          { db := db, assignments := υs }).run.run []
        = (.ok rows', [])) :
    ∃ rows'', rows.Perm rows''
      ∧ List.Forall₂
          (List.Forall₂ (fun v w => v.same w = true))
          rows'' rows' := by
  have hRows' := givesRow_of_rows h'
  rcases
      List.perm_comp_forall₂ hPerm.symm (givesRow_of_rows h)
    with ⟨rows'', hRows, hOrder⟩
  refine ⟨rows'', hOrder.symm, ?_⟩
  clear h h' hPerm hOrder
  induction hTwin generalizing rows' rows'' with
  | nil =>
      cases hRows
      cases hRows'
      exact .nil
  | cons hHead _ ih =>
      cases hRows with
      | cons hFirst hRest =>
          cases hRows' with
          | cons hFirst' hRest' =>
              exact
                .cons (same_of_givesRow hHead hFirst hFirst')
                  (ih hRest' _ hRest)

end Solution

end FactBase
