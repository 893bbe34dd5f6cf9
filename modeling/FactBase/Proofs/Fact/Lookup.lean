import FactBase.Proofs.Fact.Idents
import FactBase.Proofs.Fact.Replay

/-
  This file compares the two ways to look up the entity of an
  ident: in the table of idents, and among the facts as the
  first entity that carries the ident.  An ident in the table
  always names a carrier, but there may be none for an ident
  that is still carried: when the entity that it names gives
  it up, it is forgotten, whoever else carries it.  As long as
  this does not happen, the two ways agree.

  Key definitions include:
    * `DatomOf.carries`
    * `Replay.named`
    * `Replay.keeps`
    * `Database.NamesIdents`
    * `Database.TellsIdent`

  Key theorems include:
    * `Database.find?_foldlM_followIdent`
    * `Replay.owned_run`
    * `Replay.found_run`
    * `Database.TellsIdent.after`
    * `Engine.RunOf.resolve_ident`
-/

------------------------------------------------------------
-- Texts
------------------------------------------------------------

namespace FactBase

open Sorting
open Bootstrap

/- Only a text is the same as it. -/
theorem Value.same_str_right
    {v : Value}
    {s : String} :
    v.same (.str s) = true ↔ v = .str s :=
  same_bare_right_iff rfl

/- It can always be told whether a value equals a text. -/
theorem Value.equals_str
    (v : Value)
    (s : String) :
    v.equals (.str s) = .ok (v.same (.str s)) :=
  equals_bare v rfl rfl

------------------------------------------------------------
-- Tables
------------------------------------------------------------

namespace Table

variable {α : Type}
variable {s : String}
variable {table : List (Value × α)}

/- Erasing an entry leaves what is under other keys alone. -/
theorem find?_erase_of_apart
    {key other : Value}
    (h : ∀ k : Value, k.same key = true → k.same other = false)
    (table : List (Value × α)) :
    find? other (erase key table) = find? other table := by
  induction table with
  | nil => rfl
  | cons e rest ih =>
      rcases e with ⟨k, y⟩
      by_cases hk : k.same key = true
      · simp [erase, find?, hk, h k hk]
      · simp [erase, find?, hk, ih]

/- A key of a table was there before or is put there. -/
theorem key_of_mem_put
    {v : Value}
    {x : α}
    {b : Value × α}
    (h : b ∈ put v x table) :
    (∃ c ∈ table, c.1 = b.1) ∨ b.1 = v := by
  induction table with
  | nil => exact .inr (congrArg Prod.fst (List.mem_singleton.mp h))
  | cons e rest ih =>
      rcases e with ⟨k, y⟩
      rw [put] at h
      split at h
      · rcases List.mem_cons.mp h with rfl | hRest
        · exact .inl ⟨(k, y), List.mem_cons_self, rfl⟩
        · exact .inl ⟨b, List.mem_cons_of_mem _ hRest, rfl⟩
      · rcases List.mem_cons.mp h with rfl | hRest
        · exact .inl ⟨(k, y), List.mem_cons_self, rfl⟩
        · rcases ih hRest with ⟨c, hc, hKey⟩ | hKey
          · exact .inl ⟨c, List.mem_cons_of_mem _ hc, hKey⟩
          · exact .inr hKey

/- A text is at most once among the keys of a table. -/
def Once
    (s : String)
    (table : List (Value × α)) : Prop :=
  table.Pairwise (fun a b =>
    a.1.same (.str s) = true → b.1.same (.str s) = false)

/- The keys of a table of texts are there once. -/
theorem OfTexts.once
    (h : OfTexts table)
    (s : String) : Once s table := by
  refine h.distinct.imp ?_
  intro a b hDiffer ha
  rw [Bool.eq_false_iff]
  intro hb
  rw [Value.same_str_right] at ha hb
  exact hDiffer (ha.trans hb.symm)

/- Once erased, such a key is gone. -/
theorem Once.find?_erase
    (h : Once s table) :
    find? (.str s) (erase (.str s) table) = none := by
  induction table with
  | nil => rfl
  | cons e rest ih =>
      rcases e with ⟨k, y⟩
      rcases List.pairwise_cons.mp h with ⟨hOther, hRest⟩
      rw [erase]
      split
      next hk =>
        rw [← Option.not_isSome_iff_eq_none, find?_isSome_iff]
        rintro ⟨_, hMem, hSame⟩
        rcases List.mem_map.mp hMem with ⟨b, hb, rfl⟩
        rw [hOther b hb hk] at hSame
        cases hSame
      next hk =>
        rw [find?, if_neg hk]
        exact ih hRest

/- Erasing any key adds none. -/
theorem Once.erase
    (h : Once s table)
    (v : Value) : Once s (erase v table) := by
  refine h.sublist ?_
  clear h
  induction table with
  | nil => exact List.Sublist.refl _
  | cons e rest ih =>
      rcases e with ⟨k, y⟩
      rw [Table.erase]
      split
      · exact List.sublist_cons_self _ _
      · exact ih.cons_cons _

/- Putting under a key adds one only if it was not there. -/
theorem Once.put
    (h : Once s table)
    (v : Value)
    (x : α) : Once s (put v x table) := by
  induction table with
  | nil => exact List.pairwise_singleton _ _
  | cons e rest ih =>
      rcases e with ⟨k, y⟩
      rcases List.pairwise_cons.mp h with ⟨hOther, hRest⟩
      rw [Table.put]
      split
      · exact List.pairwise_cons.mpr ⟨hOther, hRest⟩
      next hDiffer =>
        refine List.pairwise_cons.mpr ⟨?_, ih hRest⟩
        intro b hb hk
        rcases key_of_mem_put hb with ⟨c, hc, hKey⟩ | hKey
        · exact hKey ▸ hOther c hc hk
        · rw [Bool.eq_false_iff]
          intro hText
          rw [Value.same_str_right] at hk hText
          refine hDiffer ?_
          rw [show k = .str s from hk, ← hKey, hText]
          exact Value.same_refl _

end Table

------------------------------------------------------------
-- Whom a Text Names
------------------------------------------------------------

/- The fact gives its entity a text as an ident. -/
def DatomOf.carries
    (s : String)
    (d : Datom) : Bool :=
  d.attr == identAttr && d.value.same (.str s)

/- A fact that carries a text has it for its value. -/
theorem DatomOf.carries_iff
    {s : String}
    {d : Datom} :
    d.carries s = true
      ↔ d.attr = identAttr ∧ d.value = .str s := by
  unfold carries
  rw [Bool.and_eq_true, beq_iff_eq, Value.same_str_right]

/- What restates a fact that carries a text carries it too. -/
theorem DatomOf.carries_of_restates
    {s : String}
    {c d : Datom}
    (h : c.restates d = true)
    (hEither : c.carries s = true ∨ d.carries s = true) :
    c.carries s = true ∧ d.carries s = true := by
  unfold DatomOf.restates at h
  simp only [Bool.and_eq_true, beq_iff_eq, Outcome.holds_iff]
    at h
  rcases h with ⟨⟨_, hAttr⟩, hEquals⟩
  rcases hEither with hCarries | hCarries <;>
    rcases DatomOf.carries_iff.mp hCarries with
      ⟨hIdent, hValue⟩
  · rw [hValue] at hEquals
    have hText :=
      Value.eq_str_of_same (Value.same_of_equals rfl hEquals)
    exact
      ⟨hCarries,
        DatomOf.carries_iff.mpr ⟨hAttr ▸ hIdent, hText⟩⟩
  · rw [hValue, Value.equals_str, Except.ok.injEq,
      Value.same_str_right] at hEquals
    exact
      ⟨DatomOf.carries_iff.mpr ⟨hAttr.trans hIdent, hEquals⟩,
        hCarries⟩

namespace Replay

/-
  Whom a text names after an entry of a log: the entity that
  was given it last, unless that entity gave it up.
-/
def named
    (s : String)
    (owner : Option Int)
    (d : Datom) : Option Int :=
  if d.carries s then
    if d.added then some d.entity
    else if owner = some d.entity then none
    else owner
  else owner

/-
  The entry takes a text from the entity that it names, while
  another entity carries the text as well.
-/
def strands
    (s : String)
    (datoms : List Datom)
    (owner : Option Int)
    (d : Datom) : Bool :=
  d.carries s && !d.added && owner == some d.entity
    && datoms.any (fun c =>
      c.carries s && c.entity != d.entity)

/- No entry of a log does so when it is carried out. -/
def keeps
    (s : String) :
    List Datom → Option Int → List Datom → Bool
  | _, _, [] => true
  | datoms, owner, d :: log =>
      !strands s datoms owner d
        && keeps s (step datoms d) (named s owner d) log

end Replay

/-
  A transaction does not take a text from the entity that it
  names while another entity carries it.
-/
def TxResult.KeepsIdent
    (s : String)
    (r : TxResult) : Prop :=
  Replay.keeps s r.before.datoms
    (Table.find? (.str s) r.before.idents) r.facts = true

namespace Database

variable {s : String}

/- Following one ident says whom a text names then. -/
theorem find?_followIdent
    {d : Datom}
    {table after : List (Value × Int)}
    (h : followIdent table d = .ok after)
    (hAttr : d.attr = identAttr)
    (hOnce : Table.Once s table) :
    Table.Once s after
      ∧ Table.find? (.str s) after
        = Replay.named s (Table.find? (.str s) table) d := by
  by_cases hText : d.value = .str s
  · have hCarries : d.carries s = true :=
      DatomOf.carries_iff.mpr ⟨hAttr, hText⟩
    rw [followIdent_text hText, Except.ok.injEq] at h
    subst h
    rw [Replay.named, if_pos hCarries]
    split
    · exact
        ⟨hOnce.put _ _,
          Table.find?_put _ _ _ (Value.same_refl _)⟩
    · split
      · exact ⟨hOnce.erase _, hOnce.find?_erase⟩
      · exact ⟨hOnce, rfl⟩
  · have hCarries : ¬d.carries s = true :=
      fun hBoth => hText (DatomOf.carries_iff.mp hBoth).2
    rw [Replay.named, if_neg hCarries]
    rcases bind_eq_ok.mp h with ⟨owner, _, hRest⟩
    split at hRest
    · rw [pure_eq_ok] at hRest
      subst hRest
      exact
        ⟨hOnce.put _ _,
          Table.find?_put_of_apart (Value.apart_of_ne hText) _
            _⟩
    · split at hRest <;> rw [pure_eq_ok] at hRest <;> subst hRest
      · exact
          ⟨hOnce.erase _,
            Table.find?_erase_of_apart (Value.apart_of_ne hText)
            _⟩
      · exact ⟨hOnce, rfl⟩

/-
  Following the idents of a log says whom a text names at its
  end.
-/
theorem find?_foldlM_followIdent
    {log : List Datom}
    {table after : List (Value × Int)}
    (h :
      (log.filter (fun d => d.attr == identAttr)).foldlM
        followIdent table = .ok after)
    (hOnce : Table.Once s table) :
    Table.Once s after
      ∧ Table.find? (.str s) after
        = log.foldl (Replay.named s)
          (Table.find? (.str s) table) := by
  induction log generalizing table with
  | nil =>
      rw [List.filter_nil, List.foldlM_nil, pure_eq_ok] at h
      exact h ▸ ⟨hOnce, rfl⟩
  | cons d log ih =>
      by_cases hAttr : d.attr = identAttr
      · rw [List.filter_cons_of_pos (by simpa using hAttr),
          List.foldlM_cons] at h
        rcases bind_eq_ok.mp h with ⟨next, hNext, hRest⟩
        rcases find?_followIdent hNext hAttr hOnce with
          ⟨hKept, hNamed⟩
        rw [List.foldl_cons, ← hNamed]
        exact ih hRest hKept
      · rw [List.filter_cons_of_neg (by simpa using hAttr)] at h
        have hCarries : ¬d.carries s = true :=
          fun hBoth => hAttr (DatomOf.carries_iff.mp hBoth).1
        rw [List.foldl_cons, Replay.named, if_neg hCarries]
        exact ih h hOnce

end Database

------------------------------------------------------------
-- Carriers along a Log
------------------------------------------------------------

namespace Replay

variable {s : String}
variable {datoms log : List Datom}
variable {owner : Option Int}
variable {d : Datom}

/- An entity carries a text once at most. -/
def CarriedOnce
    (s : String)
    (datoms : List Datom) : Prop :=
  datoms.Pairwise (fun c d =>
    c.carries s = true → d.carries s = true →
      c.entity ≠ d.entity)

/- The entity that a text names carries it. -/
def Owned
    (s : String)
    (datoms : List Datom)
    (owner : Option Int) : Prop :=
  ∀ eid, owner = some eid →
    ∃ d ∈ datoms, d.carries s = true ∧ d.entity = eid

/- A text that is carried names an entity. -/
def Found
    (s : String)
    (datoms : List Datom)
    (owner : Option Int) : Prop :=
  ∀ d ∈ datoms, d.carries s = true → owner.isSome = true

/- A needed entry gives no entity a text that it carries. -/
theorem CarriedOnce.step
    (h : CarriedOnce s datoms)
    (hNeeded : Needed datoms d) :
    CarriedOnce s (step datoms d) := by
  unfold Replay.step
  split
  next hAdded =>
    refine pairwise_append_singleton.mpr ⟨h, ?_⟩
    intro c hc hCarries hEntry hEntity
    rcases DatomOf.carries_iff.mp hCarries with ⟨hAttr, hValue⟩
    rcases DatomOf.carries_iff.mp hEntry with
      ⟨hAttr', hValue'⟩
    rw [Needed, if_pos hAdded] at hNeeded
    have hDiffer :=
      hNeeded c hc hEntity (hAttr.trans hAttr'.symm)
    rw [hValue, hValue', Value.equals_self] at hDiffer
    cases hDiffer
  · exact h.sublist List.eraseP_sublist

/-
  An entry keeps the carrier of a text, unless it takes the
  text from it.
-/
private theorem mem_step
    {c : Datom}
    (hc : c ∈ datoms)
    (hCarries : c.carries s = true)
    (hKept :
      d.added = false → d.carries s = true →
        c.entity ≠ d.entity) :
    c ∈ step datoms d := by
  unfold Replay.step
  split
  · exact List.mem_append_left _ hc
  next hAdded =>
    refine (List.mem_eraseP_of_neg ?_).mpr hc
    intro hRestates
    have hBoth :=
      DatomOf.carries_of_restates hRestates (.inl hCarries)
    refine hKept (by simpa using hAdded) hBoth.2 ?_
    simp only [DatomOf.restates, Bool.and_eq_true, beq_iff_eq]
      at hRestates
    exact hRestates.1.1

/- Whom a text names after an entry carries it then. -/
theorem Owned.step
    (h : Owned s datoms owner) :
    Owned s (step datoms d) (named s owner d) := by
  intro eid hNamed
  unfold named at hNamed
  by_cases hEntry : d.carries s = true
  · rw [if_pos hEntry] at hNamed
    by_cases hAdded : d.added = true
    · rw [if_pos hAdded] at hNamed
      refine ⟨d, ?_, hEntry, Option.some.inj hNamed⟩
      rw [Replay.step, if_pos hAdded]
      exact List.mem_append_right _ List.mem_cons_self
    · rw [if_neg hAdded] at hNamed
      split at hNamed
      · cases hNamed
      next hOther =>
        rcases h eid hNamed with ⟨c, hc, hCarries, hEntity⟩
        refine ⟨c, mem_step hc hCarries ?_, hCarries, hEntity⟩
        intro _ _ hSame
        exact hOther (by rw [hNamed, ← hSame, hEntity])
  · rw [if_neg hEntry] at hNamed
    rcases h eid hNamed with ⟨c, hc, hCarries, hEntity⟩
    exact
      ⟨c, mem_step hc hCarries fun _ hBoth => absurd hBoth hEntry,
        hCarries, hEntity⟩

/- Whom a text names at the end of a log carries it then. -/
theorem owned_run
    (h : Owned s datoms owner) :
    Owned s (run datoms log) (log.foldl (named s) owner) := by
  induction log generalizing datoms owner with
  | nil => exact h
  | cons d log ih => exact ih h.step

/- The last carrier is not left when its text is taken. -/
private theorem not_carries_of_taken
    (hOnce : CarriedOnce s datoms)
    (hEntry : d.carries s = true)
    (hAdded : d.added = false)
    (hNeeded : Needed datoms d)
    (hAlone :
      ∀ c ∈ datoms, c.carries s = true → c.entity = d.entity) :
    ∀ c ∈ step datoms d, ¬c.carries s = true := by
  have hNot : ¬d.added = true := by simp [hAdded]
  rw [Needed, if_neg hNot] at hNeeded
  rcases hNeeded with ⟨c, hc, hRestates⟩
  rcases List.exists_of_eraseP
      (p := fun c => c.restates d) hc hRestates with
    ⟨taken, left, right, _, hTaken, hSplit, hRest⟩
  rw [Replay.step, if_neg hNot, hRest]
  intro b hb hCarries
  have hb' : b ∈ datoms := by
    rw [hSplit]
    simp only [List.mem_append, List.mem_cons] at hb ⊢
    tauto
  have hTakenCarries :=
    (DatomOf.carries_of_restates hTaken (.inr hEntry)).1
  have hSame : b.entity = taken.entity :=
    (hAlone b hb' hCarries).trans
      (hAlone taken (by simp [hSplit]) hTakenCarries).symm
  -- Both would carry the text for one entity.
  rw [CarriedOnce, hSplit, List.pairwise_append,
    List.pairwise_cons] at hOnce
  rcases hOnce with ⟨_, ⟨hRight, _⟩, hLeft⟩
  rcases List.mem_append.mp hb with hb | hb
  · exact
      hLeft b hb taken List.mem_cons_self hCarries hTakenCarries
        hSame
  · exact hRight b hb hTakenCarries hCarries hSame.symm

/-
  A text that is carried after an entry names an entity, if
  the entry strands no carrier.
-/
theorem Found.step
    (h : Found s datoms owner)
    (hOnce : CarriedOnce s datoms)
    (hNeeded : Needed datoms d)
    (hKeeps : strands s datoms owner d = false) :
    Found s (step datoms d) (named s owner d) := by
  intro c hc hCarries
  have hBefore :
      c ∈ datoms ∨ (d.added = true ∧ c = d) := by
    unfold Replay.step at hc
    split at hc
    next hAdded =>
      rcases List.mem_append.mp hc with hc | hc
      · exact .inl hc
      · exact .inr ⟨hAdded, List.mem_singleton.mp hc⟩
    · exact .inl (List.mem_of_mem_eraseP hc)
  unfold named
  split
  next hEntry =>
    split
    · rfl
    next hAdded =>
      have hMem : c ∈ datoms :=
        hBefore.resolve_right (fun hNew => hAdded hNew.1)
      split
      next hOwner =>
        -- The entity gave the text up, and no other has it.
        rw [Bool.not_eq_true] at hAdded
        refine
          absurd hCarries
            (not_carries_of_taken hOnce hEntry hAdded hNeeded
              ?_ c hc)
        intro b hb hb'
        by_contra hDiffer
        have hStrands : strands s datoms owner d = true := by
          simp only [strands, Bool.and_eq_true, hEntry, hAdded,
            Bool.not_false, hOwner, beq_self_eq_true,
            List.any_eq_true, bne_iff_ne, ne_eq, true_and]
          exact ⟨b, hb, hb', hDiffer⟩
        rw [hStrands] at hKeeps
        cases hKeeps
      · exact h c hMem hCarries
  next hEntry =>
    rcases hBefore with hMem | ⟨_, rfl⟩
    · exact h c hMem hCarries
    · exact absurd hCarries hEntry

/-
  A text that is carried at the end of a log names an entity,
  if no entry strands a carrier.
-/
theorem found_run
    (h : Found s datoms owner)
    (hOnce : CarriedOnce s datoms)
    (hMinimal : Minimal datoms log)
    (hKeeps : keeps s datoms owner log = true) :
    Found s (run datoms log) (log.foldl (named s) owner) := by
  induction log generalizing datoms owner with
  | nil => exact h
  | cons d log ih =>
      rw [keeps, Bool.and_eq_true, Bool.not_eq_true'] at hKeeps
      rcases hMinimal with ⟨hNeeded, hMinimal⟩
      exact
        ih (h.step hOnce hNeeded hKeeps.1)
          (hOnce.step hNeeded) hMinimal hKeeps.2

/- No entity carries a text twice at the end of a log. -/
theorem carriedOnce_run
    (h : CarriedOnce s datoms)
    (hMinimal : Minimal datoms log) :
    CarriedOnce s (run datoms log) := by
  induction log generalizing datoms with
  | nil => exact h
  | cons d log ih => exact ih (h.step hMinimal.1) hMinimal.2

end Replay

------------------------------------------------------------
-- Databases
------------------------------------------------------------

namespace Database

variable {db : Database}
variable {s : String}

/- The attribute of idents is the one that is named so. -/
def NamesIdents (db : Database) : Prop :=
  Table.find? (.str "db/ident") db.idents = some identAttr

/-
  What the table of idents tells of a text: the entity that it
  names, if any, carries it.
-/
structure TellsIdent
    (s : String)
    (db : Database) : Prop where
  names : db.NamesIdents
  installed : (db.schemaOf? identAttr).isSome = true
  once : Table.Once s db.idents
  carriedOnce : Replay.CarriedOnce s db.datoms
  owned :
    Replay.Owned s db.datoms (Table.find? (.str s) db.idents)

/-
  A text that is carried in a database is in its table of
  idents.
-/
abbrev FindsIdent
    (s : String)
    (db : Database) : Prop :=
  Replay.Found s db.datoms (Table.find? (.str s) db.idents)

/- The table of the first database names the carriers. -/
theorem tellsIdent_database
    (s : String)
    (instant : Int) :
    (database instant).TellsIdent s
      ∧ (database instant).FindsIdent s := by
  have hNamed := (wellNamed_database instant).named
  refine ⟨⟨?_, ?_, ?_, ?_, ?_⟩, ?_⟩
  · change Table.find? (.str "db/ident") idents = some identAttr
    decide +kernel
  · change ((database 0).schemaOf? identAttr).isSome = true
    decide +kernel
  · exact hNamed.keys.once s
  · refine hNamed.single.imp ?_
    intro c d hDiffer hc hd
    exact
      hDiffer (DatomOf.carries_iff.mp hc).1
        (DatomOf.carries_iff.mp hd).1
  · intro eid hFound
    rcases hNamed.stored _
        (hNamed.keys.find?_eq_some_iff.mp hFound) with
      ⟨d, hd, hEntity, hAttr, hValue⟩
    exact
      ⟨d, hd, DatomOf.carries_iff.mpr ⟨hAttr, hValue⟩, hEntity⟩
  · refine forall_mem_datoms ?_ ?_
    · intro d hd hCarries
      rcases DatomOf.carries_iff.mp hCarries with
        ⟨hAttr, hValue⟩
      have hListed :
          ∀ d ∈ fixedFacts, d.attr = identAttr →
            ∃ k ∈ idents.map Prod.fst,
              k.same d.value = true := by
        decide +kernel
      rw [Table.find?_isSome_iff, ← hValue]
      exact hListed d hd hAttr
    · intro hCarries
      have hDiffer : (instantFact 0).attr ≠ identAttr := by
        decide +kernel
      exact absurd (DatomOf.carries_iff.mp hCarries).1 hDiffer

end Database

/- What is committed can be replayed. -/
theorem Engine.Commits.replays
    {e : Engine}
    {V : Value → Prop}
    {l : Ledger}
    {r : TxResult}
    (h : e.Commits V l r) :
    Ledger.Replays e.ground.tx e.db.datoms l :=
  h.changes.invariant
    (Ledger.Replays e.ground.tx e.db.datoms)
    (fun _ _ hChange => hChange.replayed)
    (Ledger.replays_ofDatabase e.db)

namespace Database

variable {e : Engine}
variable {l : Ledger}
variable {r : TxResult}
variable {V : Value → Prop}
variable {s : String}

/- After a commit, the table has followed the idents. -/
theorem NamesIdents.foldlM_after
    (h : e.db.NamesIdents)
    (hCommits : e.Commits V l r) :
    (l.log.filter (fun d => d.attr == identAttr)).foldlM
        followIdent e.db.idents
      = .ok r.after.idents := by
  rcases afterLog_eq_ok.mp hCommits.after with
    ⟨ident, table, newAttr, newPart, installs, hIdent, hTable,
      _, _, _, hAfter⟩
  have hIdentId : ident.eid = identAttr := by
    have hFound := (installed_eq_ok.mp hIdent).2.1
    rw [h] at hFound
    exact (Option.some.inj hFound).symm
  rw [hIdentId] at hTable
  rw [hAfter]
  exact hTable

/- So the log says whom a text names. -/
theorem TellsIdent.find?_after
    (h : e.db.TellsIdent s)
    (hCommits : e.Commits V l r) :
    Table.Once s r.after.idents
      ∧ Table.find? (.str s) r.after.idents
        = l.log.foldl (Replay.named s)
          (Table.find? (.str s) e.db.idents) :=
  find?_foldlM_followIdent (h.names.foldlM_after hCommits)
    h.once

/-
  A transaction that leaves the attribute of idents its name
  leads from a table that names carriers to one that does.
-/
theorem TellsIdent.after
    (h : e.db.TellsIdent s)
    (hCommits : e.Commits V l r)
    (hNames : r.after.NamesIdents) : r.after.TellsIdent s := by
  rcases extends_afterLog hCommits.after with
    ⟨hDatoms, hExtends, _⟩
  rcases h.find?_after hCommits with ⟨hOnce, hFound⟩
  have hReplays := hCommits.replays
  refine
    ⟨hNames, hExtends.isSome_schemaOf? h.installed, hOnce, ?_,
      ?_⟩
  · rw [hDatoms, ← hReplays.run]
    exact Replay.carriedOnce_run h.carriedOnce hReplays.minimal
  · rw [hDatoms, hFound, ← hReplays.run]
    exact Replay.owned_run h.owned

/-
  A text that is carried stays in the table, if it is not
  taken from the entity that it names while another one
  carries it.
-/
theorem FindsIdent.after
    (h : e.db.FindsIdent s)
    (hTells : e.db.TellsIdent s)
    (hCommits : e.Commits V l r)
    (hKeeps : r.KeepsIdent s) : r.after.FindsIdent s := by
  have hReplays := hCommits.replays
  rw [TxResult.KeepsIdent, hCommits.before, hCommits.facts]
    at hKeeps
  rw [FindsIdent, (extends_afterLog hCommits.after).1,
    (hTells.find?_after hCommits).2, ← hReplays.run]
  exact
    Replay.found_run h hTells.carriedOnce hReplays.minimal
      hKeeps

/- A lookup by ident finds the first fact that carries it. -/
theorem TellsIdent.resolve_pair
    {db : Database}
    (h : db.TellsIdent s) :
    db.resolve (.tuple [.str "db/ident", .str s])
      = .ok
        ((db.datoms.find? (fun d => d.carries s)).map
          DatomOf.entity) := by
  rcases Option.isSome_iff_exists.mp h.installed with
    ⟨schema, hSchema⟩
  have hAttr :
      db.installed (.str "db/ident")
        = .ok { eid := identAttr, schema := schema } :=
    installed_eq_ok.mpr
      ⟨Value.hashable_str _, h.names, hSchema⟩
  have hTest :
      (fun d : Datom =>
        if d.attr == identAttr then d.value.equals (.str s)
        else .ok false)
        = fun d => (pure (d.carries s) : Outcome Bool) := by
    funext d
    unfold DatomOf.carries
    cases d.attr == identAttr with
    | true =>
        rw [if_pos rfl, Value.equals_str, Bool.true_and]
        rfl
    | false => rfl
  change (db.installed (.str "db/ident") >>= fun attr =>
    db.entityWith? attr.eid (.str s)) = _
  rw [hAttr, ok_bind, entityWith?, hTest, List.findM?_pure]
  rfl

/-
  If only one entity carries a text that is in the table, both
  ways of looking it up find that entity.
-/
theorem TellsIdent.resolve_eq
    {db : Database}
    (h : db.TellsIdent s)
    (hFinds : db.FindsIdent s)
    (hAlone :
      ∀ c ∈ db.datoms, ∀ d ∈ db.datoms,
        c.carries s = true → d.carries s = true →
          c.entity = d.entity) :
    db.resolve (.str s)
      = db.resolve (.tuple [.str "db/ident", .str s]) := by
  rw [h.resolve_pair]
  refine congrArg Except.ok ?_
  rcases hFirst : db.datoms.find? (fun d => d.carries s) with
    _ | d <;> rw [hFirst]
  · rcases hFound : Table.find? (.str s) db.idents with _ | eid
    · rfl
    · rcases h.owned eid hFound with ⟨d, hd, hCarries, _⟩
      exact
        absurd hCarries (List.find?_eq_none.mp hFirst d hd)
  · have hd := List.mem_of_find?_eq_some hFirst
    have hCarries : d.carries s = true := by
      simpa using List.find?_some hFirst
    rcases Option.isSome_iff_exists.mp (hFinds d hd hCarries)
      with ⟨eid, hFound⟩
    rcases h.owned eid hFound with ⟨c, hc, hOwner, hEntity⟩
    rw [hFound, Option.map_some, ← hEntity,
      hAlone c hc d hd hOwner hCarries]

end Database

------------------------------------------------------------
-- Runs
------------------------------------------------------------

namespace Engine

/- Results are also as is stated of them in part. -/
theorem RunOf.weaken
    {P Q : TxResult → Prop}
    {e f : Engine}
    (h : RunOf P e f)
    (hWeaker : ∀ r, P r → Q r) : RunOf Q e f := by
  induction h with
  | refl => exact .refl
  | tail _ hLast ih =>
      rcases hLast with ⟨data, hData, hNext⟩
      exact
        ih.tail ⟨data, fun r hr => hWeaker r (hData r hr), hNext⟩

/-
  In every database that a run leads to that leaves the
  attribute of idents its name, a lookup by ident finds the
  first entity that carries the ident, and what an ident names
  carries it.  If moreover no transaction of the run takes the
  ident from the entity that it names while another entity
  carries it, then an ident that is carried names an entity,
  and so it names the entity that the lookup finds if no two
  entities carry it.
-/
theorem RunOf.resolve_ident
    {clock : Nat → Int}
    {e : Engine}
    {s : String}
    (h :
      RunOf (fun r => r.after.NamesIdents) (start clock) e) :
    e.db.resolve (.tuple [.str "db/ident", .str s])
        = .ok
          ((e.db.datoms.find? (fun d => d.carries s)).map
            DatomOf.entity)
      ∧ (∀ eid : Int,
          e.db.resolve (.str s) = .ok (some eid) →
            ∃ d ∈ e.db.datoms,
              d.carries s = true ∧ d.entity = eid)
      ∧ (RunOf
            (fun r => r.after.NamesIdents ∧ r.KeepsIdent s)
            (start clock) e →
          (∀ d ∈ e.db.datoms, d.carries s = true →
            ∃ eid, e.db.resolve (.str s) = .ok (some eid))
          ∧ ((∀ c ∈ e.db.datoms, ∀ d ∈ e.db.datoms,
                c.carries s = true → d.carries s = true →
                  c.entity = d.entity) →
              e.db.resolve (.str s)
                = e.db.resolve
                  (.tuple [.str "db/ident", .str s]))) := by
  have hTells : e.db.TellsIdent s :=
    h.invariant (Database.TellsIdent s)
      (fun _ _ _ hCommits hNames hSoFar =>
        hSoFar.after hCommits hNames)
      (Database.tellsIdent_database s _).1
  refine ⟨hTells.resolve_pair, ?_, ?_⟩
  · intro eid hResolve
    exact hTells.owned eid (Except.ok.inj hResolve)
  intro hKept
  have hBoth : e.db.TellsIdent s ∧ e.db.FindsIdent s :=
    hKept.invariant
      (fun db => db.TellsIdent s ∧ db.FindsIdent s)
      (fun _ _ _ hCommits hResult hSoFar =>
        ⟨hSoFar.1.after hCommits hResult.1,
          hSoFar.2.after hSoFar.1 hCommits hResult.2⟩)
      (Database.tellsIdent_database s _)
  constructor
  · intro d hd hCarries
    rcases Option.isSome_iff_exists.mp
        (hBoth.2 d hd hCarries) with
      ⟨eid, hFound⟩
    exact ⟨eid, congrArg Except.ok hFound⟩
  · exact hBoth.1.resolve_eq hBoth.2

/- By this, a result can be seen to keep an ident. -/
def seenToKeep
    (s : String)
    (r : TxResult) : Bool :=
  Table.find? (.str "db/ident") r.after.idents
      == some identAttr
    && Replay.keeps s r.before.datoms
      (Table.find? (.str s) r.before.idents) r.facts

/- A transaction with such a result keeps it. -/
theorem nextOf_keepsIdent
    {e : Engine}
    {data : Value}
    {s : String}
    (h :
      (e.transact data).1.toOption.all (seenToKeep s) = true) :
    NextOf (fun r => r.after.NamesIdents ∧ r.KeepsIdent s) e
      (e.transact data).2 := by
  refine nextOf_of_all ?_ h
  intro _ r _ hSeen
  rw [seenToKeep, Bool.and_eq_true, beq_iff_eq] at hSeen
  exact hSeen

/- Transaction data that gives a new entity an ident. -/
def givingData (s : String) : Value :=
  .list
    [ .list
        [ .str "db/add", .tempid "db.part/user" (-1)
        , .str "db/ident", .str s ] ]

/- Transaction data that takes an ident from an entity. -/
def takingData
    (eid : Int)
    (s : String) : Value :=
  .list
    [ .list
        [ .str "db/retract", .int eid, .str "db/ident"
        , .str s ] ]

/- The engine after two entities were given one ident. -/
def sharedEngine : Engine :=
  (((start (fun _ => 0)).transact
    (givingData "user/shared")).2.transact
      (givingData "user/shared")).2

/- The engine after the first of them gave it up. -/
def handedEngine : Engine :=
  (sharedEngine.transact
    (takingData (EntityId.inPartition 2 0) "user/shared")).2

/-
  Then the ident names the second one, and the lookup finds
  that one as well.
-/
theorem resolve_ident_handedEngine :
    RunOf
        (fun r =>
          r.after.NamesIdents ∧ r.KeepsIdent "user/shared")
        (start (fun _ => 0)) handedEngine
      ∧ handedEngine.db.resolve
            (.tuple [.str "db/ident", .str "user/shared"])
          = .ok (some (EntityId.inPartition 2 1))
      ∧ handedEngine.db.resolve (.str "user/shared")
          = handedEngine.db.resolve
            (.tuple [.str "db/ident", .str "user/shared"]) := by
  have hRun :
      RunOf
        (fun r =>
          r.after.NamesIdents ∧ r.KeepsIdent "user/shared")
        (start (fun _ => 0)) handedEngine :=
    ((Relation.ReflTransGen.single
      (nextOf_keepsIdent (by decide +kernel))).tail
        (nextOf_keepsIdent (by decide +kernel))).tail
          (nextOf_keepsIdent (by decide +kernel))
  have hNames :
      RunOf (fun r => r.after.NamesIdents)
        (start (fun _ => 0)) handedEngine :=
    hRun.weaken (fun _ hBoth => hBoth.1)
  have hFirst :
      (handedEngine.db.datoms.find?
          (fun d => d.carries "user/shared")).map
            DatomOf.entity
        = some (EntityId.inPartition 2 1) := by
    decide +kernel
  have hAlone :
      ∀ c ∈ handedEngine.db.datoms,
        ∀ d ∈ handedEngine.db.datoms,
          c.carries "user/shared" = true →
            d.carries "user/shared" = true →
              c.entity = d.entity := by
    decide +kernel
  rcases RunOf.resolve_ident hNames with
    ⟨hLookup, _, hKept⟩
  rw [hFirst] at hLookup
  exact ⟨hRun, hLookup, (hKept hRun).2 hAlone⟩

/-
  If the second one gives it up instead, the ident names no
  entity, although the first one still carries it.
-/
example :
    let e :=
      (sharedEngine.transact
        (takingData (EntityId.inPartition 2 1)
          "user/shared")).2
    Table.find? (.str "user/shared") e.db.idents = none
      ∧ (e.db.datoms.find?
          (fun d => d.carries "user/shared")).map
            DatomOf.entity
        = some (EntityId.inPartition 2 0) := by
  decide +kernel

end Engine

end FactBase
