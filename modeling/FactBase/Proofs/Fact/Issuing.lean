import FactBase.Proofs.Fact.Allocation

/-
  This file shows what transaction data does to the ids of a
  transaction and to the entities that its facts speak of.
  Whether it is carried out to its end or fails on the way,
  only temporary ids take ids.  If the data names only known
  entities, and the ids taken are known, then so are the
  entities that the facts speak of: those that they are about,
  and those that they have as values of attributes that count.

  Key definitions include:
    * `Database.itemSpecs`
    * `DatomOf.SpeaksOf`
    * `Ledger.Covered`
    * `Transacting.Issuing`

  Key theorems include:
    * `Ledger.Covered.of_retractions`
    * `Ledger.Covered.add`
    * `Transacting.Issuing.bind`
    * `Transacting.mem_tempids_of_exec_entity`
    * `Transacting.issuing_values`
    * `Transacting.issuing_applyItem`
-/

------------------------------------------------------------
-- Entities that Data Names
------------------------------------------------------------

namespace FactBase

open Sorting
open Issuance (Issues)

namespace Database

/- What is given as entities for an attribute. -/
def referencesIn
    (db : Database)
    (attr v : Value) : List Value :=
  match db.installed attr with
  | .ok attr =>
      if attr.schema.isRef then
        Transacting.spread attr.schema v
      else []
  | .error _ => []

/-
  The entity specifications in an entry of a map.  An
  attribute that is turned around has one for its value.
-/
def entrySpecs
    (db : Database)
    (entry : Value × Value) : List Value :=
  match entry.1 with
  | .str name =>
      if name == "db/id" then []
      else if Keyword.forward name == name then
        db.referencesIn entry.1 entry.2
      else [entry.2]
  | _ => []

/- The entity specifications in an item, with its references. -/
def itemSpecs
    (db : Database)
    (item : Value) : List Value :=
  match item with
  | .map entries =>
      (Value.field? entries "db/id").toList
        ++ entries.flatMap db.entrySpecs
  | item =>
      match item.sequence? with
      | some [_, spec, attr, v] =>
          spec :: db.referencesIn attr v
      | some [_, spec] => [spec]
      | _ => []

end Database

------------------------------------------------------------
-- Entities that Facts Speak of
------------------------------------------------------------

/-
  A fact is about a known entity.  An entity that it has as
  its value is known, if values of its attribute count.
-/
structure DatomOf.SpeaksOf
    (A K : Int → Prop)
    (d : Datom) : Prop where
  entity : K d.entity
  value : A d.attr → ∀ n, d.value.isInt n = true → K n

/-
  All entities are known that idents name, that the facts of
  a ledger speak of and that its log is about.
-/
structure Ledger.Covered
    (db : Database)
    (A K : Int → Prop)
    (l : Ledger) : Prop where
  idents : ∀ b ∈ db.idents, K b.2
  datoms : ∀ d ∈ l.datoms, d.SpeaksOf A K
  log : ∀ d ∈ l.log, K d.entity

variable {db : Database}
variable {A K : Int → Prop}
variable {tx : Int}
variable {l after : Ledger}

/- What a search finds is one of the items. -/
theorem Outcome.mem_of_findM?
    {α ε : Type}
    {p : α → Except ε Bool}
    {xs : List α}
    {x : α}
    (h : xs.findM? p = .ok (some x)) : x ∈ xs := by
  induction xs with
  | nil => cases h
  | cons y ys ih =>
      rw [List.findM?] at h
      rcases bind_eq_ok.mp h with ⟨b, _, hRest⟩
      cases b with
      | true =>
          cases hRest
          exact List.mem_cons_self
      | false => exact List.mem_cons_of_mem y (ih hRest)

/- What is looked up is a known entity. -/
theorem Database.known_of_resolve
    {spec : Value}
    (hIdents : ∀ b ∈ db.idents, K b.2)
    (hDatoms : ∀ d ∈ db.datoms, K d.entity)
    (hSpec : ∀ n, spec = .int n → K n)
    {eid : Int}
    (h : db.resolve spec = .ok (some eid)) : K eid := by
  unfold resolve at h
  split at h
  · cases h
    exact hSpec _ rfl
  · rcases Table.mem_of_find? (Except.ok.inj h) with
      ⟨k, hMember, _⟩
    exact hIdents _ hMember
  · split at h
    · rcases bind_eq_ok.mp h with ⟨attr, _, hFound⟩
      unfold entityWith? at hFound
      rcases bind_eq_ok.mp hFound with ⟨found, hFind, hEq⟩
      rw [pure_eq_ok] at hEq
      rcases Option.map_eq_some_iff.mp hEq with ⟨d, rfl, rfl⟩
      exact hDatoms d (Outcome.mem_of_findM? hFind)
    · cases h

namespace Ledger.Covered

/- Retractions leave only facts that were there. -/
theorem of_retractions
    (h : Changes db tx (fun _ => False) l after)
    (hCovered : l.Covered db A K) : after.Covered db A K := by
  refine h.invariant (fun l => l.Covered db A K) ?_ hCovered
  intro l l' hChange hBefore
  cases hChange with
  | enter _ _ _ _ hValue => exact hValue.elim
  | @retract entity attr v origin rest hRest =>
      rcases split_of_withoutFirst? hRest with
        ⟨before, d, later, hSplit, hKept, hStates, _⟩
      have hEntity := (Value.of_states hStates).1
      refine
        ⟨hBefore.idents, fun c hc => hBefore.datoms c ?_, ?_⟩
      · exact (sublist_of_withoutFirst? hRest).subset hc
      · rw [forall_mem_append_singleton]
        refine ⟨hBefore.log, ?_⟩
        change K entity
        rw [← hEntity]
        exact (hBefore.datoms d (by simp [hSplit])).entity

/- Adding a value of known entities leaves all known. -/
theorem add
    {entity : Int}
    {attr : Installed}
    {v : Value}
    (hEntity : K entity)
    (hValue : A attr.eid → ∀ n, v.isInt n = true → K n)
    (h : l.add tx entity attr v = .ok after)
    (hCovered : l.Covered db A K) : after.Covered db A K := by
  have hAppend :
      ∀ (cleared : Ledger) (d : Datom),
        d.entity = entity → d.attr = attr.eid →
          d.value = v → cleared.Covered db A K →
            (cleared.append d).Covered db A K := by
    rintro cleared d rfl hSame rfl hCleared
    refine ⟨hCleared.idents, ?_, ?_⟩
    · refine
        forall_mem_append_singleton.mpr
          ⟨hCleared.datoms, hEntity, hSame ▸ hValue⟩
    · exact
        forall_mem_append_singleton.mpr
          ⟨hCleared.log, hEntity⟩
  unfold Ledger.add at h
  rcases bind_eq_ok.mp h with ⟨present, _, hRest⟩
  split at hRest
  · rw [pure_eq_ok] at hRest
    exact hRest ▸ hCovered
  · dsimp only at hRest
    split at hRest
    · rw [pure_bind, pure_eq_ok] at hRest
      exact hRest ▸ hAppend l _ rfl rfl rfl hCovered
    · rcases bind_eq_ok.mp hRest with ⟨cleared, hClear, hEq⟩
      rw [pure_eq_ok] at hEq
      refine hEq ▸ hAppend cleared _ rfl rfl rfl ?_
      exact of_retractions (retractAll_changes hClear) hCovered

end Ledger.Covered

------------------------------------------------------------
-- Issuing
------------------------------------------------------------

namespace Transacting

/-
  A step that only gives ids to temporary ids, also where it
  fails.  Under a condition, if the ids given by then are
  known, it leaves all entities known, and its result is as
  stated where it does not fail.
-/
def Issuing
    {α : Type}
    (g : Ground)
    (A K : Int → Prop)
    (P : Prop)
    (m : Transacting α)
    (Q : α → Prop) : Prop :=
  ∀ w : Working,
    Issues g.db w.issuance (exec m g w).2.issuance
      ∧ (P →
          (∀ b ∈ (exec m g w).2.tempids, K b.2) →
            w.ledger.Covered g.db A K →
              (exec m g w).2.ledger.Covered g.db A K
                ∧ ∀ a, (exec m g w).1 = .ok a → Q a)

variable {α β : Type}
variable {g : Ground}
variable {P P' : Prop}
variable {Q Q' : α → Prop}
variable {R : β → Prop}

namespace Issuing

/- A step that only returns. -/
theorem pure
    {a : α}
    (h : P → Q a) : Issuing g A K P (Pure.pure a) Q := by
  intro w
  refine ⟨.refl, fun hP _ hCovered => ⟨hCovered, ?_⟩⟩
  intro b hb
  have hEq : a = b := Except.ok.inj hb
  exact hEq ▸ h hP

/- A step that only fails. -/
theorem throw (fault : Fault) :
    Issuing g A K P (MonadExcept.throw fault) Q := by
  intro w
  refine ⟨.refl, fun _ _ hCovered => ⟨hCovered, ?_⟩⟩
  intro a h
  cases h

/- A step that looks at what the transaction starts from. -/
theorem read :
    Issuing g A K P (MonadReader.read : Transacting Ground)
      (fun a => a = g) :=
  fun _ =>
    ⟨.refl, fun _ _ hCovered =>
      ⟨hCovered, fun _ h => (Except.ok.inj h).symm⟩⟩

/- More may be assumed, and less stated. -/
theorem mono
    {m : Transacting α}
    (h : Issuing g A K P m Q)
    (hP : P' → P)
    (hQ : P' → ∀ a, Q a → Q' a) : Issuing g A K P' m Q' := by
  intro w
  rcases h w with ⟨hIssues, hRest⟩
  refine ⟨hIssues, ?_⟩
  intro hP' hTempids hCovered
  rcases hRest (hP hP') hTempids hCovered with ⟨hAfter, hResult⟩
  exact ⟨hAfter, fun a ha => hQ hP' a (hResult a ha)⟩

/-
  One step after the other.  What the first one states may be
  assumed for the second, whose ids are all that are noted in
  the end.
-/
theorem bind
    {m : Transacting α}
    {f : α → Transacting β}
    (hFirst : Issuing g A K P m Q)
    (hNext : ∀ a, Issuing g A K (P ∧ Q a) (f a) R) :
    Issuing g A K P (m >>= f) R := by
  intro w
  rcases hFirst w with ⟨hIssues, hRest⟩
  rw [exec_bind]
  rcases hExec : exec m g w with ⟨fault | a, w'⟩
  · rw [hExec] at hIssues hRest
    refine ⟨hIssues, ?_⟩
    intro hP hTempids hCovered
    refine ⟨(hRest hP hTempids hCovered).1, ?_⟩
    intro a h
    cases h
  · rw [hExec] at hIssues hRest
    rcases hNext a w' with ⟨hLater, hLast⟩
    refine ⟨hIssues.trans hLater, ?_⟩
    intro hP hTempids hCovered
    have hSoFar : ∀ b ∈ w'.tempids, K b.2 :=
      fun b hb =>
        hTempids b (hLater.tempids_prefix.subset hb)
    rcases hRest hP hSoFar hCovered with ⟨hBetween, hResult⟩
    exact hLast ⟨hP, hResult a rfl⟩ hTempids hBetween

/- A step for each item of a list. -/
theorem forM
    {f : α → Transacting Unit}
    {xs : List α}
    (h : ∀ x ∈ xs, Issuing g A K P (f x) (fun _ => True)) :
    Issuing g A K P (xs.forM f) (fun _ => True) := by
  induction xs with
  | nil => exact pure (fun _ => trivial)
  | cons x xs ih =>
      refine bind (h x List.mem_cons_self) ?_
      intro _
      have hRest :=
        ih (fun y hy => h y (List.mem_cons_of_mem x hy))
      exact hRest.mono And.left (fun _ _ h => h)

/- A step for each item of a list, whose results are kept. -/
theorem mapM
    {f : α → Transacting β}
    {xs : List α}
    (h : ∀ x ∈ xs, Issuing g A K P (f x) R) :
    Issuing g A K P (xs.mapM f) (fun ys => ∀ y ∈ ys, R y) := by
  induction xs with
  | nil =>
      rw [List.mapM_nil]
      exact pure (by simp)
  | cons x xs ih =>
      rw [List.mapM_cons]
      refine bind (h x List.mem_cons_self) ?_
      intro y
      have hRest :=
        ih (fun z hz => h z (List.mem_cons_of_mem x hz))
      refine bind (hRest.mono And.left (fun _ _ h => h)) ?_
      intro ys
      refine pure ?_
      rintro ⟨⟨_, hy⟩, hys⟩
      exact List.forall_mem_cons.mpr ⟨hy, hys⟩

end Issuing

------------------------------------------------------------
-- Entities
------------------------------------------------------------

/- Changing the facts gives out no ids. -/
theorem issuing_change
    {f : Ledger → Outcome Ledger}
    (h :
      P → ∀ l after,
        f l = .ok after → l.Covered g.db A K →
          after.Covered g.db A K) :
    Issuing g A K P (change f) (fun _ => True) := by
  intro w
  rw [exec_change]
  rcases hAfter : f w.ledger with fault | after
  · exact
      ⟨.refl, fun _ _ hCovered => ⟨hCovered, fun _ _ => trivial⟩⟩
  · refine ⟨.refl, fun hP _ hCovered => ?_⟩
    exact ⟨h hP _ _ hAfter hCovered, fun _ _ => trivial⟩

/- The attribute that an ident names. -/
theorem issuing_installed (ident : Value) :
    Issuing g A K P (installed ident)
      (fun attr => g.db.installed ident = .ok attr) :=
  fun _ => ⟨.refl, fun _ _ hCovered => ⟨hCovered, fun _ h => h⟩⟩

/- How the entity of a temporary id is found or made. -/
theorem exec_entityOfTempid
    (id : Value)
    (partition : String)
    (w : Working) :
    exec (entityOfTempid id partition) g w =
      match Table.find? id w.tempids with
      | some eid => (.ok eid, w)
      | none =>
          match Database.positionOf? (.str partition)
              g.db.partitions with
          | none =>
              (.error
                (.engine (.unknownPartition (.str partition))),
                w)
          | some index =>
              (.ok (w.allocator.eid index),
                { w with
                  allocator := w.allocator.take index
                  tempids :=
                    Table.put id (w.allocator.eid index)
                      w.tempids }) := by
  have hGet :
      exec (get : Transacting Working) g w = (.ok w, w) := rfl
  have hRead :
      exec (read : Transacting Ground) g w = (.ok g, w) := rfl
  unfold entityOfTempid
  rw [exec_bind, hGet]
  simp only
  rcases Table.find? id w.tempids with _ | eid
  · simp only
    rw [exec_bind, hRead]
    simp only
    rcases Database.positionOf? (.str partition)
      g.db.partitions with _ | index <;> rfl
  · rfl

/- How the entity of any other specification is found. -/
theorem exec_entity_of_ne_tempid
    {spec : Value}
    (h : ∀ partition n, spec ≠ .tempid partition n)
    (w : Working) :
    exec (entity spec) g w =
      (match (g.current w.ledger).resolve spec with
        | .ok (some eid) => .ok eid
        | .ok none => .error (.engine (.unresolved spec))
        | .error fault => .error fault,
        w) := by
  unfold entity
  split
  next partition n => exact absurd rfl (h partition n)
  next =>
    rw [exec_bind]
    change exec (lift ((g.current w.ledger).resolve spec) >>= _)
      g w = _
    rw [exec_bind]
    rcases (g.current w.ledger).resolve spec with
      fault | _ | eid <;> rfl

/-
  The entity of a temporary id is the one noted under it, and
  only if none was noted yet is it given an id.
-/
theorem issuing_entityOfTempid
    (partition : String)
    (n : Int) :
    Issuing g A K P
      (entityOfTempid (.tempid partition n) partition) K := by
  intro w
  rw [exec_entityOfTempid]
  rcases hFound : Table.find? (.tempid partition n) w.tempids
    with _ | eid
  · rcases hPosition :
      Database.positionOf? (.str partition) g.db.partitions
      with _ | index
    · refine ⟨.refl, fun _ _ hCovered => ⟨hCovered, ?_⟩⟩
      intro eid h
      cases h
    · simp only
      rw [Table.put_of_find?_eq_none hFound]
      refine ⟨.single (.issue hFound hPosition), ?_⟩
      intro _ hTempids hCovered
      refine ⟨hCovered, ?_⟩
      intro eid h
      rw [← Except.ok.inj h]
      exact (forall_mem_append_singleton.mp hTempids).2
  · refine ⟨.refl, ?_⟩
    intro _ hTempids hCovered
    refine ⟨hCovered, ?_⟩
    intro eid' h
    rcases Table.mem_of_find? hFound with ⟨k, hMember, _⟩
    rw [← Except.ok.inj h]
    exact hTempids _ hMember

/- The entity that a specification names. -/
theorem issuing_entity
    {spec : Value}
    (h : P → ∀ n, spec = .int n → K n) :
    Issuing g A K P (entity spec) K := by
  by_cases hTempid : ∃ partition n, spec = .tempid partition n
  · rcases hTempid with ⟨partition, n, rfl⟩
    exact issuing_entityOfTempid partition n
  · intro w
    rw [exec_entity_of_ne_tempid
      (fun p n hEq => hTempid ⟨p, n, hEq⟩)]
    refine ⟨.refl, ?_⟩
    intro hP _ hCovered
    refine ⟨hCovered, ?_⟩
    intro eid hEid
    rcases hFound : (g.current w.ledger).resolve spec with
      fault | _ | found
    · rw [hFound] at hEid
      cases hEid
    · rw [hFound] at hEid
      cases hEid
    · rw [hFound] at hEid
      rw [← Except.ok.inj hEid]
      exact
        @Database.known_of_resolve (g.current w.ledger) K spec
          hCovered.idents
          (fun d hd => (hCovered.datoms d hd).entity) (h hP) _
          hFound

/- Whatever a temporary id is resolved to is noted under it. -/
theorem mem_tempids_of_exec_entity
    {partition : String}
    {n eid : Int}
    {w w' : Working}
    (h :
      exec (entity (.tempid partition n)) g w = (.ok eid, w')) :
    (.tempid partition n, eid) ∈ w'.tempids := by
  change exec (entityOfTempid _ partition) g w = _ at h
  rw [exec_entityOfTempid] at h
  rcases hFound : Table.find? (.tempid partition n) w.tempids
    with _ | found
  · rw [hFound] at h
    rcases hPosition :
      Database.positionOf? (.str partition) g.db.partitions
      with _ | index
    · rw [hPosition] at h
      cases h
    · rw [hPosition] at h
      cases h
      rw [Table.put_of_find?_eq_none hFound]
      exact List.mem_append_right _ List.mem_cons_self
  · rw [hFound] at h
    cases h
    rcases Table.mem_of_find? hFound with ⟨k, hMember, hSame⟩
    rw [← (Value.same_bare_right_iff rfl).mp hSame]
    exact hMember

------------------------------------------------------------
-- Values
------------------------------------------------------------

/- A reference is a known entity. -/
theorem issuing_reference
    {v : Value}
    (h : P → ∀ n, v = .int n → K n) :
    Issuing g A K P (reference v)
      (fun x => ∀ n, x.isInt n = true → K n) := by
  have hInt :
      ∀ eid, K eid → ∀ n, (Value.int eid).isInt n = true → K n := by
    intro eid hEid n hn
    rw [Value.isInt, beq_iff_eq] at hn
    exact hn ▸ hEid
  unfold reference
  split
  next eid =>
    exact .pure (fun hP => hInt eid (h hP eid rfl))
  next =>
    refine .bind (issuing_entity h) ?_
    intro eid
    exact .pure (fun hEid => hInt eid hEid.2)

/- The values to store refer to known entities. -/
theorem issuing_values
    (schema : Schema)
    {v : Value}
    (h :
      P → schema.isRef = true →
        ∀ n, Value.int n ∈ spread schema v → K n) :
    Issuing g A K P (values schema v)
      (fun xs => ∀ x ∈ xs,
        schema.isRef = true →
          ∀ n, x.isInt n = true → K n) := by
  unfold values
  split
  next hRef =>
    refine .mapM ?_
    intro x hx
    refine (issuing_reference ?_).mono id (fun _ _ hy _ => hy)
    rintro hP n rfl
    exact h hP hRef n hx
  next hRef =>
    exact .pure (fun _ _ _ hSchema => absurd hSchema hRef)

------------------------------------------------------------
-- Facts
------------------------------------------------------------

/- Adding a value. -/
theorem issuing_add
    {eid : Int}
    {attr : Installed}
    {v : Value}
    (h :
      P → K eid
        ∧ (A attr.eid → ∀ n, v.isInt n = true → K n)) :
    Issuing g A K P (add eid attr v) (fun _ => True) := by
  refine .bind .read ?_
  intro a
  apply issuing_change
  rintro ⟨hP, rfl⟩ l after hAfter hCovered
  exact hCovered.add (h hP).1 (h hP).2 hAfter

/- Retracting a value. -/
theorem issuing_retract
    (eid : Int)
    (attr : Installed)
    (v : Value) :
    Issuing g A K P (retract eid attr v) (fun _ => True) := by
  refine .bind .read ?_
  intro a
  apply issuing_change
  intro _ l after hAfter hCovered
  exact hCovered.of_retractions (Ledger.retract_changes hAfter)

/- Retracting an entity with its parts. -/
theorem issuing_retractEntity (eid : Int) :
    Issuing g A K P (retractEntity eid) (fun _ => True) := by
  refine .bind .read ?_
  intro a
  apply issuing_change
  rintro ⟨_, rfl⟩ l after hAfter hCovered
  exact
    hCovered.of_retractions
      (Ledger.retractEntities_changes hAfter)

/-
  Acting on each value that a value stands for, where a value
  of an attribute that counts is a known entity.
-/
theorem issuing_onValues
    (hA : ∀ a, A a → g.db.isRef a = true)
    {act : Int → Installed → Value → Transacting Unit}
    {eid : Int}
    {attr v : Value}
    (hAct :
      ∀ a x,
        Issuing g A K
          (P ∧ (A a.eid → ∀ n, x.isInt n = true → K n))
          (act eid a x) (fun _ => True))
    (h : P → ∀ n, Value.int n ∈ g.db.referencesIn attr v → K n) :
    Issuing g A K P (onValues act eid attr v)
      (fun _ => True) := by
  refine .bind (issuing_installed attr) ?_
  intro a
  refine .bind (issuing_values a.schema ?_) ?_
  · rintro ⟨hP, hAttr⟩ hRef n hn
    apply h hP n
    rw [Database.referencesIn, hAttr]
    simp only [hRef, if_true]
    exact hn
  · intro xs
    apply Issuing.forM
    intro x hx
    refine (hAct a x).mono ?_ (fun _ _ h => h)
    rintro ⟨⟨hP, hAttr⟩, hValues⟩
    refine ⟨hP, fun hCounts => hValues x hx ?_⟩
    have hRef := hA a.eid hCounts
    rw [Database.isRef, Database.schemaOf?_of_installed hAttr]
      at hRef
    exact hRef

/- Adding values of an entity that is known. -/
theorem issuing_onValues_add
    (hA : ∀ a, A a → g.db.isRef a = true)
    {eid : Int}
    {attr v : Value}
    (hEid : P → K eid)
    (h : P → ∀ n, Value.int n ∈ g.db.referencesIn attr v → K n) :
    Issuing g A K P (onValues add eid attr v)
      (fun _ => True) := by
  refine issuing_onValues hA ?_ h
  intro a x
  exact issuing_add (fun hP => ⟨hEid hP.1, hP.2⟩)

------------------------------------------------------------
-- Items
------------------------------------------------------------

/- Adding an entity to another one. -/
theorem issuing_applyBackward
    {eid : Int}
    (attr : String)
    {v : Value}
    (hEid : P → K eid)
    (h : P → ∀ n, v = .int n → K n) :
    Issuing g A K P (applyBackward eid attr v)
      (fun _ => True) := by
  refine .bind (issuing_entity h) ?_
  intro target
  refine .bind (issuing_installed _) ?_
  intro a
  apply issuing_add
  rintro ⟨⟨hP, hTarget⟩, _⟩
  refine ⟨hTarget, ?_⟩
  intro _ n hn
  rw [Value.isInt, beq_iff_eq] at hn
  exact hn ▸ hEid hP

/- Applying one entry of a map. -/
theorem issuing_applyEntry
    (hA : ∀ a, A a → g.db.isRef a = true)
    {eid : Int}
    {attr v : Value}
    (hEid : P → K eid)
    (h : P → ∀ n, Value.int n ∈ g.db.entrySpecs (attr, v) → K n) :
    Issuing g A K P (applyEntry eid attr v)
      (fun _ => True) := by
  unfold applyEntry
  split
  next name =>
    unfold Database.entrySpecs at h
    split
    · exact .pure (fun _ => trivial)
    next hOther =>
      simp only [hOther, Bool.false_eq_true, if_false] at h
      split
      · split
        next hForward =>
          simp only [hForward, if_true] at h
          exact issuing_onValues_add hA hEid h
        next hTurned =>
          simp only [hTurned, Bool.false_eq_true, if_false] at h
          refine issuing_applyBackward _ hEid ?_
          rintro hP n rfl
          exact h hP n List.mem_cons_self
      · exact .throw _
  · exact .throw _

/- Drawing a temporary id. -/
theorem issuing_drawTempid :
    Issuing g A K P drawTempid
      (fun spec => ∃ partition n, spec = .tempid partition n) :=
  fun _ =>
    ⟨.refl, fun _ _ hCovered =>
      ⟨hCovered, fun _ h => ⟨_, _, (Except.ok.inj h).symm⟩⟩⟩

/- Applying a map. -/
theorem issuing_applyMap
    (hA : ∀ a, A a → g.db.isRef a = true)
    {entries : List (Value × Value)}
    (h :
      P → ∀ n,
        Value.int n ∈ g.db.itemSpecs (.map entries) → K n) :
    Issuing g A K P (applyMap entries) (fun _ => True) := by
  have hEntries :
      ∀ (P' : Prop) (spec : Value),
        (P' → P) → (P' → ∀ n, spec = .int n → K n) →
          Issuing g A K P'
            (do
              let eid ← entity spec
              entries.forM (fun e => applyEntry eid e.1 e.2))
            (fun _ => True) := by
    intro P' spec hP' hSpec
    refine .bind (issuing_entity hSpec) ?_
    intro eid
    apply Issuing.forM
    intro e he
    refine issuing_applyEntry hA And.right ?_
    intro hKnown n hn
    apply h (hP' hKnown.1) n
    exact
      List.mem_append_right _
        (List.mem_flatMap.mpr ⟨e, he, hn⟩)
  unfold applyMap
  rcases hField : Value.field? entries "db/id" with _ | spec
  · refine .bind issuing_drawTempid ?_
    intro spec
    refine hEntries _ spec And.left ?_
    rintro ⟨_, partition, m, rfl⟩ n hn
    cases hn
  · refine hEntries P spec id ?_
    rintro hP n rfl
    apply h hP n
    refine List.mem_append_left _ ?_
    simp [hField]

/- Applying an operation to its operands. -/
theorem issuing_applyOperation
    (hA : ∀ a, A a → g.db.isRef a = true)
    (op : Operation)
    {name : Value}
    {operands : List Value}
    {item : Value}
    (hMap : ∀ entries, item ≠ .map entries)
    (hItem : item.sequence? = some (name :: operands))
    (h : P → ∀ n, Value.int n ∈ g.db.itemSpecs item → K n) :
    Issuing g A K P (applyOperation op operands item)
      (fun _ => True) := by
  have hSpecs :
      g.db.itemSpecs item =
        match some (name :: operands) with
        | some [_, spec, attr, v] =>
            spec :: g.db.referencesIn attr v
        | some [_, spec] => [spec]
        | _ => [] := by
    unfold Database.itemSpecs
    split
    next entries => exact absurd rfl (hMap entries)
    next => rw [hItem]
  unfold applyOperation
  split
  next spec attr v =>
    rw [hSpecs] at h
    refine .bind (issuing_entity ?_) ?_
    · rintro hP n rfl
      exact h hP n List.mem_cons_self
    · intro eid
      refine issuing_onValues_add hA And.right ?_
      exact fun hP n hn => h hP.1 n (List.mem_cons_of_mem _ hn)
  next spec attr v =>
    rw [hSpecs] at h
    refine .bind (issuing_entity ?_) ?_
    · rintro hP n rfl
      exact h hP n List.mem_cons_self
    · intro eid
      refine issuing_onValues hA (fun a x => ?_) ?_
      · exact issuing_retract eid a x
      · exact fun hP n hn => h hP.1 n (List.mem_cons_of_mem _ hn)
  next spec =>
    rw [hSpecs] at h
    refine .bind (issuing_entity ?_) ?_
    · rintro hP n rfl
      exact h hP n List.mem_cons_self
    · intro eid
      exact issuing_retractEntity eid
  · exact .throw _
  · exact .throw _

/- Applying one item of transaction data. -/
theorem issuing_applyItem
    (hA : ∀ a, A a → g.db.isRef a = true)
    {item : Value}
    (h : P → ∀ n, Value.int n ∈ g.db.itemSpecs item → K n) :
    Issuing g A K P (applyItem item) (fun _ => True) := by
  unfold applyItem
  split
  · exact issuing_applyMap hA h
  next hMap =>
    split
    next hItems =>
      split
      · exact issuing_applyOperation hA _ hMap hItems h
      · exact .throw _
    · exact .throw _

end Transacting

end FactBase
