import FactBase.Fact.Transaction
import FactBase.Proofs.Fact.Change
import FactBase.Proofs.Fact.Database

/-
  This file shows what transaction data can do to the state
  of a transaction, whether it is carried out to its end or
  fails on the way: the facts go through changes, and ids
  are only ever taken.

  Key definitions include:
    * `Value.Inherited`
    * `Working.Advances`
    * `Transacting.Advancing`

  Key theorems include:
    * `Transacting.Advancing.bind`
    * `Transacting.exec_change`
    * `Transacting.advancing_onValues`
    * `Transacting.advancing_applyItem`
-/

------------------------------------------------------------
-- Sorts of Values
------------------------------------------------------------

namespace FactBase

open Sorting

/-
  A sort of values that whatever a value is made of inherits
  from it.  Ids and instants are of every such sort, because
  transactions enter them by themselves.
-/
structure Value.Inherited (V : Value → Prop) : Prop where
  int : ∀ n : Int, V (.int n)
  instant : ∀ micros : Int, V (.instant micros)
  items :
    ∀ {v : Value} {items : List Value},
      V v → v.items? = some items → ∀ x ∈ items, V x
  entries :
    ∀ {entries : List (Value × Value)},
      V (.map entries) → ∀ e ∈ entries, V e.2

/- The items of a sequence are its members. -/
theorem Value.items?_of_sequence?
    {v : Value}
    {items : List Value}
    (h : v.sequence? = some items) :
    v.items? = some items := by
  cases v <;> simp_all [Value.sequence?, Value.items?]

------------------------------------------------------------
-- Advancing
------------------------------------------------------------

/-
  One state of a transaction comes after another: the facts
  went through changes, and no id was given back.
-/
structure Working.Advances
    (g : Ground)
    (V : Value → Prop)
    (before after : Working) : Prop where
  ledger :
    Ledger.Changes g.db g.tx V before.ledger after.ledger
  allocator :
    ∀ p, before.allocator.next p ≤ after.allocator.next p

namespace Working.Advances

variable {g : Ground}
variable {V : Value → Prop}
variable {u v w : Working}

/- Nothing has happened. -/
theorem refl (w : Working) : Advances g V w w where
  ledger := .refl
  allocator := fun _ => Nat.le_refl _

/- One advance after the other. -/
theorem trans
    (h : Advances g V u v)
    (h' : Advances g V v w) : Advances g V u w where
  ledger := h.ledger.trans h'.ledger
  allocator := fun p =>
    Nat.le_trans (h.allocator p) (h'.allocator p)

end Working.Advances

namespace Transacting

/- Carry out a step of a transaction. -/
def exec
    {α : Type}
    (m : Transacting α)
    (g : Ground)
    (w : Working) : Outcome α × Working :=
  (m.run g).run w

/-
  A step that only advances the state, also where it fails,
  and whose result is as stated where it does not.
-/
def Advancing
    {α : Type}
    (g : Ground)
    (V : Value → Prop)
    (m : Transacting α)
    (Q : α → Prop) : Prop :=
  ∀ w : Working,
    w.Advances g V (exec m g w).2
      ∧ ∀ a, (exec m g w).1 = .ok a → Q a

variable {α β : Type}
variable {g : Ground}
variable {V : Value → Prop}
variable {Q : α → Prop}
variable {R : β → Prop}

/- A step that is followed by another. -/
theorem exec_bind
    (m : Transacting α)
    (f : α → Transacting β)
    (w : Working) :
    exec (m >>= f) g w =
      match exec m g w with
      | (.ok a, w') => exec (f a) g w'
      | (.error fault, w') => (.error fault, w') := by
  change
    ExceptT.bindCont (fun a => (f a).run g) (exec m g w).1
        (exec m g w).2 = _
  rcases exec m g w with ⟨_ | _, _⟩ <;> rfl

namespace Advancing

/- A step that only returns. -/
theorem pure
    {a : α}
    (h : Q a) : Advancing g V (Pure.pure a) Q := by
  intro w
  refine ⟨.refl w, ?_⟩
  intro b hb
  have hEq : a = b := Except.ok.inj hb
  exact hEq ▸ h

/- A step that only fails. -/
theorem throw (fault : Fault) :
    Advancing g V (MonadExcept.throw fault) Q := by
  intro w
  refine ⟨.refl w, ?_⟩
  intro a h
  cases h

/- A step that takes over an outcome. -/
theorem lift
    {outcome : Outcome α}
    (h : ∀ a, outcome = .ok a → Q a) :
    Advancing g V (Transacting.lift outcome) Q :=
  fun w => ⟨.refl w, fun a ha => h a ha⟩

/- A step whose result is as stated is also as stated less. -/
theorem weaken
    {m : Transacting α}
    {P : α → Prop}
    (h : Advancing g V m Q)
    (hQ : ∀ a, Q a → P a) : Advancing g V m P :=
  fun w => ⟨(h w).1, fun a ha => hQ a ((h w).2 a ha)⟩

/- A step that looks at what the transaction starts from. -/
theorem read :
    Advancing g V (MonadReader.read : Transacting Ground)
      (fun a => a = g) :=
  fun w => ⟨.refl w, fun _ h => (Except.ok.inj h).symm⟩

/- A step that looks at the state. -/
theorem get :
    Advancing g V (MonadState.get : Transacting Working)
      (fun _ => True) :=
  fun w => ⟨.refl w, fun _ _ => trivial⟩

/- One step after the other. -/
theorem bind
    {m : Transacting α}
    {f : α → Transacting β}
    (hFirst : Advancing g V m Q)
    (hNext : ∀ a, Q a → Advancing g V (f a) R) :
    Advancing g V (m >>= f) R := by
  intro w
  rcases hFirst w with ⟨hAdvance, hResult⟩
  rw [exec_bind]
  rcases hExec : exec m g w with ⟨fault | a, w'⟩
  · rw [hExec] at hAdvance
    refine ⟨hAdvance, ?_⟩
    intro a h
    cases h
  · rw [hExec] at hAdvance hResult
    have hLater := hNext a (hResult a rfl) w'
    exact ⟨hAdvance.trans hLater.1, hLater.2⟩

/- A step for each item of a list. -/
theorem forM
    {f : α → Transacting Unit}
    {xs : List α}
    (h : ∀ x ∈ xs, Advancing g V (f x) (fun _ => True)) :
    Advancing g V (xs.forM f) (fun _ => True) := by
  induction xs with
  | nil => exact pure trivial
  | cons x xs ih =>
      refine bind (h x List.mem_cons_self) ?_
      intro _ _
      exact ih (fun y hy => h y (List.mem_cons_of_mem x hy))

/- A step for each item of a list, whose results are kept. -/
theorem mapM
    {f : α → Transacting β}
    {xs : List α}
    (h : ∀ x ∈ xs, Advancing g V (f x) R) :
    Advancing g V (xs.mapM f) (fun ys => ∀ y ∈ ys, R y) := by
  induction xs with
  | nil =>
      rw [List.mapM_nil]
      exact pure (by simp)
  | cons x xs ih =>
      rw [List.mapM_cons]
      refine bind (h x List.mem_cons_self) ?_
      intro y hy
      have hRest :=
        ih (fun z hz => h z (List.mem_cons_of_mem x hz))
      refine bind hRest ?_
      intro ys hys
      exact pure (List.forall_mem_cons.mpr ⟨hy, hys⟩)

end Advancing

------------------------------------------------------------
-- Single Steps
------------------------------------------------------------

/- Changing the facts fails as the change of the ledger does. -/
theorem exec_change
    (f : Ledger → Outcome Ledger)
    (g : Ground)
    (w : Working) :
    exec (change f) g w =
      match f w.ledger with
      | .ok l => (.ok (), { w with ledger := l })
      | .error fault => (.error fault, w) := by
  unfold change
  rw [exec_bind]
  change
    (match exec (lift (f w.ledger) >>= _) g w with
      | r => r) = _
  rw [exec_bind]
  rcases f w.ledger with _ | _ <;> rfl

/- Changing the facts by what a ledger offers. -/
theorem advancing_change
    {f : Ledger → Outcome Ledger}
    (h :
      ∀ l after,
        f l = .ok after → Ledger.Changes g.db g.tx V l after) :
    Advancing g V (change f) (fun _ => True) := by
  intro w
  rw [exec_change]
  rcases hAfter : f w.ledger with fault | after
  · exact ⟨.refl w, fun _ _ => trivial⟩
  · exact
      ⟨⟨h _ _ hAfter, fun _ => Nat.le_refl _⟩, fun _ _ => trivial⟩

/- The attribute that an ident names is an installed one. -/
theorem advancing_installed (ident : Value) :
    Advancing g V (installed ident)
      (fun attr => g.db.installed ident = .ok attr) := by
  refine .bind .read ?_
  intro a ha
  subst ha
  exact .lift (fun _ h => h)

/- Taking an id. -/
theorem advancing_allocate (partition : Nat) :
    Advancing g V (allocate partition) (fun _ => True) := by
  intro w
  refine ⟨⟨.refl, ?_⟩, fun _ _ => trivial⟩
  intro p
  change w.allocator.next p ≤ (w.allocator.take partition).next p
  by_cases h : p = partition
  · subst h
    rw [Allocator.next_take_self]
    omega
  · exact Nat.le_of_eq (Allocator.next_take_of_ne _ h).symm

/- Noting the entity of a temporary id. -/
theorem advancing_note
    (f : List (Value × Int) → List (Value × Int)) :
    Advancing g V
      (modify (fun w => { w with tempids := f w.tempids }))
      (fun _ => True) :=
  fun _ => ⟨⟨.refl, fun _ => Nat.le_refl _⟩, fun _ _ => trivial⟩

/- The entity of a temporary id. -/
theorem advancing_entityOfTempid
    (id : Value)
    (partition : String) :
    Advancing g V (entityOfTempid id partition)
      (fun _ => True) := by
  refine .bind .get ?_
  intro w _
  cases Table.find? id w.tempids with
  | some eid => exact .pure trivial
  | none =>
      refine .bind .read ?_
      intro a ha
      subst ha
      simp only
      cases Database.positionOf? (.str partition)
          a.db.partitions with
      | none => exact .throw _
      | some index =>
          refine .bind (advancing_allocate index) ?_
          intro eid _
          refine .bind (advancing_note _) ?_
          intro _ _
          exact .pure trivial

/- The entity that a specification names. -/
theorem advancing_entity (spec : Value) :
    Advancing g V (entity spec) (fun _ => True) := by
  unfold entity
  split
  · exact advancing_entityOfTempid _ _
  · refine .bind .read ?_
    intro a _
    refine .bind .get ?_
    intro w _
    refine .bind (.lift (fun _ _ => trivial)) ?_
    intro found _
    cases found with
    | none => exact .throw _
    | some eid => exact .pure trivial

------------------------------------------------------------
-- Values
------------------------------------------------------------

/- What a value is spread to is of its sort. -/
theorem forall_spread
    (hV : Value.Inherited V)
    (schema : Schema)
    {v : Value}
    (h : V v) :
    ∀ x ∈ spread schema v, V x := by
  unfold spread
  split
  · exact hV.items h rfl
  · exact hV.items h rfl
  · exact hV.items h rfl
  · simpa using h

/- A reference is an id. -/
theorem advancing_reference
    (hV : Value.Inherited V)
    (v : Value) :
    Advancing g V (reference v)
      (fun x => V x ∧ ∃ n : Int, x = .int n) := by
  unfold reference
  split
  · exact .pure ⟨hV.int _, _, rfl⟩
  · refine .bind (advancing_entity _) ?_
    intro eid _
    exact .pure ⟨hV.int eid, eid, rfl⟩

/-
  The values to store are of the sort of what was given, and
  where they are entities, they are ids.
-/
theorem advancing_values
    (hV : Value.Inherited V)
    (schema : Schema)
    {v : Value}
    (h : V v) :
    Advancing g V (values schema v)
      (fun vs => ∀ x ∈ vs,
        V x ∧ (schema.isRef = true → ∃ n : Int, x = .int n)) := by
  unfold values
  split
  next _ =>
    refine .mapM (fun x _ => ?_)
    exact
      (advancing_reference hV x).weaken
        (fun _ hy => ⟨hy.1, fun _ => hy.2⟩)
  next hRef =>
    refine .pure (fun x hx => ⟨forall_spread hV schema h x hx, ?_⟩)
    exact fun hSchema => absurd hSchema hRef

------------------------------------------------------------
-- Facts
------------------------------------------------------------

/- Adding a value. -/
theorem advancing_add
    (eid : Int)
    {attr : Installed}
    {v : Value}
    (hAttr : g.db.schemaOf? attr.eid = some attr.schema)
    (hTakes : attr.Takes g.tx eid v)
    (hValue : V v) :
    Advancing g V (add eid attr v) (fun _ => True) := by
  refine .bind .read ?_
  intro a ha
  subst ha
  apply advancing_change
  intro l after h
  exact Ledger.add_changes hAttr hTakes hValue h

/- Retracting a value. -/
theorem advancing_retract
    (eid : Int)
    (attr : Installed)
    (v : Value) :
    Advancing g V (retract eid attr v) (fun _ => True) := by
  refine .bind .read ?_
  intro a ha
  subst ha
  apply advancing_change
  intro l after h
  exact Ledger.retract_changes h

/- Retracting an entity with its parts. -/
theorem advancing_retractEntity (eid : Int) :
    Advancing g V (retractEntity eid) (fun _ => True) := by
  refine .bind .read ?_
  intro a ha
  subst ha
  apply advancing_change
  intro l after h
  exact Ledger.retractEntities_changes h

/- Acting on each value that a value stands for. -/
theorem advancing_onValues
    (hV : Value.Inherited V)
    {act : Int → Installed → Value → Transacting Unit}
    (hAct :
      ∀ eid attr v,
        g.db.schemaOf? attr.eid = some attr.schema →
          attr.Takes g.tx eid v → V v →
            Advancing g V (act eid attr v) (fun _ => True))
    (eid : Int)
    (attr : Value)
    {v : Value}
    (h : V v) :
    Advancing g V (onValues act eid attr v)
      (fun _ => True) := by
  refine .bind (advancing_installed attr) ?_
  intro a ha
  refine .bind (advancing_values hV a.schema h) ?_
  intro vs hvs
  apply Advancing.forM
  intro x hx
  exact
    hAct eid a x (Database.schemaOf?_of_installed ha)
      (fun hRef => .inl ((hvs x hx).2 hRef)) (hvs x hx).1

------------------------------------------------------------
-- Items
------------------------------------------------------------

/- Adding an entity to another one. -/
theorem advancing_applyBackward
    (hV : Value.Inherited V)
    (eid : Int)
    (attr : String)
    (v : Value) :
    Advancing g V (applyBackward eid attr v)
      (fun _ => True) := by
  refine .bind (advancing_entity v) ?_
  intro target _
  refine .bind (advancing_installed _) ?_
  intro a ha
  exact
    advancing_add target (Database.schemaOf?_of_installed ha)
      (fun _ => .inl ⟨eid, rfl⟩) (hV.int eid)

/- Applying one entry of a map. -/
theorem advancing_applyEntry
    (hV : Value.Inherited V)
    (eid : Int)
    (attr : Value)
    {v : Value}
    (h : V v) :
    Advancing g V (applyEntry eid attr v)
      (fun _ => True) := by
  unfold applyEntry
  split
  · split
    · exact .pure trivial
    · split
      · split
        · refine advancing_onValues hV ?_ eid _ h
          intro eid attr v hAttr hTakes hValue
          exact advancing_add eid hAttr hTakes hValue
        · exact advancing_applyBackward hV eid _ v
      · exact .throw _
  · exact .throw _

/- Drawing a temporary id. -/
theorem advancing_drawTempid :
    Advancing g V drawTempid (fun _ => True) :=
  fun _ => ⟨⟨.refl, fun _ => Nat.le_refl _⟩, fun _ _ => trivial⟩

/- Applying a map. -/
theorem advancing_applyMap
    (hV : Value.Inherited V)
    {entries : List (Value × Value)}
    (h : V (.map entries)) :
    Advancing g V (applyMap entries) (fun _ => True) := by
  have hEntries :
      ∀ spec, Advancing g V
        (do
          let eid ← entity spec
          entries.forM (fun e => applyEntry eid e.1 e.2))
        (fun _ => True) := by
    intro spec
    refine .bind (advancing_entity spec) ?_
    intro eid _
    apply Advancing.forM
    intro e he
    exact advancing_applyEntry hV eid e.1 (hV.entries h e he)
  unfold applyMap
  cases Value.field? entries "db/id" with
  | some spec => exact hEntries spec
  | none =>
      refine .bind advancing_drawTempid ?_
      intro spec _
      exact hEntries spec

/- Applying an operation on one fact. -/
theorem advancing_applyFact
    (hV : Value.Inherited V)
    {act : Int → Installed → Value → Transacting Unit}
    (hAct :
      ∀ eid attr v,
        g.db.schemaOf? attr.eid = some attr.schema →
          attr.Takes g.tx eid v → V v →
            Advancing g V (act eid attr v) (fun _ => True))
    (spec attr : Value)
    {v : Value}
    (h : V v) :
    Advancing g V (applyFact act spec attr v)
      (fun _ => True) := by
  refine .bind (advancing_entity spec) ?_
  intro eid _
  exact advancing_onValues hV hAct eid attr h

/- Applying an operation to its operands. -/
theorem advancing_applyOperation
    (hV : Value.Inherited V)
    (op : Operation)
    {operands : List Value}
    (item : Value)
    (h : ∀ x ∈ operands, V x) :
    Advancing g V (applyOperation op operands item)
      (fun _ => True) := by
  unfold applyOperation
  split
  · refine advancing_applyFact hV ?_ _ _ (h _ (by simp))
    intro eid attr v hAttr hTakes hValue
    exact advancing_add eid hAttr hTakes hValue
  · refine advancing_applyFact hV ?_ _ _ (h _ (by simp))
    intro eid attr v _ _ _
    exact advancing_retract eid attr v
  · refine .bind (advancing_entity _) ?_
    intro eid _
    exact advancing_retractEntity eid
  · exact .throw _
  · exact .throw _

/- Applying one item of transaction data. -/
theorem advancing_applyItem
    (hV : Value.Inherited V)
    {item : Value}
    (h : V item) :
    Advancing g V (applyItem item) (fun _ => True) := by
  unfold applyItem
  split
  · exact advancing_applyMap hV h
  · split
    next hItems =>
      split
      · apply advancing_applyOperation hV
        intro x hx
        have hAll :=
          hV.items h (Value.items?_of_sequence? hItems)
        exact hAll x (List.mem_cons_of_mem _ hx)
      · exact .throw _
    · exact .throw _

end Transacting

end FactBase
