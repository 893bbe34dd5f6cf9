import FactBase.Proofs.Fact.Issuing
import FactBase.Proofs.Fact.Lookup
import FactBase.Proofs.Fact.Twin

/-
  This file shows that a transaction that failed does not
  matter to later ones.  The ids that it took stay taken, so
  the next transaction is another entity, and it starts at a
  later instant; but data that neither draws ids nor speaks of
  transactions leads to the same database with either.

  Key definitions include:
    * `Value.Contains`
    * `Value.Clear`
    * `Transacting.Mirrored`
    * `TxResult.Twin`
    * `Database.KeepsBootstrap`
    * `Value.Independent`

  Key theorems include:
    * `Transacting.Mirrored.bind`
    * `Transacting.mirrored_entity`
    * `Transacting.mirrored_applyItem`
    * `Engine.alike_transact`
    * `Engine.RunOf.transact_after_failure`
-/

------------------------------------------------------------
-- Clear Values
------------------------------------------------------------

namespace FactBase

open Sorting
open Bootstrap
open Moment (Misses)

namespace Value

/-
  The values that stand within a value: itself, what it is
  made of, and what that is made of in turn.  The items of a
  list that stands inside itself are those it has where it is
  unrolled.
-/
inductive Contains (v : Value) : Value → Prop where
  | self : Contains v v
  | part
      {w x : Value}
      (h : Contains v w)
      (hPart : x ∈ w.parts) : Contains v x
  | item
      {w x : Value}
      {items : List Value}
      (h : Contains v w)
      (hItems : w.sequence? = some items)
      (hItem : x ∈ items) : Contains v x

/- What stands within something within a value is within it. -/
theorem Contains.trans
    {v w x : Value}
    (h : v.Contains w)
    (hInner : w.Contains x) : v.Contains x := by
  induction hInner with
  | self => exact h
  | part _ hPart ih => exact ih.part hPart
  | item _ hItems hItem ih => exact ih.item hItems hItem

/-
  Nothing within the value is either of two transactions, is a
  temporary id, or looks up a transaction by its instant.
-/
structure Clear
    (db : Database)
    (attr : Int)
    (m n : Moment)
    (v : Value) : Prop where
  misses : ∀ x, v.Contains x → Misses m n x
  named :
    ∀ partition serial,
      ¬v.Contains (.tempid partition serial)
  lookup : ∀ x, v.Contains x → db.looksUp attr x = false

variable {db : Database}
variable {attr : Int}
variable {m n : Moment}
variable {v x : Value}

/- What stands within a clear value is clear. -/
theorem Clear.within
    (h : v.Clear db attr m n)
    (hx : v.Contains x) : x.Clear db attr m n where
  misses := fun y hy => h.misses y (hx.trans hy)
  named := fun partition serial hTempid =>
    h.named partition serial (hx.trans hTempid)
  lookup := fun y hy => h.lookup y (hx.trans hy)

/- The parts of a clear value are clear. -/
theorem Clear.part
    (h : v.Clear db attr m n)
    (hx : x ∈ v.parts) : x.Clear db attr m n :=
  h.within (.part .self hx)

/-
  A value that is no list inside itself is clear if it is so
  by itself and its parts are clear.
-/
theorem clear_iff
    (h : ∀ items, v.sequence? = some items → items = v.parts) :
    v.Clear db attr m n ↔
      Misses m n v
        ∧ (∀ partition serial, v ≠ .tempid partition serial)
        ∧ db.looksUp attr v = false
        ∧ ∀ x ∈ v.parts, x.Clear db attr m n := by
  constructor
  · intro hClear
    refine
      ⟨hClear.misses v .self, ?_, hClear.lookup v .self,
        fun x hx => hClear.part hx⟩
    rintro partition serial rfl
    exact hClear.named partition serial .self
  · rintro ⟨hMisses, hNamed, hLookup, hParts⟩
    have hCases :
        ∀ x, v.Contains x →
          x = v ∨ ∃ p ∈ v.parts, p.Contains x := by
      intro x hx
      induction hx with
      | self => exact .inl rfl
      | part _ hPart ih =>
          rcases ih with rfl | ⟨p, hp, hInner⟩
          · exact .inr ⟨_, hPart, .self⟩
          · exact .inr ⟨p, hp, hInner.part hPart⟩
      | item _ hItems hItem ih =>
          rcases ih with rfl | ⟨p, hp, hInner⟩
          · exact .inr ⟨_, h _ hItems ▸ hItem, .self⟩
          · exact .inr ⟨p, hp, hInner.item hItems hItem⟩
    refine ⟨?_, ?_, ?_⟩
    · intro x hx
      rcases hCases x hx with rfl | ⟨p, hp, hInner⟩
      · exact hMisses
      · exact (hParts p hp).misses x hInner
    · intro partition serial hTempid
      rcases hCases _ hTempid with hSelf | ⟨p, hp, hInner⟩
      · exact hNamed partition serial hSelf.symm
      · exact (hParts p hp).named partition serial hInner
    · intro x hx
      rcases hCases x hx with rfl | ⟨p, hp, hInner⟩
      · exact hLookup
      · exact (hParts p hp).lookup x hInner

/- A text is clear. -/
theorem clear_str (s : String) :
    (Value.str s).Clear db attr m n :=
  (clear_iff (v := .str s) (fun _ h => nomatch h)).mpr
    ⟨⟨rfl, rfl⟩, nofun, rfl, fun _ h => nomatch h⟩

/- A list is clear if its items are and it looks nothing up. -/
theorem clear_list_iff {items : List Value} :
    (Value.list items).Clear db attr m n ↔
      db.looksUp attr (.list items) = false
        ∧ ∀ x ∈ items, x.Clear db attr m n := by
  rw [clear_iff (v := .list items)
    (fun _ hItems => (Option.some.inj hItems).symm)]
  exact
    ⟨fun h => h.2.2, fun h => ⟨⟨rfl, rfl⟩, nofun, h.1, h.2⟩⟩

/- A tuple is clear if its items are and it looks nothing up. -/
theorem clear_tuple_iff {items : List Value} :
    (Value.tuple items).Clear db attr m n ↔
      db.looksUp attr (.tuple items) = false
        ∧ ∀ x ∈ items, x.Clear db attr m n := by
  rw [clear_iff (v := .tuple items)
    (fun _ hItems => (Option.some.inj hItems).symm)]
  exact
    ⟨fun h => h.2.2, fun h => ⟨⟨rfl, rfl⟩, nofun, h.1, h.2⟩⟩

/- A map is clear if its keys and values are. -/
theorem clear_map_iff {entries : List (Value × Value)} :
    (Value.map entries).Clear db attr m n ↔
      ∀ x ∈ (Value.map entries).parts, x.Clear db attr m n := by
  rw [clear_iff (v := .map entries) (fun _ h => nomatch h)]
  exact
    ⟨fun h => h.2.2.2, fun h => ⟨⟨rfl, rfl⟩, nofun, rfl, h⟩⟩

/- The items of a clear sequence are clear. -/
theorem Clear.item
    (h : v.Clear db attr m n)
    {items : List Value}
    (hItems : v.sequence? = some items)
    (hx : x ∈ items) : x.Clear db attr m n :=
  h.within (.item .self hItems hx)

end Value

------------------------------------------------------------
-- Steps in Two Transactions
------------------------------------------------------------

/- Two transactions have the same facts and temporary ids. -/
structure Working.Twin
    (attr : Int)
    (m n : Moment)
    (w w' : Working) : Prop where
  ledger : w.ledger.Twin attr m n w'.ledger
  tempids : w.tempids = w'.tempids

namespace Transacting

/-
  The step does the same in two transactions: both fail alike,
  or both have one result, as stated, and go on alike.
-/
def Mirrored
    {α : Type}
    (db : Database)
    (attr : Int)
    (m n : Moment)
    (s : Transacting α)
    (Q : α → Prop) : Prop :=
  ∀ w w' : Working, w.Twin attr m n w' →
    (exec s ⟨db, m.tx⟩ w).1 = (exec s ⟨db, n.tx⟩ w').1
      ∧ ∀ a, (exec s ⟨db, m.tx⟩ w).1 = .ok a →
          Q a ∧ (exec s ⟨db, m.tx⟩ w).2.Twin attr m n
            (exec s ⟨db, n.tx⟩ w').2

variable {α β : Type}
variable {db : Database}
variable {attr : Int}
variable {m n : Moment}
variable {Q : α → Prop}
variable {R : β → Prop}

namespace Mirrored

/- A step that only returns. -/
theorem pure
    {a : α}
    (h : Q a) : Mirrored db attr m n (Pure.pure a) Q := by
  intro w w' hTwin
  refine ⟨rfl, ?_⟩
  intro b hb
  have hEq : a = b := Except.ok.inj hb
  exact ⟨hEq ▸ h, hTwin⟩

/- A step that only fails. -/
theorem throw (fault : Fault) :
    Mirrored db attr m n (MonadExcept.throw fault) Q :=
  fun _ _ _ => ⟨rfl, nofun⟩

/- One step after the other. -/
theorem bind
    {s : Transacting α}
    {f : α → Transacting β}
    (hFirst : Mirrored db attr m n s Q)
    (hNext : ∀ a, Q a → Mirrored db attr m n (f a) R) :
    Mirrored db attr m n (s >>= f) R := by
  intro w w' hTwin
  rcases hFirst w w' hTwin with ⟨hSame, hOk⟩
  rw [exec_bind, exec_bind]
  rcases hExec : exec s ⟨db, m.tx⟩ w with ⟨r, v⟩
  rcases hExec' : exec s ⟨db, n.tx⟩ w' with ⟨r', v'⟩
  rw [hExec, hExec'] at hSame hOk
  cases hSame
  cases r with
  | error fault => exact ⟨rfl, nofun⟩
  | ok a =>
      rcases hOk a rfl with ⟨hResult, hLater⟩
      exact hNext a hResult v v' hLater

/- A step for each item of a list. -/
theorem forM
    {f : α → Transacting Unit}
    {xs : List α}
    (h :
      ∀ x ∈ xs, Mirrored db attr m n (f x) (fun _ => True)) :
    Mirrored db attr m n (xs.forM f) (fun _ => True) := by
  induction xs with
  | nil => exact pure trivial
  | cons x xs ih =>
      refine bind (h x List.mem_cons_self) ?_
      intro _ _
      exact ih (fun y hy => h y (List.mem_cons_of_mem x hy))

/- A step for each item of a list, whose results are kept. -/
theorem mapM
    {f : α → Transacting β}
    {xs : List α}
    (h : ∀ x ∈ xs, Mirrored db attr m n (f x) R) :
    Mirrored db attr m n (xs.mapM f)
      (fun ys => ∀ y ∈ ys, R y) := by
  induction xs with
  | nil =>
      rw [List.mapM_nil]
      exact pure (by simp)
  | cons x xs ih =>
      rw [List.mapM_cons]
      refine bind (h x List.mem_cons_self) ?_
      intro y hy
      have hRest :=
        ih (fun z hz => h z (List.mem_cons_of_mem x hz))
      refine bind hRest ?_
      intro ys hys
      exact pure (List.forall_mem_cons.mpr ⟨hy, hys⟩)

end Mirrored

/- Changing the facts in a way that leads to twins. -/
theorem mirrored_change
    {f : Ground → Ledger → Outcome Ledger}
    (h :
      ∀ l l' : Ledger, l.Twin attr m n l' →
        Outcome.Alike (Ledger.Twin attr m n)
          (f ⟨db, m.tx⟩ l) (f ⟨db, n.tx⟩ l')) :
    Mirrored db attr m n
      (do
        let g ← read
        change (f g))
      (fun _ => True) := by
  have hStep :
      ∀ (g : Ground) (w : Working),
        exec (do change (f (← read))) g w
          = exec (change (f g)) g w :=
    fun _ _ => rfl
  intro w w' hTwin
  rw [hStep, hStep, exec_change, exec_change]
  have hAlike := h _ _ hTwin.ledger
  generalize f ⟨db, m.tx⟩ w.ledger = r at hAlike
  generalize f ⟨db, n.tx⟩ w'.ledger = r' at hAlike
  cases hAlike with
  | ok hLedger =>
      exact ⟨rfl, fun _ _ => ⟨trivial, hLedger, hTwin.tempids⟩⟩
  | error fault => exact ⟨rfl, nofun⟩

/- The attribute that an ident names. -/
theorem mirrored_installed (ident : Value) :
    Mirrored db attr m n (installed ident)
      (fun _ => True) := by
  intro w w' hTwin
  rw [exec_installed, exec_installed]
  exact ⟨rfl, fun _ _ => ⟨trivial, hTwin⟩⟩

------------------------------------------------------------
-- Entities and Values
------------------------------------------------------------

variable {v spec : Value}

/- The entity that a clear specification names. -/
theorem mirrored_entity
    (hTexts : db.TextsMiss m n)
    (h : spec.Clear db attr m n) :
    Mirrored db attr m n (entity spec)
      (fun eid => Misses m n (.int eid)) := by
  have hNamed :
      ∀ partition serial, spec ≠ .tempid partition serial := by
    rintro partition serial rfl
    exact h.named partition serial .self
  intro w w' hTwin
  rw [exec_entity_of_ne_tempid hNamed,
    exec_entity_of_ne_tempid hNamed]
  have hFound :=
    Database.resolve_twin hTwin.ledger hTexts
      (h.misses _ .self) (h.lookup _ .self) m.tx n.tx
  generalize Database.resolve _ spec = r at hFound
  generalize Database.resolve _ spec = r' at hFound
  cases hFound with
  | error fault => exact ⟨rfl, nofun⟩
  | @ok found _ hBoth =>
      rcases hBoth with ⟨rfl, hMisses⟩
      cases found with
      | none => exact ⟨rfl, nofun⟩
      | some eid =>
          refine ⟨rfl, ?_⟩
          rintro _ ⟨⟩
          exact ⟨hMisses eid rfl, hTwin⟩

/- A reference that a clear value stands for. -/
theorem mirrored_reference
    (hTexts : db.TextsMiss m n)
    (h : v.Clear db attr m n) :
    Mirrored db attr m n (reference v) (Misses m n) := by
  unfold reference
  split
  · exact .pure (h.misses _ .self)
  · refine .bind (mirrored_entity hTexts h) ?_
    intro eid hMisses
    exact .pure hMisses

/- What a clear value is spread to is clear. -/
theorem clear_of_mem_spread
    (h : v.Clear db attr m n)
    (schema : Schema) :
    ∀ x ∈ spread schema v, x.Clear db attr m n := by
  unfold spread
  split
  · exact fun x hx => h.part hx
  · exact fun x hx => h.part hx
  · exact fun x hx => h.part hx
  · exact List.forall_mem_singleton.mpr h

/- The values to store for a clear value. -/
theorem mirrored_values
    (hTexts : db.TextsMiss m n)
    (h : v.Clear db attr m n)
    (schema : Schema) :
    Mirrored db attr m n (values schema v)
      (fun vs => ∀ x ∈ vs, Misses m n x) := by
  have hSpread := clear_of_mem_spread h schema
  unfold values
  split
  · exact
      .mapM (fun x hx =>
        mirrored_reference hTexts (hSpread x hx))
  · exact .pure (fun x hx => (hSpread x hx).misses _ .self)

------------------------------------------------------------
-- Facts
------------------------------------------------------------

variable {eid : Int}

/- Adding a value. -/
theorem mirrored_add
    (a : Installed)
    (hEntity : Misses m n (.int eid))
    (hValue : Misses m n v) :
    Mirrored db attr m n (add eid a v) (fun _ => True) :=
  mirrored_change (fun _ _ hTwin => hTwin.add hEntity hValue a)

/- Retracting a value. -/
theorem mirrored_retract
    (a : Installed)
    (hEntity : Misses m n (.int eid))
    (hValue : Misses m n v) :
    Mirrored db attr m n (retract eid a v) (fun _ => True) :=
  mirrored_change (fun _ _ hTwin =>
    hTwin.retract hEntity hValue hTwin.nextOrigin.1
      hTwin.nextOrigin.2)

/- Retracting an entity with its parts. -/
theorem mirrored_retractEntity
    (hAttr : db.isRef attr = false)
    (hEntity : Misses m n (.int eid)) :
    Mirrored db attr m n (retractEntity eid)
      (fun _ => True) :=
  mirrored_change (fun _ _ hTwin =>
    hTwin.retractEntities hAttr
      (List.forall_mem_singleton.mpr hEntity))

/- Acting on each value that a clear value stands for. -/
theorem mirrored_onValues
    {act : Int → Installed → Value → Transacting Unit}
    (hAct :
      ∀ {eid : Int} {x : Value} (a : Installed),
        Misses m n (.int eid) → Misses m n x →
          Mirrored db attr m n (act eid a x) (fun _ => True))
    (hTexts : db.TextsMiss m n)
    (hEntity : Misses m n (.int eid))
    (name : Value)
    (h : v.Clear db attr m n) :
    Mirrored db attr m n (onValues act eid name v)
      (fun _ => True) := by
  refine .bind (mirrored_installed name) ?_
  intro a _
  refine .bind (mirrored_values hTexts h a.schema) ?_
  intro vs hvs
  exact .forM (fun x hx => hAct a hEntity (hvs x hx))

/- Applying one entry of a map. -/
theorem mirrored_applyEntry
    (hTexts : db.TextsMiss m n)
    (hEntity : Misses m n (.int eid))
    (name : Value)
    (h : v.Clear db attr m n) :
    Mirrored db attr m n (applyEntry eid name v)
      (fun _ => True) := by
  unfold applyEntry
  split
  · split
    · exact .pure trivial
    · split
      · split
        · exact
            mirrored_onValues mirrored_add hTexts hEntity _ h
        · refine .bind (mirrored_entity hTexts h) ?_
          intro target hTarget
          refine .bind (mirrored_installed _) ?_
          intro a _
          exact mirrored_add a hTarget hEntity
      · exact .throw _
  · exact .throw _

/- Applying a map that names its entity. -/
theorem mirrored_applyMap
    (hTexts : db.TextsMiss m n)
    {entries : List (Value × Value)}
    (h : (Value.map entries).Clear db attr m n)
    (hId : Value.hasField entries "db/id" = true) :
    Mirrored db attr m n (applyMap entries)
      (fun _ => True) := by
  have hEntry :
      ∀ e ∈ entries, e.2.Clear db attr m n := by
    intro e he
    refine h.part ?_
    exact List.mem_append_right _ (List.mem_map_of_mem he)
  unfold applyMap
  rcases Option.isSome_iff_exists.mp hId with ⟨spec, hSpec⟩
  rcases Table.mem_of_find? hSpec with ⟨k, hMem, _⟩
  rw [hSpec]
  refine .bind (.pure rfl : Mirrored db attr m n _ (· = spec)) ?_
  rintro _ rfl
  refine .bind (mirrored_entity hTexts (hEntry _ hMem)) ?_
  intro eid hEntity
  exact
    .forM (fun e he =>
      mirrored_applyEntry hTexts hEntity e.1 (hEntry e he))

/- Applying an operation on one fact. -/
theorem mirrored_applyFact
    {act : Int → Installed → Value → Transacting Unit}
    (hAct :
      ∀ {eid : Int} {x : Value} (a : Installed),
        Misses m n (.int eid) → Misses m n x →
          Mirrored db attr m n (act eid a x) (fun _ => True))
    (hTexts : db.TextsMiss m n)
    (hSpec : spec.Clear db attr m n)
    (name : Value)
    (h : v.Clear db attr m n) :
    Mirrored db attr m n (applyFact act spec name v)
      (fun _ => True) := by
  refine .bind (mirrored_entity hTexts hSpec) ?_
  intro eid hEntity
  exact mirrored_onValues hAct hTexts hEntity name h

/- Applying an operation to clear operands. -/
theorem mirrored_applyOperation
    (hTexts : db.TextsMiss m n)
    (hAttr : db.isRef attr = false)
    (op : Operation)
    {operands : List Value}
    (h : ∀ x ∈ operands, x.Clear db attr m n)
    (item : Value) :
    Mirrored db attr m n (applyOperation op operands item)
      (fun _ => True) := by
  unfold applyOperation
  split
  · simp only [List.forall_mem_cons] at h
    exact mirrored_applyFact mirrored_add hTexts h.1 _ h.2.2.1
  · simp only [List.forall_mem_cons] at h
    exact
      mirrored_applyFact mirrored_retract hTexts h.1 _ h.2.2.1
  · simp only [List.forall_mem_cons] at h
    refine .bind (mirrored_entity hTexts h.1) ?_
    intro eid hEntity
    exact mirrored_retractEntity hAttr hEntity
  · exact .throw _
  · exact .throw _

/- Applying one clear item, which draws no temporary id. -/
theorem mirrored_applyItem
    (hTexts : db.TextsMiss m n)
    (hAttr : db.isRef attr = false)
    {item : Value}
    (h : item.Clear db attr m n)
    (hId :
      ∀ entries, item = .map entries →
        Value.hasField entries "db/id" = true) :
    Mirrored db attr m n (applyItem item)
      (fun _ => True) := by
  unfold applyItem
  split
  · exact mirrored_applyMap hTexts h (hId _ rfl)
  · split
    next name operands hItems =>
      have hOperands :
          ∀ x ∈ operands, x.Clear db attr m n := fun x hx =>
        h.item hItems (List.mem_cons_of_mem _ hx)
      split
      · exact mirrored_applyOperation hTexts hAttr _ hOperands _
      · exact .throw _
    · exact .throw _

end Transacting

------------------------------------------------------------
-- Engines
------------------------------------------------------------

/- In a table by distinct numbers, each finds its entry. -/
theorem Table.find?_int_of_mem
    {α : Type}
    {entries : List (α × Int)}
    (h : (entries.map Prod.snd).Nodup)
    {a : α × Int}
    (ha : a ∈ entries) :
    find? (.int a.2)
        (entries.map (fun (x, n) => (Value.int n, x)))
      = some a.1 := by
  induction entries with
  | nil => cases ha
  | cons b rest ih =>
      rw [List.map_cons, List.nodup_cons] at h
      rw [List.map_cons, find?, Value.same_int_right,
        Value.isInt]
      rcases List.mem_cons.mp ha with rfl | ha
      · simp
      · have hOther : ¬(a.2 == b.2) = true := by
          rw [beq_iff_eq]
          intro hSame
          exact h.1 (hSame ▸ List.mem_map_of_mem ha)
        rw [if_neg hOther]
        exact ih h.2 ha

/- Two results are the same, but for facts that are twins. -/
structure TxResult.Twin
    (attr : Int)
    (m n : Moment)
    (r r' : TxResult) : Prop where
  before : r.before = r'.before
  after : r.after.Twin attr m n r'.after
  facts : List.Forall₂ (DatomOf.Twin attr m n) r.facts r'.facts
  tempids : r.tempids = r'.tempids

/- The attribute of instants. -/
def Bootstrap.instantAttr : Int := attributeId "db/txInstant"

namespace Database

/- No fact is about either transaction or refers to it. -/
def Misses
    (m n : Moment)
    (db : Database) : Prop :=
  ∀ d ∈ db.datoms,
    m.Misses n (.int d.entity) ∧ m.Misses n d.value

/-
  The idents and the attributes of the first database are
  there as they were.
-/
structure KeepsBootstrap (db : Database) : Prop where
  idents :
    ∀ b ∈ Bootstrap.idents,
      Table.find? b.1 db.idents = some b.2
  attributes :
    ∀ a ∈ attributeIds, db.schemaOf? a.2 = some a.1

variable {db : Database}

/- An attribute of the first database is installed. -/
theorem KeepsBootstrap.installed
    (h : db.KeepsBootstrap)
    {a : Schema × Int}
    (ha : a ∈ attributeIds) :
    db.installed (.str a.1.ident)
      = .ok { eid := a.2, schema := a.1 } := by
  refine installed_eq_ok.mpr ⟨rfl, ?_, h.attributes a ha⟩
  refine h.idents (.str a.1.ident, a.2) ?_
  exact List.mem_append_right _ (List.mem_map.mpr ⟨a, ha, rfl⟩)

/- So one can be found by its ident, with its entity. -/
theorem KeepsBootstrap.exists_installed
    (h : db.KeepsBootstrap)
    (name : String)
    (eid : Int)
    (hListed :
      ∃ a ∈ attributeIds, a.1.ident = name ∧ a.2 = eid) :
    ∃ a, db.installed (.str name) = .ok a ∧ a.eid = eid := by
  rcases hListed with ⟨a, ha, rfl, rfl⟩
  exact ⟨_, h.installed ha, rfl⟩

/- The attribute of instants is installed, and no reference. -/
theorem KeepsBootstrap.instant
    (h : db.KeepsBootstrap) :
    (∃ a, db.installed (.str "db/txInstant") = .ok a
        ∧ a.eid = instantAttr)
      ∧ db.isRef instantAttr = false := by
  have hListed :
      (plain "db/txInstant" .instant, instantAttr)
        ∈ attributeIds :=
    List.mem_of_getElem? (rfl : attributeIds[9]? = some _)
  refine ⟨⟨_, h.installed hListed, rfl⟩, ?_⟩
  rw [isRef, h.attributes _ hListed]
  rfl

/- The other attributes that matter are installed elsewhere. -/
theorem KeepsBootstrap.installsElsewhere
    (h : db.KeepsBootstrap) :
    db.InstallsElsewhere instantAttr := by
  have hListed :
      ∀ name ∈
          ["db/ident", "db.install/attribute",
            "db.install/partition"],
        ∃ b ∈ attributeIds,
          b.1.ident = name ∧ b.2 ≠ instantAttr := by
    decide +kernel
  intro name hName a ha
  rcases hListed name hName with ⟨b, hb, rfl, hOther⟩
  rw [h.installed hb, Except.ok.injEq] at ha
  exact ha ▸ hOther

/- The first database has its idents and attributes. -/
theorem keepsBootstrap_database (instant : Int) :
    (database instant).KeepsBootstrap where
  idents := by
    change
      ∀ b ∈ Bootstrap.idents,
        Table.find? b.1 Bootstrap.idents = some b.2
    decide +kernel
  attributes := by
    have hDistinct : (attributeIds.map Prod.snd).Nodup := by
      decide +kernel
    exact fun a ha => Table.find?_int_of_mem hDistinct ha

/- The attribute of idents keeps its name. -/
theorem KeepsBootstrap.namesIdents
    (h : db.KeepsBootstrap) : db.NamesIdents :=
  h.idents (.str "db/ident", identAttr)
    (List.mem_of_getElem? (rfl : Bootstrap.idents[3]? = some _))

/-
  If every text names a carrier and no fact is about either
  transaction, then no text names either of them.
-/
theorem Misses.textsMiss
    {m n : Moment}
    (h : db.Misses m n)
    (hTells : ∀ s, db.TellsIdent s) : db.TextsMiss m n := by
  intro s eid hFound
  rcases (hTells s).owned eid hFound with ⟨d, hd, _, rfl⟩
  exact (h d hd).1

end Database

/-
  Transaction data that does the same whichever of two
  transactions it is committed by: it is clear of both, and
  its maps say which entity they describe.
-/
structure Value.Independent
    (db : Database)
    (attr : Int)
    (m n : Moment)
    (data : Value) : Prop where
  clear : data.Clear db attr m n
  identified :
    ∀ items, data.sequence? = some items →
      ∀ entries, .map entries ∈ items →
        Value.hasField entries "db/id" = true

namespace Engine

/- The entity and the instant of the next transaction. -/
def moment (e : Engine) : Moment where
  tx := e.ground.tx
  instant := e.clock e.ticks

/-
  Two engines with one database come to the same by data that
  is independent of their next transactions.
-/
theorem alike_transact
    {e f : Engine}
    (hDb : f.db = e.db)
    {instant : Installed}
    (hInstant :
      e.db.installed (.str "db/txInstant") = .ok instant)
    (hAttr : e.db.isRef instant.eid = false)
    (hElsewhere : e.db.InstallsElsewhere instant.eid)
    (hTexts : e.db.TextsMiss e.moment f.moment)
    (hMisses : e.db.Misses e.moment f.moment)
    {data : Value}
    (hData :
      data.Independent e.db instant.eid e.moment f.moment) :
    Outcome.Alike
      (TxResult.Twin instant.eid e.moment f.moment)
      (e.transact data).1 (f.transact data).1 := by
  unfold transact
  cases hItems : data.sequence? with
  | none => exact .error _
  | some items =>
  have hGround : e.ground = ⟨e.db, e.moment.tx⟩ := rfl
  have hGround' : f.ground = ⟨e.db, f.moment.tx⟩ := by
    unfold ground
    rw [hDb]
    rfl
  have hNew : ∀ d ∈ e.db.datoms, d.entity ≠ e.ground.tx :=
    fun d hd => (Moment.misses_int_iff.mp (hMisses d hd).1).1
  have hNew' : ∀ d ∈ f.db.datoms, d.entity ≠ f.ground.tx := by
    rw [hDb]
    exact fun d hd =>
      (Moment.misses_int_iff.mp (hMisses d hd).1).2
  have hStart :
      Working.Twin instant.eid e.moment f.moment
        { e.opened with
          ledger :=
            (Ledger.ofDatabase e.db).append
              (e.timeFact instant) }
        { f.opened with
          ledger :=
            (Ledger.ofDatabase f.db).append
              (f.timeFact instant) } := by
    have hStored :
        List.Forall₂
          (DatomOf.Twin instant.eid e.moment f.moment)
          e.db.datoms f.db.datoms := by
      rw [hDb, List.forall₂_same]
      exact fun d hd =>
        DatomOf.twin_refl (hMisses d hd).1 (hMisses d hd).2
    refine ⟨⟨List.rel_append hStored ?_, ?_⟩, rfl⟩ <;>
      exact .cons .instant .nil
  have hItem :
      ∀ item ∈ items,
        Transacting.Mirrored e.db instant.eid e.moment f.moment
          (Transacting.applyItem item) (fun _ => True) := by
    intro item hItem
    refine
      Transacting.mirrored_applyItem hTexts hAttr
        (hData.clear.item hItems hItem) ?_
    rintro entries rfl
    exact hData.identified items hItems entries hItem
  have hRun := Transacting.Mirrored.forM hItem _ _ hStart
  change
    Outcome.Alike _ (e.transactItems items).1
      (f.transactItems items).1
  rw [fst_transactItems, fst_transactItems,
    exec_steps hInstant hNew,
    exec_steps (hDb ▸ hInstant) hNew', hGround, hGround']
  generalize
    Transacting.exec (items.forM Transacting.applyItem)
      ⟨e.db, e.moment.tx⟩ _ = run at hRun ⊢
  generalize
    Transacting.exec (items.forM Transacting.applyItem)
      ⟨e.db, f.moment.tx⟩ _ = run' at hRun ⊢
  rcases run with ⟨r, w⟩
  rcases run' with ⟨r', w'⟩
  rcases hRun with ⟨hSame, hOk⟩
  cases hSame
  cases r with
  | error fault => exact .error fault
  | ok _ =>
      rcases (hOk _ rfl).2 with ⟨hLedger, hTempids⟩
      rw [hDb]
      refine
        (Database.afterLog_twin hLedger hElsewhere).bind ?_
      intro after after' hAfter
      exact .ok ⟨rfl, hAfter, hLedger.log, hTempids⟩

/-
  In every engine that a run leads to that leaves the idents
  and the attributes of the first database as they were, a
  transaction that fails leaves the database alone.  Later
  data that is independent of the transaction it is committed
  by comes to the same after the failure as without it: it
  fails alike, or it leads to the same idents, attributes and
  partitions and to facts that differ at most in the entity
  and the instant of that transaction.
-/
theorem RunOf.transact_after_failure
    {clock : Nat → Int}
    {e : Engine}
    (h :
      RunOf (fun r => r.after.KeepsBootstrap) (start clock) e)
    {failing : Value}
    {fault : Fault}
    (hFails : (e.transact failing).1 = .error fault) :
    (e.transact failing).2.db = e.db
      ∧ ∀ data : Value,
          e.db.Misses e.moment (e.transact failing).2.moment →
          data.Independent e.db instantAttr e.moment
            (e.transact failing).2.moment →
            Outcome.Alike
              (TxResult.Twin instantAttr e.moment
                (e.transact failing).2.moment)
              (e.transact data).1
              ((e.transact failing).2.transact data).1 := by
  have hDb := db_transact_of_error hFails
  refine ⟨hDb, ?_⟩
  intro data hMisses hData
  have hKeeps : e.db.KeepsBootstrap :=
    h.invariant Database.KeepsBootstrap
      (fun _ _ _ _ hAfter _ => hAfter)
      (Database.keepsBootstrap_database _)
  have hNames :
      RunOf (fun r => r.after.NamesIdents) (start clock) e :=
    h.weaken (fun _ hAfter => hAfter.namesIdents)
  have hTells : ∀ s, e.db.TellsIdent s := fun s =>
    hNames.invariant (Database.TellsIdent s)
      (fun _ _ _ hCommits hAfter hSoFar =>
        hSoFar.after hCommits hAfter)
      (Database.tellsIdent_database s _).1
  rcases hKeeps.instant with ⟨⟨instant, hInstant, hId⟩, hAttr⟩
  have hElsewhere := hKeeps.installsElsewhere
  rw [← hId] at hAttr hElsewhere hData ⊢
  exact
    alike_transact hDb hInstant hAttr hElsewhere
      (hMisses.textsMiss hTells) hMisses hData

/-
  Transaction data that fails at its second item, once an id
  was taken for its first.
-/
def failingData : Value :=
  .list
    [ .list
        [ .str "db/add", .tempid "db.part/user" (-1)
        , .str "db/doc", .str "lost" ]
    , .list
        [.str "db/add", .int 0, .str "user/none", .null] ]

/-
  Transaction data that looks an entity up, describes another
  one by a map, and retracts a value of a third.
-/
def quietData : Value :=
  .list
    [ .list
        [ .str "db/add"
        , .tuple [.str "db/ident", .str "db/doc"]
        , .str "db/doc", .str "what an entity is" ]
    , .map
        [ (.str "db/id", .str "db/index")
        , (.str "db/doc", .str "whether it is indexed") ]
    , .list
        [ .str "db/retract", .str "db/noHistory"
        , .str "db/cardinality", .str "db.cardinality/one" ] ]

/- The engine before the failure. -/
def soundEngine : Engine := start (fun n => n)

/- The engine after it. -/
def shakenEngine : Engine :=
  (soundEngine.transact failingData).2

/- The data is independent of both next transactions. -/
theorem independent_quietData :
    quietData.Independent soundEngine.db instantAttr
      soundEngine.moment shakenEngine.moment := by
  have hLookup :
      soundEngine.db.looksUp instantAttr
          (.tuple [.str "db/ident", .str "db/doc"]) = false := by
    decide +kernel
  constructor
  · simp only [quietData, Value.clear_list_iff,
      Value.clear_tuple_iff, Value.clear_map_iff,
      Value.clear_str, Value.parts, List.map_cons,
      List.map_nil, List.cons_append, List.nil_append,
      List.forall_mem_cons, List.not_mem_nil,
      IsEmpty.forall_iff, implies_true, true_and, and_true]
    exact ⟨rfl, ⟨rfl, hLookup⟩, rfl⟩
  · rintro _ ⟨⟩ entries hEntries
    simp only [List.mem_cons, Value.map.injEq, reduceCtorEq,
      List.not_mem_nil, false_or, or_false] at hEntries
    subst hEntries
    decide +kernel

/- No fact speaks of either transaction. -/
theorem misses_soundEngine :
    soundEngine.db.Misses soundEngine.moment
      shakenEngine.moment := by
  have hApart :
      ∀ d ∈ soundEngine.db.datoms,
        ∀ v ∈ [.int d.entity, d.value],
          v.isInt soundEngine.moment.tx = false
            ∧ v.isInt shakenEngine.moment.tx = false := by
    decide +kernel
  intro d hd
  have hBoth := hApart d hd
  simp only [List.forall_mem_cons] at hBoth
  exact
    ⟨⟨hBoth.1.1, hBoth.1.2⟩, ⟨hBoth.2.1.1, hBoth.2.1.2⟩⟩

/-
  The data succeeds before the failure, so it does afterwards,
  and comes to the same.
-/
theorem transact_after_failure_quietData :
    shakenEngine.db = soundEngine.db
      ∧ soundEngine.moment.tx ≠ shakenEngine.moment.tx
      ∧ (soundEngine.transact quietData).1.toOption.isSome
        = true
      ∧ Outcome.Alike
          (TxResult.Twin instantAttr soundEngine.moment
            shakenEngine.moment)
          (soundEngine.transact quietData).1
          (shakenEngine.transact quietData).1 := by
  have hNone :
      (soundEngine.transact failingData).1.toOption.isNone
        = true := by
    decide +kernel
  rcases hResult : (soundEngine.transact failingData).1 with
    fault | r
  · have hLater :=
      RunOf.transact_after_failure
        (.refl : RunOf _ (start (fun n => n)) soundEngine)
        hResult
    exact
      ⟨hLater.1, by decide +kernel, by decide +kernel,
        hLater.2 quietData misses_soundEngine
          independent_quietData⟩
  · rw [hResult] at hNone
    cases hNone

end Engine

end FactBase
