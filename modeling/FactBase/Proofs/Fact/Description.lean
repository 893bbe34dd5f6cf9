import FactBase.Proofs.Fact.Freshness

/-
  This file compares a map that describes an entity with the
  list of items that add its entries one after the other.
  The map looks its entity up once and the items look it up
  each time, but the entity of an id, of an ident or of a
  temporary id stays the same throughout a transaction.  So
  both do the same, but for one case: where the first entry
  turns its attribute around and its value names no entity,
  both fail, and only the map has taken an id by then.

  Key definitions include:
    * `Transacting.turnedAround?`
    * `Transacting.additionOf`
    * `Database.Describes`
    * `Ground.LeadsNowhere`

  Key theorems include:
    * `Transacting.exec_entity_again`
    * `Transacting.exec_applyEntry_eq`
    * `Transacting.exec_applyEntries_eq`
    * `Transacting.exec_additionOf_ahead`
    * `Transacting.exec_map_eq_exec_additions`
-/

------------------------------------------------------------
-- Maps and Additions
------------------------------------------------------------

namespace FactBase

open Sorting

/-
  A value whose entity does not hang on the facts: an integer,
  which a truth value also is, a text or a temporary id.
-/
inductive Value.NamesAlone : Value → Prop where
  | int (n : Int) : NamesAlone (.int n)
  | bool (b : Bool) : NamesAlone (.bool b)
  | str (s : String) : NamesAlone (.str s)
  | tempid (partition : String) (n : Int) :
      NamesAlone (.tempid partition n)

namespace Transacting

/-
  The attribute that a name stands for, where the name turns
  it around.
-/
def turnedAround? (attr : Value) : Option String :=
  match attr with
  | .str name =>
      if Keyword.forward name == name then none
      else some (Keyword.forward name)
  | _ => none

/- The item that adds a value of an entity. -/
def addition (spec attr v : Value) : Value :=
  .tuple [.str "db/add", spec, attr, v]

/-
  The item that adds an entry of a map.  An attribute that is
  turned around belongs to the entity that the value names.
-/
def additionOf
    (spec : Value)
    (entry : Value × Value) : Value :=
  match turnedAround? entry.1 with
  | none => addition spec entry.1 entry.2
  | some attr => addition entry.2 (.str attr) spec

/- The entries of a map that say something of its entity. -/
def statements
    (entries : List (Value × Value)) : List (Value × Value) :=
  entries.filter (fun e => e.1.str? != some "db/id")

/- The items that add the entries of a map, in their order. -/
def additions
    (spec : Value)
    (entries : List (Value × Value)) : List Value :=
  (statements entries).map (additionOf spec)

end Transacting

/-
  An entry of a map that names its entity, or a keyword with
  a value.  A keyword that is turned around stands for an
  attribute whose values are entities, and its value is no
  temporary id.
-/
inductive Database.Describes (db : Database) :
    Value × Value → Prop where
  | id (spec : Value) : Describes db (.str "db/id", spec)
  | forward
      {name : String}
      (hKeyword : Keyword.isKeyword name = true)
      (hForward : Transacting.turnedAround? (.str name) = none)
      (v : Value) : Describes db (.str name, v)
  | backward
      {name attr : String}
      {a : Installed}
      {v : Value}
      (hKeyword : Keyword.isKeyword name = true)
      (hTurned :
        Transacting.turnedAround? (.str name) = some attr)
      (hInstalled : db.installed (.str attr) = .ok a)
      (hRef : a.schema.isRef = true)
      (hNamed : ∀ partition n, v ≠ .tempid partition n) :
      Describes db (.str name, v)

/- An attribute that is seen to refer to entities does. -/
theorem Database.exists_installed_ref
    {db : Database}
    {ident : Value}
    (h :
      (db.installed ident).toOption.any
        (fun a => a.schema.isRef) = true) :
    ∃ a, db.installed ident = .ok a
      ∧ a.schema.isRef = true := by
  rcases hInstalled : db.installed ident with fault | a
  · rw [hInstalled] at h
    cases h
  · rw [hInstalled] at h
    exact ⟨a, rfl, h⟩

/-
  The first entry of a map turns its attribute around, and no
  entity is found for its value.
-/
def Ground.LeadsNowhere
    (g : Ground)
    (l : Ledger)
    (entries : List (Value × Value)) : Prop :=
  ∃ e ∈ (Transacting.statements entries).head?,
    (Transacting.turnedAround? e.1).isSome = true
      ∧ ∀ eid, (g.current l).resolve e.2 ≠ .ok (some eid)

------------------------------------------------------------
-- Entities that Stay
------------------------------------------------------------

namespace Transacting

variable {g : Ground}
variable {w w' : Working}
variable {spec : Value}
variable {eid : Int}

/- Looking an entity up leaves the facts alone. -/
theorem ledger_exec_entity (spec : Value) :
    (exec (entity spec) g w).2.ledger = w.ledger := by
  by_cases hTempid : ∃ partition n, spec = .tempid partition n
  · rcases hTempid with ⟨partition, n, rfl⟩
    change (exec (entityOfTempid _ partition) g w).2.ledger = _
    rw [exec_entityOfTempid]
    rcases Table.find? (.tempid partition n) w.tempids with
      _ | found
    · rcases Database.positionOf? (.str partition)
        g.db.partitions with _ | index <;> rfl
    · rfl
  · rw [exec_entity_of_ne_tempid
      (fun p n hEq => hTempid ⟨p, n, hEq⟩)]

/- A value that is no temporary id takes no id. -/
theorem exec_entity_eq_self
    (h : ∀ partition n, spec ≠ .tempid partition n)
    (hLedger : w'.ledger = w.ledger) :
    exec (entity spec) g w' = ((exec (entity spec) g w).1, w') := by
  rw [exec_entity_of_ne_tempid h, exec_entity_of_ne_tempid h,
    hLedger]

/- What was noted under a key is found in what came of it. -/
theorem find?_of_prefix
    {α : Type}
    {key : Value}
    {x : α}
    {table later : List (Value × α)}
    (hPrefix : table <+: later)
    (h : Table.find? key table = some x) :
    Table.find? key later = some x := by
  rcases hPrefix with ⟨rest, rfl⟩
  rw [Table.find?_append, h, Option.some_or]

/-
  An entity that was looked up is found again, with no id
  taken, as long as what was noted stays noted.
-/
theorem exec_entity_again
    (hSpec : spec.NamesAlone)
    (h : exec (entity spec) g w = (.ok eid, w'))
    {later : Working}
    (hLater : w'.tempids <+: later.tempids) :
    exec (entity spec) g later = (.ok eid, later) := by
  have hResolved :
      (∀ partition n, spec ≠ .tempid partition n) →
        (g.current later.ledger).resolve spec
            = (g.current w.ledger).resolve spec →
          exec (entity spec) g later = (.ok eid, later) := by
    intro hNe hSame
    rw [exec_entity_of_ne_tempid hNe] at h ⊢
    rw [hSame]
    exact congrArg (·, later) (congrArg Prod.fst h)
  cases hSpec with
  | int n => exact hResolved (by simp) rfl
  | bool b => exact hResolved (by simp) rfl
  | str s => exact hResolved (by simp) rfl
  | tempid partition n =>
      have hNoted :
          Table.find? (.tempid partition n) w'.tempids
            = some eid := by
        change exec (entityOfTempid _ partition) g w = _ at h
        rw [exec_entityOfTempid] at h
        rcases hFound :
          Table.find? (.tempid partition n) w.tempids with
          _ | found
        · rcases hPosition :
            Database.positionOf? (.str partition)
              g.db.partitions with _ | index
          · rw [hFound, hPosition] at h
            cases h
          · rw [hFound, hPosition] at h
            cases h
            exact Table.find?_put _ _ _ (Value.same_refl _)
        · rw [hFound] at h
          cases h
          exact hFound
      change exec (entityOfTempid _ partition) g later = _
      rw [exec_entityOfTempid, find?_of_prefix hLater hNoted]

/- A step for the first item of a list, then for the others. -/
theorem exec_forM_cons
    {α : Type}
    (f : α → Transacting Unit)
    (x : α)
    (xs : List α) :
    exec ((x :: xs).forM f) g w =
      match exec (f x) g w with
      | (.ok _, w') => exec (xs.forM f) g w'
      | (.error fault, w') => (.error fault, w') := by
  change exec (f x >>= fun _ => xs.forM f) g w = _
  rw [exec_bind]
  rcases exec (f x) g w with ⟨_ | _, _⟩ <;> rfl

/- Items take back nothing that was noted. -/
theorem tempids_prefix_applyItem
    (item : Value)
    (w : Working) :
    w.tempids <+: (exec (applyItem item) g w).2.tempids := by
  have hIssues :
      Issuing g (fun _ => False) (fun _ => True) True
        (applyItem item) (fun _ => True) :=
    issuing_applyItem (fun _ h => h.elim)
      (fun _ _ _ => trivial)
  exact Issuance.Issues.tempids_prefix (hIssues w).1

------------------------------------------------------------
-- Single Entries
------------------------------------------------------------

/- Applying an addition is to find the entity and to add. -/
theorem applyItem_addition (spec attr v : Value) :
    applyItem (addition spec attr v) = applyFact add spec attr v := by
  rfl

/- A reference that names an entity alone is that entity. -/
theorem exec_reference
    (hSpec : spec.NamesAlone) :
    exec (reference spec) g w =
      ((exec (entity spec) g w).1.map Value.int,
        (exec (entity spec) g w).2) := by
  have hBind :
      exec (entity spec >>= fun eid => pure (.int eid)) g w =
        ((exec (entity spec) g w).1.map Value.int,
          (exec (entity spec) g w).2) := by
    rw [exec_bind]
    rcases exec (entity spec) g w with ⟨_ | _, _⟩ <;> rfl
  cases hSpec with
  | int n => rfl
  | bool b => exact hBind
  | str s => exact hBind
  | tempid partition n => exact hBind

/- The values that it is stored as are that entity alone. -/
theorem exec_values
    (hSpec : spec.NamesAlone)
    {schema : Schema}
    (hRef : schema.isRef = true) :
    exec (values schema spec) g w =
      ((exec (entity spec) g w).1.map (fun eid => [.int eid]),
        (exec (entity spec) g w).2) := by
  have hSpread : spread schema spec = [spec] := by
    cases hSpec <;> (unfold spread; split <;> simp_all)
  unfold values
  rw [if_pos hRef, hSpread, List.mapM_cons, exec_bind,
    exec_reference hSpec]
  rcases exec (entity spec) g w with ⟨_ | _, _⟩ <;> rfl

/-
  Adding an entity to the one that a value names is to look
  up that one and the attribute, and then the entity itself.
-/
theorem exec_applyItem_backward
    (hSpec : spec.NamesAlone)
    {attr : String}
    {a : Installed}
    (hInstalled : g.db.installed (.str attr) = .ok a)
    (hRef : a.schema.isRef = true)
    {v : Value}
    (hNamed : ∀ partition n, v ≠ .tempid partition n) :
    exec (applyItem (addition v (.str attr) spec)) g w =
      match (exec (entity v) g w).1 with
      | .error fault => (.error fault, w)
      | .ok target =>
          match exec (entity spec) g w with
          | (.error fault, w') => (.error fault, w')
          | (.ok eid, w') =>
              exec (add target a (.int eid)) g w' := by
  rw [applyItem_addition]
  unfold applyFact
  rw [exec_bind, exec_entity_eq_self hNamed rfl]
  rcases (exec (entity v) g w).1 with fault | target
  · rfl
  · simp only
    unfold onValues
    rw [exec_bind, exec_installed, hInstalled]
    simp only
    rw [exec_bind, exec_values hSpec hRef]
    rcases exec (entity spec) g w with ⟨fault | eid, w'⟩
    · rfl
    · exact exec_forM_singleton _ _

/- What an entry does is what the item that adds it does. -/
theorem exec_applyEntry_eq
    (hSpec : spec.NamesAlone)
    (hKnown : exec (entity spec) g w = (.ok eid, w))
    {entry : Value × Value}
    (hEntry : g.db.Describes entry)
    (hStates : entry.1.str? ≠ some "db/id") :
    exec (applyEntry eid entry.1 entry.2) g w
      = exec (applyItem (additionOf spec entry)) g w := by
  cases hEntry with
  | id spec => exact absurd rfl hStates
  | @forward name hKeyword hForward v =>
      have hId : (name == "db/id") = false := by
        simpa [Value.str?] using hStates
      have hSame : (Keyword.forward name == name) = true := by
        by_contra h
        simp [turnedAround?, h] at hForward
      unfold additionOf applyEntry
      rw [hForward]
      simp only [hId, hKeyword, hSame, Bool.false_eq_true,
        if_false, if_true]
      rw [applyItem_addition]
      unfold applyFact
      rw [exec_bind, hKnown]
  | @backward name attr a v hKeyword hTurned hInstalled hRef
      hNamed =>
      have hId : (name == "db/id") = false := by
        simpa [Value.str?] using hStates
      have hTurn :
          (Keyword.forward name == name) = false
            ∧ Keyword.forward name = attr := by
        by_cases h : (Keyword.forward name == name) = true
        · simp [turnedAround?, h] at hTurned
        · exact
            ⟨Bool.not_eq_true _ ▸ h, by
              simpa [turnedAround?, h] using hTurned⟩
      unfold additionOf applyEntry
      rw [hTurned]
      simp only [hId, hKeyword, hTurn.1, Bool.false_eq_true,
        if_false, if_true]
      rw [exec_applyItem_backward hSpec hInstalled hRef hNamed,
        hKnown, hTurn.2]
      unfold applyBackward
      rw [exec_bind, exec_entity_eq_self hNamed rfl]
      rcases (exec (entity v) g w).1 with fault | target
      · rfl
      · simp only
        rw [exec_bind, exec_installed, hInstalled]

------------------------------------------------------------
-- All Entries
------------------------------------------------------------

/-
  Once the entity is known, the entries do what the items
  that add them do.  By induction on the entries; the items
  keep what was noted, so the entity is known all along.
-/
theorem exec_applyEntries_eq
    (hSpec : spec.NamesAlone)
    {entries : List (Value × Value)}
    (hEntries : ∀ e ∈ entries, g.db.Describes e)
    (hKnown :
      ∀ later : Working,
        w.tempids <+: later.tempids →
          exec (entity spec) g later = (.ok eid, later)) :
    exec (entries.forM (fun e => applyEntry eid e.1 e.2)) g w
      = exec ((additions spec entries).forM applyItem) g w := by
  induction entries generalizing w with
  | nil => rfl
  | cons e entries ih =>
      rw [List.forall_mem_cons] at hEntries
      by_cases hId : e.1.str? = some "db/id"
      · have hSkip : applyEntry eid e.1 e.2 = pure () := by
          rcases e with ⟨k, v⟩
          cases k <;> simp_all [Value.str?, applyEntry]
        have hAdditions :
            additions spec (e :: entries)
              = additions spec entries := by
          simp [additions, statements, hId]
        rw [hAdditions, ← ih hEntries.2 hKnown, exec_forM_cons,
          hSkip]
        rfl
      · have hAdditions :
            additions spec (e :: entries)
              = additionOf spec e :: additions spec entries := by
          simp [additions, statements, hId]
        rw [hAdditions, exec_forM_cons, exec_forM_cons,
          exec_applyEntry_eq hSpec (hKnown w List.prefix_rfl)
            hEntries.1 hId]
        have hPrefix :=
          tempids_prefix_applyItem (g := g) (additionOf spec e) w
        rcases hExec : exec (applyItem (additionOf spec e)) g w
          with ⟨fault | _, after⟩
        · rfl
        · rw [hExec] at hPrefix
          refine ih hEntries.2 ?_
          exact fun later h => hKnown later (hPrefix.trans h)

/-
  So a map looks its entity up, and then does what the items
  do that add its entries.
-/
theorem exec_map
    {entries : List (Value × Value)}
    (hId : Value.field? entries "db/id" = some spec)
    (hSpec : spec.NamesAlone)
    (hEntries : ∀ e ∈ entries, g.db.Describes e) :
    exec (applyItem (.map entries)) g w =
      match exec (entity spec) g w with
      | (.ok _, w') =>
          exec ((additions spec entries).forM applyItem) g w'
      | (.error fault, w') => (.error fault, w') := by
  change exec (applyMap entries) g w = _
  unfold applyMap
  rw [hId]
  change
    exec (entity spec >>= fun eid =>
      entries.forM (fun e => applyEntry eid e.1 e.2)) g w = _
  rw [exec_bind]
  rcases hExec : exec (entity spec) g w with ⟨fault | eid, w'⟩
  · rfl
  · exact
      exec_applyEntries_eq hSpec hEntries
        (fun later h => exec_entity_again hSpec hExec h)

/-
  The first item looks the entity up by itself.  So it does
  the same before and after this was done, if what else it
  names is found.
-/
theorem exec_additionOf_ahead
    (hSpec : spec.NamesAlone)
    {entry : Value × Value}
    (hEntry : g.db.Describes entry)
    (hStates : entry.1.str? ≠ some "db/id")
    (hFound :
      (turnedAround? entry.1).isSome = true →
        ∃ target,
          (g.current w.ledger).resolve entry.2
            = .ok (some target)) :
    exec (applyItem (additionOf spec entry)) g w =
      match exec (entity spec) g w with
      | (.error fault, w') => (.error fault, w')
      | (.ok _, w') =>
          exec (applyItem (additionOf spec entry)) g w' := by
  have hLedger := ledger_exec_entity (g := g) (w := w) spec
  rcases hExec : exec (entity spec) g w with ⟨r, w'⟩
  rw [hExec] at hLedger
  have hAgain :
      ∀ eid, r = .ok eid →
        exec (entity spec) g w' = (.ok eid, w') := by
    rintro eid rfl
    exact exec_entity_again hSpec hExec List.prefix_rfl
  cases hEntry with
  | id spec => exact absurd rfl hStates
  | @forward name hKeyword hForward v =>
      unfold additionOf
      rw [hForward]
      simp only [applyItem_addition]
      unfold applyFact
      rw [exec_bind, hExec]
      rcases r with fault | eid
      · rfl
      · simp only
        rw [exec_bind, hAgain eid rfl]
  | @backward name attr a v hKeyword hTurned hInstalled hRef
      hNamed =>
      rcases hFound (by simp [hTurned]) with ⟨target, hTarget⟩
      have hOk :
          ∀ later : Working, later.ledger = w.ledger →
            (exec (entity v) g later).1 = .ok target := by
        intro later hSame
        rw [exec_entity_of_ne_tempid hNamed, hSame, hTarget]
      unfold additionOf
      rw [hTurned]
      simp only
      rw [exec_applyItem_backward hSpec hInstalled hRef hNamed,
        hOk w rfl, hExec]
      rcases r with fault | eid
      · rfl
      · simp only
        rw [exec_applyItem_backward hSpec hInstalled hRef hNamed,
          hOk w' hLedger, hAgain eid rfl]

/-
  An item that belongs to an entity which is not found fails
  before it has done anything.
-/
theorem exec_additionOf_nowhere
    (hSpec : spec.NamesAlone)
    {entry : Value × Value}
    (hEntry : g.db.Describes entry)
    (hTurned : (turnedAround? entry.1).isSome = true)
    (hNowhere :
      ∀ eid,
        (g.current w.ledger).resolve entry.2 ≠ .ok (some eid)) :
    ∃ fault,
      exec (applyItem (additionOf spec entry)) g w
        = (.error fault, w) := by
  cases hEntry with
  | id spec => cases hTurned
  | forward _ hForward _ => simp [hForward] at hTurned
  | @backward name attr a v hKeyword hAttr hInstalled hRef
      hNamed =>
      unfold additionOf
      rw [hAttr]
      simp only
      rw [exec_applyItem_backward hSpec hInstalled hRef hNamed,
        exec_entity_of_ne_tempid hNamed]
      rcases hResolve : (g.current w.ledger).resolve v with
        fault | _ | eid
      · exact ⟨fault, rfl⟩
      · exact ⟨_, rfl⟩
      · exact absurd hResolve (hNowhere eid)

/-
  A map that describes an entity, which is given by an id, an
  ident or a temporary id, does what one item for each of its
  entries does, in the same order: it fails where they fail,
  and leaves the same facts, log, entities of temporary ids
  and ids still to give out.  If the first entry turns its
  attribute around and its value names no entity, both fail,
  the items before they have done anything and the map after
  it has looked up its entity.
-/
theorem exec_map_eq_exec_additions
    {entries : List (Value × Value)}
    (hId : Value.field? entries "db/id" = some spec)
    (hSpec : spec.NamesAlone)
    (hEntries : ∀ e ∈ entries, g.db.Describes e)
    (hSome : statements entries ≠ [])
    (w : Working) :
    (¬g.LeadsNowhere w.ledger entries →
        exec (applyItem (.map entries)) g w
          = exec ((additions spec entries).forM applyItem) g w)
      ∧ (g.LeadsNowhere w.ledger entries →
          (∃ fault,
            exec (applyItem (.map entries)) g w
              = (.error fault, (exec (entity spec) g w).2))
          ∧ ∃ fault,
            exec ((additions spec entries).forM applyItem) g w
              = (.error fault, w)) := by
  rcases hStatements : statements entries with _ | ⟨e, rest⟩
  · exact absurd hStatements hSome
  have hMember : e ∈ statements entries := by
    rw [hStatements]
    exact List.mem_cons_self
  rcases List.mem_filter.mp hMember with ⟨hEntry, hTest⟩
  have hDescribes := hEntries e hEntry
  have hStates : e.1.str? ≠ some "db/id" := by
    simpa using hTest
  have hAdditions :
      additions spec entries
        = additionOf spec e :: rest.map (additionOf spec) := by
    rw [additions, hStatements, List.map_cons]
  have hLedger := ledger_exec_entity (g := g) (w := w) spec
  rw [exec_map hId hSpec hEntries, hAdditions]
  refine ⟨?_, ?_⟩
  · intro hLeads
    have hFound :
        (turnedAround? e.1).isSome = true →
          ∃ target,
            (g.current w.ledger).resolve e.2
              = .ok (some target) := by
      intro hTurned
      by_contra hNone
      refine hLeads ⟨e, by simp [hStatements], hTurned, ?_⟩
      exact fun eid h => hNone ⟨eid, h⟩
    rw [exec_forM_cons (w := w),
      exec_additionOf_ahead hSpec hDescribes hStates hFound]
    rcases exec (entity spec) g w with ⟨fault | eid, w'⟩
    · rfl
    · exact exec_forM_cons _ _ _
  · rintro ⟨e', hHead, hTurned, hNowhere⟩
    have hSame : e = e' := by simpa [hStatements] using hHead
    subst hSame
    constructor
    · rcases hExec : exec (entity spec) g w with
        ⟨fault | eid, w'⟩
      · exact ⟨fault, rfl⟩
      · rw [hExec] at hLedger
        rw [← hLedger] at hNowhere
        rcases exec_additionOf_nowhere hSpec hDescribes hTurned
          hNowhere with ⟨fault, hFails⟩
        refine ⟨fault, ?_⟩
        simp only
        rw [exec_forM_cons, hFails]
    · rcases exec_additionOf_nowhere hSpec hDescribes hTurned
        hNowhere with ⟨fault, hFails⟩
      refine ⟨fault, ?_⟩
      rw [exec_forM_cons, hFails]

end Transacting

namespace Engine

open Transacting

/-
  A map about a new entity: it is a member of one that is
  there, and has a text and two members, one of them itself.
-/
def newMember : List (Value × Value) :=
  [ (.str "db/id", .tempid "db.part/user" (-1))
  , (.str "group/_member", .int memberId)
  , (.str "db/doc", .str "fourth")
  , (.str "group/member",
      .list
        [ .tempid "db.part/user" (-2)
        , .tempid "db.part/user" (-1) ]) ]

/- It is applied, and does what the items for it do. -/
theorem exec_newMember_eq :
    Value.field? newMember "db/id"
        = some (.tempid "db.part/user" (-1))
      ∧ (∀ e ∈ newMember, memberEngine.ground.db.Describes e)
      ∧ statements newMember ≠ []
      ∧ (exec (applyItem (.map newMember)) memberEngine.ground
            memberEngine.opened).1.toOption.isSome = true
      ∧ exec (applyItem (.map newMember)) memberEngine.ground
            memberEngine.opened
          = exec
            ((additions (.tempid "db.part/user" (-1))
              newMember).forM applyItem)
            memberEngine.ground memberEngine.opened := by
  have hId :
      Value.field? newMember "db/id"
        = some (.tempid "db.part/user" (-1)) := by
    simp [newMember, Value.field?, Table.find?]
  have hMember :
      (memberEngine.ground.db.installed
        (.str "group/member")).toOption.any
          (fun a => a.schema.isRef) = true := by
    decide +kernel
  have hEntries :
      ∀ e ∈ newMember, memberEngine.ground.db.Describes e := by
    rcases Database.exists_installed_ref hMember with
      ⟨a, hInstalled, hRef⟩
    simp only [newMember, List.forall_mem_cons]
    refine
      ⟨.id _,
        .backward (by decide +kernel)
          (show _ = some "group/member" by decide +kernel)
          hInstalled hRef (by simp),
        .forward (by decide +kernel) (by decide +kernel) _,
        .forward (by decide +kernel) (by decide +kernel) _,
        by simp⟩
  have hSome : statements newMember ≠ [] := by
    decide +kernel
  have hEq :=
    (exec_map_eq_exec_additions hId (.tempid _ _) hEntries
      hSome memberEngine.opened).1
  refine
    ⟨hId, hEntries, hSome, by decide +kernel, hEq ?_⟩
  rintro ⟨e, hHead, _, hNowhere⟩
  have hFirst :
      (statements newMember).head?
        = some (.str "group/_member", .int memberId) := by
    rfl
  rw [hFirst] at hHead
  cases hHead
  exact hNowhere memberId rfl

/- A map about a new entity that starts from no entity. -/
def strayMember : List (Value × Value) :=
  [ (.str "db/id", .tempid "db.part/user" (-1))
  , (.str "db.install/_attribute", .str "no/such") ]

/-
  Neither the map nor the item for it is applied, but only
  the map has taken an id of its partition.
-/
theorem exec_strayMember_ne :
    Value.field? strayMember "db/id"
        = some (.tempid "db.part/user" (-1))
      ∧ (∀ e ∈ strayMember,
          (start (fun _ => 0)).ground.db.Describes e)
      ∧ statements strayMember ≠ []
      ∧ (exec (applyItem (.map strayMember))
            (start (fun _ => 0)).ground
            (start (fun _ => 0)).opened).2.allocator.next 2 = 1
      ∧ (exec
            ((additions (.tempid "db.part/user" (-1))
              strayMember).forM applyItem)
            (start (fun _ => 0)).ground
            (start (fun _ => 0)).opened).2.allocator.next 2
          = 0 := by
  have hInstall :
      ((start (fun _ => 0)).ground.db.installed
        (.str "db.install/attribute")).toOption.any
          (fun a => a.schema.isRef) = true := by
    decide +kernel
  rcases Database.exists_installed_ref hInstall with
    ⟨a, hInstalled, hRef⟩
  refine
    ⟨?_, ?_, by decide +kernel, by decide +kernel,
      by decide +kernel⟩
  · simp [strayMember, Value.field?, Table.find?]
  · simp only [strayMember, List.forall_mem_cons]
    exact
      ⟨.id _,
        .backward (by decide +kernel)
          (show _ = some "db.install/attribute" by
            decide +kernel)
          hInstalled hRef (by simp),
        by simp⟩

end Engine

end FactBase
