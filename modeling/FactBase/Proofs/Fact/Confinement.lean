import FactBase.Fact.TxForm
import FactBase.Proofs.Fact.Description
import FactBase.Proofs.Fact.Readiness

/-
  This file shows that an update touches one entity only.  A
  map whose attributes are all read forward enters nothing in
  the log but facts about the entity that it names, whatever
  its values are and whichever of them make room for others.
  What the map names is looked up when the instant of the
  transaction is entered already, so the one specification
  that can go astray is one that looks this instant up.

  Key definitions include:
    * `Transacting.Telling`
    * `Database.LooksUpBy`
    * `Engine.isOwnInstant`

  Key theorems include:
    * `Transacting.telling_applyEntry`
    * `Transacting.tells_applyItem_map`
    * `Engine.resolve_timed`
    * `Engine.facts_map`
    * `TxForm.exists_of_update`
    * `Engine.transact_update_confined`
-/

------------------------------------------------------------
-- Steps that Tell
------------------------------------------------------------

namespace FactBase

open Sorting

namespace Transacting

/-
  A step that tells of facts of a given sort only, also where
  it fails.
-/
def Telling
    {α : Type}
    (g : Ground)
    (P : Datom → Prop)
    (m : Transacting α) : Prop :=
  ∀ w : Working, w.ledger.Tells P (exec m g w).2.ledger

variable {α β : Type}
variable {g : Ground}
variable {w : Working}
variable {P : Datom → Prop}
variable {eid : Int}

namespace Telling

/- A step that leaves the facts alone. -/
theorem of_ledger_eq
    {m : Transacting α}
    (h : ∀ w, (exec m g w).2.ledger = w.ledger) :
    Telling g P m := by
  intro w
  rw [h w]
  exact .refl _

/- A step that only returns. -/
theorem pure (a : α) :
    Telling g P (Pure.pure a : Transacting α) :=
  of_ledger_eq fun _ => rfl

/- A step that only fails. -/
theorem throw (fault : Fault) :
    Telling g P (MonadExcept.throw fault : Transacting α) :=
  of_ledger_eq fun _ => rfl

/- One step after the other. -/
theorem bind
    {m : Transacting α}
    {f : α → Transacting β}
    (hFirst : Telling g P m)
    (hNext : ∀ a, Telling g P (f a)) :
    Telling g P (m >>= f) := by
  intro w
  have hTold := hFirst w
  rw [exec_bind]
  rcases hExec : exec m g w with ⟨fault | a, w'⟩
  · rw [hExec] at hTold
    exact hTold
  · rw [hExec] at hTold
    exact hTold.trans (hNext a w')

/- A step for each item of a list. -/
theorem forM
    {f : α → Transacting Unit}
    {xs : List α}
    (h : ∀ x ∈ xs, Telling g P (f x)) :
    Telling g P (xs.forM f) := by
  induction xs with
  | nil => exact pure ()
  | cons x xs ih =>
      rw [List.forall_mem_cons] at h
      exact bind h.1 fun _ => ih h.2

/- A step for each item of a list, whose results are kept. -/
theorem mapM
    {f : α → Transacting β}
    {xs : List α}
    (h : ∀ x ∈ xs, Telling g P (f x)) :
    Telling g P (xs.mapM f) := by
  induction xs with
  | nil =>
      rw [List.mapM_nil]
      exact pure []
  | cons x xs ih =>
      rw [List.forall_mem_cons] at h
      rw [List.mapM_cons]
      refine bind h.1 fun y => ?_
      exact bind (ih h.2) fun ys => pure _

end Telling

/- Looking an attribute up tells of nothing. -/
theorem telling_installed (ident : Value) :
    Telling g P (installed ident) := by
  refine .of_ledger_eq fun w => ?_
  rw [exec_installed]

/-
  Neither do the entities that a value is stored as.  Some of
  them may be new, but a new entity has no facts.
-/
theorem telling_values
    (schema : Schema)
    (v : Value) :
    Telling g P (values schema v) := by
  have hReference (v : Value) : Telling g P (reference v) := by
    unfold reference
    split
    · exact .pure _
    · refine .bind (.of_ledger_eq ?_) fun eid => .pure _
      exact fun w => ledger_exec_entity _
  unfold values
  split
  · exact .mapM fun x _ => hReference x
  · exact .pure _

/- Adding a value tells of the entity. -/
theorem telling_add
    (eid : Int)
    (attr : Installed)
    (v : Value) :
    Telling g (fun d => d.entity = eid) (add eid attr v) := by
  intro w
  rw [exec_add, exec_change]
  rcases hAdd : Ledger.add g.tx eid attr v w.ledger with
    fault | after
  · exact .refl _
  · exact (Ledger.tells_add hAdd).weaken fun _ h => h.1

/- So does an entry of a map that is read forward. -/
theorem telling_applyEntry
    (eid : Int)
    {attr v : Value}
    (hForward :
      ∀ name, attr = .str name → Keyword.forward name = name) :
    Telling g (fun d => d.entity = eid)
      (applyEntry eid attr v) := by
  unfold applyEntry
  split
  next name =>
    rw [if_pos (beq_iff_eq.mpr (hForward name rfl))]
    split
    · exact .pure ()
    · split
      · refine .bind (telling_installed _) fun a => ?_
        refine .bind (telling_values _ _) fun vs => ?_
        exact .forM fun x _ => telling_add eid a x
      · exact .throw _
  · exact .throw _

/- A map of such entries tells of the entity that it names. -/
theorem tells_applyItem_map
    {entries : List (Value × Value)}
    {spec : Value}
    (hId : Value.field? entries "db/id" = some spec)
    (hForward :
      ∀ entry ∈ entries, ∀ name,
        entry.1 = .str name → Keyword.forward name = name)
    (hEntity : (exec (entity spec) g w).1 = .ok eid) :
    w.ledger.Tells (fun d => d.entity = eid)
      (exec (applyItem (.map entries)) g w).2.ledger := by
  have hMap :
      applyItem (.map entries) = (do
        let eid ← entity spec
        entries.forM (fun e => applyEntry eid e.1 e.2)) := by
    change applyMap entries = _
    unfold applyMap
    rw [hId]
    rfl
  have hLedger : (exec (entity spec) g w).2.ledger = w.ledger :=
    ledger_exec_entity spec
  have hEntries :
      Telling g (fun d => d.entity = eid)
        (entries.forM (fun e => applyEntry eid e.1 e.2)) := by
    refine .forM fun entry hMem => ?_
    exact telling_applyEntry eid (hForward entry hMem)
  rw [hMap, exec_bind]
  rcases hExec : exec (entity spec) g w with ⟨found, w'⟩
  rw [hExec] at hEntity hLedger
  simp only at hEntity hLedger
  subst hEntity
  rw [← hLedger]
  exact hEntries w'

end Transacting

------------------------------------------------------------
-- Specifications that Last
------------------------------------------------------------

/-
  The first item that passes stays the first if others are
  left out and more items come after it.
-/
theorem Outcome.findM?_filter_append
    {α : Type}
    {test : α → Outcome Bool}
    {keep : α → Bool}
    {xs : List α}
    {x : α}
    (h : xs.findM? test = .ok (some x))
    (hKeep : test x = .ok true → keep x = true)
    (rest : List α) :
    (xs.filter keep ++ rest).findM? test = .ok (some x) := by
  induction xs with
  | nil => cases h
  | cons y ys ih =>
      rw [List.findM?] at h
      rcases bind_eq_ok.mp h with ⟨passes, hTest, hFound⟩
      cases passes with
      | true =>
          rw [pure_eq_ok, Option.some.injEq] at hFound
          subst hFound
          rw [List.filter_cons_of_pos (hKeep hTest),
            List.cons_append, List.findM?, hTest]
          rfl
      | false =>
          rw [List.filter_cons]
          split
          · rw [List.cons_append, List.findM?, hTest]
            exact ih hFound
          · exact ih hFound

/-
  The specification looks an entity up by the attribute that
  an ident names.
-/
def Database.LooksUpBy
    (db : Database)
    (spec ident : Value) : Prop :=
  ∃ attr v a b,
    spec.sequence? = some [attr, v]
      ∧ db.installed attr = .ok a
      ∧ db.installed ident = .ok b
      ∧ a.eid = b.eid

namespace Engine

variable {e : Engine}
variable {instant : Installed}
variable {spec : Value}
variable {eid : Int}

/-
  With the instant entered, some facts are gone and others
  have come.  Those that are gone were about this instant.
-/
theorem exists_datoms_timed (instant : Installed) :
    ∃ (keep : Datom → Bool) (rest : List Datom),
      (e.timed instant).datoms
          = e.db.datoms.filter keep ++ rest
        ∧ ∀ d, keep d = false →
            d.entity = e.ground.tx ∧ d.attr = instant.eid := by
  unfold timed
  split
  · exact
      ⟨fun _ => true, [], by simp [Ledger.ofDatabase],
        by simp⟩
  · unfold Ledger.cleared
    split
    · exact
        ⟨fun _ => true, [_],
          by simp [Ledger.append, Ledger.ofDatabase]; rfl,
          by simp⟩
    · refine ⟨_, _, rfl, fun d hd => ?_⟩
      simp only [DatomOf.goesWith, Ledger.isAbout,
        Bool.not_eq_false', Bool.and_eq_true, beq_iff_eq]
        at hd
      exact hd.1

/-
  A specification of an entity still names it when the instant
  of the transaction is entered, unless it looks the entity of
  the transaction up by an instant that it had before.
-/
theorem resolve_timed
    (hInstant :
      e.db.installed (.str "db/txInstant") = .ok instant)
    (hSpec : e.db.resolve spec = .ok (some eid))
    (hApart :
      e.db.LooksUpBy spec (.str "db/txInstant") →
        eid ≠ e.ground.tx) :
    (e.ground.current (e.timed instant)).resolve spec
      = .ok (some eid) := by
  unfold Database.resolve at hSpec ⊢
  split at hSpec
  · exact hSpec
  · exact hSpec
  next hInt hStr =>
    split at hSpec
    next attr v hItems =>
      rcases bind_eq_ok.mp hSpec with ⟨a, hAttr, hFound⟩
      rcases bind_eq_ok.mp hFound with ⟨found, hFirst, hEq⟩
      rw [pure_eq_ok] at hEq
      rcases Option.map_eq_some_iff.mp hEq with ⟨d, rfl, rfl⟩
      have hStill :
          (e.ground.current (e.timed instant)).entityWith?
              a.eid v
            = .ok (some d.entity) := by
        rcases exists_datoms_timed (e := e) instant with
          ⟨keep, rest, hDatoms, hGone⟩
        have hDatomsAgain :
            (e.ground.current (e.timed instant)).datoms
              = e.db.datoms.filter keep ++ rest := hDatoms
        unfold Database.entityWith?
        rw [hDatomsAgain,
          Outcome.findM?_filter_append hFirst ?_ rest]
        · rfl
        intro hPasses
        by_contra hLost
        rw [Bool.not_eq_true] at hLost
        rcases hGone d hLost with ⟨hEntity, hOwn⟩
        have hSame : d.attr = a.eid := by
          by_contra hOther
          simp [hOther] at hPasses
        refine hApart ?_ hEntity
        exact
          ⟨attr, v, a, instant, hItems, hAttr, hInstant,
            hSame.symm.trans hOwn⟩
      have hAgain :
          (e.ground.current (e.timed instant)).installed attr
            = .ok a := hAttr
      rw [hAgain, ok_bind, hStill]
    · cases hSpec

/-
  The log of a transaction with one map, whose attributes are
  all read forward: its instant, and then facts about what the
  map names.
-/
theorem facts_map
    {entries : List (Value × Value)}
    {r : TxResult}
    (hId : Value.field? entries "db/id" = some spec)
    (hForward :
      ∀ entry ∈ entries, ∀ name,
        entry.1 = .str name → Keyword.forward name = name)
    (hInstant :
      e.db.installed (.str "db/txInstant") = .ok instant)
    (hSpec :
      (e.ground.current (e.timed instant)).resolve spec
        = .ok (some eid))
    (hResult :
      (e.transactItems [.map entries]).1 = .ok r) :
    ∃ changes,
      r.facts = (e.timed instant).log ++ changes
        ∧ ∀ d ∈ changes, d.entity = eid := by
  have hDefinite : ∀ partition n, spec ≠ .tempid partition n := by
    rintro partition n rfl
    cases hSpec
  have hEntity :
      (Transacting.exec (Transacting.entity spec) e.ground
          { e.opened with ledger := e.timed instant }).1
        = .ok eid := by
    rw [Transacting.exec_entity_of_ne_tempid hDefinite, hSpec]
  have hTells :=
    Transacting.tells_applyItem_map hId hForward hEntity
  rw [← Transacting.exec_forM_singleton,
    ← exec_steps_of_add hInstant (add_timed instant)]
    at hTells
  rw [(result_of_ok hResult).2.2.1]
  exact hTells

end Engine

------------------------------------------------------------
-- Updates
------------------------------------------------------------

/- A pair looks an entity up by the value of an attribute. -/
theorem Database.resolve_of_sequence?
    {spec attr v : Value}
    (h : spec.sequence? = some [attr, v])
    (db : Database) :
    db.resolve spec = (do
      let a ← db.installed attr
      db.entityWith? a.eid v) := by
  unfold resolve
  split
  · cases h
  · cases h
  · rw [h]

namespace TxForm

variable {spec id item : Value}
variable {entries : List (Value × Value)}

/- A checked specification names what was given. -/
theorem resolve_of_entitySpec
    (h : entitySpec spec = .ok id)
    (db : Database) :
    db.resolve id = db.resolve spec := by
  unfold entitySpec at h
  split at h
  · rw [← Except.ok.inj h]
  · rw [← Except.ok.inj h]
  · split at h
    · rw [← Except.ok.inj h]
    · cases h
  · split at h
    next attr x hItems =>
      split at h
      · rw [← Except.ok.inj h,
          Database.resolve_of_sequence? hItems,
          Database.resolve_of_sequence? rfl]
      · cases h
    · cases h

/- The keys of a map of attributes are texts. -/
theorem texts_of_attributeMap
    {all : List (Value × Value)}
    (h : attributeMap (.map entries) = .ok all) :
    all = entries
      ∧ ∀ entry ∈ entries, ∃ s, entry.1 = .str s := by
  rcases bind_eq_ok.mp h with ⟨_, hKeys, hEq⟩
  refine ⟨(pure_eq_ok.mp hEq).symm, ?_⟩
  clear h hEq
  induction entries with
  | nil => simp
  | cons entry rest ih =>
      rcases bind_eq_ok.mp hKeys with ⟨_, hKey, hRest⟩
      refine List.forall_mem_cons.mpr ⟨?_, ih hRest⟩
      rcases entry with ⟨key, v⟩
      change discard (keyword .attribute key) = .ok _ at hKey
      have hKeyword : key.isKeyword = true := by
        by_contra hNot
        rw [keyword, if_neg hNot] at hKey
        cases hKey
      cases key with
      | str s => exact ⟨s, rfl⟩
      | _ => cases hKeyword

/-
  An update that is let through is a map that names what was
  given, and has the entries that were given besides.
-/
theorem exists_of_update
    (hUpdate : update spec (.map entries) = .ok item)
    (hOther : ∀ entry ∈ entries, entry.1 ≠ .str "db/id") :
    ∃ id all,
      item = .map all
        ∧ entitySpec spec = .ok id
        ∧ Value.field? all "db/id" = some id
        ∧ ∀ entry ∈ all,
            entry.1 = .str "db/id" ∨ entry ∈ entries := by
  rcases bind_eq_ok.mp hUpdate with ⟨id, hId, hRest⟩
  rcases bind_eq_ok.mp hRest with ⟨all, hAll, hEq⟩
  rcases texts_of_attributeMap hAll with ⟨rfl, hTexts⟩
  have hStart : Table.OfTexts [(Value.str "db/id", id)] :=
    (Table.OfTexts.nil.put "db/id" id)
  refine
    ⟨id, _, (pure_eq_ok.mp hEq).symm, hId, ?_, ?_⟩
  · refine (hStart.putAll hTexts).find?_eq_some_iff.mpr ?_
    refine (hStart.mem_putAll_iff hTexts).mpr (.inl ⟨?_, hOther⟩)
    exact List.mem_singleton_self _
  · intro entry hMem
    rcases (hStart.mem_putAll_iff hTexts).mp hMem with
      ⟨hOwn, _⟩ | hGiven
    · rw [List.mem_singleton.mp hOwn]
      exact .inl rfl
    · exact .inr ((Table.surviving_sublist _).subset hGiven)

end TxForm

namespace Engine

/-
  The fact is about the instant of the next transaction, which
  is entered by the transaction itself.
-/
def isOwnInstant
    (e : Engine)
    (d : Datom) : Bool :=
  d.entity == e.ground.tx
    && (e.db.installed (.str "db/txInstant")).toOption.any
      (fun instant => d.attr == instant.eid)

/-
  An update of an entity, whose attributes are all read
  forward, touches this entity only.  All that the log tells
  is about the entity or about the instant of the transaction,
  and the other facts are left as they are, in order.
-/
theorem transact_update_confined
    {e : Engine}
    {spec item : Value}
    {entries : List (Value × Value)}
    {eid : Int}
    {r : TxResult}
    (hUpdate : TxForm.update spec (.map entries) = .ok item)
    (hForward :
      ∀ entry ∈ entries, ∀ name, entry.1 = .str name →
        name ≠ "db/id" ∧ Keyword.forward name = name)
    (hSpec : e.db.resolve spec = .ok (some eid))
    (hApart :
      e.db.LooksUpBy spec (.str "db/txInstant") →
        eid ≠ e.ground.tx)
    (hResult : (e.transact (.list [item])).1 = .ok r) :
    (∀ d ∈ r.facts,
        d.entity = eid ∨ e.isOwnInstant d = true)
      ∧ r.after.datoms.filter
            (fun d => d.entity != eid && !e.isOwnInstant d)
          = e.db.datoms.filter
            (fun d => d.entity != eid && !e.isOwnInstant d) := by
  have hOther : ∀ entry ∈ entries, entry.1 ≠ .str "db/id" :=
    fun entry hMem hKey => (hForward entry hMem _ hKey).1 rfl
  rcases TxForm.exists_of_update hUpdate hOther with
    ⟨id, all, rfl, hId, hField, hAll⟩
  have hAllForward :
      ∀ entry ∈ all, ∀ name,
        entry.1 = .str name → Keyword.forward name = name := by
    intro entry hMem name hKey
    rcases hAll entry hMem with hOwn | hGiven
    · have hName : name = "db/id" := by
        rw [hKey] at hOwn
        exact Value.str.inj hOwn
      rw [hName]
      decide
    · exact (hForward entry hGiven name hKey).2
  change (e.transactItems [.map all]).1 = .ok r at hResult
  rcases hInstant : e.db.installed (.str "db/txInstant") with
    fault | instant
  · rw [fst_transactItems_of_no_instant hInstant] at hResult
    cases hResult
  have hNamed :
      (e.ground.current (e.timed instant)).resolve id
        = .ok (some eid) := by
    rw [TxForm.resolve_of_entitySpec hId]
    exact resolve_timed hInstant hSpec hApart
  rcases facts_map hField hAllForward hInstant hNamed hResult
    with ⟨changes, hFacts, hChanges⟩
  have hTold :
      ∀ d ∈ r.facts,
        d.entity = eid ∨ e.isOwnInstant d = true := by
    intro d hd
    rw [hFacts, List.mem_append] at hd
    rcases hd with hTime | hChange
    · right
      rcases about_log_timed d hTime with ⟨hEntity, hAttr⟩
      simp [isOwnInstant, hInstant, hEntity, hAttr,
        Except.toOption]
    · exact .inl (hChanges d hChange)
  refine ⟨hTold, ?_⟩
  rcases commits_of_ok inherited_true e (fun _ _ => trivial)
    hResult with ⟨l, hCommits⟩
  have hSort (c d : Datom)
      (hEntity : c.entity = d.entity)
      (hAttr : c.attr = d.attr) :
      (c.entity != eid && !e.isOwnInstant c)
        = (d.entity != eid && !e.isOwnInstant d) := by
    simp only [isOwnInstant, hEntity, hAttr]
  rcases hCommits.changes.filter_eq hSort with
    ⟨log, hLog, hKept⟩
  have hLogFacts : log = r.facts := by
    rw [hCommits.facts, hLog]
    rfl
  rw [(Database.extends_afterLog hCommits.after).1]
  refine hKept fun d hd => ?_
  rcases hTold d (hLogFacts ▸ hd) with hEntity | hOwn
  · simp [hEntity]
  · simp [hOwn]

/-
  An update is let through and committed, and its result is as
  stated.
-/
def UpdatesTo
    (e : Engine)
    (spec : Value)
    (entries : List (Value × Value))
    (P : TxResult → Prop) : Prop :=
  ∃ item, TxForm.update spec (.map entries) = .ok item
    ∧ ∃ r, (e.transact (.list [item])).1 = .ok r ∧ P r

/- Whether it is can be decided. -/
instance
    {e : Engine}
    {spec : Value}
    {entries : List (Value × Value)}
    {P : TxResult → Prop}
    [∀ r, Decidable (P r)] :
    Decidable (e.UpdatesTo spec entries P) :=
  inferInstanceAs
    (Decidable
      (∃ item, TxForm.update spec (.map entries) = .ok item
        ∧ ∃ r, (e.transact (.list [item])).1 = .ok r ∧ P r))

/- The third of the three entities, looked up by its text. -/
def thirdSpec : Value :=
  .list [.str "db/doc", .str "third"]

/- It gets two more parts, one of them new, and another text. -/
def thirdEntries : List (Value × Value) :=
  [ (.str "group/member",
      .list [.int 6, .tempid "db.part/user" (-9)])
  , (.str "db/doc", .str "fourth") ]

/-
  Next to the instant, the update tells of four facts: the two
  parts, the text that goes and the one that comes.
-/
theorem transact_update_confined_memberEngine :
    memberEngine.UpdatesTo thirdSpec thirdEntries
      (fun r =>
        r.facts.length = 5
          ∧ (∀ d ∈ r.facts,
              d.entity = memberId + 2
                ∨ memberEngine.isOwnInstant d = true)
          ∧ r.after.datoms.filter
                (fun d =>
                  d.entity != memberId + 2
                    && !memberEngine.isOwnInstant d)
              = memberEngine.db.datoms.filter
                (fun d =>
                  d.entity != memberId + 2
                    && !memberEngine.isOwnInstant d)) := by
  have hSeen :
      memberEngine.UpdatesTo thirdSpec thirdEntries
        (fun r => r.facts.length = 5) := by
    decide +kernel
  have hResolved :
      ∃ found,
        memberEngine.db.resolve thirdSpec = .ok found
          ∧ found = some (memberId + 2) := by
    decide +kernel
  have hForward :
      ∀ entry ∈ thirdEntries, ∀ name, entry.1 = .str name →
        name ≠ "db/id" ∧ Keyword.forward name = name := by
    simp only [thirdEntries, List.forall_mem_cons]
    refine ⟨?_, ?_, fun _ h => absurd h List.not_mem_nil⟩
    · rintro _ ⟨⟩
      decide +kernel
    · rintro _ ⟨⟩
      decide +kernel
  have hOther : memberId + 2 ≠ memberEngine.ground.tx := by
    decide +kernel
  rcases hSeen with ⟨item, hUpdate, r, hResult, hLength⟩
  rcases hResolved with ⟨_, hSpec, rfl⟩
  exact
    ⟨item, hUpdate, r, hResult, hLength,
      transact_update_confined hUpdate hForward hSpec
        (fun _ => hOther) hResult⟩

/- The entity of the second transaction. -/
def secondTx : Int :=
  EntityId.inPartition Bootstrap.txPartition 2

/-
  Transaction data that gives the entity of the next
  transaction an instant beforehand, and the same one to the
  attribute for texts.
-/
def borrowingData : Value :=
  let instant (n : Int) : Value :=
    .list
      [.str "db/add", .int n, .str "db/txInstant", .str "x"]
  .list [instant secondTx, instant 18]

/- The engine after it. -/
def borrowedEngine : Engine :=
  ((start (fun _ => 0)).transact borrowingData).2

/- The entity that is looked up by this instant. -/
def borrowedSpec : Value :=
  .tuple [.str "db/txInstant", .str "x"]

/- A value for an attribute that is read forward. -/
def unindexing : List (Value × Value) :=
  [(.str "db/index", .bool false)]

/- One more entry, which names another entity. -/
def overriding : List (Value × Value) :=
  (.str "db/id", .int 18) :: unindexing

/-
  In the engine after that data, the instant looks up the
  entity of the next transaction.  It is replaced before it is
  looked up again, so an update of what it looks up tells of
  the attribute for texts, and an update of any entity takes
  it away from the transaction.  In the first engine, an
  update of one entity that is overridden tells of another.
-/
theorem not_transact_update_confined :
    Run (fun _ => True) (start (fun _ => 0)) borrowedEngine
      ∧ (∀ entry ∈ overriding, ∀ name, entry.1 = .str name →
          Keyword.forward name = name)
      ∧ borrowedEngine.db.resolve borrowedSpec
          = .ok (some secondTx)
      ∧ borrowedEngine.UpdatesTo borrowedSpec unindexing
          (fun r =>
            ∃ d ∈ r.facts, d.entity ≠ secondTx
              ∧ borrowedEngine.isOwnInstant d = false)
      ∧ borrowedEngine.UpdatesTo (.int 17) unindexing
          (fun r =>
            ∃ d ∈ borrowedEngine.db.datoms, d.entity ≠ 17
              ∧ ∀ c ∈ r.after.datoms, c.restates d = false)
      ∧ (start (fun _ => 0)).UpdatesTo (.int 17) overriding
          (fun r =>
            ∃ d ∈ r.facts, d.entity ≠ 17
              ∧ (start (fun _ => 0)).isOwnInstant d
                = false) := by
  have hResolved :
      ∃ found,
        borrowedEngine.db.resolve borrowedSpec = .ok found
          ∧ found = some secondTx := by
    decide +kernel
  refine
    ⟨.single ⟨borrowingData, trivial, rfl⟩, ?_, ?_,
      by decide +kernel, by decide +kernel,
      by decide +kernel⟩
  · simp only [overriding, unindexing, List.forall_mem_cons]
    refine ⟨?_, ?_, fun _ h => absurd h List.not_mem_nil⟩
    · rintro _ ⟨⟩
      decide +kernel
    · rintro _ ⟨⟩
      decide +kernel
  · rcases hResolved with ⟨_, hSpec, rfl⟩
    exact hSpec

end Engine

end FactBase
