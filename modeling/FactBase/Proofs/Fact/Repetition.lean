import FactBase.Proofs.Fact.Idents
import FactBase.Proofs.Fact.Rearrangement

/-
  This file shows that an update made twice changes nothing
  the second time.  In databases where no entity has two
  idents, the keys of a map name different attributes, so each
  value that the first transaction leaves is still there for
  the second to find.

  Key definitions include:
    * `Database.Updates`
    * `Database.Accepts`
    * `Statement.ofEntry`
    * `Engine.updating`

  Key theorems include:
    * `Database.WellNamed.eq_of_eid_eq`
    * `Database.WellNamed.ordinary`
    * `Transacting.admits_of_exec`
    * `Engine.stating_again`
    * `Engine.RunOf.transact_again`
-/

------------------------------------------------------------
-- Names in Well-Named Databases
------------------------------------------------------------

namespace FactBase

open Sorting

namespace Database

variable {db : Database}
variable {s s' : String}
variable {attr attr' : Installed}

/- An installed attribute has one name only. -/
theorem WellNamed.eq_of_eid_eq
    (h : db.WellNamed)
    (hAttr : db.installed (.str s) = .ok attr)
    (hAttr' : db.installed (.str s') = .ok attr')
    (hSame : attr.eid = attr'.eid) : s = s' := by
  have hFound := (installed_eq_ok.mp hAttr).2.1
  have hFound' := (installed_eq_ok.mp hAttr').2.1
  have hMem := h.named.keys.find?_eq_some_iff.mp hFound
  have hMem' := h.named.keys.find?_eq_some_iff.mp hFound'
  exact Value.str.inj (h.eq_of_entity_eq hMem hMem' hSame)

/- So it is ordinary unless it is followed by its name. -/
theorem WellNamed.ordinary
    (h : db.WellNamed)
    (hAttr : db.installed (.str s) = .ok attr)
    (hOther : s ∉ followedIdents) : db.Ordinary attr.eid := by
  intro s' hs' attr' hAttr' hSame
  exact
    hOther (h.eq_of_eid_eq hAttr' hAttr hSame ▸ hs')

/-
  An entry of a map that names the entity, or gives it a value
  for a keyword that is read forward and names no attribute
  that is followed.  The attribute can store the value.
-/
inductive Updates (db : Database) :
    Value × Value → Prop where
  | id (spec : Value) : Updates db (.str "db/id", spec)
  | forward
      {name : String}
      {v : Value}
      (hKeyword : Keyword.isKeyword name = true)
      (hForward : Transacting.turnedAround? (.str name) = none)
      (hOther : name ∉ followedIdents)
      (hStores :
        ∀ attr, db.installed (.str name) = .ok attr →
          attr.schema.Stores v) :
      Updates db (.str name, v)

end Database

------------------------------------------------------------
-- Maps as Statements
------------------------------------------------------------

/- What an entry of a map states of an entity. -/
def Statement.ofEntry
    (eid : Int)
    (entry : Value × Value) : Statement where
  entity := eid
  attr := entry.1.str?.getD ""
  value := entry.2

/- What the entries of a map state of an entity. -/
def Statement.ofEntries
    (eid : Int)
    (entries : List (Value × Value)) : List Statement :=
  (Transacting.statements entries).map (ofEntry eid)

namespace Transacting

variable {g : Ground}
variable {w : Working}
variable {eid : Int}
variable {entries : List (Value × Value)}

/- Adding what updates an entity is to state it. -/
theorem additions_eq
    (hEntries : ∀ entry ∈ entries, g.db.Updates entry) :
    additions (.int eid) entries
      = (Statement.ofEntries eid entries).map
        Statement.item := by
  unfold additions Statement.ofEntries
  rw [List.map_map]
  apply List.map_congr_left
  intro entry hEntry
  rcases List.mem_filter.mp hEntry with ⟨hMem, hStates⟩
  cases hEntries entry hMem with
  | id spec => simp [Value.str?] at hStates
  | forward hKeyword hForward hOther hStores =>
      unfold additionOf
      rw [hForward]
      rfl

/- A map that updates an entity makes statements. -/
theorem exec_updates
    (hId : Value.field? entries "db/id" = some (.int eid))
    (hEntries : ∀ entry ∈ entries, g.db.Updates entry) :
    exec (applyItem (.map entries)) g w
      = exec
        (((Statement.ofEntries eid entries).map
          Statement.item).forM applyItem) g w := by
  have hDescribes :
      ∀ entry ∈ entries, g.db.Describes entry := by
    intro entry hEntry
    cases hEntries entry hEntry with
    | id spec => exact .id spec
    | forward hKeyword hForward _ _ =>
        exact .forward hKeyword hForward _
  rw [exec_map hId (.int eid) hDescribes,
    additions_eq hEntries]
  rfl

/- Where all steps succeed, each of them does. -/
theorem exists_exec_of_forM
    {α : Type}
    {f : α → Transacting Unit}
    {xs : List α}
    (h : (exec (xs.forM f) g w).1 = .ok ())
    {x : α}
    (hx : x ∈ xs) :
    ∃ w', (exec (f x) g w').1 = .ok () := by
  induction xs generalizing w with
  | nil => cases hx
  | cons y xs ih =>
      rw [exec_forM_cons] at h
      rcases hFirst : exec (f y) g w with ⟨fault | _, w'⟩
      · rw [hFirst] at h
        cases h
      · rw [hFirst] at h
        rcases List.mem_cons.mp hx with rfl | hx
        · exact ⟨w, by rw [hFirst]⟩
        · exact ih h hx

/-
  A statement whose item could be applied is admitted, if the
  attribute can store its value.
-/
theorem admits_of_exec
    {s : Statement}
    (h : (exec (applyItem s.item) g w).1 = .ok ())
    (hStores :
      ∀ attr, g.db.installed (.str s.attr) = .ok attr →
        attr.schema.Stores s.value) :
    g.db.Admits s := by
  rcases hAttr : g.db.installed (.str s.attr) with fault | attr
  · have hFails :
        exec (applyItem s.item) g w = (.error fault, w) := by
      change
        exec (onValues add s.entity (.str s.attr) s.value) g w
          = _
      unfold onValues
      rw [exec_bind, exec_installed, hAttr]
    rw [hFails] at h
    cases h
  · exact ⟨attr, hAttr, hStores attr hAttr⟩

end Transacting

namespace Database

variable {db : Database}
variable {eid : Int}
variable {entries : List (Value × Value)}

/- Entries of a map with one key are one entry. -/
private theorem eq_of_key_eq
    (hKeys : (Value.map entries).tidy = true)
    {a b : Value × Value}
    (ha : a ∈ entries)
    (hb : b ∈ entries)
    (hSame : a.1 = b.1) : a = b := by
  have hApart := Value.apart_iff.mp hKeys
  have hNodup : (entries.map Prod.fst).Nodup := by
    refine hApart.imp ?_
    rintro v w hDiffer rfl
    rw [Value.same_refl] at hDiffer
    cases hDiffer
  exact List.inj_on_of_nodup_map hNodup ha hb hSame

/- What the entries of an update state is from one of them. -/
theorem exists_of_mem_ofEntries
    (hEntries : ∀ entry ∈ entries, db.Updates entry)
    {s : Statement}
    (hs : s ∈ Statement.ofEntries eid entries) :
    s.entity = eid
      ∧ (.str s.attr, s.value) ∈ entries
      ∧ s.attr ∉ followedIdents
      ∧ ∀ attr, db.installed (.str s.attr) = .ok attr →
          attr.schema.Stores s.value := by
  rcases List.mem_map.mp hs with ⟨entry, hEntry, rfl⟩
  rcases List.mem_filter.mp hEntry with ⟨hMem, hStates⟩
  cases hEntries entry hMem with
  | id spec => simp [Value.str?] at hStates
  | forward hKeyword hForward hOther hStores =>
      exact ⟨rfl, hMem, hOther, hStores⟩

/- The entries of one map are compatible. -/
theorem WellNamed.compatible
    (h : db.WellNamed)
    (hKeys : (Value.map entries).tidy = true)
    (hEntries : ∀ entry ∈ entries, db.Updates entry) :
    db.Compatible (Statement.ofEntries eid entries) := by
  intro s hs s' hs' attr hAttr attr' hAttr' _ hSame _
  have hName := h.eq_of_eid_eq hAttr hAttr' hSame
  have hMem := (exists_of_mem_ofEntries hEntries hs).2.1
  have hMem' := (exists_of_mem_ofEntries hEntries hs').2.1
  have hEq :=
    eq_of_key_eq hKeys hMem hMem' (congrArg Value.str hName)
  rw [(Prod.mk.inj hEq).2]
  exact Value.same_refl _

/-
  The database takes the statements for facts only: they are
  admitted and compatible, and neither they nor the instant
  are about attributes that it follows.
-/
structure Accepts
    (db : Database)
    (instant : Installed)
    (ss : List Statement) : Prop where
  timed : db.installed (.str "db/txInstant") = .ok instant
  time : db.Ordinary instant.eid
  admits : ∀ s ∈ ss, db.Admits s
  compatible : db.Compatible ss
  plain : db.Plain ss

/- That depends on the installed attributes only. -/
theorem Accepts.of_installed_eq
    {other : Database}
    {instant : Installed}
    {ss : List Statement}
    (h : db.Accepts instant ss)
    (hInstalled : other.installed = db.installed) :
    other.Accepts instant ss where
  timed := by
    rw [hInstalled]
    exact h.timed
  time := by
    simpa only [Ordinary, hInstalled] using h.time
  admits := by
    simpa only [Admits, hInstalled] using h.admits
  compatible := by
    simpa only [Compatible, hInstalled] using h.compatible
  plain := by
    simpa only [Plain, Ordinary, hInstalled] using h.plain

end Database

------------------------------------------------------------
-- Updates
------------------------------------------------------------

namespace Engine

variable {e : Engine}
variable {eid : Int}
variable {entries : List (Value × Value)}
variable {ss : List Statement}
variable {instant : Installed}

/- Transaction data that updates an entity by one map. -/
def updating (entries : List (Value × Value)) : Value :=
  .list [.map entries]

/- What such statements lead to differs in its facts only. -/
theorem fst_transact_of_accepts
    (h : e.db.Accepts instant ss)
    (hFollows : e.db.Follows) :
    (e.transact (stating ss)).1
      = .ok
        { before := e.db
          after :=
            { e.db with
              basis := e.db.basis + 1
              datoms := (e.stated instant ss).datoms }
          facts := (e.stated instant ss).log
          tempids := [] } := by
  have hLog :
      ∀ d ∈ (e.stated instant ss).log,
        e.db.Ordinary d.attr := by
    rcases exists_log_stated h.admits h.compatible h.plain instant
      with ⟨entries, hLog, hEntries⟩
    rw [hLog, List.forall_mem_append]
    refine ⟨?_, hEntries⟩
    intro d hd
    rw [(about_log_timed d hd).2]
    exact h.time
  rw [fst_transact_stating h.timed h.admits,
    Database.afterLog_of_ordinary hFollows hLog]
  rfl

/-
  Where all facts that statements have led to are still there,
  stating the same again enters nothing.
-/
theorem stated_of_stated
    (h : e.db.Accepts instant ss)
    {next : Engine}
    (hInstalled : next.db.installed = e.db.installed)
    (hDatoms : next.db.datoms = (e.stated instant ss).datoms)
    (hNew : ∀ d ∈ next.db.datoms, d.entity ≠ next.ground.tx) :
    next.stated instant ss = next.timed instant := by
  have hAssertions : next.db.assertions = e.db.assertions := by
    funext s
    simp only [Database.assertions, hInstalled]
  unfold stated
  rw [hAssertions]
  refine Ledger.enterAll_of_known ?_
  intro a ha
  have hKnown :=
    (entered_stated h.admits h.compatible instant).known a ha
  rcases Ledger.knows_iff.mp hKnown with
    ⟨d, hd, hEntity, hAttr, hSame⟩
  rw [timed_of_new hNew]
  refine
    Ledger.knows_iff.mpr
      ⟨d, List.mem_append_left _ ?_, hEntity, hAttr, hSame⟩
  change d ∈ next.db.datoms
  rw [hDatoms]
  exact hd

/-
  Making the same statements again finds all of them in place
  and adds nothing but the instant.
-/
theorem stating_again
    (h : e.db.Accepts instant ss)
    {r : TxResult}
    (hFirst : (e.transact (stating ss)).1 = .ok r)
    {next : Engine}
    (hNext : next.db = r.after)
    (hNew : ∀ d ∈ r.after.datoms, d.entity ≠ next.ground.tx) :
    next.db.installed = e.db.installed
      ∧ (next.transact (stating ss)).1
        = .ok
          { before := r.after
            after :=
              { r.after with
                basis := r.after.basis + 1
                datoms :=
                  r.after.datoms ++ [next.timeFact instant] }
            facts := [next.timeFact instant]
            tempids := [] } := by
  have hFollows : e.db.Follows := by
    rw [fst_transact_stating h.timed h.admits] at hFirst
    rcases bind_eq_ok.mp hFirst with ⟨after, hAfter, _⟩
    exact Database.follows_of_afterLog hAfter
  rw [fst_transact_of_accepts h hFollows] at hFirst
  have hResult := Except.ok.inj hFirst
  have hInstalled : next.db.installed = e.db.installed := by
    rw [hNext, ← hResult]
    rfl
  have hDatoms :
      next.db.datoms = (e.stated instant ss).datoms := by
    rw [hNext, ← hResult]
  have hNextFollows : next.db.Follows := by
    simpa only [Database.Follows, hInstalled] using hFollows
  refine ⟨hInstalled, ?_⟩
  rw [fst_transact_of_accepts (h.of_installed_eq hInstalled)
      hNextFollows,
    stated_of_stated h hInstalled hDatoms (hNext ▸ hNew),
    timed_of_new (hNext ▸ hNew), hNext]
  rfl

/- A map that updates an entity does what its entries state. -/
theorem fst_transact_updating
    (hId : Value.field? entries "db/id" = some (.int eid))
    (hEntries : ∀ entry ∈ entries, e.db.Updates entry) :
    (e.transact (updating entries)).1
      = (e.transact
          (stating (Statement.ofEntries eid entries))).1 := by
  have hItems (w : Working) :
      Transacting.exec
          ([Value.map entries].forM Transacting.applyItem)
          e.ground w
        = Transacting.exec
          (((Statement.ofEntries eid entries).map
            Statement.item).forM Transacting.applyItem)
          e.ground w := by
    rw [Transacting.exec_forM_singleton]
    exact Transacting.exec_updates hId hEntries
  have hSteps :
      Transacting.exec (e.steps [.map entries]) e.ground
          e.opened
        = Transacting.exec
          (e.steps
            ((Statement.ofEntries eid entries).map
              Statement.item)) e.ground e.opened := by
    simp only [steps, Transacting.exec_bind, hItems]
  change (e.transactItems _).1 = (e.transactItems _).1
  rw [fst_transactItems, fst_transactItems, hSteps]

/- What was committed had only statements that are admitted. -/
theorem admits_of_transact
    {r : TxResult}
    (h : (e.transact (stating ss)).1 = .ok r)
    (hStores :
      ∀ s ∈ ss, ∀ attr,
        e.db.installed (.str s.attr) = .ok attr →
          attr.schema.Stores s.value) :
    (∃ instant,
        e.db.installed (.str "db/txInstant") = .ok instant)
      ∧ ∀ s ∈ ss, e.db.Admits s := by
  change (e.transactItems _).1 = _ at h
  rcases hInstant : e.db.installed (.str "db/txInstant") with
    fault | instant
  · rw [fst_transactItems_of_no_instant hInstant] at h
    cases h
  refine ⟨⟨instant, rfl⟩, ?_⟩
  intro s hs
  rw [fst_transactItems,
    exec_steps_of_add hInstant (add_timed instant)] at h
  generalize hExec :
    Transacting.exec
      ((ss.map Statement.item).forM Transacting.applyItem)
      e.ground _ = result at h
  rcases result with ⟨fault | _, w⟩
  · cases h
  · have hDone := congrArg Prod.fst hExec
    rcases Transacting.exists_exec_of_forM hDone
      (List.mem_map_of_mem hs) with ⟨w', hItem⟩
    exact Transacting.admits_of_exec hItem (hStores s hs)

/-
  In every state that transactions lead to which spare the
  idents of the first database, an update of an entity that
  was committed can be made again, by any transaction that is
  not an entity yet.  It adds nothing but its instant, and
  leaves all other facts, the idents, the attributes and the
  partitions as they are.
-/
theorem RunOf.transact_again
    {clock : Nat → Int}
    (hRun :
      RunOf (fun r => ∀ d ∈ r.facts, d.SparesIdents)
        (start clock) e)
    (hKeys : (Value.map entries).tidy = true)
    (hId : Value.field? entries "db/id" = some (.int eid))
    (hEntries : ∀ entry ∈ entries, e.db.Updates entry)
    {r : TxResult}
    (hFirst : (e.transact (updating entries)).1 = .ok r)
    (hNew :
      ∀ d ∈ r.after.datoms,
        d.entity
          ≠ (e.transact (updating entries)).2.ground.tx) :
    ∃ (instant : Installed) (r' : TxResult),
      r.after.installed (.str "db/txInstant") = .ok instant
        ∧ ((e.transact (updating entries)).2.transact
              (updating entries)).1 = .ok r'
        ∧ r'.facts
            = [(e.transact
                (updating entries)).2.timeFact instant]
        ∧ r'.after.datoms = r.after.datoms ++ r'.facts
        ∧ r'.after.idents = r.after.idents
        ∧ r'.after.attributes = r.after.attributes
        ∧ r'.after.partitions = r.after.partitions := by
  have hNamed : e.db.WellNamed :=
    hRun.invariant Database.WellNamed
      (fun _ _ _ hCommits hSpares hSoFar =>
        hSoFar.after hCommits hSpares)
      (Database.wellNamed_database _)
  generalize hNext : (e.transact (updating entries)).2 = next
    at hNew ⊢
  have hNextDb : next.db = r.after := by
    rcases commits_of_transact hFirst with ⟨_, _, hDb⟩
    rw [← hNext, hDb]
  have hStating := hFirst
  rw [fst_transact_updating hId hEntries] at hStating
  have hEach :
      ∀ s ∈ Statement.ofEntries eid entries,
        s.attr ∉ Database.followedIdents
          ∧ ∀ attr, e.db.installed (.str s.attr) = .ok attr →
              attr.schema.Stores s.value :=
    fun s hs =>
      (Database.exists_of_mem_ofEntries hEntries hs).2.2
  rcases admits_of_transact hStating (fun s hs => (hEach s hs).2)
    with ⟨⟨instant, hInstant⟩, hAdmits⟩
  have hAccepts :
      e.db.Accepts instant (Statement.ofEntries eid entries) :=
    { timed := hInstant
      time := hNamed.ordinary hInstant (by decide)
      admits := hAdmits
      compatible := hNamed.compatible hKeys hEntries
      plain :=
        fun s hs attr hAttr =>
          hNamed.ordinary hAttr (hEach s hs).1 }
  rcases stating_again hAccepts hStating hNextDb hNew with
    ⟨hInstalled, hAgain⟩
  have hEntriesAgain :
      ∀ entry ∈ entries, next.db.Updates entry := by
    intro entry hEntry
    cases hEntries entry hEntry with
    | id spec => exact .id spec
    | forward hKeyword hForward hOther hStores =>
        exact
          .forward hKeyword hForward hOther
            (hInstalled ▸ hStores)
  rw [← fst_transact_updating hId hEntriesAgain] at hAgain
  refine ⟨instant, _, ?_, hAgain, rfl, rfl, rfl, rfl, rfl⟩
  rw [← hNextDb, hInstalled, hInstant]

/-
  A map about an entity that has parts: it gets one part that
  it has and one that is new, which is listed twice, and a
  text.
-/
def memberUpdate : List (Value × Value) :=
  [ (.str "db/id", .int memberId)
  , (.str "group/member",
      .list [.int 6, .int (memberId + 1), .int 6])
  , (.str "db/doc", .str "whole") ]

/- The first transaction tells of three facts, the second of one. -/
theorem transact_again_memberEngine :
    (Value.map memberUpdate).tidy = true
      ∧ Value.field? memberUpdate "db/id"
          = some (.int memberId)
      ∧ (∀ entry ∈ memberUpdate, memberEngine.db.Updates entry)
      ∧ ∃ r r' : TxResult,
          (memberEngine.transact (updating memberUpdate)).1
              = .ok r
            ∧ r.facts.length = 3
            ∧ ((memberEngine.transact
                  (updating memberUpdate)).2.transact
                    (updating memberUpdate)).1 = .ok r'
            ∧ r'.facts.length = 1
            ∧ r'.after.datoms = r.after.datoms ++ r'.facts := by
  have hRun :
      RunOf (fun r => ∀ d ∈ r.facts, d.SparesIdents)
        (start (fun _ => 0)) memberEngine :=
    (Relation.ReflTransGen.single
      (nextOf_sparesIdents (by decide +kernel))).tail
        (nextOf_sparesIdents (by decide +kernel))
  have hKeys : (Value.map memberUpdate).tidy = true := by
    decide +kernel
  have hId :
      Value.field? memberUpdate "db/id"
        = some (.int memberId) := by
    simp [memberUpdate, Value.field?, Table.find?]
  have hEntries :
      ∀ entry ∈ memberUpdate, memberEngine.db.Updates entry := by
    simp only [memberUpdate, List.forall_mem_cons]
    refine ⟨.id _, ?_, ?_, fun _ h => absurd h List.not_mem_nil⟩
    · exact
        .forward (by decide +kernel) (by decide +kernel)
          (by decide) (by decide +kernel)
    · exact
        .forward (by decide +kernel) (by decide +kernel)
          (by decide) (by decide +kernel)
  have hSeen :
      (memberEngine.transact
          (updating memberUpdate)).1.toOption.any (fun r =>
        r.facts.length == 3
          && r.after.datoms.all (fun d =>
            d.entity
              != (memberEngine.transact
                (updating memberUpdate)).2.ground.tx))
        = true := by
    decide +kernel
  rcases hFirst :
      (memberEngine.transact (updating memberUpdate)).1 with
    fault | r
  · rw [hFirst] at hSeen
    cases hSeen
  simp only [hFirst, Except.toOption, Option.any_some,
    Bool.and_eq_true, beq_iff_eq, List.all_eq_true,
    bne_iff_ne] at hSeen
  rcases RunOf.transact_again hRun hKeys hId hEntries hFirst
      hSeen.2 with ⟨instant, r', _, hAgain, hFacts, hDatoms, _⟩
  refine
    ⟨hKeys, hId, hEntries, r, r', rfl, hSeen.1, hAgain, ?_,
      hDatoms⟩
  rw [hFacts]
  rfl

end Engine

end FactBase
