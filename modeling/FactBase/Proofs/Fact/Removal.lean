import FactBase.Proofs.Fact.Run
import FactBase.Proofs.Fact.Sweep

/-
  This file shows what a transaction does that retracts one
  entity: it is committed exactly if the database can take
  note of it, and then the facts that go with the entity and
  its parts are gone, each with one entry in the log.

  Key definitions include:
    * `Database.GoesWith`
    * `Database.CanForget`
    * `Database.CanLose`
    * `Engine.timeFact`
    * `Engine.retractionOf`

  Key theorems include:
    * `Ledger.add_of_unknown`
    * `Ledger.retractEntities_timed`
    * `Database.exists_afterLog_iff`
    * `Database.canLose_iff`
    * `Engine.retractionOf_removes`
-/

------------------------------------------------------------
-- What Goes with an Entity
------------------------------------------------------------

namespace FactBase

open Sorting

namespace Database

/- The fact is about a part of the entity or refers to one. -/
def GoesWith
    (db : Database)
    (eid : Int)
    (d : Datom) : Prop :=
  db.HasPart db.datoms eid d.entity
    ∨ (db.isRef d.attr = true
      ∧ ∃ n, db.HasPart db.datoms eid n
        ∧ d.value.isInt n = true)

/-
  The database can take note that an entity is retracted: its
  idents name the attributes that each transaction needs, the
  instant is not taken for something to install, and what is
  retracted as an ident can be looked up as one.
-/
def CanForget
    (db : Database)
    (eid : Int) : Prop :=
  ∃ instant ident newAttr newPart,
    db.installed (.str "db/txInstant") = .ok instant
      ∧ db.installed (.str "db/ident") = .ok ident
      ∧ db.installed (.str "db.install/attribute")
          = .ok newAttr
      ∧ db.installed (.str "db.install/partition")
          = .ok newPart
      ∧ instant.eid ≠ newAttr.eid
      ∧ instant.eid ≠ newPart.eid
      ∧ ∀ d ∈ db.datoms, db.GoesWith eid d →
          d.attr = ident.eid → d.value.hashable = true

/- A fact without an integer makes no entity a part. -/
theorem hasPart_append_singleton
    {db : Database}
    {datoms : List Datom}
    {time : Datom}
    (hTime : ∀ n, time.value.isInt n = false)
    (eid n : Int) :
    db.HasPart (datoms ++ [time]) eid n
      ↔ db.HasPart datoms eid n := by
  constructor
  · intro h
    induction h with
    | self => exact .self
    | @part d n hFact _ hComponent hValue ih =>
        rcases List.mem_append.mp hFact with hFact | hFact
        · exact .part hFact ih hComponent hValue
        · rcases List.mem_singleton.mp hFact with rfl
          rw [hTime n] at hValue
          cases hValue
  · intro h
    induction h with
    | self => exact .self
    | part hFact _ hComponent hValue ih =>
        exact
          .part (List.mem_append_left _ hFact) ih hComponent
            hValue

/- It does not go with an entity, unless it is about a part. -/
theorem not_goesWith
    {db : Database}
    {eid : Int}
    {time : Datom}
    (hTime : ∀ n, time.value.isInt n = false)
    (hApart : ¬db.HasPart db.datoms eid time.entity) :
    ¬db.GoesWith eid time := by
  rintro (hOwn | ⟨_, n, _, hValue⟩)
  · exact hApart hOwn
  · rw [hTime n] at hValue
    cases hValue

/- What involves one of all the parts goes with the entity. -/
theorem any_involves_iff
    {db : Database}
    {eid : Int}
    {parts : List Int}
    (hParts : ∀ n, n ∈ parts ↔ db.HasPart db.datoms eid n)
    (d : Datom) :
    parts.any (fun n => db.involves n d) = true
      ↔ db.GoesWith eid d := by
  simp only [List.any_eq_true, hParts, involves,
    Bool.or_eq_true, Bool.and_eq_true, beq_iff_eq, GoesWith]
  constructor
  · rintro ⟨n, hn, rfl | ⟨hRef, hValue⟩⟩
    · exact .inl hn
    · exact .inr ⟨hRef, n, hn, hValue⟩
  · rintro (hOwn | ⟨hRef, n, hn, hValue⟩)
    · exact ⟨d.entity, hOwn, .inl rfl⟩
    · exact ⟨n, hn, .inr ⟨hRef, hValue⟩⟩

end Database

------------------------------------------------------------
-- The Facts that Are Left
------------------------------------------------------------

namespace Ledger

variable {db : Database}
variable {tx : Int}

/-
  A value that differs from those there are is entered at the
  end, if there are none or there may be many.
-/
theorem add_of_new
    {entity : Int}
    {attr : Installed}
    {v : Value}
    {l : Ledger}
    (hNew :
      ∀ d ∈ l.about entity attr.eid,
        d.value.equals v = .ok false)
    (hRoom :
      l.about entity attr.eid = [] ∨ attr.schema.many = true) :
    l.add tx entity attr v
      = .ok
        (l.append
          { entity := entity
            attr := attr.eid
            value := v
            tx := tx
            added := true
            origin := l.nextOrigin tx }) := by
  have hAbsent :
      (l.about entity attr.eid).anyM
          (fun d => d.value.equals v)
        = (.ok false : Outcome Bool) := by
    rw [Outcome.anyM_congr
      (q := fun _ => (pure false : Outcome Bool))
      (List.forall₂_same.mpr hNew), List.anyM_pure]
    simp [pure, Except.pure]
  unfold add
  simp only [hAbsent, ok_bind, Bool.false_eq_true, if_false]
  rcases hRoom with hNone | hMany
  · rw [hNone]
    cases attr.schema.many <;> rfl
  · rw [if_pos hMany]
    rfl

/- A value of an unknown entity is entered at the end. -/
theorem add_of_unknown
    {entity : Int}
    {l : Ledger}
    (h : ∀ d ∈ l.datoms, d.entity ≠ entity)
    (attr : Installed)
    (v : Value) :
    l.add tx entity attr v
      = .ok
        (l.append
          { entity := entity
            attr := attr.eid
            value := v
            tx := tx
            added := true
            origin := l.nextOrigin tx }) := by
  have hNone : l.about entity attr.eid = [] := by
    unfold about
    rw [List.filter_eq_nil_iff]
    intro d hd
    simp [h d hd]
  refine add_of_new ?_ (.inl hNone)
  rw [hNone]
  exact nofun

open scoped Classical in
/-
  Retracting an entity after the instant of the transaction
  was entered leaves all facts that do not go with it.
-/
theorem retractEntities_timed
    {eid : Int}
    {time : Datom}
    (hDefined :
      ∀ d ∈ db.datoms, d.value.equals d.value = .ok true)
    (hRefs :
      ∀ d ∈ db.datoms, db.isRef d.attr = true →
        ∃ n : Int, d.value.isInt n = true)
    (hParts :
      ∀ attr : Int, db.isComponent attr = true →
        db.isRef attr = true)
    (hTime : ∃ t : Int, time.value = .instant t)
    (hApart : ¬db.HasPart db.datoms eid time.entity) :
    ∃ (l : Ledger) (gone : List Datom),
      retractEntities db tx [.int eid]
          ((Ledger.ofDatabase db).append time) = .ok l
        ∧ l.datoms =
            db.datoms.filter (fun d => ¬db.GoesWith eid d)
              ++ [time]
        ∧ l.log = time :: gone.map (·.retraction tx)
        ∧ gone.Perm
          (db.datoms.filter (fun d => db.GoesWith eid d)) := by
  rcases hTime with ⟨t, hTime⟩
  have hNoInt : ∀ n, time.value.isInt n = false := by
    intro n
    rw [hTime]
    rfl
  let start : Ledger := (Ledger.ofDatabase db).append time
  have hPart :
      ∀ n, db.HasPart start.datoms eid n
        ↔ db.HasPart db.datoms eid n :=
    Database.hasPart_append_singleton hNoInt eid
  have hStart :
      ∀ d ∈ start.datoms, d.value.isUndefined = false := by
    refine
      forall_mem_append_singleton.mpr ⟨?_, by rw [hTime]; rfl⟩
    intro d hd
    simpa [Value.equals_self] using hDefined d hd
  have hComponents :
      ∀ d ∈ start.datoms,
        db.HasPart start.datoms eid d.entity →
          db.isComponent d.attr = true →
            ∃ m, d.value.isInt m = true := by
    intro d hd hEntity hComponent
    rcases List.mem_append.mp hd with hd | hd
    · exact hRefs d hd (hParts d.attr hComponent)
    · rcases List.mem_singleton.mp hd with rfl
      exact absurd ((hPart _).mp hEntity) hApart
  rcases @retractEntities_eq db tx start eid hStart
      hComponents with
    ⟨parts, l, hRun, ⟨hDatoms, gone, hLog, hGone⟩, hMet⟩
  have hStays := Database.not_goesWith hNoInt hApart
  have hTest :
      (fun d => parts.any (fun n => db.involves n d))
        = fun d => decide (db.GoesWith eid d) := by
    funext d
    rw [Bool.eq_iff_iff, decide_eq_true_iff]
    exact
      Database.any_involves_iff
        (fun n => (hMet n).trans (hPart n)) d
  have hTaken :
      start.datoms.filter
          (fun d => parts.any (fun n => db.involves n d))
        = db.datoms.filter (fun d => db.GoesWith eid d) := by
    rw [hTest]
    change (db.datoms ++ [time]).filter _ = _
    simp [List.filter_append, hStays]
  have hLeft :
      start.datoms.filter
          (fun d => !parts.any (fun n => db.involves n d))
        = db.datoms.filter (fun d => ¬db.GoesWith eid d)
          ++ [time] := by
    simp only [congrFun hTest]
    change (db.datoms ++ [time]).filter _ = _
    simp [List.filter_append, hStays]
  exact
    ⟨l, gone, hRun, hDatoms.trans hLeft, hLog,
      hTaken ▸ hGone⟩

end Ledger

------------------------------------------------------------
-- Whether It Is Committed
------------------------------------------------------------

namespace Database

variable {db : Database}

/- What can be looked up as an ident can be followed. -/
theorem exists_followIdent_iff
    (idents : List (Value × Int))
    (d : Datom) :
    (∃ after, followIdent idents d = .ok after)
      ↔ d.value.hashable = true := by
  unfold followIdent Table.seek
  cases d.value.hashable with
  | false => simp [bind, Except.bind]
  | true =>
      refine iff_of_true ?_ rfl
      simp only [if_true, ok_bind]
      split
      · exact ⟨_, rfl⟩
      · split <;> exact ⟨_, rfl⟩

/- No attribute can be installed as an instant. -/
theorem not_installAttribute_instant
    (datoms : List Datom)
    (i j : Installations)
    (t : Int) :
    db.installAttribute datoms i (.instant t) ≠ .ok j := by
  intro h
  rcases bind_eq_ok.mp h with ⟨schema, hSchema, _⟩
  have hFacts :
      datoms.filter (fun d => (Value.instant t).isInt d.entity)
        = [] :=
    List.filter_eq_nil_iff.mpr (fun _ _ => Bool.false_ne_true)
  unfold defined definitionOf at hSchema
  rw [hFacts] at hSchema
  cases hSchema

/- No partition has an instant for its id. -/
theorem not_installPartition_instant
    (idents : List (Value × Int))
    (i j : Installations)
    (t : Int) :
    installPartition idents i (.instant t) ≠ .ok j := by
  intro h
  have hNone : lastIdentOf? idents (.instant t) = none := by
    unfold lastIdentOf?
    rw [Option.map_eq_none_iff, List.find?_eq_none]
    exact fun _ _ => Bool.false_ne_true
  unfold installPartition at h
  rw [hNone] at h
  cases h

/- The instant must not be of an attribute that installs. -/
theorem exists_installedBy_instant_iff
    {time : Datom}
    (hTime : ∃ t : Int, time.value = .instant t)
    (datoms : List Datom)
    (idents : List (Value × Int))
    (newAttr newPart : Installed)
    (i : Installations) :
    (∃ j, db.installedBy datoms idents newAttr newPart i time
        = .ok j)
      ↔ time.attr ≠ newAttr.eid ∧ time.attr ≠ newPart.eid := by
  rcases hTime with ⟨t, hTime⟩
  unfold installedBy
  rw [hTime]
  by_cases hAttr : time.attr = newAttr.eid
  · simp [hAttr, not_installAttribute_instant]
  · by_cases hPart : time.attr = newPart.eid
    · rw [if_neg (by simpa using hAttr),
        if_pos (beq_iff_eq.mpr hPart)]
      simp [hPart, not_installPartition_instant]
    · simp [hAttr, hPart, pure, Except.pure]

/-
  There is a database after a transaction that enters nothing
  but its instant, if the idents needed are there, the instant
  installs nothing, and what the log says of idents can be
  looked up.
-/
theorem exists_afterLog_iff
    {l : Ledger}
    (hInstants :
      ∀ d ∈ l.log, d.added = true →
        ∃ t : Int, d.value = .instant t) :
    (∃ after, db.afterLog l = .ok after)
      ↔ ∃ ident newAttr newPart,
          db.installed (.str "db/ident") = .ok ident
            ∧ db.installed (.str "db.install/attribute")
                = .ok newAttr
            ∧ db.installed (.str "db.install/partition")
                = .ok newPart
            ∧ (∀ d ∈ l.log, d.added = true →
                d.attr ≠ newAttr.eid ∧ d.attr ≠ newPart.eid)
            ∧ ∀ d ∈ l.log,
                d.attr = ident.eid →
                  d.value.hashable = true := by
  have hInstalls
      (idents : List (Value × Int))
      (newAttr newPart : Installed)
      (i : Installations) :
      (∃ j,
        (l.log.filter (fun d => d.added)).foldlM
          (db.installedBy l.datoms idents newAttr newPart) i
            = .ok j)
        ↔ ∀ d ∈ l.log, d.added = true →
            d.attr ≠ newAttr.eid ∧ d.attr ≠ newPart.eid := by
    rw [Outcome.exists_foldlM_eq_ok_iff
      (Q := fun d => d.attr ≠ newAttr.eid ∧ d.attr ≠ newPart.eid)]
    · simp only [List.mem_filter, and_imp]
    · intro d hd i
      rcases List.mem_filter.mp hd with ⟨hLog, hAdded⟩
      exact
        exists_installedBy_instant_iff
          (hInstants d hLog hAdded) _ _ _ _ i
  have hIdents
      (ident : Installed)
      (idents : List (Value × Int)) :
      (∃ after,
        (l.log.filter (fun d => d.attr == ident.eid)).foldlM
          followIdent idents = .ok after)
        ↔ ∀ d ∈ l.log,
            d.attr = ident.eid → d.value.hashable = true := by
    rw [Outcome.exists_foldlM_eq_ok_iff
      (Q := fun d => d.value.hashable = true)]
    · simp only [List.mem_filter, beq_iff_eq, and_imp]
    · exact fun d _ table => exists_followIdent_iff table d
  constructor
  · rintro ⟨after, hAfter⟩
    rcases afterLog_eq_ok.mp hAfter with
      ⟨ident, idents, newAttr, newPart, installs, hIdent,
        hFollow, hAttr, hPart, hInstall, _⟩
    exact
      ⟨ident, newAttr, newPart, hIdent, hAttr, hPart,
        (hInstalls _ _ _ _).mp ⟨installs, hInstall⟩,
        (hIdents ident _).mp ⟨idents, hFollow⟩⟩
  · rintro
      ⟨ident, newAttr, newPart, hIdent, hAttr, hPart, hNot,
        hHashable⟩
    rcases (hIdents ident db.idents).mpr hHashable with
      ⟨idents, hFollow⟩
    rcases (hInstalls idents newAttr newPart _).mpr hNot with
      ⟨installs, hInstall⟩
    exact
      ⟨_, afterLog_eq_ok.mpr
        ⟨ident, idents, newAttr, newPart, installs, hIdent,
          hFollow, hAttr, hPart, hInstall, rfl⟩⟩

/-
  The database can take note that facts are lost: its idents
  name the attributes that each transaction needs, the instant
  is not taken for something to install, and what is lost as
  an ident can be looked up as one.
-/
def CanLose
    (db : Database)
    (lost : List Datom) : Prop :=
  ∃ instant ident newAttr newPart,
    db.installed (.str "db/txInstant") = .ok instant
      ∧ db.installed (.str "db/ident") = .ok ident
      ∧ db.installed (.str "db.install/attribute")
          = .ok newAttr
      ∧ db.installed (.str "db.install/partition")
          = .ok newPart
      ∧ instant.eid ≠ newAttr.eid
      ∧ instant.eid ≠ newPart.eid
      ∧ ∀ d ∈ lost,
          d.attr = ident.eid → d.value.hashable = true

/-
  This is what a database needs to take note of an instant
  with retractions.
-/
theorem canLose_iff
    {l : Ledger}
    {instant : Installed}
    {time : Datom}
    {lost : List Datom}
    (hInstant :
      db.installed (.str "db/txInstant") = .ok instant)
    (hAttr : time.attr = instant.eid)
    (hAdded : time.added = true)
    (hTime : ∃ t : Int, time.value = .instant t)
    (hLog : l.log = time :: lost)
    (hLost : ∀ d ∈ lost, d.added = false) :
    db.CanLose lost ↔ ∃ after, db.afterLog l = .ok after := by
  have hInstalls (newAttr newPart : Installed) :
      (∀ d ∈ l.log, d.added = true →
          d.attr ≠ newAttr.eid ∧ d.attr ≠ newPart.eid)
        ↔ instant.eid ≠ newAttr.eid
          ∧ instant.eid ≠ newPart.eid := by
    rw [hLog, ← hAttr, List.forall_mem_cons]
    refine and_iff_left_of_imp ?_ |>.trans (by simp [hAdded])
    intro _ d hd hNew
    rw [hLost d hd] at hNew
    cases hNew
  have hHashable (ident : Installed) :
      (∀ d ∈ l.log,
          d.attr = ident.eid → d.value.hashable = true)
        ↔ ∀ d ∈ lost,
            d.attr = ident.eid → d.value.hashable = true := by
    rcases hTime with ⟨t, hTime⟩
    have hInstantKey : time.value.hashable = true := by
      rw [hTime]
      rfl
    rw [hLog, List.forall_mem_cons]
    simp only [hInstantKey, implies_true, true_and]
  rw [exists_afterLog_iff]
  · simp only [hInstalls, hHashable, CanLose, hInstant,
      Except.ok.injEq, exists_and_left, exists_eq_left',
      and_assoc]
  · rw [hLog, List.forall_mem_cons]
    refine ⟨fun _ => hTime, ?_⟩
    intro d hd hNew
    rw [hLost d hd] at hNew
    cases hNew

/- An entity can be retracted if its facts can be lost. -/
theorem canForget_iff
    (tx : Int)
    {eid : Int}
    {gone : List Datom}
    (hGone :
      ∀ d, d ∈ gone ↔ d ∈ db.datoms ∧ db.GoesWith eid d) :
    db.CanForget eid
      ↔ db.CanLose (gone.map (·.retraction tx)) := by
  have hLost (ident : Installed) :
      (∀ d ∈ gone.map (·.retraction tx),
          d.attr = ident.eid → d.value.hashable = true)
        ↔ ∀ d ∈ db.datoms, db.GoesWith eid d →
            d.attr = ident.eid → d.value.hashable = true := by
    rw [List.forall_mem_map]
    simp only [DatomOf.retraction, hGone, and_imp]
  simp only [CanForget, CanLose, hLost]

end Database

------------------------------------------------------------
-- The Steps of a Transaction
------------------------------------------------------------

namespace Transacting

variable {g : Ground}
variable {w : Working}

/- Looking up an attribute leaves the state alone. -/
theorem exec_installed (ident : Value) :
    exec (installed ident) g w
      = (g.db.installed ident, w) := rfl

/- Adding a value is a change of the facts. -/
theorem exec_add
    (eid : Int)
    (attr : Installed)
    (v : Value) :
    exec (add eid attr v) g w
      = exec (change (Ledger.add g.tx eid attr v)) g w := rfl

/- A step for the one item of a list. -/
theorem exec_forM_singleton
    {α : Type}
    (f : α → Transacting Unit)
    (x : α) :
    exec ([x].forM f) g w = exec (f x) g w := by
  change exec (f x >>= fun _ => pure ()) g w = _
  rw [exec_bind]
  rcases exec (f x) g w with ⟨_ | _, _⟩ <;> rfl

/- The item that retracts an entity. -/
def retractionItem (eid : Int) : Value :=
  .tuple [.str "db.fn/retractEntity", .int eid]

/- Applying it is a change of the facts. -/
theorem exec_retractionItem (eid : Int) :
    exec (applyItem (retractionItem eid)) g w
      = exec
        (change (Ledger.retractEntities g.db g.tx [.int eid]))
        g w := rfl

end Transacting

------------------------------------------------------------
-- Transactions
------------------------------------------------------------

namespace Engine

/- The fact that gives the instant of the next transaction. -/
def timeFact
    (e : Engine)
    (instant : Installed) : Datom where
  entity := e.ground.tx
  attr := instant.eid
  value := .instant (e.clock e.ticks)
  tx := e.ground.tx
  added := true
  origin := { tx := e.ground.tx, position := 0 }

/- Transaction data that retracts an entity. -/
def retractionOf (eid : Int) : Value :=
  .list [Transacting.retractionItem eid]

variable {e : Engine}

/-
  A transaction enters its instant before it comes to its
  items.
-/
theorem exec_steps_of_add
    {instant : Installed}
    {l : Ledger}
    (hInstant :
      e.db.installed (.str "db/txInstant") = .ok instant)
    (hAdd :
      (Ledger.ofDatabase e.db).add e.ground.tx e.ground.tx
          instant (.instant (e.clock e.ticks))
        = .ok l)
    (items : List Value) :
    Transacting.exec (e.steps items) e.ground e.opened
      = Transacting.exec (items.forM Transacting.applyItem)
        e.ground { e.opened with ledger := l } := by
  have hFirst :
      Transacting.exec
          (Transacting.installed (.str "db/txInstant"))
          e.ground e.opened
        = (.ok instant, e.opened) := by
    rw [Transacting.exec_installed]
    exact congrArg (·, e.opened) hInstant
  have hLedger :
      e.opened.ledger.add e.ground.tx e.ground.tx instant
          (.instant (e.clock e.ticks))
        = .ok l := hAdd
  rw [steps, Transacting.exec_bind, hFirst]
  simp only [Transacting.exec_bind, Transacting.exec_add,
    Transacting.exec_change, hLedger]

/- This is one more fact if it is not an entity yet. -/
theorem exec_steps
    {instant : Installed}
    (hInstant :
      e.db.installed (.str "db/txInstant") = .ok instant)
    (hNew : ∀ d ∈ e.db.datoms, d.entity ≠ e.ground.tx)
    (items : List Value) :
    Transacting.exec (e.steps items) e.ground e.opened
      = Transacting.exec (items.forM Transacting.applyItem)
        e.ground
        { e.opened with
          ledger :=
            (Ledger.ofDatabase e.db).append
              (e.timeFact instant) } :=
  exec_steps_of_add hInstant
    (Ledger.add_of_unknown hNew instant _) items

/- Without the ident of the instant, nothing is committed. -/
theorem fst_transactItems_of_no_instant
    {fault : Fault}
    (hInstant :
      e.db.installed (.str "db/txInstant") = .error fault)
    (items : List Value) :
    (e.transactItems items).1 = .error fault := by
  have hFirst :
      Transacting.exec
          (Transacting.installed (.str "db/txInstant"))
          e.ground e.opened
        = (.error fault, e.opened) := by
    rw [Transacting.exec_installed]
    exact congrArg (·, e.opened) hInstant
  rw [fst_transactItems, steps, Transacting.exec_bind, hFirst]

/- If it retracts an entity, that is a change of the facts. -/
theorem exec_steps_retraction
    {instant : Installed}
    (hInstant :
      e.db.installed (.str "db/txInstant") = .ok instant)
    (hNew : ∀ d ∈ e.db.datoms, d.entity ≠ e.ground.tx)
    (eid : Int) :
    Transacting.exec
        (e.steps [Transacting.retractionItem eid]) e.ground
        e.opened
      = Transacting.exec
        (Transacting.change
          (Ledger.retractEntities e.db e.ground.tx [.int eid]))
        e.ground
        { e.opened with
          ledger :=
            (Ledger.ofDatabase e.db).append
              (e.timeFact instant) } := by
  rw [exec_steps hInstant hNew,
    Transacting.exec_forM_singleton,
    Transacting.exec_retractionItem]
  rfl

/- What comes of it if the ident of the instant is there. -/
theorem fst_transact_retractionOf
    {instant : Installed}
    (hInstant :
      e.db.installed (.str "db/txInstant") = .ok instant)
    (hNew : ∀ d ∈ e.db.datoms, d.entity ≠ e.ground.tx)
    {eid : Int}
    {l : Ledger}
    (hRun :
      Ledger.retractEntities e.db e.ground.tx [.int eid]
          ((Ledger.ofDatabase e.db).append
            (e.timeFact instant))
        = .ok l) :
    (e.transact (retractionOf eid)).1 =
      (do
        let after ← e.db.afterLog l
        return {
          before := e.db
          after := after
          facts := l.log
          tempids := [] }) := by
  change (e.transactItems _).1 = _
  rw [fst_transactItems, exec_steps_retraction hInstant hNew,
    Transacting.exec_change]
  simp only [hRun]
  rfl

/- What comes of it if that ident is not there. -/
theorem fst_transact_of_no_instant
    {fault : Fault}
    (hInstant :
      e.db.installed (.str "db/txInstant") = .error fault)
    (eid : Int) :
    (e.transact (retractionOf eid)).1 = .error fault :=
  fst_transactItems_of_no_instant hInstant _

/-
  The facts are in order for an entity to be retracted.  No
  value is undefined, references are numbers that equal
  integers, and parts are references.  The next transaction is
  not yet an entity, nor is it a part of the entity.
-/
structure Orderly
    (e : Engine)
    (eid : Int) : Prop where
  defined :
    ∀ d ∈ e.db.datoms, d.value.equals d.value = .ok true
  references :
    ∀ d ∈ e.db.datoms, e.db.isRef d.attr = true →
      ∃ n : Int, d.value.isInt n = true
  parts :
    ∀ attr : Int, e.db.isComponent attr = true →
      e.db.isRef attr = true
  fresh : ∀ d ∈ e.db.datoms, d.entity ≠ e.ground.tx
  apart : ¬e.db.HasPart e.db.datoms eid e.ground.tx

open scoped Classical in
/-
  A transaction that retracts an entity is committed exactly
  if the database can take note of it.  All facts that go with
  the entity are gone then, the others are left in order, with
  the instant at their end.  The log has the instant and one
  retraction for each fact that is gone.
-/
theorem retractionOf_removes
    {eid : Int}
    (h : e.Orderly eid) :
    (e.db.CanForget eid
        ↔ ∃ r, (e.transact (retractionOf eid)).1 = .ok r)
      ∧ ∀ r, (e.transact (retractionOf eid)).1 = .ok r →
          ∃ (instant : Installed) (gone : List Datom),
            e.db.installed (.str "db/txInstant") = .ok instant
              ∧ r.after.datoms =
                  e.db.datoms.filter
                    (fun d => ¬e.db.GoesWith eid d)
                    ++ [e.timeFact instant]
              ∧ r.facts =
                  e.timeFact instant
                    :: gone.map (·.retraction e.ground.tx)
              ∧ gone.Perm
                (e.db.datoms.filter
                  (fun d => e.db.GoesWith eid d)) := by
  rcases hInstant : e.db.installed (.str "db/txInstant") with
    fault | instant
  · have hNone := fst_transact_of_no_instant hInstant eid
    rw [hNone]
    refine ⟨iff_of_false ?_ (by simp), by simp⟩
    rintro ⟨instant, _, _, _, hOther, _⟩
    rw [hInstant] at hOther
    cases hOther
  have hTime :
      ∃ t : Int, (e.timeFact instant).value = .instant t :=
    ⟨_, rfl⟩
  rcases Ledger.retractEntities_timed h.defined h.references
      h.parts hTime h.apart with
    ⟨l, gone, hRun, hLeft, hLog, hGone⟩
  have hResult :=
    fst_transact_retractionOf hInstant h.fresh hRun
  rw [hResult]
  constructor
  · have hMem :
        ∀ d, d ∈ gone
          ↔ d ∈ e.db.datoms ∧ e.db.GoesWith eid d := by
      simp [hGone.mem_iff]
    rw [Database.canForget_iff e.ground.tx hMem,
      Database.canLose_iff hInstant rfl rfl hTime hLog
        (by simp [DatomOf.retraction])]
    constructor
    · rintro ⟨after, hAfter⟩
      rw [hAfter]
      exact ⟨_, rfl⟩
    · rintro ⟨r, hOk⟩
      rcases bind_eq_ok.mp hOk with ⟨after, hAfter, _⟩
      exact ⟨after, hAfter⟩
  · intro r hOk
    rcases bind_eq_ok.mp hOk with ⟨after, hAfter, hEq⟩
    rw [pure_eq_ok] at hEq
    subst hEq
    refine ⟨instant, gone, rfl, ?_, hLog, hGone⟩
    rw [(Database.extends_afterLog hAfter).1]
    exact hLeft

------------------------------------------------------------
-- Engines to See It On
------------------------------------------------------------

/-
  A list with the parts of an entity, by which it can be seen
  that the facts are in order.
-/
def orderlyBy
    (e : Engine)
    (parts : List Int) : Bool :=
  !parts.contains e.ground.tx
    && e.db.attributes.all
      (fun a => !a.2.component.truthy || Schema.isRef a.2)
    && e.db.datoms.all (fun d =>
      !d.value.isUndefined
        && d.entity != e.ground.tx
        && (!e.db.isRef d.attr
          || d.value.isInt (d.value.int?.getD 0))
        && (!(parts.contains d.entity
            && e.db.isComponent d.attr)
          || parts.any (fun n => d.value.isInt n)))

/- Whatever such a list holds can be retracted in order. -/
theorem orderly_of_orderlyBy
    (parts : List Int)
    (h : e.orderlyBy parts = true)
    {eid : Int}
    (hWhole : eid ∈ parts) :
    e.Orderly eid := by
  simp only [orderlyBy, Bool.and_eq_true, Bool.not_eq_true',
    List.all_eq_true, Bool.or_eq_true, bne_iff_ne, ne_eq]
    at h
  rcases h with ⟨⟨hTx, hParts⟩, hFacts⟩
  refine ⟨?_, ?_, ?_, ?_, ?_⟩
  · intro d hd
    rw [Value.equals_self, (hFacts d hd).1.1.1]
    rfl
  · intro d hd hRef
    rcases (hFacts d hd).1.2 with hNot | hInt
    · rw [hRef] at hNot
      cases hNot
    · exact ⟨_, hInt⟩
  · intro attr hComponent
    unfold Database.isComponent at hComponent
    rcases hSchema : e.db.schemaOf? attr with _ | s
    · rw [hSchema] at hComponent
      cases hComponent
    · rw [hSchema] at hComponent
      rcases Table.mem_of_find? hSchema with ⟨k, hMem, _⟩
      rw [Database.isRef, hSchema]
      rcases hParts _ hMem with hNot | hRef
      · rw [Option.any_some] at hComponent
        rw [hComponent] at hNot
        cases hNot
      · exact hRef
  · exact fun d hd => (hFacts d hd).1.1.2
  · intro hPart
    have hMem := hPart.mem_of_closed hWhole (by
      intro d hd hEntity hComponent m hm
      rcases (hFacts d hd).2 with hNot | hAny
      · simp [hEntity, hComponent] at hNot
      · rcases List.any_eq_true.mp hAny with ⟨k, hk, hkm⟩
        exact Value.eq_of_isInt hkm hm ▸ hk)
    simp [hMem] at hTx

/- Transaction data that installs a part and a reference. -/
def memberAttribute : Value :=
  .list
    [ .map
        [ (.str "db/id", .tempid "db.part/db" (-1))
        , (.str "db.install/_attribute", .str "db.part/db")
        , (.str "db/ident", .str "group/member")
        , (.str "db/valueType", .str "db.type/ref")
        , (.str "db/cardinality", .str "db.cardinality/many")
        , (.str "db/isComponent", .bool true) ] ]

/-
  Transaction data with two entities that are parts of each
  other, and a third one with one of them for a part.
-/
def memberData : Value :=
  let entity (n : Int) : Value := .tempid "db.part/user" n
  let member (n m : Int) : Value :=
    .list
      [ .str "db/add", entity n, .str "group/member"
      , entity m ]
  .list
    [ member (-1) (-2), member (-2) (-1), member (-3) (-2)
    , .list
        [.str "db/add", entity (-3), .str "db/doc",
          .str "third"] ]

/- The engine after both transactions. -/
def memberEngine : Engine :=
  (((start (fun _ => 0)).transact
    memberAttribute).2.transact memberData).2

/- The first of the three entities. -/
def memberId : Int := EntityId.inPartition 2 0

open scoped Classical in
/-
  Retracting the first entity is committed, and what does not
  go with it is left.
-/
theorem retractionOf_removes_memberEngine :
    memberEngine.Orderly memberId
      ∧ memberEngine.db.CanForget memberId
      ∧ ∃ r,
          (memberEngine.transact (retractionOf memberId)).1
              = .ok r
            ∧ ∃ (instant : Installed) (gone : List Datom),
                r.after.datoms =
                    memberEngine.db.datoms.filter
                      (fun d =>
                        ¬memberEngine.db.GoesWith memberId d)
                      ++ [memberEngine.timeFact instant]
                  ∧ r.facts =
                      memberEngine.timeFact instant
                        :: gone.map
                          (·.retraction memberEngine.ground.tx)
                  ∧ gone.Perm
                    (memberEngine.db.datoms.filter
                      (fun d =>
                        memberEngine.db.GoesWith memberId d)) := by
  have hOrderly : memberEngine.Orderly memberId :=
    orderly_of_orderlyBy [memberId, memberId + 1]
      (by decide +kernel) List.mem_cons_self
  have hForgets : memberEngine.db.CanForget memberId := by
    have hNames :
        ∀ name ∈
            [ ("db/txInstant", 19), ("db/ident", 10)
            , ("db.install/attribute", 21)
            , ("db.install/partition", (20 : Int)) ],
          (memberEngine.db.installed
            (.str name.1)).toOption.map Installed.eid
              = some name.2 := by
      decide +kernel
    have hValues :
        ∀ d ∈ memberEngine.db.datoms,
          d.attr = 10 → d.value.hashable = true := by
      decide +kernel
    simp only [List.forall_mem_cons] at hNames
    rcases hNames with
      ⟨hInstantNamed, hIdentNamed, hAttrNamed, hPartNamed, _⟩
    rcases Database.exists_installed hInstantNamed with
      ⟨instant, hInstant, hInstantId⟩
    rcases Database.exists_installed hIdentNamed with
      ⟨ident, hIdent, hId⟩
    rcases Database.exists_installed hAttrNamed with
      ⟨newAttr, hAttr, hAttrId⟩
    rcases Database.exists_installed hPartNamed with
      ⟨newPart, hPart, hPartId⟩
    refine
      ⟨instant, ident, newAttr, newPart, hInstant, hIdent,
        hAttr, hPart, ?_, ?_, ?_⟩
    · simp [hInstantId, hAttrId]
    · simp [hInstantId, hPartId]
    · intro d hd _ hSame
      exact hValues d hd (hSame.trans hId)
  rcases retractionOf_removes hOrderly with ⟨hIff, hResult⟩
  rcases hIff.mp hForgets with ⟨r, hr⟩
  rcases hResult r hr with ⟨instant, gone, _, hKept⟩
  exact ⟨hOrderly, hForgets, r, hr, instant, gone, hKept⟩

/- Transaction data by which the instant has no ident. -/
def unnamedInstant : Value :=
  .list
    [ .list
        [ .str "db/retract", .int 19, .str "db/ident"
        , .str "db/txInstant" ] ]

/- The engine after that transaction. -/
def unnamedEngine : Engine :=
  ((start (fun _ => 0)).transact unnamedInstant).2

/-
  After that, no transaction is committed, though the facts
  are in order for an entity to be retracted.
-/
theorem not_removes_unnamedEngine :
    Run (fun _ => True) (start (fun _ => 0)) unnamedEngine
      ∧ unnamedEngine.Orderly 5
      ∧ ¬∃ r,
          (unnamedEngine.transact (retractionOf 5)).1
            = .ok r := by
  refine ⟨.single ⟨unnamedInstant, trivial, rfl⟩, ?_, ?_⟩
  · exact
      orderly_of_orderlyBy [5] (by decide +kernel)
        List.mem_cons_self
  · have hNone :
        (unnamedEngine.db.installed
          (.str "db/txInstant")).toOption.isNone = true := by
      decide +kernel
    rcases hInstant :
        unnamedEngine.db.installed (.str "db/txInstant") with
      fault | instant
    · rw [fst_transact_of_no_instant hInstant]
      simp
    · rw [hInstant] at hNone
      cases hNone

end Engine

end FactBase
