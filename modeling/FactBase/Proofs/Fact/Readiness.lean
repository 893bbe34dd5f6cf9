import FactBase.Proofs.Fact.Assertion
import FactBase.Proofs.Fact.Lookup

/-
  This file says when an engine can still commit anything at
  all.  Every transaction looks up four attributes by their
  idents, which a transaction may take away.  What is left of
  a transaction without items is its instant, and whether that
  is committed can be read off the state of the engine; it is
  as long as nothing was said about the four idents.

  Key definitions include:
    * `Engine.timed`
    * `Engine.CanCommit`
    * `TxResult.sparesNeeded`
    * `Database.NamesNeeded`

  Key theorems include:
    * `Engine.timed_of_new`
    * `Engine.fst_transactItems_of_exec`
    * `Engine.exists_transact_nil_iff`
    * `Database.NamesNeeded.after`
    * `Engine.transact_nil`
-/

------------------------------------------------------------
-- Transactions without Items
------------------------------------------------------------

namespace FactBase

open Sorting
open Bootstrap

/- A value that equals nothing can still be looked up. -/
theorem Value.hashable_of_isUndefined
    {v : Value}
    (h : v.isUndefined = true) : v.hashable = true := by
  cases v <;> first | rfl | cases h

namespace Engine

variable {e : Engine}

/- The facts once the instant of a transaction is entered. -/
def timed
    (e : Engine)
    (instant : Installed) : Ledger :=
  if (Ledger.ofDatabase e.db).knows e.ground.tx instant.eid
      (.instant (e.clock e.ticks))
  then .ofDatabase e.db
  else
    ((Ledger.ofDatabase e.db).cleared e.ground.tx e.ground.tx
      instant).append
      { e.timeFact instant with
        origin :=
          ((Ledger.ofDatabase e.db).cleared e.ground.tx
            e.ground.tx instant).nextOrigin e.ground.tx }

/- The instant is entered like any other value. -/
theorem add_timed (instant : Installed) :
    (Ledger.ofDatabase e.db).add e.ground.tx e.ground.tx
        instant (.instant (e.clock e.ticks))
      = .ok (e.timed instant) :=
  Ledger.add_definite _ _ _ rfl _

/- The instant of a transaction that is no entity yet. -/
theorem timed_of_new
    (hNew : ∀ d ∈ e.db.datoms, d.entity ≠ e.ground.tx)
    (instant : Installed) :
    e.timed instant
      = (Ledger.ofDatabase e.db).append (e.timeFact instant) := by
  have hAdd := add_timed (e := e) instant
  rw [Ledger.add_of_unknown hNew] at hAdd
  exact (Except.ok.inj hAdd).symm

/- Transaction data without items. -/
def noItems : Value := .list []

/-
  What comes of a transaction whose items only turn one ledger
  into another, if the ident of the instant is there.
-/
theorem fst_transactItems_of_exec
    {instant : Installed}
    (hInstant :
      e.db.installed (.str "db/txInstant") = .ok instant)
    {items : List Value}
    {l : Ledger}
    (hExec :
      Transacting.exec (items.forM Transacting.applyItem)
          e.ground { e.opened with ledger := e.timed instant }
        = (.ok (), { e.opened with ledger := l })) :
    (e.transactItems items).1 =
      (do
        let after ← e.db.afterLog l
        return {
          before := e.db
          after := after
          facts := l.log
          tempids := [] }) := by
  have hSteps :
      Transacting.exec (e.steps items) e.ground e.opened
        = (.ok (), { e.opened with ledger := l }) := by
    rw [← hExec]
    exact exec_steps_of_add hInstant (add_timed instant) items
  rw [fst_transactItems, hSteps]
  rfl

/- What comes of a transaction without items. -/
theorem fst_transact_noItems
    {instant : Installed}
    (hInstant :
      e.db.installed (.str "db/txInstant") = .ok instant) :
    (e.transact noItems).1 =
      (do
        let after ← e.db.afterLog (e.timed instant)
        return {
          before := e.db
          after := after
          facts := (e.timed instant).log
          tempids := [] }) :=
  fst_transactItems_of_exec hInstant rfl

/- Without it, nothing is committed. -/
theorem fst_transact_noItems_of_error
    {fault : Fault}
    (hInstant :
      e.db.installed (.str "db/txInstant") = .error fault) :
    (e.transact noItems).1 = .error fault :=
  fst_transactItems_of_no_instant hInstant []

------------------------------------------------------------
-- Whether They Are Committed
------------------------------------------------------------

/-
  The instant of the next transaction installs nothing, and if
  instants are idents, those that make room for it can be
  looked up.
-/
def InstantFits
    (e : Engine)
    (instant ident newAttr newPart : Installed) : Prop :=
  instant.eid ≠ newAttr.eid
    ∧ instant.eid ≠ newPart.eid
    ∧ (instant.eid = ident.eid →
        instant.schema.many = true
          ∨ ∀ d ∈ e.db.datoms,
              d.entity = e.ground.tx → d.attr = instant.eid →
                d.value.hashable = true)

/-
  An engine can commit a transaction without items: the four
  idents name attributes, and the instant of the transaction
  is known already, or else it fits.
-/
def CanCommit (e : Engine) : Prop :=
  ∃ instant ident newAttr newPart,
    e.db.installed (.str "db/txInstant") = .ok instant
      ∧ e.db.installed (.str "db/ident") = .ok ident
      ∧ e.db.installed (.str "db.install/attribute")
          = .ok newAttr
      ∧ e.db.installed (.str "db.install/partition")
          = .ok newPart
      ∧ ((∃ d ∈ e.db.datoms,
            d.entity = e.ground.tx ∧ d.attr = instant.eid
              ∧ d.value = .instant (e.clock e.ticks))
          ∨ e.InstantFits instant ident newAttr newPart)

/- All that the log says of entering an instant. -/
theorem log_timed_of_known
    {instant : Installed}
    (h :
      ∃ d ∈ e.db.datoms,
        d.entity = e.ground.tx ∧ d.attr = instant.eid
          ∧ d.value = .instant (e.clock e.ticks)) :
    (e.timed instant).log = [] := by
  rcases h with ⟨d, hd, hEntity, hAttr, hValue⟩
  have hKnows :
      (Ledger.ofDatabase e.db).knows e.ground.tx instant.eid
        (.instant (e.clock e.ticks)) = true := by
    refine List.any_eq_true.mpr ⟨d, hd, ?_⟩
    simp [Ledger.isAbout, hEntity, hAttr, hValue,
      Value.same_refl]
  unfold timed
  rw [if_pos hKnows]
  rfl

/-
  An instant that is not known comes last in the log, after
  what makes room for it.
-/
theorem mem_log_timed
    {instant : Installed}
    (h :
      ¬∃ d ∈ e.db.datoms,
        d.entity = e.ground.tx ∧ d.attr = instant.eid
          ∧ d.value = .instant (e.clock e.ticks)) :
    ∃ time : Datom,
      time.attr = instant.eid
        ∧ time.value = .instant (e.clock e.ticks)
        ∧ time.added = true
        ∧ ∀ d, d ∈ (e.timed instant).log ↔
            d = time
              ∨ instant.schema.many = false
                ∧ ∃ c ∈ e.db.datoms,
                    c.goesWith
                        (Ledger.isAbout e.ground.tx instant.eid)
                      = true
                      ∧ d = c.retraction e.ground.tx := by
  have hKnows :
      ¬(Ledger.ofDatabase e.db).knows e.ground.tx instant.eid
        (.instant (e.clock e.ticks)) = true := by
    intro hKnows
    rcases List.any_eq_true.mp hKnows with ⟨d, hd, hBoth⟩
    simp only [Ledger.isAbout, Bool.and_eq_true, beq_iff_eq,
      Value.same_bare_right_iff (b := .instant _) rfl] at hBoth
    exact h ⟨d, hd, hBoth.1.1, hBoth.1.2, hBoth.2⟩
  unfold timed
  rw [if_neg hKnows]
  refine
    ⟨{ e.timeFact instant with
        origin :=
          ((Ledger.ofDatabase e.db).cleared e.ground.tx
            e.ground.tx instant).nextOrigin e.ground.tx },
      rfl, rfl, rfl, ?_⟩
  intro d
  change d ∈ _ ++ [_] ↔ _
  rw [List.mem_append, List.mem_singleton, or_comm]
  refine or_congr Iff.rfl ?_
  unfold Ledger.cleared
  cases instant.schema.many with
  | true => simp [Ledger.ofDatabase]
  | false =>
      simp only [Bool.false_eq_true, if_false,
        Ledger.ofDatabase, List.nil_append, List.mem_map,
        List.mem_filter, true_and, and_assoc, eq_comm]

/- A fact that makes room is about the attribute. -/
private theorem attr_of_goesWith
    {entity attr : Int}
    {d : Datom}
    (h : d.goesWith (Ledger.isAbout entity attr) = true) :
    d.attr = attr := by
  simp only [DatomOf.goesWith, Ledger.isAbout,
    Bool.and_eq_true, beq_iff_eq] at h
  exact h.1.2

/- All that the log tells of the instant is about it. -/
theorem about_log_timed :
    ∀ d ∈ (e.timed instant).log,
      d.entity = e.ground.tx ∧ d.attr = instant.eid := by
  rcases Ledger.tells_add (add_timed instant) with
    ⟨entries, hLog, hEntries⟩
  intro d hd
  refine hEntries d ?_
  have hEq : (e.timed instant).log = entries := hLog
  exact hEq ▸ hd

/- All that is entered with an instant is an instant. -/
theorem instants_log_timed
    {instant : Installed} :
    ∀ d ∈ (e.timed instant).log, d.added = true →
      ∃ t : Int, d.value = .instant t := by
  intro d hd hAdded
  by_cases hKnown :
      ∃ d ∈ e.db.datoms,
        d.entity = e.ground.tx ∧ d.attr = instant.eid
          ∧ d.value = .instant (e.clock e.ticks)
  · rw [log_timed_of_known hKnown] at hd
    exact absurd hd List.not_mem_nil
  · rcases mem_log_timed hKnown with ⟨time, _, hValue, _, hLog⟩
    rcases (hLog d).mp hd with rfl | ⟨_, c, _, _, rfl⟩
    · exact ⟨_, hValue⟩
    · cases hAdded

/- A fact that makes room is one that can be looked up. -/
private theorem hashable_gone_iff
    (entity attr : Int)
    (datoms : List Datom) :
    (∀ c ∈ datoms,
        c.goesWith (Ledger.isAbout entity attr) = true →
          c.value.hashable = true)
      ↔ ∀ d ∈ datoms, d.entity = entity → d.attr = attr →
          d.value.hashable = true := by
  refine forall₂_congr fun d _ => ?_
  unfold DatomOf.goesWith Ledger.isAbout
  cases hUndefined : d.value.isUndefined with
  | true => simp [Value.hashable_of_isUndefined hUndefined]
  | false => simp

/-
  In every state of an engine, a transaction without items is
  committed exactly if this state lets it.
-/
theorem exists_transact_nil_iff :
    (∃ r, (e.transact noItems).1 = .ok r) ↔ e.CanCommit := by
  rcases hInstant : e.db.installed (.str "db/txInstant") with
    fault | instant
  · rw [fst_transact_noItems_of_error hInstant]
    refine iff_of_false (by simp) ?_
    rintro ⟨instant, _, _, _, hOther, _⟩
    rw [hInstant] at hOther
    cases hOther
  have hResult :
      (∃ r, (e.transact noItems).1 = .ok r)
        ↔ ∃ after, e.db.afterLog (e.timed instant)
            = .ok after := by
    rw [fst_transact_noItems hInstant]
    simp only [bind_eq_ok, pure_eq_ok]
    constructor
    · rintro ⟨r, after, hAfter, _⟩
      exact ⟨after, hAfter⟩
    · rintro ⟨after, hAfter⟩
      exact ⟨_, after, hAfter, rfl⟩
  rw [hResult]
  unfold CanCommit
  simp only [hInstant, Except.ok.injEq, exists_and_left,
    exists_eq_left']
  by_cases hKnown :
      ∃ d ∈ e.db.datoms,
        d.entity = e.ground.tx ∧ d.attr = instant.eid
          ∧ d.value = .instant (e.clock e.ticks)
  · have hLog := log_timed_of_known hKnown
    rw [Database.exists_afterLog_iff (by simp [hLog])]
    simp [hLog, hKnown]
  · rcases mem_log_timed hKnown with
      ⟨time, hAttr, hValue, hAdded, hLog⟩
    have hInstants :
        ∀ d ∈ (e.timed instant).log, d.added = true →
          ∃ t : Int, d.value = .instant t := by
      intro d hd hNew
      rcases (hLog d).mp hd with rfl | ⟨_, c, _, _, rfl⟩
      · exact ⟨_, hValue⟩
      · cases hNew
    have hInstalls (newAttr newPart : Installed) :
        (∀ d ∈ (e.timed instant).log, d.added = true →
            d.attr ≠ newAttr.eid ∧ d.attr ≠ newPart.eid)
          ↔ instant.eid ≠ newAttr.eid
            ∧ instant.eid ≠ newPart.eid := by
      rw [← hAttr]
      constructor
      · exact fun h => h time ((hLog time).mpr (.inl rfl)) hAdded
      · rintro h d hd hNew
        rcases (hLog d).mp hd with rfl | ⟨_, c, _, _, rfl⟩
        · exact h
        · cases hNew
    have hHashable (ident : Installed) :
        (∀ d ∈ (e.timed instant).log,
            d.attr = ident.eid → d.value.hashable = true)
          ↔ (instant.eid = ident.eid →
              instant.schema.many = true
                ∨ ∀ d ∈ e.db.datoms,
                    d.entity = e.ground.tx →
                      d.attr = instant.eid →
                        d.value.hashable = true) := by
      rw [← hashable_gone_iff, ← Bool.not_eq_false,
        ← imp_iff_not_or]
      constructor
      · rintro h hSame hOne c hc hGone
        refine h (c.retraction e.ground.tx) ?_ ?_
        · exact (hLog _).mpr (.inr ⟨hOne, c, hc, hGone, rfl⟩)
        · exact (attr_of_goesWith hGone).trans hSame
      · rintro h d hd hIdent
        rcases (hLog d).mp hd with rfl | ⟨hOne, c, hc, hGone, rfl⟩
        · rw [hValue]
          rfl
        · refine h ?_ hOne c hc hGone
          exact
            (attr_of_goesWith hGone).symm.trans
              hIdent
    rw [Database.exists_afterLog_iff hInstants]
    simp only [hInstalls, hHashable, hKnown, false_or,
      InstantFits, exists_and_left, and_assoc]

------------------------------------------------------------
-- Engines that Stay Ready
------------------------------------------------------------

end Engine

/- The idents that every transaction looks up. -/
def neededIdents : List String :=
  ["db/txInstant", "db/ident", "db.install/attribute",
   "db.install/partition"]

/- The transaction says nothing about one of them. -/
def TxResult.sparesNeeded (r : TxResult) : Bool :=
  r.facts.all (fun d =>
    neededIdents.all (fun s => !d.carries s))

namespace Database

/-
  The idents that are needed name the attributes of the first
  database that have them.
-/
structure NamesNeeded (db : Database) : Prop where
  tells : ∀ s, db.TellsIdent s
  names :
    ∀ s ∈ neededIdents,
      Table.find? (.str s) db.idents = some (attributeId s)
  installed :
    ∀ s ∈ neededIdents,
      (db.schemaOf? (attributeId s)).isSome = true

/- They do so in the first database. -/
theorem namesNeeded_database (instant : Int) :
    (database instant).NamesNeeded where
  tells s := (tellsIdent_database s instant).1
  names := by
    change
      ∀ s ∈ neededIdents,
        Table.find? (.str s) idents = some (attributeId s)
    decide +kernel
  installed := by
    change
      ∀ s ∈ neededIdents,
        ((database 0).schemaOf? (attributeId s)).isSome = true
    decide +kernel

/- A text of which a log says nothing names whom it named. -/
theorem foldl_named_of_spared
    {s : String}
    {log : List Datom}
    (h : ∀ d ∈ log, d.carries s = false)
    (owner : Option Int) :
    log.foldl (Replay.named s) owner = owner := by
  induction log with
  | nil => rfl
  | cons d log ih =>
      rw [List.forall_mem_cons] at h
      rw [List.foldl_cons, Replay.named, if_neg (by simp [h.1])]
      exact ih h.2

/- A transaction that says nothing about them keeps them so. -/
theorem NamesNeeded.after
    {e : Engine}
    {V : Value → Prop}
    {l : Ledger}
    {r : TxResult}
    (h : e.db.NamesNeeded)
    (hCommits : e.Commits V l r)
    (hSpares : r.sparesNeeded = true) :
    r.after.NamesNeeded := by
  have hSpared :
      ∀ s ∈ neededIdents, ∀ d ∈ l.log, d.carries s = false := by
    simp only [TxResult.sparesNeeded, hCommits.facts,
      List.all_eq_true, Bool.not_eq_true'] at hSpares
    exact fun s hs d hd => hSpares d hd s hs
  have hNames :
      ∀ s ∈ neededIdents,
        Table.find? (.str s) r.after.idents
          = some (attributeId s) := by
    intro s hs
    rw [((h.tells s).find?_after hCommits).2,
      foldl_named_of_spared (hSpared s hs)]
    exact h.names s hs
  have hIdentNamed : r.after.NamesIdents :=
    hNames "db/ident" (by simp [neededIdents])
  exact
    { tells := fun s => (h.tells s).after hCommits hIdentNamed
      names := hNames
      installed := fun s hs =>
        (extends_afterLog hCommits.after).2.1.isSome_schemaOf?
          (h.installed s hs) }

/- What is needed is installed then. -/
theorem NamesNeeded.exists_installed
    {db : Database}
    (h : db.NamesNeeded)
    {s : String}
    (hs : s ∈ neededIdents) :
    ∃ a, db.installed (.str s) = .ok a
      ∧ a.eid = attributeId s := by
  rcases Option.isSome_iff_exists.mp (h.installed s hs) with
    ⟨schema, hSchema⟩
  exact
    ⟨{ eid := attributeId s, schema := schema },
      installed_eq_ok.mpr
        ⟨Value.hashable_str s, h.names s hs, hSchema⟩, rfl⟩

end Database

namespace Engine

/- An engine with all that is needed can commit. -/
theorem canCommit_of_namesNeeded
    {e : Engine}
    (h : e.db.NamesNeeded) : e.CanCommit := by
  have hApart :
      attributeId "db/txInstant"
          ≠ attributeId "db.install/attribute"
        ∧ attributeId "db/txInstant"
          ≠ attributeId "db.install/partition"
        ∧ attributeId "db/txInstant"
          ≠ attributeId "db/ident" := by
    decide +kernel
  rcases h.exists_installed (s := "db/txInstant")
      (by simp [neededIdents]) with ⟨instant, hInstant, hId⟩
  rcases h.exists_installed (s := "db/ident")
      (by simp [neededIdents]) with ⟨ident, hIdent, hIdentId⟩
  rcases h.exists_installed (s := "db.install/attribute")
      (by simp [neededIdents]) with ⟨newAttr, hAttr, hAttrId⟩
  rcases h.exists_installed (s := "db.install/partition")
      (by simp [neededIdents]) with ⟨newPart, hPart, hPartId⟩
  refine
    ⟨instant, ident, newAttr, newPart, hInstant, hIdent, hAttr,
      hPart, .inr ⟨?_, ?_, ?_⟩⟩
  · rw [hId, hAttrId]
    exact hApart.1
  · rw [hId, hPartId]
    exact hApart.2.1
  · intro hSame
    rw [hId, hIdentId] at hSame
    exact absurd hSame hApart.2.2

/-
  In every state of an engine, a transaction without items is
  committed exactly if the state lets it.  It does in every
  state that transactions lead to which say nothing about the
  four idents that are looked up.
-/
theorem transact_nil (e : Engine) :
    ((∃ r, (e.transact noItems).1 = .ok r) ↔ e.CanCommit)
      ∧ ∀ clock : Nat → Int,
          RunOf (fun r => r.sparesNeeded = true) (start clock)
              e →
            ∃ r, (e.transact noItems).1 = .ok r := by
  refine ⟨exists_transact_nil_iff, ?_⟩
  intro clock hRun
  have hNeeded : e.db.NamesNeeded :=
    hRun.invariant Database.NamesNeeded
      (fun _ _ _ hCommits hSpares hSoFar =>
        hSoFar.after hCommits hSpares)
      (Database.namesNeeded_database _)
  exact
    exists_transact_nil_iff.mpr (canCommit_of_namesNeeded hNeeded)

/- After two transactions that say nothing about them. -/
theorem transact_nil_memberEngine :
    RunOf (fun r => r.sparesNeeded = true)
        (start (fun _ => 0)) memberEngine
      ∧ ∃ r, (memberEngine.transact noItems).1 = .ok r := by
  have hNext
      {e : Engine}
      {data : Value}
      (h :
        (e.transact data).1.toOption.all
          TxResult.sparesNeeded = true) :
      NextOf (fun r => r.sparesNeeded = true) e
        (e.transact data).2 :=
    nextOf_of_all (fun _ _ _ hSpares => hSpares) h
  have hRun :
      RunOf (fun r => r.sparesNeeded = true)
        (start (fun _ => 0)) memberEngine :=
    (Relation.ReflTransGen.single
      (hNext (by decide +kernel))).tail
        (hNext (by decide +kernel))
  exact ⟨hRun, (transact_nil memberEngine).2 _ hRun⟩

/-
  After one that takes the ident of instants away, nothing is
  committed any more.
-/
theorem not_transact_nil_unnamedEngine :
    Run (fun _ => True) (start (fun _ => 0)) unnamedEngine
      ∧ ¬∃ r, (unnamedEngine.transact noItems).1 = .ok r := by
  refine ⟨.single ⟨unnamedInstant, trivial, rfl⟩, ?_⟩
  have hNone :
      (unnamedEngine.db.installed
        (.str "db/txInstant")).toOption.isNone = true := by
    decide +kernel
  rcases hInstant :
      unnamedEngine.db.installed (.str "db/txInstant") with
    fault | instant
  · rw [fst_transact_noItems_of_error hInstant]
    simp
  · rw [hInstant] at hNone
    cases hNone

end Engine

end FactBase
