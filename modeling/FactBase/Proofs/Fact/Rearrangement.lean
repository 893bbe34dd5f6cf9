import FactBase.Proofs.Fact.Readiness
import FactBase.Proofs.Fact.Statement

/-
  This file shows that the order in which a transaction states
  facts does not matter, as long as no two of them give an
  entity different values for an attribute that can have only
  one.  The facts in the end state the same.  Where no
  statement is about idents or installs anything, the rest of
  the database and the failures are the same, too.

  Key definitions include:
    * `Engine.stating`
    * `Database.Compatible`
    * `Database.Plain`
    * `Engine.stated`
    * `TxResult.Matches`

  Key theorems include:
    * `Database.agree_of_compatible`
    * `Engine.fst_transact_stating`
    * `Engine.transact_perm`
    * `Engine.not_transact_perm_alias`
-/

------------------------------------------------------------
-- Statements that Are Compatible
------------------------------------------------------------

namespace FactBase

open Sorting

namespace Database

variable {db : Database}
variable {ss ss' : List Statement}

/-
  Statements that give an entity a value for an attribute that
  can have only one give it the same value.
-/
def Compatible
    (db : Database)
    (ss : List Statement) : Prop :=
  ∀ s ∈ ss, ∀ s' ∈ ss, ∀ attr,
    db.installed (.str s.attr) = .ok attr → ∀ attr',
      db.installed (.str s'.attr) = .ok attr' →
        s.entity = s'.entity → attr.eid = attr'.eid →
          attr.schema.many = false →
            s.value.same s'.value = true

/- Whether they do can be decided. -/
instance
    (db : Database)
    (ss : List Statement) :
    Decidable (db.Compatible ss) := by
  unfold Compatible
  infer_instance

/- All idents of the statements name ordinary attributes. -/
def Plain
    (db : Database)
    (ss : List Statement) : Prop :=
  ∀ s ∈ ss, ∀ attr,
    db.installed (.str s.attr) = .ok attr →
      db.Ordinary attr.eid

/- So can whether they are plain. -/
instance
    (db : Database)
    (ss : List Statement) : Decidable (db.Plain ss) := by
  unfold Plain
  infer_instance

/- A value stands for itself where there can be only one. -/
theorem eq_of_mem_spread
    {schema : Schema}
    (hOne : schema.many = false)
    {v x : Value}
    (hx : x ∈ Transacting.spread schema v) : x = v := by
  unfold Transacting.spread at hx
  rw [hOne] at hx
  simpa using hx

/- An attribute is told by its entity. -/
theorem eq_of_installed
    {ident ident' : Value}
    {attr attr' : Installed}
    (h : db.installed ident = .ok attr)
    (h' : db.installed ident' = .ok attr')
    (hSame : attr.eid = attr'.eid) : attr = attr' := by
  have hSchema := schemaOf?_of_installed h
  have hSchema' := schemaOf?_of_installed h'
  rw [hSame, hSchema'] at hSchema
  rcases attr with ⟨eid, schema⟩
  rcases attr' with ⟨eid', schema'⟩
  cases hSame
  cases hSchema
  rfl

/- What compatible statements assert agrees. -/
theorem agree_of_compatible
    (hAdmits : ∀ s ∈ ss, db.Admits s)
    (hCompatible : db.Compatible ss) :
    Assertion.Agree (ss.flatMap db.assertions) := by
  have hSource :
      ∀ a ∈ ss.flatMap db.assertions, ∃ s ∈ ss,
        db.installed (.str s.attr) = .ok a.attr
          ∧ a.entity = s.entity
          ∧ a.value
              ∈ Transacting.spread a.attr.schema s.value := by
    intro a ha
    rcases List.mem_flatMap.mp ha with ⟨s, hs, ha⟩
    rcases hAdmits s hs with ⟨attr, hAttr, _⟩
    rcases (mem_assertions hAttr).mp ha with ⟨v, hv, rfl⟩
    exact ⟨s, hs, hAttr, rfl, hv⟩
  refine ⟨?_, ?_, ?_⟩
  · intro a ha
    rcases List.mem_flatMap.mp ha with ⟨s, hs, ha⟩
    exact definite_of_admits (hAdmits s hs) a ha
  · intro a ha b hb hSame
    rcases hSource a ha with ⟨s, _, hAttr, _⟩
    rcases hSource b hb with ⟨s', _, hAttr', _⟩
    exact eq_of_installed hAttr hAttr' hSame
  · rintro a ha b hb ⟨hEntity, hSame⟩ hOne
    rcases hSource a ha with ⟨s, hs, hAttr, hOwn, hValue⟩
    rcases hSource b hb with ⟨s', hs', hAttr', hOwn', hValue'⟩
    have hEq := eq_of_installed hAttr hAttr' hSame
    rw [eq_of_mem_spread hOne hValue,
      eq_of_mem_spread (hEq ▸ hOne) hValue']
    exact
      hCompatible s hs s' hs' a.attr hAttr b.attr hAttr'
        (hOwn.symm.trans (hEntity.trans hOwn')) hSame hOne

end Database

------------------------------------------------------------
-- Transactions that State Facts
------------------------------------------------------------

namespace Engine

variable {e : Engine}
variable {ss ss' : List Statement}

/- Transaction data that states facts one after the other. -/
def stating (ss : List Statement) : Value :=
  .list (ss.map Statement.item)

/- The facts once all is entered that statements assert. -/
def stated
    (e : Engine)
    (instant : Installed)
    (ss : List Statement) : Ledger :=
  (e.timed instant).enterAll e.ground.tx
    (ss.flatMap e.db.assertions)

/- What comes of a transaction with admitted statements. -/
theorem fst_transact_stating
    {instant : Installed}
    (hInstant :
      e.db.installed (.str "db/txInstant") = .ok instant)
    (hAdmits : ∀ s ∈ ss, e.db.Admits s) :
    (e.transact (stating ss)).1 =
      (do
        let after ← e.db.afterLog (e.stated instant ss)
        return {
          before := e.db
          after := after
          facts := (e.stated instant ss).log
          tempids := [] }) :=
  fst_transactItems_of_exec hInstant
    (Transacting.exec_statements hAdmits)

/- Compatible statements are entered in the ledger. -/
theorem entered_stated
    (hAdmits : ∀ s ∈ ss, e.db.Admits s)
    (hCompatible : e.db.Compatible ss)
    (instant : Installed) :
    (e.timed instant).Entered (ss.flatMap e.db.assertions)
      (e.stated instant ss) :=
  Ledger.entered_enterAll
    (Database.agree_of_compatible hAdmits hCompatible) _

/- Plain statements add nothing to the log that is followed. -/
theorem exists_log_stated
    (hAdmits : ∀ s ∈ ss, e.db.Admits s)
    (hCompatible : e.db.Compatible ss)
    (hPlain : e.db.Plain ss)
    (instant : Installed) :
    ∃ entries,
      (e.stated instant ss).log
          = (e.timed instant).log ++ entries
        ∧ ∀ d ∈ entries, e.db.Ordinary d.attr := by
  rcases (entered_stated hAdmits hCompatible instant).log with
    ⟨entries, hLog, hAbout⟩
  refine ⟨entries, hLog, ?_⟩
  intro d hd
  rcases hAbout d hd with ⟨a, ha, hAttr⟩
  rcases List.mem_flatMap.mp ha with ⟨s, hs, ha⟩
  rcases hAdmits s hs with ⟨attr, hInstalled, _⟩
  rcases (Database.mem_assertions hInstalled).mp ha with
    ⟨v, _, rfl⟩
  rw [hAttr]
  exact hPlain s hs attr hInstalled

/-
  Plain statements lead to what the instant alone leads to,
  except for the facts.
-/
theorem alike_afterLog_stated
    (instant : Installed)
    (hAdmits : ∀ s ∈ ss, e.db.Admits s)
    (hCompatible : e.db.Compatible ss)
    (hPlain : e.db.Plain ss) :
    Outcome.Alike
      (fun after after' =>
        after'
          = { after with
              datoms := (e.stated instant ss).datoms })
      (e.db.afterLog (e.timed instant))
      (e.db.afterLog (e.stated instant ss)) := by
  rcases exists_log_stated hAdmits hCompatible hPlain instant
    with ⟨entries, hLog, hEntries⟩
  have hSplit :
      e.stated instant ss
        = { datoms := (e.stated instant ss).datoms
            log := (e.timed instant).log ++ entries } := by
    rw [← hLog]
  rw [hSplit, Database.afterLog_append hEntries]
  exact
    Database.afterLog_datoms instants_log_timed
      (e.timed instant).datoms _

end Engine

/-
  Two results have facts that state the same, and they agree
  in idents, attributes and partitions.
-/
structure TxResult.Matches (r r' : TxResult) : Prop where
  facts : Ledger.SameFacts r.after.datoms r'.after.datoms
  idents : r.after.idents = r'.after.idents
  attributes : r.after.attributes = r'.after.attributes
  partitions : r.after.partitions = r'.after.partitions

namespace Engine

variable {e : Engine}
variable {ss ss' : List Statement}

/-
  Compatible statements can be made in any order.  The facts
  in the end state the same whenever both transactions are
  committed.  If they are plain, so that no ident among them
  names an attribute that the database follows, then both are
  committed or both fail with the same failure, and the
  idents, attributes and partitions are the same, too.
-/
theorem transact_perm
    (e : Engine)
    (hPerm : ss.Perm ss')
    (hAdmits : ∀ s ∈ ss, e.db.Admits s)
    (hCompatible : e.db.Compatible ss) :
    (∀ r r',
      (e.transact (stating ss)).1 = .ok r →
        (e.transact (stating ss')).1 = .ok r' →
          Ledger.SameFacts r.after.datoms r'.after.datoms)
      ∧ (e.db.Plain ss →
          Outcome.Alike TxResult.Matches
            (e.transact (stating ss)).1
            (e.transact (stating ss')).1) := by
  have hAdmits' : ∀ s ∈ ss', e.db.Admits s :=
    fun s hs => hAdmits s (hPerm.mem_iff.mpr hs)
  have hCompatible' : e.db.Compatible ss' :=
    fun s hs s' hs' =>
      hCompatible s (hPerm.mem_iff.mpr hs) s'
        (hPerm.mem_iff.mpr hs')
  rcases hInstant : e.db.installed (.str "db/txInstant") with
    fault | instant
  · have hNone (ss : List Statement) :
        (e.transact (stating ss)).1 = .error fault :=
      fst_transactItems_of_no_instant hInstant _
    rw [hNone, hNone]
    exact ⟨nofun, fun _ => .error fault⟩
  have hSame :
      Ledger.SameFacts (e.stated instant ss).datoms
        (e.stated instant ss').datoms := by
    refine
      (entered_stated hAdmits hCompatible instant).sameFacts
        (entered_stated hAdmits' hCompatible' instant) ?_
    intro a
    simp only [List.mem_flatMap, hPerm.mem_iff]
  rw [fst_transact_stating hInstant hAdmits,
    fst_transact_stating hInstant hAdmits']
  constructor
  · intro r r' hr hr'
    rcases bind_eq_ok.mp hr with ⟨after, hAfter, hEq⟩
    rcases bind_eq_ok.mp hr' with ⟨after', hAfter', hEq'⟩
    rw [pure_eq_ok] at hEq hEq'
    subst hEq hEq'
    rw [(Database.extends_afterLog hAfter).1,
      (Database.extends_afterLog hAfter').1]
    exact hSame
  · intro hPlain
    have hPlain' : e.db.Plain ss' :=
      fun s hs => hPlain s (hPerm.mem_iff.mpr hs)
    have hLeft :=
      alike_afterLog_stated instant hAdmits hCompatible hPlain
    have hRight :=
      alike_afterLog_stated instant hAdmits' hCompatible'
        hPlain'
    -- Both go back to what the instant alone leads to.
    refine
      (hLeft.common hRight (T := fun after after' =>
        Ledger.SameFacts after.datoms after'.datoms
          ∧ after.idents = after'.idents
          ∧ after.attributes = after'.attributes
          ∧ after.partitions = after'.partitions) ?_).bind ?_
    · rintro _ _ _ rfl rfl
      exact ⟨hSame, rfl, rfl, rfl⟩
    · rintro after after' ⟨hFacts, hIdents, hAttrs, hParts⟩
      exact .ok ⟨hFacts, hIdents, hAttrs, hParts⟩

------------------------------------------------------------
-- Engines to See It On
------------------------------------------------------------

/- A part and a text, stated of two entities. -/
def memberStatements : List Statement :=
  [ ⟨5, "group/member", .list [.int 6, .int 7, .int 6]⟩
  , ⟨6, "db/doc", .str "sixth"⟩
  , ⟨5, "group/member", .int 7⟩ ]

/-
  They are compatible, and both they and their reverse are
  committed.
-/
theorem transact_perm_memberEngine :
    (∀ s ∈ memberStatements, memberEngine.db.Admits s)
      ∧ memberEngine.db.Compatible memberStatements
      ∧ ∃ r r',
          (memberEngine.transact
              (stating memberStatements)).1 = .ok r
            ∧ (memberEngine.transact
              (stating memberStatements.reverse)).1 = .ok r'
            ∧ r.Matches r' := by
  have hAdmits :
      ∀ s ∈ memberStatements, memberEngine.db.Admits s := by
    decide +kernel
  have hCompatible :
      memberEngine.db.Compatible memberStatements := by
    decide +kernel
  have hPlain : memberEngine.db.Plain memberStatements := by
    decide +kernel
  have hCommitted :
      (memberEngine.transact
        (stating memberStatements)).1.toOption.isSome
          = true := by
    decide +kernel
  have hAlike :=
    (transact_perm memberEngine
      (List.reverse_perm memberStatements).symm hAdmits
      hCompatible).2 hPlain
  rcases hLeft :
      (memberEngine.transact (stating memberStatements)).1 with
    fault | r
  · rw [hLeft] at hCommitted
    cases hCommitted
  rcases hRight :
      (memberEngine.transact
        (stating memberStatements.reverse)).1 with
    fault | r'
  all_goals
    rw [hLeft, hRight] at hAlike
    cases hAlike
  next hMatches =>
    exact ⟨hAdmits, hCompatible, r, r', rfl, rfl, hMatches⟩

/- Transaction data by which an entity can have many idents. -/
def manyIdents : Value :=
  .list
    [ .list
        [ .str "db/add", .int 10, .str "db/cardinality"
        , .str "db.cardinality/many" ]
    , .list
        [ .str "db/retract", .int 0
        , .str "db.install/attribute", .int 10 ]
    , .list
        [ .str "db/add", .int 0, .str "db.install/attribute"
        , .int 10 ] ]

/- Data that gives the attribute of idents another ident. -/
def aliasData : Value :=
  .list
    [ .list
        [ .str "db/add", .int 10, .str "db/ident"
        , .str "user/alias" ] ]

/- The engine after both transactions. -/
def aliasEngine : Engine :=
  (((start (fun _ => 0)).transact
    manyIdents).2.transact aliasData).2

/- Two entities with one ident, by the other name of idents. -/
def aliasStatements : List Statement :=
  [ ⟨5, "user/alias", .str "user/x"⟩
  , ⟨6, "user/alias", .str "user/x"⟩ ]

/- The entity that an ident names after statements. -/
def namedAfter
    (e : Engine)
    (ss : List Statement)
    (ident : String) : Option Int :=
  (e.transact (stating ss)).1.toOption.bind (fun r =>
    Table.find? (.str ident) r.after.idents)

/-
  After that, two compatible statements by a name outside the
  namespaces of the attributes that are followed lead to
  different idents in either order.
-/
theorem not_transact_perm_alias :
    Run (fun _ => True) (start (fun _ => 0)) aliasEngine
      ∧ (∀ s ∈ aliasStatements,
          aliasEngine.db.Admits s
            ∧ Keyword.isKeyword s.attr = true
            ∧ Keyword.namespace? s.attr = some "user"
            ∧ s.entity ≠ aliasEngine.ground.tx)
      ∧ aliasEngine.db.Compatible aliasStatements
      ∧ aliasEngine.namedAfter aliasStatements "user/x"
          = some 6
      ∧ aliasEngine.namedAfter aliasStatements.reverse "user/x"
          = some 5 := by
  refine ⟨?_, ?_, ?_, ?_, ?_⟩
  · exact
      (Relation.ReflTransGen.single
        ⟨manyIdents, trivial, rfl⟩).tail
          ⟨aliasData, trivial, rfl⟩
  · decide +kernel
  · decide +kernel
  · decide +kernel
  · decide +kernel

end Engine

end FactBase
