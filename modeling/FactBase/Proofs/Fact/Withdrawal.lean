import FactBase.Proofs.Fact.Invariant
import FactBase.Proofs.Fact.Readiness
import FactBase.Proofs.Fact.Statement

/-
  This file shows that a stored fact can be retracted by its
  own value.  No other fact states that value, so exactly this
  fact goes, and all others are left in order.  The value must
  be one that stands for itself: not an undefined number,
  which equals nothing, nor a collection where the attribute
  can have many values, which stands for its members; and a
  reference must be an integer.

  Key definitions include:
    * `Value.gathers`
    * `Database.Finds`
    * `Engine.withdrawal`

  Key theorems include:
    * `Transacting.spread_of_not_gathers`
    * `Ledger.retract_stored`
    * `Engine.fst_transact_withdrawal`
    * `Engine.Run.withdrawal_removes`
    * `Engine.withdrawal_removes_memberEngine`
    * `Engine.not_withdrawal_removes`
-/

------------------------------------------------------------
-- Facts that Are Found Again
------------------------------------------------------------

namespace FactBase

open Sorting

/- The value stands for its members, not for itself. -/
def Value.gathers : Value → Bool
  | .list _ => true
  | .set _ => true
  | .frozenset _ => true
  | .cyclic _ _ => true
  | _ => false

/-
  A fact is found again by its own value: the value is no
  undefined number, and as a value of its attribute, it stands
  for itself.
-/
structure Database.Finds
    (db : Database)
    (d : Datom) : Prop where
  defined : d.value.isUndefined = false
  alone :
    ∀ schema, db.schemaOf? d.attr = some schema →
      schema.many = true → d.value.gathers = false
  reference :
    db.isRef d.attr = true → ∃ n : Int, d.value = .int n

/- Whether it is can be decided. -/
instance
    (db : Database)
    (d : Datom) : Decidable (db.Finds d) :=
  decidable_of_iff
    (d.value.isUndefined = false
      ∧ (∀ schema ∈ db.schemaOf? d.attr,
          schema.many = true → d.value.gathers = false)
      ∧ (db.isRef d.attr = true → ∃ n : Int, d.value = .int n))
    ⟨fun h => ⟨h.1, h.2.1, h.2.2⟩,
      fun h => ⟨h.defined, h.alone, h.reference⟩⟩

/- A value is its own member where it does not gather any. -/
theorem Transacting.spread_of_not_gathers
    {schema : Schema}
    {v : Value}
    (h : schema.many = true → v.gathers = false) :
    spread schema v = [v] := by
  unfold spread
  cases hMany : schema.many with
  | false => rfl
  | true =>
      have hAlone := h hMany
      cases v <;> first | rfl | cases hAlone

/-
  Of facts that are told apart, retracting the value of one
  takes out this one.
-/
theorem Ledger.retract_stored
    {before after log : List Datom}
    {d : Datom}
    (hApart : (before ++ d :: after).Pairwise DatomOf.Apart)
    (hDefined : d.value.isUndefined = false)
    (tx : Int)
    (rest : List Datom)
    (origin : Origin) :
    retract tx d.entity d.attr d.value origin
        { datoms := before ++ d :: after ++ rest, log := log }
      = .ok
        { datoms := before ++ after ++ rest
          log :=
            log ++
              [{ d.retraction tx with origin := origin }] } := by
  have hBefore :
      ∀ c ∈ before,
        d.value.states d.entity d.attr c = .ok false := by
    intro c hc
    by_cases hSame : c.entity = d.entity ∧ c.attr = d.attr
    · have hDiffer :=
        (List.pairwise_append.mp hApart).2.2 c hc d
          List.mem_cons_self
      rw [Value.states_eq hSame.1 hSame.2]
      exact (hDiffer hSame.1 hSame.2).1
    · exact Value.states_eq_false (by simpa using hSame) _
  rw [List.append_assoc, List.cons_append, List.append_assoc]
  exact
    retract_first hBefore (Value.states_self hDefined) origin

------------------------------------------------------------
-- Withdrawals
------------------------------------------------------------

namespace Engine

variable {e : Engine}
variable {before after : List Datom}
variable {d : Datom}
variable {ident : String}

/- The item that retracts a fact by its own value. -/
def withdrawalItem
    (ident : String)
    (d : Datom) : Value :=
  .tuple
    [.str "db/retract", .int d.entity, .str ident, d.value]

/- Transaction data with this item only. -/
def withdrawal
    (ident : String)
    (d : Datom) : Value :=
  .list [withdrawalItem ident d]

/- The entry of the log by which the fact is gone. -/
def withdrawn
    (e : Engine)
    (d : Datom) : Datom :=
  { d.retraction e.ground.tx with
    origin := { tx := e.ground.tx, position := 1 } }

/- The facts after the instant and the retraction. -/
def withdrawnFrom
    (e : Engine)
    (instant : Installed)
    (before after : List Datom)
    (d : Datom) : Ledger where
  datoms := before ++ after ++ [e.timeFact instant]
  log := [e.timeFact instant, e.withdrawn d]

/- What comes of it if the ident of the instant is there. -/
theorem fst_transact_withdrawal
    (hApart : e.db.datoms.Pairwise DatomOf.Apart)
    (hNew : ∀ c ∈ e.db.datoms, c.entity ≠ e.ground.tx)
    (hFacts : e.db.datoms = before ++ d :: after)
    {attr : Installed}
    (hAttr : e.db.installed (.str ident) = .ok attr)
    (hEid : attr.eid = d.attr)
    (hFinds : e.db.Finds d)
    {instant : Installed}
    (hInstant :
      e.db.installed (.str "db/txInstant") = .ok instant) :
    (e.transact (withdrawal ident d)).1 =
      (do
        let next ←
          e.db.afterLog (e.withdrawnFrom instant before after d)
        return {
          before := e.db
          after := next
          facts := [e.timeFact instant, e.withdrawn d]
          tempids := [] }) := by
  have hSchema :
      e.db.schemaOf? d.attr = some attr.schema := by
    rw [← hEid]
    exact Database.schemaOf?_of_installed hAttr
  have hSpread :
      Transacting.spread attr.schema d.value = [d.value] :=
    Transacting.spread_of_not_gathers
      (hFinds.alone attr.schema hSchema)
  have hRefs :
      attr.schema.isRef = true →
        ∀ x ∈ Transacting.spread attr.schema d.value,
          ∃ n : Int, x = .int n := by
    rw [hSpread]
    intro hRef x hx
    rw [List.mem_singleton.mp hx]
    refine hFinds.reference ?_
    rw [Database.isRef, hSchema]
    exact hRef
  have hRetract :
      Ledger.retract e.ground.tx d.entity attr.eid d.value
          (Ledger.nextOrigin e.ground.tx
            ((Ledger.ofDatabase e.db).append
              (e.timeFact instant)))
          ((Ledger.ofDatabase e.db).append (e.timeFact instant))
        = .ok (e.withdrawnFrom instant before after d) := by
    rw [hEid]
    change
      Ledger.retract _ _ _ _
        { tx := e.ground.tx, position := 1 }
        { datoms := e.db.datoms ++ [e.timeFact instant]
          log := [e.timeFact instant] } = _
    rw [hFacts] at hApart ⊢
    exact
      Ledger.retract_stored hApart hFinds.defined e.ground.tx
        [e.timeFact instant] _
  have hExec :
      Transacting.exec
          ([withdrawalItem ident d].forM Transacting.applyItem)
          e.ground { e.opened with ledger := e.timed instant }
        = (.ok (),
          { e.opened with
            ledger := e.withdrawnFrom instant before after d }) := by
    rw [Transacting.exec_forM_singleton]
    change
      Transacting.exec
        (Transacting.onValues Transacting.retract d.entity
          (.str ident) d.value) e.ground _ = _
    rw [Transacting.exec_onValues hAttr hRefs, hSpread,
      Transacting.exec_forM_singleton, timed_of_new hNew]
    change
      Transacting.exec
        (Transacting.change (fun l =>
          l.retract e.ground.tx d.entity attr.eid d.value
            (l.nextOrigin e.ground.tx))) e.ground _ = _
    rw [Transacting.exec_change]
    dsimp only
    rw [hRetract]
  exact fst_transactItems_of_exec hInstant hExec

/-
  In every state that transactions lead to, a fact can be
  retracted by its own value and an ident of its attribute, if
  it is found again by that value.  The transaction is
  committed exactly if the database can take note of it.  The
  other facts are left in order then, with the instant at
  their end, and the log tells of nothing else.
-/
theorem Run.withdrawal_removes
    {clock : Nat → Int}
    (hRun : Run (fun _ => True) (start clock) e)
    (hNew : ∀ c ∈ e.db.datoms, c.entity ≠ e.ground.tx)
    (hFacts : e.db.datoms = before ++ d :: after)
    (hIdent : e.db.resolve (.str ident) = .ok (some d.attr))
    (hFinds : e.db.Finds d) :
    (e.db.CanLose [d]
        ↔ ∃ r, (e.transact (withdrawal ident d)).1 = .ok r)
      ∧ ∀ r, (e.transact (withdrawal ident d)).1 = .ok r →
          ∃ instant,
            e.db.installed (.str "db/txInstant") = .ok instant
              ∧ r.after.datoms
                  = before ++ after ++ [e.timeFact instant]
              ∧ r.facts
                  = [e.timeFact instant, e.withdrawn d] := by
  have hSound : e.db.Sound :=
    (hRun.sound_extends inherited_true
      (Bootstrap.sound_database _)).1
  have hMem : d ∈ e.db.datoms := by
    rw [hFacts]
    simp
  rcases Option.isSome_iff_exists.mp
      (hSound.facts.installed d hMem) with ⟨schema, hSchema⟩
  have hAttr :
      e.db.installed (.str ident)
        = .ok { eid := d.attr, schema := schema } :=
    Database.installed_eq_ok.mpr
      ⟨Value.hashable_str ident, Except.ok.inj hIdent, hSchema⟩
  rcases hInstant : e.db.installed (.str "db/txInstant") with
    fault | instant
  · have hNone :
        (e.transact (withdrawal ident d)).1 = .error fault :=
      fst_transactItems_of_no_instant hInstant _
    rw [hNone]
    refine ⟨iff_of_false ?_ (by simp), by simp⟩
    rintro ⟨instant, _, _, _, hOther, _⟩
    rw [hInstant] at hOther
    cases hOther
  have hResult :=
    fst_transact_withdrawal hSound.facts.distinct hNew hFacts
      hAttr rfl hFinds hInstant
  rw [hResult]
  constructor
  · have hLose :
        e.db.CanLose [d] ↔ e.db.CanLose [e.withdrawn d] := by
      simp [Database.CanLose, withdrawn, DatomOf.retraction]
    have hLog :
        (e.withdrawnFrom instant before after d).log
          = e.timeFact instant :: [e.withdrawn d] := rfl
    rw [hLose,
      Database.canLose_iff hInstant rfl rfl ⟨_, rfl⟩ hLog
        (by simp [withdrawn, DatomOf.retraction])]
    exact exists_bind_pure_iff.symm
  · intro r hOk
    rcases bind_eq_ok.mp hOk with ⟨next, hNext, hEq⟩
    rw [pure_eq_ok] at hEq
    subst hEq
    refine ⟨instant, rfl, ?_, rfl⟩
    exact (Database.extends_afterLog hNext).1

------------------------------------------------------------
-- Engines to See It On
------------------------------------------------------------

/- The facts around one of them, by its place in the order. -/
theorem exists_split
    {datoms : List Datom}
    {n : Nat}
    {P : Datom → Bool}
    (h : (datoms[n]?).any P = true) :
    ∃ before d after,
      datoms = before ++ d :: after ∧ P d = true := by
  rcases hFact : datoms[n]? with _ | d
  · rw [hFact] at h
    cases h
  · rw [hFact] at h
    rcases List.getElem?_eq_some_iff.mp hFact with ⟨hn, rfl⟩
    refine ⟨datoms.take n, _, datoms.drop (n + 1), ?_, h⟩
    rw [← List.drop_eq_getElem_cons hn, List.take_append_drop]

/- One of the parts of an entity can be withdrawn. -/
theorem withdrawal_removes_memberEngine :
    ∃ before d after r,
      memberEngine.db.datoms = before ++ d :: after
        ∧ memberEngine.db.Finds d
        ∧ memberEngine.db.CanLose [d]
        ∧ (memberEngine.transact
            (withdrawal "group/member" d)).1 = .ok r
        ∧ r.facts.length = 2
        ∧ r.after.datoms.dropLast = before ++ after := by
  have hRun :
      Run (fun _ => True) (start (fun _ => 0)) memberEngine :=
    (Relation.ReflTransGen.single
      ⟨memberAttribute, trivial, rfl⟩).tail
        ⟨memberData, trivial, rfl⟩
  have hNew :
      ∀ c ∈ memberEngine.db.datoms,
        c.entity ≠ memberEngine.ground.tx := by
    decide +kernel
  have hSeen :
      (memberEngine.db.datoms[76]?).any (fun d =>
        decide (memberEngine.db.Finds d)
          && Table.find? (.str "group/member")
              memberEngine.db.idents == some d.attr
          && (memberEngine.transact
            (withdrawal "group/member" d)).1.toOption.isSome)
        = true := by
    decide +kernel
  rcases exists_split hSeen with
    ⟨before, d, after, hFacts, hd⟩
  simp only [Bool.and_eq_true, decide_eq_true_eq, beq_iff_eq]
    at hd
  rcases hd with ⟨⟨hFinds, hNamed⟩, hCommitted⟩
  have hIdent :
      memberEngine.db.resolve (.str "group/member")
        = .ok (some d.attr) :=
    congrArg Except.ok hNamed
  rcases Run.withdrawal_removes hRun hNew hFacts hIdent hFinds
    with ⟨hIff, hResult⟩
  rcases Outcome.exists_ok_of_isSome _ hCommitted with
    ⟨r, _, hr⟩
  have hOk := congrArg Prod.fst hr
  rcases hResult r hOk with ⟨instant, _, hLeft, hLog⟩
  refine
    ⟨before, d, after, r, hFacts, hFinds, hIff.mpr ⟨r, hOk⟩,
      hOk, ?_, ?_⟩
  · rw [hLog]
    rfl
  · rw [hLeft, List.dropLast_concat]

/- Transaction data that installs an attribute of many texts. -/
def tagAttribute : Value :=
  .list
    [ .map
        [ (.str "db/id", .tempid "db.part/db" (-1))
        , (.str "db.install/_attribute", .str "db.part/db")
        , (.str "db/ident", .str "user/tag")
        , (.str "db/valueType", .str "db.type/string")
        , (.str "db/cardinality", .str "db.cardinality/many") ] ]

/-
  Transaction data with a list for one of many values, an
  undefined number, and a text.
-/
def tagData : Value :=
  .list
    [ .list
        [ .str "db/add", .int 5, .str "user/tag"
        , .list [.list [.str "x"]] ]
    , .list
        [ .str "db/add", .int 5, .str "db/doc"
        , .float (.undefined 0) ]
    , .list
        [.str "db/add", .int 6, .str "user/tag", .str "y"] ]

/- Transaction data by which the texts become references. -/
def tagReference : Value :=
  .list
    [ .list
        [ .str "db/add", .int 22, .str "db/valueType"
        , .str "db.type/ref" ]
    , .list
        [ .str "db/retract", .int 0
        , .str "db.install/attribute", .int 22 ]
    , .list
        [ .str "db/add", .int 0
        , .str "db.install/attribute", .int 22 ] ]

/- The engine after the first two transactions. -/
def tagEngine : Engine :=
  (((start (fun _ => 0)).transact tagAttribute).2.transact
    tagData).2

/- The engine after all three. -/
def tagReferenceEngine : Engine :=
  (tagEngine.transact tagReference).2

/- The fact is stored, and it is still there afterwards. -/
private theorem exists_lasting
    {n : Nat}
    (h :
      (e.db.datoms[n]?).any (fun d =>
          Table.find? (.str ident) e.db.idents == some d.attr
            && (e.transact (withdrawal ident d)).1.toOption.any
              (fun r =>
                r.facts.length == 1
                  && r.after.datoms.length
                    == e.db.datoms.length + 1))
        = true) :
    ∃ before d after,
      e.db.datoms = before ++ d :: after
        ∧ e.db.resolve (.str ident) = .ok (some d.attr)
        ∧ ∃ r,
            (e.transact (withdrawal ident d)).1 = .ok r
              ∧ r.facts.length = 1
              ∧ r.after.datoms.length
                  = e.db.datoms.length + 1 := by
  rcases exists_split h with ⟨before, d, after, hFacts, hd⟩
  simp only [Bool.and_eq_true, beq_iff_eq] at hd
  refine ⟨before, d, after, hFacts, congrArg Except.ok hd.1, ?_⟩
  rcases hOk : (e.transact (withdrawal ident d)).1 with fault | r
  · rw [hOk] at hd
    cases hd.2
  · simp only [hOk, Except.toOption, Option.any_some,
      Bool.and_eq_true, beq_iff_eq] at hd
    exact ⟨r, rfl, hd.2⟩

/- The fact is stored, but it cannot be retracted. -/
private theorem exists_refused
    {n : Nat}
    (h :
      (e.db.datoms[n]?).any (fun d =>
          Table.find? (.str ident) e.db.idents == some d.attr
            && (e.transact
              (withdrawal ident d)).1.toOption.isNone)
        = true) :
    ∃ before d after,
      e.db.datoms = before ++ d :: after
        ∧ e.db.resolve (.str ident) = .ok (some d.attr)
        ∧ ¬∃ r,
            (e.transact (withdrawal ident d)).1 = .ok r := by
  rcases exists_split h with ⟨before, d, after, hFacts, hd⟩
  simp only [Bool.and_eq_true, beq_iff_eq] at hd
  refine ⟨before, d, after, hFacts, congrArg Except.ok hd.1, ?_⟩
  rintro ⟨r, hOk⟩
  rw [hOk] at hd
  cases hd.2

/-
  The list and the undefined number are still there after they
  were retracted, and the text cannot be retracted once it
  should be a reference.  Nothing can be once the instant has
  lost its ident.
-/
theorem not_withdrawal_removes :
    (∀ e ∈ [tagEngine, tagReferenceEngine, unnamedEngine],
        Run (fun _ => True) (start (fun _ => 0)) e
          ∧ ∀ c ∈ e.db.datoms, c.entity ≠ e.ground.tx)
      ∧ (∀ ident ∈ ["user/tag", "db/doc"],
          ∃ before d after,
            tagEngine.db.datoms = before ++ d :: after
              ∧ tagEngine.db.resolve (.str ident)
                  = .ok (some d.attr)
              ∧ ∃ r,
                  (tagEngine.transact (withdrawal ident d)).1
                      = .ok r
                    ∧ r.facts.length = 1
                    ∧ r.after.datoms.length
                        = tagEngine.db.datoms.length + 1)
      ∧ ∀ p ∈
          [(tagReferenceEngine, "user/tag"),
            (unnamedEngine, "db/ident")],
          ∃ before d after,
            p.1.db.datoms = before ++ d :: after
              ∧ p.1.db.resolve (.str p.2) = .ok (some d.attr)
              ∧ ¬∃ r,
                  (p.1.transact (withdrawal p.2 d)).1
                    = .ok r := by
  have hRun :
      Run (fun _ => True) (start (fun _ => 0)) tagEngine :=
    (Relation.ReflTransGen.single
      ⟨tagAttribute, trivial, rfl⟩).tail ⟨tagData, trivial, rfl⟩
  refine ⟨?_, ?_, ?_⟩
  · have hNew :
        ∀ e ∈ [tagEngine, tagReferenceEngine, unnamedEngine],
          ∀ c ∈ e.db.datoms, c.entity ≠ e.ground.tx := by
      decide +kernel
    rw [List.forall_mem_cons, List.forall_mem_cons,
      List.forall_mem_singleton] at hNew ⊢
    rcases hNew with ⟨hTag, hReference, hUnnamed⟩
    refine ⟨⟨hRun, hTag⟩, ⟨?_, hReference⟩, ?_, hUnnamed⟩
    · exact hRun.tail ⟨tagReference, trivial, rfl⟩
    · exact .single ⟨unnamedInstant, trivial, rfl⟩
  · rw [List.forall_mem_cons, List.forall_mem_singleton]
    constructor
    · exact exists_lasting (n := 74) (by decide +kernel)
    · exact exists_lasting (n := 75) (by decide +kernel)
  · rw [List.forall_mem_cons, List.forall_mem_singleton]
    constructor
    · exact exists_refused (n := 74) (by decide +kernel)
    · exact exists_refused (n := 0) (by decide +kernel)

end Engine

end FactBase
