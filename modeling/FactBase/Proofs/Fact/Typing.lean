import FactBase.Proofs.Fact.Invariant

/-
  This file shows that facts keep to the types of their
  attributes: an entity has one value at most where there can
  be only one, and values that should be entities are entity
  ids.  This is so as long as no transaction defines an
  attribute anew or enters an undefined number.

  Key definitions include:
    * `Database.KeepsTypes`
    * `TxResult.Steady`
    * `Database.TypedFacts`

  Key theorems include:
    * `Ledger.Change.typed`
    * `Database.TypedFacts.after`
    * `Engine.RunOf.single_references`
-/

------------------------------------------------------------
-- Steady Types
------------------------------------------------------------

namespace FactBase

/- Installed attributes keep their types and cardinalities. -/
def Database.KeepsTypes (before after : Database) : Prop :=
  ∀ (attr : Int) (s : Schema),
    before.schemaOf? attr = some s →
      ∃ s', after.schemaOf? attr = some s'
        ∧ s'.valueType = s.valueType
        ∧ s'.cardinality = s.cardinality

/-
  A transaction whose values equal themselves, and that
  changes neither the type nor the cardinality of an
  attribute.
-/
structure TxResult.Steady (r : TxResult) : Prop where
  defined :
    ∀ d ∈ r.facts, d.added = true →
      d.value.equals d.value = .ok true
  types : r.before.KeepsTypes r.after

------------------------------------------------------------
-- Typed Facts
------------------------------------------------------------

/- The fact gives the instant of its own transaction. -/
def DatomOf.IsTime (d : Datom) : Prop :=
  d.entity = d.tx ∧ ∃ t : Int, d.value = .instant t

/-
  The facts keep to the types that their attributes have in a
  database.  The instants of transactions are entered whatever
  the type of their attribute.
-/
structure Database.TypedFacts
    (db : Database)
    (datoms : List Datom) : Prop where
  defined : ∀ d ∈ datoms, d.value.isUndefined = false
  single :
    datoms.Pairwise (fun d d' =>
      d.entity = d'.entity → d.attr = d'.attr →
        ∀ s, db.schemaOf? d.attr = some s → s.many = true)
  references :
    ∀ d ∈ datoms, db.isRef d.attr = true →
      (∃ n : Int, d.value = .int n) ∨ d.IsTime

namespace Ledger

variable {db : Database}
variable {tx : Int}
variable {V : Value → Prop}
variable {l after : Ledger}

/- A change that enters no undefined number keeps types. -/
theorem Change.typed
    {entry : Datom}
    (h : Change db tx V l after)
    (hLog : after.log = l.log ++ [entry])
    (hEntry :
      entry.added = true →
        entry.value.equals entry.value = .ok true)
    (hTyped : db.TypedFacts l.datoms) :
    db.TypedFacts after.datoms := by
  cases h with
  | retract hRest =>
      have hSub := sublist_of_withoutFirst? hRest
      exact
        ⟨fun d hd => hTyped.defined d (hSub.subset hd),
          hTyped.single.sublist hSub,
          fun d hd => hTyped.references d (hSub.subset hd)⟩
  | @enter entity attr v origin hAttr _ hAlone hTakes _ =>
      rcases List.append_inj_right' hLog rfl with ⟨⟩
      have hDefined : v.isUndefined = false := by
        simpa [Value.equals_self] using hEntry rfl
      refine ⟨?_, ?_, ?_⟩
      · exact
          forall_mem_append_singleton.mpr
            ⟨hTyped.defined, hDefined⟩
      · refine
          pairwise_append_singleton.mpr ⟨hTyped.single, ?_⟩
        intro d hd hEntity hSame s hSchema
        rw [hSame, hAttr] at hSchema
        rcases hSchema with ⟨⟩
        -- What is there already would have had to go.
        rw [← Bool.not_eq_false]
        intro hOne
        have hLeft :=
          hAlone hOne d (mem_about.mpr ⟨hd, hEntity, hSame⟩)
        rw [hTyped.defined d hd] at hLeft
        cases hLeft
      · refine
          forall_mem_append_singleton.mpr
            ⟨hTyped.references, ?_⟩
        intro hRef
        refine hTakes ?_
        simpa [Database.isRef, hAttr] using hRef

end Ledger

------------------------------------------------------------
-- Transactions
------------------------------------------------------------

/-
  Facts about installed attributes that keep to their types
  do so for every database that keeps the types.
-/
theorem Database.TypedFacts.of_keepsTypes
    {before after : Database}
    {datoms : List Datom}
    (hTyped : before.TypedFacts datoms)
    (hInstalled :
      ∀ d ∈ datoms, (before.schemaOf? d.attr).isSome = true)
    (hTypes : before.KeepsTypes after) :
    after.TypedFacts datoms := by
  have hKept :
      ∀ d ∈ datoms, ∃ s s',
        before.schemaOf? d.attr = some s
          ∧ after.schemaOf? d.attr = some s'
          ∧ s'.isRef = s.isRef ∧ s'.many = s.many := by
    intro d hd
    rcases Option.isSome_iff_exists.mp (hInstalled d hd) with
      ⟨s, hBefore⟩
    rcases hTypes d.attr s hBefore with
      ⟨s', hAfter, hType, hCardinality⟩
    exact
      ⟨s, s', hBefore, hAfter,
        by rw [Schema.isRef, hType, Schema.isRef],
        by rw [Schema.many, hCardinality, Schema.many]⟩
  refine ⟨hTyped.defined, ?_, ?_⟩
  · refine hTyped.single.imp_of_mem ?_
    intro d d' hd _ hSingle hEntity hSame s'' hSchema
    rcases hKept d hd with
      ⟨s, s', hBefore, hAfter, _, hMany⟩
    rw [hAfter] at hSchema
    rcases hSchema with ⟨⟩
    rw [hMany]
    exact hSingle hEntity hSame s hBefore
  · intro d hd hRef
    rcases hKept d hd with ⟨s, s', hBefore, hAfter, hSame, _⟩
    apply hTyped.references d hd
    rw [Database.isRef, hBefore]
    rw [Database.isRef, hAfter] at hRef
    simpa [hSame] using hRef

/- A steady transaction keeps facts to their types. -/
theorem Database.TypedFacts.after
    {e : Engine}
    {l : Ledger}
    {r : TxResult}
    {V : Value → Prop}
    (hCommits : e.Commits V l r)
    (hSteady : r.Steady)
    (hSound : e.db.Sound)
    (hTyped : e.db.TypedFacts e.db.datoms) :
    r.after.TypedFacts r.after.datoms := by
  have hFacts : e.db.TypedFacts l.datoms := by
    refine
      hCommits.changes.invariant_of_log
        (fun d => d.added = true →
          d.value.equals d.value = .ok true)
        (fun l => e.db.TypedFacts l.datoms) ?_ ?_ hTyped
    · intro _ _ _ hChange hLog hEntry hSoFar
      exact hChange.typed hLog hEntry hSoFar
    · rw [← hCommits.facts]
      exact hSteady.defined
  have hTypes := hSteady.types
  rw [hCommits.before] at hTypes
  rw [(Database.extends_afterLog hCommits.after).1]
  exact
    hFacts.of_keepsTypes
      (hCommits.changes.sound hSound.facts).installed hTypes

------------------------------------------------------------
-- Steady Transactions
------------------------------------------------------------

/-
  The result enters no undefined number, and what it installs
  by a given attribute is not installed yet.
-/
def TxResult.installsNew
    (attr : Int)
    (r : TxResult) : Bool :=
  r.facts.all (fun d =>
    !d.added
      || (!d.value.isUndefined
        && (d.attr != attr
          || (Table.find? d.value r.before.attributes).isNone)))

namespace Engine

/- A transaction that installs only what is new is steady. -/
theorem Commits.steady
    {e : Engine}
    {l : Ledger}
    {r : TxResult}
    {V : Value → Prop}
    {newAttr : Installed}
    (hCommits : e.Commits V l r)
    (hAttr :
      e.db.installed (.str "db.install/attribute")
        = .ok newAttr)
    (hNew : r.installsNew newAttr.eid = true) :
    r.Steady := by
  simp only [TxResult.installsNew, List.all_eq_true,
    Bool.or_eq_true, Bool.and_eq_true, Bool.not_eq_true',
    bne_iff_ne, Option.isNone_iff_eq_none] at hNew
  constructor
  · intro d hd hAdded
    rcases hNew d hd with hNot | ⟨hDefined, _⟩
    · rw [hAdded] at hNot
      cases hNot
    · rw [Value.equals_self, hDefined]
      rfl
  · intro attr s hSchema
    refine ⟨s, ?_, rfl, rfl⟩
    rw [Database.schemaOf?_afterLog hCommits.after,
      ← hCommits.before]
    · exact hSchema
    intro other hOther d hd hAdded hInstalls
    rw [hAttr] at hOther
    rcases hOther with ⟨⟩
    rw [← hCommits.facts] at hd
    rcases hNew d hd with hNot | ⟨_, hElse | hNone⟩
    · rw [hAdded] at hNot
      cases hNot
    · exact absurd hInstalls hElse
    -- The attribute would be found under the value installed.
    · rw [Bool.eq_false_iff]
      intro hInt
      have hSame : (Value.int attr).same d.value = true := by
        rw [Value.same, hInt]
      rw [← Value.same_int_right] at hInt
      rw [Table.find?_congr hInt hSame] at hNone
      rw [Database.schemaOf?, hNone] at hSchema
      cases hSchema

/- So is one whose outcome can be seen to be such. -/
theorem nextOf_steady
    {e : Engine}
    {data : Value}
    (attr : Int)
    (hAttr :
      (e.db.installed
        (.str "db.install/attribute")).toOption.map
          Installed.eid = some attr)
    (hNew :
      (e.transact data).1.toOption.all
        (TxResult.installsNew attr) = true) :
    NextOf TxResult.Steady e (e.transact data).2 := by
  rcases Database.exists_installed hAttr with
    ⟨newAttr, hInstalled, rfl⟩
  refine nextOf_of_all ?_ hNew
  intro l r hCommits hInstallsNew
  exact hCommits.steady hInstalled hInstallsNew

end Engine

------------------------------------------------------------
-- Runs
------------------------------------------------------------

/- The value is an entity id. -/
def Value.isId (v : Value) : Bool :=
  v matches .int _

/- Such a value is a number. -/
theorem Value.exists_of_isId
    {v : Value}
    (h : v.isId = true) : ∃ n : Int, v = .int n := by
  cases v with
  | int n => exact ⟨n, rfl⟩
  | _ => cases h

namespace Bootstrap

/- The facts of the first database keep to their types. -/
theorem typedFacts_database (instant : Int) :
    (database instant).TypedFacts
      (database instant).datoms := by
  have hSchema :
      ∀ attr : Int,
        (database instant).schemaOf? attr
          = (database 0).schemaOf? attr := fun _ => rfl
  refine ⟨?_, ?_, ?_⟩
  · refine forall_mem_datoms ?_ rfl
    decide +kernel
  · refine pairwise_datoms ?_ ?_
    · have hSingle :
          fixedFacts.Pairwise (fun d d' =>
            d.entity = d'.entity → d.attr = d'.attr →
              ((database 0).schemaOf? d.attr).all Schema.many
                = true) := by
        decide +kernel
      refine hSingle.imp ?_
      intro d d' h hEntity hSame s hs
      rw [hSchema] at hs
      simpa [hs] using h hEntity hSame
    · exact fun _ _ hDiffer hEntity => absurd hEntity hDiffer
  · refine forall_mem_datoms ?_ (fun _ => .inr ⟨rfl, _, rfl⟩)
    have hReferences :
        ∀ d ∈ fixedFacts,
          ((database 0).schemaOf? d.attr).any Schema.isRef
              = true →
            d.value.isId = true := by
      decide +kernel
    intro d hd hRef
    rw [Database.isRef, hSchema] at hRef
    exact .inl (Value.exists_of_isId (hReferences d hd hRef))

end Bootstrap

/- Where no two items may stand together, there is one at most. -/
private theorem length_filter_le_one
    {α : Type}
    {p : α → Bool}
    {xs : List α}
    (h : xs.Pairwise (fun x y => ¬(p x = true ∧ p y = true))) :
    (xs.filter p).length ≤ 1 := by
  have hKept := List.Pairwise.filter p h
  have hAll : ∀ x ∈ xs.filter p, p x = true :=
    fun x hx => (List.mem_filter.mp hx).2
  rcases hEq : xs.filter p with _ | ⟨x, _ | ⟨y, ys⟩⟩
  · simp
  · simp
  · rw [hEq] at hKept hAll
    have hApart := List.rel_of_pairwise_cons hKept List.mem_cons_self
    exact absurd ⟨hAll x (by simp), hAll y (by simp)⟩ hApart

namespace Engine

open Bootstrap

/-
  In every database that steady transactions lead to, an
  entity has at most one value for an attribute that can have
  only one, and the values of an attribute whose values are
  entities are entity ids.  Only the instant of a transaction
  is entered by the engine itself, whatever the attribute is
  that its ident names by then.
-/
theorem RunOf.single_references
    {clock : Nat → Int}
    {e : Engine}
    (h : RunOf TxResult.Steady (start clock) e) :
    (∀ (entity attr : Int) (s : Schema),
        e.db.schemaOf? attr = some s →
          s.cardinality = .one →
            (e.db.datoms.filter
              (Ledger.isAbout entity attr)).length ≤ 1)
      ∧ ∀ d ∈ e.db.datoms, e.db.isRef d.attr = true →
          (∃ n : Int, d.value = .int n) ∨ d.IsTime := by
  have hTyped : e.db.Sound ∧ e.db.TypedFacts e.db.datoms := by
    refine
      h.invariant
        (fun db => db.Sound ∧ db.TypedFacts db.datoms) ?_
        ⟨sound_database _, typedFacts_database _⟩
    rintro e l r hCommits hSteady ⟨hSound, hTyped⟩
    exact
      ⟨hSound.after hCommits.changes hCommits.after,
        .after hCommits hSteady hSound hTyped⟩
  refine ⟨?_, hTyped.2.references⟩
  intro entity attr s hSchema hOne
  apply length_filter_le_one
  refine hTyped.2.single.imp ?_
  simp only [Ledger.isAbout, Bool.and_eq_true, beq_iff_eq]
  rintro d d' hSingle ⟨⟨hEntity, hAttr⟩, hEntity', hAttr'⟩
  have hMany :=
    hSingle (hEntity.trans hEntity'.symm)
      (hAttr.trans hAttr'.symm) s (by rw [hAttr]; exact hSchema)
  rw [Schema.many, hOne] at hMany
  cases hMany

/- Transaction data that installs a reference. -/
def partnerAttribute : Value :=
  .list
    [ .map
        [ (.str "db/id", .tempid "db.part/db" (-1))
        , (.str "db.install/_attribute", .str "db.part/db")
        , (.str "db/ident", .str "user/partner")
        , (.str "db/valueType", .str "db.type/ref") ] ]

/- Transaction data that refers to one entity, then another. -/
def partnerData : Value :=
  let entity (n : Int) : Value := .tempid "db.part/user" n
  .list
    [ .list
        [ .str "db/add", entity (-1), .str "user/partner"
        , entity (-2) ]
    , .list
        [ .str "db/add", entity (-1), .str "user/partner"
        , entity (-3) ] ]

/- The engine after both transactions. -/
def partnerEngine : Engine :=
  (((start (fun _ => 0)).transact
    partnerAttribute).2.transact partnerData).2

/-
  The new attribute has the id 22.  Its one value takes the
  place of the first and is an entity id.
-/
theorem single_references_partnerEngine :
    RunOf TxResult.Steady (start (fun _ => 0)) partnerEngine
      ∧ partnerEngine.db.isRef 22 = true
      ∧ (partnerEngine.db.datoms.filter
          (fun d => d.attr == 22)).length = 1
      ∧ (∀ entity : Int,
          (partnerEngine.db.datoms.filter
            (Ledger.isAbout entity 22)).length ≤ 1)
      ∧ ∀ d ∈ partnerEngine.db.datoms, d.attr = 22 →
          (∃ n : Int, d.value = .int n) ∨ d.IsTime := by
  have hRun :
      RunOf TxResult.Steady (start (fun _ => 0))
        partnerEngine := by
    have hFirst :
        NextOf TxResult.Steady (start (fun _ => 0))
          ((start (fun _ => 0)).transact partnerAttribute).2 :=
      nextOf_steady 21 (by decide +kernel)
        (by decide +kernel)
    exact
      (Relation.ReflTransGen.single hFirst).tail
        (nextOf_steady 21 (by decide +kernel)
          (by decide +kernel))
  have hRef : partnerEngine.db.isRef 22 = true := by
    decide +kernel
  have hOne :
      (partnerEngine.db.schemaOf? 22).any
        (fun s => s.cardinality == .one) = true := by
    decide +kernel
  rcases hSchema : partnerEngine.db.schemaOf? 22 with _ | s
  · rw [hSchema] at hOne
    cases hOne
  rw [hSchema] at hOne
  rcases RunOf.single_references hRun with
    ⟨hSingle, hReferences⟩
  refine ⟨hRun, hRef, by decide +kernel, ?_, ?_⟩
  · intro entity
    exact hSingle entity 22 s hSchema (beq_iff_eq.mp hOne)
  · intro d hd hAttr
    exact hReferences d hd (by rw [hAttr]; exact hRef)

/-
  Transaction data that has the ident of the instant name an
  attribute whose values are entities, and an ident that a
  transaction needs name another attribute in its place.
-/
def renamedInstant : Value :=
  .list
    [ .list
        [ .str "db/add", .int 20, .str "db/ident"
        , .str "db/txInstant" ]
    , .list
        [ .str "db/add", .int 18, .str "db/ident"
        , .str "db.install/partition" ] ]

/- The engine after that and a transaction without items. -/
def renamedEngine : Engine :=
  (((start (fun _ => 0)).transact
    renamedInstant).2.transact (.list [])).2

/-
  The instant of the second transaction is the value of an
  attribute whose values are entities, but it is no id.
-/
theorem not_references_renamedEngine :
    RunOf TxResult.Steady (start (fun _ => 0)) renamedEngine
      ∧ ∃ d ∈ renamedEngine.db.datoms,
          renamedEngine.db.isRef d.attr = true
            ∧ ∀ n : Int, d.value ≠ .int n := by
  constructor
  · have hFirst :
        NextOf TxResult.Steady (start (fun _ => 0))
          ((start (fun _ => 0)).transact renamedInstant).2 :=
      nextOf_steady 21 (by decide +kernel)
        (by decide +kernel)
    exact
      (Relation.ReflTransGen.single hFirst).tail
        (nextOf_steady 21 (by decide +kernel)
          (by decide +kernel))
  · have hFound :
        renamedEngine.db.datoms.any (fun d =>
          renamedEngine.db.isRef d.attr
            && !d.value.isId) = true := by
      decide +kernel
    rcases List.any_eq_true.mp hFound with ⟨d, hd, hBoth⟩
    rw [Bool.and_eq_true, Bool.not_eq_true'] at hBoth
    refine ⟨d, hd, hBoth.1, ?_⟩
    intro n hInt
    rw [hInt] at hBoth
    cases hBoth.2

end Engine

end FactBase
