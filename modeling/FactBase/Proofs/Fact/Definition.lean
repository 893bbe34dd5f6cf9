import FactBase.Proofs.Fact.Lookup

/-
  This file shows where the definition of an installed
  attribute comes from.  It was read from the facts about the
  attribute when the attribute was last installed, under the
  idents of just before.  Facts that change later do not
  change the definition until the attribute is installed
  again.

  Key definitions include:
    * `TxResult.Installs`
    * `Engine.Installing`
    * `Engine.DefinedAt`

  Key theorems include:
    * `Database.definitionOf_congr`
    * `Database.schemaOf?_of_installs`
    * `Engine.Run.exists_definedAt`
-/

------------------------------------------------------------
-- Reading a Definition
------------------------------------------------------------

namespace FactBase

open Sorting
open Bootstrap

namespace Database

variable {db db' : Database}
variable {datoms datoms' : List Datom}
variable {attr : Int}

/- The facts about an attribute, and its entity in any form. -/
theorem definitionOf_of_isInt
    {v : Value}
    (h : v.isInt attr = true)
    (datoms : List Datom) :
    db.definitionOf datoms v
      = db.definitionOf datoms (.int attr) := by
  unfold definitionOf
  congr 1
  refine List.filter_congr ?_
  intro d _
  rw [Bool.eq_iff_iff]
  constructor
  · intro hv
    rw [Value.eq_of_isInt h hv, Value.isInt, beq_self_eq_true]
  · intro hInt
    rw [Value.isInt, beq_iff_eq] at hInt
    exact hInt ▸ h

/-
  What is read depends only on the facts about the entity and
  on the idents of their attributes.
-/
theorem definitionOf_congr
    {v : Value}
    (hFacts :
      datoms.filter (fun d => v.isInt d.entity)
        = datoms'.filter (fun d => v.isInt d.entity))
    (hIdents :
      ∀ d ∈ datoms'.filter (fun d => v.isInt d.entity),
        db.identOf (.int d.attr) = db'.identOf (.int d.attr)) :
    db.definitionOf datoms v = db'.definitionOf datoms' v := by
  unfold definitionOf
  rw [hFacts]
  refine List.foldl_ext _ _ _ ?_
  intro entries d hd
  rw [hIdents d hd]

/- A definition is read from the facts about an attribute. -/
theorem ofTxData_of_defined
    {v : Value}
    {s : Schema}
    (h : db.defined datoms v = .ok s) :
    Schema.ofTxData (db.definitionOf datoms v) = .ok s := by
  unfold defined at h
  rcases hRead : Schema.ofTxData (db.definitionOf datoms v)
    with fault | t
  · rw [hRead] at h
    simp only at h
    split at h <;> cases h
  · rw [hRead] at h
    exact h

------------------------------------------------------------
-- Installing
------------------------------------------------------------

/- The attribute is defined as the facts about it say. -/
def Reads
    (db : Database)
    (datoms : List Datom)
    (attr : Int)
    (s : Option Schema) : Prop :=
  ∃ schema, s = some schema
    ∧ Schema.ofTxData (db.definitionOf datoms (.int attr))
      = .ok schema

/- What is installed is defined as the facts about it say. -/
theorem reads_installAttribute
    {i j : Installations}
    {v : Value}
    (h : db.installAttribute datoms i v = .ok j)
    (hAttr : v.isInt attr = true) :
    db.Reads datoms attr
      (Table.find? (.int attr) j.attributes) := by
  unfold installAttribute at h
  rcases bind_eq_ok.mp h with ⟨schema, hSchema, hRest⟩
  split at hRest
  · rw [pure_eq_ok] at hRest
    subst hRest
    refine ⟨schema, ?_, ?_⟩
    · have hSame : v.same (.int attr) = true := by
        rw [Value.same_int_right, hAttr]
      have hSame' : (Value.int attr).same v = true := by
        rw [Value.same, hAttr]
      rw [← Table.find?_congr hSame hSame']
      exact Table.find?_put _ _ _ (Value.same_refl v)
    · rw [← definitionOf_of_isInt hAttr]
      exact ofTxData_of_defined hSchema
  · cases hRest

/- Whatever is installed then, it stays defined so. -/
private theorem reads_installedBy
    {idents : List (Value × Int)}
    {newAttr newPart : Installed}
    {i j : Installations}
    {d : Datom}
    (h :
      db.installedBy datoms idents newAttr newPart i d = .ok j)
    (hSoFar :
      db.Reads datoms attr
        (Table.find? (.int attr) i.attributes)) :
    db.Reads datoms attr
      (Table.find? (.int attr) j.attributes) := by
  unfold installedBy at h
  split at h
  · cases hAttr : d.value.isInt attr with
    | true => exact reads_installAttribute h hAttr
    | false =>
        rw [find?_installAttribute h hAttr]
        exact hSoFar
  · split at h
    · rw [attributes_installPartition h]
      exact hSoFar
    · rw [pure_eq_ok] at h
      exact h ▸ hSoFar

end Database

/-
  A transaction installs an attribute if it adds a fact that
  says so.  It is the database of before that tells by which
  attribute.
-/
def TxResult.Installs
    (attr : Int)
    (r : TxResult) : Prop :=
  ∃ d ∈ r.facts,
    d.added = true ∧ d.value.isInt attr = true
      ∧ Table.find? (.str "db.install/attribute")
          r.before.idents = some d.attr

namespace Database

variable {e : Engine}
variable {l : Ledger}
variable {r : TxResult}
variable {V : Value → Prop}
variable {attr : Int}

/-
  An attribute that a transaction installs is defined as the
  facts say that it leaves, by the idents of before.
-/
theorem schemaOf?_of_installs
    (hCommits : e.Commits V l r)
    (h : r.Installs attr) :
    e.db.Reads r.after.datoms attr
      (r.after.schemaOf? attr) := by
  rcases h with ⟨d, hd, hAdded, hInt, hName⟩
  rcases afterLog_eq_ok.mp hCommits.after with
    ⟨ident, idents, newAttr, newPart, installs, _, _, hAttr,
      _, hInstalls, hAfter⟩
  rw [hCommits.facts] at hd
  rw [hCommits.before, (installed_eq_ok.mp hAttr).2.1] at hName
  have hNew : newAttr.eid = d.attr := Option.some.inj hName
  rcases List.append_of_mem (List.mem_filter.mpr ⟨hd, hAdded⟩)
    with ⟨before, rest, hSplit⟩
  rw [hSplit, List.foldlM_append] at hInstalls
  rcases bind_eq_ok.mp hInstalls with ⟨i, _, hInstalls⟩
  rw [List.foldlM_cons] at hInstalls
  rcases bind_eq_ok.mp hInstalls with ⟨j, hStep, hRest⟩
  have hRead :
      e.db.Reads l.datoms attr
        (Table.find? (.int attr) j.attributes) := by
    rw [installedBy, if_pos (by simp [hNew])] at hStep
    exact reads_installAttribute hStep hInt
  rw [hAfter]
  exact
    Outcome.foldlM_invariant
      (fun i =>
        e.db.Reads l.datoms attr
          (Table.find? (.int attr) i.attributes))
      (fun _ _ _ _ hStep hSoFar =>
        reads_installedBy hStep hSoFar)
      hRest hRead

/- An attribute that it does not install is defined as before. -/
theorem schemaOf?_of_not_installs
    (hCommits : e.Commits V l r)
    (h : ¬r.Installs attr) :
    r.after.schemaOf? attr = e.db.schemaOf? attr := by
  refine schemaOf?_afterLog hCommits.after ?_
  intro newAttr hAttr d hd hAdded hNew
  rw [Bool.eq_false_iff]
  intro hInt
  refine h ⟨d, hCommits.facts ▸ hd, hAdded, hInt, ?_⟩
  rw [hCommits.before, hNew]
  exact (installed_eq_ok.mp hAttr).2.1

end Database

------------------------------------------------------------
-- The First Database
------------------------------------------------------------

namespace Schema

variable {s t : Schema}

/- A switch that is read is a truth value. -/
private theorem exists_switch
    (entries : List (Value × Value))
    (name : String)
    (absent : Bool) :
    ∃ b, switch entries name absent = .bool b := by
  unfold switch
  split
  · exact ⟨_, rfl⟩
  · exact ⟨_, rfl⟩

/- The switches of a definition that is read are truth values. -/
theorem normalized_of_ofTxData
    {entries : List (Value × Value)}
    (h : ofTxData entries = .ok s) : s.normalized = s := by
  unfold ofTxData at h
  split at h
  · unfold ofFields at h
    rcases bind_eq_ok.mp h with ⟨ident, _, h⟩
    rcases bind_eq_ok.mp h with ⟨valueType, _, h⟩
    rcases bind_eq_ok.mp h with ⟨cardinality, _, h⟩
    rcases bind_eq_ok.mp h with ⟨unique, _, h⟩
    rcases bind_eq_ok.mp h with ⟨doc, _, h⟩
    rw [pure_eq_ok] at h
    subst h
    rcases exists_switch entries "db/index" true with ⟨_, h₁⟩
    rcases exists_switch entries "db/fulltext" false with
      ⟨_, h₂⟩
    rcases exists_switch entries "db/isComponent" false with
      ⟨_, h₃⟩
    rcases exists_switch entries "db/noHistory" false with
      ⟨_, h₄⟩
    simp only [normalized, h₁, h₂, h₃, h₄, Value.truthy]
  · cases h

/- Two truth values are the same only if they are equal. -/
private theorem eq_of_same_bool
    {x y : Bool}
    (h : (Value.bool x).same (.bool y) = true) : x = y := by
  revert h
  cases x <;> cases y <;> decide +kernel

/-
  Definitions that agree are equal if their switches are truth
  values.
-/
theorem eq_of_sameSchema
    (hs : s.normalized = s)
    (ht : t.normalized = t)
    (h : Value.sameSchema s t = true) : s = t := by
  rw [← hs, ← ht] at h ⊢
  simp only [normalized, Value.sameSchema, Bool.and_eq_true,
    beq_iff_eq] at h ⊢
  rcases h with
    ⟨⟨⟨⟨⟨⟨⟨⟨hIdent, hType⟩, hCardinality⟩, hUnique⟩,
      hIndex⟩, hFulltext⟩, hComponent⟩, hHistory⟩, hDoc⟩
  rw [hIdent, hType, hCardinality, hUnique, hDoc,
    eq_of_same_bool hIndex, eq_of_same_bool hFulltext,
    eq_of_same_bool hComponent, eq_of_same_bool hHistory]

end Schema

namespace Bootstrap

/- Its instant is no fact about an attribute. -/
theorem factsOf_attribute
    (instant : Int)
    {b : Schema × Int}
    (hb : b ∈ attributeIds) :
    (database instant).factsOf (.int b.2)
      = (database 0).factsOf (.int b.2) := by
  have hOther : ∀ b ∈ attributeIds, (b.2 == tx) = false := by
    decide +kernel
  have hNot : (tx == b.2) = false :=
    BEq.comm.trans (hOther b hb)
  change
    (fixedFacts ++ [instantFact instant]).filter _
      = (fixedFacts ++ [instantFact 0]).filter _
  simp [List.filter_append, instantFact, fact, Value.isInt,
    hNot]

/- The attributes of the first database are defined by facts. -/
theorem reads_database
    {instant attr : Int}
    {s : Schema}
    (h : (database instant).schemaOf? attr = some s) :
    Schema.ofTxData
        ((database instant).definitionOf
          (database instant).datoms (.int attr))
      = .ok s := by
  rcases Table.mem_of_find? h with ⟨k, hMem, hSame⟩
  rcases List.mem_map.mp hMem with ⟨b, hb, hEq⟩
  rcases Prod.mk.inj hEq with ⟨rfl, rfl⟩
  rw [Value.same_int_right, Value.isInt, beq_iff_eq] at hSame
  subst hSame
  have hAgree :
      ∀ b ∈ attributeIds,
        (Schema.ofTxData
          ((database 0).definitionOf
            (database 0).datoms (.int b.2))).toOption.any
              (fun s => Value.sameSchema s b.1) = true := by
    decide +kernel
  have hSwitches :
      ∀ b ∈ attributeIds, b.1.normalized = b.1 :=
    List.map_inj_left.mp rfl
  have hRead := hAgree b hb
  have hSame :
      (database instant).definitionOf (database instant).datoms
          (.int b.2)
        = (database 0).definitionOf (database 0).datoms
          (.int b.2) :=
    Database.definitionOf_congr (factsOf_attribute instant hb)
      (fun _ _ => rfl)
  rw [hSame]
  rcases hSchema :
      Schema.ofTxData
        ((database 0).definitionOf (database 0).datoms
          (.int b.2)) with
    fault | s
  · rw [hSchema] at hRead
    cases hRead
  · rw [hSchema] at hRead
    exact
      congrArg Except.ok
        (Schema.eq_of_sameSchema
          (Schema.normalized_of_ofTxData hSchema)
          (hSwitches b hb) hRead)

end Bootstrap

------------------------------------------------------------
-- Runs
------------------------------------------------------------

namespace Engine

/- A call that installs an attribute, and what follows it. -/
def Installing
    (attr : Int)
    (e f : Engine) : Prop :=
  ∃ (data : Value) (r : TxResult),
    (e.transact data).1 = .ok r ∧ r.Installs attr
      ∧ f = (e.transact data).2

/-
  The point of a run to an engine at which an attribute got
  its definition: its last installation, or the start of the
  run if there is none.  The definition is read from the facts
  of then by the idents of just before.
-/
structure DefinedAt
    (clock : Nat → Int)
    (attr : Int)
    (s : Schema)
    (before after e : Engine) : Prop where
  point :
    (before = start clock ∧ after = start clock)
      ∨ (Run (fun _ => True) (start clock) before
          ∧ Installing attr before after)
  since : RunOf (fun r => ¬r.Installs attr) after e
  read :
    Schema.ofTxData
        (before.db.definitionOf after.db.datoms (.int attr))
      = .ok s

variable {clock : Nat → Int}
variable {attr : Int}
variable {s : Schema}

/- A call that does not install the attribute leaves it at that. -/
theorem DefinedAt.next
    {before after f : Engine}
    (h : DefinedAt clock attr s before after f)
    {data : Value}
    (hNot :
      ∀ r, (f.transact data).1 = .ok r → ¬r.Installs attr) :
    DefinedAt clock attr s before after
      (f.transact data).2 where
  point := h.point
  since := h.since.tail ⟨data, hNot, rfl⟩
  read := h.read

/- A call that installs the attribute defines it there. -/
theorem definedAt_of_installs
    {f : Engine}
    (hRun : Run (fun _ => True) (start clock) f)
    {data : Value}
    {r : TxResult}
    (hResult : (f.transact data).1 = .ok r)
    (hInstalls : r.Installs attr)
    (hSchema : r.after.schemaOf? attr = some s) :
    DefinedAt clock attr s f (f.transact data).2
      (f.transact data).2 := by
  rcases commits_of_transact hResult with ⟨l, hCommits, hDb⟩
  rcases Database.schemaOf?_of_installs hCommits hInstalls with
    ⟨schema, hFound, hRead⟩
  rw [hFound] at hSchema
  rcases hSchema with ⟨⟩
  refine
    ⟨.inr ⟨hRun, data, r, hResult, hInstalls, rfl⟩, .refl, ?_⟩
  rw [hDb]
  exact hRead

/-
  In every database that can be reached, each attribute has
  the definition that was stored when it was last installed.
  That is still the one that is stored, if the facts about the
  attribute and the idents of their attributes are those of
  then.
-/
theorem Run.exists_definedAt
    {clock : Nat → Int}
    {e : Engine}
    {attr : Int}
    {s : Schema}
    (h : Run (fun _ => True) (start clock) e)
    (hSchema : e.db.schemaOf? attr = some s) :
    ∃ before after : Engine,
      DefinedAt clock attr s before after e
        ∧ (e.db.factsOf (.int attr)
              = after.db.factsOf (.int attr) →
            (∀ d ∈ after.db.factsOf (.int attr),
              e.db.identOf (.int d.attr)
                = before.db.identOf (.int d.attr)) →
            Schema.ofTxData
                (e.db.definitionOf e.db.datoms (.int attr))
              = .ok s) := by
  suffices hPoint :
      ∃ before after, DefinedAt clock attr s before after e by
    rcases hPoint with ⟨before, after, hDefined⟩
    refine ⟨before, after, hDefined, ?_⟩
    intro hFacts hIdents
    rw [← hDefined.read]
    exact
      congrArg Schema.ofTxData
        (Database.definitionOf_congr hFacts hIdents)
  induction h with
  | refl =>
      exact
        ⟨_, _, .inl ⟨rfl, rfl⟩, .refl, reads_database hSchema⟩
  | @tail f g hRun hLast ih =>
      rcases hLast with ⟨data, _, rfl⟩
      rcases hResult : (f.transact data).1 with fault | r
      · rw [db_transact_of_error hResult] at hSchema
        rcases ih hSchema with ⟨before, after, hDefined⟩
        refine ⟨before, after, hDefined.next ?_⟩
        rw [hResult]
        rintro _ ⟨⟩
      · rcases commits_of_transact hResult with
          ⟨l, hCommits, hDb⟩
        rw [hDb] at hSchema
        by_cases hInstalls : r.Installs attr
        · exact
            ⟨_, _,
              definedAt_of_installs hRun hResult hInstalls
                hSchema⟩
        · rw [Database.schemaOf?_of_not_installs hCommits
            hInstalls] at hSchema
          rcases ih hSchema with ⟨before, after, hDefined⟩
          refine ⟨before, after, hDefined.next ?_⟩
          intro r' hr'
          rw [hResult] at hr'
          rcases hr' with ⟨⟩
          exact hInstalls

/- Transaction data that installs an attribute of texts. -/
def namesAttribute : Value :=
  .list
    [ .map
        [ (.str "db/id", .tempid "db.part/db" (-1))
        , (.str "db.install/_attribute", .str "db.part/db")
        , (.str "db/ident", .str "user/names")
        , (.str "db/valueType", .str "db.type/string") ] ]

/- Transaction data that lets it have many values. -/
def manyNamesData : Value :=
  .list
    [ .list
        [ .str "db/add", .str "user/names"
        , .str "db/cardinality"
        , .str "db.cardinality/many" ] ]

/- Transaction data that installs it again. -/
def reinstallData : Value :=
  let install (operation : String) : Value :=
    .list
      [ .str operation, .str "db.part/db"
      , .str "db.install/attribute", .str "user/names" ]
  .list [install "db/retract", install "db/add"]

/- The engine after the first two transactions. -/
def manyNamesEngine : Engine :=
  (((start (fun _ => 0)).transact
    namesAttribute).2.transact manyNamesData).2

/- The engine after all three. -/
def reinstalledEngine : Engine :=
  (manyNamesEngine.transact reinstallData).2

/- By three calls, the last engine can be reached. -/
private theorem run_reinstalledEngine :
    Run (fun _ => True) (start (fun _ => 0))
      reinstalledEngine :=
  ((Relation.ReflTransGen.single
    ⟨namesAttribute, trivial, rfl⟩).tail
      ⟨manyNamesData, trivial, rfl⟩).tail
        ⟨reinstallData, trivial, rfl⟩

/-
  Once it is installed again, the attribute can have many
  values, as was stored when it was last installed.
-/
theorem exists_definedAt_reinstalledEngine :
    ∃ s, reinstalledEngine.db.schemaOf? 22 = some s
      ∧ s.many = true
      ∧ ∃ before after : Engine,
          DefinedAt (fun _ => 0) 22 s before after
            reinstalledEngine := by
  have hMany :
      (reinstalledEngine.db.schemaOf? 22).any Schema.many
        = true := by
    decide +kernel
  rcases hSchema : reinstalledEngine.db.schemaOf? 22 with _ | s
  · rw [hSchema] at hMany
    cases hMany
  rw [hSchema] at hMany
  rcases Run.exists_definedAt run_reinstalledEngine hSchema with
    ⟨before, after, hDefined, _⟩
  exact ⟨s, rfl, hMany, before, after, hDefined⟩

/-
  Before that, its stored facts say that it can have many
  values, but the database takes it for an attribute of one.
-/
theorem not_stored_manyNamesEngine :
    Run (fun _ => True) (start (fun _ => 0)) manyNamesEngine
      ∧ (∃ d ∈ manyNamesEngine.db.datoms,
          d.entity = 22 ∧ d.attr = identAttr)
      ∧ (∃ d ∈ manyNamesEngine.db.datoms,
          d.entity = 22 ∧ d.attr = attributeId "db/valueType")
      ∧ ∃ s stored,
          manyNamesEngine.db.schemaOf? 22 = some s
            ∧ Schema.ofTxData
                (manyNamesEngine.db.definitionOf
                  manyNamesEngine.db.datoms (.int 22))
              = .ok stored
            ∧ s ≠ stored := by
  have hOne :
      (manyNamesEngine.db.schemaOf? 22).any
        (fun s => !s.many) = true := by
    decide +kernel
  have hMany :
      (Schema.ofTxData
        (manyNamesEngine.db.definitionOf
          manyNamesEngine.db.datoms
            (.int 22))).toOption.any Schema.many = true := by
    decide +kernel
  refine
    ⟨(Relation.ReflTransGen.single
        ⟨namesAttribute, trivial, rfl⟩).tail
          ⟨manyNamesData, trivial, rfl⟩,
      by decide +kernel, by decide +kernel, ?_⟩
  rcases hSchema : manyNamesEngine.db.schemaOf? 22 with _ | s
  · rw [hSchema] at hOne
    cases hOne
  rcases hStored :
      Schema.ofTxData
        (manyNamesEngine.db.definitionOf
          manyNamesEngine.db.datoms (.int 22)) with
    fault | stored
  · rw [hStored] at hMany
    cases hMany
  rw [hSchema] at hOne
  rw [hStored] at hMany
  refine ⟨s, stored, rfl, rfl, ?_⟩
  rintro rfl
  simp only [Option.any_some, Bool.not_eq_true'] at hOne
  rw [show s.many = true from hMany] at hOne
  cases hOne

end Engine

end FactBase
