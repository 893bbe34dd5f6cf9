import FactBase.Fact.Transaction
import FactBase.Proofs.Fact.Database
import FactBase.Proofs.Outcome

/-
  This file opens up how the database after a transaction is
  made from the log, and says what it takes over: no attribute
  and no partition is lost, and an attribute that the log does
  not install is defined as before.

  Key definitions include:
    * `Database.PartitionsDistinct`
    * `Database.installedBy`

  Key theorems include:
    * `Database.afterLog_eq_ok`
    * `Database.extends_afterLog`
    * `Database.schemaOf?_afterLog`
-/

------------------------------------------------------------
-- The Parts of the Next Database
------------------------------------------------------------

namespace FactBase

open Sorting

namespace Database

variable {db after : Database}
variable {l : Ledger}

/- What an entry of a log installs. -/
def installedBy
    (db : Database)
    (datoms : List Datom)
    (idents : List (Value × Int))
    (newAttr newPart : Installed)
    (i : Installations)
    (d : Datom) : Outcome Installations :=
  if d.attr == newAttr.eid then
    db.installAttribute datoms i d.value
  else if d.attr == newPart.eid then
    installPartition idents i d.value
  else pure i

/-
  There is a database after a transaction when idents can
  follow the log and all that it installs can be installed.
-/
theorem afterLog_eq_ok :
    db.afterLog l = .ok after ↔
      ∃ ident idents newAttr newPart installs,
        db.installed (.str "db/ident") = .ok ident
          ∧ (l.log.filter (fun d => d.attr == ident.eid)).foldlM
              followIdent db.idents = .ok idents
          ∧ db.installed (.str "db.install/attribute")
              = .ok newAttr
          ∧ db.installed (.str "db.install/partition")
              = .ok newPart
          ∧ (l.log.filter (fun d => d.added)).foldlM
              (db.installedBy l.datoms idents newAttr newPart)
              { attributes := db.attributes
                partitions := db.partitions }
              = .ok installs
          ∧ after =
              { basis := db.basis + 1
                datoms := l.datoms
                idents := idents
                attributes := installs.attributes
                partitions := installs.partitions } := by
  unfold afterLog
  constructor
  · intro h
    rcases bind_eq_ok.mp h with ⟨ident, hIdent, h⟩
    rcases bind_eq_ok.mp h with ⟨idents, hIdents, h⟩
    rcases bind_eq_ok.mp h with ⟨newAttr, hAttr, h⟩
    rcases bind_eq_ok.mp h with ⟨newPart, hPart, h⟩
    rcases bind_eq_ok.mp h with ⟨installs, hInstalls, hEq⟩
    rw [pure_eq_ok] at hEq
    exact
      ⟨ident, idents, newAttr, newPart, installs, hIdent,
        hIdents, hAttr, hPart, hInstalls, hEq.symm⟩
  · rintro
      ⟨ident, idents, newAttr, newPart, installs, hIdent,
        hIdents, hAttr, hPart, hInstalls, rfl⟩
    rw [hIdent, ok_bind, hIdents, ok_bind, hAttr, ok_bind,
      hPart, ok_bind]
    exact bind_eq_ok.mpr ⟨installs, hInstalls, rfl⟩

------------------------------------------------------------
-- Nothing Is Lost
------------------------------------------------------------

/- The partitions are told apart. -/
def PartitionsDistinct (partitions : List Value) : Prop :=
  partitions.Pairwise (fun p q => p.same q = false)

/-
  What installing keeps: attributes and partitions that were
  there, and that partitions are told apart.
-/
private structure Widens
    (db : Database)
    (i : Installations) : Prop where
  attributes :
    db.attributes.map Prod.fst <+: i.attributes.map Prod.fst
  partitions : db.partitions <+: i.partitions
  distinct :
    PartitionsDistinct db.partitions →
      PartitionsDistinct i.partitions

private theorem widens_installAttribute
    {db : Database}
    {datoms : List Datom}
    {i j : Installations}
    {eid : Value}
    (h : db.installAttribute datoms i eid = .ok j)
    (hWidens : Widens db i) : Widens db j := by
  unfold installAttribute at h
  rcases bind_eq_ok.mp h with ⟨schema, _, hRest⟩
  by_cases hHash : eid.hashable = true
  · rw [if_pos hHash, pure_eq_ok] at hRest
    subst hRest
    refine
      ⟨hWidens.attributes.trans ?_, hWidens.partitions,
        hWidens.distinct⟩
    exact Table.prefix_keys_put eid schema i.attributes
  · rw [if_neg hHash] at hRest
    cases hRest

private theorem widens_installPartition
    {db : Database}
    {idents : List (Value × Int)}
    {i j : Installations}
    {eid : Value}
    (h : installPartition idents i eid = .ok j)
    (hWidens : Widens db i) : Widens db j := by
  unfold installPartition at h
  split at h
  · generalize (lastIdentOf? idents eid).getD .null = name at h
    split at h
    · cases h
    next _ _ =>
      by_cases hMember : name.memberOf i.partitions = true
      · rw [if_pos hMember] at h
        exact Except.ok.inj h ▸ hWidens
      · rw [if_neg hMember] at h
        have hEq := Except.ok.inj h
        subst hEq
        refine
          ⟨hWidens.attributes,
            hWidens.partitions.trans (List.prefix_append _ _),
            ?_⟩
        intro hBefore
        refine
          List.pairwise_append.mpr
            ⟨hWidens.distinct hBefore,
              List.pairwise_singleton _ _, ?_⟩
        intro p hp q hq
        rcases List.mem_singleton.mp hq with rfl
        simp only [Value.memberOf, List.any_eq_true,
          not_exists, not_and, Bool.not_eq_true] at hMember
        exact hMember p hp
  · cases h

/-
  The database after a transaction has the facts of the
  ledger, loses no attribute and no partition, and takes no
  partition in twice.
-/
theorem extends_afterLog
    (h : db.afterLog l = .ok after) :
    after.datoms = l.datoms
      ∧ db.Extends after
      ∧ (PartitionsDistinct db.partitions →
          PartitionsDistinct after.partitions) := by
  rcases afterLog_eq_ok.mp h with
    ⟨ident, idents, newAttr, newPart, installs, _, _, _, _,
      hInstalls, rfl⟩
  have hWidens : Widens db installs := by
    refine
      Outcome.foldlM_invariant (Widens db) ?_ hInstalls
        ⟨List.prefix_rfl, List.prefix_rfl, id⟩
    intro d _ i j hStep hWidens
    unfold installedBy at hStep
    split at hStep
    · exact widens_installAttribute hStep hWidens
    · split at hStep
      · exact widens_installPartition hStep hWidens
      · rw [pure_eq_ok] at hStep
        exact hStep ▸ hWidens
  exact
    ⟨rfl, ⟨hWidens.attributes, hWidens.partitions⟩,
      hWidens.distinct⟩

------------------------------------------------------------
-- Attributes that Are Not Installed
------------------------------------------------------------

/- Installing one attribute leaves the others alone. -/
theorem find?_installAttribute
    {datoms : List Datom}
    {i j : Installations}
    {eid : Value}
    {attr : Int}
    (h : db.installAttribute datoms i eid = .ok j)
    (hOther : eid.isInt attr = false) :
    Table.find? (.int attr) j.attributes
      = Table.find? (.int attr) i.attributes := by
  unfold installAttribute at h
  rcases bind_eq_ok.mp h with ⟨schema, _, hRest⟩
  split at hRest
  · rw [pure_eq_ok] at hRest
    subst hRest
    apply Table.find?_put_of_apart
    -- A key at the place of both would put one at the other's.
    intro k hk
    rw [Bool.eq_false_iff]
    intro hAttr
    rw [Value.same_int_right, Value.isInt_iff] at hAttr
    rw [Value.isInt_iff.mpr (Value.place?_of_same hk hAttr)]
      at hOther
    cases hOther
  · cases hRest

/- It leaves all partitions alone. -/
theorem partitions_installAttribute
    {datoms : List Datom}
    {i j : Installations}
    {eid : Value}
    (h : db.installAttribute datoms i eid = .ok j) :
    j.partitions = i.partitions := by
  unfold installAttribute at h
  rcases bind_eq_ok.mp h with ⟨schema, _, hRest⟩
  split at hRest
  · rw [pure_eq_ok] at hRest
    exact hRest ▸ rfl
  · cases hRest

/- Installing a partition leaves all attributes alone. -/
theorem attributes_installPartition
    {idents : List (Value × Int)}
    {i j : Installations}
    {eid : Value}
    (h : installPartition idents i eid = .ok j) :
    j.attributes = i.attributes := by
  unfold installPartition at h
  split at h
  · split at h
    · cases h
    · split at h <;> cases h <;> rfl
  · cases h

/-
  An attribute that the log does not install is defined after
  a transaction as it was before.
-/
theorem schemaOf?_afterLog
    (h : db.afterLog l = .ok after)
    {attr : Int}
    (hKept :
      ∀ newAttr,
        db.installed (.str "db.install/attribute")
            = .ok newAttr →
          ∀ d ∈ l.log,
            d.added = true → d.attr = newAttr.eid →
              d.value.isInt attr = false) :
    after.schemaOf? attr = db.schemaOf? attr := by
  rcases afterLog_eq_ok.mp h with
    ⟨ident, idents, newAttr, newPart, installs, _, _, hAttr,
      _, hInstalls, rfl⟩
  refine
    Outcome.foldlM_invariant
      (fun i =>
        Table.find? (.int attr) i.attributes
          = db.schemaOf? attr) ?_ hInstalls rfl
  intro d hd i j hStep hSoFar
  rcases List.mem_filter.mp hd with ⟨hLog, hAdded⟩
  unfold installedBy at hStep
  split at hStep
  next hNew =>
    have hOther :=
      hKept newAttr hAttr d hLog hAdded (beq_iff_eq.mp hNew)
    rw [find?_installAttribute hStep hOther]
    exact hSoFar
  next _ =>
    split at hStep
    · rw [attributes_installPartition hStep]
      exact hSoFar
    · rw [pure_eq_ok] at hStep
      exact hStep ▸ hSoFar

end Database

end FactBase
