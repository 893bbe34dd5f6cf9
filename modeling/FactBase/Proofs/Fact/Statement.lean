import FactBase.Proofs.Fact.Assertion
import FactBase.Proofs.Fact.Description

/-
  This file says what it comes to when entities are given
  values for attributes by their idents: the values are
  entered in the ledger, one after the other.  Attributes
  other than those for idents and for installing are ordinary:
  the next database takes nothing over from what the log tells
  of them but the facts.

  Key definitions include:
    * `Schema.Stores`
    * `Statement`
    * `Database.assertions`
    * `Database.Admits`
    * `Database.Ordinary`

  Key theorems include:
    * `Transacting.exec_values_stored`
    * `Transacting.exec_onValues_add`
    * `Transacting.exec_statements`
    * `Database.afterLog_append`
    * `Database.afterLog_of_ordinary`
    * `Database.afterLog_datoms`
-/

------------------------------------------------------------
-- Values that Are Stored as They Are
------------------------------------------------------------

namespace FactBase

open Sorting

/-
  All that a value stands for is definite, and an integer
  where the values of the attribute are entities.
-/
def Schema.Stores
    (s : Schema)
    (v : Value) : Prop :=
  ∀ x ∈ Transacting.spread s v,
    x.definite = true
      ∧ (s.isRef = true → ∃ n : Int, x = .int n)

/- Whether a value is an integer can be decided. -/
instance
    (v : Value) : Decidable (∃ n : Int, v = .int n) :=
  decidable_of_iff ((v matches .int _) = true)
    (by cases v <;> simp)

/- So can whether an attribute can store one. -/
instance
    (s : Schema)
    (v : Value) : Decidable (s.Stores v) := by
  unfold Schema.Stores
  infer_instance

namespace Transacting

variable {g : Ground}
variable {w : Working}

/- Integers are references as they are. -/
private theorem exec_references
    {vs : List Value}
    (h : ∀ v ∈ vs, ∃ n : Int, v = .int n) :
    exec (vs.mapM reference) g w = (.ok vs, w) := by
  induction vs with
  | nil => rfl
  | cons v vs ih =>
      rw [List.forall_mem_cons] at h
      rcases h.1 with ⟨n, rfl⟩
      have hFirst :
          exec (reference (.int n)) g w = (.ok (.int n), w) :=
        rfl
      simp only [List.mapM_cons, exec_bind, hFirst, ih h.2]
      rfl

/- Where references are integers, values are kept. -/
theorem exec_values_stored
    {schema : Schema}
    {v : Value}
    (h :
      schema.isRef = true →
        ∀ x ∈ spread schema v, ∃ n : Int, x = .int n) :
    exec (values schema v) g w = (.ok (spread schema v), w) := by
  unfold values
  by_cases hRef : schema.isRef = true
  · rw [if_pos hRef]
    exact exec_references (h hRef)
  · rw [if_neg hRef]
    rfl

/- Acting on the values of an attribute that is installed. -/
theorem exec_onValues
    {act : Int → Installed → Value → Transacting Unit}
    {eid : Int}
    {ident v : Value}
    {attr : Installed}
    (hAttr : g.db.installed ident = .ok attr)
    (h :
      attr.schema.isRef = true →
        ∀ x ∈ spread attr.schema v, ∃ n : Int, x = .int n) :
    exec (onValues act eid ident v) g w
      = exec ((spread attr.schema v).forM (act eid attr)) g w := by
  have hFirst :
      exec (installed ident) g w = (.ok attr, w) := by
    rw [exec_installed, hAttr]
  unfold onValues
  rw [exec_bind, hFirst]
  simp only [exec_bind, exec_values_stored h]

/- Adding definite values of an entity is to enter them. -/
theorem exec_forM_add
    {vs : List Value}
    (hDefinite : ∀ v ∈ vs, v.definite = true)
    (eid : Int)
    (attr : Installed) :
    exec (vs.forM (add eid attr)) g w
      = (.ok (),
        { w with
          ledger :=
            w.ledger.enterAll g.tx
              (vs.map (fun v => ⟨eid, attr, v⟩)) }) := by
  induction vs generalizing w with
  | nil => rfl
  | cons v vs ih =>
      rw [List.forall_mem_cons] at hDefinite
      rw [exec_forM_cons, exec_add, exec_change,
        Ledger.add_definite _ _ _ hDefinite.1]
      exact ih hDefinite.2

end Transacting

------------------------------------------------------------
-- Statements
------------------------------------------------------------

/- An entity with a value for the attribute of an ident. -/
structure Statement where
  entity : Int
  attr : String
  value : Value

/- The item of transaction data that adds what is stated. -/
def Statement.item (s : Statement) : Value :=
  Transacting.addition (.int s.entity) (.str s.attr) s.value

namespace Database

variable {db : Database}

/- What a statement asserts by the idents of a database. -/
def assertions
    (db : Database)
    (s : Statement) : List Assertion :=
  match db.installed (.str s.attr) with
  | .ok attr =>
      (Transacting.spread attr.schema s.value).map
        (fun v => ⟨s.entity, attr, v⟩)
  | .error _ => []

/-
  The ident of the statement names an attribute, which can
  store its value.
-/
def Admits
    (db : Database)
    (s : Statement) : Prop :=
  ∃ attr,
    db.installed (.str s.attr) = .ok attr
      ∧ attr.schema.Stores s.value

/- Whether it does can be decided. -/
instance
    (db : Database)
    (s : Statement) : Decidable (db.Admits s) := by
  unfold Admits
  infer_instance

/- What is asserted is about the attribute of the ident. -/
theorem mem_assertions
    {s : Statement}
    {attr : Installed}
    (hAttr : db.installed (.str s.attr) = .ok attr)
    {a : Assertion} :
    a ∈ db.assertions s
      ↔ ∃ v ∈ Transacting.spread attr.schema s.value,
          a = ⟨s.entity, attr, v⟩ := by
  simp only [assertions, hAttr, List.mem_map, eq_comm]

/- What admitted statements assert is definite. -/
theorem definite_of_admits
    {s : Statement}
    (h : db.Admits s) :
    ∀ a ∈ db.assertions s, a.value.definite = true := by
  rcases h with ⟨attr, hAttr, hStores⟩
  intro a ha
  rcases (mem_assertions hAttr).mp ha with ⟨v, hv, rfl⟩
  exact (hStores v hv).1

end Database

namespace Transacting

variable {g : Ground}
variable {w : Working}

/- Adding what an admitted statement says is to enter it. -/
theorem exec_onValues_add
    {s : Statement}
    (h : g.db.Admits s) :
    exec (onValues add s.entity (.str s.attr) s.value) g w
      = (.ok (),
        { w with
          ledger :=
            w.ledger.enterAll g.tx (g.db.assertions s) }) := by
  rcases h with ⟨attr, hAttr, hStores⟩
  rw [exec_onValues hAttr (fun hRef x hx => (hStores x hx).2 hRef),
    exec_forM_add (fun x hx => (hStores x hx).1),
    Database.assertions, hAttr]

/- So is applying the items of admitted statements. -/
theorem exec_statements
    {ss : List Statement}
    (h : ∀ s ∈ ss, g.db.Admits s) :
    exec ((ss.map Statement.item).forM applyItem) g w
      = (.ok (),
        { w with
          ledger :=
            w.ledger.enterAll g.tx
              (ss.flatMap g.db.assertions) }) := by
  induction ss generalizing w with
  | nil => rfl
  | cons s ss ih =>
      rw [List.forall_mem_cons] at h
      have hFirst :
          exec (applyItem s.item) g w
            = exec (onValues add s.entity (.str s.attr) s.value)
              g w := by
        rw [Statement.item, applyItem_addition, applyFact,
          exec_bind]
        rfl
      rw [List.map_cons, exec_forM_cons, hFirst,
        exec_onValues_add h.1]
      simp only [ih h.2, List.flatMap_cons, Ledger.enterAll,
        List.foldl_append]

end Transacting

------------------------------------------------------------
-- Ordinary Attributes
------------------------------------------------------------

namespace Database

variable {db : Database}

/- The idents of the attributes that a database follows. -/
def followedIdents : List String :=
  ["db/ident", "db.install/attribute", "db.install/partition"]

/- No ident of those names the attribute. -/
def Ordinary
    (db : Database)
    (attr : Int) : Prop :=
  ∀ s ∈ followedIdents, ∀ a,
    db.installed (.str s) = .ok a → a.eid ≠ attr

/- Whether one does can be decided. -/
instance
    (db : Database)
    (attr : Int) : Decidable (db.Ordinary attr) := by
  unfold Ordinary
  infer_instance

/- The same for each of the idents. -/
theorem ordinary_iff
    {attr : Int} :
    db.Ordinary attr ↔
      (∀ a, db.installed (.str "db/ident") = .ok a →
          a.eid ≠ attr)
        ∧ (∀ a, db.installed (.str "db.install/attribute")
              = .ok a →
            a.eid ≠ attr)
        ∧ ∀ a, db.installed (.str "db.install/partition")
              = .ok a →
            a.eid ≠ attr := by
  simp [Ordinary, followedIdents]

/- An entry about an ordinary attribute installs nothing. -/
theorem installedBy_of_ordinary
    {newAttr newPart : Installed}
    (hAttr :
      db.installed (.str "db.install/attribute") = .ok newAttr)
    (hPart :
      db.installed (.str "db.install/partition") = .ok newPart)
    {d : Datom}
    (hOrdinary : db.Ordinary d.attr)
    (datoms : List Datom)
    (idents : List (Value × Int))
    (i : Installations) :
    db.installedBy datoms idents newAttr newPart i d
      = .ok i := by
  have hBoth := (ordinary_iff.mp hOrdinary).2
  have hNotAttr := (hBoth.1 newAttr hAttr).symm
  have hNotPart := (hBoth.2 newPart hPart).symm
  rw [installedBy, if_neg (by simpa using hNotAttr),
    if_neg (by simpa using hNotPart)]
  rfl

/-
  What comes at the end of a log may be left out if it is
  about ordinary attributes.
-/
theorem afterLog_append
    {datoms told rest : List Datom}
    (hRest : ∀ d ∈ rest, db.Ordinary d.attr) :
    db.afterLog { datoms := datoms, log := told ++ rest }
      = db.afterLog { datoms := datoms, log := told } := by
  unfold afterLog
  refine Outcome.bind_congr_of_ok (fun ident hIdent => ?_)
  have hNoIdent :
      rest.filter (fun d => d.attr == ident.eid) = [] := by
    rw [List.filter_eq_nil_iff]
    intro d hd
    have hOther :=
      (ordinary_iff.mp (hRest d hd)).1 ident hIdent
    simpa using hOther.symm
  rw [List.filter_append, hNoIdent, List.append_nil]
  refine bind_congr (fun idents => ?_)
  refine Outcome.bind_congr_of_ok (fun newAttr hAttr => ?_)
  refine Outcome.bind_congr_of_ok (fun newPart hPart => ?_)
  have hInstalls
      (i : Installations) :
      ((told ++ rest).filter (fun d => d.added)).foldlM
          (db.installedBy datoms idents newAttr newPart) i
        = (told.filter (fun d => d.added)).foldlM
          (db.installedBy datoms idents newAttr newPart) i := by
    have hNothing :
        (rest.filter (fun d => d.added)).foldlM
            (db.installedBy datoms idents newAttr newPart)
          = (pure : Installations → Outcome Installations) :=
      funext
        (Outcome.foldlM_of_keeps
          (fun d hd =>
            installedBy_of_ordinary hAttr hPart
              (hRest d (List.mem_filter.mp hd).1) _ _))
    rw [List.filter_append, List.foldlM_append, hNothing,
      bind_pure]
  exact congrArg (· >>= _) (hInstalls _)

/- The idents that a database follows name attributes. -/
def Follows (db : Database) : Prop :=
  ∀ s ∈ followedIdents, ∃ a, db.installed (.str s) = .ok a

/- A database follows idents if there is one after a log. -/
theorem follows_of_afterLog
    {l : Ledger}
    {after : Database}
    (h : db.afterLog l = .ok after) : db.Follows := by
  rcases afterLog_eq_ok.mp h with
    ⟨ident, _, newAttr, newPart, _, hIdent, _, hAttr, hPart, _⟩
  simp only [Follows, followedIdents, List.forall_mem_cons]
  exact
    ⟨⟨ident, hIdent⟩, ⟨newAttr, hAttr⟩, ⟨newPart, hPart⟩,
      fun _ h => absurd h List.not_mem_nil⟩

/-
  After a log about ordinary attributes, a database differs in
  its facts only.
-/
theorem afterLog_of_ordinary
    (hFollows : db.Follows)
    {l : Ledger}
    (hLog : ∀ d ∈ l.log, db.Ordinary d.attr) :
    db.afterLog l
      = .ok
        { db with
          basis := db.basis + 1
          datoms := l.datoms } := by
  simp only [Follows, followedIdents, List.forall_mem_cons]
    at hFollows
  rcases hFollows with
    ⟨⟨ident, hIdent⟩, ⟨newAttr, hAttr⟩, ⟨newPart, hPart⟩, _⟩
  change db.afterLog { l with log := [] ++ l.log } = _
  rw [afterLog_append hLog]
  exact
    afterLog_eq_ok.mpr
      ⟨ident, db.idents, newAttr, newPart,
        { attributes := db.attributes
          partitions := db.partitions },
        hIdent, rfl, hAttr, hPart, rfl, rfl⟩

/- Whatever the facts are, an instant installs the same. -/
private theorem installedBy_instant
    {d : Datom}
    {t : Int}
    (hValue : d.value = .instant t)
    (datoms others : List Datom)
    (idents : List (Value × Int))
    (newAttr newPart : Installed)
    (i : Installations) :
    db.installedBy datoms idents newAttr newPart i d
      = db.installedBy others idents newAttr newPart i d := by
  have hNone (facts : List Datom) :
      facts.filter (fun d => (Value.instant t).isInt d.entity)
        = [] :=
    List.filter_eq_nil_iff.mpr
      (fun _ _ => Bool.false_ne_true)
  unfold installedBy
  rw [hValue]
  unfold installAttribute defined definitionOf
  rw [hNone, hNone]

/-
  As long as nothing but instants is entered, the facts make
  no difference to the idents, attributes and partitions.
-/
theorem afterLog_datoms
    {log : List Datom}
    (hInstants :
      ∀ d ∈ log, d.added = true →
        ∃ t : Int, d.value = .instant t)
    (datoms others : List Datom) :
    Outcome.Alike
      (fun after after' =>
        after' = { after with datoms := others })
      (db.afterLog { datoms := datoms, log := log })
      (db.afterLog { datoms := others, log := log }) := by
  unfold afterLog
  refine Outcome.alike_bind (fun ident _ => ?_)
  refine Outcome.alike_bind (fun idents _ => ?_)
  refine Outcome.alike_bind (fun newAttr _ => ?_)
  refine Outcome.alike_bind (fun newPart _ => ?_)
  have hInstalls
      (i : Installations) :
      (log.filter (fun d => d.added)).foldlM
          (db.installedBy datoms idents newAttr newPart) i
        = (log.filter (fun d => d.added)).foldlM
          (db.installedBy others idents newAttr newPart) i := by
    refine Outcome.foldlM_congr ?_ i
    intro d hd j
    rcases List.mem_filter.mp hd with ⟨hLog, hAdded⟩
    rcases hInstants d hLog hAdded with ⟨t, hValue⟩
    exact installedBy_instant hValue _ _ _ _ _ j
  change
    Outcome.Alike _
      (List.foldlM
        (db.installedBy datoms idents newAttr newPart) _ _
        >>= _)
      _
  rw [hInstalls]
  exact Outcome.alike_bind (fun _ _ => .ok rfl)

end Database

end FactBase
