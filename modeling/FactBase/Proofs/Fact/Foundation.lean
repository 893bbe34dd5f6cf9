import FactBase.Proofs.Fact.Aftermath
import FactBase.Proofs.Fact.Definition
import FactBase.Proofs.Fact.Freshness

/-
  This file says what an engine keeps as long as transactions
  leave the partitions and attributes of the first database
  alone, but for what they install.  Their idents and their
  definitions stay as they were, also where an attribute is
  installed again.  If data moreover names only ids that were
  given out, then every entity and every attribute is one
  whose id was given out.

  Key definitions include:
    * `TxResult.sparesFirst`
    * `Database.Founded`
    * `Engine.Grounded`

  Key theorems include:
    * `Database.field?_definitionOf_filter`
    * `Schema.ofTxData_congr`
    * `Database.Founded.after`
    * `Engine.Grounded.after`
-/

------------------------------------------------------------
-- What a Definition Depends on
------------------------------------------------------------

namespace FactBase

open Sorting
open Bootstrap

/- Two tables that agree on a text still do after one entry. -/
theorem Table.find?_put_congr
    {α : Type}
    {s : String}
    {t t' : List (Value × α)}
    (h : find? (.str s) t = find? (.str s) t')
    (key : Value)
    (x : α) :
    find? (.str s) (put key x t)
      = find? (.str s) (put key x t') := by
  by_cases hKey : key = .str s
  · subst hKey
    rw [find?_put _ _ _ (Value.same_refl _),
      find?_put _ _ _ (Value.same_refl _)]
  · have hApart := Value.apart_of_ne hKey
    rw [find?_put_of_apart hApart, find?_put_of_apart hApart, h]

/-
  A field of a definition depends only on the facts of the
  attributes that may have its name.
-/
theorem Database.field?_definitionOf_filter
    {db : Database}
    {name : String}
    {p : Datom → Bool}
    (h :
      ∀ d : Datom, p d = false →
        db.identOf (.int d.attr) ≠ some (.str name))
    (datoms : List Datom)
    (v : Value) :
    Value.field? (db.definitionOf (datoms.filter p) v) name
      = Value.field? (db.definitionOf datoms v) name := by
  let enter (t : List (Value × Value)) (d : Datom) :=
    Table.put ((db.identOf (.int d.attr)).getD .null) d.value t
  -- Facts that are left out enter other fields, so the two
  -- tables differ, but they agree on this one.
  have hFold (facts : List Datom) (t t' : List (Value × Value))
      (hSame :
        Table.find? (.str name) t = Table.find? (.str name) t') :
      Table.find? (.str name) ((facts.filter p).foldl enter t)
        = Table.find? (.str name) (facts.foldl enter t') := by
    induction facts generalizing t t' with
    | nil => exact hSame
    | cons d facts ih =>
        cases hp : p d with
        | true =>
            rw [List.filter_cons_of_pos hp]
            exact ih _ _ (Table.find?_put_congr hSame _ _)
        | false =>
            rw [List.filter_cons_of_neg (by simp [hp])]
            refine ih _ _ ?_
            have hKey :
                (db.identOf (.int d.attr)).getD .null
                  ≠ .str name := by
              have hOther := h d hp
              intro hText
              rcases hIdent : db.identOf (.int d.attr) with _ | i
              · rw [hIdent] at hText
                cases hText
              · rw [hIdent] at hText hOther
                exact hOther (congrArg some hText)
            rw [hSame]
            exact
              (Table.find?_put_of_apart (Value.apart_of_ne hKey)
                _ _).symm
  unfold definitionOf Value.field?
  rw [List.filter_comm]
  exact hFold _ [] [] rfl

/- A definition depends only on the fields that are stored. -/
theorem Schema.ofTxData_congr
    {entries entries' : List (Value × Value)}
    (h :
      ∀ name ∈ storedFields,
        Value.field? entries name
          = Value.field? entries' name) :
    ofTxData entries = ofTxData entries' := by
  simp only [storedFields, List.forall_mem_cons] at h
  rcases h with
    ⟨hIdent, hType, hCardinality, hUnique, hIndex, hFulltext,
      hComponent, hHistory, hDoc, _⟩
  unfold ofTxData switch
  rw [hIdent, hType, hCardinality, hUnique, hIndex, hFulltext,
    hComponent, hHistory, hDoc]

------------------------------------------------------------
-- The First Entities
------------------------------------------------------------

namespace Bootstrap

/- The attribute by which partitions are installed. -/
def partitionAttr : Int := attributeId "db.install/partition"

/- By the attribute, something is installed. -/
def installs (attr : Int) : Bool :=
  attr == installAttr || attr == partitionAttr

/- A partition or an attribute of the first database. -/
def isFirst (eid : Int) : Bool :=
  idents.any (fun b => b.2 == eid)

/- The fact is about the entity, and it installs nothing. -/
def isOwn
    (eid : Int)
    (d : Datom) : Bool :=
  d.entity == eid && !installs d.attr

/- Such an entity has an ident, which is a text. -/
theorem exists_ident_of_isFirst
    {eid : Int}
    (h : isFirst eid = true) :
    ∃ b ∈ idents, b.2 = eid ∧ ∃ s, b.1 = .str s := by
  rcases List.any_eq_true.mp h with ⟨b, hb, hId⟩
  exact
    ⟨b, hb, beq_iff_eq.mp hId,
      (Database.wellNamed_database 0).named.keys.texts b hb⟩

/- What has an ident in the first database is such an entity. -/
theorem isFirst_of_mem_idents
    {b : Value × Int}
    (hb : b ∈ idents) : isFirst b.2 = true :=
  List.any_eq_true.mpr ⟨b, hb, beq_self_eq_true b.2⟩

/- It has no other ident. -/
theorem eq_of_snd_eq
    {b c : Value × Int}
    (hb : b ∈ idents)
    (hc : c ∈ idents)
    (h : b.2 = c.2) : b = c := by
  have hDistinct : (idents.map Prod.snd).Nodup := by
    decide +kernel
  exact List.inj_on_of_nodup_map hDistinct hb hc h

end Bootstrap

/-
  An entry of a log that spares these entities: it says
  nothing about them but what they install, and gives none of
  their idents to another entity.
-/
def DatomOf.sparesFirst (d : Datom) : Bool :=
  if isFirst d.entity then d.added && installs d.attr
  else
    !(d.attr == identAttr && d.added
      && idents.any (fun b => d.value.same b.1))

/- All that a transaction says spares them. -/
def TxResult.sparesFirst (r : TxResult) : Bool :=
  r.facts.all DatomOf.sparesFirst

/-
  A database in which these entities are as they were in the
  first: their idents, their definitions, whose idents they
  are, and the facts about them.
-/
structure Database.Founded (db : Database) : Prop where
  keeps : db.KeepsBootstrap
  tells : ∀ s, db.TellsIdent s
  owners :
    ∀ b ∈ db.idents, isFirst b.2 = true → b ∈ Bootstrap.idents
  facts :
    ∀ eid, isFirst eid = true →
      db.datoms.filter (isOwn eid)
        = (database 0).datoms.filter (isOwn eid)

namespace Database

variable {db : Database}

/- They are so in the first database. -/
theorem founded_database (instant : Int) :
    (database instant).Founded where
  keeps := keepsBootstrap_database instant
  tells s := (tellsIdent_database s instant).1
  owners := fun _ hb _ => hb
  facts := by
    have hOther : isFirst tx = false := by
      decide +kernel
    intro eid hFirst
    have hNot : (tx == eid) = false := by
      rw [beq_eq_false_iff_ne]
      rintro rfl
      rw [hOther] at hFirst
      cases hFirst
    change
      (fixedFacts ++ [instantFact instant]).filter _
        = (fixedFacts ++ [instantFact 0]).filter _
    simp [List.filter_append, instantFact, fact, isOwn, hNot]

namespace Founded

/- Such an entity has the ident that it had. -/
theorem identOf
    (h : db.Founded)
    {b : Value × Int}
    (hb : b ∈ Bootstrap.idents) :
    db.identOf (.int b.2) = some b.1 := by
  rcases Table.mem_of_find? (h.keeps.idents b hb) with
    ⟨k, hMember, _⟩
  unfold Database.identOf
  rcases hFound :
      db.idents.find? (fun c => (Value.int b.2).isInt c.2) with
    _ | c
  · have hNone := List.find?_eq_none.mp hFound _ hMember
    simp [Value.isInt] at hNone
  · have hId : c.2 = b.2 := by
      have hTest := List.find?_some hFound
      rwa [Value.isInt, beq_iff_eq] at hTest
    have hc :=
      h.owners c (List.mem_of_find?_eq_some hFound)
        (hId ▸ isFirst_of_mem_idents hb)
    rw [hFound, eq_of_snd_eq hc hb hId]
    rfl

/- The attributes that install have names of no field. -/
theorem identOf_of_installs
    (h : db.Founded)
    {attr : Int}
    (hInstalls : installs attr = true) :
    ∃ s, db.identOf (.int attr) = some (.str s)
      ∧ s ∉ storedFields := by
  simp only [installs, Bool.or_eq_true, beq_iff_eq] at hInstalls
  rcases hInstalls with rfl | rfl
  · refine
      ⟨"db.install/attribute",
        h.identOf (b := (.str "db.install/attribute", _)) ?_,
        by decide +kernel⟩
    exact
      List.mem_of_getElem? (rfl : Bootstrap.idents[14]? = some _)
  · refine
      ⟨"db.install/partition",
        h.identOf (b := (.str "db.install/partition", _)) ?_,
        by decide +kernel⟩
    exact
      List.mem_of_getElem? (rfl : Bootstrap.idents[13]? = some _)

/-
  Facts that have what the first database says of its own
  attributes define them as it does.
-/
theorem reads_first
    (h : db.Founded)
    {datoms : List Datom}
    (hFacts :
      ∀ eid, isFirst eid = true →
        datoms.filter (isOwn eid)
          = (database 0).datoms.filter (isOwn eid))
    {a : Schema × Int}
    (ha : a ∈ attributeIds) :
    Schema.ofTxData (db.definitionOf datoms (.int a.2))
      = .ok a.1 := by
  have hStart := founded_database 0
  have hAttrs :
      ∀ d ∈ (database 0).datoms, isFirst d.attr = true := by
    decide +kernel
  have hFirst : isFirst a.2 = true := by
    refine isFirst_of_mem_idents (b := (.str a.1.ident, a.2)) ?_
    exact
      List.mem_append_right _ (List.mem_map.mpr ⟨a, ha, rfl⟩)
  have hFields
      {db : Database}
      (hdb : db.Founded)
      (datoms : List Datom)
      {name : String}
      (hName : name ∈ storedFields) :
      Value.field?
          (db.definitionOf
            (datoms.filter (fun d => !installs d.attr))
            (.int a.2)) name
        = Value.field? (db.definitionOf datoms (.int a.2))
          name := by
    refine field?_definitionOf_filter ?_ datoms _
    intro d hInstalls hIdent
    rcases hdb.identOf_of_installs (by simpa using hInstalls)
      with ⟨s, hOwn, hOther⟩
    rw [hOwn] at hIdent
    rcases hIdent with ⟨⟩
    exact hOther hName
  have hOwn (datoms : List Datom) :
      (datoms.filter (fun d => !installs d.attr)).filter
          (fun d => (Value.int a.2).isInt d.entity)
        = datoms.filter (isOwn a.2) := by
    rw [List.filter_filter]
    rfl
  rw [← reads_database (hStart.keeps.attributes a ha)]
  apply Schema.ofTxData_congr
  intro name hName
  rw [← hFields h datoms hName, ← hFields hStart _ hName]
  refine congrArg (Value.field? · name) ?_
  refine definitionOf_congr ?_ ?_
  · rw [hOwn, hOwn, hFacts a.2 hFirst]
  · intro d hd
    have hFact :=
      (List.mem_filter.mp (List.mem_filter.mp hd).1).1
    rcases exists_ident_of_isFirst (hAttrs d hFact) with
      ⟨b, hb, hId, _⟩
    rw [← hId, h.identOf hb, hStart.identOf hb]

end Founded

------------------------------------------------------------
-- Transactions that Spare Them
------------------------------------------------------------

end Database

/- What an entry that spares them says of an ident. -/
theorem DatomOf.ident_of_sparesFirst
    {d : Datom}
    (h : d.sparesFirst = true)
    (hAttr : d.attr = identAttr) :
    isFirst d.entity = false
      ∧ (d.added = true → ∀ b ∈ idents, d.value ≠ b.1) := by
  have hNot : installs identAttr = false := by
    decide +kernel
  unfold sparesFirst at h
  split at h
  · rw [hAttr, hNot, Bool.and_false] at h
    cases h
  next hFirst =>
    refine ⟨Bool.eq_false_iff.mpr hFirst, ?_⟩
    rintro hAdded b hb hSame
    have hAny :
        idents.any (fun b => d.value.same b.1) = true :=
      List.any_eq_true.mpr
        ⟨b, hb, hSame ▸ Value.same_refl d.value⟩
    simp [hAttr, hAdded, hAny] at h

namespace Ledger

variable {db : Database}
variable {tx : Int}
variable {V : Value → Prop}
variable {l after : Ledger}

/- A change that spares them keeps the facts about them. -/
theorem Change.filter_isOwn
    (h : Change db tx V l after)
    {entry : Datom}
    (hLog : after.log = l.log ++ [entry])
    (hSpares : entry.sparesFirst = true)
    {eid : Int}
    (hFirst : isFirst eid = true) :
    after.datoms.filter (isOwn eid)
      = l.datoms.filter (isOwn eid) := by
  have hOther : isOwn eid entry = false := by
    rw [isOwn, Bool.and_eq_false_iff, beq_eq_false_iff_ne]
    by_cases hSame : entry.entity = eid
    · right
      subst hSame
      simp [DatomOf.sparesFirst, hFirst] at hSpares
      simp [hSpares]
    · exact .inl hSame
  refine h.filter_eq ?_ hLog hOther
  intro c d hEntity hAttr
  rw [isOwn, isOwn, hEntity, hAttr]

end Ledger

namespace Database

variable {e : Engine}
variable {V : Value → Prop}
variable {l : Ledger}
variable {r : TxResult}

/- A text names whom it named, if it is not given or taken. -/
theorem foldl_named_of_kept
    {s : String}
    {eid : Int}
    {log : List Datom}
    (h :
      ∀ d ∈ log, d.carries s = true →
        d.added = false ∧ d.entity ≠ eid) :
    log.foldl (Replay.named s) (some eid) = some eid := by
  induction log with
  | nil => rfl
  | cons d log ih =>
      rw [List.forall_mem_cons] at h
      have hStep : Replay.named s (some eid) d = some eid := by
        unfold Replay.named
        split
        next hCarries =>
          rcases h.1 hCarries with ⟨hAdded, hOther⟩
          simp [hAdded, hOther.symm]
        · rfl
      rw [List.foldl_cons, hStep]
      exact ih h.2

/- So the idents of these entities stay. -/
theorem Founded.find?_ident_after
    (h : e.db.Founded)
    (hCommits : e.Commits V l r)
    (hSpares : ∀ d ∈ l.log, d.sparesFirst = true)
    {b : Value × Int}
    (hb : b ∈ Bootstrap.idents) :
    Table.find? b.1 r.after.idents = some b.2 := by
  have hFirst := isFirst_of_mem_idents hb
  have hBefore := h.keeps.idents b hb
  rcases (wellNamed_database 0).named.keys.texts b hb with
    ⟨s, hText⟩
  rw [hText] at hBefore ⊢
  rw [((h.tells s).find?_after hCommits).2, hBefore]
  apply foldl_named_of_kept
  intro d hd hCarries
  rcases DatomOf.carries_iff.mp hCarries with ⟨hAttr, hValue⟩
  rcases DatomOf.ident_of_sparesFirst (hSpares d hd) hAttr with
    ⟨hOther, hNew⟩
  constructor
  · rw [Bool.eq_false_iff]
    intro hAdded
    exact hNew hAdded b hb (hValue.trans hText.symm)
  · intro hSame
    rw [hSame, hFirst] at hOther
    cases hOther

/- They get no other ident. -/
theorem Founded.owners_after
    (h : e.db.Founded)
    (hCommits : e.Commits V l r)
    (hSpares : ∀ d ∈ l.log, d.sparesFirst = true) :
    ∀ b ∈ r.after.idents,
      isFirst b.2 = true → b ∈ Bootstrap.idents := by
  refine
    Outcome.foldlM_invariant
      (fun table =>
        ∀ b ∈ table, isFirst b.2 = true → b ∈ Bootstrap.idents)
      ?_ (h.keeps.namesIdents.foldlM_after hCommits) h.owners
  intro d hd table next hStep hTable
  rcases List.mem_filter.mp hd with ⟨hLog, hAttr⟩
  have hOther :=
    (DatomOf.ident_of_sparesFirst (hSpares d hLog)
      (beq_iff_eq.mp hAttr)).1
  unfold followIdent at hStep
  rcases bind_eq_ok.mp hStep with ⟨owner, _, hRest⟩
  split at hRest
  · rw [pure_eq_ok] at hRest
    subst hRest
    intro b hb hFirst
    rcases Table.mem_or_eq_of_mem_put hb with hOld | hNew
    · exact hTable b hOld hFirst
    · rw [hNew, hOther] at hFirst
      cases hFirst
  · split at hRest
    · rw [pure_eq_ok] at hRest
      subst hRest
      intro b hb
      exact hTable b ((Table.erase_sublist _ _).subset hb)
    · rw [pure_eq_ok] at hRest
      exact hRest ▸ hTable

/-
  A transaction that spares these entities leaves them as they
  were, also where it installs an attribute again.
-/
theorem Founded.after
    (h : e.db.Founded)
    (hCommits : e.Commits V l r)
    (hSpares : r.sparesFirst = true) : r.after.Founded := by
  have hLog : ∀ d ∈ l.log, d.sparesFirst = true := by
    rw [TxResult.sparesFirst, hCommits.facts, List.all_eq_true]
      at hSpares
    exact hSpares
  have hFacts :
      ∀ eid, isFirst eid = true →
        r.after.datoms.filter (isOwn eid)
          = (database 0).datoms.filter (isOwn eid) := by
    rw [(extends_afterLog hCommits.after).1]
    refine
      hCommits.changes.invariant_of_log
        (fun d => d.sparesFirst = true)
        (fun l => ∀ eid, isFirst eid = true →
          l.datoms.filter (isOwn eid)
            = (database 0).datoms.filter (isOwn eid))
        ?_ hLog h.facts
    intro l l' d hChange hEq hEntry hSoFar eid hFirst
    rw [hChange.filter_isOwn hEq hEntry hFirst,
      hSoFar eid hFirst]
  have hIdents :
      ∀ b ∈ Bootstrap.idents,
        Table.find? b.1 r.after.idents = some b.2 :=
    fun b hb => h.find?_ident_after hCommits hLog hb
  have hAttributes :
      ∀ a ∈ attributeIds, r.after.schemaOf? a.2 = some a.1 := by
    intro a ha
    by_cases hInstalls : r.Installs a.2
    · rcases schemaOf?_of_installs hCommits hInstalls with
        ⟨schema, hFound, hRead⟩
      rw [h.reads_first hFacts ha, Except.ok.injEq] at hRead
      rw [hFound, hRead]
    · rw [schemaOf?_of_not_installs hCommits hInstalls]
      exact h.keeps.attributes a ha
  have hKeeps : r.after.KeepsBootstrap := ⟨hIdents, hAttributes⟩
  exact
    { keeps := hKeeps
      tells := fun s =>
        (h.tells s).after hCommits hKeeps.namesIdents
      owners := h.owners_after hCommits hLog
      facts := hFacts }

end Database

------------------------------------------------------------
-- Engines on Such Databases
------------------------------------------------------------

namespace Engine

variable {e : Engine}

/- If data is committed, it spares the first entities. -/
def sparesFirst
    (e : Engine)
    (data : Value) : Bool :=
  (e.transact data).1.toOption.all TxResult.sparesFirst

/-
  The first entities are as they were.  The ids were given
  out of all entities that there are facts about, of all that
  are to be attributes, and of all that are.
-/
structure Grounded (e : Engine) : Prop where
  founded : e.db.Founded
  covered : e.CoveredBy (· = installAttr)
  defined :
    ∀ attr, (e.db.schemaOf? attr).isSome = true →
      e.allocator.hasGiven attr = true

/- A new engine is such an engine. -/
theorem grounded_start (clock : Nat → Int) :
    (start clock).Grounded where
  founded := Database.founded_database (clock 0)
  covered := by
    refine (covered_start clock).mono ?_ (fun _ => id)
    intro d _ hAttr
    change (database 0).isRef d.attr = true
    rw [hAttr]
    decide +kernel
  defined := by
    intro attr hSome
    rcases Option.isSome_iff_exists.mp hSome with ⟨s, hSchema⟩
    rcases Table.mem_of_find? hSchema with ⟨k, hMember, hSame⟩
    rcases List.mem_map.mp hMember with ⟨a, ha, hEq⟩
    rcases Prod.mk.inj hEq with ⟨rfl, rfl⟩
    rw [Value.same_int_right, Value.isInt, beq_iff_eq] at hSame
    subst hSame
    have hGiven :
        ∀ a ∈ attributeIds,
          Bootstrap.allocator.hasGiven a.2 = true := by
      decide +kernel
    exact hGiven a ha

/- Facts that define an attribute are about it. -/
theorem exists_fact_of_reads
    {db : Database}
    {datoms : List Datom}
    {attr : Int}
    {s : Option Schema}
    (h : db.Reads datoms attr s) :
    ∃ d ∈ datoms, d.entity = attr := by
  rcases h with ⟨schema, _, hRead⟩
  by_contra hNone
  have hFacts :
      datoms.filter (fun d => (Value.int attr).isInt d.entity)
        = [] := by
    rw [List.filter_eq_nil_iff]
    intro d hd hInt
    rw [Value.isInt, beq_iff_eq] at hInt
    exact hNone ⟨d, hd, hInt⟩
  unfold Database.definitionOf at hRead
  rw [hFacts] at hRead
  cases hRead

/-
  It stays one where data spares the first entities and names
  only ids that were given out.
-/
theorem Grounded.transact
    (h : e.Grounded)
    {data : Value}
    (hLast :
      ∀ p,
        (e.transact data).2.allocator.next p ≤ EntityId.span)
    (hNames : e.namesGiven data = true)
    (hSpares : e.sparesFirst data = true) :
    (e.transact data).2.Grounded := by
  have hRef :
      ∀ attr, attr = installAttr → e.db.isRef attr = true := by
    have hListed :
        ∃ a ∈ attributeIds,
          a.2 = installAttr ∧ a.1.isRef = true := by
      decide +kernel
    rcases hListed with ⟨a, ha, hId, hSchema⟩
    rintro attr rfl
    rw [Database.isRef, ← hId, h.founded.keeps.attributes a ha]
    exact hSchema
  have hCovered :
      (e.transact data).2.CoveredBy (· = installAttr) :=
    h.covered.transact hRef hLast hNames (fun _ _ => id)
  have hMono (n : Int) (hn : e.allocator.hasGiven n = true) :
      (e.transact data).2.allocator.hasGiven n = true :=
    Allocator.hasGiven_mono (e.next_le_transact data) hn
  rcases hResult : (e.transact data).1 with fault | r
  · have hDb := db_transact_of_error hResult
    refine ⟨hDb ▸ h.founded, hCovered, ?_⟩
    rw [hDb]
    exact fun attr hSome => hMono attr (h.defined attr hSome)
  · rcases commits_of_transact hResult with ⟨l, hCommits, hDb⟩
    rw [sparesFirst, hResult] at hSpares
    refine ⟨hDb ▸ h.founded.after hCommits hSpares, hCovered, ?_⟩
    intro attr hSome
    rw [hDb] at hSome
    -- An attribute that was installed was read from facts about
    -- it, and the ids of these were given out.
    by_cases hInstalls : r.Installs attr
    · rcases exists_fact_of_reads
          (Database.schemaOf?_of_installs hCommits hInstalls)
        with ⟨d, hd, rfl⟩
      exact (hCovered.datoms d (hDb ▸ hd)).entity
    · rw [Database.schemaOf?_of_not_installs hCommits hInstalls]
        at hSome
      exact hMono attr (h.defined attr hSome)

/- So it does along any number of calls. -/
theorem Grounded.after
    (h : e.Grounded)
    {calls : List Value}
    (hLast :
      ∀ p,
        (e.after calls).allocator.next p ≤ EntityId.span)
    (hNames : e.along namesGiven calls = true)
    (hSpares : e.along sparesFirst calls = true) :
    (e.after calls).Grounded := by
  induction calls generalizing e with
  | nil => exact h
  | cons data calls ih =>
      simp only [along, Bool.and_eq_true] at hNames hSpares
      have hNow :
          ∀ p,
            (e.transact data).2.allocator.next p
              ≤ EntityId.span :=
        fun p => (next_le_after _ calls p).trans (hLast p)
      exact
        ih (h.transact hNow hNames.1 hSpares.1) hLast hNames.2
          hSpares.2

end Engine

end FactBase
