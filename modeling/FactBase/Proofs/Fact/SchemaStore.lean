import FactBase.Proofs.Fact.Storing

/-
  This file shows that definitions survive the store: if the
  maps that definitions are written as are committed together,
  then each of them is in force for its entity afterwards, as
  it was written, under its ident, and the other attributes
  are what they were.  This is so after any transactions that
  leave the first entities alone.

  Key definitions include:
    * `Database.logContents`
    * `Engine.HasRoomFor`

  Key theorems include:
    * `Database.defined_of_fields`
    * `Database.exists_afterLog_of_gains`
    * `Engine.Grounded.transact_installations`
    * `Engine.transact_schemas`
-/

------------------------------------------------------------
-- What Is Said of New Attributes
------------------------------------------------------------

namespace FactBase

open Sorting
open Bootstrap
open TempId (systemAt)

variable {schemas : List Schema}
variable {serial : Nat}
variable {p : Schema × Nat}

/- New attributes have different ids. -/
theorem nodup_snd_zipIdx
    (schemas : List Schema)
    (serial : Nat) :
    ((schemas.zipIdx serial).map Prod.snd).Nodup := by
  rw [List.zipIdx_map_snd]
  exact List.nodup_range'

/- They are those that come next. -/
theorem bounds_of_mem_zipIdx
    (hp : p ∈ schemas.zipIdx serial) :
    serial ≤ p.2 ∧ p.2 < serial + schemas.length
      ∧ p.1 ∈ schemas := by
  rcases List.mem_zipIdx hp with ⟨hFrom, hTo, hAt⟩
  exact ⟨hFrom, hTo, hAt ▸ List.getElem_mem _⟩

/- If their idents differ, an ident tells which one it is. -/
theorem eq_of_same_ident
    {q : Schema × Nat}
    (hDistinct : (schemas.map SchemaOf.ident).Nodup)
    (hp : p ∈ schemas.zipIdx serial)
    (hq : q ∈ schemas.zipIdx serial)
    (h : p.1.ident = q.1.ident) : p = q := by
  have hIdents :
      (schemas.zipIdx serial).map (SchemaOf.ident ∘ Prod.fst)
        = schemas.map SchemaOf.ident := by
    rw [← List.map_map, List.zipIdx_map_fst]
  exact List.inj_on_of_nodup_map (hIdents ▸ hDistinct) hp hq h

/- An id finds the definition of its attribute. -/
theorem find?_zipIdx
    (hp : p ∈ schemas.zipIdx serial) :
    Table.find? (.int p.2)
        ((schemas.zipIdx serial).map (fun p =>
          (Value.int p.2, p.1)))
      = some p.1 := by
  have hEids :
      (((schemas.zipIdx serial).map (fun p =>
        (p.1, (p.2 : Int)))).map Prod.snd).Nodup := by
    have hCast :=
      (nodup_snd_zipIdx schemas serial).map
        (f := fun n : Nat => (n : Int))
        (fun _ _ hSame => Int.ofNat.inj hSame)
    rw [List.map_map] at hCast ⊢
    exact hCast
  have hFound :=
    Table.find?_int_of_mem hEids
      (List.mem_map.mpr ⟨p, hp, rfl⟩)
  rw [List.map_map] at hFound
  exact hFound

/- The ids side by side with the definitions. -/
theorem zip_eids_zipIdx
    (schemas : List Schema)
    (serial : Nat) :
    ((schemas.zipIdx serial).map (fun p => (p.2 : Int))).zip
        schemas
      = (schemas.zipIdx serial).map (fun p =>
        ((p.2 : Int), p.1)) := by
  calc
    _ = ((schemas.zipIdx serial).map
            (fun p => (p.2 : Int))).zip
          ((schemas.zipIdx serial).map Prod.fst) := by
        rw [List.zipIdx_map_fst]
    _ = _ := List.zip_map' ..

/- What is said about an attribute is what is stored of it. -/
theorem filter_contents_entity
    {eid : Int}
    (hNot : eid ≠ 0)
    (s : Schema) :
    (s.contents eid).filter (fun c => c.1 == eid)
      = fieldContents eid s.stored := by
  unfold Schema.contents
  rw [List.filter_cons_of_neg (by simpa using hNot.symm),
    List.filter_eq_self]
  intro c hc
  rcases List.mem_map.mp hc with ⟨f, _, rfl⟩
  exact beq_self_eq_true eid

/- Of each new attribute, only what is stored of it is said. -/
theorem filter_installedContents_entity
    (hPositive : 0 < serial)
    (hp : p ∈ schemas.zipIdx serial) :
    (installedContents serial schemas).filter
        (fun c => c.1 == (p.2 : Int))
      = fieldContents p.2 p.1.stored := by
  have hNotZero : (p.2 : Int) ≠ 0 := by
    have hBounds := bounds_of_mem_zipIdx hp
    omega
  have hNone (q : Schema × Nat) (hDiffer : q.2 ≠ p.2) :
      (q.1.contents q.2).filter (fun c => c.1 == (p.2 : Int))
        = [] := by
    rw [List.filter_eq_nil_iff]
    intro c hc
    rw [beq_iff_eq]
    rcases Schema.mem_contents_iff.mp hc with rfl | ⟨f, _, rfl⟩
    · exact hNotZero.symm
    · exact fun hSame => hDiffer (Int.ofNat.inj hSame)
  -- It stands there once, so what is said before and after it
  -- is said of others.
  have hNodup := nodup_snd_zipIdx schemas serial
  rcases List.append_of_mem hp with ⟨before, after, hSplit⟩
  rw [hSplit, List.map_append, List.map_cons,
    List.nodup_append, List.nodup_cons] at hNodup
  rcases hNodup with ⟨_, ⟨hLater, _⟩, hEarlier⟩
  have hBefore :
      ∀ q ∈ before,
        (q.1.contents q.2).filter (fun c => c.1 == (p.2 : Int))
          = [] := by
    intro q hq
    exact
      hNone q
        (hEarlier q.2 (List.mem_map_of_mem hq) p.2
          List.mem_cons_self)
  have hAfter :
      ∀ q ∈ after,
        (q.1.contents q.2).filter (fun c => c.1 == (p.2 : Int))
          = [] := by
    intro q hq
    refine hNone q ?_
    intro hSame
    exact hLater (hSame ▸ List.mem_map_of_mem hq)
  unfold installedContents
  rw [hSplit, List.filter_flatMap, List.flatMap_append,
    List.flatMap_cons, List.flatMap_eq_nil_iff.mpr hBefore,
    List.flatMap_eq_nil_iff.mpr hAfter,
    filter_contents_entity hNotZero]
  simp

/- What makes them attributes is said in order. -/
theorem filter_installedContents_attr
    (serial : Nat)
    (schemas : List Schema) :
    (installedContents serial schemas).filter
        (fun c => c.2.1 == installAttr)
      = (schemas.zipIdx serial).map (fun p =>
          (0, installAttr, .int p.2)) := by
  have hOne (q : Schema × Nat) :
      (q.1.contents q.2).filter (fun c => c.2.1 == installAttr)
        = [(0, installAttr, .int q.2)] := by
    unfold Schema.contents
    rw [List.filter_cons_of_pos (by simp),
      List.filter_eq_nil_iff.mpr]
    intro c hc hInstalls
    rcases List.mem_map.mp hc with ⟨f, hf, rfl⟩
    have hNot := Schema.not_installs_of_mem_stored hf
    rw [installs, hInstalls] at hNot
    cases hNot
  unfold installedContents
  rw [List.filter_flatMap]
  simp only [hOne]
  exact List.map_eq_flatMap.symm

/- The idents that are said are those of the definitions. -/
theorem ident_of_mem_installedContents
    {c : Int × Int × Value}
    (hc : c ∈ installedContents serial schemas)
    (hAttr : c.2.1 = identAttr) :
    ∃ p ∈ schemas.zipIdx serial,
      c = ((p.2 : Int), identAttr, .str p.1.ident) := by
  rcases List.mem_flatMap.mp hc with ⟨p, hp, hSaid⟩
  refine ⟨p, hp, ?_⟩
  rcases Schema.mem_contents_iff.mp hSaid with rfl | ⟨f, hf, rfl⟩
  · have hOther : installAttr ≠ identAttr := by
      decide +kernel
    exact absurd hAttr hOther
  · rcases f with ⟨k, v⟩
    rcases Schema.exists_name_of_mem_stored hf with
      ⟨name, hName, rfl⟩
    have hIdent : identAttr = idOf (.str "db/ident") := by
      decide +kernel
    have hSame : name = "db/ident" :=
      idOf_field_inj hName (by decide) (hAttr.trans hIdent)
    subst hSame
    have hFound :=
      (Schema.ofTexts_stored p.1).find?_eq_some_iff.mpr hf
    rw [show Table.find? (.str "db/ident") p.1.stored = _ from
      (Schema.field?_stored p.1).1] at hFound
    rw [← Option.some.inj hFound, ← hIdent]

/- The ident of each definition is said of its attribute. -/
theorem ident_mem_installedContents
    (hp : p ∈ schemas.zipIdx serial) :
    ((p.2 : Int), identAttr, Value.str p.1.ident)
      ∈ installedContents serial schemas := by
  have hIdent : identAttr = idOf (.str "db/ident") := by
    decide +kernel
  have hField :
      Table.find? (.str "db/ident") p.1.stored
        = some (.str p.1.ident) :=
    (Schema.field?_stored p.1).1
  have hStored :=
    (Schema.ofTexts_stored p.1).find?_eq_some_iff.mp hField
  refine List.mem_flatMap.mpr ⟨p, hp, ?_⟩
  refine Schema.mem_contents_iff.mpr (.inr ⟨_, hStored, ?_⟩)
  rw [hIdent]

------------------------------------------------------------
-- Definitions that Are Read
------------------------------------------------------------

/- The facts of a ledger that has gained some, by contents. -/
theorem Ledger.Gains.filter_entity
    {l after : Ledger}
    {contents : List (Int × Int × Value)}
    (h : l.Gains after contents)
    {eid : Int}
    (hFresh : ∀ d ∈ l.datoms, d.entity ≠ eid) :
    (after.datoms.filter
        (fun d => (Value.int eid).isInt d.entity)).map
          DatomOf.content
      = contents.filter (fun c => c.1 == eid) := by
  rcases h with ⟨facts, hDatoms, _, rfl, _⟩
  have hOld :
      l.datoms.filter (fun d => (Value.int eid).isInt d.entity)
        = [] := by
    rw [List.filter_eq_nil_iff]
    intro d hd
    rw [Value.isInt, beq_iff_eq]
    exact hFresh d hd
  rw [hDatoms, List.filter_append, hOld, List.nil_append,
    List.filter_map]
  rfl

namespace Database

variable {db : Database}

/-
  An entity of which only what is stored of a definition is
  said has that definition.
-/
theorem defined_of_fields
    (h : db.Founded)
    {datoms : List Datom}
    {eid : Int}
    {s : Schema}
    (hFields :
      (datoms.filter
          (fun d => (Value.int eid).isInt d.entity)).map
            DatomOf.content
        = fieldContents eid s.stored)
    (hIdent : Keyword.isKeyword s.ident = true)
    (hSwitches : s.normalized = s) :
    db.defined datoms (.int eid) = .ok s := by
  let named (c : Int × Int × Value) : Value × Value :=
    ((db.identOf (.int c.2.1)).getD .null, c.2.2)
  have hRead :
      db.definitionOf datoms (.int eid)
        = Table.putAll
          (((datoms.filter
            (fun d => (Value.int eid).isInt d.entity)).map
              DatomOf.content).map named) [] := by
    unfold definitionOf Table.putAll
    rw [List.foldl_map, List.foldl_map]
    rfl
  have hNamed :
      (fieldContents eid s.stored).map named = s.stored := by
    unfold fieldContents
    rw [List.map_map]
    refine List.map_congr_left (g := id) ?_ |>.trans
      (List.map_id _)
    intro f hf
    rcases f with ⟨k, v⟩
    rcases Schema.exists_name_of_mem_stored hf with
      ⟨name, hName, rfl⟩
    have hName := h.identOf (mem_idents_of_field hName)
    simp only [Function.comp_apply, named, hName,
      Option.getD_some, id]
  have hTable : Table.OfTexts ([] ++ s.stored) :=
    Schema.ofTexts_stored s
  unfold defined
  rw [hRead, hFields, hNamed, hTable.putAll_eq_append,
    List.nil_append, Schema.ofTxData_stored hIdent, hSwitches]

------------------------------------------------------------
-- Definitions that Are Installed
------------------------------------------------------------

/-
  If all that a log installs is defined, then it is put to the
  attributes in the order of the log.
-/
theorem foldlM_installedBy
    {datoms : List Datom}
    {idents : List (Value × Int)}
    {newAttr newPart : Installed}
    {log : List Datom}
    {installs : List (Value × Schema)}
    (hInstalls :
      (log.filter (fun d => d.attr == newAttr.eid)).map
          DatomOf.value
        = installs.map Prod.fst)
    (hDefined :
      ∀ b ∈ installs,
        b.1.hashable = true ∧ db.defined datoms b.1 = .ok b.2)
    (hOther : ∀ d ∈ log, d.attr ≠ newPart.eid)
    (i : Installations) :
    log.foldlM (db.installedBy datoms idents newAttr newPart) i
      = .ok
        { i with
          attributes := Table.putAll installs i.attributes } := by
  induction log generalizing installs i with
  | nil =>
      have hNone : installs = [] :=
        List.map_eq_nil_iff.mp hInstalls.symm
      subst hNone
      rfl
  | cons d log ih =>
      rw [List.forall_mem_cons] at hOther
      rw [List.foldlM_cons]
      by_cases hAttr : d.attr = newAttr.eid
      · rw [List.filter_cons_of_pos (by simpa using hAttr),
          List.map_cons] at hInstalls
        cases installs with
        | nil => cases hInstalls
        | cons b rest =>
            rcases List.cons.inj hInstalls with ⟨hHead, hTail⟩
            rw [List.forall_mem_cons] at hDefined
            have hStep :
                db.installedBy datoms idents newAttr newPart i d
                  = .ok
                    { i with
                      attributes :=
                        Table.put b.1 b.2 i.attributes } := by
              rw [installedBy, if_pos (by simpa using hAttr),
                hHead, installAttribute, hDefined.1.2, ok_bind,
                if_pos hDefined.1.1]
              rfl
            rw [hStep, ok_bind]
            exact ih hTail hDefined.2 hOther.2 _
      · rw [List.filter_cons_of_neg (by simpa using hAttr)]
          at hInstalls
        have hStep :
            db.installedBy datoms idents newAttr newPart i d
              = .ok i := by
          rw [installedBy, if_neg (by simpa using hAttr),
            if_neg (by simpa using hOther.1)]
          rfl
        rw [hStep, ok_bind]
        exact ih hInstalls hDefined hOther.2 _

------------------------------------------------------------
-- Committing New Attributes
------------------------------------------------------------

/-
  A text names an entity in the end if only this entity is
  given it, or if it named the entity before and nothing is
  said of it.
-/
theorem foldl_named_of_given
    {s : String}
    {eid : Int}
    {log : List Datom}
    {owner : Option Int}
    (hGiven :
      ∀ d ∈ log, d.carries s = true →
        d.added = true ∧ d.entity = eid)
    (hSome :
      owner = some eid ∨ ∃ d ∈ log, d.carries s = true) :
    log.foldl (Replay.named s) owner = some eid := by
  induction log generalizing owner with
  | nil => simpa using hSome
  | cons d log ih =>
      rw [List.forall_mem_cons] at hGiven
      rw [List.foldl_cons]
      refine ih hGiven.2 ?_
      by_cases hCarries : d.carries s = true
      · left
        rw [Replay.named, if_pos hCarries,
          if_pos (hGiven.1 hCarries).1, (hGiven.1 hCarries).2]
      · rw [Replay.named, if_neg hCarries]
        refine hSome.imp_right ?_
        rintro ⟨c, hc, hHas⟩
        rcases List.mem_cons.mp hc with rfl | hLater
        · exact absurd hHas hCarries
        · exact ⟨c, hLater, hHas⟩

section Commit

variable {log : List Datom}
variable {tx : Int}
variable {instant : Value}

/- The log of a transaction that only installs attributes. -/
abbrev logContents
    (tx : Int)
    (instant : Value)
    (serial : Nat)
    (schemas : List Schema) : List (Int × Int × Value) :=
  (tx, instantAttr, instant) :: installedContents serial schemas

/- An entry of it gives the instant, or tells of attributes. -/
theorem said_of_mem_log
    (hSaid :
      log.map DatomOf.content
        = logContents tx instant serial schemas)
    {d : Datom}
    (hd : d ∈ log) :
    d.attr = instantAttr
      ∨ d.content ∈ installedContents serial schemas := by
  have hContent : d.content ∈ log.map DatomOf.content :=
    List.mem_map_of_mem hd
  rw [hSaid] at hContent
  refine (List.mem_cons.mp hContent).imp_left ?_
  exact fun hTime => (DatomOf.content_eq_iff.mp hTime).2.1

/- Where it gives an ident, this is the one of a definition. -/
theorem ident_of_mem_log
    (hSaid :
      log.map DatomOf.content
        = logContents tx instant serial schemas)
    {d : Datom}
    (hd : d ∈ log)
    (hAttr : d.attr = identAttr) :
    ∃ p ∈ schemas.zipIdx serial,
      d.entity = p.2 ∧ d.value = .str p.1.ident := by
  have hOther : instantAttr ≠ identAttr := by
    decide +kernel
  rcases said_of_mem_log hSaid hd with hTime | hRest
  · exact absurd (hTime.symm.trans hAttr) hOther
  · rcases ident_of_mem_installedContents hRest hAttr with
      ⟨p, hp, hContent⟩
    rcases DatomOf.content_eq_iff.mp hContent with
      ⟨hEntity, _, hValue⟩
    exact ⟨p, hp, hEntity, hValue⟩

/- Its idents are followed, and each names its attribute. -/
theorem exists_followIdents_of_installed
    (h : db.Founded)
    (hSaid :
      log.map DatomOf.content
        = logContents tx instant serial schemas)
    (hAdded : ∀ d ∈ log, d.added = true)
    (hDistinct : (schemas.map SchemaOf.ident).Nodup) :
    ∃ idents,
      (log.filter (fun d => d.attr == identAttr)).foldlM
          followIdent db.idents = .ok idents
        ∧ ∀ p ∈ schemas.zipIdx serial,
            Table.find? (.str p.1.ident) idents
              = some (p.2 : Int) := by
  have hHashable :
      ∀ d ∈ log.filter (fun d => d.attr == identAttr),
        d.value.hashable = true := by
    intro d hd
    rcases List.mem_filter.mp hd with ⟨hLog, hAttr⟩
    rcases ident_of_mem_log hSaid hLog (beq_iff_eq.mp hAttr)
      with ⟨p, _, _, hValue⟩
    rw [hValue]
    exact Value.hashable_str _
  rcases (Outcome.exists_foldlM_eq_ok_iff
      (fun d _ table => exists_followIdent_iff table d)
      db.idents).mpr hHashable with
    ⟨idents, hIdents⟩
  refine ⟨idents, hIdents, ?_⟩
  intro p hp
  rw [(find?_foldlM_followIdent hIdents
    (h.tells p.1.ident).once).2]
  apply foldl_named_of_given
  · intro d hd hCarries
    rcases DatomOf.carries_iff.mp hCarries with ⟨hAttr, hValue⟩
    rcases ident_of_mem_log hSaid hd hAttr with
      ⟨q, hq, hEntity, hText⟩
    have hIdent : q.1.ident = p.1.ident :=
      Value.str.inj (hText.symm.trans hValue)
    have hSame := eq_of_same_ident hDistinct hq hp hIdent
    exact ⟨hAdded d hd, hSame ▸ hEntity⟩
  · right
    have hContent :
        ((p.2 : Int), identAttr, Value.str p.1.ident)
          ∈ log.map DatomOf.content :=
      hSaid ▸
        List.mem_cons_of_mem _ (ident_mem_installedContents hp)
    rcases List.mem_map.mp hContent with ⟨d, hd, hEq⟩
    exact
      ⟨d, hd,
        DatomOf.carries_iff.mpr (DatomOf.content_eq_iff.mp hEq).2⟩

/- It installs them in order, and nothing else. -/
theorem foldlM_installedBy_of_installed
    {datoms : List Datom}
    (hSaid :
      log.map DatomOf.content
        = logContents tx instant serial schemas)
    (hDefined :
      ∀ p ∈ schemas.zipIdx serial,
        db.defined datoms (.int p.2) = .ok p.1)
    {newAttr newPart : Installed}
    (hAttr : newAttr.eid = installAttr)
    (hPart : newPart.eid = partitionAttr)
    (idents : List (Value × Int))
    (i : Installations) :
    log.foldlM (db.installedBy datoms idents newAttr newPart) i
      = .ok
        { i with
          attributes :=
            Table.putAll
              ((schemas.zipIdx serial).map (fun p =>
                (.int p.2, p.1))) i.attributes } := by
  have hOther :
      instantAttr ≠ installAttr ∧ instantAttr ≠ partitionAttr
        ∧ installAttr ≠ partitionAttr := by
    decide +kernel
  refine foldlM_installedBy ?_ ?_ ?_ i
  · have hRead :
        (log.filter (fun d => d.attr == newAttr.eid)).map
            DatomOf.value
          = ((log.map DatomOf.content).filter (fun c =>
              c.2.1 == installAttr)).map (fun c => c.2.2) := by
      rw [List.filter_map, List.map_map, hAttr]
      rfl
    rw [hRead, hSaid, logContents,
      List.filter_cons_of_neg (by simpa using hOther.1),
      filter_installedContents_attr, List.map_map, List.map_map]
    rfl
  · intro b hb
    rcases List.mem_map.mp hb with ⟨p, hp, rfl⟩
    exact ⟨rfl, hDefined p hp⟩
  · intro d hd hSame
    rw [hPart] at hSame
    rcases said_of_mem_log hSaid hd with hTime | hRest
    · exact hOther.2.1 (hTime.symm.trans hSame)
    · rcases List.mem_flatMap.mp hRest with ⟨p, _, hOne⟩
      rcases Schema.cases_of_content_mem hOne with
        ⟨_, hNewAttr, _⟩ | ⟨_, hNot⟩
      · exact hOther.2.2 (hNewAttr.symm.trans hSame)
      · rw [hSame] at hNot
        cases hNot

/-
  Such a transaction is committed.  If the attributes are new
  to the database, then it puts them behind those that there
  are, with their definitions, and each is named by its ident.
-/
theorem exists_afterLog_of_gains
    (h : db.Founded)
    {l : Ledger}
    (hGains :
      (Ledger.ofDatabase db).Gains l
        (logContents tx instant serial schemas))
    (hPositive : 0 < serial)
    (hFresh :
      ∀ k, serial ≤ k → k < serial + schemas.length →
        tx ≠ (k : Int)
          ∧ (∀ d ∈ db.datoms, d.entity ≠ (k : Int))
          ∧ db.schemaOf? k = none)
    (hValid :
      ∀ s ∈ schemas, Keyword.isKeyword s.ident = true)
    (hSwitches : ∀ s ∈ schemas, s.normalized = s)
    (hDistinct : (schemas.map SchemaOf.ident).Nodup) :
    ∃ after, db.afterLog l = .ok after
      ∧ after.attributes
          = db.attributes
            ++ (schemas.zipIdx serial).map (fun p =>
              (.int p.2, p.1))
      ∧ ∀ p ∈ schemas.zipIdx serial,
          Table.find? (.str p.1.ident) after.idents
            = some (p.2 : Int) := by
  rcases id hGains with ⟨log, _, hLog, hSaid, hAdded⟩
  have hLog : l.log = log := hLog
  rcases h.keeps.exists_installed "db/ident" identAttr
      (by decide +kernel) with ⟨ident, hIdent, hIdentId⟩
  rcases h.keeps.exists_installed "db.install/attribute"
      installAttr (by decide +kernel) with
    ⟨newAttr, hAttr, hAttrId⟩
  rcases h.keeps.exists_installed "db.install/partition"
      partitionAttr (by decide +kernel) with
    ⟨newPart, hPart, hPartId⟩
  rcases exists_followIdents_of_installed h hSaid hAdded
      hDistinct with ⟨idents, hIdents, hNamed⟩
  have hDefined :
      ∀ p ∈ schemas.zipIdx serial,
        db.defined l.datoms (.int p.2) = .ok p.1 := by
    intro p hp
    rcases bounds_of_mem_zipIdx hp with ⟨hFrom, hTo, hMember⟩
    rcases hFresh p.2 hFrom hTo with ⟨hTx, hNone, _⟩
    refine
      defined_of_fields h ?_ (hValid _ hMember)
        (hSwitches _ hMember)
    rw [hGains.filter_entity hNone, logContents,
      List.filter_cons_of_neg (by simpa using hTx),
      filter_installedContents_entity hPositive hp]
  have hAll : l.log.filter (fun d => d.added) = log := by
    rw [hLog]
    exact List.filter_eq_self.mpr hAdded
  have hInstalls :=
    foldlM_installedBy_of_installed hSaid hDefined hAttrId
      hPartId idents
      { attributes := db.attributes
        partitions := db.partitions }
  rw [← hLog, ← hIdentId] at hIdents
  rw [← hAll] at hInstalls
  refine
    ⟨_, afterLog_eq_ok.mpr
      ⟨ident, idents, newAttr, newPart, _, hIdent, hIdents,
        hAttr, hPart, hInstalls, rfl⟩, ?_, hNamed⟩
  refine Table.putAll_eq_append ?_ ?_
  · intro b hb
    rcases List.mem_map.mp hb with ⟨p, hp, rfl⟩
    rcases bounds_of_mem_zipIdx hp with ⟨hFrom, hTo, _⟩
    exact (hFresh p.2 hFrom hTo).2.2
  · rw [List.pairwise_map]
    refine
      (List.pairwise_map.mp
        (nodup_snd_zipIdx schemas serial)).imp ?_
    intro p q hDiffer
    rw [Value.same_int_right, Value.isInt, beq_eq_false_iff_ne]
    exact fun hSame => hDiffer (Int.ofNat.inj hSame.symm)

end Commit

end Database

------------------------------------------------------------
-- Transacting Definitions
------------------------------------------------------------

/- An id that was drawn in a row finds what was noted for it. -/
theorem TempId.find?_row
    (n serial : Nat)
    {count i : Nat}
    (h : i < count) :
    Table.find? (systemAt (n + i))
        ((List.range count).map (fun i =>
          (systemAt (n + i), ((serial + i : Nat) : Int))))
      = some ((serial + i : Nat) : Int) := by
  let row :=
    (List.range count).map (fun i =>
      (systemAt (n + i), ((serial + i : Nat) : Int)))
  have hMember :
      (systemAt (n + i), ((serial + i : Nat) : Int)) ∈ row :=
    List.mem_map.mpr ⟨i, List.mem_range.mpr h, rfl⟩
  have hSome :
      (Table.find? (systemAt (n + i)) row).isSome = true :=
    Table.find?_isSome_iff.mpr
      ⟨_, List.mem_map_of_mem hMember, Value.same_refl _⟩
  rcases Option.isSome_iff_exists.mp hSome with ⟨eid, hFound⟩
  rcases Table.mem_of_find? hFound with ⟨k, hRow, hSame⟩
  rcases List.mem_map.mp hRow with ⟨j, _, hEq⟩
  rcases Prod.mk.inj hEq with ⟨rfl, rfl⟩
  have hIndex := TempId.eq_of_same_systemAt hSame
  have hEqual : j = i := by
    omega
  exact hEqual ▸ hFound

namespace Engine

variable {e : Engine}

/-
  Serial numbers last for another transaction that takes a
  number of ids in the first partition.
-/
structure HasRoomFor
    (e : Engine)
    (count : Nat) : Prop where
  all : ∀ p, e.allocator.next p ≤ EntityId.span
  system : e.allocator.next 0 + count ≤ EntityId.span
  transaction :
    e.allocator.next txPartition < EntityId.span

/- The first partition has ids that were given out. -/
theorem Grounded.next_pos (h : e.Grounded) :
    0 < e.allocator.next 0 := by
  have hIdent :
      Table.find? (.str TempId.systemPartition) e.db.idents
        = some 0 :=
    h.founded.keeps.idents (.str TempId.systemPartition, 0)
      List.mem_cons_self
  rcases Table.mem_of_find? hIdent with ⟨k, hMember, _⟩
  have hGiven : e.allocator.hasGiven 0 = true :=
    h.covered.idents _ hMember
  exact
    (e.allocator.hasGiven_inPartition 0
      (Nat.two_pow_pos EntityId.serialBits)).mp hGiven

/- The ids that come next in it are new to the database. -/
theorem Grounded.fresh
    (h : e.Grounded)
    {count k : Nat}
    (hRoom : e.HasRoomFor count)
    (hFrom : e.allocator.next 0 ≤ k)
    (hTo : k < e.allocator.next 0 + count) :
    e.ground.tx ≠ (k : Int)
      ∧ (∀ d ∈ e.db.datoms, d.entity ≠ (k : Int))
      ∧ (∀ d ∈ e.db.datoms, d.attr = installAttr →
          d.value.isInt k = false)
      ∧ e.db.schemaOf? k = none := by
  have hFit : k < EntityId.span :=
    hTo.trans_le hRoom.system
  have hPlace : EntityId.inPartition 0 (k : Int) = (k : Int) := by
    rw [EntityId.inPartition_of_lt 0 k hFit]
    simp
  have hNot : ¬e.allocator.hasGiven k = true := by
    rw [← hPlace, Allocator.hasGiven_inPartition _ 0 hFit]
    exact Nat.not_lt.mpr hFrom
  refine ⟨?_, ?_, ?_, ?_⟩
  · intro hSame
    have hTx :
        e.ground.tx
          = EntityId.inPartition txPartition
            (e.allocator.next txPartition : Int) := rfl
    rw [hTx, ← hPlace] at hSame
    have hIndex :=
      (EntityId.eq_of_inPartition_eq hRoom.transaction hFit
        hSame).1
    cases hIndex
  · intro d hd hSame
    exact hNot (hSame ▸ (h.covered.datoms d hd).entity)
  · intro d hd hAttr
    rw [Bool.eq_false_iff]
    intro hInt
    exact hNot ((h.covered.datoms d hd).value hAttr _ hInt)
  · rw [← Option.not_isSome_iff_eq_none]
    exact fun hSome => hNot (h.defined _ hSome)

/- So is the entity of the next transaction. -/
theorem Grounded.fresh_tx
    (h : e.Grounded)
    {count : Nat}
    (hRoom : e.HasRoomFor count) :
    ∀ d ∈ e.db.datoms, d.entity ≠ e.ground.tx := by
  intro d hd hSame
  have hGiven := (h.covered.datoms d hd).entity
  rw [hSame] at hGiven
  exact
    Nat.lt_irrefl _
      ((e.allocator.hasGiven_inPartition txPartition
        hRoom.transaction).mp hGiven)

/-
  Maps that install definitions are committed.  The next ids
  are noted for their temporary ids, and these are then the
  attributes with the definitions.
-/
theorem Grounded.transact_installations
    (h : e.Grounded)
    (hFirst : partitions.map Value.str <+: e.db.partitions)
    (hRoom : e.HasRoomFor schemas.length)
    (hValid :
      ∀ s ∈ schemas, Keyword.isKeyword s.ident = true)
    (hSwitches : ∀ s ∈ schemas, s.normalized = s)
    (hDistinct : (schemas.map SchemaOf.ident).Nodup)
    (n : Nat)
    (hSerial : e.allocator.next 0 = serial) :
    ∃ r, (e.transact
            (.list (Schema.installations n schemas))).1 = .ok r
      ∧ r.tempids
          = (List.range schemas.length).map (fun i =>
            (systemAt (n + i), ((serial + i : Nat) : Int)))
      ∧ r.after.attributes
          = e.db.attributes
            ++ (schemas.zipIdx serial).map (fun p =>
              (.int p.2, p.1))
      ∧ ∀ p ∈ schemas.zipIdx serial,
          Table.find? (.str p.1.ident) r.after.idents
            = some (p.2 : Int) := by
  rcases h.founded.keeps.exists_installed "db/txInstant"
      instantAttr (by decide +kernel) with
    ⟨instant, hInstant, hInstantId⟩
  have hFresh (k : Nat) (hFrom : serial ≤ k)
      (hTo : k < serial + schemas.length) :=
    h.fresh hRoom (hSerial ▸ hFrom) (hSerial ▸ hTo)
  have hPositive : 0 < serial := hSerial ▸ h.next_pos
  have hPartition :
      Database.positionOf? (.str TempId.systemPartition)
        e.ground.db.partitions = some 0 :=
    Database.positionOf?_of_prefix hFirst (by decide +kernel)
  let w : Working :=
    { e.opened with
      ledger :=
        (Ledger.ofDatabase e.db).append (e.timeFact instant) }
  have hNext : w.allocator.next 0 = serial :=
    (Allocator.next_take_of_ne _ (by decide)).trans hSerial
  have hFreshLedger :
      ∀ k, serial ≤ k → k < serial + schemas.length →
        ∀ d ∈ w.ledger.datoms,
          d.entity ≠ k
            ∧ (d.attr = installAttr →
                d.value.isInt k = false) := by
    intro k hFrom hTo d hd
    rcases hFresh k hFrom hTo with ⟨hTx, hEntity, hValue, _⟩
    rcases List.mem_append.mp hd with hOld | hTime
    · exact ⟨hEntity d hOld, hValue d hOld⟩
    · rw [List.mem_singleton.mp hTime]
      exact ⟨hTx, fun _ => rfl⟩
  rcases Transacting.exec_installations (g := e.ground) (w := w)
      h.founded.keeps hPartition schemas (n := n) hNext hPositive
      (fun _ _ => rfl) hFreshLedger with
    ⟨w', hExec, hGains, hTempids⟩
  have hContent :
      (e.timeFact instant).content
        = (e.ground.tx, instantAttr,
          .instant (e.clock e.ticks)) := by
    rw [← hInstantId]
    rfl
  have hAll :
      (Ledger.ofDatabase e.db).Gains w'.ledger
        (Database.logContents e.ground.tx
          (.instant (e.clock e.ticks)) serial schemas) := by
    have hTime :=
      Ledger.gains_append (Ledger.ofDatabase e.db)
        (rfl : (e.timeFact instant).added = true)
    rw [hContent] at hTime
    exact hTime.trans hGains
  rcases Database.exists_afterLog_of_gains h.founded hAll
      hPositive
      (fun k hFrom hTo =>
        ⟨(hFresh k hFrom hTo).1, (hFresh k hFrom hTo).2.1,
          (hFresh k hFrom hTo).2.2.2⟩)
      hValid hSwitches hDistinct with
    ⟨after, hAfter, hAttributes, hIdents⟩
  let r : TxResult :=
    { before := e.db
      after := after
      facts := w'.ledger.log
      tempids := w'.tempids }
  refine ⟨r, ?_, hTempids, hAttributes, hIdents⟩
  change (e.transactItems _).1 = _
  rw [fst_transactItems, exec_steps hInstant (h.fresh_tx hRoom),
    hExec]
  change (e.db.afterLog w'.ledger >>= _) = _
  rw [hAfter]
  rfl

/-
  Definitions survive the store.  Whatever an engine was
  called for since its start: if what was committed spares the
  first entities and names only ids that were given out, and
  serial numbers last, then the maps that definitions are
  written as can be committed together.  The definitions need
  keywords as idents, of which none is there twice, and truth
  values as switches.  Each map's temporary id is then
  resolved to an entity that has the definition and is named
  by its ident, and the other attributes are what they were.
-/
theorem transact_schemas
    (clock : Nat → Int)
    (calls : List Value)
    {schemas : List Schema}
    {e : Engine}
    (hEngine : (start clock).after calls = e)
    (hNames : (start clock).along namesGiven calls = true)
    (hSpares : (start clock).along sparesFirst calls = true)
    (hRoom : e.HasRoomFor schemas.length)
    (hValid :
      ∀ s ∈ schemas, Keyword.isKeyword s.ident = true)
    (hSwitches : ∀ s ∈ schemas, s.normalized = s)
    (hDistinct : (schemas.map SchemaOf.ident).Nodup)
    (drawn : Nat) :
    ∃ (maps : List Value) (r : TxResult) (eids : List Int),
      (schemas.mapM Schema.toTxData).run drawn
          = (.ok maps, drawn + schemas.length)
        ∧ (e.transact (.list maps)).1 = .ok r
        ∧ eids.length = schemas.length
        ∧ r.after.attributes
            = e.db.attributes
              ++ (eids.zip schemas).map (fun p =>
                (.int p.1, p.2))
        ∧ ∀ (i : Nat) (s : Schema), schemas[i]? = some s →
            ∃ (id : Value) (eid : Int),
              maps[i]? = some (.map (s.installation id))
                ∧ eids[i]? = some eid
                ∧ Table.find? id r.tempids = some eid
                ∧ r.after.schemaOf? eid = some s
                ∧ r.after.resolve (.str s.ident)
                    = .ok (some eid) := by
  have hGrounded : e.Grounded :=
    hEngine ▸
      (grounded_start clock).after (hEngine ▸ hRoom.all) hNames
        hSpares
  have hFirst : partitions.map Value.str <+: e.db.partitions :=
    hEngine ▸ ((accounted_start clock).after calls).first
  -- The entities are those whose ids come next.
  obtain ⟨serial, hSerial⟩ :
      ∃ serial, e.allocator.next 0 = serial := ⟨_, rfl⟩
  rcases hGrounded.transact_installations hFirst hRoom hValid
      hSwitches hDistinct drawn hSerial with
    ⟨r, hResult, hTempids, hAttributes, hIdents⟩
  let eids : List Int :=
    (schemas.zipIdx serial).map (fun p => (p.2 : Int))
  have hLength : eids.length = schemas.length := by
    simp [eids]
  have hEntries :
      (schemas.zipIdx serial).map (fun p =>
          (Value.int p.2, p.1))
        = (eids.zip schemas).map (fun p =>
          (Value.int p.1, p.2)) := by
    rw [zip_eids_zipIdx, List.map_map]
    rfl
  refine
    ⟨Schema.installations drawn schemas, r, eids,
      Schema.run_mapM_toTxData schemas drawn, hResult, hLength,
      hEntries ▸ hAttributes, ?_⟩
  intro i s hAt
  have hIndex : i < schemas.length :=
    (List.getElem?_eq_some_iff.mp hAt).1
  have hPlace (n : Nat) :
      (schemas.zipIdx n)[i]? = some (s, n + i) := by
    rw [List.getElem?_zipIdx, hAt]
    rfl
  have hMember : (s, serial + i) ∈ schemas.zipIdx serial :=
    List.mem_of_getElem? (hPlace serial)
  refine
    ⟨systemAt (drawn + i), ((serial + i : Nat) : Int), ?_, ?_,
      ?_, ?_, ?_⟩
  · rw [Schema.installations, List.getElem?_map, hPlace]
    rfl
  · rw [List.getElem?_map, hPlace]
    rfl
  · rw [hTempids]
    exact TempId.find?_row drawn serial hIndex
  · have hNew :
        e.db.schemaOf? ((serial + i : Nat) : Int) = none :=
      (hGrounded.fresh hRoom (by omega) (by omega)).2.2.2
    rw [Database.schemaOf?, hAttributes, Table.find?_append]
    rw [Database.schemaOf?] at hNew
    rw [hNew]
    exact find?_zipIdx hMember
  · exact congrArg Except.ok (hIdents _ hMember)

/- The definition of an attribute with all that may be given. -/
def emailSchema : Schema where
  ident := "user/email"
  valueType := .string
  cardinality := .one
  unique := some .identity
  index := .bool true
  fulltext := .bool true
  component := .bool false
  noHistory := .bool true
  doc := some "an address"

/- One of many values, which are entities and parts. -/
def phoneSchema : Schema where
  ident := "user/phone"
  valueType := .ref
  cardinality := .many
  unique := none
  index := .bool false
  fulltext := .bool false
  component := .bool true
  noHistory := .bool false
  doc := none

/-
  After two transactions, of which the first has installed an
  attribute, two definitions survive the store.
-/
theorem emailSchema_and_phoneSchema_survive :
    let e :=
      (start (fun _ => 0)).after [friendAttribute, friendsData]
    ∃ maps r,
      ([emailSchema, phoneSchema].mapM Schema.toTxData).run 0
          = (.ok maps, 2)
        ∧ (e.transact (.list maps)).1 = .ok r
        ∧ ∀ s ∈ [emailSchema, phoneSchema], ∃ eid,
            r.after.schemaOf? eid = some s
              ∧ r.after.resolve (.str s.ident)
                  = .ok (some eid) := by
  intro e
  have hNames :
      (start (fun _ => 0)).along namesGiven
        [friendAttribute, friendsData] = true := by
    decide +kernel
  have hSpares :
      (start (fun _ => 0)).along sparesFirst
        [friendAttribute, friendsData] = true := by
    decide +kernel
  have hFew :
      (Bootstrap.issued
          ++ (start (fun _ => 0)).issuedAlong
            [friendAttribute, friendsData]).length
        + firstAttribute ≤ EntityId.span := by
    decide +kernel
  have hAccounts :=
    ((accounted_start (fun _ => 0)).after
      [friendAttribute, friendsData]).accounts
  have hRoom : e.HasRoomFor [emailSchema, phoneSchema].length :=
    { all := fun p =>
        (hAccounts.counted p).trans_le (lasts_of_length hFew _ p)
      system := by decide +kernel
      transaction := by decide +kernel }
  have hSwitches :
      ∀ s ∈ [emailSchema, phoneSchema], s.normalized = s := by
    intro s hs
    rcases List.mem_pair.mp hs with rfl | rfl <;> rfl
  rcases transact_schemas (fun _ => 0)
      [friendAttribute, friendsData] (rfl : _ = e) hNames hSpares
      hRoom (by decide +kernel) hSwitches (by decide +kernel) 0
    with ⟨maps, r, _, hMaps, hResult, _, _, hStored⟩
  refine ⟨maps, r, hMaps, hResult, ?_⟩
  intro s hs
  rcases List.mem_iff_getElem?.mp hs with ⟨i, hAt⟩
  rcases hStored i s hAt with ⟨_, eid, _, _, _, hRest⟩
  exact ⟨eid, hRest⟩

end Engine

end FactBase
