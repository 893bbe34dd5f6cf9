import FactBase.Proofs.Fact.Foundation

/-
  This file shows how a transaction stores the definitions of
  new attributes.  A definition is written as a map with its
  fields.  Each map gives the next id to its entity and enters
  one fact that makes the entity an attribute and one fact for
  each field.  Read from these facts, the definition is what
  it was.

  Key definitions include:
    * `Schema.stored`
    * `Schema.contents`
    * `Ledger.Gains`
    * `Schema.installations`

  Key theorems include:
    * `Schema.ofTxData_stored`
    * `Transacting.exec_fields`
    * `Transacting.exec_installation`
    * `Transacting.exec_installations`
-/

------------------------------------------------------------
-- What Is Stored of a Definition
------------------------------------------------------------

namespace FactBase

open Sorting
open Bootstrap
open TempId (systemAt)

namespace Schema

/- What is stored of a definition, by the names of its fields. -/
def stored (s : Schema) : List (Value × Value) :=
  (s.installation .null).drop 2

/- The names of the fields in the order they are stored in. -/
def storedOrder : List String :=
  ["db/cardinality", "db/index", "db/ident", "db/valueType",
   "db/unique", "db/fulltext", "db/isComponent",
   "db/noHistory", "db/doc"]

variable {s : Schema}

/-
  A definition is installed by what is stored of it, after the
  entity and how it becomes an attribute.
-/
theorem installation_eq
    (s : Schema)
    (id : Value) :
    s.installation id
      = (.str "db/id", id)
        :: (.str "db.install/_attribute",
            .str TempId.systemPartition)
        :: s.stored := rfl

/- The fields that are always there and those that may be. -/
theorem stored_eq (s : Schema) :
    s.stored
      = [ (.str "db/cardinality",
            .str s.cardinality.keywordText)
        , (.str "db/index", s.index)
        , (.str "db/ident", .str s.ident)
        , (.str "db/valueType", .str s.valueType.keywordText) ]
        ++ whenGiven (s.unique.map Uniqueness.keywordText)
          "db/unique"
        ++ whenOn s.fulltext "db/fulltext"
        ++ whenOn s.component "db/isComponent"
        ++ whenOn s.noHistory "db/noHistory"
        ++ whenGiven s.doc "db/doc" := rfl

/- A field that may be there has its name. -/
theorem keys_whenGiven
    (x : Option String)
    (name : String) :
    ((whenGiven x name).map Prod.fst).Sublist
      [.str name] := by
  cases x <;> simp [whenGiven]

/- So has one that is there if it is on. -/
theorem keys_whenOn
    (v : Value)
    (name : String) :
    ((whenOn v name).map Prod.fst).Sublist [.str name] := by
  unfold whenOn
  split <;> simp

/- The fields are stored in order, and none is stored twice. -/
theorem keys_stored (s : Schema) :
    (s.stored.map Prod.fst).Sublist
      (storedOrder.map Value.str) := by
  rw [stored_eq]
  simp only [List.map_append]
  exact
    (((((List.Sublist.refl _).append
      (keys_whenGiven _ "db/unique")).append
        (keys_whenOn _ "db/fulltext")).append
          (keys_whenOn _ "db/isComponent")).append
            (keys_whenOn _ "db/noHistory")).append
              (keys_whenGiven _ "db/doc")

/- The name of each is the name of a field. -/
theorem exists_name_of_mem_stored
    {f : Value × Value}
    (h : f ∈ s.stored) :
    ∃ name ∈ storedFields, f.1 = .str name := by
  have hSame :
      ∀ name ∈ storedOrder, name ∈ storedFields := by
    decide
  have hKey :=
    (keys_stored s).subset (List.mem_map_of_mem h)
  rcases List.mem_map.mp hKey with ⟨name, hName, hEq⟩
  exact ⟨name, hSame name hName, hEq.symm⟩

/- So they make a table. -/
theorem ofTexts_stored (s : Schema) :
    Table.OfTexts s.stored where
  texts := by
    intro f hf
    rcases exists_name_of_mem_stored hf with ⟨name, _, hKey⟩
    exact ⟨name, hKey⟩
  distinct := by
    have hDistinct : storedOrder.Nodup := by
      decide
    refine List.pairwise_map.mp ?_
    refine List.Pairwise.sublist (keys_stored s) ?_
    exact
      hDistinct.map (fun _ _ h => Value.str.inj h)

/- What is found of a field that may be given. -/
theorem find?_whenGiven
    (x : Option String)
    (name key : String) :
    Table.find? (.str key) (whenGiven x name)
      = if name == key then x.map .str else none := by
  cases x with
  | none => simp [whenGiven, Table.find?]
  | some t => simp [whenGiven, Table.find?, Table.same_str]

/- What is found of a field that may be on. -/
theorem find?_whenOn
    (v : Value)
    (name key : String) :
    Table.find? (.str key) (whenOn v name)
      = if name == key && v.truthy then some (.bool true)
        else none := by
  unfold whenOn
  cases v.truthy with
  | true => simp [Table.find?, Table.same_str]
  | false => simp [Table.find?]

/- What is found of the fields of a definition. -/
theorem field?_stored (s : Schema) :
    Value.field? s.stored "db/ident" = some (.str s.ident)
      ∧ Value.field? s.stored "db/valueType"
          = some (.str s.valueType.keywordText)
      ∧ Value.field? s.stored "db/cardinality"
          = some (.str s.cardinality.keywordText)
      ∧ Value.field? s.stored "db/unique"
          = (s.unique.map Uniqueness.keywordText).map .str
      ∧ Value.field? s.stored "db/index" = some s.index
      ∧ Value.field? s.stored "db/fulltext"
          = (if s.fulltext.truthy then some (.bool true)
            else none)
      ∧ Value.field? s.stored "db/isComponent"
          = (if s.component.truthy then some (.bool true)
            else none)
      ∧ Value.field? s.stored "db/noHistory"
          = (if s.noHistory.truthy then some (.bool true)
            else none)
      ∧ Value.field? s.stored "db/doc" = s.doc.map .str := by
  unfold Value.field?
  rw [stored_eq]
  refine ⟨?_, ?_, ?_, ?_, ?_, ?_, ?_, ?_, ?_⟩ <;>
    simp [Table.find?_append, find?_whenGiven, find?_whenOn,
      Table.find?, Table.same_str]

/- A switch that is stored if it is on is read as it was. -/
theorem switch_of_whenOn
    {entries : List (Value × Value)}
    {name : String}
    {v : Value}
    (h :
      Value.field? entries name
        = if v.truthy then some (.bool true) else none) :
    switch entries name false = .bool v.truthy := by
  unfold switch
  rw [h]
  cases v.truthy <;> rfl

/-
  What is stored of a definition is that definition, with
  truth values for its switches.
-/
theorem ofTxData_stored
    (hIdent : Keyword.isKeyword s.ident = true) :
    ofTxData s.stored = .ok s.normalized := by
  rcases field?_stored s with
    ⟨hName, hType, hCardinality, hUnique, hIndex, hFulltext,
      hComponent, hHistory, hDoc⟩
  have hOptional :
      ∀ x : Option String,
        (x.map Value.str).getD .null = optional x := by
    rintro (_ | _) <;> rfl
  have hSwitch :
      switch s.stored "db/index" true
        = .bool s.index.truthy := by
    unfold switch
    rw [hIndex]
  unfold ofTxData
  rw [hName, hType, hCardinality, hUnique, hDoc, hSwitch,
    switch_of_whenOn hFulltext, switch_of_whenOn hComponent,
    switch_of_whenOn hHistory]
  simp only [Option.getD_some, hOptional]
  exact ofFields_own s hIdent _ _ _ _

end Schema

------------------------------------------------------------
-- What Facts Say
------------------------------------------------------------

namespace Bootstrap

/- The entity of an ident in the first database. -/
def idOf (ident : Value) : Int :=
  (Table.find? ident idents).getD 0

/- The name of a field is the ident of an attribute. -/
theorem mem_idents_of_field
    {name : String}
    (h : name ∈ storedFields) :
    (Value.str name, idOf (.str name)) ∈ idents := by
  have hFound :
      ∀ name ∈ storedFields,
        (Table.find? (.str name) idents).isSome = true := by
    decide +kernel
  rcases Option.isSome_iff_exists.mp (hFound name h) with
    ⟨eid, hEid⟩
  have hKeys := (Database.wellNamed_database 0).named.keys
  rw [idOf, hEid]
  exact hKeys.find?_eq_some_iff.mp hEid

/- Such an attribute has one value, which is no entity. -/
theorem exists_attribute_of_field
    {name : String}
    (h : name ∈ storedFields) :
    ∃ a ∈ attributeIds,
      a.1.ident = name ∧ a.2 = idOf (.str name)
        ∧ a.1.many = false ∧ a.1.isRef = false := by
  have hListed :
      ∀ name ∈ storedFields, ∃ a ∈ attributeIds,
        a.1.ident = name ∧ a.2 = idOf (.str name)
          ∧ a.1.many = false ∧ a.1.isRef = false := by
    decide +kernel
  exact hListed name h

/- Different fields are different attributes. -/
theorem idOf_field_inj
    {name other : String}
    (hName : name ∈ storedFields)
    (hOther : other ∈ storedFields)
    (h : idOf (.str name) = idOf (.str other)) :
    name = other :=
  Value.str.inj
    (congrArg Prod.fst
      (eq_of_snd_eq (mem_idents_of_field hName)
        (mem_idents_of_field hOther) h))

end Bootstrap

/- What a fact says: an entity, an attribute and a value. -/
def DatomOf.content (d : Datom) : Int × Int × Value :=
  (d.entity, d.attr, d.value)

/- Facts say the same if they do so in each of the three. -/
theorem DatomOf.content_eq_iff
    {d : Datom}
    {entity attr : Int}
    {v : Value} :
    d.content = (entity, attr, v)
      ↔ d.entity = entity ∧ d.attr = attr ∧ d.value = v := by
  simp [content]

/- What the fields of an entity say. -/
def fieldContents
    (eid : Int)
    (fields : List (Value × Value)) :
    List (Int × Int × Value) :=
  fields.map (fun f => (eid, idOf f.1, f.2))

/- What is said to make an entity an attribute. -/
def Schema.contents
    (s : Schema)
    (eid : Int) : List (Int × Int × Value) :=
  (0, installAttr, .int eid) :: fieldContents eid s.stored

namespace Ledger

/- New facts stand at the end, and so do they in the log. -/
def Gains
    (l after : Ledger)
    (contents : List (Int × Int × Value)) : Prop :=
  ∃ facts : List Datom,
    after.datoms = l.datoms ++ facts
      ∧ after.log = l.log ++ facts
      ∧ facts.map DatomOf.content = contents
      ∧ ∀ d ∈ facts, d.added = true

variable {l m after : Ledger}
variable {xs ys : List (Int × Int × Value)}

/- Nothing was entered. -/
theorem Gains.refl (l : Ledger) : l.Gains l [] :=
  ⟨[], by simp, by simp, rfl, List.forall_mem_nil _⟩

/- One fact was entered. -/
theorem gains_append
    (l : Ledger)
    {d : Datom}
    (h : d.added = true) : l.Gains (l.append d) [d.content] :=
  ⟨[d], rfl, rfl, rfl, List.forall_mem_singleton.mpr h⟩

/- Some facts were entered, and then others. -/
theorem Gains.trans
    (h : l.Gains m xs)
    (h' : m.Gains after ys) : l.Gains after (xs ++ ys) := by
  rcases h with ⟨facts, hDatoms, hLog, hSaid, hAdded⟩
  rcases h' with ⟨others, hDatoms', hLog', hSaid', hAdded'⟩
  refine ⟨facts ++ others, ?_, ?_, ?_, ?_⟩
  · rw [hDatoms', hDatoms, List.append_assoc]
  · rw [hLog', hLog, List.append_assoc]
  · rw [List.map_append, hSaid, hSaid']
  · exact List.forall_mem_append.mpr ⟨hAdded, hAdded'⟩

/- A fact was there before, or it says what is new. -/
theorem Gains.mem
    (h : l.Gains after xs)
    {d : Datom}
    (hd : d ∈ after.datoms) :
    d ∈ l.datoms ∨ d.content ∈ xs := by
  rcases h with ⟨facts, hDatoms, _, rfl, _⟩
  rw [hDatoms] at hd
  exact
    (List.mem_append.mp hd).imp_right List.mem_map_of_mem

end Ledger

------------------------------------------------------------
-- Entering a Definition
------------------------------------------------------------

namespace Transacting

variable {g : Ground}
variable {w : Working}
variable {eid : Int}

/- Entering a value that is new. -/
theorem exec_add_of_new
    (attr : Installed)
    {v : Value}
    (hNew :
      ∀ d ∈ w.ledger.about eid attr.eid,
        d.value.equals v = .ok false)
    (hRoom :
      w.ledger.about eid attr.eid = []
        ∨ attr.schema.many = true) :
    ∃ l, exec (add eid attr v) g w
          = (.ok (), { w with ledger := l })
      ∧ w.ledger.Gains l [(eid, attr.eid, v)] := by
  rw [exec_add, exec_change, Ledger.add_of_new hNew hRoom]
  exact ⟨_, rfl, Ledger.gains_append _ rfl⟩

/- Entering a field of an entity that has no such field yet. -/
theorem exec_field
    (hKeeps : g.db.KeepsBootstrap)
    {name : String}
    (hName : name ∈ storedFields)
    (hNone :
      ∀ d ∈ w.ledger.datoms,
        d.entity = eid → d.attr ≠ idOf (.str name))
    (v : Value) :
    ∃ l, exec (applyEntry eid (.str name) v) g w
          = (.ok (), { w with ledger := l })
      ∧ w.ledger.Gains l [(eid, idOf (.str name), v)] := by
  have hForm :
      ∀ name ∈ storedFields,
        (name == "db/id") = false
          ∧ Keyword.isKeyword name = true
          ∧ (Keyword.forward name == name) = true := by
    decide +kernel
  rcases hForm name hName with ⟨hNotId, hKeyword, hForward⟩
  rcases exists_attribute_of_field hName with
    ⟨a, ha, rfl, hId, hOne, hPlain⟩
  have hEntry :
      applyEntry eid (.str a.1.ident) v
        = onValues add eid (.str a.1.ident) v := by
    simp [applyEntry, hNotId, hKeyword, hForward]
  have hValues : values a.1 v = pure [v] := by
    simp [values, hPlain, spread, hOne]
  have hAbout : w.ledger.about eid a.2 = [] := by
    refine List.filter_eq_nil_iff.mpr ?_
    intro d hd hBoth
    rw [Bool.and_eq_true, beq_iff_eq, beq_iff_eq] at hBoth
    exact hNone d hd hBoth.1 (hBoth.2.trans hId)
  have hNew :
      ∀ d ∈ w.ledger.about eid a.2,
        d.value.equals v = .ok false := by
    rw [hAbout]
    exact List.forall_mem_nil _
  rcases exec_add_of_new (g := g) (w := w)
      { eid := a.2, schema := a.1 } hNew (.inl hAbout) with
    ⟨l, hExec, hGains⟩
  refine ⟨l, ?_, hId ▸ hGains⟩
  rw [hEntry, onValues, exec_bind, exec_installed,
    hKeeps.installed ha]
  simp only [hValues, pure_bind, exec_forM_singleton]
  exact hExec

/- Entering different fields, none of which was there. -/
theorem exec_fields
    (hKeeps : g.db.KeepsBootstrap)
    {fields : List (Value × Value)}
    (hTable : Table.OfTexts fields)
    (hNames :
      ∀ f ∈ fields, ∃ name ∈ storedFields, f.1 = .str name)
    (hNone :
      ∀ d ∈ w.ledger.datoms, d.entity = eid →
        ∀ f ∈ fields, d.attr ≠ idOf f.1) :
    ∃ l, exec (fields.forM (fun f => applyEntry eid f.1 f.2))
            g w = (.ok (), { w with ledger := l })
      ∧ w.ledger.Gains l (fieldContents eid fields) := by
  induction fields generalizing w with
  | nil => exact ⟨w.ledger, rfl, .refl _⟩
  | cons f fields ih =>
      rcases f with ⟨k, v⟩
      rcases Table.OfTexts.cons_iff.mp hTable with
        ⟨_, hOther, hRest⟩
      rw [List.forall_mem_cons] at hNames
      rcases hNames with ⟨⟨name, hName, rfl⟩, hNames⟩
      rcases exec_field hKeeps hName
          (fun d hd hEntity =>
            hNone d hd hEntity _ List.mem_cons_self) v with
        ⟨l, hExec, hGains⟩
      -- The new fact is of no later field: their names differ,
      -- and so do their attributes.
      have hLater :
          ∀ d ∈ l.datoms, d.entity = eid →
            ∀ f ∈ fields, d.attr ≠ idOf f.1 := by
        intro d hd hEntity f hf
        rcases hGains.mem hd with hOld | hNew
        · exact
            hNone d hOld hEntity f (List.mem_cons_of_mem _ hf)
        · rcases hNames f hf with ⟨other, hOtherName, hKey⟩
          rcases DatomOf.content_eq_iff.mp
              (List.mem_singleton.mp hNew) with ⟨_, hAttr, _⟩
          rw [hAttr, hKey]
          intro hSame
          refine hOther f hf ?_
          rw [hKey, idOf_field_inj hName hOtherName hSame]
      rcases ih (w := { w with ledger := l }) hRest hNames
          hLater with ⟨l', hExec', hGains'⟩
      refine ⟨l', ?_, hGains.trans hGains'⟩
      change exec (applyEntry eid (.str name) v >>= _) g w = _
      rw [exec_bind, hExec]
      exact hExec'

/- The entry that names the entity of a map does nothing. -/
theorem exec_idEntry (v : Value) :
    exec (applyEntry eid (.str "db/id") v) g w
      = (.ok (), w) := by
  have hEntry :
      applyEntry eid (.str "db/id") v = pure () := by
    simp [applyEntry]
  rw [hEntry]
  rfl

/- Making an entity an attribute. -/
theorem exec_installing
    (hKeeps : g.db.KeepsBootstrap)
    (hNone :
      ∀ d ∈ w.ledger.datoms,
        d.attr = installAttr → d.value.isInt eid = false) :
    ∃ l, exec
            (applyEntry eid (.str "db.install/_attribute")
              (.str TempId.systemPartition)) g w
          = (.ok (), { w with ledger := l })
      ∧ w.ledger.Gains l [(0, installAttr, .int eid)] := by
  have hEntry :
      applyEntry eid (.str "db.install/_attribute")
          (.str TempId.systemPartition)
        = applyBackward eid "db.install/attribute"
          (.str TempId.systemPartition) := by
    have hKeyword :
        Keyword.isKeyword "db.install/_attribute" = true := by
      decide +kernel
    have hForward :
        Keyword.forward "db.install/_attribute"
          = "db.install/attribute" := by
      decide +kernel
    simp [applyEntry, hKeyword, hForward]
  have hListed :
      ∃ a ∈ attributeIds,
        a.1.ident = "db.install/attribute"
          ∧ a.2 = installAttr ∧ a.1.many = true := by
    decide +kernel
  rcases hListed with ⟨a, ha, hIdent, hId, hMany⟩
  have hTarget :
      (g.current w.ledger).resolve (.str TempId.systemPartition)
        = .ok (some 0) :=
    congrArg Except.ok
      (hKeeps.idents (.str TempId.systemPartition, 0)
        List.mem_cons_self)
  have hNew :
      ∀ d ∈ w.ledger.about 0 a.2,
        d.value.equals (.int eid) = .ok false := by
    intro d hd
    rcases Ledger.mem_about.mp hd with ⟨hFact, _, hAttr⟩
    have hSelf : (Value.int eid).isInt eid = true :=
      beq_self_eq_true eid
    rw [Value.equals_of_isInt d.value hSelf,
      hNone d hFact (hAttr.trans hId)]
  rcases exec_add_of_new (g := g) (w := w)
      { eid := a.2, schema := a.1 } hNew
      (.inr hMany) with
    ⟨l, hExec, hGains⟩
  refine ⟨l, ?_, hId ▸ hGains⟩
  rw [hEntry, applyBackward, exec_bind,
    exec_entity_of_ne_tempid (by rintro _ _ ⟨⟩), hTarget]
  simp only
  rw [exec_bind, exec_installed, ← hIdent, hKeeps.installed ha]
  exact hExec

end Transacting

------------------------------------------------------------
-- Entering Definitions
------------------------------------------------------------

/- The ids of the first partition are its serial numbers. -/
theorem Allocator.eid_first (a : Allocator) :
    a.eid 0 = (a.next 0 : Int) := by
  unfold eid EntityId.inPartition
  simp

namespace Schema

/- Maps that install definitions, after ids were drawn. -/
def installations
    (n : Nat)
    (schemas : List Schema) : List Value :=
  (schemas.zipIdx n).map (fun p =>
    .map (p.1.installation (systemAt p.2)))

/- What is done with what was drawn. -/
theorem run_bind_pure
    {α β : Type}
    {x : Drawing α}
    {n m : Nat}
    {a : α}
    (h : x.run n = (.ok a, m))
    (f : α → β) :
    (x >>= fun a => pure (f a)).run n = (.ok (f a), m) := by
  rw [ExceptT.run_bind]
  change StateT.bind x.run _ n = _
  unfold StateT.bind
  rw [h]
  rfl

/- They are what definitions are written as, one by one. -/
theorem run_mapM_toTxData
    (schemas : List Schema)
    (n : Nat) :
    (schemas.mapM toTxData).run n
      = (.ok (installations n schemas), n + schemas.length) := by
  induction schemas generalizing n with
  | nil => rfl
  | cons s schemas ih =>
      let first : Value := .map (s.installation (systemAt n))
      rw [List.mapM_cons]
      change
        (schemas.mapM toTxData >>= fun rest =>
          pure (first :: rest)).run (n + 1) = _
      rw [run_bind_pure (ih (n + 1)) (first :: ·),
        List.length_cons, Nat.add_right_comm, Nat.add_assoc]
      rfl

end Schema

/- What is said to make entities attributes. -/
def installedContents
    (serial : Nat)
    (schemas : List Schema) : List (Int × Int × Value) :=
  (schemas.zipIdx serial).flatMap (fun p => p.1.contents p.2)

/- What is said of an attribute, or what makes it one. -/
theorem Schema.mem_contents_iff
    {s : Schema}
    {eid : Int}
    {c : Int × Int × Value} :
    c ∈ s.contents eid
      ↔ c = (0, installAttr, .int eid)
        ∨ ∃ f ∈ s.stored, c = (eid, idOf f.1, f.2) := by
  unfold contents fieldContents
  rw [List.mem_cons, List.mem_map]
  simp only [eq_comm]

/- By the attribute of a field, nothing is installed. -/
theorem Schema.not_installs_of_mem_stored
    {s : Schema}
    {f : Value × Value}
    (h : f ∈ s.stored) : installs (idOf f.1) = false := by
  have hNot :
      ∀ name ∈ storedFields,
        installs (idOf (.str name)) = false := by
    decide +kernel
  rcases exists_name_of_mem_stored h with ⟨name, hName, hKey⟩
  exact hKey ▸ hNot name hName

/- A fact makes an attribute, or tells of it. -/
theorem Schema.cases_of_content_mem
    {s : Schema}
    {eid : Int}
    {d : Datom}
    (h : d.content ∈ s.contents eid) :
    (d.entity = 0 ∧ d.attr = installAttr
        ∧ d.value = .int eid)
      ∨ d.entity = eid ∧ installs d.attr = false := by
  rcases mem_contents_iff.mp h with hInstalls | ⟨f, hf, hField⟩
  · exact .inl (DatomOf.content_eq_iff.mp hInstalls)
  · rcases DatomOf.content_eq_iff.mp hField with
      ⟨hEntity, hAttr, _⟩
    exact
      .inr ⟨hEntity, hAttr ▸ not_installs_of_mem_stored hf⟩

namespace Transacting

variable {g : Ground}
variable {w : Working}

/-
  A map that installs a definition gives the next id to its
  entity and enters what is stored of the definition.
-/
theorem exec_installation
    (hKeeps : g.db.KeepsBootstrap)
    (hPartition :
      Database.positionOf? (.str TempId.systemPartition)
        g.db.partitions = some 0)
    (s : Schema)
    {n serial : Nat}
    (hNext : w.allocator.next 0 = serial)
    (hPositive : 0 < serial)
    (hNew : Table.find? (systemAt n) w.tempids = none)
    (hFresh :
      ∀ d ∈ w.ledger.datoms,
        d.entity ≠ serial
          ∧ (d.attr = installAttr →
              d.value.isInt serial = false)) :
    ∃ l, exec (applyItem (.map (s.installation (systemAt n))))
            g w
          = (.ok (),
            { w with
              ledger := l
              tempids := w.tempids ++ [(systemAt n, (serial : Int))]
              allocator := w.allocator.take 0 })
      ∧ w.ledger.Gains l (s.contents serial) := by
  let w₁ : Working :=
    { w with
      tempids := w.tempids ++ [(systemAt n, (serial : Int))]
      allocator := w.allocator.take 0 }
  have hEntity :
      exec (entity (systemAt n)) g w
        = (.ok (serial : Int), w₁) := by
    change exec (entityOfTempid (systemAt n) _) g w = _
    rw [exec_entityOfTempid]
    simp only [hNew, hPartition]
    rw [Table.put_of_find?_eq_none hNew, Allocator.eid_first,
      hNext]
  have hField :
      Value.field? (s.installation (systemAt n)) "db/id"
        = some (systemAt n) := by
    simp [Schema.installation_eq, Value.field?, Table.find?]
  have hNotYet :
      ∀ d ∈ w₁.ledger.datoms,
        d.attr = installAttr → d.value.isInt serial = false :=
    fun d hd => (hFresh d hd).2
  rcases exec_installing (g := g) hKeeps hNotYet with
    ⟨l, hExec, hGains⟩
  have hNone :
      ∀ d ∈ l.datoms, d.entity = serial →
        ∀ f ∈ s.stored, d.attr ≠ idOf f.1 := by
    intro d hd hSame
    exfalso
    rcases hGains.mem hd with hOld | hSaid
    · exact (hFresh d hOld).1 hSame
    · rcases DatomOf.content_eq_iff.mp
          (List.mem_singleton.mp hSaid) with ⟨hZero, _, _⟩
      omega
  rcases exec_fields (g := g) (w := { w₁ with ledger := l })
      hKeeps (Schema.ofTexts_stored s)
      (fun f hf => Schema.exists_name_of_mem_stored hf) hNone with
    ⟨l', hExec', hGains'⟩
  refine ⟨l', ?_, hGains.trans hGains'⟩
  change exec (applyMap _) g w = _
  unfold applyMap
  rw [hField]
  change exec (entity (systemAt n) >>= _) g w = _
  rw [exec_bind, hEntity]
  simp only
  rw [Schema.installation_eq]
  change
    exec
      (applyEntry serial (.str "db/id") _ >>= fun _ =>
        applyEntry serial (.str "db.install/_attribute") _
          >>= fun _ =>
            s.stored.forM (fun f => applyEntry serial f.1 f.2))
      g w₁ = _
  rw [exec_bind, exec_idEntry]
  simp only
  rw [exec_bind, hExec]
  exact hExec'

/-
  Maps that install definitions give one id after the other
  and enter what is stored of the definitions.
-/
theorem exec_installations
    (hKeeps : g.db.KeepsBootstrap)
    (hPartition :
      Database.positionOf? (.str TempId.systemPartition)
        g.db.partitions = some 0)
    (schemas : List Schema)
    {n serial : Nat}
    (hNext : w.allocator.next 0 = serial)
    (hPositive : 0 < serial)
    (hNew :
      ∀ i, n ≤ i → Table.find? (systemAt i) w.tempids = none)
    (hFresh :
      ∀ k, serial ≤ k → k < serial + schemas.length →
        ∀ d ∈ w.ledger.datoms,
          d.entity ≠ k
            ∧ (d.attr = installAttr →
                d.value.isInt k = false)) :
    ∃ w', exec
            ((Schema.installations n schemas).forM applyItem)
            g w = (.ok (), w')
      ∧ w.ledger.Gains w'.ledger
          (installedContents serial schemas)
      ∧ w'.tempids
          = w.tempids
            ++ (List.range schemas.length).map (fun i =>
              (systemAt (n + i), ((serial + i : Nat) : Int))) := by
  induction schemas generalizing w n serial with
  | nil => exact ⟨w, rfl, .refl _, (List.append_nil _).symm⟩
  | cons s schemas ih =>
      rcases exec_installation hKeeps hPartition s hNext
          hPositive (hNew n (Nat.le_refl n))
          (hFresh serial (Nat.le_refl _) (by simp)) with
        ⟨l, hExec, hGains⟩
      have hLaterNew :
          ∀ i, n + 1 ≤ i →
            Table.find? (systemAt i)
              (w.tempids ++ [(systemAt n, (serial : Int))])
                = none := by
        intro i hi
        have hOther : ¬(systemAt n).same (systemAt i) = true :=
          fun hSame => by
            have hEq := TempId.eq_of_same_systemAt hSame
            omega
        rw [Table.find?_append, hNew i (by omega), Table.find?,
          if_neg hOther]
        rfl
      -- The facts of one map leave the ids after its own fresh.
      have hLaterFresh :
          ∀ k, serial + 1 ≤ k →
            k < serial + 1 + schemas.length →
              ∀ d ∈ l.datoms,
                d.entity ≠ k
                  ∧ (d.attr = installAttr →
                      d.value.isInt k = false) := by
        intro k hk hBound d hd
        rcases hGains.mem hd with hOld | hSaid
        · refine hFresh k (by omega) ?_ d hOld
          rw [List.length_cons]
          omega
        · rcases Schema.cases_of_content_mem hSaid with
            ⟨hEntity, _, hValue⟩ | ⟨hEntity, hNot⟩
          · refine ⟨by omega, fun _ => ?_⟩
            rw [hValue, Value.isInt, beq_eq_false_iff_ne]
            omega
          · refine ⟨by omega, ?_⟩
            intro hInstalls
            rw [hInstalls] at hNot
            cases hNot
      rcases ih
          (w :=
            { w with
              ledger := l
              tempids := w.tempids ++ [(systemAt n, (serial : Int))]
              allocator := w.allocator.take 0 })
          (by rw [Allocator.next_take_self, hNext])
          (Nat.succ_pos serial) hLaterNew hLaterFresh with
        ⟨w', hExec', hGains', hTempids⟩
      refine ⟨w', ?_, ?_, ?_⟩
      · change exec (applyItem _ >>= _) g w = _
        rw [exec_bind, hExec]
        exact hExec'
      · exact hGains.trans hGains'
      · rw [hTempids, List.length_cons, List.range_succ_eq_map]
        simp [Nat.add_comm, Nat.add_left_comm]

end Transacting

end FactBase
