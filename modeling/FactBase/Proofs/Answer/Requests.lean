import FactBase.Proofs.Answer.Grouping

/-
  This file tells what a pull shows by what its pattern asks
  for.  Each element of the pattern asks for facts of the
  entity, for all of them or for those of an attribute, and
  each time a fact is asked for it is answered.  An attribute
  of one value keeps the last answer, but one of many lists
  them all: a fact that is asked for twice is listed twice.
  The same holds of the entities that a pull goes on to.

  Key definitions include:
    * `Request`
    * `Answer`
    * `Database.requests`
    * `Database.timesAsked`
    * `Schema.entry?`
    * `Database.Answered`
    * `Database.Pulled`

  Key theorems include:
    * `Database.length_requests`
    * `Database.Serves.add`
    * `Database.Serves.pullItems`
    * `Database.answered_of_gives`
    * `Database.pulled_of_gives`
-/

------------------------------------------------------------
-- Requests
------------------------------------------------------------

namespace FactBase

open Sorting

/-
  A fact that is asked for, and the pattern for the entity
  that it refers to, which is null if there is none.
-/
structure Request where
  sub : Value
  fact : Datom

/- The request is about an attribute. -/
def Request.isAbout
    (attr : Int)
    (r : Request) : Bool :=
  r.fact.attr == attr

namespace Database

/- What an attribute that is named asks for. -/
def requestsFor
    (db : Database)
    (eid ident sub : Value) : List Request :=
  match db.installed ident with
  | .ok attr =>
      (db.factsAbout eid attr.eid).map (fun d => ⟨sub, d⟩)
  | .error _ => []

/- What one element of a pattern asks for. -/
def requestsOf
    (db : Database)
    (eid : Value) : Value → List Request
  | .str name =>
      if name == "*" then
        (db.factsOf eid).map (fun d => ⟨.null, d⟩)
      else if name == "db/id" then []
      else db.requestsFor eid (.str name) .null
  | .map subs =>
      subs.flatMap (fun e => db.requestsFor eid e.1 e.2)
  | _ => []

/- What a pattern asks for, element by element. -/
def requests
    (db : Database)
    (eid : Value)
    (items : List Value) : List Request :=
  items.flatMap (db.requestsOf eid)

------------------------------------------------------------
-- How Often an Attribute Is Asked For
------------------------------------------------------------

/- A name stands for an attribute. -/
def namesAttr
    (db : Database)
    (attr : Int)
    (ident : Value) : Bool :=
  (db.installed ident).toOption.any (fun a => a.eid == attr)

/- How often an element asks for the facts of an attribute. -/
def timesAskedBy
    (db : Database)
    (attr : Int) : Value → Nat
  | .str name =>
      if name == "*" then 1
      else if name == "db/id" then 0
      else if db.namesAttr attr (.str name) then 1 else 0
  | .map subs => subs.countP (fun e => db.namesAttr attr e.1)
  | _ => 0

/- How often a pattern does. -/
def timesAsked
    (db : Database)
    (attr : Int)
    (items : List Value) : Nat :=
  (items.map (db.timesAskedBy attr)).sum

variable {db : Database}

/- A name asks for the facts of the attribute it stands for. -/
theorem length_requestsFor
    (attr : Int)
    (eid ident sub : Value) :
    ((db.requestsFor eid ident sub).filter
        (Request.isAbout attr)).length
      = (if db.namesAttr attr ident then 1 else 0)
        * (db.factsAbout eid attr).length := by
  unfold requestsFor
  rcases hAttr : db.installed ident with fault | a
  · have hNames : db.namesAttr attr ident = false := by
      rw [namesAttr, hAttr]
      rfl
    simp [hNames]
  · have hNames : db.namesAttr attr ident = (a.eid == attr) := by
      rw [namesAttr, hAttr]
      rfl
    have hKept :
        ((db.factsAbout eid a.eid).map (Request.mk sub)).filter
            (Request.isAbout attr)
          = ((db.factsAbout eid a.eid).filter
              (fun d => d.attr == attr)).map
            (Request.mk sub) := List.filter_map
    rw [hKept, List.length_map, hNames]
    by_cases hSame : a.eid = attr
    · subst hSame
      simp [factsAbout]
    · have hNone :
          (db.factsAbout eid a.eid).filter
              (fun d => d.attr == attr) = [] := by
        rw [List.filter_eq_nil_iff]
        intro d hd hAttr
        have hOf := (List.mem_filter.mp hd).2
        rw [beq_iff_eq] at hOf hAttr
        exact hSame (hOf.symm.trans hAttr)
      simp [hNone, hSame]

/-
  So an element asks for each fact of an attribute as often as
  it asks for the attribute.
-/
theorem length_requestsOf
    (attr : Int)
    (eid item : Value) :
    ((db.requestsOf eid item).filter
        (Request.isAbout attr)).length
      = db.timesAskedBy attr item
        * (db.factsAbout eid attr).length := by
  cases item with
  | str name =>
      rw [requestsOf, timesAskedBy]
      split
      · have hKept :
            ((db.factsOf eid).map (Request.mk .null)).filter
                (Request.isAbout attr)
              = (db.factsAbout eid attr).map
                (Request.mk .null) := List.filter_map
        rw [hKept, List.length_map, Nat.one_mul]
      · split
        · simp
        · exact length_requestsFor attr eid (.str name) .null
  | map subs =>
      rw [requestsOf, timesAskedBy]
      induction subs with
      | nil => simp
      | cons e subs ih =>
          rw [List.flatMap_cons, List.filter_append,
            List.length_append, ih, length_requestsFor,
            List.countP_cons, Nat.add_mul, Nat.add_comm]
  | _ => simp [requestsOf, timesAskedBy]

/- So does a whole pattern. -/
theorem length_requests
    (attr : Int)
    (eid : Value)
    (items : List Value) :
    ((db.requests eid items).filter
        (Request.isAbout attr)).length
      = db.timesAsked attr items
        * (db.factsAbout eid attr).length := by
  unfold requests timesAsked
  induction items with
  | nil => simp
  | cons item items ih =>
      rw [List.flatMap_cons, List.filter_append,
        List.length_append, ih, length_requestsOf,
        List.map_cons, List.sum_cons, Nat.add_mul]

end Database

------------------------------------------------------------
-- Answers
------------------------------------------------------------

/- A request, and what is shown for it. -/
structure Answer extends Request where
  shown : Shown

/- What is shown for the requests about an attribute. -/
def shownAbout
    (attr : Int)
    (answers : List Answer) : List Shown :=
  (answers.filter (fun a => a.isAbout attr)).map Answer.shown

/- One more answer comes last, or it is about another one. -/
theorem shownAbout_append_singleton
    (attr : Int)
    (answers : List Answer)
    (a : Answer) :
    shownAbout attr (answers ++ [a])
      = if a.fact.attr == attr then
          shownAbout attr answers ++ [a.shown]
        else shownAbout attr answers := by
  unfold shownAbout
  rw [List.filter_append, List.filter_singleton]
  change
    (answers.filter (fun a => a.isAbout attr)
      ++ (bif a.fact.attr == attr then [a] else [])).map
        Answer.shown = _
  cases a.fact.attr == attr <;> simp

/-
  How the values of an attribute stand in a map, if there are
  any: in a list if there can be many, otherwise the last one
  by itself.
-/
def Schema.entry?
    (schema : Schema)
    (values : List Shown) : Option Shown :=
  if schema.many then
    if values.isEmpty then none else some (.list values)
  else values.getLast?

namespace Database

variable {db : Database}
variable {schema : Schema}
variable {s : Shown}
variable {entries entries' : List (Value × Shown)}

/- Adding a value leaves what stands under other idents. -/
theorem find?_of_addPulled
    (h : (addPulled schema s entries).Gives entries')
    {ident : String}
    (hOther : schema.ident ≠ ident) :
    Table.find? (.str ident) entries'
      = Table.find? (.str ident) entries := by
  have hPut (x : Shown) :
      Table.find? (.str ident)
          (Table.put (.str schema.ident) x entries)
        = Table.find? (.str ident) entries := by
    rw [Table.find?_put_str, if_neg (by simpa using hOther)]
  unfold addPulled at h
  simp only at h
  split at h
  · split at h
    · rw [Gathering.gives_pure_iff.mp h, hPut]
    · rcases h.of_bind with ⟨_, _, hLast⟩
      rw [Gathering.gives_pure_iff.mp hLast]
    · rcases h.of_bind with ⟨_, _, hLast⟩
      rw [Gathering.gives_pure_iff.mp hLast]
    · exact absurd h Gathering.not_gives_throw
  · rw [Gathering.gives_pure_iff.mp h, hPut]

/- It joins the values of its own attribute. -/
theorem find?_own_of_addPulled
    (h : (addPulled schema s entries).Gives entries')
    {values : List Shown}
    (hFound :
      Table.find? (.str schema.ident) entries
        = schema.entry? values) :
    Table.find? (.str schema.ident) entries'
      = schema.entry? (values ++ [s]) := by
  unfold addPulled at h
  simp only at h
  unfold Schema.entry? at hFound ⊢
  cases hMany : schema.many with
  | false =>
      rw [hMany, if_neg Bool.false_ne_true] at h
      rw [Gathering.gives_pure_iff.mp h, Table.find?_put_str]
      simp
  | true =>
      have hThere :
          (Table.find? (.str schema.ident) entries).getD
              (.list [])
            = .list values := by
        rw [hFound, hMany]
        cases values <;> rfl
      rw [hMany, if_pos rfl, hThere] at h
      rw [Gathering.gives_pure_iff.mp h, Table.find?_put_str]
      simp

/- An answer shows what is pulled for its request. -/
def Answered
    (db : Database)
    (a : Answer) : Prop :=
  ∃ schema, db.schemaOf? a.fact.attr = some schema
    ∧ (pulledBy a.sub (db.pull a.sub) schema a.fact).Gives
      a.shown

/-
  A map shows answers, each under the ident of its attribute,
  if that is not the key of the id.
-/
structure ShowsAnswers
    (db : Database)
    (answers : List Answer)
    (entries : List (Value × Shown)) : Prop where
  answered : ∀ a ∈ answers, db.Answered a
  found :
    ∀ attr schema, db.schemaOf? attr = some schema →
      schema.ident ≠ "db/id" →
        Table.find? (.str schema.ident) entries
          = schema.entry? (shownAbout attr answers)

/- A map serves requests if it shows an answer to each. -/
def Serves
    (db : Database)
    (asked : List Request)
    (entries : List (Value × Shown)) : Prop :=
  ∃ answers, answers.map Answer.toRequest = asked
    ∧ db.ShowsAnswers answers entries

/- Nothing has been asked of the empty map. -/
theorem serves_nil : db.Serves [] [] := by
  refine ⟨[], rfl, nofun, ?_⟩
  intro attr schema _ _
  cases hMany : schema.many <;>
    simp [Schema.entry?, hMany, shownAbout, Table.find?]

variable {asked : List Request}

/- The entry for the id is in the way of no answer. -/
theorem Serves.putId
    (h : db.Serves asked entries)
    (x : Shown) :
    db.Serves asked (Table.put idEntry x entries) := by
  rcases h with ⟨answers, hAsked, hShows⟩
  refine ⟨answers, hAsked, hShows.answered, ?_⟩
  intro attr schema hSchema hIdent
  rw [idEntry, Table.find?_put_str,
    if_neg (by simpa using hIdent.symm)]
  exact hShows.found attr schema hSchema hIdent

/- Adding what is pulled for a request answers it. -/
theorem Serves.add
    (hIdents : db.IdentsDiffer)
    (h : db.Serves asked entries)
    {r : Request}
    (hSchema : db.schemaOf? r.fact.attr = some schema)
    (hPulled :
      (pulledBy r.sub (db.pull r.sub) schema r.fact).Gives s)
    (hAdded : (addPulled schema s entries).Gives entries') :
    db.Serves (asked ++ [r]) entries' := by
  rcases h with ⟨answers, hAsked, hShows⟩
  refine ⟨answers ++ [⟨r, s⟩], by simp [hAsked], ?_, ?_⟩
  · rw [forall_mem_append_singleton]
    exact ⟨hShows.answered, schema, hSchema, hPulled⟩
  · intro attr schema' hSchema' hIdent
    rw [shownAbout_append_singleton]
    by_cases hSame : r.fact.attr = attr
    · subst hSame
      rw [hSchema, Option.some.injEq] at hSchema'
      subst hSchema'
      rw [if_pos (by simp)]
      exact
        find?_own_of_addPulled hAdded
          (hShows.found _ _ hSchema hIdent)
    · rw [if_neg (by simpa using hSame)]
      have hOther : schema.ident ≠ schema'.ident :=
        fun hEq =>
          hSame (hIdents.eq_of_ident hSchema hSchema' hEq)
      rw [find?_of_addPulled hAdded hOther]
      exact hShows.found _ _ hSchema' hIdent

------------------------------------------------------------
-- Walking Along a Pattern
------------------------------------------------------------

/- Without a pattern of its own, a value is not pulled. -/
theorem pulledBy_null
    (further : Held → Gathering Shown)
    (schema : Schema)
    (d : Datom) :
    pulledBy .null further schema d
      = pure (pulledFlat schema d) := by
  unfold pulledBy pulledFlat
  cases schema.isRef <;> rfl

/- Pulling one fact answers for it. -/
theorem Serves.pullFact
    (hIdents : db.IdentsDiffer)
    (h : db.Serves asked entries)
    {d : Datom}
    (hPull : (db.pullFact entries d).Gives entries') :
    db.Serves (asked ++ [⟨.null, d⟩]) entries' := by
  unfold Database.pullFact at hPull
  split at hPull
  next schema hSchema =>
    refine h.add hIdents hSchema ?_ hPull
    rw [pulledBy_null]
    exact Gathering.gives_pure_iff.mpr rfl
  next => exact absurd hPull Gathering.not_gives_throw

/- Pulling an attribute answers for its facts. -/
theorem Serves.pullAttribute
    (hIdents : db.IdentsDiffer)
    (h : db.Serves asked entries)
    {eid : Held}
    {ident sub : Value}
    {further : Schema → Datom → Gathering Shown}
    (hFurther : further = pulledBy sub (db.pull sub))
    (hPull :
      (db.pullAttribute eid ident further entries).Gives
        entries') :
    db.Serves (asked ++ db.requestsFor eid.value ident sub)
      entries' := by
  subst hFurther
  rcases hPull.of_bind with ⟨attr, hAttr, hWalk⟩
  rw [Gathering.gives_lift_iff] at hAttr
  have hRequests :
      db.requestsFor eid.value ident sub
        = (db.factsAbout eid.value attr.eid).map
          (Request.mk sub) := by
    rw [requestsFor, hAttr]
  rw [hRequests]
  refine
    Gathering.Gives.foldlM_induction
      (fun done entries =>
        db.Serves (asked ++ done.map (Request.mk sub)) entries)
      (by simpa using h) ?_ hWalk
  intro done d hd entries entries' hDone hStep
  rcases hStep.of_bind with ⟨s, hPulled, hAdded⟩
  have hSchema : db.schemaOf? d.attr = some attr.schema := by
    rw [beq_iff_eq.mp (List.mem_filter.mp hd).2]
    exact schemaOf?_of_installed hAttr
  rw [List.map_append, ← List.append_assoc]
  exact hDone.add hIdents hSchema hPulled hAdded

/- Pulling what a text asks for answers its requests. -/
theorem Serves.pullNamed
    (hIdents : db.IdentsDiffer)
    (h : db.Serves asked entries)
    {eid : Held}
    {name : String}
    (hPull : (db.pullNamed eid name entries).Gives entries') :
    db.Serves (asked ++ db.requestsOf eid.value (.str name))
      entries' := by
  unfold Database.pullNamed at hPull
  rw [requestsOf]
  split at hPull
  next hAll =>
    rw [if_pos hAll]
    refine
      Gathering.Gives.foldlM_induction
        (fun done entries =>
          db.Serves (asked ++ done.map (Request.mk .null))
            entries)
        (by simpa using h.putId _) ?_ hPull
    intro done d _ entries entries' hDone hStep
    rw [List.map_append, ← List.append_assoc]
    exact hDone.pullFact hIdents hStep
  next hOne =>
    rw [if_neg hOne]
    split at hPull
    next hId =>
      rw [if_pos hId, Gathering.gives_pure_iff.mp hPull,
        List.append_nil]
      exact h.putId _
    next hName =>
      rw [if_neg hName]
      refine h.pullAttribute hIdents ?_ hPull
      funext schema d
      rw [pulledBy_null]

/- So does pulling attributes with patterns of their own. -/
theorem Serves.pullEntries
    (hIdents : db.IdentsDiffer)
    {eid : Held}
    {subs : List (Value × Value)}
    (h : db.Serves asked entries)
    (hPull : (db.pullEntries subs eid entries).Gives entries') :
    db.Serves
      (asked
        ++ subs.flatMap
          (fun e => db.requestsFor eid.value e.1 e.2))
      entries' := by
  induction subs generalizing asked entries with
  | nil =>
      rw [Database.pullEntries] at hPull
      rw [Gathering.gives_pure_iff.mp hPull]
      simpa using h
  | cons e subs ih =>
      rcases e with ⟨ident, sub⟩
      rw [Database.pullEntries] at hPull
      rcases hPull.of_bind with ⟨next, hFirst, hRest⟩
      rw [List.flatMap_cons, ← List.append_assoc]
      exact ih (h.pullAttribute hIdents rfl hFirst) hRest

/- Pulling by one element answers its requests. -/
theorem Serves.pullItem
    (hIdents : db.IdentsDiffer)
    (h : db.Serves asked entries)
    {eid : Held}
    {item : Value}
    (hPull : (db.pullItem item eid entries).Gives entries') :
    db.Serves (asked ++ db.requestsOf eid.value item)
      entries' := by
  cases item with
  | str name =>
      rw [Database.pullItem] at hPull
      exact h.pullNamed hIdents hPull
  | map subs =>
      rw [Database.pullItem] at hPull
      rw [requestsOf]
      exact h.pullEntries hIdents hPull
  | _ =>
      rw [Database.pullItem] at hPull
      · exact absurd hPull Gathering.not_gives_throw
      · simp
      · simp

/- Pulling by all elements answers all requests. -/
theorem Serves.pullItems
    (hIdents : db.IdentsDiffer)
    {eid : Held}
    {items : List Value}
    (h : db.Serves asked entries)
    (hPull : (db.pullItems items eid entries).Gives entries') :
    db.Serves (asked ++ db.requests eid.value items)
      entries' := by
  induction items generalizing asked entries with
  | nil =>
      rw [Database.pullItems] at hPull
      rw [Gathering.gives_pure_iff.mp hPull]
      simpa [requests] using h
  | cons item items ih =>
      rw [Database.pullItems] at hPull
      rcases hPull.of_bind with ⟨next, hFirst, hRest⟩
      have hAll := ih (h.pullItem hIdents hFirst) hRest
      rwa [List.append_assoc] at hAll

------------------------------------------------------------
-- All Levels
------------------------------------------------------------

/-
  What a pull of an entity by a pattern shows.  There is an
  answer to each request of the pattern, in order, so that an
  attribute has its facts as often as it was asked for, and
  under its ident stand the answers about it.  A value that is
  not pulled further is shown as it is, and one that is pulled
  further is what a pull shows again.
-/
inductive Pulled (db : Database) :
    Value → Held → Shown → Prop where
  | of_answers
      {pattern : Value}
      {eid : Held}
      {items : List Value}
      {entries : List (Value × Shown)}
      (answers : List Answer)
      (hItems : pattern.sequence? = some items)
      (hAsked :
        answers.map Answer.toRequest
          = db.requests eid.value items)
      (hCount :
        ∀ attr,
          (shownAbout attr answers).length
            = db.timesAsked attr items
              * (db.factsAbout eid.value attr).length)
      (hFound :
        ∀ attr schema, db.schemaOf? attr = some schema →
          schema.ident ≠ "db/id" →
            Table.find? (.str schema.ident) entries
              = schema.entry? (shownAbout attr answers))
      (hFlat :
        ∀ a ∈ answers, ∀ schema,
          db.schemaOf? a.fact.attr = some schema →
            schema.isRef = false ∨ a.sub = .null →
              a.shown = pulledFlat schema a.fact)
      (hFurther :
        ∀ a ∈ answers, db.isRef a.fact.attr = true →
          a.sub ≠ .null →
            Pulled db a.sub (.ofDatom a.fact) a.shown) :
      Pulled db pattern eid (.map entries)

/- As often as it is asked for, an attribute is shown. -/
theorem length_shownAbout
    {eid : Value}
    {items : List Value}
    {answers : List Answer}
    (hAsked :
      answers.map Answer.toRequest = db.requests eid items)
    (attr : Int) :
    (shownAbout attr answers).length
      = db.timesAsked attr items
        * (db.factsAbout eid attr).length := by
  have hKept :
      (answers.map Answer.toRequest).filter
          (Request.isAbout attr)
        = (answers.filter (fun a => a.isAbout attr)).map
          Answer.toRequest := List.filter_map
  rw [← length_requests, ← hAsked, hKept, List.length_map,
    shownAbout, List.length_map]

/- What is not pulled further is shown as it is. -/
theorem Answered.shown_eq_flat
    {a : Answer}
    (h : db.Answered a)
    (hSchema : db.schemaOf? a.fact.attr = some schema)
    (hFlat : schema.isRef = false ∨ a.sub = .null) :
    a.shown = pulledFlat schema a.fact := by
  rcases h with ⟨schema', hSchema', hGives⟩
  rw [hSchema, Option.some.injEq] at hSchema'
  subst hSchema'
  rcases hFlat with hRef | hNull
  · have hPlain :
        pulledBy a.sub (db.pull a.sub) schema a.fact
          = pure (pulledFlat schema a.fact) := by
      unfold pulledBy pulledFlat
      rw [hRef]
      rfl
    rw [hPlain] at hGives
    exact Gathering.gives_pure_iff.mp hGives
  · rw [hNull, pulledBy_null] at hGives
    exact Gathering.gives_pure_iff.mp hGives

/- What is pulled further is what a pull gives. -/
theorem Answered.gives_pull
    {a : Answer}
    (h : db.Answered a)
    (hRef : db.isRef a.fact.attr = true)
    (hSub : a.sub ≠ .null) :
    (db.pull a.sub (.ofDatom a.fact)).Gives a.shown := by
  rcases h with ⟨schema, hSchema, hGives⟩
  have hOf : schema.isRef = true := by
    rw [isRef, hSchema] at hRef
    exact hRef
  have hFurther :
      pulledBy a.sub (db.pull a.sub) schema a.fact
        = db.pull a.sub (.ofDatom a.fact) := by
    unfold pulledBy
    rw [hOf]
    cases hCase : a.sub <;> first | rfl | exact absurd hCase hSub
  rwa [hFurther] at hGives

/- The patterns in requests stand in the pattern. -/
theorem sub_of_mem_requestsOf
    {eid item : Value}
    {r : Request}
    (h : r ∈ db.requestsOf eid item)
    (hSub : r.sub ≠ .null) : r.sub ∈ item.parts := by
  have hNamed
      {ident sub : Value}
      (hMem : r ∈ db.requestsFor eid ident sub) :
      r.sub = sub := by
    unfold requestsFor at hMem
    split at hMem
    · rcases List.mem_map.mp hMem with ⟨d, _, rfl⟩
      rfl
    · cases hMem
  cases item with
  | str name =>
      rw [requestsOf] at h
      split at h
      · rcases List.mem_map.mp h with ⟨d, _, rfl⟩
        exact absurd rfl hSub
      · split at h
        · cases h
        · exact absurd (hNamed h) hSub
  | map subs =>
      rw [requestsOf] at h
      rcases List.mem_flatMap.mp h with ⟨e, he, hMem⟩
      rw [hNamed hMem]
      exact List.mem_append_right _ (List.mem_map_of_mem he)
  | _ => simp [requestsOf] at h

/-
  A pattern that is pulled by is a sequence, and the elements
  that it asks by are its parts.
-/
theorem exists_pullItems_of_gives
    {pattern : Value}
    {eid : Held}
    (h : (db.pull pattern eid).Gives s) :
    pattern.sequence? = some pattern.parts
      ∧ ∃ entries,
        (db.pullItems pattern.parts eid []).Gives entries
          ∧ s = .map entries := by
  cases pattern with
  | list items =>
      rw [Database.pull] at h
      rcases h.of_bind with ⟨entries, hPull, hLast⟩
      exact
        ⟨rfl, entries, hPull, Gathering.gives_pure_iff.mp hLast⟩
  | tuple items =>
      rw [Database.pull] at h
      rcases h.of_bind with ⟨entries, hPull, hLast⟩
      exact
        ⟨rfl, entries, hPull, Gathering.gives_pure_iff.mp hLast⟩
  | _ =>
      rw [Database.pull] at h
      · exact absurd h Gathering.not_gives_throw
      · simp
      · simp

/-
  One level of a pull is answered by its elements, once all
  that their patterns give is known.
-/
theorem pulled_of_pullItems
    (hIdents : db.IdentsDiffer)
    {pattern : Value}
    {eid : Held}
    {items : List Value}
    (hItems : pattern.sequence? = some items)
    (hPull : (db.pullItems items eid []).Gives entries)
    (hFurther :
      ∀ item ∈ items, ∀ sub ∈ item.parts, ∀ eid s,
        (db.pull sub eid).Gives s → db.Pulled sub eid s) :
    db.Pulled pattern eid (.map entries) := by
  rcases serves_nil.pullItems hIdents hPull with
    ⟨answers, hAsked, hShows⟩
  rw [List.nil_append] at hAsked
  refine
    .of_answers answers hItems hAsked
      (length_shownAbout hAsked) hShows.found
      (fun a ha _ => (hShows.answered a ha).shown_eq_flat) ?_
  intro a ha hRef hSub
  have hMem : a.toRequest ∈ db.requests eid.value items := by
    rw [← hAsked]
    exact List.mem_map_of_mem ha
  rcases List.mem_flatMap.mp hMem with ⟨item, hItem, hOf⟩
  exact
    hFurther item hItem a.sub (sub_of_mem_requestsOf hOf hSub)
      _ _ ((hShows.answered a ha).gives_pull hRef hSub)

/-
  The values of an attribute that a pull shows are its facts,
  each as often as the pattern asks for the attribute: where
  it names an attribute of many twice, or once besides asking
  for all, each of its facts is listed twice.  So the list has
  as many entries as there are facts exactly if the attribute
  is asked for once, at this level and at all below it.
-/
theorem pulled_of_gives
    (hIdents : db.IdentsDiffer)
    {pattern : Value}
    {eid : Held}
    (h : (db.pull pattern eid).Gives s) :
    db.Pulled pattern eid s := by
  -- The patterns in a pattern are parts of its elements.
  have hBoth :
      (∀ eid s, (db.pull pattern eid).Gives s →
          db.Pulled pattern eid s)
        ∧ ∀ sub ∈ pattern.parts, ∀ eid s,
          (db.pull sub eid).Gives s → db.Pulled sub eid s := by
    clear h
    induction pattern using Value.inductionOnParts with
    | h pattern ih =>
        refine ⟨?_, fun sub hSub => (ih sub hSub).1⟩
        intro eid s hGives
        rcases exists_pullItems_of_gives hGives with
          ⟨hItems, entries, hPull, rfl⟩
        exact
          pulled_of_pullItems hIdents hItems hPull
            (fun item hItem => (ih item hItem).2)
  exact hBoth.1 eid s h

/-
  A pattern that asks for the partitions twice, once with all
  attributes and once with a pattern for their idents.
-/
def partitionsTwice : Value :=
  .list
    [ .str "*"
    , .map
        [ (.str "db.install/partition",
            .list [.str "db/ident"]) ] ]

/- There are three partitions, but six are listed. -/
theorem pulled_partitionsTwice :
    ∃ entries values,
      ((Bootstrap.database 0).pull partitionsTwice
          (.fresh (.int 0))).Gives (.map entries)
        ∧ (Bootstrap.database 0).Pulled partitionsTwice
          (.fresh (.int 0)) (.map entries)
        ∧ Table.find? (.str "db.install/partition") entries
          = some (.list values)
        ∧ values.length = 6
        ∧ ((Bootstrap.database 0).factsAbout
            (.int 0) 20).length = 3 := by
  have hIdents : (Bootstrap.database 0).IdentsDiffer := by
    unfold IdentsDiffer
    decide +kernel
  have hSucceeds :
      (((Bootstrap.database 0).pull partitionsTwice
        (.fresh (.int 0))).run.run []).1.toOption.isSome
          = true := by
    decide +kernel
  rcases hRun :
      ((Bootstrap.database 0).pull partitionsTwice
        (.fresh (.int 0))).run.run [] with ⟨fault | s, g⟩
  · rw [hRun] at hSucceeds
    cases hSucceeds
  have hGives :
      ((Bootstrap.database 0).pull partitionsTwice
        (.fresh (.int 0))).Gives s := ⟨[], g, hRun⟩
  have hPulled := pulled_of_gives hIdents hGives
  have hSchema :
      ((Bootstrap.database 0).schemaOf? 20).any (fun schema =>
        schema.ident == "db.install/partition" && schema.many)
        = true := by
    decide +kernel
  rcases (Option.any_eq_true _ _).mp hSchema with
    ⟨schema, hOf, hBoth⟩
  rw [Bool.and_eq_true, beq_iff_eq] at hBoth
  cases hPulled with
  | @of_answers _ _ items entries answers hItems _ hCount
      hFound _ _ =>
      have hOwn := hFound 20 schema hOf (by rw [hBoth.1]; decide)
      have hSix : (shownAbout 20 answers).length = 6 := by
        rw [hCount, ← Option.some.inj hItems]
        decide +kernel
      have hSome : (shownAbout 20 answers).isEmpty = false := by
        rw [List.isEmpty_eq_false_iff]
        intro hNone
        rw [hNone] at hSix
        cases hSix
      rw [hBoth.1, Schema.entry?, hBoth.2, if_pos rfl, hSome,
        if_neg Bool.false_ne_true] at hOwn
      exact
        ⟨entries, shownAbout 20 answers, hGives,
          pulled_of_gives hIdents hGives, hOwn, hSix,
          by decide +kernel⟩

end Database

end FactBase
