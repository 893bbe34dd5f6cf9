import FactBase.Proofs.Answer.Reading

/-
  This file shows that an entity and a pull gather facts in
  groups, one for each ident: what cannot stand together with
  anything is shown by itself, and many values are shown in a
  set or in a list.

  Key definitions include:
    * `underIdent`
    * `shownGroup`
    * `Groups`
    * `Together`
    * `Database.IdentsDiffer`
    * `Database.IdentsApart`
    * `Database.ofAttr`

  Key theorems include:
    * `Groups.exists_run_foldlM`
    * `Database.groups_showDescribed`
    * `Database.groups_pullDescribed`
    * `Database.underIdent_described`
-/

------------------------------------------------------------
-- Tables
------------------------------------------------------------

namespace FactBase

namespace Table

variable {α : Type}

/- A key that is not in the first part goes to the second. -/
theorem put_append_of_find?_eq_none
    {key : Value}
    {start : List (Value × α)}
    (h : find? key start = none)
    (x : α)
    (rest : List (Value × α)) :
    put key x (start ++ rest) = start ++ put key x rest := by
  induction start with
  | nil => rfl
  | cons e start ih =>
      rcases e with ⟨k, y⟩
      by_cases hk : k.same key = true
      · simp [find?, hk] at h
      · rw [find?, if_neg hk] at h
        rw [List.cons_append, put, if_neg hk, ih h]
        rfl

end Table

------------------------------------------------------------
-- Facts under One Ident
------------------------------------------------------------

/- The facts whose attributes have an ident. -/
def underIdent
    (ident : String)
    (facts : List Described) : List Described :=
  facts.filter (fun p => p.1.ident == ident)

/- One more fact comes last, or it is of another ident. -/
theorem underIdent_append_singleton
    (ident : String)
    (facts : List Described)
    (p : Described) :
    underIdent ident (facts ++ [p])
      = if p.1.ident == ident then underIdent ident facts ++ [p]
        else underIdent ident facts := by
  unfold underIdent
  rw [List.filter_append, List.filter_singleton]
  cases p.1.ident == ident <;> simp

/-
  What is shown of all facts under an ident: their collection,
  or the only one of them.
-/
def shownGroup
    (one : Described → Shown)
    (all : List Described → Shown) :
    List Described → Option Shown
  | [] => none
  | p :: facts =>
      some (if p.1.many then all (p :: facts) else one p)

/- Something is shown where there is a fact. -/
theorem isSome_shownGroup_iff
    {one : Described → Shown}
    {all : List Described → Shown}
    {facts : List Described} :
    (shownGroup one all facts).isSome = true ↔
      ∃ p, p ∈ facts := by
  cases facts <;> simp [shownGroup]

/- Facts that are of many are shown by their collection. -/
theorem shownGroup_of_many
    {one : Described → Shown}
    {all : List Described → Shown}
    {facts : List Described}
    (h : ∀ p ∈ facts, p.1.many = true)
    (hSome : facts ≠ []) :
    shownGroup one all facts = some (all facts) := by
  cases facts with
  | nil => exact absurd rfl hSome
  | cons p facts =>
      rw [shownGroup, if_pos (h p List.mem_cons_self)]

/- Without a fact their collection is empty. -/
theorem getD_shownGroup
    {one : Described → Shown}
    {all : List Described → Shown}
    {facts : List Described}
    (h : ∀ p ∈ facts, p.1.many = true) :
    (shownGroup one all facts).getD (all []) = all facts := by
  by_cases hNone : facts = []
  · subst hNone
    rfl
  · rw [shownGroup_of_many h hNone]
    rfl

/-
  A way to enter facts in a table under the idents of their
  attributes.  A lone value is put there by itself, and one of
  many joins the collection of those before it, provided that
  it fits and is apart from each of them.
-/
structure Groups
    (step :
      List (Value × Shown) → Described →
        Gathering (List (Value × Shown)))
    (one : Described → Shown)
    (all : List Described → Shown)
    (Fits : Described → Prop)
    (Apart : Described → Described → Prop) : Prop where
  alone :
    ∀ p, p.1.many = false → ∀ entries g,
      (step entries p).run.run g
        = (.ok (Table.put (.str p.1.ident) (one p) entries), g)
  joins :
    ∀ p, p.1.many = true → Fits p →
      ∀ facts, (∀ q ∈ facts, Apart q p) → ∀ entries,
        (Table.find? (.str p.1.ident) entries).getD (all [])
            = all facts → ∀ g,
          (step entries p).run.run g
            = (.ok
                (Table.put (.str p.1.ident)
                  (all (facts ++ [p])) entries), g)

section Groups

variable
  {step :
    List (Value × Shown) → Described →
      Gathering (List (Value × Shown))}
variable {one : Described → Shown}
variable {all : List Described → Shown}
variable {Fits : Described → Prop}
variable {Apart : Described → Described → Prop}

/-
  Facts under one ident can stand together: both are of many,
  and they are apart.
-/
def Together
    (Apart : Described → Described → Prop)
    (q p : Described) : Prop :=
  q.1.ident = p.1.ident →
    q.1.many = true ∧ p.1.many = true ∧ Apart q p

/- One more fact is put to those that stand together with it. -/
private theorem Groups.run_step
    (h : Groups step one all Fits Apart)
    {facts : List Described}
    {p : Described}
    (hFits : p.1.many = true → Fits p)
    (hPairs : ∀ q ∈ facts, Together Apart q p)
    {entries : List (Value × Shown)}
    (hFound :
      Table.find? (.str p.1.ident) entries
        = shownGroup one all (underIdent p.1.ident facts))
    (g : Growths) :
    ∃ shown,
      (step entries p).run.run g
          = (.ok (Table.put (.str p.1.ident) shown entries), g)
        ∧ shownGroup one all
            (underIdent p.1.ident facts ++ [p]) = some shown := by
  have hGroup :
      ∀ q ∈ underIdent p.1.ident facts,
        q.1.many = true ∧ p.1.many = true ∧ Apart q p := by
    intro q hq
    rcases List.mem_filter.mp hq with ⟨hMem, hIdent⟩
    exact hPairs q hMem (beq_iff_eq.mp hIdent)
  cases hMany : p.1.many with
  | false =>
      have hNone : underIdent p.1.ident facts = [] := by
        rw [List.eq_nil_iff_forall_not_mem]
        intro q hq
        rw [(hGroup q hq).2.1] at hMany
        cases hMany
      refine ⟨one p, h.alone p hMany entries g, ?_⟩
      rw [hNone, List.nil_append, shownGroup,
        if_neg (by simp [hMany])]
  | true =>
      have hAll :
          ∀ q ∈ underIdent p.1.ident facts ++ [p],
            q.1.many = true :=
        forall_mem_append_singleton.mpr
          ⟨fun q hq => (hGroup q hq).1, hMany⟩
      refine
        ⟨_, h.joins p hMany (hFits hMany)
          (underIdent p.1.ident facts)
          (fun q hq => (hGroup q hq).2.2) entries ?_ g, ?_⟩
      · rw [hFound]
        exact getD_shownGroup fun q hq => (hGroup q hq).1
      · exact shownGroup_of_many hAll (by simp)

/-
  Facts that can stand together are entered behind what is
  there under other keys: under each ident then stands what is
  shown of its facts, and nothing else has grown.
-/
theorem Groups.exists_run_foldlM
    (h : Groups step one all Fits Apart)
    {facts : List Described}
    (hFits : ∀ p ∈ facts, p.1.many = true → Fits p)
    (hPairs : facts.Pairwise (Together Apart))
    {start : List (Value × Shown)}
    (hStart :
      ∀ p ∈ facts,
        Table.find? (.str p.1.ident) start = none)
    (g : Growths) :
    ∃ table,
      (facts.foldlM step start).run.run g
          = (.ok (start ++ table), g)
        ∧ Table.OfTexts table
        ∧ ∀ ident,
            Table.find? (.str ident) table
              = shownGroup one all (underIdent ident facts) := by
  -- What comes last is put to the facts before it.
  induction facts using List.reverseRecOn with
  | nil =>
      exact
        ⟨[], by rw [List.append_nil]; rfl, .nil, fun _ => rfl⟩
  | append_singleton facts p ih =>
      rw [forall_mem_append_singleton] at hFits hStart
      rw [pairwise_append_singleton] at hPairs
      rcases ih hFits.1 hPairs.1 hStart.1 with
        ⟨table, hRun, hTexts, hFound⟩
      have hThere :
          Table.find? (.str p.1.ident) (start ++ table)
            = shownGroup one all
                (underIdent p.1.ident facts) := by
        rw [Table.find?_append, hStart.2, Option.none_or, hFound]
      rcases h.run_step hFits.2 hPairs.2 hThere g with
        ⟨shown, hStep, hShown⟩
      refine
        ⟨Table.put (.str p.1.ident) shown table, ?_,
          hTexts.put _ _, ?_⟩
      · rw [List.foldlM_append, Gathering.run_bind, hRun]
        simp only [List.foldlM_cons, List.foldlM_nil, bind_pure]
        rw [hStep, Table.put_append_of_find?_eq_none hStart.2]
      · intro ident
        rw [Table.find?_put_str, underIdent_append_singleton,
          hFound]
        split
        next hSame =>
          rw [← beq_iff_eq.mp hSame, hShown]
        next => rfl

end Groups

/- Facts that stand together do so by any weaker relation. -/
theorem Together.mono
    {R S : Described → Described → Prop}
    {q p : Described}
    (h : Together R q p)
    (hWeaker : R q p → S q p) : Together S q p := by
  intro hIdent
  rcases h hIdent with ⟨hLeft, hRight, hApart⟩
  exact ⟨hLeft, hRight, hWeaker hApart⟩

------------------------------------------------------------
-- Entities and Pulls
------------------------------------------------------------

namespace Database

variable {db : Database}

/- An entity shows facts in groups, those of many in sets. -/
theorem groups_showDescribed (db : Database) :
    Groups db.showDescribed
      (fun p => .one (db.shown p.1 p.2))
      (fun facts =>
        .fresh (.set
          (facts.map (fun p => (db.shown p.1 p.2).value))))
      (fun p => (db.shown p.1 p.2).value.hashable = true)
      (fun q p =>
        (db.shown q.1 q.2).value.same (db.shown p.1 p.2).value
          = false) where
  alone := by
    intro p hOne entries g
    unfold showDescribed
    rw [if_neg (by simp [hOne])]
    rfl
  joins := by
    intro p hMany hHashable facts hApart entries hFound g
    have hNew :
        (db.shown p.1 p.2).value.memberOf
            (facts.map (fun p => (db.shown p.1 p.2).value))
          = false := by
      simpa [Value.memberOf] using hApart
    unfold showDescribed addToSet
    rw [if_pos hMany]
    simp only [Shown.fresh, Held.fresh, List.map_nil] at hFound
    simp only [Shown.fresh, Held.fresh, hFound, if_pos hHashable,
      Value.adding, hNew, Bool.false_eq_true, if_false,
      List.map_append, List.map_singleton]
    rfl

/- A pull shows facts in groups, those of many in lists. -/
theorem groups_pullDescribed :
    Groups pullDescribed
      (fun p => pulledFlat p.1 p.2)
      (fun facts =>
        .list (facts.map (fun p => pulledFlat p.1 p.2)))
      (fun _ => True) (fun _ _ => True) where
  alone := by
    intro p hOne entries g
    unfold pullDescribed addPulled
    simp only [hOne, Bool.false_eq_true, if_false]
    rfl
  joins := by
    intro p hMany _ facts _ entries hFound g
    rw [List.map_nil] at hFound
    unfold pullDescribed addPulled
    simp only [hMany, if_true, hFound, List.map_append,
      List.map_singleton]
    rfl

------------------------------------------------------------
-- Facts of One Attribute
------------------------------------------------------------

/- Attributes have idents of their own. -/
def IdentsDiffer (db : Database) : Prop :=
  db.attributes.Pairwise (fun a b => a.2.ident ≠ b.2.ident)

/- An ident tells which attribute has it. -/
theorem IdentsDiffer.eq_of_ident
    (h : db.IdentsDiffer)
    {attr attr' : Int}
    {s s' : Schema}
    (hAttr : db.schemaOf? attr = some s)
    (hAttr' : db.schemaOf? attr' = some s')
    (hIdent : s.ident = s'.ident) : attr = attr' := by
  rcases Table.mem_of_find? hAttr with ⟨k, hMem, hKey⟩
  rcases Table.mem_of_find? hAttr' with ⟨k', hMem', hKey'⟩
  have hNodup :
      (db.attributes.map (fun a => a.2.ident)).Nodup :=
    List.pairwise_map.mpr h
  have hEntry : (k, s) = (k', s') :=
    List.inj_on_of_nodup_map hNodup hMem hMem' hIdent
  have hKeys : k = k' := congrArg Prod.fst hEntry
  rw [Value.same_int_right] at hKey hKey'
  rw [← hKeys] at hKey'
  exact Value.eq_of_isInt hKey hKey'

/- Attributes have idents of their own, none that of the id. -/
structure IdentsApart (db : Database) : Prop where
  distinct :
    db.attributes.Pairwise (fun a b => a.2.ident ≠ b.2.ident)
  own : ∀ a ∈ db.attributes, a.2.ident ≠ "db/id"

/- So an ident tells which attribute has it. -/
theorem IdentsApart.eq_of_ident
    (h : db.IdentsApart)
    {attr attr' : Int}
    {s s' : Schema}
    (hAttr : db.schemaOf? attr = some s)
    (hAttr' : db.schemaOf? attr' = some s')
    (hIdent : s.ident = s'.ident) : attr = attr' :=
  IdentsDiffer.eq_of_ident h.distinct hAttr hAttr' hIdent

/- The facts of a list that are about an attribute. -/
def ofAttr
    (attr : Int)
    (facts : List Datom) : List Datom :=
  facts.filter (fun d => d.attr == attr)

/- What is described is a fact with its definition. -/
theorem mem_described_iff
    {eid : Value}
    {p : Described} :
    p ∈ db.described eid ↔
      p.2 ∈ db.factsOf eid
        ∧ db.schemaOf? p.2.attr = some p.1 := by
  rcases p with ⟨s, d⟩
  simp only [described, List.mem_filterMap,
    Option.map_eq_some_iff, Prod.mk.injEq]
  constructor
  · rintro ⟨d', hd, s', hSchema, rfl, rfl⟩
    exact ⟨hd, hSchema⟩
  · rintro ⟨hd, hSchema⟩
    exact ⟨d, hd, s, hSchema, rfl, rfl⟩

/- Under the ident of an attribute are the facts about it. -/
theorem underIdent_described
    (h : db.IdentsApart)
    {attr : Int}
    {s : Schema}
    (hAttr : db.schemaOf? attr = some s)
    (eid : Value) :
    underIdent s.ident (db.described eid)
      = (ofAttr attr (db.factsOf eid)).map (fun d => (s, d)) := by
  unfold underIdent described ofAttr
  generalize db.factsOf eid = facts
  induction facts with
  | nil => rfl
  | cons d facts ih =>
      rw [List.filterMap_cons, List.filter_cons]
      cases hSchema : db.schemaOf? d.attr with
      | none =>
          have hOther : d.attr ≠ attr := by
            rintro rfl
            rw [hAttr] at hSchema
            cases hSchema
          rw [if_neg (by simpa using hOther)]
          exact ih
      | some s' =>
          have hSame :
              (s'.ident == s.ident) = (d.attr == attr) := by
            rw [Bool.eq_iff_iff, beq_iff_eq, beq_iff_eq]
            refine ⟨h.eq_of_ident hSchema hAttr, ?_⟩
            rintro rfl
            rw [hAttr] at hSchema
            rw [Option.some.inj hSchema]
          simp only [Option.map_some, List.filter_cons, hSame, ih]
          split
          next hEq =>
            rw [beq_iff_eq] at hEq
            subst hEq
            rw [hAttr] at hSchema
            rw [List.map_cons, Option.some.inj hSchema]
          next => rfl

end Database

end FactBase
