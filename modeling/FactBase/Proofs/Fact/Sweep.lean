import Mathlib.Data.List.Perm.Basic
import FactBase.Proofs.Fact.Retraction
import FactBase.Proofs.Outcome

/-
  This file shows what is left of a ledger after an entity was
  retracted with all its parts.  The parts are looked up while
  facts go, so that some of them are found missing; but then
  they were met before.

  Key definitions include:
    * `Database.HasPart`
    * `Database.involves`
    * `Ledger.Swept`
    * `Ledger.Underway`

  Key theorems include:
    * `Ledger.sweep_eq`
    * `Ledger.retractEntities_cons`
    * `Ledger.Underway.sweep`
    * `Ledger.retractEntities_eq`
-/

------------------------------------------------------------
-- Parts
------------------------------------------------------------

namespace FactBase

open Sorting

namespace Database

/-
  The parts of an entity by given facts: itself, and the
  values that its parts have for attributes whose values are
  parts.
-/
inductive HasPart
    (db : Database)
    (datoms : List Datom)
    (whole : Int) : Int → Prop where
  | self : HasPart db datoms whole whole
  | part
      {d : Datom}
      {n : Int}
      (hFact : d ∈ datoms)
      (hEntity : HasPart db datoms whole d.entity)
      (hComponent : db.isComponent d.attr = true)
      (hValue : d.value.isInt n = true) :
      HasPart db datoms whole n

/- What has an entity and parts of all it has, has its parts. -/
theorem HasPart.mem_of_closed
    {db : Database}
    {datoms : List Datom}
    {whole n : Int}
    {parts : List Int}
    (hWhole : whole ∈ parts)
    (hClosed :
      ∀ d ∈ datoms, d.entity ∈ parts →
        db.isComponent d.attr = true →
          ∀ m, d.value.isInt m = true → m ∈ parts)
    (h : db.HasPart datoms whole n) : n ∈ parts := by
  induction h with
  | self => exact hWhole
  | part hFact _ hComponent hValue ih =>
      exact hClosed _ hFact ih hComponent _ hValue

/- The fact is about an entity or refers to it. -/
def involves
    (db : Database)
    (entity : Int)
    (d : Datom) : Bool :=
  d.entity == entity
    || (db.isRef d.attr && d.value.isInt entity)

end Database

/- What passes one test, then what passes only the other. -/
private theorem filter_append_filter_perm
    {α : Type}
    (p q : α → Bool)
    (xs : List α) :
    (xs.filter p ++ (xs.filter (fun x => !p x)).filter q).Perm
      (xs.filter (fun x => p x || q x)) := by
  have hSplit :=
    List.filter_append_perm p (xs.filter (fun x => p x || q x))
  rw [List.filter_filter, List.filter_filter] at hSplit
  rw [List.filter_filter]
  convert hSplit using 4 with x x
  · cases p x <;> simp
  · cases p x <;> simp

namespace Ledger

variable {db : Database}
variable {tx : Int}
variable {l swept : Ledger}
variable {v : Value}
variable {n : Int}

------------------------------------------------------------
-- One Entity
------------------------------------------------------------

/- All facts that pass a test go if none is undefined. -/
theorem retractAll_filter_of_defined
    {p : Datom → Bool}
    (hDefined : ∀ d ∈ l.datoms, d.value.isUndefined = false)
    (h :
      ∀ c ∈ l.datoms, p c = false →
        ∀ d ∈ l.datoms, p d = true →
          d.value.states d.entity d.attr c = .ok false) :
    l.retractAll tx (l.datoms.filter p)
      = .ok
        { datoms := l.datoms.filter (fun d => !p d)
          log :=
            l.log ++ (l.datoms.filter p).map
              (·.retraction tx) } := by
  have hGoes : ∀ d ∈ l.datoms, d.goesWith p = p d := by
    intro d hd
    rw [DatomOf.goesWith, hDefined d hd]
    simp
  rw [retractAll_filter, List.filter_congr hGoes,
    List.filter_congr (q := fun d => !p d)]
  · intro d hd
    rw [hGoes d hd]
  · intro c hc hStays
    exact h c hc (by rw [← hGoes c hc]; exact hStays)

/- The facts about the entity that a number names. -/
theorem own_eq
    (hv : v.isInt n = true)
    (l : Ledger) :
    l.own v = l.datoms.filter (fun d => d.entity == n) := by
  unfold own
  congr 1
  funext d
  rw [Bool.eq_iff_iff, beq_iff_eq]
  constructor
  · exact fun h => Value.eq_of_isInt h hv
  · rintro rfl
    exact hv

/- The parts that its own facts give it. -/
theorem mem_components
    (hv : v.isInt n = true)
    {w : Value} :
    w ∈ l.components db v ↔
      ∃ d ∈ l.datoms,
        d.entity = n ∧ db.isComponent d.attr = true
          ∧ d.value = w := by
  rw [components, own_eq hv, List.mem_map]
  simp only [List.mem_filter, beq_iff_eq, and_assoc]

/- The facts that refer to it. -/
theorem references_eq
    (hv : v.isInt n = true)
    (l : Ledger) :
    l.references db v
      = .ok
        (l.datoms.filter
          (fun d => db.isRef d.attr && d.value.isInt n)) := by
  apply Outcome.filterM_eq_ok
  intro d _
  rw [Value.equals_of_isInt d.value hv, ok_bind, Bool.and_comm]
  cases d.value.isInt n <;> rfl

/-
  Sweeping takes out the facts that concern an entity, and
  each of them is in the log.
-/
theorem sweep_eq
    (hv : v.isInt n = true)
    (hDefined : ∀ d ∈ l.datoms, d.value.isUndefined = false) :
    ∃ gone : List Datom,
      l.sweep db tx v
          = .ok
            { datoms :=
                l.datoms.filter (fun d => !db.involves n d)
              log := l.log ++ gone.map (·.retraction tx) }
        ∧ gone.Perm (l.datoms.filter (db.involves n)) := by
  let isOwn : Datom → Bool := fun d => d.entity == n
  let refers : Datom → Bool :=
    fun d => db.isRef d.attr && d.value.isInt n
  let others : Ledger :=
    { datoms := l.datoms.filter (fun d => !isOwn d)
      log :=
        l.log ++ (l.datoms.filter isOwn).map
          (·.retraction tx) }
  have hOwn :
      l.retractAll tx (l.datoms.filter isOwn)
        = .ok others := by
    refine retractAll_filter_of_defined hDefined ?_
    intro c _ hc d _ hd
    refine Value.states_eq_false ?_ _
    intro hEntity
    simp only [isOwn, hEntity] at hc hd
    rw [hd] at hc
    cases hc
  have hRefer :
      others.retractAll tx (others.datoms.filter refers)
        = .ok
          { datoms :=
              others.datoms.filter (fun d => !refers d)
            log :=
              others.log ++ (others.datoms.filter refers).map
                (·.retraction tx) } := by
    refine retractAll_filter_of_defined ?_ ?_
    · intro d hd
      exact hDefined d (List.mem_filter.mp hd).1
    · intro c _ hc d _ hd
      simp only [refers, Bool.and_eq_true] at hd
      by_cases hSame : c.entity = d.entity ∧ c.attr = d.attr
      · rw [Value.states_eq hSame.1 hSame.2,
          Value.equals_of_isInt c.value hd.2]
        simpa [refers, hSame.2, hd.1] using hc
      · exact Value.states_eq_false (by simpa using hSame) _
  refine
    ⟨l.datoms.filter isOwn ++ others.datoms.filter refers, ?_,
      filter_append_filter_perm isOwn refers l.datoms⟩
  rw [sweep, own_eq hv, hOwn, ok_bind, references_eq hv,
    ok_bind, hRefer]
  simp only [others, List.map_append, List.append_assoc,
    List.filter_filter, Except.ok.injEq, Ledger.mk.injEq,
    and_true]
  congr 1
  funext d
  simp only [isOwn, refers, Database.involves, Bool.not_or,
    Bool.and_comm]

------------------------------------------------------------
-- Many Entities
------------------------------------------------------------

/-
  What involves one of the entities met so far is gone, and
  the log has one retraction for each such fact.
-/
structure Swept
    (db : Database)
    (tx : Int)
    (l₀ : Ledger)
    (met : List Int)
    (l : Ledger) : Prop where
  datoms :
    l.datoms =
      l₀.datoms.filter
        (fun d => !met.any (fun n => db.involves n d))
  log :
    ∃ gone : List Datom,
      l.log = l₀.log ++ gone.map (·.retraction tx)
        ∧ gone.Perm
          (l₀.datoms.filter
            (fun d => met.any (fun n => db.involves n d)))

variable {l₀ : Ledger}
variable {met : List Int}

/- At first, no entity was met and nothing is gone. -/
theorem Swept.nil (l : Ledger) : Swept db tx l [] l where
  datoms := by simp
  log := ⟨[], by simp⟩

/- After another one, what involves it is gone as well. -/
theorem Swept.cons
    (h : Swept db tx l₀ met l)
    {gone : List Datom}
    (hGone : gone.Perm (l.datoms.filter (db.involves n))) :
    Swept db tx l₀ (n :: met)
      { datoms := l.datoms.filter (fun d => !db.involves n d)
        log := l.log ++ gone.map (·.retraction tx) } where
  datoms := by
    rw [h.datoms, List.filter_filter]
    simp only [List.any_cons, Bool.not_or]
  log := by
    rcases h.log with ⟨before, hLog, hBefore⟩
    refine ⟨before ++ gone, by simp [hLog], ?_⟩
    rw [h.datoms] at hGone
    refine (hBefore.append hGone).trans ?_
    simp only [List.any_cons, Bool.or_comm (db.involves n _)]
    exact
      filter_append_filter_perm
        (fun d => met.any (fun n => db.involves n d))
        (db.involves n) l₀.datoms

/- An entity from which nothing goes has no parts either. -/
theorem components_eq_nil
    (hv : v.isInt n = true)
    (h : ∀ d ∈ l.datoms, db.involves n d = false) :
    l.components db v = [] := by
  rw [List.eq_nil_iff_forall_not_mem]
  intro w hw
  rcases (mem_components hv).mp hw with ⟨d, hd, hEntity, _⟩
  have hNot := h d hd
  simp [Database.involves, hEntity] at hNot

/-
  Retracting sweeps an entity and goes on with its parts.  If
  nothing went, the entity has no parts.
-/
theorem retractEntities_cons
    (hv : v.isInt n = true)
    (hDefined : ∀ d ∈ l.datoms, d.value.isUndefined = false)
    (rest : List Value) :
    ∃ (gone : List Datom) (swept : Ledger),
      l.retractEntities db tx (v :: rest)
          = swept.retractEntities db tx
            (l.components db v ++ rest)
        ∧ swept =
          { datoms :=
              l.datoms.filter (fun d => !db.involves n d)
            log := l.log ++ gone.map (·.retraction tx) }
        ∧ gone.Perm (l.datoms.filter (db.involves n))
        ∧ (swept.datoms.length < l.datoms.length
          ∨ (swept = l ∧ l.components db v = [])) := by
  rcases @sweep_eq db tx l v n hv hDefined with
    ⟨gone, hSweep, hGone⟩
  let swept : Ledger :=
    { datoms := l.datoms.filter (fun d => !db.involves n d)
      log := l.log ++ gone.map (·.retraction tx) }
  have hStill :
      ¬swept.datoms.length < l.datoms.length →
        swept = l ∧ l.components db v = [] := by
    intro hNot
    have hNone : ∀ d ∈ l.datoms, db.involves n d = false := by
      intro d hd
      rw [← Bool.not_eq_true]
      intro hInvolves
      refine
        hNot
          (List.length_filter_lt_length_iff_exists.mpr
            ⟨d, hd, by simp [hInvolves]⟩)
    have hGoneNone : gone = [] := by
      rw [List.filter_eq_nil_iff.mpr (by simpa using hNone)]
        at hGone
      exact hGone.eq_nil
    have hKept :
        l.datoms.filter (fun d => !db.involves n d)
          = l.datoms :=
      List.filter_eq_self.mpr (by simpa using hNone)
    refine ⟨?_, components_eq_nil hv hNone⟩
    simp only [swept, hGoneNone, hKept, List.map_nil,
      List.append_nil]
  refine ⟨gone, swept, ?_, rfl, hGone, ?_⟩
  · rw [retractEntities.eq_def]
    simp only [hSweep, ok_bind]
    by_cases hLess : swept.datoms.length < l.datoms.length
    · rw [if_pos hLess]
    · rcases hStill hLess with ⟨hSame, hNone⟩
      rw [if_neg hLess, hNone, hSame, List.nil_append]
  · by_cases hLess : swept.datoms.length < l.datoms.length
    · exact .inl hLess
    · exact .inr (hStill hLess)

------------------------------------------------------------
-- An Entity with All Its Parts
------------------------------------------------------------

/-
  Where retracting stands.  The entities met and those that
  wait are of a given kind, and parts of those met are met
  themselves or wait.
-/
structure Underway
    (db : Database)
    (tx : Int)
    (l₀ : Ledger)
    (R : Int → Prop)
    (met : List Int)
    (pending : List Value)
    (l : Ledger) : Prop where
  swept : Swept db tx l₀ met l
  sound : ∀ n ∈ met, R n
  waiting : ∀ v ∈ pending, ∃ n, R n ∧ v.isInt n = true
  closed :
    ∀ d ∈ l₀.datoms, d.entity ∈ met →
      db.isComponent d.attr = true →
        ∀ n, d.value.isInt n = true →
          n ∈ met ∨ ∃ v ∈ pending, v.isInt n = true

variable {R : Int → Prop}
variable {rest : List Value}

/-
  Sweeping the next entity gets further.  A part that is not
  found any more was taken with its entity or referred to an
  entity: either way, it has been met.
-/
theorem Underway.sweep
    (h : Underway db tx l₀ R met (v :: rest) l)
    (hParts :
      ∀ d ∈ l₀.datoms, R d.entity →
        db.isComponent d.attr = true →
          ∃ m, R m ∧ d.value.isInt m = true)
    (hn : R n)
    (hv : v.isInt n = true)
    (hSwept : Swept db tx l₀ (n :: met) swept) :
    Underway db tx l₀ R (n :: met)
      (l.components db v ++ rest) swept := by
  have hSub : l.datoms ⊆ l₀.datoms := by
    rw [h.swept.datoms]
    exact List.filter_subset_self _
  have hGone :
      ∀ d ∈ l₀.datoms, d ∉ l.datoms →
        ∃ k ∈ met, db.involves k d = true := by
    intro d hd hLeft
    rw [h.swept.datoms] at hLeft
    simpa [hd] using hLeft
  refine
    ⟨hSwept, List.forall_mem_cons.mpr ⟨hn, h.sound⟩, ?_, ?_⟩
  · refine
      List.forall_mem_append.mpr
        ⟨?_, fun w hw =>
          h.waiting w (List.mem_cons_of_mem v hw)⟩
    intro w hw
    rcases (mem_components hv).mp hw with
      ⟨d, hd, rfl, hComponent, rfl⟩
    exact hParts d (hSub hd) hn hComponent
  · intro d hd hEntity hComponent m hm
    have hBefore :
        d.entity ∈ met →
          m ∈ n :: met
            ∨ ∃ w ∈ l.components db v ++ rest,
                w.isInt m = true := by
      intro hMet
      rcases h.closed d hd hMet hComponent m hm with
        hMet | ⟨w, hw, hwm⟩
      · exact .inl (List.mem_cons_of_mem n hMet)
      · rcases List.mem_cons.mp hw with rfl | hw
        · rw [Value.eq_of_isInt hwm hv]
          exact .inl List.mem_cons_self
        · exact .inr ⟨w, List.mem_append_right _ hw, hwm⟩
    rcases List.mem_cons.mp hEntity with hEntity | hMet
    · by_cases hLeft : d ∈ l.datoms
      · have hPart : d.value ∈ l.components db v :=
          (mem_components hv).mpr
            ⟨d, hLeft, hEntity, hComponent, rfl⟩
        exact
          .inr ⟨d.value, List.mem_append_left _ hPart, hm⟩
      · rcases hGone d hd hLeft with ⟨k, hk, hInvolves⟩
        simp only [Database.involves, Bool.or_eq_true,
          Bool.and_eq_true, beq_iff_eq] at hInvolves
        rcases hInvolves with hOwn | ⟨_, hRefers⟩
        · exact hBefore (hOwn ▸ hk)
        · rw [Value.eq_of_isInt hm hRefers]
          exact .inl (List.mem_cons_of_mem n hk)
    · exact hBefore hMet

/-
  Retracting comes to an end, and then all that waited was
  met.  Each sweep takes out facts or leaves one entity fewer
  to wait.
-/
theorem Underway.finish
    (h : Underway db tx l₀ R met rest l)
    (hDefined : ∀ d ∈ l₀.datoms, d.value.isUndefined = false)
    (hParts :
      ∀ d ∈ l₀.datoms, R d.entity →
        db.isComponent d.attr = true →
          ∃ m, R m ∧ d.value.isInt m = true) :
    ∃ all after,
      l.retractEntities db tx rest = .ok after
        ∧ Underway db tx l₀ R all [] after
        ∧ met ⊆ all
        ∧ ∀ v ∈ rest, ∀ n, v.isInt n = true → n ∈ all := by
  induction hMeasure : (l.datoms.length, rest.length)
      using WellFounded.induction
        (Prod.lex Nat.lt_wfRel Nat.lt_wfRel).wf
      generalizing l rest met with
  | _ measure ih =>
      subst hMeasure
      cases rest with
      | nil =>
          refine
            ⟨met, l, ?_, h, List.Subset.refl _, by simp⟩
          rw [retractEntities.eq_def]
          rfl
      | cons v rest =>
          rcases h.waiting v List.mem_cons_self with
            ⟨n, hn, hv⟩
          have hDefinedNow :
              ∀ d ∈ l.datoms, d.value.isUndefined = false := by
            intro d hd
            rw [h.swept.datoms] at hd
            exact hDefined d (List.mem_filter.mp hd).1
          rcases @retractEntities_cons db tx l v n hv
              hDefinedNow rest with
            ⟨gone, swept, hEq, hSwept, hGone, hLess⟩
          have hNext :
              Underway db tx l₀ R (n :: met)
                (l.components db v ++ rest) swept :=
            h.sweep hParts hn hv (hSwept ▸ h.swept.cons hGone)
          have hSmaller :
              Prod.Lex Nat.lt Nat.lt
                (swept.datoms.length,
                  (l.components db v ++ rest).length)
                (l.datoms.length, (v :: rest).length) := by
            rcases hLess with hLess | ⟨hSame, hNone⟩
            · exact .left _ _ hLess
            · rw [hSame, hNone, List.nil_append]
              exact .right _ (Nat.lt_succ_self _)
          rcases ih _ hSmaller hNext rfl with
            ⟨all, after, hAfter, hEnd, hMet, hWaited⟩
          refine
            ⟨all, after, hEq.trans hAfter, hEnd,
              fun k hk => hMet (List.mem_cons_of_mem n hk), ?_⟩
          intro w hw m hm
          rcases List.mem_cons.mp hw with rfl | hw
          · rw [Value.eq_of_isInt hm hv]
            exact hMet List.mem_cons_self
          · exact
              hWaited w (List.mem_append_right _ hw) m hm

/-
  Retracting an entity takes out the facts about it and its
  parts and those that refer to them, and nothing else.
-/
theorem retractEntities_eq
    (eid : Int)
    (hDefined : ∀ d ∈ l.datoms, d.value.isUndefined = false)
    (hParts :
      ∀ d ∈ l.datoms, db.HasPart l.datoms eid d.entity →
        db.isComponent d.attr = true →
          ∃ m, d.value.isInt m = true) :
    ∃ parts after,
      l.retractEntities db tx [.int eid] = .ok after
        ∧ Swept db tx l parts after
        ∧ ∀ n, n ∈ parts ↔ db.HasPart l.datoms eid n := by
  have hStart :
      Underway db tx l (db.HasPart l.datoms eid) []
        [.int eid] l := by
    refine ⟨.nil l, by simp, ?_, by simp⟩
    intro v hv
    rcases List.mem_singleton.mp hv with rfl
    exact ⟨eid, .self, by simp [Value.isInt]⟩
  have hPartsOf :
      ∀ d ∈ l.datoms, db.HasPart l.datoms eid d.entity →
        db.isComponent d.attr = true →
          ∃ m, db.HasPart l.datoms eid m
            ∧ d.value.isInt m = true := by
    intro d hd hEntity hComponent
    rcases hParts d hd hEntity hComponent with ⟨m, hm⟩
    exact ⟨m, .part hd hEntity hComponent hm, hm⟩
  rcases hStart.finish hDefined hPartsOf with
    ⟨parts, after, hAfter, hEnd, _, hWaited⟩
  refine
    ⟨parts, after, hAfter, hEnd.swept,
      fun n => ⟨hEnd.sound n, fun h => h.mem_of_closed ?_ ?_⟩⟩
  · exact
      hWaited (.int eid) List.mem_cons_self eid
        (by simp [Value.isInt])
  · intro d hd hEntity hComponent m hm
    rcases hEnd.closed d hd hEntity hComponent m hm with
      hMet | ⟨v, hv, _⟩
    · exact hMet
    · cases hv

end Ledger

end FactBase
