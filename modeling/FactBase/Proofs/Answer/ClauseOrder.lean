import Mathlib.Data.Multiset.Sections
import FactBase.Proofs.Answer.Join
import FactBase.Proofs.Answer.Projection

/-
  This file shows when the patterns of a query may change
  places.  The combinations of facts are the same in another
  order, and so are those that fit and agree; the values that
  the variables have in the end are then the same as well.

  Key definitions include:
    * `Database.counts`
    * `Call.Orderly`

  Key theorems include:
    * `combinations_perm`
    * `Assignment.agree_of_perm`
    * `Assignment.twin_extended`
    * `Call.evaluate_perm`
    * `evaluate_ne_swapped`
-/

------------------------------------------------------------
-- Combinations in Another Order
------------------------------------------------------------

namespace FactBase

/- The combinations of lists, whatever the order of the lists. -/
theorem ofList_map_combinations
    {α : Type}
    (xss : List (List α)) :
    Multiset.ofList ((combinations xss).map Multiset.ofList) =
      Multiset.Sections
        (Multiset.ofList (xss.map Multiset.ofList)) := by
  induction xss with
  | nil => rfl
  | cons xs xss ih =>
      rw [combinations, List.map_cons, ← Multiset.cons_coe,
        Multiset.sections_cons, ← ih, List.map_flatMap,
        ← Multiset.coe_bind]
      apply Multiset.bind_congr
      intro x _
      rw [List.map_map, Multiset.map_coe, List.map_map]
      rfl

/-
  Lists in another order have the same combinations, up to
  the order of these and of their items.
-/
theorem combinations_perm
    {α : Type}
    {xss yss : List (List α)}
    (h : xss.Perm yss) :
    ∃ zss, (combinations xss).Perm zss
      ∧ List.Forall₂ List.Perm zss (combinations yss) := by
  have hLists :
      Multiset.ofList (xss.map Multiset.ofList)
        = Multiset.ofList (yss.map Multiset.ofList) :=
    Multiset.coe_eq_coe.mpr (h.map _)
  have hSame :
      ((combinations yss).map Multiset.ofList).Perm
        ((combinations xss).map Multiset.ofList) := by
    rw [← Multiset.coe_eq_coe, ofList_map_combinations,
      ofList_map_combinations, hLists]
  have hOwn :
      List.Forall₂ (fun m xs => m = Multiset.ofList xs)
        ((combinations xss).map Multiset.ofList)
        (combinations xss) := by
    rw [List.forall₂_map_left_iff, List.forall₂_same]
    exact fun _ _ => rfl
  rcases List.perm_comp_forall₂ hSame hOwn with
    ⟨zss, hItems, hOrder⟩
  refine ⟨zss, hOrder.symm, ?_⟩
  rw [List.forall₂_map_left_iff] at hItems
  apply hItems.flip.imp
  intro zs ys hEq
  exact Multiset.coe_eq_coe.mp hEq.symm

/- What is kept of related items, and what becomes of it. -/
private theorem forall₂_map_filter
    {α β : Type}
    {R : α → α → Prop}
    {S : β → β → Prop}
    {p : α → Bool}
    {f : α → β}
    {xs ys : List α}
    (h : List.Forall₂ R xs ys)
    (hKept :
      ∀ x y, R x y →
        p x = p y ∧ (p x = true → S (f x) (f y))) :
    List.Forall₂ S ((xs.filter p).map f)
      ((ys.filter p).map f) := by
  induction h with
  | nil => exact .nil
  | @cons x y _ _ hHead _ ih =>
      rcases hKept x y hHead with ⟨hSame, hRelated⟩
      rw [List.filter_cons, List.filter_cons, ← hSame]
      cases hx : p x with
      | false =>
          simp only [Bool.false_eq_true, if_false]
          exact ih
      | true =>
          simp only [if_true, List.map_cons]
          exact .cons (hRelated hx) ih

/- Reorderings item by item are one of the whole. -/
private theorem exists_perm_flatMap
    {α β : Type}
    {S : β → β → Prop}
    {f g : α → List β}
    {xs : List α}
    (h :
      ∀ x ∈ xs, ∃ ys, (f x).Perm ys ∧ List.Forall₂ S ys (g x)) :
    ∃ ys, (xs.flatMap f).Perm ys
      ∧ List.Forall₂ S ys (xs.flatMap g) := by
  induction xs with
  | nil => exact ⟨[], .nil, .nil⟩
  | cons x xs ih =>
      rw [List.forall_mem_cons] at h
      rcases h.1 with ⟨ys, hPerm, hRelated⟩
      rcases ih h.2 with ⟨zs, hPerm', hRelated'⟩
      refine ⟨ys ++ zs, hPerm.append hPerm', ?_⟩
      exact List.rel_append hRelated hRelated'

------------------------------------------------------------
-- Agreement in Another Order
------------------------------------------------------------

namespace Assignment

variable {σ₀ : Assignment}
variable {marks marks' : List Mark}
variable {may : String → Value → Prop}

/- Two marks for one variable bind it to the same. -/
private def MarksAlike (m n : Mark) : Prop :=
  m.2.value.proper = true → n.2.value.proper = true →
    m.1 = n.1 → m.2.value.equal n.2.value = true

/- This can be read either way. -/
private theorem marksAlike_symm
    {m n : Mark}
    (h : MarksAlike m n) : MarksAlike n m := by
  intro hn hm hName
  rw [Value.equal_comm hn hm]
  exact h hm hn hName.symm

/- Marks that agree do so in any order. -/
theorem agree_of_perm
    (hPerm : marks.Perm marks')
    (hMarks : ∀ m ∈ marks, Mark.Sound may m)
    (hAgree : σ₀.agree marks = true) :
    σ₀.agree marks' = true := by
  rw [agree_iff] at hAgree ⊢
  rcases hAgree with ⟨hStart, hPairs⟩
  constructor
  · intro m hm
    exact hStart m (hPerm.mem_iff.mpr hm)
  · have hAlike : marks.Pairwise MarksAlike :=
      hPairs.imp (fun h _ _ hName => h hName)
    have hAlike' : marks'.Pairwise MarksAlike :=
      (hPerm.pairwise_iff marksAlike_symm).mp hAlike
    apply hAlike'.imp_of_mem
    intro m n hm hn h
    exact
      h (hMarks m (hPerm.mem_iff.mpr hm)).1
        (hMarks n (hPerm.mem_iff.mpr hn)).1

/- Where marks agree, what they bind a variable to is alike. -/
theorem alike_of_agree
    (hMarks : ∀ m ∈ marks, Mark.Sound may m)
    (hAgree : σ₀.agree marks = true)
    {x : String}
    {h k : Held}
    (hh : (x, h) ∈ marks)
    (hk : (x, k) ∈ marks) : h.value.Alike k.value := by
  have hLeft := (hMarks _ hh).1
  have hRight := (hMarks _ hk).1
  have hPairs : marks.Pairwise MarksAlike :=
    (agree_iff.mp hAgree).2.imp (fun h _ _ hName => h hName)
  have hSymm : Std.Symm MarksAlike :=
    ⟨fun _ _ => marksAlike_symm⟩
  by_cases hEq : (x, h) = (x, k)
  · have hHeld : h = k := (Prod.mk.inj hEq).2
    rw [hHeld]
    exact .refl hRight
  · have hEqual := hPairs.forall hh hk hEq hLeft hRight rfl
    exact ⟨hLeft, hRight, Value.same_of_equal hEqual⟩

/-
  Marks in another order leave all variables with values that
  are alike.
-/
theorem twin_extended
    (hGiven : ∀ m ∈ σ₀, Mark.Sound may m)
    (hMarks : ∀ m ∈ marks, Mark.Sound may m)
    (hAgree : σ₀.agree marks = true)
    (hPerm : marks.Perm marks') :
    (σ₀.extended marks).Twin (σ₀.extended marks') := by
  intro x
  rcases held?_extended_cases σ₀ marks x with
    ⟨hNone, hHeld⟩ | ⟨before, h, after, hEq, _, hHeld⟩
  · rcases held?_extended_cases σ₀ marks' x with
      ⟨_, hHeld'⟩ | ⟨before, k, after, hEq, _, _⟩
    · rw [hHeld, hHeld']
      cases hStart : σ₀.held? x with
      | none => exact .none
      | some h =>
          exact .some (.refl (sound_of_held? hGiven hStart).1)
    · have hMem : (x, k) ∈ marks := by
        rw [hPerm.mem_iff, hEq]
        simp
      exact absurd rfl (hNone _ hMem)
  · have hMem : (x, h) ∈ marks := by
      rw [hEq]
      simp
    rcases held?_extended_cases σ₀ marks' x with
      ⟨hNone, _⟩ | ⟨before', k, after', hEq', _, hHeld'⟩
    · exact absurd rfl (hNone _ (hPerm.mem_iff.mp hMem))
    · have hMem' : (x, k) ∈ marks := by
        rw [hPerm.mem_iff, hEq']
        simp
      rw [hHeld, hHeld']
      exact .some (alike_of_agree hMarks hAgree hMem hMem')

end Assignment

------------------------------------------------------------
-- Goals in Another Order
------------------------------------------------------------

namespace Database

variable {db : Database}
variable {may : String → Value → Prop}
variable {goals goals' : List Goal}
variable {σ₀ : Assignment}

/- What choices for goals ask to be bound, in order. -/
def marksOfPairs
    (pairs : List (Goal × Option Datom)) : List Mark :=
  pairs.flatMap (fun p => p.1.marks p.2)

/- Choices for goals count as a way does. -/
def counts
    (db : Database)
    (σ₀ : Assignment)
    (pairs : List (Goal × Option Datom)) : Bool :=
  pairs.all (fun p =>
      p.1.isMet db σ₀ (σ₀.extended (marksOfPairs pairs)) p.2)
    && σ₀.agree (marksOfPairs pairs)

/- The ways to meet goals, each choice with its goal. -/
theorem map_zip_ways
    (db : Database)
    (goals : List Goal) :
    (db.ways goals).map goals.zip =
      combinations
        (goals.map (fun goal =>
          (goal.choices db).map (Prod.mk goal))) := by
  induction goals with
  | nil => rfl
  | cons goal goals ih =>
      have hWays :
          db.ways (goal :: goals) =
            (goal.choices db).flatMap (fun choice =>
              (db.ways goals).map (choice :: ·)) := rfl
      rw [hWays, List.map_cons, combinations, ← ih,
        List.map_flatMap, List.flatMap_map]
      apply List.flatMap_congr
      intro choice _
      rw [List.map_map, List.map_map]
      rfl

/- The ways from an assignment that count, choice by choice. -/
theorem map_filter_means
    (db : Database)
    (σ₀ : Assignment)
    (goals : List Goal) :
    ((db.ways goals).filter (db.means σ₀ goals)).map
        (fun way => σ₀.extended (marksOf goals way)) =
      ((combinations
          (goals.map (fun goal =>
            (goal.choices db).map (Prod.mk goal)))).filter
        (db.counts σ₀)).map
          (fun pairs => σ₀.extended (marksOfPairs pairs)) := by
  rw [← map_zip_ways, List.filter_map, List.map_map]
  rfl

/- Goals in another order leave a search settled. -/
theorem Settled.of_perm
    (h : db.Settled may goals σ₀)
    (hPerm : goals.Perm goals') : db.Settled may goals' σ₀ := by
  have hShares : σ₀.Shares goals' = σ₀.Shares goals := by
    funext x
    unfold Assignment.Shares
    rw [hPerm.countP_eq]
  refine ⟨h.installed, h.integers, h.given, ?_, ?_⟩
  · intro expr hTest
    exact h.tests expr (hPerm.mem_iff.mpr hTest)
  · intro items hItems
    rw [hShares]
    exact h.patterns items (hPerm.mem_iff.mpr hItems)

/- Facts are chosen for patterns among goals. -/
def FromFacts
    (db : Database)
    (goals : List Goal)
    (pairs : List (Goal × Option Datom)) : Prop :=
  ∀ p ∈ pairs, ∃ items d, p = (.pattern items, some d)
    ∧ .pattern items ∈ goals ∧ d ∈ db.datoms

/- The choices for patterns are facts. -/
theorem fromFacts_of_mem_combinations
    (hPatterns : ∀ goal ∈ goals, ∃ items, goal = .pattern items)
    {pairs : List (Goal × Option Datom)}
    (hPairs :
      pairs ∈
        combinations
          (goals.map (fun goal =>
            (goal.choices db).map (Prod.mk goal)))) :
    db.FromFacts goals pairs := by
  intro p hp
  rcases exists_mem_of_mem_combinations hPairs hp with
    ⟨choices, hChoices, hMem⟩
  rcases List.mem_map.mp hChoices with ⟨goal, hGoal, rfl⟩
  rcases List.mem_map.mp hMem with ⟨choice, hChoice, rfl⟩
  rcases hPatterns goal hGoal with ⟨items, rfl⟩
  rcases List.mem_map.mp hChoice with ⟨d, hd, rfl⟩
  exact ⟨items, d, rfl, hGoal, hd⟩

/- What is bound by facts that fit is sound. -/
theorem FromFacts.sound_marksOfPairs
    {pairs : List (Goal × Option Datom)}
    (h : db.FromFacts goals pairs)
    (hSettled : db.Settled may goals σ₀)
    {τ : Assignment}
    (hMet :
      pairs.all (fun p => p.1.isMet db σ₀ τ p.2) = true) :
    ∀ m ∈ marksOfPairs pairs, Mark.Sound may m := by
  intro m hm
  rcases List.mem_flatMap.mp hm with ⟨p, hp, hMark⟩
  rcases h p hp with ⟨items, d, rfl, hItems, hd⟩
  have hFits : db.fits σ₀ items d = true :=
    List.all_eq_true.mp hMet _ hp
  have hConcerns := hSettled.concerns_of_fits hd hFits
  exact hSettled.sound_marks hItems hd hConcerns m hMark

/-
  Facts that are chosen for patterns count in any order, and
  leave all variables with values that are alike.
-/
theorem FromFacts.counts_of_perm
    {pairs pairs' : List (Goal × Option Datom)}
    (h : db.FromFacts goals pairs)
    (hSettled : db.Settled may goals σ₀)
    (hPerm : pairs.Perm pairs')
    (hCounts : db.counts σ₀ pairs = true) :
    db.counts σ₀ pairs' = true
      ∧ (σ₀.extended (marksOfPairs pairs)).Twin
          (σ₀.extended (marksOfPairs pairs')) := by
  rw [counts, Bool.and_eq_true] at hCounts ⊢
  rcases hCounts with ⟨hMet, hAgree⟩
  have hSound := h.sound_marksOfPairs hSettled hMet
  have hMarks :
      (marksOfPairs pairs).Perm (marksOfPairs pairs') :=
    hPerm.flatMap_right _
  refine ⟨⟨?_, ?_⟩, ?_⟩
  · rw [List.all_eq_true] at hMet ⊢
    intro p hp
    have hMem := hPerm.mem_iff.mpr hp
    have hNow := hMet p hMem
    -- A pattern is met by the fact alone, whatever values the
    -- variables have in the end.
    rcases h p hMem with ⟨items, d, rfl, _, _⟩
    exact hNow
  · exact Assignment.agree_of_perm hMarks hSound hAgree
  · exact
      Assignment.twin_extended hSettled.given hSound hAgree
        hMarks

/-
  Patterns in another order mean the same assignments in
  another order, with values that are alike.
-/
theorem meaning_perm
    {σs : List Assignment}
    (h : ∀ σ₀ ∈ σs, db.Settled may goals σ₀)
    (hPatterns : ∀ goal ∈ goals, ∃ items, goal = .pattern items)
    (hPerm : goals.Perm goals') :
    ∃ τs, (db.meaning goals σs).Perm τs
      ∧ List.Forall₂ Assignment.Twin τs
          (db.meaning goals' σs) := by
  unfold meaning
  apply exists_perm_flatMap
  intro σ₀ hσ₀
  have hSettled := h σ₀ hσ₀
  rw [map_filter_means, map_filter_means]
  rcases
      combinations_perm
        (hPerm.map (fun goal =>
          (goal.choices db).map (Prod.mk goal)))
    with ⟨zss, hOrder, hItems⟩
  refine ⟨_, (hOrder.filter _).map _, ?_⟩
  have hFacts : ∀ pairs ∈ zss, db.FromFacts goals pairs :=
    fun pairs hPairs =>
      fromFacts_of_mem_combinations hPatterns
        (hOrder.mem_iff.mpr hPairs)
  apply
    forall₂_map_filter
      ((List.forall₂_and_left _ _).mpr ⟨hFacts, hItems⟩)
  rintro pairs pairs' ⟨hFrom, hSame⟩
  have hFrom' : db.FromFacts goals pairs' :=
    fun p hp => hFrom p (hSame.mem_iff.mpr hp)
  constructor
  · rw [Bool.eq_iff_iff]
    constructor
    · intro hCounts
      exact (hFrom.counts_of_perm hSettled hSame hCounts).1
    · intro hCounts
      exact (hFrom'.counts_of_perm hSettled hSame.symm hCounts).1
  · intro hCounts
    exact (hFrom.counts_of_perm hSettled hSame hCounts).2

end Database

------------------------------------------------------------
-- Orderly Calls
------------------------------------------------------------

/-
  A call asks a database for facts by patterns, and its
  variables are used so that the order of the patterns does
  not matter.
-/
structure Call.Orderly
    (c : Call)
    (db : Database)
    (may : String → Value → Prop) : Prop where
  source :
    ∀ input ∈ c.inputs.zip c.args, ∀ name,
      input.1 = .str name → Inputs.namesSource name = true →
        input.2 = .database db
  patterns : ∀ goal ∈ c.goals, ∃ items, goal = .pattern items
  integers : ∀ x (n : Int), may x (.int n)
  given : ∀ σ₀ ∈ c.starts, ∀ m ∈ σ₀, Mark.Sound may m
  suits :
    ∀ σ₀ ∈ c.starts, ∀ items, .pattern items ∈ c.goals →
      db.Suits σ₀ may (σ₀.Shares c.goals) items

/- The search of an orderly call is settled. -/
theorem Call.Orderly.settled
    {c : Call}
    {db : Database}
    {may : String → Value → Prop}
    (h : c.Orderly db may)
    (hSound : db.Sound)
    {σ₀ : Assignment}
    (hStart : σ₀ ∈ c.starts) : db.Settled may c.goals σ₀ where
  installed := hSound.facts.installed
  integers := h.integers
  given := h.given σ₀ hStart
  tests := by
    intro expr hTest
    rcases h.patterns _ hTest with ⟨items, hEq⟩
    cases hEq
  patterns := h.suits σ₀ hStart

/-
  In every database that an engine reaches, an orderly query
  with its patterns in another order has the same rows in
  another order, up to values that are the same, if both
  return rows and no collection of a fact grows by either.
-/
theorem Call.evaluate_perm
    {clock : Nat → Int}
    {e : Engine}
    (hRun : Engine.Run (fun _ => True) (Engine.start clock) e)
    {c : Call}
    {may : String → Value → Prop}
    (hOrderly : c.Orderly e.db may)
    {clauses : List Value}
    (hPerm : c.clauses.Perm clauses)
    {rows rows' : List (List Value)}
    (h : c.evaluate.run.run [] = (.ok rows, []))
    (h' :
      ({ c with clauses := clauses } : Call).evaluate.run.run []
        = (.ok rows', [])) :
    ∃ rows'', rows.Perm rows''
      ∧ List.Forall₂
          (List.Forall₂ (fun v w => v.same w = true))
          rows'' rows' := by
  have hSound : e.db.Sound :=
    (hRun.sound_extends Engine.inherited_true
      (Bootstrap.sound_database _)).1
  have hGoals :
      c.goals.Perm ({ c with clauses := clauses } : Call).goals :=
    hPerm.filterMap _
  have hSettled :
      ∀ σ₀ ∈ c.starts, e.db.Settled may c.goals σ₀ :=
    fun σ₀ hσ₀ => hOrderly.settled hSound hσ₀
  have hSettled' :
      ∀ σ₀ ∈ c.starts,
        e.db.Settled may
          ({ c with clauses := clauses } : Call).goals σ₀ :=
    fun σ₀ hσ₀ => (hSettled σ₀ hσ₀).of_perm hGoals
  rcases
      Database.meaning_perm hSettled hOrderly.patterns hGoals
    with ⟨τs, hOrder, hTwin⟩
  exact
    Solution.rows_perm hOrder hTwin
      (Call.evaluate_of_settled hOrderly.source hSettled h)
      (Call.evaluate_of_settled
        (c := { c with clauses := clauses }) hOrderly.source
        hSettled' h')

/- The pattern for the attributes that are installed. -/
def installedPattern : List Value :=
  [.str "?p", .str "db.install/attribute", .str "?a"]

/- The pattern for their idents. -/
def identPattern : List Value :=
  [.str "?a", .str "db/ident", .str "?name"]

/- A query for the idents of all attributes. -/
def attributesCall : Call where
  find := [.str "?name"]
  inputs := [.str "$"]
  clauses := [.list installedPattern, .list identPattern]
  args := [.database (Engine.start (fun _ => 0)).db]

/- References to attributes are integers. -/
private theorem suits_installedPattern :
    (Engine.start (fun _ => 0)).db.Suits []
      (fun _ v => v.whole = true)
      (Assignment.Shares [] attributesCall.goals)
      installedPattern := by
  have hFacts :
      ∀ d ∈ (Engine.start (fun _ => 0)).db.datoms,
        (Engine.start (fun _ => 0)).db.concerns installedPattern d
            = true →
          d.value.proper = true ∧ d.value.whole = true
            ∧ d.value.int?.isSome = true := by
    decide +kernel
  refine ⟨?_, ?_, ?_, ?_, ?_⟩
  · exact fun d hd hConcerns => (hFacts d hd hConcerns).1
  · exact fun _ _ d hd hConcerns => (hFacts d hd hConcerns).2.1
  · intro x _ _ v n hWhole hEqual
    exact Value.eq_int_of_equal hWhole hEqual
  · intro x hSlot
    cases hSlot
  · intro x _ _ _ d hd hConcerns _ v hWhole hEqual
    rcases hFacts d hd hConcerns with ⟨_, hStored, hNumber⟩
    exact
      Value.isSome_int?_of_equal hNumber hStored hWhole hEqual

/- Idents are no references. -/
private theorem suits_identPattern :
    (Engine.start (fun _ => 0)).db.Suits []
      (fun _ v => v.whole = true)
      (Assignment.Shares [] attributesCall.goals)
      identPattern := by
  have hFacts :
      ∀ d ∈ (Engine.start (fun _ => 0)).db.datoms,
        (Engine.start (fun _ => 0)).db.concerns identPattern d
            = true →
          d.value.proper = true ∧ d.value.whole = true
            ∧ (Engine.start (fun _ => 0)).db.isRef d.attr
                = false := by
    decide +kernel
  refine ⟨?_, ?_, ?_, ?_, ?_⟩
  · exact fun d hd hConcerns => (hFacts d hd hConcerns).1
  · exact fun _ _ d hd hConcerns => (hFacts d hd hConcerns).2.1
  · intro x _ _ v n hWhole hEqual
    exact Value.eq_int_of_equal hWhole hEqual
  · intro x hSlot
    cases hSlot
  · intro x _ _ _ d hd hConcerns hRef
    rw [(hFacts d hd hConcerns).2.2] at hRef
    cases hRef

/- A run that succeeds and lets nothing grow has a result. -/
theorem exists_of_succeeds
    {α : Type}
    (run : Outcome α × Growths)
    (h :
      run.1.toOption.isSome = true ∧ run.2.isEmpty = true) :
    ∃ a, run = (.ok a, []) := by
  rcases Outcome.exists_ok_of_isSome run h.1 with
    ⟨a, after, rfl⟩
  have hNil : after = [] := List.isEmpty_iff.mp h.2
  exact ⟨a, by rw [hNil]⟩

/- The query asks for facts by the two patterns. -/
private theorem orderly_attributesCall :
    attributesCall.Orderly (Engine.start (fun _ => 0)).db
      (fun _ v => v.whole = true) := by
  have hGoals :
      attributesCall.goals =
        [.pattern installedPattern, .pattern identPattern] := rfl
  have hStarts : attributesCall.starts = [[]] := rfl
  refine ⟨?_, ?_, fun _ _ => rfl, ?_, ?_⟩
  · intro input hInput name _ _
    rcases List.mem_singleton.mp hInput with rfl
    rfl
  · intro goal hGoal
    rw [hGoals] at hGoal
    simp only [List.mem_cons, List.not_mem_nil,
      or_false] at hGoal
    rcases hGoal with rfl | rfl
    · exact ⟨installedPattern, rfl⟩
    · exact ⟨identPattern, rfl⟩
  · intro σ₀ hσ₀ m hm
    rw [hStarts, List.mem_singleton] at hσ₀
    rw [hσ₀] at hm
    exact absurd hm List.not_mem_nil
  · intro σ₀ hσ₀ items hItems
    rw [hStarts, List.mem_singleton] at hσ₀
    subst hσ₀
    rw [hGoals] at hItems
    simp only [List.mem_cons, Goal.pattern.injEq,
      List.not_mem_nil, or_false] at hItems
    rcases hItems with rfl | rfl
    · exact suits_installedPattern
    · exact suits_identPattern

/- Either way there is a row for each of the attributes. -/
theorem evaluate_perm_attributesCall :
    attributesCall.Orderly (Engine.start (fun _ => 0)).db
        (fun _ v => v.whole = true)
      ∧ ∃ rows rows' rows'',
          rows.length = 12
            ∧ attributesCall.evaluate.run.run []
                = (.ok rows, [])
            ∧ ({ attributesCall with
                  clauses :=
                    [.list identPattern, .list installedPattern]
                } : Call).evaluate.run.run []
                = (.ok rows', [])
            ∧ rows.Perm rows''
            ∧ List.Forall₂
                (List.Forall₂ (fun v w => v.same w = true))
                rows'' rows' := by
  rcases
      exists_of_succeeds (attributesCall.evaluate.run.run [])
        (by decide +kernel)
    with ⟨rows, hRows⟩
  rcases
      exists_of_succeeds
        (({ attributesCall with
            clauses :=
              [.list identPattern, .list installedPattern]
          } : Call).evaluate.run.run [])
        (by decide +kernel)
    with ⟨rows', hRows'⟩
  have hLength :
      (attributesCall.evaluate.run.run []).1.toOption.map
          List.length = some 12 := by
    decide +kernel
  rw [hRows] at hLength
  rcases
      Call.evaluate_perm .refl orderly_attributesCall
        (.swap _ _ _) hRows hRows'
    with ⟨rows'', hPerm, hSame⟩
  exact
    ⟨orderly_attributesCall, rows, rows', rows'',
      Option.some.inj hLength, hRows, hRows', hPerm, hSame⟩

------------------------------------------------------------
-- Queries whose Order Matters
------------------------------------------------------------

/- The rows for two patterns, in order. -/
def rowsFor?
    (db : Database)
    (find first second : List Value) :
    Option (List (List Value)) :=
  (({ find := find
      inputs := [.str "$"]
      clauses := [.list first, .list second]
      args := [.database db] } : Call).evaluate.run.run
    []).1.toOption

/- The number of rows for two patterns, in order. -/
def countRows
    (db : Database)
    (find first second : List Value) : Option Nat :=
  (rowsFor? db find first second).map List.length

/- In either order there is a row that is the same. -/
def shareRow
    (db : Database)
    (find first second : List Value) : Bool :=
  (rowsFor? db find first second).any (fun rows =>
    (rowsFor? db find second first).any (fun rows' =>
      rows.any (fun row =>
        rows'.any (fun row' =>
          (Value.tuple row).same (.tuple row')))))

/- The pattern for the truth values in the first database. -/
def indexPattern : List Value :=
  [.str "?e", .str "db/index", .str "?x"]

/- The pattern for the ident of what a truth value equals. -/
def namedPattern : List Value :=
  [.str "?x", .str "db/ident", .str "?n"]

/- The pattern for facts with the ident of a partition. -/
def partitionPattern : List Value :=
  [.str "?e", .str "?a", .str "db.part/user"]

/- The pattern for any fact. -/
def anyPattern : List Value :=
  [.str "?e", .str "?b", .str "?v"]

/- The pattern for the text that is a reference now. -/
def retypedPattern : List Value :=
  [.str "?f", .str "user/x", .str "?v"]

/-
  Transaction data that gives the attribute for texts another
  ident and its ident to another attribute.  Entities show
  the values of both under one key.
-/
def renamingData : Value :=
  .list
    [ .list
        [ .str "db/add", .int 22, .str "db/ident"
        , .str "user/y" ]
    , .map
        [ (.str "db/id", .tempid "db.part/db" (-1))
        , (.str "db.install/_attribute", .str "db.part/db")
        , (.str "db/ident", .str "user/x")
        , (.str "db/valueType", .str "db.type/string")
        , (.str "db/cardinality", .str "db.cardinality/many") ] ]

/-
  Transaction data for an entity with a list and two values
  under that key, and for another entity; each of the two is
  the documentation of the other.
-/
def listData : Value :=
  .list
    [ .list [.str "db/add", .int 5, .str "user/x", .int 1]
    , .list [.str "db/add", .int 5, .str "user/y", .list []]
    , .list [.str "db/add", .int 5, .str "user/x", .int 2]
    , .list [.str "db/add", .int 5, .str "db/doc", .int 6]
    , .list [.str "db/add", .int 6, .str "db/doc", .int 5] ]

/- The engine after these transactions. -/
def listed : Engine :=
  ((((Engine.start (fun _ => 0)).transact typingData).2.transact
    renamingData).2.transact listData).2

/- These transactions run one after the other. -/
theorem run_listed :
    Engine.Run (fun _ => True) (Engine.start (fun _ => 0))
      listed :=
  .tail
    (.tail (.single ⟨typingData, trivial, rfl⟩)
      ⟨renamingData, trivial, rfl⟩)
    ⟨listData, trivial, rfl⟩

/- Both entities are pulled, each in a way of its own. -/
def pullsFind : List Value :=
  [ .list [.str "pull", .str "?e", .list [.str "*"]]
  , .list
      [ .str "pull", .str "?f"
      , .list [.str "user/y", .str "user/x"] ] ]

/- The pattern for the documentation of an entity. -/
def docPattern : List Value :=
  [.str "?e", .str "db/doc", .str "?f"]

/- The pattern for what has the entity as documentation. -/
def docOfPattern : List Value :=
  [.str "?f", .str "db/doc", .str "?e"]

/-
  The order of two patterns matters in each of four ways: a
  truth value names no entity, but equals the id of one; an
  ident is a reference only once the attribute is known; what
  is found under an attribute for references need not be one;
  and the rows come in another order, so that what grows by
  pulls gets its values in another order.
-/
theorem evaluate_ne_swapped :
    Engine.Run (fun _ => True) (Engine.start (fun _ => 0))
        retyped
      ∧ Engine.Run (fun _ => True) (Engine.start (fun _ => 0))
          listed
      ∧ countRows (Engine.start (fun _ => 0)).db [.str "?e"]
          indexPattern namedPattern = some 0
      ∧ countRows (Engine.start (fun _ => 0)).db [.str "?e"]
          namedPattern indexPattern = some 12
      ∧ countRows (Engine.start (fun _ => 0)).db [.str "?e"]
          installedPattern partitionPattern = some 2
      ∧ countRows (Engine.start (fun _ => 0)).db [.str "?e"]
          partitionPattern installedPattern = some 1
      ∧ countRows retyped.db [.str "?e"] anyPattern
          retypedPattern = some 0
      ∧ countRows retyped.db [.str "?e"] retypedPattern
          anyPattern = some 1
      ∧ countRows listed.db pullsFind docPattern docOfPattern
          = some 2
      ∧ countRows listed.db pullsFind docOfPattern docPattern
          = some 2
      ∧ shareRow listed.db pullsFind docPattern docOfPattern
          = false := by
  refine ⟨run_retyped, run_listed, ?_⟩
  decide +kernel

end FactBase
