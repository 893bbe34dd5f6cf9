import FactBase.Sorting.Ascending.Merge

/-
  This file proves that sorting by an order succeeds and
  gives a permutation of the list that ascends.

  Key theorems include:
    * `Sorting.nextRun_ascends`
    * `Sorting.finish_fits`
    * `Sorting.sort_ascends`
-/

------------------------------------------------------------
-- Runs
------------------------------------------------------------

namespace FactBase

namespace Sorting

variable {α ε : Type}
variable {P : α → Prop}
variable {lt : α → α → Bool}

/- A chain holds elements of the list only. -/
theorem all_of_chain
    {follows : α → α → Except ε Bool}
    {last : α}
    {xs run : List α}
    (hLast : P last)
    (hXs : ∀ x ∈ xs, P x)
    (hRun : chain follows last xs = .ok run) :
    ∀ x ∈ last :: run, P x := by
  intro x hx
  rcases List.mem_cons.mp hx with rfl | hx
  · exact hLast
  · rw [chain_eq_take hRun] at hx
    exact hXs x (List.mem_of_mem_take hx)

/- A chain ascends, also behind what it continues. -/
theorem chain_ascends
    {lt : α → α → Bool}
    {less : α → α → Except ε Bool}
    {last : α}
    {xs : List α}
    (hOrder : Orders P lt less)
    (follows : α → α → Except ε Bool)
    (f : α → α → Bool)
    (hFollows : ∀ {x y}, P x → P y → follows x y = .ok (f x y))
    (hLe : ∀ {x y}, P x → P y → f x y = true → lt y x = false)
    (hLastP : P last)
    (hXs : ∀ x ∈ xs, P x) :
    ∃ run, chain follows last xs = .ok run ∧
      Ascends lt (last :: run) := by
  induction xs generalizing last with
  | nil => exact ⟨[], rfl, List.pairwise_singleton _ _⟩
  | cons x xs ih =>
      have hx := hXs x List.mem_cons_self
      unfold chain
      rw [hFollows hLastP hx, ok_bind]
      by_cases h : f last x = true
      · rcases
            ih hx (fun y hy => hXs y (List.mem_cons_of_mem _ hy))
          with ⟨run, hRun, hUp⟩
        rw [if_pos h, hRun, ok_bind]
        refine ⟨x :: run, rfl, ?_⟩
        refine ascends_cons hUp (List.Perm.refl _) ?_
        intro y hy
        have hMem := all_of_chain hx
          (fun z hz => hXs z (List.mem_cons_of_mem _ hz)) hRun
        exact hOrder.trans hLastP hx (hMem y hy)
          (hLe hLastP hx h) (hUp.head_le hOrder hx y hy)
      · rw [if_neg h]
        exact ⟨[], rfl, List.pairwise_singleton _ _⟩

/- A natural run ascends. -/
theorem naturalRun_ascends
    {less : α → α → Except ε Bool}
    {x : α}
    {xs : List α}
    (hOrder : Orders P lt less)
    (hx : P x)
    (hXs : ∀ y ∈ xs, P y) :
    ∃ run, naturalRun less x xs = .ok run ∧ Ascends lt run := by
  match xs with
  | [] => exact ⟨[x], rfl, List.pairwise_singleton _ _⟩
  | y :: ys =>
      have hy := hXs y List.mem_cons_self
      have hYs : ∀ z ∈ ys, P z :=
        fun z hz => hXs z (List.mem_cons_of_mem _ hz)
      unfold naturalRun
      simp only
      rw [hOrder.answers hy hx, ok_bind]
      by_cases h : lt y x = true
      · rcases
            chain_ascends hOrder.flip
              (fun last z => less z last) (fun last z => lt z last)
              (fun ha hb => hOrder.answers hb ha)
              (fun ha hb hLt => hOrder.asymm hb ha hLt) hy hYs
          with ⟨run, hRun, hUp⟩
        rw [if_pos h, hRun, ok_bind]
        refine ⟨(x :: y :: run).reverse, rfl, ?_⟩
        rw [← ascends_reverse, List.reverse_reverse]
        refine ascends_cons hUp (List.Perm.refl _) ?_
        intro z hz
        have hzP := all_of_chain hy hYs hRun z hz
        exact hOrder.asymm hzP hx
          (hOrder.lt_of_le_of_lt hzP hy hx
            (hUp.head_le hOrder.flip hy z hz) h)
      · have hLe : lt y x = false := by simpa using h
        rcases
            chain_ascends hOrder
              (fun last z => waits (less z last))
              (fun last z => !lt z last)
              (fun ha hb => by rw [hOrder.answers hb ha]; rfl)
              (fun ha hb hLt => by simpa using hLt) hy hYs
          with ⟨run, hRun, hUp⟩
        rw [if_neg h, hRun, ok_bind]
        refine ⟨x :: y :: run, rfl, ?_⟩
        refine ascends_cons hUp (List.Perm.refl _) ?_
        intro z hz
        exact hOrder.trans hx hy (all_of_chain hy hYs hRun z hz)
          hLe (hUp.head_le hOrder hy z hz)

/- Inserting into a run that ascends gives one that ascends. -/
theorem insert_ascends
    {less : α → α → Except ε Bool}
    {run : List α}
    {x : α}
    (hOrder : Orders P lt less)
    (hx : P x)
    (hRun : ∀ y ∈ run, P y)
    (hUp : Ascends lt run) :
    ∃ out, insert less run x = .ok out ∧ Ascends lt out := by
  have hFalls := falls_waits hOrder hx hRun hUp
  have hGoes : ∀ y ∈ run,
      waits (less x y) = .ok (!lt x y) := by
    intro y hy
    rw [hOrder.answers hx (hRun y hy)]
    rfl
  unfold insert
  rw [halve_eq (d := .forward) hGoes hFalls, ok_bind]
  refine ⟨_, rfl, ?_⟩
  rw [take_length_takeWhile, drop_length_takeWhile]
  have hAfter : ∀ y ∈ run.dropWhile (fun y => !lt x y),
      y ∈ run := fun y hy => (List.dropWhile_sublist _).subset hy
  refine Ascends.append_cons hOrder
    (hUp.sublist (List.takeWhile_sublist _))
    (ascends_cons (hUp.sublist (List.dropWhile_sublist _))
      (List.Perm.refl _) ?_)
    (fun y hy => hRun y ((List.takeWhile_sublist _).subset hy))
    ?_ ?_
  · intro y hy
    have hGo : lt x y = true := by
      simpa using all_dropWhile_of_falls hFalls y hy
    exact hOrder.asymm hx (hRun y (hAfter y hy)) hGo
  · intro y hy
    rcases List.mem_cons.mp hy with rfl | hy
    · exact hx
    · exact hRun y (hAfter y hy)
  · intro y hy
    simpa using goes_of_mem_takeWhile hy

/- Inserting elements one by one keeps a run ascending. -/
theorem foldlM_insert_ascends
    {less : α → α → Except ε Bool}
    {run xs : List α}
    (hOrder : Orders P lt less)
    (hXs : ∀ x ∈ xs, P x)
    (hRun : ∀ y ∈ run, P y)
    (hUp : Ascends lt run) :
    ∃ out, xs.foldlM (insert less) run = .ok out ∧
      Ascends lt out := by
  induction xs generalizing run with
  | nil => exact ⟨run, rfl, hUp⟩
  | cons x xs ih =>
      have hx := hXs x List.mem_cons_self
      rcases insert_ascends hOrder hx hRun hUp with
        ⟨more, hMore, hMoreUp⟩
      rw [List.foldlM_cons, hMore, ok_bind]
      refine ih (fun y hy => hXs y (List.mem_cons_of_mem _ hy))
        ?_ hMoreUp
      intro y hy
      rcases List.mem_append.mp
        ((insert_perm hMore).mem_iff.mp hy) with hy | hy
      · exact hRun y hy
      · exact List.mem_singleton.mp hy ▸ hx

/- The next run ascends. -/
theorem nextRun_ascends
    {less : α → α → Except ε Bool}
    (least : Nat)
    {x : α}
    {xs : List α}
    (hOrder : Orders P lt less)
    (hx : P x)
    (hXs : ∀ y ∈ xs, P y) :
    ∃ run, nextRun less least x xs = .ok run ∧
      Ascends lt run := by
  rcases naturalRun_ascends hOrder hx hXs with ⟨head, hHead, hUp⟩
  unfold nextRun
  rw [hHead, ok_bind]
  refine foldlM_insert_ascends hOrder
    (fun y hy => hXs y
      (List.mem_of_mem_drop (List.mem_of_mem_take hy))) ?_ hUp
  intro y hy
  rcases List.mem_cons.mp
    ((naturalRun_perm hHead).mem_iff.mp hy) with rfl | hy
  · exact hx
  · exact hXs y (List.mem_of_mem_take hy)

------------------------------------------------------------
-- Runs that Fit
------------------------------------------------------------

/- A run of elements of a kind that ascends. -/
def Fits
    (P : α → Prop)
    (lt : α → α → Bool)
    (run : List α) : Prop :=
  (∀ x ∈ run, P x) ∧ Ascends lt run

/- Runs that fit are merged to one that fits. -/
theorem mergeRuns_fits
    {less : α → α → Except ε Bool}
    (patience : Nat)
    {xs ys : List α}
    (hOrder : Orders P lt less)
    (hXs : Fits P lt xs)
    (hYs : Fits P lt ys) :
    ∃ out p,
      mergeRuns less patience xs ys = .ok (out, p) ∧
        Fits P lt out := by
  rcases
      mergeRuns_ascends patience hOrder
        hXs.1 hYs.1 hXs.2 hYs.2
    with ⟨out, p, hOut, hUp⟩
  refine ⟨out, p, hOut, ?_, hUp⟩
  intro x hx
  rcases List.mem_append.mp
    ((mergeRuns_perm hOut).mem_iff.mp hx) with hx | hx
  · exact hXs.1 x hx
  · exact hYs.1 x hx

/- The next run of a list fits. -/
theorem nextRun_fits
    {less : α → α → Except ε Bool}
    (least : Nat)
    {x : α}
    {xs : List α}
    (hOrder : Orders P lt less)
    (hXs : ∀ y ∈ x :: xs, P y) :
    ∃ run, nextRun less least x xs = .ok run ∧
      Fits P lt run := by
  have hx := hXs x List.mem_cons_self
  rcases
      nextRun_ascends least hOrder hx
        (fun y hy => hXs y (List.mem_cons_of_mem _ hy))
    with ⟨run, hRun, hUp⟩
  refine ⟨run, hRun, ?_, hUp⟩
  intro y hy
  rcases List.mem_cons.mp
    ((nextRun_perm hRun).mem_iff.mp hy) with rfl | hy
  · exact hx
  · exact hXs y
      (List.mem_cons_of_mem _ (List.mem_of_mem_take hy))

------------------------------------------------------------
-- Pending Runs
------------------------------------------------------------

/- Merging the last run into others keeps runs that fit. -/
theorem settle_fits
    {less : α → α → Except ε Bool}
    (level patience : Nat)
    {top : Pending α}
    {rest : List (Pending α)}
    (hOrder : Orders P lt less)
    (hRuns : ∀ run ∈ top :: rest, Fits P lt run.items) :
    ∃ s, settle less level patience top rest = .ok s ∧
      ∀ run ∈ s.runs, Fits P lt run.items := by
  induction rest generalizing patience top with
  | nil =>
      refine ⟨_, rfl, ?_⟩
      intro run hRun
      rcases List.mem_singleton.mp hRun with rfl
      exact hRuns top List.mem_cons_self
  | cons below rest ih =>
      have hAll : Fits P lt top.items ∧
          Fits P lt below.items ∧
            ∀ run ∈ rest, Fits P lt run.items := by
        simpa using hRuns
      rcases hAll with ⟨hTop, hBelow, hRest⟩
      unfold settle
      by_cases h : level < below.level
      · rcases mergeRuns_fits patience hOrder hBelow hTop with
          ⟨items, p, hItems, hFits⟩
        rw [if_pos h, hItems, ok_bind]
        exact ih p (List.forall_mem_cons.mpr ⟨hFits, hRest⟩)
      · rw [if_neg h]
        refine ⟨_, rfl, ?_⟩
        exact List.forall_mem_cons.mpr
          ⟨hTop, List.forall_mem_cons.mpr ⟨hBelow, hRest⟩⟩

/- Adding a run that fits keeps runs that fit. -/
theorem push_fits
    {less : α → α → Except ε Bool}
    (total : Nat)
    {s : Schedule α}
    {run : List α}
    (hOrder : Orders P lt less)
    (hRuns : ∀ r ∈ s.runs, Fits P lt r.items)
    (hRun : Fits P lt run) :
    ∃ t, s.push less total run = .ok t ∧
      ∀ r ∈ t.runs, Fits P lt r.items := by
  unfold Schedule.push
  split
  · refine ⟨_, rfl, ?_⟩
    intro r hr
    rcases List.mem_singleton.mp hr with rfl
    exact hRun
  · next top rest hTop =>
      rw [hTop] at hRuns
      rcases
          settle_fits
            (boundaryLevel total top.start
              top.items.length run.length)
            s.patience hOrder hRuns
        with ⟨t, hSettle, hFits⟩
      simp only
      rw [hSettle, ok_bind]
      exact ⟨_, rfl, List.forall_mem_cons.mpr ⟨hRun, hFits⟩⟩

/- Taking a list run by run gives runs that fit. -/
theorem schedule_fits
    {less : α → α → Except ε Bool}
    (total : Nat)
    {s : Schedule α}
    {xs : List α}
    (hOrder : Orders P lt less)
    (hRuns : ∀ r ∈ s.runs, Fits P lt r.items)
    (hXs : ∀ x ∈ xs, P x) :
    ∃ t, schedule less total s xs = .ok t ∧
      ∀ r ∈ t.runs, Fits P lt r.items := by
  fun_induction schedule less total s xs with
  | case1 s => exact ⟨s, rfl, hRuns⟩
  | case2 s x xs ih =>
      rcases nextRun_fits (leastRun total) hOrder hXs with
        ⟨run, hRun, hFits⟩
      rcases push_fits total hOrder hRuns hFits with
        ⟨t, hPush, hAll⟩
      rw [hRun, ok_bind, hPush, ok_bind]
      exact ih run t hAll
        (fun y hy => hXs y
          (List.mem_cons_of_mem _ (List.mem_of_mem_drop hy)))

/- Merging all runs succeeds, and the result fits. -/
theorem finish_fits
    {less : α → α → Except ε Bool}
    (patience : Nat)
    {top : List α}
    {rest : List (List α)}
    (hOrder : Orders P lt less)
    (hRuns : ∀ run ∈ top :: rest, Fits P lt run) :
    ∃ out, finish less patience top rest = .ok out ∧
      Fits P lt out := by
  fun_induction finish less patience top rest with
  | case1 _ top => exact ⟨top, rfl, hRuns top List.mem_cons_self⟩
  | case2 patience top below =>
      rcases
          mergeRuns_fits patience hOrder
            (hRuns below (by simp)) (hRuns top (by simp))
        with ⟨items, p, hItems, hFits⟩
      rw [hItems, ok_bind]
      exact ⟨items, rfl, hFits⟩
  | case3 patience top below third rest _ ih =>
      have hAll : Fits P lt top ∧
          Fits P lt below ∧ Fits P lt third ∧
            ∀ run ∈ rest, Fits P lt run := by
        simpa using hRuns
      rcases hAll with ⟨hTop, hBelow, hThird, hRest⟩
      rcases
          mergeRuns_fits patience hOrder
            hThird hBelow
        with ⟨items, p, hItems, hFits⟩
      rw [hItems, ok_bind]
      exact ih items p (List.forall_mem_cons.mpr
        ⟨hTop, List.forall_mem_cons.mpr ⟨hFits, hRest⟩⟩)
  | case4 patience top below third rest _ ih =>
      have hAll : Fits P lt top ∧
          Fits P lt below ∧
            ∀ run ∈ third :: rest, Fits P lt run := by
        simpa using hRuns
      rcases hAll with ⟨hTop, hBelow, hOthers⟩
      rcases mergeRuns_fits patience hOrder hBelow hTop with
        ⟨items, p, hItems, hFits⟩
      rw [hItems, ok_bind]
      exact ih items p
        (List.forall_mem_cons.mpr ⟨hFits, hOthers⟩)

------------------------------------------------------------
-- Sorting
------------------------------------------------------------

/-
  Sorting by an order succeeds, and gives the elements of the
  list so that they ascend.
-/
theorem sort_ascends
    {less : α → α → Except ε Bool}
    {xs : List α}
    (hOrder : Orders P lt less)
    (hXs : ∀ x ∈ xs, P x) :
    ∃ out, sort less xs = .ok out ∧
      out.Perm xs ∧ Ascends lt out := by
  rcases
      schedule_fits xs.length (s := .empty) hOrder
        (fun r hr => absurd hr List.not_mem_nil) hXs
    with ⟨s, hSchedule, hFits⟩
  have hSort : ∃ out, sort less xs = .ok out ∧
      Fits P lt out := by
    unfold sort
    rw [hSchedule, ok_bind]
    split
    · exact ⟨[], rfl, by simp, List.Pairwise.nil⟩
    · next top rest hRuns =>
        refine finish_fits s.patience hOrder ?_
        intro run hRun
        rw [← hRuns] at hRun
        rcases List.mem_map.mp hRun with ⟨r, hr, rfl⟩
        exact hFits r hr
  rcases hSort with ⟨out, hOut, _, hUp⟩
  exact ⟨out, hOut, sort_perm hOut, hUp⟩

end Sorting

end FactBase
