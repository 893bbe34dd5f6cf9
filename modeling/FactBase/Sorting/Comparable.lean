import FactBase.Sorting.Permutation

/-
  This file proves that sorting succeeds if all elements can
  be compared, whether or not the answers make an order.

  Key definitions include:
    * `Sorting.Compares`

  Key theorems include:
    * `Sorting.exists_mergeRuns`
    * `Sorting.exists_nextRun`
    * `Sorting.exists_sort`
-/

------------------------------------------------------------
-- Searches that Succeed
------------------------------------------------------------

namespace FactBase

namespace Sorting

variable {α ε : Type}

section Success

variable {d : Direction}
variable {goes : α → Except ε Bool}
variable {xs : List α}

/- Halving succeeds if all elements can be tested. -/
theorem exists_halve
    (h : ∀ x ∈ xs, ∃ b, goes x = .ok b) :
    ∃ k, halve d goes xs = .ok k := by
  fun_induction halve d goes xs with
  | case1 xs hNone => exact ⟨0, rfl⟩
  | case2 xs x hMiddle i ihDrop ihTake =>
      refine exists_bind (h x (List.mem_of_getElem? hMiddle)) ?_
      intro b _
      split
      · refine
          exists_bind
            (ihDrop (fun y hy => h y (List.mem_of_mem_drop hy)))
            ?_
        exact fun k _ => ⟨_, rfl⟩
      · exact ihTake (fun y hy => h y (List.mem_of_mem_take hy))

/- Leaping succeeds if all elements can be tested. -/
theorem exists_gallop
    (h : ∀ x ∈ xs, ∃ b, goes x = .ok b) :
    ∃ k, gallop d goes xs = .ok k := by
  unfold gallop
  generalize 0 = known
  fun_induction gallopFrom d goes known xs with
  | case1 known next hNone =>
      refine exists_bind (exists_halve ?_) (fun k _ => ⟨_, rfl⟩)
      exact fun y hy => h y (List.mem_of_mem_drop hy)
  | case2 known next x hNext ih =>
      refine exists_bind (h x (List.mem_of_getElem? hNext)) ?_
      intro b _
      split
      · exact ih
      · refine
          exists_bind (exists_halve ?_) (fun k _ => ⟨_, rfl⟩)
        intro y hy
        exact
          h y (List.mem_of_mem_take (List.mem_of_mem_drop hy))

end Success

------------------------------------------------------------
-- Merges that Succeed
------------------------------------------------------------

/- All elements that are as stated can be compared. -/
def Compares
    (P : α → Prop)
    (less : α → α → Except ε Bool) : Prop :=
  ∀ x y, P x → P y → ∃ b, less x y = .ok b

section Success

variable {P : α → Prop}
variable {d : Direction}
variable {less : α → α → Except ε Bool}
variable {patience : Nat}
variable {xs ys : List α}

/- Whether an element waits can be told as well. -/
theorem exists_waits
    {x : Except ε Bool}
    (h : ∃ b, x = .ok b) : ∃ b, waits x = .ok b :=
  exists_bind h (fun _ _ => ⟨_, rfl⟩)

/- A merge succeeds if all elements can be compared. -/
theorem exists_mergeFrom
    {pace : Pace}
    (hLess : Compares P less)
    (hShort : ∀ x ∈ xs, P x)
    (hLong : ∀ y ∈ ys, P y) :
    ∃ out, mergeFrom d less pace patience xs ys = .ok out := by
  fun_induction mergeFrom d less pace patience xs ys with
  | case1 _ _ s s' shorts l longs _ _ _ _ ihLong ihShort =>
      have hl := hLong l List.mem_cons_self
      have hs := hShort s List.mem_cons_self
      refine exists_bind (hLess l s hl hs) ?_
      intro b _
      split
      · refine
          exists_bind
            (ihLong hShort
              (fun y hy => hLong y (List.mem_cons_of_mem _ hy)))
            (fun _ _ => ⟨_, rfl⟩)
      · refine
          exists_bind
            (ihShort
              (fun x hx => hShort x (List.mem_cons_of_mem _ hx))
              hLong)
            (fun _ _ => ⟨_, rfl⟩)
  | case2 _ _ s s' shorts l longs =>
      rename_i all ih
      have hl := hLong l List.mem_cons_self
      have hSearch :
          ∃ k,
            gallop d (fun x => waits (less l x)) all = .ok k :=
        exists_gallop (fun x hx =>
          exists_waits (hLess l x hl (hShort x hx)))
      refine exists_bind hSearch ?_
      intro k _
      refine exists_bind (ih k ?_ ?_) (fun _ _ => ⟨_, rfl⟩)
      · exact fun x hx => hShort x (List.mem_of_mem_drop hx)
      · exact fun y hy => hLong y (List.mem_cons_of_mem _ hy)
  | case3 _ _ s s' shorts l longs =>
      rename_i all ih
      have hs := hShort s List.mem_cons_self
      have hSearch :
          ∃ k, gallop d (fun y => less y s) all = .ok k :=
        exists_gallop (fun y hy => hLess y s (hLong y hy) hs)
      refine exists_bind hSearch ?_
      intro k _
      refine exists_bind (ih k ?_ ?_) (fun _ _ => ⟨_, rfl⟩)
      · exact fun x hx => hShort x (List.mem_cons_of_mem _ hx)
      · exact fun y hy => hLong y (List.mem_of_mem_drop hy)
  | case4 => exact ⟨_, rfl⟩

/- So does a merge from the nearer end. -/
theorem exists_mergeOverlap
    (hLess : Compares P less)
    (hXs : ∀ x ∈ xs, P x)
    (hYs : ∀ y ∈ ys, P y) :
    ∃ out, mergeOverlap less patience xs ys = .ok out := by
  unfold mergeOverlap
  split
  · split
    · exact ⟨_, rfl⟩
    next y ys =>
      refine
        exists_bind (exists_mergeFrom hLess hXs ?_)
          (fun _ _ => ⟨_, rfl⟩)
      exact fun z hz => hYs z (List.mem_cons_of_mem _ hz)
  · split
    · exact ⟨_, rfl⟩
    next x back hBack =>
      have hFlip : Compares P (fun l s => less s l) :=
        fun l s hl hs => hLess s l hs hl
      refine
        exists_bind (exists_mergeFrom hFlip ?_ ?_)
          (fun _ _ => ⟨_, rfl⟩)
      · exact fun z hz => hYs z (List.mem_reverse.mp hz)
      · intro z hz
        refine hXs z (List.mem_reverse.mp ?_)
        rw [hBack]
        exact List.mem_cons_of_mem _ hz

/- So does merging two runs. -/
theorem exists_mergeRuns
    (hLess : Compares P less)
    (hXs : ∀ x ∈ xs, P x)
    (hYs : ∀ y ∈ ys, P y) :
    ∃ out, mergeRuns less patience xs ys = .ok out := by
  unfold mergeRuns
  split
  · exact ⟨_, rfl⟩
  next y ys =>
    have hy := hYs y List.mem_cons_self
    have hSearch :
        ∃ k,
          gallop .forward (fun x => waits (less y x)) xs
            = .ok k :=
      exists_gallop (fun x hx =>
        exists_waits (hLess y x hy (hXs x hx)))
    refine exists_bind hSearch ?_
    intro k _
    split
    · exact ⟨_, rfl⟩
    next x hLast =>
      have hx : P x :=
        hXs x
          (List.mem_of_mem_drop (List.mem_of_getLast? hLast))
      have hBack :
          ∃ t,
            gallop .backward (fun z => waits (less z x))
              (y :: ys).reverse = .ok t :=
        exists_gallop (fun z hz =>
          exists_waits
            (hLess z x (hYs z (List.mem_reverse.mp hz)) hx))
      refine exists_bind hBack ?_
      intro t _
      refine
        exists_bind (exists_mergeOverlap hLess ?_ ?_)
          (fun _ _ => ⟨_, rfl⟩)
      · exact fun z hz => hXs z (List.mem_of_mem_drop hz)
      · intro z hz
        have hMem := List.mem_of_mem_drop (List.mem_reverse.mp hz)
        exact hYs z (List.mem_reverse.mp hMem)

------------------------------------------------------------
-- Runs that Succeed
------------------------------------------------------------

/- A chain can be followed if all elements can be compared. -/
theorem exists_chain
    {follows : α → α → Except ε Bool}
    (hFollows : Compares P follows)
    {last : α}
    (hLast : P last)
    (hXs : ∀ x ∈ xs, P x) :
    ∃ run, chain follows last xs = .ok run := by
  induction xs generalizing last with
  | nil => exact ⟨_, rfl⟩
  | cons x xs ih =>
      rw [List.forall_mem_cons] at hXs
      refine exists_bind (hFollows last x hLast hXs.1) ?_
      intro b _
      split
      · exact
          exists_bind (ih hXs.1 hXs.2) (fun _ _ => ⟨_, rfl⟩)
      · exact ⟨_, rfl⟩

/- So can a natural run. -/
theorem exists_naturalRun
    (hLess : Compares P less)
    {x : α}
    (hx : P x)
    (hXs : ∀ y ∈ xs, P y) :
    ∃ run, naturalRun less x xs = .ok run := by
  cases xs with
  | nil => exact ⟨_, rfl⟩
  | cons y ys =>
      rw [List.forall_mem_cons] at hXs
      refine exists_bind (hLess y x hXs.1 hx) ?_
      intro b _
      split
      · refine
          exists_bind (exists_chain ?_ hXs.1 hXs.2)
            (fun _ _ => ⟨_, rfl⟩)
        exact fun a b ha hb => hLess b a hb ha
      · refine
          exists_bind (exists_chain ?_ hXs.1 hXs.2)
            (fun _ _ => ⟨_, rfl⟩)
        exact fun a b ha hb => exists_waits (hLess b a hb ha)

/- So can a run that is filled up. -/
theorem exists_nextRun
    (hLess : Compares P less)
    {least : Nat}
    {x : α}
    (hx : P x)
    (hXs : ∀ y ∈ xs, P y) :
    ∃ run, nextRun less least x xs = .ok run := by
  have hFill :
      ∀ (more run : List α), (∀ y ∈ more, P y) →
        (∀ y ∈ run, P y) →
          ∃ out, more.foldlM (insert less) run = .ok out := by
    intro more
    induction more with
    | nil => exact fun run _ _ => ⟨run, rfl⟩
    | cons z more ih =>
        intro run hMore hRun
        rw [List.forall_mem_cons] at hMore
        have hPlace :
            ∃ k,
              halve .forward (fun y => waits (less z y)) run
                = .ok k :=
          exists_halve (fun y hy =>
            exists_waits (hLess z y hMore.1 (hRun y hy)))
        have hInsert : ∃ next, insert less run z = .ok next :=
          exists_bind hPlace (fun _ _ => ⟨_, rfl⟩)
        rw [List.foldlM_cons]
        refine exists_bind hInsert ?_
        intro next hNext
        refine ih next hMore.2 ?_
        intro y hy
        have hMem := (insert_perm hNext).subset hy
        rcases List.mem_append.mp hMem with hy | hy
        · exact hRun y hy
        · rw [List.mem_singleton.mp hy]
          exact hMore.1
  refine exists_bind (exists_naturalRun hLess hx hXs) ?_
  intro run hRun
  refine hFill _ run ?_ ?_
  · intro y hy
    exact
      hXs y (List.mem_of_mem_drop (List.mem_of_mem_take hy))
  · intro y hy
    rcases List.mem_cons.mp ((naturalRun_perm hRun).subset hy)
      with rfl | hy
    · exact hx
    · exact hXs y (List.mem_of_mem_take hy)

------------------------------------------------------------
-- Sorts that Succeed
------------------------------------------------------------

variable {level total : Nat}
variable {s : Schedule α}

/- What holds of two runs holds of the merged run. -/
theorem forall_mem_mergeRuns
    {out : List α}
    {p : Nat}
    (h : mergeRuns less patience xs ys = .ok (out, p))
    (hXs : ∀ x ∈ xs, P x)
    (hYs : ∀ y ∈ ys, P y) :
    ∀ z ∈ out, P z := by
  intro z hz
  have hMem := (mergeRuns_perm h).subset hz
  exact (List.mem_append.mp hMem).elim (hXs z) (hYs z)

/- Merging the last run into others succeeds. -/
theorem exists_settle
    (hLess : Compares P less)
    {top : Pending α}
    {rest : List (Pending α)}
    (hTop : ∀ x ∈ top.items, P x)
    (hRest : ∀ x ∈ pendingItems rest, P x) :
    ∃ t, settle less level patience top rest = .ok t := by
  induction rest generalizing patience top with
  | nil => exact ⟨_, rfl⟩
  | cons below rest ih =>
      simp only [pendingItems, List.flatMap_cons,
        List.forall_mem_append] at hRest
      unfold settle
      split
      · refine
          exists_bind (exists_mergeRuns hLess hRest.1 hTop) ?_
        rintro ⟨items, p⟩ hItems
        exact
          ih (forall_mem_mergeRuns hItems hRest.1 hTop) hRest.2
      · exact ⟨_, rfl⟩

/- So does adding a run. -/
theorem exists_push
    (hLess : Compares P less)
    {run : List α}
    (hRuns : ∀ x ∈ pendingItems s.runs, P x) :
    ∃ t, s.push less total run = .ok t := by
  unfold Schedule.push
  split
  · exact ⟨_, rfl⟩
  · next top rest hTop =>
      simp only [hTop, pendingItems, List.flatMap_cons,
        List.forall_mem_append] at hRuns
      exact
        exists_bind (exists_settle hLess hRuns.1 hRuns.2)
          (fun _ _ => ⟨_, rfl⟩)

/- So does taking a list run by run. -/
theorem exists_schedule
    (hLess : Compares P less)
    (hXs : ∀ x ∈ xs, P x)
    (hRuns : ∀ x ∈ pendingItems s.runs, P x) :
    ∃ t, schedule less total s xs = .ok t := by
  fun_induction schedule less total s xs with
  | case1 s => exact ⟨s, rfl⟩
  | case2 s x xs ih =>
      rw [List.forall_mem_cons] at hXs
      refine
        exists_bind (exists_nextRun hLess hXs.1 hXs.2) ?_
      intro run hRun
      refine exists_bind (exists_push hLess hRuns) ?_
      intro pushed hPushed
      refine ih run pushed ?_ ?_
      · exact fun y hy => hXs.2 y (List.mem_of_mem_drop hy)
      · intro y hy
        have hMem := (push_perm hPushed).subset hy
        rcases List.mem_append.mp hMem with hy | hy
        · rcases List.mem_cons.mp ((nextRun_perm hRun).subset hy)
            with rfl | hy
          · exact hXs.1
          · exact hXs.2 y (List.mem_of_mem_take hy)
        · exact hRuns y hy

/- So does merging all runs. -/
theorem exists_finish
    (hLess : Compares P less)
    {top : List α}
    {rest : List (List α)}
    (hTop : ∀ x ∈ top, P x)
    (hRest : ∀ x ∈ rest.flatten, P x) :
    ∃ out, finish less patience top rest = .ok out := by
  fun_induction finish less patience top rest with
  | case1 => exact ⟨_, rfl⟩
  | case2 _ top below =>
      simp only [List.flatten_cons,
        List.forall_mem_append] at hRest
      exact
        exists_bind (exists_mergeRuns hLess hRest.1 hTop)
          (fun _ _ => ⟨_, rfl⟩)
  | case3 _ top below third rest _ ih =>
      simp only [List.flatten_cons,
        List.forall_mem_append] at hRest
      rcases hRest with ⟨hBelow, hThird, hRest⟩
      refine
        exists_bind (exists_mergeRuns hLess hThird hBelow) ?_
      rintro ⟨items, p⟩ hItems
      refine ih items p hTop ?_
      rw [List.flatten_cons, List.forall_mem_append]
      exact
        ⟨forall_mem_mergeRuns hItems hThird hBelow, hRest⟩
  | case4 _ top below third rest _ ih =>
      simp only [List.flatten_cons,
        List.forall_mem_append] at hRest
      rcases hRest with ⟨hBelow, hThird, hRest⟩
      refine
        exists_bind (exists_mergeRuns hLess hBelow hTop) ?_
      rintro ⟨items, p⟩ hItems
      refine ih items p ?_ ?_
      · exact forall_mem_mergeRuns hItems hBelow hTop
      · rw [List.flatten_cons, List.forall_mem_append]
        exact ⟨hThird, hRest⟩

/- Sorting succeeds if all elements can be compared. -/
theorem exists_sort
    (hLess : Compares P less)
    (hXs : ∀ x ∈ xs, P x) :
    ∃ out, sort less xs = .ok out := by
  have hEmpty :
      ∀ x ∈ pendingItems (Schedule.empty : Schedule α).runs,
        P x := nofun
  refine exists_bind (exists_schedule hLess hXs hEmpty) ?_
  intro s hSchedule
  have hAll : ∀ x ∈ pendingItems s.runs, P x := by
    intro x hx
    have hMem := (schedule_perm hSchedule).subset hx
    exact (List.mem_append.mp hMem).elim (hXs x) (hEmpty x)
  split
  · exact ⟨_, rfl⟩
  · next top rest hRuns =>
      rw [pendingItems, List.flatMap_def, hRuns,
        List.flatten_cons, List.forall_mem_append] at hAll
      exact exists_finish hLess hAll.1 hAll.2

/- A single element is not compared with any. -/
theorem sort_singleton (x : α) : sort less [x] = .ok [x] := by
  simp [sort, schedule, nextRun, naturalRun, Schedule.push,
    Schedule.empty, finish, ok_bind]

end Success

end Sorting

end FactBase
