import Mathlib.Data.List.Pairwise
import FactBase.Sorting.Permutation

/-
  This file proves what a sort that succeeds tells about its
  elements: comparisons link all of them.  A run is linked
  inside, and to merge two runs an element of one has to be
  compared with an element of the other.  So a symmetric and
  transitive relation that holds wherever a comparison
  succeeds holds between any two elements.

  Key definitions include:
    * `Sorting.Links`

  Key theorems include:
    * `Sorting.pairwise_mergeRuns`
    * `Sorting.pairwise_nextRun`
    * `Sorting.pairwise_sort`
-/

------------------------------------------------------------
-- Searches that Test
------------------------------------------------------------

namespace FactBase

namespace Sorting

variable {α ε : Type}

section Tests

variable {d : Direction}
variable {goes : α → Except ε Bool}
variable {xs : List α}
variable {k : Nat}

/- Halving tests an element if there is one. -/
theorem exists_test_of_halve
    (h : halve d goes xs = .ok k)
    (hXs : xs ≠ []) :
    ∃ x ∈ xs, ∃ b, goes x = .ok b := by
  unfold halve at h
  split at h
  · next hNone =>
      have hLt :=
        d.middle_lt (List.length_pos_iff.mpr hXs)
      rw [List.getElem?_eq_none_iff] at hNone
      omega
  · next x hMiddle =>
      rcases bind_eq_ok.mp h with ⟨b, hb, -⟩
      exact ⟨x, List.mem_of_getElem? hMiddle, b, hb⟩

/- So does leaping. -/
theorem exists_test_of_gallop
    (h : gallop d goes xs = .ok k)
    (hXs : xs ≠ []) :
    ∃ x ∈ xs, ∃ b, goes x = .ok b := by
  unfold gallop gallopFrom at h
  dsimp only at h
  split at h
  · rcases bind_eq_ok.mp h with ⟨n, hn, -⟩
    exact exists_test_of_halve hn hXs
  · next x hNext =>
      rcases bind_eq_ok.mp h with ⟨b, hb, -⟩
      exact ⟨x, List.mem_of_getElem? hNext, b, hb⟩

/- What waits was compared. -/
theorem exists_ok_of_waits
    {x : Except ε Bool}
    {b : Bool}
    (h : waits x = .ok b) : ∃ c, x = .ok c := by
  rcases bind_eq_ok.mp h with ⟨c, hc, -⟩
  exact ⟨c, hc⟩

end Tests

------------------------------------------------------------
-- Links
------------------------------------------------------------

/-
  Elements that can be compared are related, and so are those
  that others relate.
-/
structure Links
    (R : α → α → Prop)
    (less : α → α → Except ε Bool) : Prop where
  compared : ∀ {x y b}, less x y = .ok b → R x y
  symm : ∀ {x y}, R x y → R y x
  trans : ∀ {x y z}, R x y → R y z → R x z

section Linked

variable {R : α → α → Prop}
variable {less : α → α → Except ε Bool}
variable {patience level total : Nat}
variable {xs ys out : List α}

/- What one element of a linked list relates to, all do. -/
theorem Links.related
    (hLinks : Links R less)
    (hXs : xs.Pairwise R)
    {x y z : α}
    (hx : x ∈ xs)
    (hy : y ∈ xs)
    (h : R y z) : R x z := by
  have hSymm : Std.Symm R := ⟨fun _ _ => hLinks.symm⟩
  by_cases hSame : x = y
  · rw [hSame]
    exact h
  · exact hLinks.trans (hXs.forall hx hy hSame) h

/- Two lists are linked if an element of each is. -/
theorem Links.pairwise_append
    (hLinks : Links R less)
    (hXs : xs.Pairwise R)
    (hYs : ys.Pairwise R)
    {x y : α}
    (hx : x ∈ xs)
    (hy : y ∈ ys)
    (h : R x y) : (xs ++ ys).Pairwise R := by
  rw [List.pairwise_append]
  refine ⟨hXs, hYs, ?_⟩
  intro a ha b hb
  have hFirst : R a y := hLinks.related hXs ha hx h
  exact
    hLinks.symm
      (hLinks.related hYs hb hy (hLinks.symm hFirst))

/- Elements keep their links in any order. -/
theorem Links.pairwise_of_perm
    (hLinks : Links R less)
    (h : out.Perm xs)
    (hXs : xs.Pairwise R) : out.Pairwise R :=
  (h.pairwise_iff hLinks.symm).mpr hXs

/-
  A merge links its runs: the first element of the second one
  is compared with some element of the first.
-/
theorem pairwise_mergeRuns
    (hLinks : Links R less)
    {p : Nat}
    (h : mergeRuns less patience xs ys = .ok (out, p))
    (hXs : xs.Pairwise R)
    (hYs : ys.Pairwise R) : out.Pairwise R := by
  refine hLinks.pairwise_of_perm (mergeRuns_perm h) ?_
  by_cases hEmpty : xs = []
  · rw [hEmpty, List.nil_append]
    exact hYs
  unfold mergeRuns at h
  split at h
  · rw [List.append_nil]
    exact hXs
  · next y ys =>
      rcases bind_eq_ok.mp h with ⟨k, hk, -⟩
      rcases exists_test_of_gallop hk hEmpty with
        ⟨x, hx, b, hb⟩
      rcases exists_ok_of_waits hb with ⟨c, hc⟩
      exact
        hLinks.pairwise_append hXs hYs hx List.mem_cons_self
          (hLinks.symm (hLinks.compared hc))

------------------------------------------------------------
-- Linked Runs
------------------------------------------------------------

/- Each element of a chain is compared with the last one. -/
theorem pairwise_chain
    (hLinks : Links R less)
    {follows : α → α → Except ε Bool}
    (hFollows : ∀ {x y b}, follows x y = .ok b → R x y)
    {last : α}
    {run : List α}
    (h : chain follows last xs = .ok run) :
    (last :: run).Pairwise R := by
  induction xs generalizing last run with
  | nil =>
      rcases Except.ok.inj h with rfl
      exact List.pairwise_singleton R last
  | cons x xs ih =>
      rcases bind_eq_ok.mp h with ⟨b, hb, h⟩
      split at h
      · rcases bind_eq_ok.mp h with ⟨rest, hRest, h⟩
        rcases pure_eq_ok.mp h with rfl
        exact
          hLinks.pairwise_append
            (List.pairwise_singleton R last) (ih hRest)
            List.mem_cons_self List.mem_cons_self
            (hFollows hb)
      · rcases pure_eq_ok.mp h with rfl
        exact List.pairwise_singleton R last

/- A natural run is linked. -/
theorem pairwise_naturalRun
    (hLinks : Links R less)
    {x : α}
    {run : List α}
    (h : naturalRun less x xs = .ok run) :
    run.Pairwise R := by
  have hWaits :
      ∀ {y z b}, waits (less z y) = .ok b → R y z := by
    intro y z b hb
    rcases exists_ok_of_waits hb with ⟨c, hc⟩
    exact hLinks.symm (hLinks.compared hc)
  cases xs with
  | nil =>
      rcases Except.ok.inj h with rfl
      exact List.pairwise_singleton R x
  | cons y ys =>
      rcases bind_eq_ok.mp h with ⟨b, hb, h⟩
      have hFirst : R x y := hLinks.symm (hLinks.compared hb)
      have hWith :
          ∀ rest, (y :: rest).Pairwise R →
            (x :: y :: rest).Pairwise R :=
        fun rest hRest =>
          hLinks.pairwise_append (List.pairwise_singleton R x)
            hRest List.mem_cons_self List.mem_cons_self hFirst
      split at h
      · rcases bind_eq_ok.mp h with ⟨rest, hRest, h⟩
        rcases pure_eq_ok.mp h with rfl
        refine
          hLinks.pairwise_of_perm (List.reverse_perm _)
            (hWith rest (pairwise_chain hLinks ?_ hRest))
        exact fun hb => hLinks.symm (hLinks.compared hb)
      · rcases bind_eq_ok.mp h with ⟨rest, hRest, h⟩
        rcases pure_eq_ok.mp h with rfl
        exact hWith rest (pairwise_chain hLinks hWaits hRest)

/- An element that is inserted is linked to the run. -/
theorem pairwise_insert
    (hLinks : Links R less)
    {run : List α}
    {x : α}
    (h : insert less run x = .ok out)
    (hRun : run.Pairwise R) : out.Pairwise R := by
  refine hLinks.pairwise_of_perm (insert_perm h) ?_
  by_cases hEmpty : run = []
  · rw [hEmpty]
    exact List.pairwise_singleton R x
  rcases bind_eq_ok.mp h with ⟨k, hk, -⟩
  rcases exists_test_of_halve hk hEmpty with ⟨y, hy, b, hb⟩
  rcases exists_ok_of_waits hb with ⟨c, hc⟩
  exact
    hLinks.pairwise_append hRun (List.pairwise_singleton R x)
      hy List.mem_cons_self (hLinks.symm (hLinks.compared hc))

/- A run that is filled up is linked. -/
theorem pairwise_nextRun
    (hLinks : Links R less)
    {least : Nat}
    {x : α}
    {run : List α}
    (h : nextRun less least x xs = .ok run) :
    run.Pairwise R := by
  have hFill :
      ∀ (more run out : List α), run.Pairwise R →
        more.foldlM (insert less) run = .ok out →
          out.Pairwise R := by
    intro more
    induction more with
    | nil =>
        intro run out hRun h
        rcases pure_eq_ok.mp h with rfl
        exact hRun
    | cons z more ih =>
        intro run out hRun h
        rw [List.foldlM_cons] at h
        rcases bind_eq_ok.mp h with ⟨next, hNext, h⟩
        exact ih next out (pairwise_insert hLinks hNext hRun) h
  rcases bind_eq_ok.mp h with ⟨head, hHead, h⟩
  exact hFill _ head run (pairwise_naturalRun hLinks hHead) h

------------------------------------------------------------
-- Linked Schedules
------------------------------------------------------------

/- All runs that wait are linked, each one inside. -/
def Schedule.Linked
    (R : α → α → Prop)
    (s : Schedule α) : Prop :=
  ∀ r ∈ s.runs, r.items.Pairwise R

/- Merging the last run into others leaves runs linked. -/
theorem linked_settle
    (hLinks : Links R less)
    {top : Pending α}
    {rest : List (Pending α)}
    {s : Schedule α}
    (h : settle less level patience top rest = .ok s)
    (hTop : top.items.Pairwise R)
    (hRest : ∀ r ∈ rest, r.items.Pairwise R) :
    s.Linked R := by
  induction rest generalizing patience top with
  | nil =>
      rcases Except.ok.inj h with rfl
      exact List.forall_mem_singleton.mpr hTop
  | cons below rest ih =>
      rw [List.forall_mem_cons] at hRest
      unfold settle at h
      split at h
      · rcases bind_eq_ok.mp h with ⟨⟨items, p⟩, hItems, h⟩
        exact
          ih h (pairwise_mergeRuns hLinks hItems hRest.1 hTop)
            hRest.2
      · rcases pure_eq_ok.mp h with rfl
        exact
          List.forall_mem_cons.mpr
            ⟨hTop, List.forall_mem_cons.mpr hRest⟩

/- So does adding a run that is linked. -/
theorem linked_push
    (hLinks : Links R less)
    {s t : Schedule α}
    {run : List α}
    (h : s.push less total run = .ok t)
    (hRun : run.Pairwise R)
    (hRuns : s.Linked R) : t.Linked R := by
  unfold Schedule.Linked at hRuns
  unfold Schedule.push at h
  split at h
  · rcases Except.ok.inj h with rfl
    exact List.forall_mem_singleton.mpr hRun
  · next top rest hTop =>
      rw [hTop, List.forall_mem_cons] at hRuns
      rcases bind_eq_ok.mp h with ⟨settled, hSettled, h⟩
      rcases pure_eq_ok.mp h with rfl
      exact
        List.forall_mem_cons.mpr
          ⟨hRun, linked_settle hLinks hSettled hRuns.1 hRuns.2⟩

/- So does taking a list run by run. -/
theorem linked_schedule
    (hLinks : Links R less)
    {s t : Schedule α}
    (h : schedule less total s xs = .ok t)
    (hRuns : s.Linked R) : t.Linked R := by
  fun_induction schedule less total s xs with
  | case1 s =>
      rcases Except.ok.inj h with rfl
      exact hRuns
  | case2 s x xs ih =>
      rcases bind_eq_ok.mp h with ⟨run, hRun, h⟩
      rcases bind_eq_ok.mp h with ⟨pushed, hPushed, h⟩
      refine ih run pushed h ?_
      exact
        linked_push hLinks hPushed
          (pairwise_nextRun hLinks hRun) hRuns

/- Merging all runs links them. -/
theorem pairwise_finish
    (hLinks : Links R less)
    {top : List α}
    {rest : List (List α)}
    (h : finish less patience top rest = .ok out)
    (hTop : top.Pairwise R)
    (hRest : ∀ run ∈ rest, run.Pairwise R) :
    out.Pairwise R := by
  fun_induction finish less patience top rest with
  | case1 =>
      rcases Except.ok.inj h with rfl
      exact hTop
  | case2 _ top below =>
      rcases bind_eq_ok.mp h with ⟨⟨items, _⟩, hItems, h⟩
      rcases pure_eq_ok.mp h with rfl
      rw [List.forall_mem_singleton] at hRest
      exact pairwise_mergeRuns hLinks hItems hRest hTop
  | case3 _ top below third rest _ ih =>
      simp only [List.forall_mem_cons] at hRest
      rcases hRest with ⟨hBelow, hThird, hRest⟩
      rcases bind_eq_ok.mp h with ⟨⟨items, p⟩, hItems, h⟩
      have hMerged :=
        pairwise_mergeRuns hLinks hItems hThird hBelow
      exact
        ih items p h hTop
          (List.forall_mem_cons.mpr ⟨hMerged, hRest⟩)
  | case4 _ top below third rest _ ih =>
      simp only [List.forall_mem_cons] at hRest
      rcases hRest with ⟨hBelow, hThird, hRest⟩
      rcases bind_eq_ok.mp h with ⟨⟨items, p⟩, hItems, h⟩
      have hMerged :=
        pairwise_mergeRuns hLinks hItems hBelow hTop
      exact
        ih items p h hMerged
          (List.forall_mem_cons.mpr ⟨hThird, hRest⟩)

/- A sort that succeeds links all elements. -/
theorem pairwise_sort
    (hLinks : Links R less)
    (h : sort less xs = .ok out) :
    xs.Pairwise R := by
  refine hLinks.pairwise_of_perm (sort_perm h).symm ?_
  rcases bind_eq_ok.mp h with ⟨s, hSchedule, h⟩
  have hRuns : s.Linked R :=
    linked_schedule hLinks hSchedule nofun
  have hItems :
      ∀ run ∈ s.runs.map Pending.items, run.Pairwise R :=
    List.forall_mem_map.mpr hRuns
  split at h
  · rcases pure_eq_ok.mp h with rfl
    exact List.Pairwise.nil
  · next top rest hMap =>
      rw [hMap, List.forall_mem_cons] at hItems
      exact pairwise_finish hLinks h hItems.1 hItems.2

end Linked

end Sorting

end FactBase
