import FactBase.Sorting.Sort
import FactBase.Sorting.Attempt

/-
  This file proves that sorting only moves elements: whatever
  the comparison answers, the result is a permutation of the
  list.

  Key theorems include:
    * `Sorting.mergeRuns_perm`
    * `Sorting.nextRun_perm`
    * `Sorting.sort_perm`
-/

------------------------------------------------------------
-- Merging
------------------------------------------------------------

namespace FactBase

namespace Sorting

variable {α ε : Type}

/- A list is a permutation of its parts, taken in any place. -/
theorem take_cons_perm
    (k : Nat)
    (x : α)
    {xs ys rest : List α}
    (h : rest.Perm (xs.drop k ++ ys)) :
    (xs.take k ++ x :: rest).Perm (x :: xs ++ ys) := by
  have hRest : (xs.take k ++ rest).Perm (xs ++ ys) := by
    have hTake := h.append_left (xs.take k)
    rwa [← List.append_assoc, List.take_append_drop] at hTake
  exact List.perm_middle.trans (hRest.cons x)

/- A merge keeps all elements. -/
theorem mergeFrom_perm
    {d : Direction}
    {goesFirst : α → α → Except ε Bool}
    {pace : Pace}
    {patience : Nat}
    {short long out : List α}
    {p : Nat}
    (h : mergeFrom d goesFirst pace patience short long
      = .ok (out, p)) :
    out.Perm (short ++ long) := by
  fun_induction mergeFrom d goesFirst pace patience short long
    generalizing out p with
  | case1 _ _ s s' shorts l longs _ _ _ _ ihLong ihShort =>
      rcases bind_eq_ok.mp h with ⟨b, -, h⟩
      split at h
      · rcases bind_eq_ok.mp h with ⟨⟨rest, _⟩, hRest, h⟩
        rcases pure_eq_ok.mp h with ⟨rfl, rfl⟩
        exact ((ihLong hRest).cons l).trans
          List.perm_middle.symm
      · rcases bind_eq_ok.mp h with ⟨⟨rest, _⟩, hRest, h⟩
        rcases pure_eq_ok.mp h with ⟨rfl, rfl⟩
        exact (ihShort hRest).cons s
  | case2 _ _ s s' shorts l longs =>
      rename_i all ih
      rcases bind_eq_ok.mp h with ⟨k, -, h⟩
      rcases bind_eq_ok.mp h with ⟨⟨rest, _⟩, hRest, h⟩
      rcases pure_eq_ok.mp h with ⟨rfl, rfl⟩
      exact (take_cons_perm k l (ih k hRest)).trans
        List.perm_middle.symm
  | case3 _ _ s s' shorts l longs =>
      rename_i all ih
      rcases bind_eq_ok.mp h with ⟨k, -, h⟩
      rcases bind_eq_ok.mp h with ⟨⟨rest, _⟩, hRest, h⟩
      rcases pure_eq_ok.mp h with ⟨rfl, rfl⟩
      have hComm := (ih k hRest).trans List.perm_append_comm
      have hSwap : (all ++ s' :: shorts).Perm
          (s' :: shorts ++ all) :=
        List.perm_append_comm
      exact (take_cons_perm k s hComm).trans (hSwap.cons s)
  | case4 =>
      rcases Except.ok.inj h with ⟨rfl, rfl⟩
      exact List.perm_append_comm

/- A merge from the nearer end keeps all elements. -/
theorem mergeOverlap_perm
    {less : α → α → Except ε Bool}
    {patience : Nat}
    {xs ys out : List α}
    {p : Nat}
    (h : mergeOverlap less patience xs ys = .ok (out, p)) :
    out.Perm (xs ++ ys) := by
  unfold mergeOverlap at h
  split at h
  · split at h
    · rcases Except.ok.inj h with ⟨rfl, rfl⟩
      simp
    · next y ys _ =>
        rcases bind_eq_ok.mp h with ⟨⟨rest, _⟩, hRest, h⟩
        rcases pure_eq_ok.mp h with ⟨rfl, rfl⟩
        exact ((mergeFrom_perm hRest).cons y).trans
          List.perm_middle.symm
  · split at h
    · next hEmpty =>
        rcases Except.ok.inj h with ⟨rfl, rfl⟩
        simp [List.reverse_eq_nil_iff.mp hEmpty]
    · next x back hBack =>
        rcases bind_eq_ok.mp h with ⟨⟨rest, _⟩, hRest, h⟩
        rcases pure_eq_ok.mp h with ⟨rfl, rfl⟩
        have hXs : xs.Perm (x :: back) := by
          rw [← hBack]
          exact (List.reverse_perm xs).symm
        have hYs := List.reverse_perm ys
        have hAll :=
          (mergeFrom_perm hRest).trans List.perm_append_comm
        exact (List.reverse_perm _).trans
          ((hAll.cons x).trans (hXs.symm.append hYs))

/- Merging two runs keeps all elements. -/
theorem mergeRuns_perm
    {less : α → α → Except ε Bool}
    {patience : Nat}
    {xs ys out : List α}
    {p : Nat}
    (h : mergeRuns less patience xs ys = .ok (out, p)) :
    out.Perm (xs ++ ys) := by
  unfold mergeRuns at h
  split at h
  · rcases Except.ok.inj h with ⟨rfl, rfl⟩
    simp
  · next y ys =>
      rcases bind_eq_ok.mp h with ⟨k, -, h⟩
      split at h
      · rcases pure_eq_ok.mp h with ⟨rfl, rfl⟩
        exact List.Perm.refl _
      · rcases bind_eq_ok.mp h with ⟨t, -, h⟩
        rcases bind_eq_ok.mp h with ⟨⟨overlap, _⟩, hOverlap, h⟩
        rcases pure_eq_ok.mp h with ⟨rfl, rfl⟩
        have hYs :
            ((y :: ys).reverse.drop t).reverse
              ++ ((y :: ys).reverse.take t).reverse
                = y :: ys := by
          rw [← List.reverse_append, List.take_append_drop,
            List.reverse_reverse]
        have hAll := mergeOverlap_perm hOverlap
        rw [List.append_assoc]
        refine ((hAll.append_right _).append_left _).trans ?_
        rw [List.append_assoc, hYs, ← List.append_assoc,
          List.take_append_drop]

------------------------------------------------------------
-- Runs
------------------------------------------------------------

/- A chain is the beginning of the list. -/
theorem chain_eq_take
    {follows : α → α → Except ε Bool}
    {last : α}
    {xs run : List α}
    (h : chain follows last xs = .ok run) :
    run = xs.take run.length := by
  induction xs generalizing last run with
  | nil =>
      rcases Except.ok.inj h with rfl
      rfl
  | cons x xs ih =>
      rcases bind_eq_ok.mp h with ⟨b, -, h⟩
      split at h
      · rcases bind_eq_ok.mp h with ⟨run, hRun, h⟩
        rcases pure_eq_ok.mp h with rfl
        simpa using ih hRun
      · rcases pure_eq_ok.mp h with rfl
        rfl

/- A natural run holds the beginning of the list. -/
theorem naturalRun_perm
    {less : α → α → Except ε Bool}
    {x : α}
    {xs run : List α}
    (h : naturalRun less x xs = .ok run) :
    run.Perm (x :: xs.take (run.length - 1)) := by
  cases xs with
  | nil =>
      rcases Except.ok.inj h with rfl
      simp
  | cons y ys =>
      rcases bind_eq_ok.mp h with ⟨b, -, h⟩
      split at h
      · rcases bind_eq_ok.mp h with ⟨rest, hRest, h⟩
        rcases pure_eq_ok.mp h with rfl
        refine (List.reverse_perm _).trans ?_
        simp [← chain_eq_take hRest]
      · rcases bind_eq_ok.mp h with ⟨rest, hRest, h⟩
        rcases pure_eq_ok.mp h with rfl
        simp [← chain_eq_take hRest]

/- Inserting an element adds it. -/
theorem insert_perm
    {less : α → α → Except ε Bool}
    {run out : List α}
    {x : α}
    (h : insert less run x = .ok out) :
    out.Perm (run ++ [x]) := by
  rcases bind_eq_ok.mp h with ⟨k, -, h⟩
  rcases pure_eq_ok.mp h with rfl
  refine List.perm_middle.trans ?_
  rw [List.take_append_drop]
  exact (List.perm_append_singleton x run).symm

/- Inserting elements one by one adds all of them. -/
theorem foldlM_insert_perm
    {less : α → α → Except ε Bool}
    {xs run out : List α}
    (h : xs.foldlM (insert less) run = .ok out) :
    out.Perm (run ++ xs) := by
  induction xs generalizing run with
  | nil =>
      rcases pure_eq_ok.mp h with rfl
      simp
  | cons x xs ih =>
      rw [List.foldlM_cons] at h
      rcases bind_eq_ok.mp h with ⟨more, hMore, h⟩
      refine (ih h).trans ?_
      simpa using (insert_perm hMore).append_right xs

/- The next run holds the beginning of the list. -/
theorem nextRun_perm
    {less : α → α → Except ε Bool}
    {least : Nat}
    {x : α}
    {xs run : List α}
    (h : nextRun less least x xs = .ok run) :
    run.Perm (x :: xs.take (run.length - 1)) := by
  rcases bind_eq_ok.mp h with ⟨head, hHead, h⟩
  have hPerm := foldlM_insert_perm h
  have hNatural := naturalRun_perm hHead
  have hAll := hPerm.trans (hNatural.append_right _)
  have hLength := hAll.length_eq
  have hHeadLength := hNatural.length_eq
  simp only [List.cons_append, List.length_cons,
    List.length_append, List.length_take,
    List.length_drop] at hLength hHeadLength
  have hTake :
      xs.take (head.length - 1)
        ++ (xs.drop (head.length - 1)).take
          (least - head.length)
        = xs.take (run.length - 1) := by
    rw [← List.take_add, List.take_eq_take_iff]
    omega
  rw [← hTake]
  exact hAll

------------------------------------------------------------
-- Sorting
------------------------------------------------------------

/- All elements of runs that wait. -/
def pendingItems (runs : List (Pending α)) : List α :=
  runs.flatMap Pending.items

/- Merging the last run into others keeps all elements. -/
theorem settle_perm
    {less : α → α → Except ε Bool}
    {level patience : Nat}
    {top : Pending α}
    {rest : List (Pending α)}
    {s : Schedule α}
    (h : settle less level patience top rest = .ok s) :
    (pendingItems s.runs).Perm
      (top.items ++ pendingItems rest) := by
  induction rest generalizing patience top with
  | nil =>
      rcases Except.ok.inj h with rfl
      simp [pendingItems]
  | cons below rest ih =>
      unfold settle at h
      split at h
      · rcases bind_eq_ok.mp h with ⟨⟨items, _⟩, hItems, h⟩
        refine (ih h).trans ?_
        have hMerged := mergeRuns_perm hItems
        have hSwapped :=
          hMerged.trans List.perm_append_comm
        simpa [pendingItems] using
          hSwapped.append_right (pendingItems rest)
      · rcases pure_eq_ok.mp h with rfl
        simp [pendingItems]

/- Adding a run adds its elements. -/
theorem push_perm
    {less : α → α → Except ε Bool}
    {total : Nat}
    {s t : Schedule α}
    {run : List α}
    (h : s.push less total run = .ok t) :
    (pendingItems t.runs).Perm
      (run ++ pendingItems s.runs) := by
  unfold Schedule.push at h
  split at h
  · next hEmpty =>
      rcases Except.ok.inj h with rfl
      simp [pendingItems, hEmpty]
  · next top rest hRuns =>
      rcases bind_eq_ok.mp h with ⟨settled, hSettled, h⟩
      rcases pure_eq_ok.mp h with rfl
      rw [hRuns]
      simpa [pendingItems] using
        (settle_perm hSettled).append_left run

/- Taking a list run by run keeps all elements. -/
theorem schedule_perm
    {less : α → α → Except ε Bool}
    {total : Nat}
    {s t : Schedule α}
    {xs : List α}
    (h : schedule less total s xs = .ok t) :
    (pendingItems t.runs).Perm
      (xs ++ pendingItems s.runs) := by
  fun_induction schedule less total s xs with
  | case1 s =>
      rcases Except.ok.inj h with rfl
      exact List.Perm.refl _
  | case2 s x xs ih =>
      rcases bind_eq_ok.mp h with ⟨run, hRun, h⟩
      rcases bind_eq_ok.mp h with ⟨pushed, hPushed, h⟩
      refine (ih run pushed h).trans ?_
      have hPush := push_perm hPushed
      have hNext := nextRun_perm hRun
      refine (hPush.append_left _).trans ?_
      rw [← List.append_assoc]
      refine List.Perm.append_right _ ?_
      refine List.perm_append_comm.trans ?_
      refine (hNext.append_right _).trans ?_
      simp

/- Merging all runs keeps all elements. -/
theorem finish_perm
    {less : α → α → Except ε Bool}
    {patience : Nat}
    {top : List α}
    {rest : List (List α)}
    {out : List α}
    (h : finish less patience top rest = .ok out) :
    out.Perm (top ++ rest.flatten) := by
  fun_induction finish less patience top rest with
  | case1 =>
      rcases Except.ok.inj h with rfl
      simp
  | case2 _ top below =>
      rcases bind_eq_ok.mp h with ⟨⟨items, _⟩, hItems, h⟩
      rcases pure_eq_ok.mp h with rfl
      simpa using
        (mergeRuns_perm hItems).trans List.perm_append_comm
  | case3 _ top below third rest _ ih =>
      rcases bind_eq_ok.mp h with ⟨⟨items, p⟩, hItems, h⟩
      refine (ih items p h).trans ?_
      have hMerged :=
        (mergeRuns_perm hItems).trans List.perm_append_comm
      simpa using
        (hMerged.append_right rest.flatten).append_left top
  | case4 _ top below third rest _ ih =>
      rcases bind_eq_ok.mp h with ⟨⟨items, p⟩, hItems, h⟩
      refine (ih items p h).trans ?_
      have hMerged :=
        (mergeRuns_perm hItems).trans List.perm_append_comm
      simpa using hMerged.append_right (third ++ rest.flatten)

/- Sorting keeps all elements. -/
theorem sort_perm
    {less : α → α → Except ε Bool}
    {xs out : List α}
    (h : sort less xs = .ok out) :
    out.Perm xs := by
  rcases bind_eq_ok.mp h with ⟨s, hSchedule, h⟩
  have hAll := schedule_perm hSchedule
  have hEmpty :
      pendingItems (Schedule.empty : Schedule α).runs = [] :=
    rfl
  rw [hEmpty, List.append_nil] at hAll
  refine List.Perm.trans ?_ hAll
  split at h
  · next hRuns =>
      rcases pure_eq_ok.mp h with rfl
      simp [pendingItems, List.flatMap_def, hRuns]
  · next top rest hRuns =>
      rw [pendingItems, List.flatMap_def, hRuns]
      exact finish_perm h

end Sorting

end FactBase
