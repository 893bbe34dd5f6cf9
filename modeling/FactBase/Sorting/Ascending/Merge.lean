import FactBase.Sorting.Ascending
import FactBase.Sorting.Counting
import FactBase.Sorting.Permutation

/-
  This file proves that merging two runs that ascend succeeds
  and gives a run that ascends.

  Key theorems include:
    * `Sorting.mergeFrom_ascends`
    * `Sorting.mergeOverlap_ascends`
    * `Sorting.mergeRuns_ascends`
-/

------------------------------------------------------------
-- Merging from One End
------------------------------------------------------------

namespace FactBase

namespace Sorting

variable {α ε : Type}
variable {P : α → Prop}
variable {lt : α → α → Bool}

/- The last element that is left is the last of all. -/
theorem getLast?_of_drop
    {k : Nat}
    {x : α}
    {xs : List α}
    (h : x ∈ (xs.drop k).getLast?) :
    x ∈ xs.getLast? := by
  rw [List.getLast?_drop] at h
  split at h
  · simp at h
  · exact h

/- A merge of runs that ascend succeeds and ascends. -/
theorem mergeFrom_ascends
    {d : Direction}
    {goesFirst : α → α → Except ε Bool}
    (pace : Pace)
    (patience : Nat)
    {short long : List α}
    (hOrder : Orders P lt goesFirst)
    (hShort : ∀ x ∈ short, P x)
    (hLong : ∀ x ∈ long, P x)
    (hShortUp : Ascends lt short)
    (hLongUp : Ascends lt long)
    (hLast : ∀ s ∈ short.getLast?, ∀ l ∈ long, lt s l = false) :
    ∃ out p,
      mergeFrom d goesFirst pace patience short long
        = .ok (out, p) ∧ Ascends lt out := by
  fun_induction mergeFrom d goesFirst pace patience short long with
  | case1 _ _ s s' shorts l longs _ _ _ _ ihLong ihShort =>
      have hs := hShort s List.mem_cons_self
      have hl := hLong l List.mem_cons_self
      rw [hOrder.answers hl hs, ok_bind]
      by_cases h : lt l s = true
      · rcases
            ihLong hShort
              (fun x hx => hLong x (List.mem_cons_of_mem _ hx))
              hShortUp hLongUp.tail
              (fun x hx y hy =>
                hLast x hx y (List.mem_cons_of_mem _ hy))
          with ⟨out, p, hOut, hUp⟩
        rw [if_pos h, hOut, ok_bind]
        refine ⟨l :: out, p, rfl, ?_⟩
        refine ascends_cons hUp (mergeFrom_perm hOut) ?_
        intro y hy
        rcases List.mem_append.mp hy with hy | hy
        · have hPy := hShort y hy
          exact hOrder.asymm hl hPy
            (hOrder.lt_of_lt_of_le hl hs hPy h
              (hShortUp.head_le hOrder hs y hy))
        · exact (List.pairwise_cons.mp hLongUp).1 y hy
      · have hLe : lt l s = false := by simpa using h
        rcases
            ihShort
              (fun x hx => hShort x (List.mem_cons_of_mem _ hx))
              hLong hShortUp.tail hLongUp
              (fun x hx y hy => hLast x (by simpa using hx) y hy)
          with ⟨out, p, hOut, hUp⟩
        rw [if_neg h, hOut, ok_bind]
        refine ⟨s :: out, p, rfl, ?_⟩
        refine ascends_cons hUp (mergeFrom_perm hOut) ?_
        intro y hy
        rcases List.mem_append.mp hy with hy | hy
        · exact (List.pairwise_cons.mp hShortUp).1 y hy
        · exact hOrder.trans hs hl (hLong y hy) hLe
            (hLongUp.head_le hOrder hl y hy)
  | case2 _ _ s s' shorts l longs =>
      rename_i all ih
      have hl := hLong l List.mem_cons_self
      have hGoes : ∀ x ∈ all,
          waits (goesFirst l x) = .ok (!lt l x) := by
        intro x hx
        rw [hOrder.answers hl (hShort x hx)]
        rfl
      have hFalls : Falls (fun x => !lt l x) all := by
        refine hShortUp.imp_of_mem ?_
        intro x y hx hy hLe hGo
        by_cases h : lt l x = true
        · have := hOrder.lt_of_lt_of_le hl (hShort x hx)
            (hShort y hy) h hLe
          simp [this] at hGo
        · simpa using h
      have hGallop := gallop_eq (d := d) hGoes hFalls
      rw [hGallop, ok_bind]
      rcases
          ih (all.takeWhile (fun x => !lt l x)).length
            (fun x hx => hShort x (List.mem_of_mem_drop hx))
            (fun x hx => hLong x (List.mem_cons_of_mem _ hx))
            hShortUp.drop hLongUp.tail
            (fun x hx y hy => hLast x
              (getLast?_of_drop hx) y
              (List.mem_cons_of_mem _ hy))
        with ⟨out, p, hOut, hUp⟩
      rw [hOut, ok_bind]
      refine ⟨_, p, rfl, ?_⟩
      rw [take_length_takeWhile]
      rw [drop_length_takeWhile] at hOut
      have hAfter := all_dropWhile_of_falls hFalls
      have hPerm := mergeFrom_perm hOut
      have hMem : ∀ x ∈ out, x ∈ all ∨ x ∈ longs := by
        intro x hx
        rcases List.mem_append.mp (hPerm.mem_iff.mp hx) with h | h
        · exact Or.inl ((List.dropWhile_sublist _).subset h)
        · exact Or.inr h
      refine Ascends.append_cons hOrder
        (hShortUp.sublist (List.takeWhile_sublist _))
        (ascends_cons hUp hPerm ?_) ?_ ?_ ?_
      · intro y hy
        rcases List.mem_append.mp hy with h | h
        · have hGo := hAfter y h
          have hy := (List.dropWhile_sublist _).subset h
          exact hOrder.asymm hl (hShort y hy) (by simpa using hGo)
        · exact (List.pairwise_cons.mp hLongUp).1 y h
      · exact fun x hx => hShort x
          ((List.takeWhile_sublist _).subset hx)
      · intro x hx
        rcases List.mem_cons.mp hx with rfl | hx
        · exact hl
        · rcases hMem x hx with h | h
          · exact hShort x h
          · exact hLong x (List.mem_cons_of_mem _ h)
      · intro x hx
        simpa using goes_of_mem_takeWhile hx
  | case3 _ _ s s' shorts l longs =>
      rename_i all ih
      have hs := hShort s List.mem_cons_self
      have hGoes : ∀ x ∈ all, goesFirst x s = .ok (lt x s) :=
        fun x hx => hOrder.answers (hLong x hx) hs
      have hFalls : Falls (fun x => lt x s) all := by
        refine hLongUp.imp_of_mem ?_
        intro x y hx hy hLe hGo
        exact hOrder.lt_of_le_of_lt (hLong x hx) (hLong y hy)
          hs hLe hGo
      have hGallop := gallop_eq (d := d) hGoes hFalls
      rw [hGallop, ok_bind]
      rcases
          ih (all.takeWhile (fun x => lt x s)).length
            (fun x hx => hShort x (List.mem_cons_of_mem _ hx))
            (fun x hx => hLong x (List.mem_of_mem_drop hx))
            hShortUp.tail hLongUp.drop
            (fun x hx y hy => hLast x (by simpa using hx) y
              (List.mem_of_mem_drop hy))
        with ⟨out, p, hOut, hUp⟩
      rw [hOut, ok_bind]
      refine ⟨_, p, rfl, ?_⟩
      rw [take_length_takeWhile]
      rw [drop_length_takeWhile] at hOut
      have hAfter := all_dropWhile_of_falls hFalls
      have hPerm := mergeFrom_perm hOut
      refine Ascends.append_cons hOrder
        (hLongUp.sublist (List.takeWhile_sublist _))
        (ascends_cons hUp hPerm ?_) ?_ ?_ ?_
      · intro y hy
        rcases List.mem_append.mp hy with h | h
        · exact (List.pairwise_cons.mp hShortUp).1 y h
        · exact hAfter y h
      · exact fun x hx => hLong x
          ((List.takeWhile_sublist _).subset hx)
      · intro x hx
        rcases List.mem_cons.mp hx with rfl | hx
        · exact hs
        · rcases List.mem_append.mp (hPerm.mem_iff.mp hx) with h | h
          · exact hShort x (List.mem_cons_of_mem _ h)
          · exact hLong x ((List.dropWhile_sublist _).subset h)
      · intro x hx
        have hGo :=
          goes_of_mem_takeWhile (p := fun x => lt x s) hx
        exact hOrder.asymm
          (hLong x ((List.takeWhile_sublist _).subset hx)) hs hGo
  | case4 _ _ short long hEnd =>
      refine ⟨_, _, rfl, ?_⟩
      refine List.pairwise_append.mpr ⟨hLongUp, hShortUp, ?_⟩
      intro l hl s hs
      rcases short with _ | ⟨s', _ | ⟨s'', shorts⟩⟩
      · simp at hs
      · rcases List.mem_singleton.mp hs with rfl
        exact hLast s rfl l hl
      · rcases long with _ | ⟨l', longs⟩
        · simp at hl
        · exact (hEnd s' s'' shorts l' longs rfl rfl).elim

------------------------------------------------------------
-- Merging from the Nearer End
------------------------------------------------------------

/- A list ascends if its reverse ascends the other way. -/
theorem ascends_reverse
    {xs : List α} :
    Ascends (fun x y => lt y x) xs.reverse ↔ Ascends lt xs :=
  List.pairwise_reverse

/-
  A merge from the nearer end ascends, if the second run
  begins first and the first run ends last.
-/
theorem mergeOverlap_ascends
    {less : α → α → Except ε Bool}
    (patience : Nat)
    {xs ys : List α}
    (hOrder : Orders P lt less)
    (hXs : ∀ x ∈ xs, P x)
    (hYs : ∀ y ∈ ys, P y)
    (hXsUp : Ascends lt xs)
    (hYsUp : Ascends lt ys)
    (hFirst : ∀ y ∈ ys.head?, ∀ x ∈ xs, lt x y = false)
    (hLast : ∀ x ∈ xs.getLast?, ∀ y ∈ ys, lt x y = false) :
    ∃ out p,
      mergeOverlap less patience xs ys = .ok (out, p) ∧
        Ascends lt out := by
  unfold mergeOverlap
  split
  · match ys with
    | [] => exact ⟨xs, patience, rfl, hXsUp⟩
    | y :: ys =>
        rcases
            mergeFrom_ascends (d := .forward)
              (.streak 0 0) patience hOrder hXs
              (fun z hz => hYs z (List.mem_cons_of_mem _ hz))
              hXsUp hYsUp.tail
              (fun x hx z hz =>
                hLast x hx z (List.mem_cons_of_mem _ hz))
          with ⟨out, p, hOut, hUp⟩
        simp only
        rw [hOut, ok_bind]
        refine ⟨y :: out, p, rfl, ?_⟩
        refine ascends_cons hUp (mergeFrom_perm hOut) ?_
        intro z hz
        rcases List.mem_append.mp hz with hz | hz
        · exact hFirst y rfl z hz
        · exact (List.pairwise_cons.mp hYsUp).1 z hz
  · split
    · exact ⟨ys, patience, rfl, hYsUp⟩
    · next x back hBack =>
        have hBackUp : Ascends (fun x y => lt y x) (x :: back) := by
          rw [← hBack]
          exact ascends_reverse.mpr hXsUp
        have hMem : ∀ z ∈ x :: back, z ∈ xs := by
          intro z hz
          rw [← hBack] at hz
          exact List.mem_reverse.mp hz
        have hx : x ∈ xs.getLast? := by
          rw [← List.head?_reverse, hBack]
          rfl
        rcases
            mergeFrom_ascends (d := .backward)
              (.streak 0 0) patience hOrder.flip
              (fun z hz => hYs z (List.mem_reverse.mp hz))
              (fun z hz => hXs z
                (hMem z (List.mem_cons_of_mem _ hz)))
              (ascends_reverse.mpr hYsUp) hBackUp.tail
              (fun y hy z hz => by
                rw [List.getLast?_reverse] at hy
                exact hFirst y hy z
                  (hMem z (List.mem_cons_of_mem _ hz)))
          with ⟨out, p, hOut, hUp⟩
        rw [hOut, ok_bind]
        refine ⟨_, p, rfl, ?_⟩
        rw [← ascends_reverse, List.reverse_reverse]
        refine ascends_cons hUp (mergeFrom_perm hOut) ?_
        intro z hz
        rcases List.mem_append.mp hz with hz | hz
        · exact hLast x hx z (List.mem_reverse.mp hz)
        · exact (List.pairwise_cons.mp hBackUp).1 z hz

/- The last element of a list that ascends is below none. -/
theorem Ascends.le_getLast
    {less : α → α → Except ε Bool}
    (hOrder : Orders P lt less)
    {x : α}
    {xs : List α}
    (hUp : Ascends lt xs)
    (hXs : ∀ y ∈ xs, P y)
    (hLast : x ∈ xs.getLast?) :
    ∀ y ∈ xs, lt x y = false := by
  have hHead : xs.reverse.head? = some x := by
    rw [List.head?_reverse]
    exact hLast
  rcases List.head?_eq_some_iff.mp hHead with ⟨rest, hRest⟩
  have hDown : Ascends (fun x y => lt y x) (x :: rest) := by
    rw [← hRest]
    exact ascends_reverse.mpr hUp
  intro y hy
  refine hDown.head_le hOrder.flip
    (hXs x (List.mem_of_getLast? hLast)) y ?_
  rw [← hRest]
  exact List.mem_reverse.mpr hy

------------------------------------------------------------
-- Merging Two Runs
------------------------------------------------------------

/- What an element waits for falls along a run. -/
theorem falls_waits
    {less : α → α → Except ε Bool}
    {y : α}
    {xs : List α}
    (hOrder : Orders P lt less)
    (hy : P y)
    (hXs : ∀ x ∈ xs, P x)
    (hUp : Ascends lt xs) :
    Falls (fun x => !lt y x) xs := by
  refine hUp.imp_of_mem ?_
  intro a b ha hb hLe hGo
  by_cases h : lt y a = true
  · have := hOrder.lt_of_lt_of_le hy (hXs a ha) (hXs b hb) h hLe
    simp [this] at hGo
  · simpa using h

/-
  Runs ascend together if what comes first in the first run
  may stand before the second, and what comes last in the
  second may stand behind the first.
-/
theorem ascends_around
    {less : α → α → Except ε Bool}
    {front tail kept rear overlap : List α}
    {x y : α}
    (hOrder : Orders P lt less)
    (hXs : ∀ z ∈ front ++ tail, P z)
    (hYs : ∀ z ∈ kept ++ rear, P z)
    (hXsUp : Ascends lt (front ++ tail))
    (hYsUp : Ascends lt (kept ++ rear))
    (hUp : Ascends lt overlap)
    (hPerm : overlap.Perm (tail ++ kept))
    (hx : P x)
    (hy : P y)
    (hFront : ∀ z ∈ front, lt y z = false)
    (hFirst : ∀ z ∈ kept ++ rear, lt z y = false)
    (hLast : ∀ z ∈ tail, lt x z = false)
    (hRear : ∀ z ∈ rear, lt z x = false) :
    Ascends lt (front ++ overlap ++ rear) := by
  rcases List.pairwise_append.mp hXsUp with ⟨hFrontUp, _, hCross⟩
  rcases List.pairwise_append.mp hYsUp with ⟨_, hRearUp, hCross'⟩
  have hMem : ∀ z ∈ overlap, z ∈ tail ∨ z ∈ kept :=
    fun z hz => List.mem_append.mp (hPerm.mem_iff.mp hz)
  have hBefore : ∀ a ∈ front, ∀ b ∈ kept ++ rear,
      lt b a = false := by
    intro a ha b hb
    exact hOrder.trans (hXs a (List.mem_append_left _ ha)) hy
      (hYs b hb) (hFront a ha) (hFirst b hb)
  refine List.pairwise_append.mpr
    ⟨List.pairwise_append.mpr ⟨hFrontUp, hUp, ?_⟩, hRearUp, ?_⟩
  · intro a ha b hb
    rcases hMem b hb with hb | hb
    · exact hCross a ha b hb
    · exact hBefore a ha b (List.mem_append_left _ hb)
  · intro a ha b hb
    rcases List.mem_append.mp ha with ha | ha
    · exact hBefore a ha b (List.mem_append_right _ hb)
    · rcases hMem a ha with ha | ha
      · exact hOrder.trans (hXs a (List.mem_append_right _ ha))
          hx (hYs b (List.mem_append_right _ hb))
          (hLast a ha) (hRear b hb)
      · exact hCross' a ha b hb

/- Merging two runs that ascend succeeds and ascends. -/
theorem mergeRuns_ascends
    {less : α → α → Except ε Bool}
    (patience : Nat)
    {xs ys : List α}
    (hOrder : Orders P lt less)
    (hXs : ∀ x ∈ xs, P x)
    (hYs : ∀ y ∈ ys, P y)
    (hXsUp : Ascends lt xs)
    (hYsUp : Ascends lt ys) :
    ∃ out p,
      mergeRuns less patience xs ys = .ok (out, p) ∧
        Ascends lt out := by
  unfold mergeRuns
  match ys with
  | [] => exact ⟨xs, patience, rfl, hXsUp⟩
  | y :: ys =>
      have hy := hYs y List.mem_cons_self
      have hFalls := falls_waits hOrder hy hXs hXsUp
      have hGoes : ∀ x ∈ xs,
          waits (less y x) = .ok (!lt y x) := by
        intro x hx
        rw [hOrder.answers hy (hXs x hx)]
        rfl
      have hGallop := gallop_eq (d := .forward) hGoes hFalls
      have hAfter := all_dropWhile_of_falls hFalls
      have hTail : ∀ x ∈ xs.dropWhile (fun x => !lt y x), x ∈ xs :=
        fun x hx => (List.dropWhile_sublist _).subset hx
      simp only
      rw [hGallop, ok_bind, drop_length_takeWhile,
        take_length_takeWhile]
      split
      · next hNone =>
          have hEmpty := List.getLast?_eq_none_iff.mp hNone
          have hAll : xs.takeWhile (fun x => !lt y x) = xs := by
            have := List.takeWhile_append_dropWhile
              (p := fun x => !lt y x) (l := xs)
            rwa [hEmpty, List.append_nil] at this
          refine ⟨xs ++ y :: ys, patience, rfl, ?_⟩
          refine Ascends.append_cons hOrder hXsUp hYsUp hXs hYs ?_
          intro x hx
          rw [← hAll] at hx
          simpa using goes_of_mem_takeWhile hx
      · next x hLast =>
          have hxTail := List.mem_of_getLast? hLast
          have hx := hXs x (hTail x hxTail)
          have hBack : ∀ z ∈ (y :: ys).reverse, P z :=
            fun z hz => hYs z (List.mem_reverse.mp hz)
          have hBackFalls := falls_waits hOrder.flip hx hBack
            (ascends_reverse.mpr hYsUp)
          have hBackGoes : ∀ z ∈ (y :: ys).reverse,
              waits (less z x) = .ok (!lt z x) := by
            intro z hz
            rw [hOrder.answers (hBack z hz) hx]
            rfl
          have hBackGallop :=
            gallop_eq (d := .backward) hBackGoes hBackFalls
          rw [hBackGallop, ok_bind, drop_length_takeWhile,
            take_length_takeWhile]
          have hXsParts :
              xs.takeWhile (fun x => !lt y x)
                ++ xs.dropWhile (fun x => !lt y x) = xs :=
            List.takeWhile_append_dropWhile
          have hYsParts :
              ((y :: ys).reverse.dropWhile
                (fun z => !lt z x)).reverse
                ++ ((y :: ys).reverse.takeWhile
                  (fun z => !lt z x)).reverse = y :: ys := by
            rw [← List.reverse_append,
              List.takeWhile_append_dropWhile,
              List.reverse_reverse]
          have hKept : ∀ z ∈ ((y :: ys).reverse.dropWhile
              (fun z => !lt z x)).reverse, z ∈ y :: ys := by
            intro z hz
            rw [← hYsParts]
            exact List.mem_append_left _ hz
          have hFirst := hYsUp.head_le hOrder hy
          have hTailUp : Ascends lt
              (xs.dropWhile (fun x => !lt y x)) :=
            hXsUp.sublist (List.dropWhile_sublist _)
          have hKeptUp : Ascends lt
              ((y :: ys).reverse.dropWhile
                (fun z => !lt z x)).reverse := by
            rw [← hYsParts] at hYsUp
            exact (List.pairwise_append.mp hYsUp).1
          rcases
              mergeOverlap_ascends patience hOrder
                (fun z hz => hXs z (hTail z hz))
                (fun z hz => hYs z (hKept z hz))
                hTailUp hKeptUp
                (by
                  intro z hz a ha
                  rcases List.head?_eq_some_iff.mp hz with
                    ⟨rest, hRest⟩
                  rw [hRest] at hYsParts
                  rcases (List.cons.inj hYsParts).1 with rfl
                  have hGo : lt z a = true := by
                    simpa using hAfter a ha
                  exact hOrder.asymm hy (hXs a (hTail a ha)) hGo)
                (by
                  intro z hz a ha
                  rcases
                      Option.some.inj (hz.symm.trans hLast)
                    with rfl
                  have hGo : lt a z = true := by
                    simpa using all_dropWhile_of_falls hBackFalls a
                      (List.mem_reverse.mp ha)
                  exact hOrder.asymm (hYs a (hKept a ha)) hx hGo)
            with ⟨out, p, hOut, hUp⟩
          rw [hOut, ok_bind]
          refine ⟨_, p, rfl, ?_⟩
          refine ascends_around (x := x) (y := y) hOrder
            (by rwa [hXsParts]) (by rwa [hYsParts])
            (by rwa [hXsParts]) (by rwa [hYsParts])
            hUp (mergeOverlap_perm hOut) hx hy ?_
            (by rwa [hYsParts]) ?_ ?_
          · intro z hz
            simpa using goes_of_mem_takeWhile hz
          · exact hTailUp.le_getLast hOrder
              (fun z hz => hXs z (hTail z hz)) hLast
          · intro z hz
            simpa using
              goes_of_mem_takeWhile (List.mem_reverse.mp hz)

end Sorting

end FactBase
