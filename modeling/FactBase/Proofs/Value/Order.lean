import FactBase.Proofs.Value.Equality

/-
  This file shows that the order of proper values respects
  sameness: where a comparison has an answer, it has the same
  answer for values that are the same.

  Key theorems include:
    * `Value.orderedAtoms_cases`
    * `Value.orderedAtoms_congr`
    * `Value.ordered_congr`
    * `Value.compared_congr`
    * `Value.equals?_congr`
-/

------------------------------------------------------------
-- Values without Order of Parts
------------------------------------------------------------

namespace FactBase

namespace Value

variable {a a' b b' : Value}
variable {c : Comparison}
variable {r : Bool}

/- The ways in which a comparison of atoms has an answer. -/
theorem orderedAtoms_cases
    (h : orderedAtoms c a b = .ok r) :
    (∃ m n, a.magnitude? = some m ∧ b.magnitude? = some n
        ∧ r = (m.compare? n).any c.accepts)
      ∨ (a.bare = true ∧ b.bare = true)
      ∨ (∃ xs ys, a.members? = some xs ∧ b.members? = some ys
          ∧ r = orderedSets c xs ys) := by
  unfold orderedAtoms at h
  split at h
  next m n hm hn =>
    exact .inl ⟨m, n, hm, hn, (Except.ok.inj h).symm⟩
  next =>
    split at h
    next => exact .inr (.inl ⟨rfl, rfl⟩)
    next => exact .inr (.inl ⟨rfl, rfl⟩)
    next => exact .inr (.inl ⟨rfl, rfl⟩)
    next =>
      split at h
      next xs ys hxs hys =>
        exact
          .inr (.inr ⟨xs, ys, hxs, hys, (Except.ok.inj h).symm⟩)
      next => cases h

/- Numbers that are the same compare in the same way. -/
theorem magnitude?_of_same
    (h : same a a' = true)
    {m : Magnitude}
    (hm : a.magnitude? = some m) :
    ∃ m', a'.magnitude? = some m' ∧ m'.place? = m.place? := by
  have hNumber : a.magnitude?.isSome = true :=
    Option.isSome_of_eq_some hm
  rcases (same_number_iff hNumber).mp h with
    ⟨p, hLeft, hRight⟩ | ⟨_, rfl⟩
  · have hNumber' := isSome_magnitude?_of_place? hRight
    rcases Option.isSome_iff_exists.mp hNumber' with ⟨m', hm'⟩
    refine ⟨m', hm', ?_⟩
    unfold place? at hLeft hRight
    rw [hm, Option.bind_some] at hLeft
    rw [hm', Option.bind_some] at hRight
    rw [hLeft, hRight]
  · exact ⟨m, hm, rfl⟩

/- Sets that are the same have the same members. -/
theorem members?_of_same
    (ha : a.proper = true)
    (h : same a a' = true)
    {xs : List Value}
    (hxs : a.members? = some xs) :
    ∃ xs', a'.members? = some xs'
      ∧ xs.length = xs'.length
      ∧ (∀ x ∈ xs, ∃ x' ∈ xs', same x x' = true)
      ∧ ∀ x' ∈ xs', ∃ x ∈ xs, same x' x = true := by
  rcases (same_members_iff hxs).mp h with
    ⟨xs', hxs', hLength, hFound⟩
  rcases (same_members_iff hxs').mp (same_symm ha h) with
    ⟨ys, hys, _, hFound'⟩
  rw [hxs, Option.some.injEq] at hys
  subst hys
  exact ⟨xs', hxs', hLength, hFound, hFound'⟩

/- Inclusion of sets respects sameness. -/
private theorem included_of_included
    {xs xs' ys ys' : List Value}
    (hProper : ∀ x' ∈ xs', x'.proper = true)
    (hxs : ∀ x' ∈ xs', ∃ x ∈ xs, same x' x = true)
    (hys : ∀ y ∈ ys, ∃ y' ∈ ys', same y y' = true)
    (hProperYs : ∀ y ∈ ys, y.proper = true)
    (h : included xs ys = true) :
    included xs' ys' = true := by
  unfold included memberOf at h ⊢
  rw [List.all_eq_true] at h ⊢
  intro x' hx'
  rcases hxs x' hx' with ⟨x, hx, hxx⟩
  rcases List.any_eq_true.mp (h x hx) with ⟨y, hy, hyx⟩
  rcases hys y hy with ⟨y', hy', hyy⟩
  refine List.any_eq_true.mpr ⟨y', hy', ?_⟩
  have hBack := same_symm (hProperYs y hy) hyy
  exact
    same_trans hBack
      (same_trans hyx (same_symm (hProper x' hx') hxx))

/- The members of a proper set are proper. -/
private theorem proper_members
    (ha : a.proper = true)
    {xs : List Value}
    (hxs : a.members? = some xs) :
    ∀ x ∈ xs, x.proper = true := by
  have hParts := (proper_iff.mp ha).2
  cases a <;> simp only [members?, reduceCtorEq,
    Option.some.injEq] at hxs <;> subst hxs <;> exact hParts

/- Inclusion is the same between sets that are the same. -/
private theorem included_congr
    (ha : a.proper = true)
    (ha' : a'.proper = true)
    (h : same a a' = true)
    (hb : b.proper = true)
    (hb' : b'.proper = true)
    (h' : same b b' = true)
    {xs xs' ys ys' : List Value}
    (hxs : a.members? = some xs)
    (hxs' : a'.members? = some xs')
    (hys : b.members? = some ys)
    (hys' : b'.members? = some ys') :
    xs.length = xs'.length ∧ ys.length = ys'.length
      ∧ included xs ys = included xs' ys'
      ∧ included ys xs = included ys' xs' := by
  rcases members?_of_same ha h hxs with
    ⟨zs, hzs, hLength, hForth, hBack⟩
  rcases members?_of_same hb h' hys with
    ⟨ws, hws, hLength', hForth', hBack'⟩
  rw [hxs', Option.some.injEq] at hzs
  rw [hys', Option.some.injEq] at hws
  subst hzs hws
  have hpx := proper_members ha hxs
  have hpx' := proper_members ha' hxs'
  have hpy := proper_members hb hys
  have hpy' := proper_members hb' hys'
  refine ⟨hLength, hLength', ?_, ?_⟩
  · rw [Bool.eq_iff_iff]
    exact
      ⟨included_of_included hpx' hBack hForth' hpy,
        included_of_included hpx hForth hBack' hpy'⟩
  · rw [Bool.eq_iff_iff]
    exact
      ⟨included_of_included hpy' hBack' hForth hpx,
        included_of_included hpy hForth' hBack hpx'⟩

/- Comparing atoms respects sameness. -/
theorem orderedAtoms_congr
    (ha : a.proper = true)
    (ha' : a'.proper = true)
    (h : same a a' = true)
    (hb : b.proper = true)
    (hb' : b'.proper = true)
    (h' : same b b' = true)
    (hOk : orderedAtoms c a b = .ok r) :
    orderedAtoms c a' b' = .ok r := by
  rcases orderedAtoms_cases hOk with
    ⟨m, n, hm, hn, hr⟩ | ⟨hBare, hBare'⟩ |
      ⟨xs, ys, hxs, hys, hr⟩
  · rcases magnitude?_of_same h hm with ⟨m', hm', hPlace⟩
    rcases magnitude?_of_same h' hn with ⟨n', hn', hPlace'⟩
    have hCompare : m'.compare? n' = m.compare? n := by
      rw [Magnitude.compare?_eq, Magnitude.compare?_eq, hPlace,
        hPlace']
    unfold orderedAtoms
    simp only [hm', hn', hCompare, hr]
  · have hSame := (same_bare_iff hBare).mp h
    have hSame' := (same_bare_iff hBare').mp h'
    rw [← hSame, ← hSame']
    exact hOk
  · rcases members?_of_same ha h hxs with ⟨xs', hxs', _⟩
    rcases members?_of_same hb h' hys with ⟨ys', hys', _⟩
    rcases included_congr ha ha' h hb hb' h' hxs hxs' hys hys'
      with ⟨hLength, hLength', hForth, hBack⟩
    have hSets : orderedSets c xs' ys' = r := by
      rw [hr]
      cases c <;>
        simp only [orderedSets, hLength, hLength', hForth, hBack]
    unfold orderedAtoms
    cases a' <;> simp only [members?, reduceCtorEq,
      Option.some.injEq] at hxs' <;> cases b' <;>
      simp only [members?, reduceCtorEq, Option.some.injEq] at hys' <;>
      simp [magnitude?, members?, hxs', hys', hSets]

------------------------------------------------------------
-- Values with Order of Parts
------------------------------------------------------------

/- Comparing items respects sameness. -/
private theorem orderedItems_congr
    {xs xs' ys ys' : List Value}
    (ih :
      ∀ x ∈ xs, ∀ {x' y y' : Value},
        x'.proper = true → same x x' = true →
        y.proper = true → y'.proper = true → same y y' = true →
        ordered c x y = .ok r → ordered c x' y' = .ok r)
    (hpx : ∀ x ∈ xs, x.proper = true)
    (hpx' : ∀ x ∈ xs', x.proper = true)
    (hpy : ∀ y ∈ ys, y.proper = true)
    (hpy' : ∀ y ∈ ys', y.proper = true)
    (h : List.Forall₂ (fun x x' => same x x' = true) xs xs')
    (h' : List.Forall₂ (fun y y' => same y y' = true) ys ys')
    (hOk : orderedItems c xs ys = .ok r) :
    orderedItems c xs' ys' = .ok r := by
  induction h generalizing ys ys' with
  | nil =>
      rw [orderedItems] at hOk ⊢
      rw [← h'.length_eq]
      exact hOk
  | @cons x x' xs xs' hx _ ihItems =>
      rw [List.forall_mem_cons] at hpx hpx'
      cases h' with
      | nil => exact hOk
      | @cons y y' ys ys' hy hRest =>
          rw [List.forall_mem_cons] at hpy hpy'
          rw [orderedItems] at hOk ⊢
          have hSame : same x y = same x' y' := by
            rw [same_congr_left hpx.1 hx,
              same_congr_right hpy.1 hy]
          rw [← hSame]
          split at hOk
          next hEq =>
            rw [if_pos hEq]
            refine
              ihItems ?_ hpx.2 hpx'.2 hpy.2 hpy'.2 hRest hOk
            intro z hz
            exact ih z (List.mem_cons_of_mem _ hz)
          next hEq =>
            rw [if_neg hEq]
            exact
              ih x List.mem_cons_self hpx'.1 hx hpy.1 hpy'.1 hy
                hOk

/- Two values are sequences of one kind. -/
private def BothSequences (a b : Value) : Prop :=
  (∃ xs ys, a = .list xs ∧ b = .list ys)
    ∨ ∃ xs ys, a = .tuple xs ∧ b = .tuple ys

/- All but sequences of one kind are compared as atoms. -/
private theorem ordered_eq_orderedAtoms
    (h : ¬ BothSequences a b) :
    ordered c a b = orderedAtoms c a b := by
  cases a with
  | list xs =>
      cases b with
      | list ys => exact absurd (.inl ⟨xs, ys, rfl, rfl⟩) h
      | _ => simp [ordered]
  | tuple xs =>
      cases b with
      | tuple ys => exact absurd (.inr ⟨xs, ys, rfl, rfl⟩) h
      | _ => simp [ordered]
  | _ => simp [ordered]

/- Sequences of one kind are the same as such only. -/
private theorem bothSequences_of_same
    (h : same a a' = true)
    (h' : same b b' = true)
    (hBoth : BothSequences a b) : BothSequences a' b' := by
  rcases hBoth with ⟨xs, ys, rfl, rfl⟩ | ⟨xs, ys, rfl, rfl⟩
  · rcases same_list_iff.mp h with ⟨xs', rfl, _⟩
    rcases same_list_iff.mp h' with ⟨ys', rfl, _⟩
    exact .inl ⟨xs', ys', rfl, rfl⟩
  · rcases same_tuple_iff.mp h with ⟨xs', rfl, _⟩
    rcases same_tuple_iff.mp h' with ⟨ys', rfl, _⟩
    exact .inr ⟨xs', ys', rfl, rfl⟩

/- Comparing proper values respects sameness. -/
theorem ordered_congr
    (ha : a.proper = true)
    (ha' : a'.proper = true)
    (h : same a a' = true)
    (hb : b.proper = true)
    (hb' : b'.proper = true)
    (h' : same b b' = true)
    (hOk : ordered c a b = .ok r) :
    ordered c a' b' = .ok r := by
  induction a using inductionOnParts generalizing a' b b' with
  | h a ihParts =>
      have hParts := (proper_iff.mp ha).2
      have hParts' := (proper_iff.mp ha').2
      have hPartsB := (proper_iff.mp hb).2
      have hPartsB' := (proper_iff.mp hb').2
      have ih :
          ∀ x ∈ a.parts, ∀ {x' y y' : Value},
            x'.proper = true → same x x' = true →
            y.proper = true → y'.proper = true →
            same y y' = true → ordered c x y = .ok r →
              ordered c x' y' = .ok r :=
        fun x hx => ihParts x hx (hParts x hx)
      by_cases hBoth : BothSequences a b
      · rcases hBoth with ⟨xs, ys, rfl, rfl⟩ | ⟨xs, ys, rfl, rfl⟩
        · rcases same_list_iff.mp h with ⟨xs', rfl, hxs⟩
          rcases same_list_iff.mp h' with ⟨ys', rfl, hys⟩
          rw [ordered] at hOk ⊢
          exact
            orderedItems_congr ih hParts hParts' hPartsB
              hPartsB' hxs hys hOk
        · rcases same_tuple_iff.mp h with ⟨xs', rfl, hxs⟩
          rcases same_tuple_iff.mp h' with ⟨ys', rfl, hys⟩
          rw [ordered] at hOk ⊢
          exact
            orderedItems_congr ih hParts hParts' hPartsB
              hPartsB' hxs hys hOk
      · have hBoth' : ¬ BothSequences a' b' := by
          intro hOther
          exact
            hBoth
              (bothSequences_of_same (same_symm ha h)
                (same_symm hb h') hOther)
        rw [ordered_eq_orderedAtoms hBoth] at hOk
        rw [ordered_eq_orderedAtoms hBoth']
        exact orderedAtoms_congr ha ha' h hb hb' h' hOk

------------------------------------------------------------
-- Comparisons with an Answer
------------------------------------------------------------

/- A comparison of proper values respects sameness. -/
theorem compared_congr
    (ha : a.proper = true)
    (ha' : a'.proper = true)
    (h : same a a' = true)
    (hb : b.proper = true)
    (hb' : b'.proper = true)
    (h' : same b b' = true)
    (hOk : compared c a b = .ok r) :
    compared c a' b' = .ok r := by
  rw [compared_of_not_endless c a b (not_endless_of_proper ha)
    (not_endless_of_proper hb)] at hOk
  rw [compared_of_not_endless c a' b'
    (not_endless_of_proper ha') (not_endless_of_proper hb')]
  cases hOrdered : ordered c a b with
  | error reason =>
      rw [hOrdered] at hOk
      cases hOk
  | ok found =>
      rw [hOrdered] at hOk
      rw [ordered_congr ha ha' h hb hb' h' hOrdered]
      exact hOk

/- Whether proper values are equal respects sameness. -/
theorem equals?_congr
    (ha : a.proper = true)
    (ha' : a'.proper = true)
    (h : same a a' = true)
    (hb : b.proper = true)
    (hb' : b'.proper = true)
    (h' : same b b' = true) :
    equals? a b = equals? a' b' := by
  rw [equals?_of_not_endless a b (not_endless_of_proper ha)
      (not_endless_of_proper hb),
    equals?_of_not_endless a' b' (not_endless_of_proper ha')
      (not_endless_of_proper hb'),
    equal_congr_left ha h, equal_congr_right hb h']

end Value

end FactBase
