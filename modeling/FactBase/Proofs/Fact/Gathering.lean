import FactBase.Fact.Growth
import FactBase.Proofs.Outcome

/-
  This file says of gatherings what can be said without
  knowing what they gather: which growth they leave, when one
  succeeds as another does, and what one can result in.

  Key definitions include:
    * `Gathering.Grows`
    * `Gathering.Tracks`
    * `Gathering.Gives`

  Key theorems include:
    * `Gathering.run_bind`
    * `Gathering.run_mapM`
    * `Gathering.run_mapM_nil`
    * `Gathering.tracks_bind`
    * `Gathering.tracks_foldlM`
    * `Gathering.Gives.of_bind`
    * `Gathering.Gives.foldlM_induction`
-/

------------------------------------------------------------
-- Growth
------------------------------------------------------------

namespace FactBase

open Sorting

namespace Gathering

variable {α β γ : Type}

/- One gathering after the other. -/
theorem run_bind
    (m : Gathering α)
    (f : α → Gathering β)
    (g : Growths) :
    (m >>= f).run.run g =
      match m.run.run g with
      | (.ok a, g') => (f a).run.run g'
      | (.error fault, g') => (.error fault, g') := by
  change
    ExceptT.bindCont f (m.run.run g).1 (m.run.run g).2 = _
  rcases m.run.run g with ⟨_ | _, _⟩ <;> rfl

/- Gathering for each item where nothing grows by it. -/
theorem run_mapM
    {f : α → Gathering β}
    {xs : List α}
    {ys : List β}
    {g : Growths}
    (h :
      List.Forall₂
        (fun x y => (f x).run.run g = (.ok y, g)) xs ys) :
    (xs.mapM f).run.run g = (.ok ys, g) := by
  induction h with
  | nil => rfl
  | cons hHead _ ih =>
      rw [List.mapM_cons, run_bind, hHead]
      simp only [run_bind, ih]
      rfl

/- No collection that has grown is forgotten. -/
def Grows (m : Gathering α) : Prop :=
  ∀ g, g.length ≤ (m.run.run g).2.length

/- Nothing grows where there is nothing to gather. -/
theorem grows_pure (a : α) : Grows (pure a) :=
  fun _ => Nat.le_refl _

/- The same for a failure. -/
theorem grows_throw (fault : Fault) :
    Grows (throw fault : Gathering α) :=
  fun _ => Nat.le_refl _

/- The same for an outcome. -/
theorem grows_lift (outcome : Outcome α) :
    Grows (lift outcome) :=
  fun _ => Nat.le_refl _

/- What grows first has grown in the end. -/
theorem grows_bind
    {m : Gathering α}
    {f : α → Gathering β}
    (h : Grows m)
    (h' : ∀ a, Grows (f a)) : Grows (m >>= f) := by
  intro g
  have hFirst := h g
  rw [run_bind]
  rcases hRun : m.run.run g with ⟨fault | a, g'⟩
  · rw [hRun] at hFirst
    exact hFirst
  · rw [hRun] at hFirst
    exact Nat.le_trans hFirst (h' a g')

/- Gathering something for each item of a list. -/
theorem grows_mapM
    {f : α → Gathering β}
    (h : ∀ a, Grows (f a))
    (xs : List α) : Grows (xs.mapM f) := by
  induction xs with
  | nil => exact grows_pure []
  | cons x xs ih =>
      rw [List.mapM_cons]
      apply grows_bind (h x)
      intro y
      exact grows_bind ih (fun ys => grows_pure (y :: ys))

/- A collection that grows is not forgotten. -/
theorem grows_add
    (origin : Origin)
    (now : Value)
    (s : Shown) : Grows (add origin now s) := by
  intro g
  change g.length ≤ (Growths.add origin now s g).length
  induction g with
  | nil => exact Nat.zero_le _
  | cons x g ih =>
      unfold Growths.add
      split
      · exact Nat.le_refl _
      · exact Nat.succ_le_succ ih

/- Where nothing has grown in the end, nothing ever had. -/
theorem run_bind_nil
    {m : Gathering α}
    {f : α → Gathering β}
    (hGrows : ∀ a, Grows (f a))
    {b : β}
    (h : (m >>= f).run.run [] = (.ok b, [])) :
    ∃ a, m.run.run [] = (.ok a, [])
      ∧ (f a).run.run [] = (.ok b, []) := by
  rw [run_bind] at h
  rcases hRun : m.run.run [] with ⟨fault | a, g⟩
  · rw [hRun] at h
    have hFault : (.error fault : Outcome β) = .ok b :=
      congrArg Prod.fst h
    cases hFault
  · rw [hRun] at h
    have hRest : (f a).run.run g = (.ok b, []) := h
    have hLength := hGrows a g
    rw [hRest] at hLength
    have hNil : g = [] :=
      List.length_eq_zero_iff.mp (Nat.le_zero.mp hLength)
    subst hNil
    exact ⟨a, rfl, hRest⟩

/- The same for each item of a list. -/
theorem run_mapM_nil
    {f : α → Gathering β}
    (hGrows : ∀ a, Grows (f a))
    {xs : List α}
    {ys : List β}
    (h : (xs.mapM f).run.run [] = (.ok ys, [])) :
    List.Forall₂
      (fun x y => (f x).run.run [] = (.ok y, [])) xs ys := by
  induction xs generalizing ys with
  | nil =>
      rw [List.mapM_nil] at h
      have hEq : ([] : List β) = ys :=
        Except.ok.inj (congrArg Prod.fst h)
      exact hEq ▸ .nil
  | cons x xs ih =>
      rw [List.mapM_cons] at h
      have hRest :
          ∀ y, Grows (do return y :: (← xs.mapM f)) :=
        fun y =>
          grows_bind (grows_mapM hGrows xs)
            (fun ys => grows_pure (y :: ys))
      rcases run_bind_nil hRest h with ⟨y, hHead, hTail⟩
      rcases run_bind_nil (fun ys => grows_pure (y :: ys)) hTail
        with ⟨rest, hMap, hEq⟩
      have hAll : y :: rest = ys :=
        Except.ok.inj (congrArg Prod.fst hEq)
      exact hAll ▸ .cons hHead (ih hMap)

end Gathering

------------------------------------------------------------
-- Like Gatherings
------------------------------------------------------------

namespace Gathering

variable {α β γ δ : Type}

/-
  Where one gathering succeeds, another does with a related
  result, and the same grows.
-/
def Tracks
    (R : α → β → Prop)
    (m : Gathering α)
    (m' : Gathering β) : Prop :=
  ∀ g a g', m.run.run g = (.ok a, g') →
    ∃ b, m'.run.run g = (.ok b, g') ∧ R a b

variable {R : α → β → Prop}
variable {S : γ → δ → Prop}

/- Related results without gathering. -/
theorem tracks_pure
    {a : α}
    {b : β}
    (h : R a b) : Tracks R (pure a) (pure b) := by
  intro g c g' hRun
  have hFst : (.ok a : Outcome α) = .ok c :=
    congrArg Prod.fst hRun
  have hSnd : g = g' := congrArg Prod.snd hRun
  rw [Except.ok.injEq] at hFst
  subst hFst hSnd
  exact ⟨b, rfl, h⟩

/- A failure can be set against anything. -/
theorem tracks_throw
    (fault : Fault)
    (m : Gathering β) :
    Tracks R (throw fault : Gathering α) m := by
  intro g a g' hRun
  have hFst : (.error fault : Outcome α) = .ok a :=
    congrArg Prod.fst hRun
  cases hFst

/- A gathering is like itself. -/
theorem tracks_self (m : Gathering α) : Tracks Eq m m :=
  fun _ a _ hRun => ⟨a, hRun, rfl⟩

/- One like gathering after the other. -/
theorem tracks_bind
    {m : Gathering α}
    {m' : Gathering β}
    {f : α → Gathering γ}
    {f' : β → Gathering δ}
    (h : Tracks R m m')
    (h' : ∀ a b, R a b → Tracks S (f a) (f' b)) :
    Tracks S (m >>= f) (m' >>= f') := by
  intro g c g' hRun
  rw [run_bind] at hRun
  rcases hFirst : m.run.run g with ⟨fault | a, g''⟩
  · rw [hFirst] at hRun
    have hFault : (.error fault : Outcome γ) = .ok c :=
      congrArg Prod.fst hRun
    cases hFault
  · rw [hFirst] at hRun
    rcases h g a g'' hFirst with ⟨b, hSecond, hRelated⟩
    rw [run_bind, hSecond]
    exact h' a b hRelated g'' c g' hRun

/- Going through a list alike. -/
theorem tracks_foldlM
    {f : α → γ → Gathering α}
    {f' : β → γ → Gathering β}
    {xs : List γ}
    (h : ∀ x ∈ xs, ∀ a b, R a b → Tracks R (f a x) (f' b x))
    {a : α}
    {b : β}
    (hStart : R a b) :
    Tracks R (xs.foldlM f a) (xs.foldlM f' b) := by
  induction xs generalizing a b with
  | nil => exact tracks_pure hStart
  | cons x xs ih =>
      rw [List.forall_mem_cons] at h
      rw [List.foldlM_cons, List.foldlM_cons]
      exact
        tracks_bind (h.1 a b hStart)
          (fun _ _ hRelated => ih h.2 hRelated)

/- Gathering alike for each item of a list. -/
theorem tracks_mapM
    {f : γ → Gathering α}
    {f' : γ → Gathering β}
    (h : ∀ x, Tracks R (f x) (f' x))
    (xs : List γ) :
    Tracks (List.Forall₂ R) (xs.mapM f) (xs.mapM f') := by
  induction xs with
  | nil => exact tracks_pure .nil
  | cons x xs ih =>
      rw [List.mapM_cons, List.mapM_cons]
      apply tracks_bind (h x)
      intro a b hHead
      apply tracks_bind ih
      intro as bs hTail
      exact tracks_pure (.cons hHead hTail)

end Gathering

------------------------------------------------------------
-- Results
------------------------------------------------------------

namespace Gathering

variable {α β : Type}

/- A gathering can result in something, whatever had grown. -/
def Gives
    (m : Gathering α)
    (a : α) : Prop :=
  ∃ g g', m.run.run g = (.ok a, g')

/- Where nothing is gathered, the result is known. -/
theorem gives_pure_iff
    {a b : α} : Gives (pure a) b ↔ b = a := by
  constructor
  · rintro ⟨g, g', hRun⟩
    exact (Except.ok.inj (congrArg Prod.fst hRun)).symm
  · rintro rfl
    exact ⟨[], [], rfl⟩

/- A failure has no result. -/
theorem not_gives_throw
    {fault : Fault}
    {a : α} : ¬Gives (throw fault) a := by
  rintro ⟨g, g', hRun⟩
  cases congrArg Prod.fst hRun

/- An outcome results in what it is. -/
theorem gives_lift_iff
    {outcome : Outcome α}
    {a : α} : Gives (lift outcome) a ↔ outcome = .ok a := by
  constructor
  · rintro ⟨g, g', hRun⟩
    exact congrArg Prod.fst hRun
  · rintro rfl
    exact ⟨[], [], rfl⟩

/- The result of two steps is one of the second. -/
theorem Gives.of_bind
    {m : Gathering α}
    {f : α → Gathering β}
    {b : β}
    (h : Gives (m >>= f) b) :
    ∃ a, m.Gives a ∧ (f a).Gives b := by
  rcases h with ⟨g, g', hRun⟩
  rw [run_bind] at hRun
  rcases hFirst : m.run.run g with ⟨fault | a, g''⟩
  · rw [hFirst] at hRun
    cases congrArg Prod.fst hRun
  · rw [hFirst] at hRun
    exact ⟨a, ⟨g, g'', hFirst⟩, g'', g', hRun⟩

private theorem Gives.foldlM_after
    {I : List α → β → Prop}
    {f : β → α → Gathering β}
    {xs : List α}
    (hStep :
      ∀ done, ∀ x ∈ xs, ∀ b b', I done b → (f b x).Gives b' →
        I (done ++ [x]) b')
    {done : List α}
    {b c : β}
    (hStart : I done b)
    (h : Gives (xs.foldlM f b) c) : I (done ++ xs) c := by
  induction xs generalizing done b with
  | nil =>
      rw [List.append_nil, gives_pure_iff.mp h]
      exact hStart
  | cons x xs ih =>
      rw [List.foldlM_cons] at h
      rcases h.of_bind with ⟨b', hFirst, hRest⟩
      have hDone : I (done ++ [x]) b' :=
        hStep done x List.mem_cons_self b b' hStart hFirst
      have hAll :=
        ih
          (fun done y hy =>
            hStep done y (List.mem_cons_of_mem x hy))
          hDone hRest
      rwa [List.append_assoc] at hAll

/-
  What each step of a walk along a list keeps of the items
  that are done holds of all of them in the end.
-/
theorem Gives.foldlM_induction
    (I : List α → β → Prop)
    {f : β → α → Gathering β}
    {xs : List α}
    {b c : β}
    (hStart : I [] b)
    (hStep :
      ∀ done, ∀ x ∈ xs, ∀ b b', I done b → (f b x).Gives b' →
        I (done ++ [x]) b')
    (h : Gives (xs.foldlM f b) c) : I xs c := by
  have hAll := Gives.foldlM_after hStep hStart h
  rwa [List.nil_append] at hAll

end Gathering

end FactBase
