import Mathlib.Data.List.Basic

/-
  This file shows what is known of a text from where it
  starts.  A stretch of characters is known where it must
  end.  Items that are written one after another are known up
  to the mark that closes them, as long as each of them is
  known and none starts with the mark.

  Key definitions include:
    * `StopsAt`
    * `SeveredFrom`

  Key theorems include:
    * `append_inj_of_all`
    * `flatMap_append_inj`
    * `separated_append_inj`
    * `listed_append_inj`
-/

------------------------------------------------------------
-- Stretches
------------------------------------------------------------

namespace FactBase

/- A stretch of characters is known where it must end. -/
theorem append_inj_of_all
    {α : Type}
    {p : α → Bool}
    {xs ys r s : List α}
    (hXs : ∀ x ∈ xs, p x = true)
    (hYs : ∀ y ∈ ys, p y = true)
    (hr : ∀ x ∈ r.head?, p x = false)
    (hs : ∀ x ∈ s.head?, p x = false)
    (h : xs ++ r = ys ++ s) : xs = ys ∧ r = s := by
  have hStop :
      ∀ r : List α, (∀ x ∈ r.head?, p x = false) →
        r.takeWhile p = [] := by
    intro r hr
    cases r with
    | nil => rfl
    | cons x r =>
        exact List.takeWhile_cons_of_neg (by simp [hr x rfl])
  have hSame := congrArg (List.takeWhile p) h
  rw [List.takeWhile_append_of_pos hXs,
    List.takeWhile_append_of_pos hYs, hStop r hr, hStop s hs,
    List.append_nil, List.append_nil] at hSame
  subst hSame
  exact ⟨rfl, List.append_cancel_left h⟩

------------------------------------------------------------
-- Items
------------------------------------------------------------

variable {α : Type}
variable {f : α → List Char}
variable {xs ys : List α}
variable {r s : List Char}
variable {close : Char}

/-
  Items that follow one another are known up to the closing
  mark.  Each is known if it is followed by what may follow an
  item, of which `P` holds.
-/
theorem flatMap_append_inj
    {P : List Char → Prop}
    (hFollows :
      ∀ (zs : List α) (t : List Char),
        P (zs.flatMap f ++ close :: t))
    (hOpens : ∀ (x : α) (t u : List Char), f x ++ t ≠ close :: u)
    (hKnown :
      ∀ x ∈ xs, ∀ y ∈ ys, ∀ {t u : List Char},
        P t → P u →
          f x ++ t = f y ++ u → x = y ∧ t = u)
    (h :
      xs.flatMap f ++ close :: r = ys.flatMap f ++ close :: s) :
    xs = ys ∧ r = s := by
  induction xs generalizing ys with
  | nil =>
      cases ys with
      | nil => exact ⟨rfl, (List.cons.inj h).2⟩
      | cons y ys =>
          rw [List.flatMap_cons, List.append_assoc] at h
          exact absurd h.symm (hOpens y _ _)
  | cons x xs ih =>
      rw [List.flatMap_cons, List.append_assoc] at h
      cases ys with
      | nil => exact absurd h (hOpens x _ _)
      | cons y ys =>
          rw [List.flatMap_cons, List.append_assoc] at h
          rcases
              hKnown x List.mem_cons_self y List.mem_cons_self
                (hFollows xs r) (hFollows ys s) h with
            ⟨rfl, hRest⟩
          have hKnown' :
              ∀ x ∈ xs, ∀ y ∈ ys, ∀ {t u : List Char},
                P t → P u →
                  f x ++ t = f y ++ u → x = y ∧ t = u :=
            fun x hx y hy =>
              hKnown x (List.mem_cons_of_mem _ hx) y
                (List.mem_cons_of_mem _ hy)
          rcases ih hKnown' hRest with ⟨rfl, rfl⟩
          exact ⟨rfl, rfl⟩

------------------------------------------------------------
-- Lists
------------------------------------------------------------

/- A text goes on with one of some characters, if it goes on. -/
def StopsAt (stops r : List Char) : Prop :=
  ∀ c ∈ r.head?, c ∈ stops

/-
  What stands for `x` can be told from what stands for `y`
  where either is followed by a stop.
-/
def SeveredFrom
    (stops : List Char)
    (f : α → List Char)
    (x y : α) : Prop :=
  ∀ {r s}, StopsAt stops r → StopsAt stops s →
    f x ++ r = f y ++ s → x = y ∧ r = s

variable {stops gap : List Char}
variable {sep : Char}

/- Items that are left follow a separator each. -/
def separated
    (sep : Char)
    (gap : List Char)
    (f : α → List Char)
    (xs : List α) : List Char :=
  xs.flatMap (fun x => sep :: (gap ++ f x))

/- A list that goes on, or is closed, stops its last item. -/
theorem stopsAt_separated
    (hSep : sep ∈ stops)
    (hClose : close ∈ stops) :
    StopsAt stops (separated sep gap f xs ++ close :: r) := by
  intro c hc
  cases xs with
  | nil => exact Option.some.inj hc ▸ hClose
  | cons x xs => exact Option.some.inj hc ▸ hSep

/- The items that are left are known up to the closing mark. -/
theorem separated_append_inj
    (hSep : sep ∈ stops)
    (hClose : close ∈ stops)
    (hOther : close ≠ sep)
    (hSevered : ∀ x ∈ xs, ∀ y ∈ ys, SeveredFrom stops f x y)
    (h :
      separated sep gap f xs ++ close :: r
        = separated sep gap f ys ++ close :: s) :
    xs = ys ∧ r = s := by
  refine
    flatMap_append_inj
      (fun _ _ => stopsAt_separated hSep hClose) ?_ ?_ h
  · intro x t u hSame
    exact hOther (List.cons.inj hSame).1.symm
  · intro x hx y hy t u ht hu hSame
    rw [List.cons_append, List.cons_append, List.append_assoc,
      List.append_assoc] at hSame
    exact
      hSevered x hx y hy ht hu
        (List.append_cancel_left (List.cons.inj hSame).2)

/- All items but the first one follow a separator. -/
theorem intercalate_map_cons
    (x : α)
    (xs : List α) :
    (sep :: gap).intercalate ((x :: xs).map f)
      = f x ++ separated sep gap f xs := by
  induction xs generalizing x with
  | nil => simp [separated]
  | cons y ys ih =>
      rw [List.map_cons, List.map_cons,
        List.intercalate_cons_cons, ← List.map_cons, ih,
        separated, separated, List.flatMap_cons]
      simp only [List.append_assoc, List.cons_append]

/- The items of a list are known up to the closing mark. -/
theorem listed_append_inj
    (hSep : sep ∈ stops)
    (hClose : close ∈ stops)
    (hOther : close ≠ sep)
    (hOpens :
      ∀ x ∈ xs ++ ys, ∃ c rest, f x = c :: rest ∧ c ≠ close)
    (hSevered : ∀ x ∈ xs, ∀ y ∈ ys, SeveredFrom stops f x y)
    (h :
      (sep :: gap).intercalate (xs.map f) ++ close :: r
        = (sep :: gap).intercalate (ys.map f) ++ close :: s) :
    xs = ys ∧ r = s := by
  have hHead :
      ∀ {y : α} (ys : List α) (t u : List Char),
        (∃ c rest, f y = c :: rest ∧ c ≠ close) →
          (sep :: gap).intercalate ((y :: ys).map f) ++ t
            ≠ close :: u := by
    rintro y ys t u ⟨c, rest, hFirst, hOpen⟩ hSame
    rw [intercalate_map_cons, hFirst] at hSame
    exact hOpen (List.cons.inj hSame).1
  cases xs with
  | nil =>
      cases ys with
      | nil => exact ⟨rfl, (List.cons.inj h).2⟩
      | cons y ys =>
          exact
            absurd h.symm
              (hHead ys _ _ (hOpens y List.mem_cons_self))
  | cons x xs =>
      cases ys with
      | nil =>
          exact
            absurd h
              (hHead xs _ _ (hOpens x List.mem_cons_self))
      | cons y ys =>
          rw [intercalate_map_cons, intercalate_map_cons,
            List.append_assoc, List.append_assoc] at h
          rcases
              hSevered x List.mem_cons_self y List.mem_cons_self
                (stopsAt_separated hSep hClose)
                (stopsAt_separated hSep hClose) h with
            ⟨rfl, hRest⟩
          have hSevered' :
              ∀ x ∈ xs, ∀ y ∈ ys, SeveredFrom stops f x y :=
            fun x hx y hy =>
              hSevered x (List.mem_cons_of_mem _ hx) y
                (List.mem_cons_of_mem _ hy)
          rcases
              separated_append_inj hSep hClose hOther hSevered'
                hRest with
            ⟨rfl, rfl⟩
          exact ⟨rfl, rfl⟩

end FactBase
