import Mathlib.Data.Int.ConditionallyCompleteOrder
import Mathlib.Data.List.Lex
import Mathlib.Order.WithBot
import FactBase.Proofs.Value.Order
import FactBase.Proofs.Value.TextOrder

/-
  This file gives the values that are sorted a rank in one
  linear order, and shows that comparing such values, and
  sequences of them, is comparing their ranks.  What is not
  a number ranks after all numbers, and so does an undefined
  number: nothing is at least as great as that.

  Key definitions include:
    * `Comparison.Holds`
    * `Value.point`
    * `Value.rank`
    * `Value.RanksWith`

  Key theorems include:
    * `Value.ranksWith_of_place`
    * `Value.ranksWith_str`
    * `Value.ranksWith_pair`
    * `Value.itemsCompared_iff`
    * `Value.sameItems_iff_ranks`
    * `Value.compared_tuple_iff`
-/

------------------------------------------------------------
-- Comparisons in a Linear Order
------------------------------------------------------------

namespace FactBase

namespace Comparison

variable {α β : Type} [LinearOrder α] [LinearOrder β]
variable {c : Comparison}

/- What a comparison says about places in a linear order. -/
def Holds
    (c : Comparison)
    (x y : α) : Prop :=
  match c with
  | .less => x < y
  | .greater => y < x
  | .atMost => x ≤ y
  | .atLeast => y ≤ x

/- An outcome is accepted where the comparison holds. -/
theorem accepts_compare (x y : α) :
    c.accepts (compare x y) = true ↔ c.Holds x y := by
  rcases lt_trichotomy x y with h | h | h
  · rw [compare_lt_iff_lt.mpr h]
    cases c <;> simp [accepts, Holds, h, h.le, h.not_gt]
  · rw [compare_eq_iff_eq.mpr h]
    cases c <;> simp [accepts, Holds, h]
  · rw [compare_gt_iff_gt.mpr h]
    cases c <;> simp [accepts, Holds, h, h.le, h.not_gt]

/- The first part decides about pairs where it differs. -/
theorem holds_toLex_of_ne
    {a a' : α}
    (h : a ≠ a')
    (b b' : β) :
    c.Holds (toLex (a, b)) (toLex (a', b')) ↔
      c.Holds a a' := by
  cases c <;>
    simp [Holds, Prod.Lex.toLex_lt_toLex,
      Prod.Lex.toLex_le_toLex, h, h.symm, h.le_iff_lt,
      h.symm.le_iff_lt]

/- The second part decides where the first is the same. -/
theorem holds_toLex_iff
    (a : α)
    {b b' : β} :
    c.Holds (toLex (a, b)) (toLex (a, b')) ↔
      c.Holds b b' := by
  cases c <;>
    simp [Holds, Prod.Lex.toLex_lt_toLex,
      Prod.Lex.toLex_le_toLex]

/- The head decides about lists where it differs. -/
theorem holds_cons_of_ne
    {x y : α}
    (h : x ≠ y)
    (xs ys : List α) :
    c.Holds (x :: xs) (y :: ys) ↔ c.Holds x y := by
  cases c <;>
    simp [Holds, ← not_lt, List.cons_lt_cons_iff, h, h.symm]

/- The tail decides where the head is the same. -/
theorem holds_cons_iff
    (x : α)
    {xs ys : List α} :
    c.Holds (x :: xs) (x :: ys) ↔ c.Holds xs ys := by
  cases c <;> simp [Holds, ← not_lt]

/- Adding a greatest place changes nothing between others. -/
theorem holds_coe {x y : α} :
    c.Holds (x : WithTop α) (y : WithTop α) ↔ c.Holds x y := by
  cases c <;> simp [Holds]

/- Lists of numbers are compared by their linear order. -/
theorem accepts_compare_list (xs ys : List ℕ) :
    c.accepts (compare xs ys) = true ↔ c.Holds xs ys := by
  induction xs generalizing ys with
  | nil =>
      cases ys with
      | nil => cases c <;> simp [accepts, Holds]
      | cons y ys =>
          rw [List.compare_nil_cons]
          cases c <;> simp [accepts, Holds, ← not_lt]
  | cons x xs ih =>
      cases ys with
      | nil =>
          rw [List.compare_cons_nil]
          cases c <;> simp [accepts, Holds, ← not_lt]
      | cons y ys =>
          rw [List.compare_cons_cons]
          by_cases h : x = y
          · subst h
            rw [compare_eq_iff_eq.mpr rfl, Ordering.eq_then,
              holds_cons_iff]
            exact ih ys
          · have hThen :
                (compare x y).then (compare xs ys)
                  = compare x y := by
              rcases Nat.lt_or_gt_of_ne h with h | h
              · rw [compare_lt_iff_lt.mpr h]
                rfl
              · rw [compare_gt_iff_gt.mpr h]
                rfl
            rw [hThen, holds_cons_of_ne h, accepts_compare]

end Comparison

namespace Value

------------------------------------------------------------
-- Ranks
------------------------------------------------------------

/- Where values of one kind stand among each other. -/
abbrev Point : Type :=
  WithTop (ℤ ×ₗ ℚ) ×ₗ List ℕ

/- Where values that are sorted stand among each other. -/
abbrev Rank : Type :=
  ℤ ×ₗ Point

/-
  Numbers stand at their places, texts after all of them, in
  the order of their code points.
-/
def point (v : Value) : Point :=
  toLex
    (match v.place? with
      | some p => (p : WithTop (ℤ ×ₗ ℚ))
      | none => ⊤,
    (v.str?.map codePoints).getD [])

/-
  A pair that begins with the number of its kind ranks by
  that number first.
-/
def rank : Value → Rank
  | .tuple [.int k, v] => toLex (k, v.point)
  | v => toLex (0, v.point)

variable {c : Comparison}
variable {x y : Value}

/- The point of a number is its place. -/
theorem point_of_place
    {p : ℤ ×ₗ ℚ}
    (h : x.place? = some p) :
    x.point = toLex ((p : WithTop (ℤ ×ₗ ℚ)), []) := by
  have hText : x.str? = none := by
    cases x <;> first | rfl | cases h
  unfold point
  rw [h, hText]
  rfl

/- The point of a text are its code points. -/
@[simp] theorem point_str (s : String) :
    (Value.str s).point = toLex (⊤, codePoints s) := rfl

/- A number ranks as of no kind. -/
theorem rank_of_magnitude
    (h : x.magnitude?.isSome = true) :
    x.rank = toLex (0, x.point) := by
  cases x <;> first | rfl | cases h

/- So does a text. -/
@[simp] theorem rank_str (s : String) :
    (Value.str s).rank = toLex (0, (Value.str s).point) := rfl

/- A pair with the number of a kind ranks in that kind. -/
@[simp] theorem rank_pair
    (k : Int)
    (v : Value) :
    (Value.tuple [.int k, v]).rank = toLex (k, v.point) := rfl

------------------------------------------------------------
-- Comparing by Ranks
------------------------------------------------------------

/-
  Whether the second of two values is taken for the first can
  be told, and then they have one rank.  Otherwise their ranks
  differ and tell the answer of any comparison that has one.
-/
structure RanksWith
    (c : Comparison)
    (x y : Value) : Prop where
  told : alike? x y = some (same x y)
  alike : same x y = true → x.rank = y.rank
  unlike :
    ∀ {n : Nat} {b : Bool}, same x y = false →
      comparedWithin c n x y = .ok b →
        x.rank ≠ y.rank ∧ (b = true ↔ c.Holds x.rank y.rank)

/- What is answered under another failure is answered. -/
private theorem ok_of_mapError
    {r : Except Incomparable Bool}
    {b : Bool}
    (h : r.mapError Unordered.incomparable = .ok b) :
    r = .ok b := by
  cases r with
  | error reason => cases h
  | ok a => exact congrArg Except.ok (Except.ok.inj h)

/- A number is on the line unless it is undefined. -/
theorem exists_place
    (h : x.magnitude?.isSome = true)
    (hDefined : x.isUndefined = false) :
    ∃ p, x.place? = some p := by
  cases x with
  | bool b => exact ⟨_, place?_bool b⟩
  | int n => exact ⟨_, place?_int n⟩
  | float f =>
      cases f with
      | finite negative m e => exact ⟨_, rfl⟩
      | infinite negative => cases negative <;> exact ⟨_, rfl⟩
      | undefined n => cases hDefined
  | _ => cases h

/- Values that have an end are compared by their order. -/
theorem comparedWithin_of_not_endless
    {n : Nat}
    {b : Bool}
    (hx : x.endless = false)
    (hy : y.endless = false)
    (h : comparedWithin c n x y = .ok b) :
    ordered c x y = .ok b := by
  cases n with
  | zero => cases h
  | succ n =>
      unfold comparedWithin at h
      rw [hx, hy, if_neg (by decide)] at h
      exact ok_of_mapError h

/- One step is enough to compare them. -/
theorem comparedWithin_one
    {b : Bool}
    (hx : x.endless = false)
    (hy : y.endless = false)
    (h : ordered c x y = .ok b) :
    comparedWithin c 1 x y = .ok b := by
  unfold comparedWithin
  rw [hx, hy, if_neg (by decide), h]
  rfl

/- Only numbers are compared with a number. -/
theorem comparedWithin_magnitude
    {n : Nat}
    {m : Magnitude}
    {b : Bool}
    (hx : x.magnitude? = some m)
    (h : comparedWithin c n x y = .ok b) :
    ∃ m', y.magnitude? = some m'
      ∧ b = (m.compare? m').any c.accepts := by
  have hAtoms : orderedAtoms c x y = .ok b := by
    cases n with
    | zero => cases h
    | succ n =>
        have hSome := Option.isSome_of_eq_some hx
        have hOpened :
            (orderedAtoms c x y).mapError
                Unordered.incomparable
              = .ok b := by
          rw [← h]
          cases x <;> cases hSome <;>
            (unfold comparedWithin
             split <;> simp [opened, ordered])
        exact ok_of_mapError hOpened
  rcases orderedAtoms_cases hAtoms with
    ⟨k, m', hk, hm', hb⟩ | ⟨hBare, -⟩ | ⟨xs, ys, hxs, -⟩
  · rw [hx, Option.some.injEq] at hk
    subst hk
    exact ⟨m', hm', hb⟩
  · have hNot : x.bare = false := by
      cases x <;> first | rfl | cases hx
    rw [hNot] at hBare
    cases hBare
  · have hNone : x.members? = none := by
      cases x <;> first | rfl | cases hx
    rw [hNone] at hxs
    cases hxs

/- It can be told whether a value is at the place of another. -/
theorem alike?_of_place
    {p : ℤ ×ₗ ℚ}
    (hx : x.place? = some p) :
    alike? x y = some (same x y) := by
  have hEnd :=
    endless_of_magnitude (isSome_magnitude?_of_place? hx)
  cases hOther : y.endless with
  | false => exact alike?_of_not_endless x y hEnd hOther
  | true =>
      have hSame : same x y = false := by
        rw [Bool.eq_false_iff]
        intro hSame
        have hNumber :=
          isSome_magnitude?_of_place? (place?_of_same hSame hx)
        rw [endless_of_magnitude hNumber] at hOther
        cases hOther
      rw [hSame]
      simp [alike?, alikeWithin, hEnd, hOther]

/- Numbers at different places are compared by these. -/
theorem holds_point_of_place
    {p q : ℤ ×ₗ ℚ}
    (hx : x.place? = some p)
    (hy : y.place? = some q)
    (hNe : p ≠ q) :
    x.point ≠ y.point
      ∧ (c.Holds x.point y.point ↔ c.Holds p q) := by
  have hPlaces :
      (p : WithTop (ℤ ×ₗ ℚ)) ≠ (q : WithTop (ℤ ×ₗ ℚ)) :=
    fun h => hNe (WithTop.coe_inj.mp h)
  rw [point_of_place hx, point_of_place hy]
  constructor
  · simpa using hPlaces
  · rw [Comparison.holds_toLex_of_ne hPlaces,
      Comparison.holds_coe]

/- No number is at least as great as an undefined one. -/
theorem not_holds_point_of_undefined
    {p : ℤ ×ₗ ℚ}
    (hx : x.place? = some p)
    (hy : y.place? = none) :
    x.point ≠ y.point
      ∧ ¬ Comparison.atLeast.Holds x.point y.point := by
  have hLess :
      (p : WithTop (ℤ ×ₗ ℚ)) ≠ (⊤ : WithTop (ℤ ×ₗ ℚ)) :=
    WithTop.coe_ne_top
  rw [point_of_place hx]
  unfold point
  rw [hy]
  constructor
  · simp
  · rw [Comparison.holds_toLex_of_ne hLess]
    simp [Comparison.Holds]

/-
  A number on the line ranks with any value.  The second one
  must not be undefined, unless the comparison is one that
  nothing passes with an undefined number.
-/
theorem ranksWith_of_place
    {p : ℤ ×ₗ ℚ}
    (hx : x.place? = some p)
    (hy : c = .atLeast ∨ y.isUndefined = false) :
    RanksWith c x y := by
  have hNumber := isSome_magnitude?_of_place? hx
  refine ⟨alike?_of_place hx, ?_, ?_⟩
  · intro hSame
    have hPlace := place?_of_same hSame hx
    rw [rank_of_magnitude hNumber,
      rank_of_magnitude (isSome_magnitude?_of_place? hPlace),
      point_of_place hx, point_of_place hPlace]
  · intro n b hSame hCompared
    rcases Option.isSome_iff_exists.mp hNumber with ⟨m, hm⟩
    rcases comparedWithin_magnitude hm hCompared with
      ⟨m', hm', hb⟩
    have hPlace : m.place? = some p := by
      rw [← hx, place?, hm, Option.bind_some]
    have hOther : m'.place? = y.place? := by
      rw [place?, hm', Option.bind_some]
    rw [Magnitude.compare?_eq, hPlace, hOther] at hb
    rw [rank_of_magnitude hNumber,
      rank_of_magnitude (Option.isSome_of_eq_some hm'),
      Comparison.holds_toLex_iff, ne_eq,
      EmbeddingLike.apply_eq_iff_eq, Prod.mk.injEq,
      eq_self_iff_true, true_and]
    cases hq : y.place? with
    | some q =>
        have hNe : p ≠ q := by
          rintro rfl
          rw [(same_number_iff hNumber).mpr
            (.inl ⟨p, hx, hq⟩)] at hSame
          cases hSame
        rcases holds_point_of_place (c := c) hx hq hNe with
          ⟨hPoints, hHolds⟩
        refine ⟨hPoints, ?_⟩
        rw [hHolds, ← Comparison.accepts_compare, hb, hq]
        rfl
    | none =>
        have hAtLeast : c = .atLeast := by
          rcases hy with hc | hDefined
          · exact hc
          · rcases exists_place (Option.isSome_of_eq_some hm')
                hDefined with ⟨q, hPlaced⟩
            rw [hq] at hPlaced
            cases hPlaced
        subst hAtLeast
        rcases not_holds_point_of_undefined hx hq with
          ⟨hPoints, hNot⟩
        rw [hq] at hb
        exact ⟨hPoints, iff_of_false (by simp [hb]) hNot⟩

/- Texts rank with texts. -/
theorem ranksWith_str (s t : String) :
    RanksWith c (.str s) (.str t) where
  told := alike?_of_not_endless _ _ rfl rfl
  alike := by
    intro hSame
    rw [(same_bare_iff rfl).mp hSame]
  unlike := by
    intro n b hSame hCompared
    have hOrdered : ordered c (.str s) (.str t) = .ok b :=
      comparedWithin_of_not_endless rfl rfl hCompared
    have hb : c.accepts (compareTexts s t) = b :=
      Except.ok.inj hOrdered
    have hNe : codePoints s ≠ codePoints t := by
      intro hEq
      rw [codePoints_inj hEq, (same_bare_iff rfl).mpr rfl]
        at hSame
      cases hSame
    constructor
    · simpa using hNe
    · rw [rank_str, rank_str, point_str, point_str,
        Comparison.holds_toLex_iff, Comparison.holds_toLex_iff,
        ← hb]
      exact Comparison.accepts_compare_list _ _

/- Integers rank by their size. -/
theorem rank_int_le_iff {m n : Int} :
    (Value.int m).rank ≤ (Value.int n).rank ↔ m ≤ n := by
  rw [rank_of_magnitude rfl, rank_of_magnitude rfl,
    point_of_place (place?_int m), point_of_place (place?_int n)]
  simp [Prod.Lex.toLex_lt_toLex, le_iff_lt_or_eq]

/- Integers are compared as such. -/
theorem ordered_int
    {k k' : Int}
    {b : Bool}
    (hNe : k ≠ k')
    (h : ordered c (.int k) (.int k') = .ok b) :
    b = true ↔ c.Holds k k' := by
  have hRanks : RanksWith c (.int k) (.int k') :=
    ranksWith_of_place (place?_int k) (.inr rfl)
  have hSame : same (.int k) (.int k') = false := by
    simpa [same, isInt] using hNe
  rcases hRanks.unlike hSame (comparedWithin_one rfl rfl h)
    with ⟨-, hHolds⟩
  have hPlaces :
      (toLex (0, (k : ℚ)) : ℤ ×ₗ ℚ) ≠ toLex (0, (k' : ℚ)) := by
    simpa using hNe
  rw [hHolds, rank_of_magnitude rfl, rank_of_magnitude rfl,
    Comparison.holds_toLex_iff,
    (holds_point_of_place (place?_int k) (place?_int k')
      hPlaces).2,
    Comparison.holds_toLex_iff]
  cases c <;> simp [Comparison.Holds]

/-
  Pairs with the numbers of their kinds rank with each other,
  if the values in them do whenever they are of one kind.
-/
theorem ranksWith_pair
    {k k' : Int}
    (hx : x.endless = false)
    (hy : y.endless = false)
    (hRank : x.rank = toLex (0, x.point))
    (hRank' : y.rank = toLex (0, y.point))
    (h : k = k' → RanksWith c x y) :
    RanksWith c (.tuple [.int k, x]) (.tuple [.int k', y]) := by
  have hLeft := endless_pair k hx
  have hRight := endless_pair k' hy
  have hSameKind : same (.int k) (.int k') = (k == k') := by
    simp [same, isInt]
  have hSameItems :
      same (.tuple [.int k, x]) (.tuple [.int k', y])
        = (k == k' && same x y) := by
    simp [same, sameItems, hSameKind]
  refine ⟨alike?_of_not_endless _ _ hLeft hRight, ?_, ?_⟩
  · intro hSame
    rw [hSameItems, Bool.and_eq_true, beq_iff_eq] at hSame
    rcases hSame with ⟨hKind, hSame⟩
    have hEq := (h hKind).alike hSame
    rw [hRank, hRank'] at hEq
    rw [rank_pair, rank_pair, hKind]
    simpa using hEq
  · intro n b hSame hCompared
    have hOrdered :=
      comparedWithin_of_not_endless hLeft hRight hCompared
    rw [ordered, orderedItems, hSameKind] at hOrdered
    rw [rank_pair, rank_pair]
    by_cases hKind : k = k'
    · subst hKind
      have hUnlike : same x y = false := by
        simpa [hSameItems] using hSame
      rw [if_pos (beq_iff_eq.mpr rfl), orderedItems, hUnlike,
        if_neg Bool.false_ne_true] at hOrdered
      rcases (h rfl).unlike hUnlike
          (comparedWithin_one hx hy hOrdered)
        with ⟨hNe, hHolds⟩
      rw [hRank, hRank'] at hNe hHolds
      rw [Comparison.holds_toLex_iff] at hHolds ⊢
      exact ⟨by simpa using hNe, hHolds⟩
    · rw [if_neg (by simpa using hKind)] at hOrdered
      constructor
      · simp [hKind]
      · rw [Comparison.holds_toLex_of_ne hKind]
        exact ordered_int hKind hOrdered

------------------------------------------------------------
-- Sequences
------------------------------------------------------------

variable {xs ys : List Value}

/-
  Items that rank with those beside them are compared as the
  sequences of their ranks are.
-/
theorem itemsCompared_iff
    {n : Nat}
    {b : Bool}
    (hRanks : List.Forall₂ (RanksWith c) xs ys)
    (h : itemsCompared c (comparedWithin c n) xs ys = .ok b) :
    b = true ↔ c.Holds (xs.map rank) (ys.map rank) := by
  induction hRanks with
  | nil =>
      rw [← Except.ok.inj h]
      cases c <;> simp [Comparison.accepts, Comparison.Holds]
  | @cons x y xs ys hHead _ ih =>
      unfold itemsCompared at h
      rw [hHead.told] at h
      rw [List.map_cons, List.map_cons]
      cases hSame : same x y with
      | true =>
          rw [hSame] at h
          rw [hHead.alike hSame, Comparison.holds_cons_iff]
          exact ih h
      | false =>
          rw [hSame] at h
          rcases hHead.unlike hSame h with ⟨hNe, hHolds⟩
          rw [Comparison.holds_cons_of_ne hNe]
          exact hHolds

/- Where that has an answer, they are the same by ranks. -/
theorem sameItems_iff_ranks
    {n : Nat}
    {b : Bool}
    (hRanks : List.Forall₂ (RanksWith c) xs ys)
    (h : itemsCompared c (comparedWithin c n) xs ys = .ok b) :
    sameItems xs ys = true ↔ xs.map rank = ys.map rank := by
  induction hRanks with
  | nil => simp [sameItems]
  | @cons x y xs ys hHead _ ih =>
      unfold itemsCompared at h
      rw [hHead.told] at h
      rw [sameItems, Bool.and_eq_true, List.map_cons,
        List.map_cons, List.cons.injEq]
      cases hSame : same x y with
      | true =>
          rw [hSame] at h
          rw [ih h]
          simp [hHead.alike hSame]
      | false =>
          rw [hSame] at h
          simp [(hHead.unlike hSame h).1]

/- Items that have an end are compared by their order. -/
private theorem itemsCompared_of_orderedItems
    {b : Bool}
    (hx : endlessItems xs = false)
    (hy : endlessItems ys = false)
    (h : orderedItems c xs ys = .ok b) :
    itemsCompared c (comparedWithin c 1) xs ys = .ok b := by
  induction xs generalizing ys with
  | nil =>
      rw [orderedItems] at h
      rw [← Except.ok.inj h]
      rfl
  | cons x xs ih =>
      cases ys with
      | nil =>
          rw [orderedItems] at h
          rw [← Except.ok.inj h]
          rfl
      | cons y ys =>
          rw [endlessItems, Bool.or_eq_false_iff] at hx hy
          rw [orderedItems] at h
          unfold itemsCompared
          rw [alike?_of_not_endless x y hx.1 hy.1]
          cases hSame : same x y with
          | true =>
              rw [hSame, if_pos rfl] at h
              exact ih hx.2 hy.2 h
          | false =>
              rw [hSame, if_neg Bool.false_ne_true] at h
              exact comparedWithin_one hx.1 hy.1 h

/- Comparing tuples is comparing their items. -/
theorem exists_itemsCompared_of_compared
    {b : Bool}
    (h : compared c (.tuple xs) (.tuple ys) = .ok b) :
    ∃ n,
      itemsCompared c (comparedWithin c n) xs ys = .ok b := by
  cases hEnd : (endless (.tuple xs) || endless (.tuple ys)) with
  | true =>
      unfold compared comparedWithin at h
      rw [if_pos hEnd] at h
      exact ⟨_, h⟩
  | false =>
      rcases Bool.or_eq_false_iff.mp hEnd with ⟨hx, hy⟩
      have hOrdered :=
        comparedWithin_of_not_endless hx hy h
      rw [ordered] at hOrdered
      exact ⟨1, itemsCompared_of_orderedItems hx hy hOrdered⟩

/-
  So tuples whose items rank with those beside them are
  compared by ranks, which also tell whether they are the
  same.
-/
theorem compared_tuple_iff
    {b : Bool}
    (hRanks : List.Forall₂ (RanksWith c) xs ys)
    (h : compared c (.tuple xs) (.tuple ys) = .ok b) :
    (b = true ↔ c.Holds (xs.map rank) (ys.map rank))
      ∧ (sameItems xs ys = true ↔
        xs.map rank = ys.map rank) := by
  rcases exists_itemsCompared_of_compared h with ⟨n, hItems⟩
  exact
    ⟨itemsCompared_iff hRanks hItems,
      sameItems_iff_ranks hRanks hItems⟩

end Value

end FactBase
