import FactBase.Fact.Index
import FactBase.Proofs.Outcome
import FactBase.Proofs.Value.Equality
import FactBase.Sorting.Comparable

/-
  This file says when the facts of a database can be sorted.
  Three of the four indexes sort values by keys that always
  compare.  The fourth one sorts references as they are, and
  these may be of any kind.

  Key definitions include:
    * `Value.SortsWith`
    * `Database.ReferencesSort`

  Key theorems include:
    * `Value.comparedWithin_mono`
    * `Value.exists_compared_tuple`
    * `Value.sortsWith_orderKey`
    * `Database.exists_sortedFacts`
    * `Database.exists_scan`
-/

------------------------------------------------------------
-- More Steps
------------------------------------------------------------

namespace FactBase

open Sorting

namespace Value

variable {c : Comparison}

/- Items compare by any comparison that knows the answers. -/
theorem itemsCompared_mono
    {f g : Value → Value → Except Unordered Bool}
    (hKnows : ∀ a b r, f a b = .ok r → g a b = .ok r)
    {xs ys : List Value}
    {r : Bool}
    (h : itemsCompared c f xs ys = .ok r) :
    itemsCompared c g xs ys = .ok r := by
  induction xs generalizing ys with
  | nil => exact h
  | cons x xs ih =>
      cases ys with
      | nil => exact h
      | cons y ys =>
          unfold itemsCompared at h ⊢
          cases hAlike : alike? x y with
          | none =>
              rw [hAlike] at h
              cases h
          | some b =>
              rw [hAlike] at h
              cases b with
              | true => exact ih h
              | false => exact hKnows x y r h

/- More steps down change no answer. -/
theorem comparedWithin_mono
    {n m : Nat}
    {a b : Value}
    {r : Bool}
    (h : comparedWithin c n a b = .ok r)
    (hMore : n ≤ m) :
    comparedWithin c m a b = .ok r := by
  induction n generalizing m a b r with
  | zero => cases h
  | succ n ih =>
      rcases Nat.exists_eq_succ_of_ne_zero
          (Nat.ne_zero_of_lt hMore) with
        ⟨m, rfl⟩
      have hLess : n ≤ m := Nat.le_of_succ_le_succ hMore
      have hKnows :
          ∀ a b r, comparedWithin c n a b = .ok r →
            comparedWithin c m a b = .ok r :=
        fun _ _ _ hAnswer => ih hAnswer hLess
      unfold comparedWithin at h ⊢
      split at h
      next hEnd =>
        rw [if_pos hEnd]
        split at h
        next xs ys hLeft hRight =>
          exact itemsCompared_mono hKnows h
        next xs ys hLeft hRight =>
          exact itemsCompared_mono hKnows h
        next => exact h
      next hEnd =>
        rw [if_neg hEnd]
        exact h

------------------------------------------------------------
-- Values that Can Be Sorted
------------------------------------------------------------

/-
  Two values can stand in one list that is sorted: they are
  alike, or it can be told whether the first comes before.
-/
def SortsWith (a b : Value) : Prop :=
  alike? a b = some true
    ∨ (alike? a b = some false
      ∧ ∃ r, compared .less a b = .ok r)

/- For values that have an end, their order has to tell. -/
theorem sortsWith_of_not_endless
    {a b : Value}
    (hLeft : a.endless = false)
    (hRight : b.endless = false)
    (h :
      same a b = true ∨ ∃ r, ordered .less a b = .ok r) :
    a.SortsWith b := by
  unfold SortsWith
  rw [alike?_of_not_endless a b hLeft hRight,
    compared_of_not_endless .less a b hLeft hRight]
  cases hSame : same a b with
  | true => exact .inl rfl
  | false =>
      rcases h with h | ⟨r, hr⟩
      · rw [hSame] at h
        cases h
      · exact .inr ⟨rfl, r, by rw [hr]; rfl⟩

/- Numbers can be sorted. -/
theorem exists_ordered_of_magnitude
    {a b : Value}
    (ha : a.magnitude?.isSome = true)
    (hb : b.magnitude?.isSome = true) :
    ∃ r, ordered .less a b = .ok r := by
  rcases Option.isSome_iff_exists.mp ha with ⟨m, hm⟩
  rcases Option.isSome_iff_exists.mp hb with ⟨n, hn⟩
  have hAtoms :
      orderedAtoms .less a b
        = .ok ((m.compare? n).any Comparison.less.accepts) := by
    unfold orderedAtoms
    rw [hm, hn]
  have hOrdered : ordered .less a b = orderedAtoms .less a b := by
    cases a with
    | list _ => cases ha
    | tuple _ => cases ha
    | _ => simp only [ordered]
  exact ⟨_, hOrdered.trans hAtoms⟩

/- So can integers. -/
theorem sortsWith_int (m n : Int) :
    (Value.int m).SortsWith (.int n) :=
  sortsWith_of_not_endless rfl rfl
    (.inr (exists_ordered_of_magnitude rfl rfl))

/- Items that have an end compare by their order. -/
private theorem exists_orderedItems
    {xs ys : List Value}
    (h : List.Forall₂ SortsWith xs ys)
    (hLeft : endlessItems xs = false)
    (hRight : endlessItems ys = false) :
    ∃ r, orderedItems .less xs ys = .ok r := by
  induction h with
  | nil => exact ⟨_, by rw [orderedItems]⟩
  | @cons x y xs ys hHead _ ih =>
      rw [endlessItems, Bool.or_eq_false_iff] at hLeft hRight
      unfold SortsWith at hHead
      rw [alike?_of_not_endless x y hLeft.1 hRight.1,
        compared_of_not_endless .less x y hLeft.1 hRight.1]
        at hHead
      rw [orderedItems]
      cases hSame : same x y with
      | true => exact ih hLeft.2 hRight.2
      | false =>
          rw [hSame] at hHead
          rcases hHead with hAlike | ⟨_, r, hr⟩
          · cases hAlike
          · rcases hOrder : ordered .less x y with reason | b
            · rw [hOrder] at hr
              cases hr
            · exact ⟨b, by simp⟩

/- An item has no more places than all items. -/
private theorem extent_le
    {x : Value}
    {xs : List Value}
    (h : x ∈ xs) : extent x ≤ extentOfItems xs := by
  induction xs with
  | nil => cases h
  | cons y xs ih =>
      rw [extentOfItems]
      rcases List.mem_cons.mp h with rfl | h
      · exact Nat.le_add_right _ _
      · exact Nat.le_trans (ih h) (Nat.le_add_left _ _)

/- So a walk through two tuples has steps for all items. -/
private theorem pairings_lt
    {x y : Value}
    {xs ys : List Value}
    (hx : x ∈ xs)
    (hy : y ∈ ys) :
    pairings x y + 1 ≤ pairings (.tuple xs) (.tuple ys) := by
  have hLeft := extent_le hx
  have hRight := extent_le hy
  have hProduct :
      extent x * extent y
        ≤ extentOfItems xs * extentOfItems ys :=
    Nat.mul_le_mul hLeft hRight
  unfold pairings
  rw [extent, extent, Nat.succ_mul, Nat.mul_succ]
  omega

/- Items can be compared where the steps are enough. -/
private theorem exists_itemsCompared
    {n : Nat}
    {xs ys : List Value}
    (h : List.Forall₂ SortsWith xs ys)
    (hSteps : ∀ x ∈ xs, ∀ y ∈ ys, pairings x y + 1 ≤ n) :
    ∃ r, itemsCompared .less (comparedWithin .less n) xs ys
      = .ok r := by
  induction h with
  | nil => exact ⟨_, rfl⟩
  | @cons x y xs ys hHead _ ih =>
      unfold itemsCompared
      rcases hHead with hAlike | ⟨hAlike, r, hr⟩
      · simp only [hAlike]
        exact
          ih fun a ha b hb =>
            hSteps a (List.mem_cons_of_mem x ha) b
              (List.mem_cons_of_mem y hb)
      · simp only [hAlike]
        have hEnough :=
          hSteps x List.mem_cons_self y List.mem_cons_self
        exact ⟨r, comparedWithin_mono hr hEnough⟩

/- Tuples can be compared if their items can be sorted. -/
theorem exists_compared_tuple
    {xs ys : List Value}
    (h : List.Forall₂ SortsWith xs ys) :
    ∃ r, compared .less (.tuple xs) (.tuple ys) = .ok r := by
  cases hEnd :
      (endless (.tuple xs) || endless (.tuple ys)) with
  | true =>
      unfold compared comparedWithin
      rw [if_pos hEnd]
      exact
        exists_itemsCompared h
          (fun _ hx _ hy => pairings_lt hx hy)
  | false =>
      rcases Bool.or_eq_false_iff.mp hEnd with ⟨hLeft, hRight⟩
      rw [compared_of_not_endless .less _ _ hLeft hRight]
      rcases exists_orderedItems h hLeft hRight with ⟨r, hr⟩
      refine ⟨r, ?_⟩
      rw [ordered, hr]
      rfl

------------------------------------------------------------
-- Sort Keys
------------------------------------------------------------

/- Rounding gives numbers, of which none is undefined. -/
theorem isUndefined_ofRatio
    (negative : Bool)
    (num den : Nat) :
    (Value.float (Binary64.ofRatio negative num den)).isUndefined
      = false := by
  unfold Binary64.ofRatio
  split
  · rfl
  · dsimp only
    split <;> split <;> rfl

/-
  The key of a value has the number of its kind in front, and
  keys of one kind go on with numbers, which are undefined if
  the value is, or with texts.
-/
theorem orderKey_cases (v : Value) :
    ∃ (k : Int) (x : Value), v.orderKey = .tuple [.int k, x]
      ∧ (((k = 0 ∨ k = 1 ∨ k = 3)
          ∧ x.magnitude?.isSome = true
          ∧ x.isUndefined = v.isUndefined)
        ∨ ((k = 2 ∨ k = 4) ∧ ∃ s, x = .str s)) := by
  cases v with
  | bool b => exact ⟨0, _, rfl, .inl ⟨.inl rfl, rfl, rfl⟩⟩
  | int n =>
      exact ⟨1, _, rfl, .inl ⟨.inr (.inl rfl), rfl, rfl⟩⟩
  | float x =>
      exact ⟨1, _, rfl, .inl ⟨.inr (.inl rfl), rfl, rfl⟩⟩
  | str s => exact ⟨2, _, rfl, .inr ⟨.inl rfl, s, rfl⟩⟩
  | instant t =>
      exact
        ⟨3, _, rfl,
          .inl
            ⟨.inr (.inr rfl), rfl, isUndefined_ofRatio _ _ _⟩⟩
  | _ => exact ⟨4, _, rfl, .inr ⟨.inr rfl, _, rfl⟩⟩

/- Two pairs are sorted by the second items if need be. -/
private theorem sortsWith_pair
    {k k' : Int}
    {x y : Value}
    (hLeft : x.endless = false)
    (hRight : y.endless = false)
    (h : k = k' → ∃ r, ordered .less x y = .ok r) :
    SortsWith (.tuple [.int k, x]) (.tuple [.int k', y]) := by
  refine
    sortsWith_of_not_endless (endless_pair k hLeft)
      (endless_pair k' hRight) ?_
  right
  rw [ordered, orderedItems]
  cases hSame : same (.int k) (.int k') with
  | true =>
      have hEq : k = k' := by simpa [same, isInt] using hSame
      rw [if_pos rfl, orderedItems]
      cases same x y with
      | true => exact ⟨_, by rw [if_pos rfl, orderedItems]⟩
      | false =>
          rw [if_neg Bool.false_ne_true]
          exact h hEq
  | false =>
      rw [if_neg Bool.false_ne_true]
      exact exists_ordered_of_magnitude rfl rfl

/- The keys of any two values can be sorted. -/
theorem sortsWith_orderKey (v w : Value) :
    v.orderKey.SortsWith w.orderKey := by
  rcases orderKey_cases v with ⟨k, x, hx, hKind⟩
  rcases orderKey_cases w with ⟨k', y, hy, hKind'⟩
  rw [hx, hy]
  rcases hKind with ⟨hNumber, hx, -⟩ | ⟨hText, s, rfl⟩ <;>
    rcases hKind' with ⟨hNumber', hy, -⟩ | ⟨hText', t, rfl⟩
  · refine
      sortsWith_pair (endless_of_magnitude hx)
        (endless_of_magnitude hy) fun _ => ?_
    exact exists_ordered_of_magnitude hx hy
  · exact
      sortsWith_pair (endless_of_magnitude hx) rfl
        (fun h => by omega)
  · exact
      sortsWith_pair rfl (endless_of_magnitude hy)
        (fun h => by omega)
  · exact sortsWith_pair rfl rfl fun _ => ⟨_, rfl⟩

end Value

------------------------------------------------------------
-- Indexes
------------------------------------------------------------

/-
  The keys of two facts can be compared, if the values can be
  sorted where the index takes them as they are.
-/
theorem FactIndex.exists_compared_keyOf
    {i : FactIndex}
    {d d' : Datom}
    (h : i = .vaet → d.value.SortsWith d'.value) :
    ∃ r,
      Value.compared .less
          (.tuple (i.keyOf d)) (.tuple (i.keyOf d'))
        = .ok r := by
  refine Value.exists_compared_tuple ?_
  unfold keyOf
  rw [List.forall₂_map_left_iff, List.forall₂_map_right_iff,
    List.forall₂_same]
  intro part _
  cases part with
  | value =>
      cases i with
      | vaet => exact h rfl
      | _ => exact Value.sortsWith_orderKey _ _
  | _ => exact Value.sortsWith_int _ _

namespace Database

variable {db : Database}

/- The references of a database can be sorted as they are. -/
def ReferencesSort (db : Database) : Prop :=
  ∀ d ∈ db.datoms, ∀ d' ∈ db.datoms,
    db.isRef d.attr = true → db.isRef d'.attr = true →
      d.value.SortsWith d'.value

/-
  All facts of an index can be sorted, if references can be in
  case the index begins with them.
-/
theorem exists_sortedFacts
    {i : FactIndex}
    (h : i = .vaet → db.ReferencesSort) :
    ∃ facts, db.sortedFacts i = .ok facts
      ∧ facts.Perm (db.indexedFacts i) := by
  have hLess :
      Compares (fun d => d ∈ db.indexedFacts i)
        (fun c d =>
          Value.compared .less
            (.tuple (i.keyOf c)) (.tuple (i.keyOf d))) := by
    intro c d hc hd
    refine FactIndex.exists_compared_keyOf ?_
    rintro rfl
    rcases List.mem_filter.mp hc with ⟨hMem, hRef⟩
    rcases List.mem_filter.mp hd with ⟨hMem', hRef'⟩
    exact h rfl c hMem d hMem' hRef hRef'
  rcases exists_sort hLess (fun _ hd => hd) with ⟨facts, hFacts⟩
  refine ⟨facts, ?_, sort_perm hFacts⟩
  unfold sortedFacts
  rw [hFacts]
  rfl

/- So all of them can be read. -/
theorem exists_scan
    {i : FactIndex}
    (h : i = .vaet → db.ReferencesSort) :
    ∃ facts, db.scan (.str i.name) [] = .ok facts := by
  rcases exists_sortedFacts h with ⟨facts, hFacts, -⟩
  refine ⟨facts, ?_⟩
  unfold scan
  rw [FactIndex.ofValue_name, ok_bind, hFacts]
  rfl

end Database

end FactBase
