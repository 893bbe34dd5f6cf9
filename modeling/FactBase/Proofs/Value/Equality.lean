import FactBase.Proofs.Number.Magnitude
import FactBase.Fault
import FactBase.Proofs.Value.Proper

/-
  This file shows that sameness is an equivalence.  It is
  reflexive and transitive whatever the values are; for it to
  be symmetric, sets and maps must not hold anything twice.

  Key definitions include:
    * `Value.place?`
    * `Value.bare`
    * `Value.definite`

  Key theorems include:
    * `Value.same_number_iff`
    * `Value.same_refl`
    * `Value.same_trans`
    * `Value.same_symm`
    * `Value.equal_comm`
    * `Value.equals_self`
    * `Value.equals_of_isUndefined`
    * `Value.equals_of_isInt`
    * `Value.equals_of_proper`
    * `Value.endless_of_same`
    * `Value.equals_definite`
-/

------------------------------------------------------------
-- Numbers
------------------------------------------------------------

namespace FactBase

namespace Value

/- The place of a number on the line. -/
def place? (v : Value) : Option (ℤ ×ₗ ℚ) :=
  v.magnitude?.bind Magnitude.place?

/- A number of a magnitude is at its place. -/
theorem hasMagnitude_iff
    {m : Magnitude}
    {v : Value} :
    v.hasMagnitude m = true ↔
      ∃ p, m.place? = some p ∧ v.place? = some p := by
  unfold hasMagnitude place?
  cases v.magnitude? with
  | none => simp
  | some n => exact Magnitude.equal_iff

/- The place of an integer. -/
theorem place?_ofInt (n : Int) :
    (Magnitude.exact (Dyadic.ofInt n)).place?
      = some (toLex (0, (n : ℚ))) := by
  simp [Magnitude.place?, Dyadic.value, Dyadic.ofInt]

/- The place of a truth value. -/
theorem place?_bool (b : Bool) :
    (Value.bool b).place?
      = some (toLex (0, ((if b then 1 else 0 : Int) : ℚ))) :=
  place?_ofInt _

/- The place of an integer as a value. -/
theorem place?_int (n : Int) :
    (Value.int n).place? = some (toLex (0, (n : ℚ))) :=
  place?_ofInt n

/- A number that equals an integer is at its place. -/
theorem isInt_iff
    {n : Int}
    {v : Value} :
    v.isInt n = true ↔
      v.place? = some (toLex (0, (n : ℚ))) := by
  cases v with
  | int k =>
      rw [place?_int]
      simp only [isInt, beq_iff_eq, Option.some.injEq,
        EmbeddingLike.apply_eq_iff_eq, Prod.mk.injEq,
        Int.cast_inj, true_and]
      exact eq_comm
  | _ =>
      unfold isInt
      rw [hasMagnitude_iff, place?_ofInt]
      simp

/-
  A number is the same as the numbers at its place; an
  undefined one, which has no place, only as itself.
-/
theorem same_number_iff
    {a b : Value}
    (h : a.magnitude?.isSome = true) :
    same a b = true ↔
      (∃ p, a.place? = some p ∧ b.place? = some p)
        ∨ (a.isUndefined = true ∧ a = b) := by
  cases a with
  | bool x =>
      rw [same, isInt_iff, place?_bool]
      simp [isUndefined]
  | int n =>
      rw [same, isInt_iff, place?_int]
      simp [isUndefined]
  | float x =>
      have hPlace :
          (Value.float x).place? = x.magnitude.place? := rfl
      rw [hPlace]
      cases b with
      | float y =>
          have hOther :
              (Value.float y).place? = y.magnitude.place? := rfl
          rw [same, Bool.or_eq_true, Magnitude.equal_iff,
            beq_iff_eq, hOther]
          cases x with
          | undefined n =>
              simp [isUndefined, Binary64.magnitude,
                Magnitude.place?]
          | finite negative m e =>
              simp only [isUndefined, Bool.false_eq_true,
                false_and, or_false, or_iff_right_iff_imp]
              rintro rfl
              exact ⟨_, rfl, rfl⟩
          | infinite negative =>
              simp only [isUndefined, Bool.false_eq_true,
                false_and, or_false, or_iff_right_iff_imp]
              rintro rfl
              cases negative <;> exact ⟨_, rfl, rfl⟩
      | _ =>
          rw [same, hasMagnitude_iff] <;> simp
  | _ => simp [magnitude?] at h

------------------------------------------------------------
-- What is the Same
------------------------------------------------------------

/- The value has no parts and is no number. -/
def bare : Value → Bool
  | .null => true
  | .str _ => true
  | .bytes _ => true
  | .instant _ => true
  | .var _ => true
  | .wildcard _ => true
  | .tempid _ _ => true
  | .enclosing _ => true
  | _ => false

/- A bare value is the same as itself only. -/
theorem same_bare_iff
    {a b : Value}
    (h : a.bare = true) :
    same a b = true ↔ a = b := by
  cases a <;> simp only [bare, Bool.false_eq_true] at h <;>
    cases b <;> simp [same]

/- Only a bare value itself is the same as it. -/
theorem same_bare_right_iff
    {a b : Value}
    (h : b.bare = true) :
    same a b = true ↔ a = b := by
  cases b <;> simp only [bare, Bool.false_eq_true] at h <;>
    cases a <;>
      simp [same, isInt, hasMagnitude, magnitude?]

/- Sequences agree item by item. -/
theorem sameItems_iff {xs ys : List Value} :
    sameItems xs ys = true ↔
      List.Forall₂ (fun x y => same x y = true) xs ys := by
  induction xs generalizing ys with
  | nil => cases ys <;> simp [sameItems]
  | cons x xs ih => cases ys <;> simp [sameItems, ih]

/- Each member is found again. -/
theorem sameMembers_iff {xs ys : List Value} :
    sameMembers xs ys = true ↔
      ∀ x ∈ xs, ∃ y ∈ ys, same x y = true := by
  induction xs with
  | nil => simp [sameMembers]
  | cons x xs ih => simp [sameMembers, ih]

/- Each entry is found again. -/
theorem sameEntries_iff {xs ys : List (Value × Value)} :
    sameEntries xs ys = true ↔
      ∀ x ∈ xs, ∃ y ∈ ys,
        same x.1 y.1 = true ∧ same x.2 y.2 = true := by
  induction xs with
  | nil => simp [sameEntries]
  | cons x xs ih =>
      rcases x with ⟨k, v⟩
      simp [sameEntries, ih]

/- A list is the same as lists of the same items. -/
theorem same_list_iff
    {xs : List Value}
    {b : Value} :
    same (.list xs) b = true ↔
      ∃ ys, b = .list ys
        ∧ List.Forall₂ (fun x y => same x y = true) xs ys := by
  cases b <;> simp [same, sameItems_iff]

/- A tuple is the same as tuples of the same items. -/
theorem same_tuple_iff
    {xs : List Value}
    {b : Value} :
    same (.tuple xs) b = true ↔
      ∃ ys, b = .tuple ys
        ∧ List.Forall₂ (fun x y => same x y = true) xs ys := by
  cases b <;> simp [same, sameItems_iff]

/- A map is the same as maps of the same entries. -/
theorem same_map_iff
    {xs : List (Value × Value)}
    {b : Value} :
    same (.map xs) b = true ↔
      ∃ ys, b = .map ys
        ∧ xs.length = ys.length
        ∧ ∀ x ∈ xs, ∃ y ∈ ys,
            same x.1 y.1 = true ∧ same x.2 y.2 = true := by
  cases b <;> simp [same, sameEntries_iff]

/- A set is the same as sets of the same members. -/
theorem same_members_iff
    {a b : Value}
    {xs : List Value}
    (h : a.members? = some xs) :
    same a b = true ↔
      ∃ ys, b.members? = some ys
        ∧ xs.length = ys.length
        ∧ ∀ x ∈ xs, ∃ y ∈ ys, same x y = true := by
  cases a <;> simp only [members?, Option.some.injEq,
    reduceCtorEq] at h <;> subst h <;> cases b <;>
      simp [same, members?, sameMembers_iff]

/- A literal is the same as literals of the same value. -/
theorem same_lit_iff {v b : Value} :
    same (.lit v) b = true ↔
      ∃ w, b = .lit w ∧ same v w = true := by
  cases b <;> simp [same]

/- A definition is the same as those with the same fields. -/
theorem same_schema_iff
    {s : Schema}
    {b : Value} :
    same (.schema s) b = true ↔
      ∃ t, b = .schema t ∧ s.ident = t.ident
        ∧ s.valueType = t.valueType
        ∧ s.cardinality = t.cardinality
        ∧ s.unique = t.unique ∧ s.doc = t.doc
        ∧ List.Forall₂ (fun x y => same x y = true)
            (parts (.schema s)) (parts (.schema t)) := by
  rcases s
  cases b with
  | schema t =>
      simp only [same, sameSchema, parts, Bool.and_eq_true,
        beq_iff_eq, List.forall₂_cons, List.Forall₂.nil,
        and_true, schema.injEq, exists_eq_left']
      tauto
  | _ => simp [same]

/- A context is the same as those of the same sections. -/
theorem same_context_iff
    {c : Context}
    {b : Value} :
    same (.context c) b = true ↔
      ∃ d, b = .context d
        ∧ List.Forall₂ (fun x y => same x y = true)
            (parts (.context c)) (parts (.context d)) := by
  rcases c
  cases b with
  | context d =>
      simp only [same, sameContext, parts, Bool.and_eq_true,
        List.forall₂_cons, List.Forall₂.nil, and_true,
        context.injEq, exists_eq_left']
      tauto
  | _ => simp [same]

/- A database is the same as those with its basis. -/
theorem same_database_iff
    {db : Database}
    {b : Value} :
    same (.database db) b = true ↔
      ∃ other, b = .database other
        ∧ db.basis = other.basis := by
  cases b <;> simp [same]

/- A list inside itself is the same as those of its origin. -/
theorem same_cyclic_iff
    {origin : Origin}
    {items : List Value}
    {b : Value} :
    same (.cyclic origin items) b = true ↔
      ∃ ys, b = .cyclic origin ys := by
  cases b with
  | cyclic other ys =>
      simp only [same, beq_iff_eq, cyclic.injEq]
      constructor
      · rintro rfl
        exact ⟨ys, rfl, rfl⟩
      · rintro ⟨_, rfl, _⟩
        rfl
  | _ => simp [same]

------------------------------------------------------------
-- Reflexivity
------------------------------------------------------------

/- Where each item is the same as itself, all are. -/
private theorem forall₂_refl
    {xs : List Value}
    (h : ∀ x ∈ xs, same x x = true) :
    List.Forall₂ (fun x y => same x y = true) xs xs :=
  List.forall₂_same.mpr h

/- Every value is the same as itself. -/
@[simp]
theorem same_refl (a : Value) : same a a = true := by
  induction a using inductionOnParts with
  | h a ih =>
      cases a with
      | list xs =>
          exact same_list_iff.mpr ⟨xs, rfl, forall₂_refl ih⟩
      | tuple xs =>
          exact same_tuple_iff.mpr ⟨xs, rfl, forall₂_refl ih⟩
      | map xs =>
          refine same_map_iff.mpr ⟨xs, rfl, rfl, ?_⟩
          simp only [parts, List.forall_mem_append,
            List.forall_mem_map] at ih
          intro x hx
          exact ⟨x, hx, ih.1 x hx, ih.2 x hx⟩
      | set xs =>
          exact
            (same_members_iff rfl).mpr
              ⟨xs, rfl, rfl, fun x hx => ⟨x, hx, ih x hx⟩⟩
      | frozenset xs =>
          exact
            (same_members_iff rfl).mpr
              ⟨xs, rfl, rfl, fun x hx => ⟨x, hx, ih x hx⟩⟩
      | lit v =>
          exact
            same_lit_iff.mpr
              ⟨v, rfl, ih v (List.mem_singleton.mpr rfl)⟩
      | schema s =>
          exact
            same_schema_iff.mpr
              ⟨s, rfl, rfl, rfl, rfl, rfl, rfl,
                forall₂_refl ih⟩
      | context c =>
          exact same_context_iff.mpr ⟨c, rfl, forall₂_refl ih⟩
      | database db =>
          exact same_database_iff.mpr ⟨db, rfl, rfl⟩
      | cyclic origin items =>
          exact same_cyclic_iff.mpr ⟨items, rfl⟩
      | float x => simp [same]
      | bool b => simp [same, isInt_iff, place?_bool]
      | int n => simp [same, isInt]
      | _ => exact (same_bare_iff rfl).mpr rfl

------------------------------------------------------------
-- Transitivity
------------------------------------------------------------

variable {a b c : Value}

/- An undefined number is nowhere on the line. -/
theorem place?_of_isUndefined
    (h : a.isUndefined = true) : a.place? = none := by
  unfold isUndefined at h
  split at h
  · rfl
  · cases h

/- What is on the line is a number. -/
theorem isSome_magnitude?_of_place?
    {p : ℤ ×ₗ ℚ}
    (h : a.place? = some p) :
    a.magnitude?.isSome = true := by
  unfold place? at h
  cases hMagnitude : a.magnitude? with
  | none => simp [hMagnitude] at h
  | some m => rfl

/- A number has an end. -/
theorem endless_of_magnitude
    (h : a.magnitude?.isSome = true) : a.endless = false := by
  cases a <;> first | rfl | cases h

/- A pair with an integer has an end if its value has one. -/
theorem endless_pair
    (k : Int)
    (h : a.endless = false) :
    endless (.tuple [.int k, a]) = false := by
  simp [endless, endlessItems, h]

/- What is the same as a number on the line is where it is. -/
theorem place?_of_same
    (h : same a b = true)
    {p : ℤ ×ₗ ℚ}
    (hPlace : a.place? = some p) : b.place? = some p := by
  have hNumber := isSome_magnitude?_of_place? hPlace
  rcases (same_number_iff hNumber).mp h with
    ⟨q, hLeft, hRight⟩ | ⟨hUndefined, rfl⟩
  · rw [hRight, ← hLeft, hPlace]
  · exact hPlace

private theorem trans_of_number
    (hNumber : a.magnitude?.isSome = true)
    (h : same a b = true)
    (h' : same b c = true) : same a c = true := by
  rcases (same_number_iff hNumber).mp h with
    ⟨p, hLeft, hRight⟩ | ⟨_, rfl⟩
  · apply (same_number_iff hNumber).mpr
    exact .inl ⟨p, hLeft, place?_of_same h' hRight⟩
  · exact h'

private theorem forall₂_trans
    {xs ys zs : List Value}
    (ih :
      ∀ x ∈ xs, ∀ {y z : Value},
        same x y = true → same y z = true → same x z = true)
    (h : List.Forall₂ (fun x y => same x y = true) xs ys)
    (h' : List.Forall₂ (fun x y => same x y = true) ys zs) :
    List.Forall₂ (fun x y => same x y = true) xs zs := by
  induction h generalizing zs with
  | nil => exact h'
  | cons hHead _ ihTail =>
      cases h' with
      | cons hHead' hTail' =>
          refine .cons ?_ (ihTail ?_ hTail')
          · exact ih _ List.mem_cons_self hHead hHead'
          · intro x hx
            exact ih x (List.mem_cons_of_mem _ hx)

private theorem trans_of_members
    {xs : List Value}
    (hMembers : a.members? = some xs)
    (ih :
      ∀ x ∈ xs, ∀ {y z : Value},
        same x y = true → same y z = true → same x z = true)
    (h : same a b = true)
    (h' : same b c = true) : same a c = true := by
  rcases (same_members_iff hMembers).mp h with
    ⟨ys, hYs, hLength, hFound⟩
  rcases (same_members_iff hYs).mp h' with
    ⟨zs, hZs, hLength', hFound'⟩
  apply (same_members_iff hMembers).mpr
  refine ⟨zs, hZs, hLength.trans hLength', ?_⟩
  intro x hx
  rcases hFound x hx with ⟨y, hy, hxy⟩
  rcases hFound' y hy with ⟨z, hz, hyz⟩
  exact ⟨z, hz, ih x hx hxy hyz⟩

/- What is the same as the same is the same. -/
theorem same_trans
    (h : same a b = true)
    (h' : same b c = true) : same a c = true := by
  induction a using inductionOnParts generalizing b c with
  | h a ih =>
      cases a with
      | list xs =>
          rcases same_list_iff.mp h with ⟨ys, rfl, hxy⟩
          rcases same_list_iff.mp h' with ⟨zs, rfl, hyz⟩
          exact
            same_list_iff.mpr ⟨zs, rfl, forall₂_trans ih hxy hyz⟩
      | tuple xs =>
          rcases same_tuple_iff.mp h with ⟨ys, rfl, hxy⟩
          rcases same_tuple_iff.mp h' with ⟨zs, rfl, hyz⟩
          exact
            same_tuple_iff.mpr ⟨zs, rfl, forall₂_trans ih hxy hyz⟩
      | map xs =>
          rcases same_map_iff.mp h with ⟨ys, rfl, hLength, hFound⟩
          rcases same_map_iff.mp h' with
            ⟨zs, rfl, hLength', hFound'⟩
          refine
            same_map_iff.mpr ⟨zs, rfl, hLength.trans hLength', ?_⟩
          simp only [parts, List.forall_mem_append,
            List.forall_mem_map] at ih
          intro x hx
          rcases hFound x hx with ⟨y, hy, hKey, hValue⟩
          rcases hFound' y hy with ⟨z, hz, hKey', hValue'⟩
          exact
            ⟨z, hz, ih.1 x hx hKey hKey',
              ih.2 x hx hValue hValue'⟩
      | set xs => exact trans_of_members rfl ih h h'
      | frozenset xs => exact trans_of_members rfl ih h h'
      | lit v =>
          rcases same_lit_iff.mp h with ⟨w, rfl, hvw⟩
          rcases same_lit_iff.mp h' with ⟨x, rfl, hwx⟩
          apply same_lit_iff.mpr
          exact
            ⟨x, rfl, ih v (List.mem_singleton.mpr rfl) hvw hwx⟩
      | schema s =>
          rcases same_schema_iff.mp h with
            ⟨t, rfl, h₁, h₂, h₃, h₄, h₅, hst⟩
          rcases same_schema_iff.mp h' with
            ⟨u, rfl, h₁', h₂', h₃', h₄', h₅', htu⟩
          apply same_schema_iff.mpr
          exact
            ⟨u, rfl, h₁.trans h₁', h₂.trans h₂', h₃.trans h₃',
              h₄.trans h₄', h₅.trans h₅',
              forall₂_trans ih hst htu⟩
      | context c =>
          rcases same_context_iff.mp h with ⟨d, rfl, hcd⟩
          rcases same_context_iff.mp h' with ⟨e, rfl, hde⟩
          exact
            same_context_iff.mpr ⟨e, rfl, forall₂_trans ih hcd hde⟩
      | database db =>
          rcases same_database_iff.mp h with ⟨other, rfl, hEq⟩
          rcases same_database_iff.mp h' with ⟨last, rfl, hEq'⟩
          exact
            same_database_iff.mpr ⟨last, rfl, hEq.trans hEq'⟩
      | cyclic origin items =>
          rcases same_cyclic_iff.mp h with ⟨ys, rfl⟩
          rcases same_cyclic_iff.mp h' with ⟨zs, rfl⟩
          exact same_cyclic_iff.mpr ⟨zs, rfl⟩
      | bool x => exact trans_of_number rfl h h'
      | int n => exact trans_of_number rfl h h'
      | float x => exact trans_of_number rfl h h'
      | _ => exact (same_bare_iff rfl).mp h ▸ h'

------------------------------------------------------------
-- Symmetry
------------------------------------------------------------

/-
  A list is not longer than one in which everything in it is
  found, no two things in one place.
-/
theorem length_le_of_found
    {α β : Type}
    {R : α → β → Prop}
    {xs : List α}
    {ys : List β}
    (hFound : ∀ x ∈ xs, ∃ y ∈ ys, R x y)
    (hApart :
      xs.Pairwise (fun x x' => ∀ y, R x y → ¬ R x' y)) :
    xs.length ≤ ys.length := by
  induction xs generalizing ys with
  | nil => exact Nat.zero_le _
  | cons x xs ih =>
      rcases hFound x List.mem_cons_self with ⟨y, hy, hxy⟩
      rcases List.append_of_mem hy with ⟨before, after, rfl⟩
      rw [List.pairwise_cons] at hApart
      -- Nothing else is found at `y`, so it can be left out.
      have hOther :
          ∀ x' ∈ xs, ∃ y' ∈ before ++ after, R x' y' := by
        intro x' hx'
        rcases hFound x' (List.mem_cons_of_mem x hx') with
          ⟨y', hy', hxy'⟩
        refine ⟨y', ?_, hxy'⟩
        simp only [List.mem_append, List.mem_cons] at hy' ⊢
        rcases hy' with hy' | rfl | hy'
        · exact .inl hy'
        · exact absurd hxy' (hApart.1 x' hx' y' hxy)
        · exact .inr hy'
      have hRest := ih hOther hApart.2
      simp only [List.length_cons, List.length_append]
        at hRest ⊢
      omega

/-
  Where the lists have the same length, everything in the
  other one was found.
-/
private theorem found_of_length
    {α β : Type}
    {R : α → β → Prop}
    {xs : List α}
    {ys : List β}
    (hLength : xs.length = ys.length)
    (hFound : ∀ x ∈ xs, ∃ y ∈ ys, R x y)
    (hApart :
      xs.Pairwise (fun x x' => ∀ y, R x y → ¬ R x' y)) :
    ∀ y ∈ ys, ∃ x ∈ xs, R x y := by
  intro y hy
  by_contra hNone
  rcases List.append_of_mem hy with ⟨before, after, rfl⟩
  have hOther :
      ∀ x ∈ xs, ∃ y' ∈ before ++ after, R x y' := by
    intro x hx
    rcases hFound x hx with ⟨y', hy', hxy'⟩
    refine ⟨y', ?_, hxy'⟩
    simp only [List.mem_append, List.mem_cons] at hy' ⊢
    rcases hy' with hy' | rfl | hy'
    · exact .inl hy'
    · exact absurd ⟨x, hx, hxy'⟩ hNone
    · exact .inr hy'
  have hLess := length_le_of_found hOther hApart
  simp only [List.length_append, List.length_cons]
    at hLess hLength
  omega

private theorem symm_of_number
    (hNumber : a.magnitude?.isSome = true)
    (h : same a b = true) : same b a = true := by
  rcases (same_number_iff hNumber).mp h with
    ⟨p, hLeft, hRight⟩ | ⟨_, rfl⟩
  · have hNumber' := isSome_magnitude?_of_place? hRight
    exact (same_number_iff hNumber').mpr (.inl ⟨p, hRight, hLeft⟩)
  · exact h

private theorem forall₂_symm
    {xs ys : List Value}
    (ih :
      ∀ x ∈ xs, ∀ {y : Value},
        same x y = true → same y x = true)
    (h : List.Forall₂ (fun x y => same x y = true) xs ys) :
    List.Forall₂ (fun x y => same x y = true) ys xs := by
  induction h with
  | nil => exact .nil
  | cons hHead _ ihTail =>
      refine .cons (ih _ List.mem_cons_self hHead) (ihTail ?_)
      intro x hx
      exact ih x (List.mem_cons_of_mem _ hx)

private theorem symm_of_members
    {xs : List Value}
    (hMembers : a.members? = some xs)
    (hApart : apart xs = true)
    (ih :
      ∀ x ∈ xs, ∀ {y : Value},
        same x y = true → same y x = true)
    (h : same a b = true) : same b a = true := by
  rcases (same_members_iff hMembers).mp h with
    ⟨ys, hYs, hLength, hFound⟩
  apply (same_members_iff hYs).mpr
  refine ⟨xs, hMembers, hLength.symm, ?_⟩
  have hOnce :
      xs.Pairwise (fun x x' =>
        ∀ y, same x y = true → ¬ same x' y = true) := by
    refine (apart_iff.mp hApart).imp_of_mem ?_
    intro x x' _ hx' hDiffer y hxy hxy'
    have hSame := same_trans hxy (ih x' hx' hxy')
    rw [hDiffer] at hSame
    cases hSame
  intro y hy
  rcases found_of_length hLength hFound hOnce y hy with
    ⟨x, hx, hxy⟩
  exact ⟨x, hx, ih x hx hxy⟩

private theorem symm_of_map
    {xs : List (Value × Value)}
    (hApart : apart (xs.map Prod.fst) = true)
    (ih :
      ∀ x ∈ (Value.map xs).parts, ∀ {y : Value},
        same x y = true → same y x = true)
    (h : same (.map xs) b = true) :
    same b (.map xs) = true := by
  simp only [parts, List.forall_mem_append,
    List.forall_mem_map] at ih
  rcases same_map_iff.mp h with ⟨ys, rfl, hLength, hFound⟩
  refine same_map_iff.mpr ⟨xs, rfl, hLength.symm, ?_⟩
  have hOnce :
      xs.Pairwise (fun x x' =>
        ∀ y : Value × Value,
          same x.1 y.1 = true ∧ same x.2 y.2 = true →
            ¬ (same x'.1 y.1 = true ∧ same x'.2 y.2 = true)) := by
    have hKeys := List.pairwise_map.mp (apart_iff.mp hApart)
    refine hKeys.imp_of_mem ?_
    intro x x' _ hx' hDiffer y hxy hxy'
    have hSame := same_trans hxy.1 (ih.1 x' hx' hxy'.1)
    rw [hDiffer] at hSame
    cases hSame
  intro y hy
  rcases found_of_length hLength hFound hOnce y hy with
    ⟨x, hx, hKey, hValue⟩
  exact ⟨x, hx, ih.1 x hx hKey, ih.2 x hx hValue⟩

/- What a proper value is the same as is the same as it. -/
theorem same_symm
    (hProper : a.proper = true)
    (h : same a b = true) : same b a = true := by
  induction a using inductionOnParts generalizing b with
  | h a ihParts =>
      rcases proper_iff.mp hProper with ⟨hTidy, hParts⟩
      have ih :
          ∀ x ∈ a.parts, ∀ {y : Value},
            same x y = true → same y x = true :=
        fun x hx {y} hxy => ihParts x hx (hParts x hx) hxy
      cases a with
      | list xs =>
          rcases same_list_iff.mp h with ⟨ys, rfl, hxy⟩
          exact same_list_iff.mpr ⟨xs, rfl, forall₂_symm ih hxy⟩
      | tuple xs =>
          rcases same_tuple_iff.mp h with ⟨ys, rfl, hxy⟩
          exact same_tuple_iff.mpr ⟨xs, rfl, forall₂_symm ih hxy⟩
      | map xs => exact symm_of_map hTidy ih h
      | set xs => exact symm_of_members rfl hTidy ih h
      | frozenset xs => exact symm_of_members rfl hTidy ih h
      | lit v =>
          rcases same_lit_iff.mp h with ⟨w, rfl, hvw⟩
          apply same_lit_iff.mpr
          exact ⟨v, rfl, ih v (List.mem_singleton.mpr rfl) hvw⟩
      | schema s =>
          rcases same_schema_iff.mp h with
            ⟨t, rfl, h₁, h₂, h₃, h₄, h₅, hst⟩
          apply same_schema_iff.mpr
          exact
            ⟨s, rfl, h₁.symm, h₂.symm, h₃.symm, h₄.symm,
              h₅.symm, forall₂_symm ih hst⟩
      | context c =>
          rcases same_context_iff.mp h with ⟨d, rfl, hcd⟩
          exact
            same_context_iff.mpr ⟨c, rfl, forall₂_symm ih hcd⟩
      | database db =>
          rcases same_database_iff.mp h with ⟨other, rfl, hEq⟩
          exact same_database_iff.mpr ⟨db, rfl, hEq.symm⟩
      | cyclic origin items => simp [tidy] at hTidy
      | enclosing origin => simp [tidy] at hTidy
      | bool x => exact symm_of_number rfl h
      | int n => exact symm_of_number rfl h
      | float x => exact symm_of_number rfl h
      | _ =>
          have hEq := (same_bare_iff rfl).mp h
          exact hEq ▸ same_refl _

/- Sameness of proper values can be read either way. -/
theorem same_comm
    (ha : a.proper = true)
    (hb : b.proper = true) : same a b = same b a := by
  rw [Bool.eq_iff_iff]
  exact ⟨same_symm ha, same_symm hb⟩

/- A value can be replaced by one that it is the same as. -/
theorem same_congr_left
    (ha : a.proper = true)
    (h : same a b = true) : same a c = same b c := by
  rw [Bool.eq_iff_iff]
  exact ⟨same_trans (same_symm ha h), same_trans h⟩

/- The same on the other side. -/
theorem same_congr_right
    (hb : b.proper = true)
    (h : same b c = true) : same a b = same a c := by
  rw [Bool.eq_iff_iff]
  exact
    ⟨fun hab => same_trans hab h,
      fun hac => same_trans hac (same_symm hb h)⟩

------------------------------------------------------------
-- Equality
------------------------------------------------------------

/- Equal values are the same. -/
theorem same_of_equal (h : equal a b = true) :
    same a b = true := by
  unfold equal at h
  exact ((Bool.and_eq_true _ _).mp h).2

/- Values that are the same are both undefined or neither is. -/
theorem isUndefined_of_same
    (h : same a b = true)
    (ha : a.isUndefined = true) : b = a := by
  have hNumber : a.magnitude?.isSome = true := by
    unfold isUndefined at ha
    split at ha
    · rfl
    · cases ha
  rcases (same_number_iff hNumber).mp h with
    ⟨p, hLeft, _⟩ | ⟨_, hEq⟩
  · rw [place?_of_isUndefined ha] at hLeft
    cases hLeft
  · exact hEq.symm

/- Proper values that are the same are alike undefined. -/
theorem isUndefined_congr
    (ha : a.proper = true)
    (h : same a b = true) :
    a.isUndefined = b.isUndefined := by
  rw [Bool.eq_iff_iff]
  constructor
  · intro hUndefined
    rw [isUndefined_of_same h hUndefined]
    exact hUndefined
  · intro hUndefined
    rw [isUndefined_of_same (same_symm ha h) hUndefined]
    exact hUndefined

/- Equality of proper values can be read either way. -/
theorem equal_comm
    (ha : a.proper = true)
    (hb : b.proper = true) : equal a b = equal b a := by
  unfold equal
  rw [same_comm ha hb]
  cases hSame : same b a with
  | false => simp
  | true => rw [isUndefined_congr hb hSame]

/- A value can be replaced by one that it is the same as. -/
theorem equal_congr_left
    (ha : a.proper = true)
    (h : same a b = true) : equal a c = equal b c := by
  unfold equal
  rw [isUndefined_congr ha h, same_congr_left ha h]

/- The same on the other side. -/
theorem equal_congr_right
    (hb : b.proper = true)
    (h : same b c = true) : equal a b = equal a c := by
  unfold equal
  rw [same_congr_right hb h]

/- What equals the same value is the same. -/
theorem equal_trans
    (h : equal a b = true)
    (h' : equal b c = true) : equal a c = true := by
  have hSame := same_trans (same_of_equal h) (same_of_equal h')
  unfold equal at h ⊢
  rw [Bool.and_eq_true] at h
  rw [h.1, hSame]
  rfl

/- What a value with an end equals is the same. -/
theorem same_of_equals
    (ha : a.endless = false)
    (h : a.equals b = .ok true) : same a b = true := by
  cases hb : b.endless with
  | false =>
      rw [equals_of_not_endless a b ha hb] at h
      exact same_of_equal (Except.ok.inj h)
  | true =>
      simp only [equals, equals?, alike?, alikeWithin, ha, hb,
        Bool.false_and, Bool.false_or, Bool.false_eq_true,
        if_false, if_true] at h
      cases hUndefined : a.isUndefined <;> simp [hUndefined] at h

/- A value equals itself unless it is an undefined number. -/
theorem equals_self (v : Value) :
    v.equals v = .ok (!v.isUndefined) := by
  unfold equals equals? alike? alikeWithin
  cases v.isUndefined <;> cases v.endless <;> simp

/- It can always be told whether a value equals a bare one. -/
theorem equals_bare
    (v : Value)
    {b : Value}
    (hBare : b.bare = true)
    (hEnd : b.endless = false) :
    v.equals b = .ok (v.same b) := by
  have hDefined : b.isUndefined = false := by
    cases b <;> first | rfl | cases hBare
  cases hSame : v.same b with
  | true =>
      rw [(same_bare_right_iff hBare).mp hSame, equals_self,
        hDefined]
      rfl
  | false =>
      cases hOther : v.endless with
      | false =>
          rw [equals_of_not_endless v b hOther hEnd, equal,
            hSame, Bool.and_false]
      | true =>
          have hUnlike : v.equals? b = some false := by
            unfold equals?
            rw [alike?_of_endless_of_not_endless v b hOther
              hEnd, ite_self]
          rw [equals, hUnlike]

/- Only undefined numbers are the same as one. -/
theorem isUndefined_of_same_undefined
    (h : same a b = true)
    (hb : b.isUndefined = true) : a.isUndefined = true := by
  cases b with
  | float y =>
      cases y with
      | undefined n =>
          cases a with
          | float x =>
              cases x <;>
                simp [same, isUndefined, Binary64.magnitude,
                  Magnitude.equal_undefined] at h ⊢
          | bool b =>
              simp [same, isInt, hasMagnitude, magnitude?,
                Binary64.magnitude,
                Magnitude.equal_undefined] at h
          | int n =>
              simp [same, isInt, hasMagnitude, magnitude?,
                Binary64.magnitude,
                Magnitude.equal_undefined] at h
          | _ => simp [same] at h
      | _ => cases hb
  | _ => cases hb

/- An undefined number equals nothing, and nothing equals it. -/
theorem equals_of_isUndefined
    (h : a.isUndefined = true ∨ b.isUndefined = true) :
    a.equals b = .ok false := by
  cases ha : a.isUndefined with
  | true => simp [equals, equals?, ha]
  | false =>
      have hb : b.isUndefined = true := by simpa [ha] using h
      have hEnd : b.endless = false := by
        unfold isUndefined at hb
        split at hb
        · rfl
        · cases hb
      have hSame : same a b = false := by
        rw [Bool.eq_false_iff]
        intro hSame
        rw [isUndefined_of_same_undefined hSame hb] at ha
        cases ha
      simp [equals, equals?, alike?, alikeWithin, ha, hEnd,
        hSame]

/- The numbers at the place of an integer are the same as it. -/
theorem same_int_right (a : Value) (n : Int) :
    same a (.int n) = a.isInt n := by
  rw [Bool.eq_iff_iff, isInt_iff]
  by_cases hNumber : a.magnitude?.isSome = true
  · rw [same_number_iff hNumber, place?_int]
    constructor
    · rintro (⟨p, hLeft, hRight⟩ | ⟨hUndefined, hEq⟩)
      · rw [hLeft, hRight]
      · rw [hEq] at hUndefined
        cases hUndefined
    · intro hPlace
      exact .inl ⟨_, hPlace, rfl⟩
  · refine iff_of_false ?_ ?_
    · cases a <;> simp_all [same, magnitude?]
    · exact
        fun hPlace => hNumber (isSome_magnitude?_of_place? hPlace)

/- A number equals one integer at most. -/
theorem eq_of_isInt
    {m n : Int}
    (hm : a.isInt m = true)
    (hn : a.isInt n = true) : m = n := by
  rw [isInt_iff] at hm hn
  rw [hm] at hn
  simpa using hn

/- It is the same numbers that equal a number. -/
theorem equals_of_isInt
    (a : Value)
    {n : Int}
    (hb : b.isInt n = true) :
    a.equals b = .ok (a.isInt n) := by
  have hNumber : b.magnitude?.isSome = true :=
    isSome_magnitude?_of_place? (isInt_iff.mp hb)
  have hSame : same a b = a.isInt n := by
    rw [← same_int_right, Bool.eq_iff_iff]
    constructor
    · intro h
      exact same_trans h ((same_int_right b n).trans hb)
    · intro h
      exact same_trans h (by rw [same]; exact hb)
  cases hUndefined : a.isUndefined with
  | true =>
      have hNot : a.isInt n = false := by
        rw [Bool.eq_false_iff, Ne, isInt_iff,
          place?_of_isUndefined hUndefined]
        simp
      rw [equals_of_isUndefined (.inl hUndefined), hNot]
  | false =>
      have hEnd : b.endless = false := by
        cases b <;> simp_all [endless, magnitude?]
      cases hLoop : a.endless with
      | true =>
          have hNot : a.isInt n = false := by
            cases a <;>
              simp_all [endless, isInt, hasMagnitude, magnitude?]
          simp [equals, equals?, alike?, alikeWithin, hUndefined,
            hLoop, hEnd, hNot]
      | false =>
          rw [equals_of_not_endless a b hLoop hEnd, equal,
            hUndefined, hSame]
          rfl

/- Integers equal themselves only. -/
theorem equals_int (n m : Int) :
    (int n).equals (int m) = .ok (n == m) := by
  have hSelf : (int m).isInt m = true := by
    simp [isInt]
  rw [equals_of_isInt _ hSelf, isInt, BEq.comm]

/- Whether proper values are equal can always be told. -/
theorem equals_of_proper
    (ha : a.proper = true)
    (hb : b.proper = true) :
    a.equals b = .ok (equal a b) :=
  equals_of_not_endless a b (not_endless_of_proper ha)
    (not_endless_of_proper hb)

------------------------------------------------------------
-- Definite Values
------------------------------------------------------------

/- Some item has no end if the items have none together. -/
theorem endlessItems_iff {items : List Value} :
    endlessItems items = true ↔
      ∃ v ∈ items, v.endless = true := by
  induction items with
  | nil => simp [endlessItems]
  | cons v vs ih => simp [endlessItems, ih]

/- The same of the values of entries. -/
private theorem endlessEntries_iff
    {entries : List (Value × Value)} :
    endlessEntries entries = true ↔
      ∃ e ∈ entries, e.2.endless = true := by
  induction entries with
  | nil => simp [endlessEntries]
  | cons e entries ih =>
      rcases e with ⟨k, v⟩
      simp [endlessEntries, ih]

private theorem endlessItems_of_forall₂
    {xs ys : List Value}
    (ih :
      ∀ x ∈ xs, ∀ {y : Value},
        same x y = true → x.endless = true →
          y.endless = true)
    (h : List.Forall₂ (fun x y => same x y = true) xs ys)
    (hEndless : endlessItems xs = true) :
    endlessItems ys = true := by
  rcases endlessItems_iff.mp hEndless with ⟨x, hx, hLoop⟩
  rcases List.mem_iff_getElem.mp hx with ⟨i, hi, rfl⟩
  have hOther : i < ys.length := h.length_eq ▸ hi
  have hSame : same xs[i] ys[i] = true :=
    h.get hi hOther
  exact
    endlessItems_iff.mpr
      ⟨ys[i], List.getElem_mem hOther, ih _ hx hSame hLoop⟩

/- What is the same as a value without end has none either. -/
theorem endless_of_same
    (h : same a b = true)
    (ha : a.endless = true) : b.endless = true := by
  induction a using inductionOnParts generalizing b with
  | h a ih =>
      cases a with
      | list xs =>
          rcases same_list_iff.mp h with ⟨ys, rfl, hxy⟩
          exact endlessItems_of_forall₂ ih hxy ha
      | tuple xs =>
          rcases same_tuple_iff.mp h with ⟨ys, rfl, hxy⟩
          exact endlessItems_of_forall₂ ih hxy ha
      | map xs =>
          rcases same_map_iff.mp h with ⟨ys, rfl, _, hFound⟩
          rcases endlessEntries_iff.mp ha with ⟨x, hx, hLoop⟩
          rcases hFound x hx with ⟨y, hy, _, hValue⟩
          have hPart : x.2 ∈ (Value.map xs).parts :=
            List.mem_append_right _ (List.mem_map_of_mem hx)
          exact
            endlessEntries_iff.mpr
              ⟨y, hy, ih x.2 hPart hValue hLoop⟩
      | cyclic origin items =>
          rcases same_cyclic_iff.mp h with ⟨ys, rfl⟩
          rfl
      | enclosing origin =>
          rw [← (same_bare_iff rfl).mp h]
          rfl
      | _ => simp [endless] at ha

/- The value is proper, and no undefined number. -/
def definite (v : Value) : Bool :=
  v.proper && !v.isUndefined

/- Whether a value equals a definite one can always be told. -/
theorem equals_definite
    (a : Value)
    (hb : b.definite = true) :
    a.equals b = .ok (same a b) := by
  simp only [definite, Bool.and_eq_true, Bool.not_eq_true']
    at hb
  have hEnd := not_endless_of_proper hb.1
  cases hUndefined : a.isUndefined with
  | true =>
      rw [equals_of_isUndefined (.inl hUndefined)]
      congr 1
      symm
      rw [Bool.eq_false_iff]
      intro hSame
      rw [isUndefined_of_same hSame hUndefined, hUndefined]
        at hb
      cases hb.2
  | false =>
      cases hLoop : a.endless with
      | true =>
          have hSame : same a b = false := by
            rw [Bool.eq_false_iff]
            intro hSame
            rw [endless_of_same hSame hLoop] at hEnd
            cases hEnd
          simp [equals, equals?, alike?, alikeWithin,
            hUndefined, hLoop, hEnd, hSame]
      | false =>
          rw [equals_of_not_endless a b hLoop hEnd, equal,
            hUndefined]
          rfl

end Value

end FactBase
