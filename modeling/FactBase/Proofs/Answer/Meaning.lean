import FactBase.Proofs.Answer.Matching
import FactBase.Proofs.Answer.Predicate

/-
  This file says what a query means without a search: a way
  to meet its goals counts if the constants fit the facts,
  all occurrences of a variable have equal values, and the
  predicates hold of these.

  Key definitions include:
    * `Database.fits`
    * `Assignment.agree`
    * `Database.means`
    * `Database.meaning`

  Key theorems include:
    * `Assignment.agree_iff`
    * `Assignment.along_eq`
    * `Assignment.refines_extended`
-/

------------------------------------------------------------
-- Constants
------------------------------------------------------------

namespace FactBase

open Sorting

namespace Database

/- A value names an entity. -/
def names
    (db : Database)
    (v : Value)
    (eid : Int) : Bool :=
  match db.resolve v with
  | .ok (some n) => n == eid
  | _ => false

/- A constant for the entity of a fact names it. -/
def fitsEntity
    (db : Database)
    (token : Value)
    (eid : Int) : Bool :=
  token.constant?.all (fun v => db.names v eid)

/-
  A constant for the attribute of a fact is its ident or
  equals its id.
-/
def fitsAttr
    (db : Database)
    (token : Value)
    (attr : Int) : Bool :=
  token.constant?.all (fun v =>
    match v with
    | .str s =>
        match db.installed (.str s) with
        | .ok installed => installed.eid == attr
        | .error _ => false
    | v => Outcome.holds ((Value.int attr).equals v))

/-
  A constant for the value of a fact equals it, or names it
  where the attribute refers to entities.
-/
def fitsValue
    (db : Database)
    (refers : Bool)
    (token v : Value) : Bool :=
  token.constant?.all (fun w =>
    if refers && w.int?.isNone then
      match db.resolve w with
      | .ok (some n) => Outcome.holds (v.equals (.int n))
      | _ => false
    else Outcome.holds (v.equals w))

end Database

/-
  The attribute of a pattern is given: by a constant, or by a
  variable that has a value from the start.
-/
def Assignment.gives
    (σ₀ : Assignment)
    (token : Value) : Bool :=
  token.constant?.isSome || (token.slot?.bind σ₀.get?).isSome

/- The constants of a pattern fit a fact. -/
def Database.fits
    (db : Database)
    (σ₀ : Assignment)
    (items : List Value)
    (d : Datom) : Bool :=
  let p := Pattern.ofItems items
  db.fitsEntity p.entity d.entity
    && db.fitsAttr p.attr d.attr
    && db.fitsValue (σ₀.gives p.attr && db.isRef d.attr)
        p.value d.value

------------------------------------------------------------
-- Variables
------------------------------------------------------------

namespace Assignment

/-
  All occurrences of a variable have equal values, and these
  equal the value that it has from the start.
-/
def agree
    (σ₀ : Assignment) : List Mark → Bool
  | [] => true
  | m :: marks =>
      (σ₀.get? m.1).all (fun w => w.equal m.2.value)
        && marks.all (fun n =>
          m.1 != n.1 || m.2.value.equal n.2.value)
        && agree σ₀ marks

/- Agreement is between single occurrences. -/
theorem agree_iff
    {σ₀ : Assignment}
    {marks : List Mark} :
    σ₀.agree marks = true ↔
      (∀ m ∈ marks, ∀ w, σ₀.get? m.1 = some w →
          w.equal m.2.value = true)
        ∧ marks.Pairwise (fun m n =>
            m.1 = n.1 → m.2.value.equal n.2.value = true) := by
  induction marks with
  | nil => simp [agree]
  | cons m marks ih =>
      rw [agree, Bool.and_eq_true, Bool.and_eq_true, ih,
        List.pairwise_cons, List.forall_mem_cons,
        Option.all_eq_true, List.all_eq_true]
      have hLater :
          (∀ n ∈ marks,
            (m.1 != n.1 || m.2.value.equal n.2.value) = true) ↔
          ∀ n ∈ marks,
            m.1 = n.1 → m.2.value.equal n.2.value = true := by
        apply forall₂_congr
        intro n _
        by_cases h : m.1 = n.1 <;> simp [h]
      rw [hLater]
      tauto

end Assignment

/- What the choices for goals ask to be bound, in order. -/
def Goal.marks
    (goal : Goal)
    (choice : Option Datom) : List Mark :=
  match goal, choice with
  | .pattern items, some d => (Pattern.ofItems items).marks d
  | _, _ => []

/- What a way asks to be bound, in order. -/
def Database.marksOf
    (goals : List Goal)
    (way : List (Option Datom)) : List Mark :=
  (goals.zip way).flatMap (fun p => p.1.marks p.2)

/- The values of the variables on a way: the last one counts. -/
def Assignment.extended
    (σ₀ : Assignment)
    (marks : List Mark) : Assignment :=
  marks.reverse ++ σ₀

/- A goal is met by a choice, given the values in the end. -/
def Goal.isMet
    (db : Database)
    (σ₀ τ : Assignment)
    (goal : Goal)
    (choice : Option Datom) : Bool :=
  match goal, choice with
  | .test expr, _ => Outcome.holds (τ.satisfies expr)
  | .pattern items, some d => db.fits σ₀ items d
  | .pattern _, none => false

/- All goals are met by a way, given the values in the end. -/
def Database.meets
    (db : Database)
    (σ₀ τ : Assignment)
    (goals : List Goal)
    (way : List (Option Datom)) : Bool :=
  (goals.zip way).all (fun p => p.1.isMet db σ₀ τ p.2)

/- The first goal is met, and the others are. -/
theorem Database.meets_cons
    {db : Database}
    {σ₀ τ : Assignment}
    {goal : Goal}
    {goals : List Goal}
    {choice : Option Datom}
    {way : List (Option Datom)} :
    db.meets σ₀ τ (goal :: goals) (choice :: way) = true ↔
      goal.isMet db σ₀ τ choice = true
        ∧ db.meets σ₀ τ goals way = true := by
  unfold meets
  rw [List.zip_cons_cons, List.all_cons, Bool.and_eq_true]

/-
  A way counts: its constants fit, its predicates hold, and
  its variables agree.
-/
def Database.means
    (db : Database)
    (σ₀ : Assignment)
    (goals : List Goal)
    (way : List (Option Datom)) : Bool :=
  let marks := marksOf goals way
  db.meets σ₀ (σ₀.extended marks) goals way && σ₀.agree marks

/- The assignments of the ways that count, in order. -/
def Database.meaning
    (db : Database)
    (goals : List Goal)
    (σs : List Assignment) : List Assignment :=
  σs.flatMap (fun σ₀ =>
    ((db.ways goals).filter (db.means σ₀ goals)).map
      (fun way => σ₀.extended (marksOf goals way)))

------------------------------------------------------------
-- Values on a Way
------------------------------------------------------------

/- What is bound is proper, and the variable may have it. -/
def Mark.Sound
    (may : String → Value → Prop)
    (m : Mark) : Prop :=
  m.2.value.proper = true ∧ may m.1 m.2.value

namespace Assignment

variable {σ₀ : Assignment}
variable {marks : List Mark}
variable {may : String → Value → Prop}

/- One more mark is one more binding. -/
theorem extended_append
    (σ₀ : Assignment)
    (marks : List Mark)
    (m : Mark) :
    σ₀.extended (marks ++ [m]) =
      (σ₀.extended marks).set m.1 m.2 := by
  simp [extended, set]

/-
  A variable has the value from the start, or that of the
  last mark for it.
-/
theorem held?_extended_cases
    (σ₀ : Assignment)
    (marks : List Mark)
    (x : String) :
    ((∀ m ∈ marks, m.1 ≠ x)
        ∧ (σ₀.extended marks).held? x = σ₀.held? x)
      ∨ ∃ before h after, marks = before ++ (x, h) :: after
          ∧ (∀ m ∈ after, m.1 ≠ x)
          ∧ (σ₀.extended marks).held? x = some h := by
  induction marks using List.reverseRecOn with
  | nil => exact .inl ⟨by simp, rfl⟩
  | append_singleton marks m ih =>
      rcases m with ⟨y, h⟩
      rw [extended_append]
      by_cases hName : y = x
      · subst hName
        refine .inr ⟨marks, h, [], rfl, by simp, ?_⟩
        simp [held?, set]
      · have hOther :
            ((σ₀.extended marks).set y h).held? x =
              (σ₀.extended marks).held? x := by
          simp [held?, set, List.lookup_cons,
            beq_false_of_ne (Ne.symm hName)]
        rw [hOther]
        rcases ih with
          ⟨hNone, hHeld⟩ | ⟨before, k, after, hEq, hNone, hHeld⟩
        · left
          refine ⟨?_, hHeld⟩
          intro m hm
          rcases List.mem_append.mp hm with hm | hm
          · exact hNone m hm
          · rw [List.mem_singleton.mp hm]
            exact hName
        · right
          refine ⟨before, k, after ++ [(y, h)], ?_, ?_, hHeld⟩
          · rw [hEq]
            simp
          · intro m hm
            rcases List.mem_append.mp hm with hm | hm
            · exact hNone m hm
            · rw [List.mem_singleton.mp hm]
              exact hName

/- Where marks agree, some of them do. -/
theorem agree_of_sublist
    {fewer : List Mark}
    (hSub : fewer.Sublist marks)
    (h : σ₀.agree marks = true) : σ₀.agree fewer = true := by
  rw [agree_iff] at h ⊢
  refine ⟨?_, h.2.sublist hSub⟩
  intro m hm
  exact h.1 m (hSub.subset hm)

/- What a variable has equals all earlier values of it. -/
theorem agree_append_singleton
    (hAgree : σ₀.agree marks = true)
    (m : Mark) :
    σ₀.agree (marks ++ [m]) = true ↔
      ∀ w, (σ₀.extended marks).get? m.1 = some w →
        w.equal m.2.value = true := by
  rw [agree_iff] at hAgree ⊢
  rcases hAgree with ⟨hStart, hPairs⟩
  rw [List.pairwise_append]
  simp only [List.mem_append, List.mem_singleton,
    List.pairwise_singleton, forall_eq, true_and]
  constructor
  · rintro ⟨hAll, _, hLast⟩ w hValue
    rw [get?] at hValue
    rcases held?_extended_cases σ₀ marks m.1 with
      ⟨_, hHeld⟩ | ⟨before, h, after, hEq, _, hHeld⟩
    · rw [hHeld] at hValue
      exact hAll m (.inr rfl) w hValue
    · rw [hHeld] at hValue
      rw [← Option.some.inj hValue]
      exact hLast (m.1, h) (by simp [hEq]) rfl
  · intro hNow
    have hHeldNow :
        ∀ h, (σ₀.extended marks).held? m.1 = some h →
          h.value.equal m.2.value = true := by
      intro h hHeld
      apply hNow
      rw [get?, hHeld]
      rfl
    rcases held?_extended_cases σ₀ marks m.1 with
      ⟨hNone, hHeld⟩ | ⟨before, h, after, hEq, hNone, hHeld⟩
    · refine ⟨?_, hPairs, ?_⟩
      · rintro n (hn | rfl)
        · exact hStart n hn
        · intro w hValue
          rw [get?] at hValue hNow
          exact hNow w (by rw [hHeld, hValue])
      · intro n hn hName
        exact absurd hName (hNone n hn)
    · have hEqual := hHeldNow h hHeld
      rw [hEq, List.pairwise_append] at hPairs
      rcases hPairs with ⟨hBefore, hAfter, hAcross⟩
      refine ⟨?_, ?_, ?_⟩
      · rintro n (hn | rfl)
        · exact hStart n hn
        · intro w hValue
          have hFirst :=
            hStart (n.1, h) (by simp [hEq]) w hValue
          exact Value.equal_trans hFirst hEqual
      · rw [hEq, List.pairwise_append]
        exact ⟨hBefore, hAfter, hAcross⟩
      · intro n hn hName
        rw [hEq] at hn
        rcases List.mem_append.mp hn with hn | hn
        · have hFirst :=
            hAcross n hn (m.1, h) List.mem_cons_self hName
          exact Value.equal_trans hFirst hEqual
        · rcases List.mem_cons.mp hn with rfl | hn
          · exact hEqual
          · exact absurd hName (hNone n hn)

/- What a variable has equals what it is to be bound to. -/
theorem equal_of_agree
    {new : List Mark}
    (hAgree : σ₀.agree (marks ++ new) = true)
    {m : Mark}
    (hm : m ∈ new)
    {w : Value}
    (h : (σ₀.extended marks).get? m.1 = some w) :
    w.equal m.2.value = true := by
  have hFirst :=
    agree_of_sublist (List.sublist_append_left marks new) hAgree
  have hOne : (marks ++ [m]).Sublist (marks ++ new) :=
    List.Sublist.append_left (List.singleton_sublist.mpr hm) marks
  exact
    (agree_append_singleton hFirst m).mp
      (agree_of_sublist hOne hAgree) w h

/- What a variable has is a value that it was given. -/
theorem sound_of_held?
    {σ : Assignment}
    (hSound : ∀ m ∈ σ, Mark.Sound may m)
    {x : String}
    {h : Held}
    (hHeld : σ.held? x = some h) : Mark.Sound may (x, h) := by
  unfold held? at hHeld
  rw [List.lookup_eq_some_iff] at hHeld
  rcases hHeld with ⟨before, after, hEq, _⟩
  apply hSound
  rw [hEq]
  simp

/- The same for what it has on the way. -/
theorem sound_of_get?_extended
    (hGiven : ∀ m ∈ σ₀, Mark.Sound may m)
    (hMarks : ∀ m ∈ marks, Mark.Sound may m)
    {x : String}
    {w : Value}
    (h : (σ₀.extended marks).get? x = some w) :
    w.proper = true ∧ may x w := by
  rw [get?, Option.map_eq_some_iff] at h
  rcases h with ⟨held, hHeld, rfl⟩
  have hSound : ∀ m ∈ σ₀.extended marks, Mark.Sound may m := by
    intro m hm
    rcases List.mem_append.mp hm with hm | hm
    · exact hMarks m (List.mem_reverse.mp hm)
    · exact hGiven m hm
  exact sound_of_held? hSound hHeld

/-
  Binding variables one after the other goes well just where
  all occurrences of each agree.
-/
theorem along_eq
    (hGiven : ∀ m ∈ σ₀, Mark.Sound may m)
    (hMarks : ∀ m ∈ marks, Mark.Sound may m)
    (hAgree : σ₀.agree marks = true)
    {new : List Mark}
    (hNew : ∀ m ∈ new, Mark.Sound may m) :
    (σ₀.extended marks).along new =
      if σ₀.agree (marks ++ new) then
        some (σ₀.extended (marks ++ new))
      else none := by
  induction new generalizing marks with
  | nil => simp [along, hAgree]
  | cons m new ih =>
      rw [List.forall_mem_cons] at hNew
      have hCheck :
          ((σ₀.extended marks).get? m.1).all
              (fun w => Outcome.holds (w.equals m.2.value))
            = σ₀.agree (marks ++ [m]) := by
        rw [Bool.eq_iff_iff, agree_append_singleton hAgree,
          Option.all_eq_true]
        apply forall₂_congr
        intro w hw
        have hProper :=
          (sound_of_get?_extended hGiven hMarks hw).1
        rw [Value.equals_of_proper hProper hNew.1.1,
          Outcome.holds_ok]
      have hSplit : marks ++ m :: new = marks ++ [m] ++ new := by
        simp
      have hSet := extended_append σ₀ marks m
      rcases m with ⟨x, h⟩
      rw [along, hCheck, hSplit, ← hSet]
      cases hNow : σ₀.agree (marks ++ [(x, h)]) with
      | true =>
          rw [if_pos rfl]
          refine ih ?_ hNow hNew.2
          intro n hn
          rcases List.mem_append.mp hn with hn | hn
          · exact hMarks n hn
          · rw [List.mem_singleton.mp hn]
            exact hNew.1
      | false =>
          rw [if_neg (by simp), if_neg]
          intro hLater
          have hSub :=
            List.sublist_append_left (marks ++ [(x, h)]) new
          rw [agree_of_sublist hSub hLater] at hNow
          cases hNow

/- What has a value on the way has its like in the end. -/
theorem refines_extended
    (hGiven : ∀ m ∈ σ₀, Mark.Sound may m)
    {later : List Mark}
    (hMarks : ∀ m ∈ marks ++ later, Mark.Sound may m)
    (hAgree : σ₀.agree (marks ++ later) = true) :
    (σ₀.extended marks).Refines
      (σ₀.extended (marks ++ later)) := by
  induction later using List.reverseRecOn with
  | nil =>
      intro x v hv
      rw [List.append_nil] at hMarks
      rw [List.append_nil]
      have hSound := sound_of_get?_extended hGiven hMarks hv
      exact ⟨v, hv, .refl hSound.1⟩
  | append_singleton later m ih =>
      rw [← List.append_assoc] at hMarks hAgree ⊢
      have hBefore :
          ∀ n ∈ marks ++ later, Mark.Sound may n :=
        fun n hn => hMarks n (List.mem_append_left _ hn)
      have hLast : Mark.Sound may m :=
        hMarks m (List.mem_append_right _ (by simp))
      have hStep :=
        agree_of_sublist (List.sublist_append_left _ _) hAgree
      rw [extended_append]
      intro x v hv
      rcases ih hBefore hStep x v hv with ⟨w, hw, hAlike⟩
      by_cases hName : x = m.1
      · subst hName
        refine ⟨m.2.value, get?_set_self _ _ _, ?_⟩
        have hEqual :=
          (agree_append_singleton hStep m).mp hAgree w hw
        exact
          hAlike.trans
            ⟨hAlike.right, hLast.1, Value.same_of_equal hEqual⟩
      · rw [get?_set_of_ne _ _ hName]
        exact ⟨w, hw, hAlike⟩

end Assignment

end FactBase
