import FactBase.Proofs.Answer.ClauseOrder
import FactBase.Proofs.Answer.RuleInvocation

/-
  This file compares the rows that an equality leaves with
  those that the opposite predicate leaves.  Arguments are
  tested in a chain, each with the next.  So no assignment
  passes both, and of two arguments each passes one of them:
  the two predicates split the rows of the query without
  them.

  Key definitions include:
    * `Verdict`
    * `Verdict.ofValues`
    * `Verdict.share`
    * `Assignment.values?`
    * `Assignment.compares`
    * `Database.goOn`
    * `Database.Answers`

  Key theorems include:
    * `Verdict.comparable_of_not_endless`
    * `Assignment.satisfies_of_comparable`
    * `Assignment.satisfies_separates_eq`
    * `Database.exists_solve`
    * `Database.exists_solve_of_shares`
    * `Database.Answers.exists_judged`
    * `Call.splits_by_equality`
    * `Call.not_splits_by_equality`
-/

------------------------------------------------------------
-- Verdicts
------------------------------------------------------------

namespace FactBase

open Sorting

/-
  How a chain of values compares: each is equal to the next,
  each is distinct from the next, or some are and some not.
-/
inductive Verdict where
  | equal
  | distinct
  | mixed
deriving DecidableEq, Repr

namespace Verdict

/- Each value with the next. -/
def neighbours (vs : List Value) : List (Value × Value) :=
  vs.zip vs.tail

/- Whether each value is equal to the next can be told. -/
def comparable (vs : List Value) : Bool :=
  (neighbours vs).all (fun p => (p.1.equals? p.2).isSome)

/- All neighbours are equal, or all distinct, as is said. -/
def allAre (answer : Bool) (vs : List Value) : Bool :=
  (neighbours vs).all (fun p => p.1.equals? p.2 == some answer)

/- The verdict on a chain of values. -/
def ofValues (vs : List Value) : Verdict :=
  if allAre true vs then .equal
  else if allAre false vs then .distinct
  else .mixed

variable {vs : List Value}

/- It can be told, unless two neighbours are without end. -/
theorem comparable_of_not_endless
    (h :
      ∀ p ∈ neighbours vs,
        p.1.endless = false ∨ p.2.endless = false) :
    comparable vs = true := by
  refine List.all_eq_true.mpr fun p hp => ?_
  have hBoth : (p.1.endless && p.2.endless) = false := by
    rcases h p hp with hLeft | hRight
    · rw [hLeft, Bool.false_and]
    · rw [hRight, Bool.and_false]
  rw [Value.equals?, Value.alike?, Value.alikeWithin, hBoth]
  simp only [Bool.false_eq_true, if_false]
  split
  · rfl
  · split <;> rfl

/- Two or more values are not both equal and distinct. -/
theorem not_allAre_both
    (hMany : 2 ≤ vs.length)
    (h : allAre true vs = true) : allAre false vs = false := by
  rcases vs with - | ⟨v, - | ⟨w, rest⟩⟩
  · simp at hMany
  · simp at hMany
  · have hFirst : (v, w) ∈ neighbours (v :: w :: rest) :=
      List.mem_cons_self
    have hEqual := List.all_eq_true.mp h _ hFirst
    rw [Bool.eq_false_iff]
    intro hAll
    have hDistinct := List.all_eq_true.mp hAll _ hFirst
    rw [beq_iff_eq] at hEqual hDistinct
    rw [hEqual] at hDistinct
    cases hDistinct

/- So the verdict says of each whether all neighbours are. -/
theorem ofValues_beq
    (hMany : 2 ≤ vs.length) :
    (ofValues vs == .equal) = allAre true vs
      ∧ (ofValues vs == .distinct) = allAre false vs := by
  unfold ofValues
  cases hEqual : allAre true vs with
  | true =>
      rw [not_allAre_both hMany hEqual]
      exact ⟨rfl, rfl⟩
  | false => cases allAre false vs <;> exact ⟨rfl, rfl⟩

/- Two values that can be compared are one or the other. -/
theorem ofValues_ne_mixed
    (hTwo : vs.length = 2)
    (h : comparable vs = true) : ofValues vs ≠ .mixed := by
  rcases List.length_eq_two.mp hTwo with ⟨v, w, rfl⟩
  simp only [comparable, neighbours, List.tail_cons,
    List.zip_cons_cons, List.zip_nil_right, List.all_cons,
    List.all_nil, Bool.and_true] at h
  rcases Option.isSome_iff_exists.mp h with ⟨answer, hAnswer⟩
  cases answer <;>
    simp [ofValues, allAre, neighbours, hAnswer]

end Verdict

------------------------------------------------------------
-- Chains of Arguments
------------------------------------------------------------

namespace Predicate

open Verdict (neighbours comparable allAre)

/- A chain holds if it does between neighbours. -/
theorem holdsAlong_eq_ok
    {p : Predicate}
    {r : Value × Value → Bool}
    {vs : List Value}
    (h :
      ∀ q ∈ neighbours vs,
        p.holds (some q.1) (some q.2) = .ok (r q)) :
    p.holdsAlong (vs.map some) = .ok ((neighbours vs).all r) := by
  induction vs with
  | nil => rfl
  | cons v vs ih =>
      cases vs with
      | nil => rfl
      | cons w rest =>
          have hPairs := List.forall_mem_cons.mp h
          rw [List.map_cons, List.map_cons, holdsAlong,
            hPairs.1, ok_bind]
          cases hFirst : r (v, w) with
          | false =>
              simp [neighbours, hFirst, pure, Except.pure]
          | true => simpa [neighbours, hFirst] using ih hPairs.2

/- Where it can be told, each says what it stands for. -/
theorem holdsAlong_of_comparable
    {vs : List Value}
    (h : comparable vs = true) :
    holdsAlong .equates (vs.map some) = .ok (allAre true vs)
      ∧ holdsAlong .separates (vs.map some)
        = .ok (allAre false vs) := by
  constructor <;>
    refine holdsAlong_eq_ok fun q hq => ?_ <;>
    rcases Option.isSome_iff_exists.mp
      (List.all_eq_true.mp h q hq) with ⟨answer, hAnswer⟩ <;>
    cases answer <;>
    simp [holds, equalArguments, hAnswer, Except.map]

/- Opposites fail only where a comparison has no end. -/
theorem holdsAlong_separates_cases
    (args : List (Option Value)) :
    (∃ b, holdsAlong .separates args = .ok b)
      ∨ holdsAlong .separates args = .error .endless := by
  induction args with
  | nil => exact .inl ⟨true, rfl⟩
  | cons a args ih =>
      cases args with
      | nil => exact .inl ⟨true, rfl⟩
      | cons b rest =>
          have hFirst :
              (∃ answer, equalArguments a b = .ok answer)
                ∨ equalArguments a b = .error .endless := by
            unfold equalArguments
            split
            · split
              · exact .inl ⟨_, rfl⟩
              · exact .inr rfl
            · exact .inl ⟨_, rfl⟩
            · exact .inl ⟨_, rfl⟩
          rw [holdsAlong, holds]
          rcases hFirst with ⟨answer, hAnswer⟩ | hEndless
          · rw [hAnswer]
            cases answer with
            | false => exact ih
            | true => exact .inl ⟨false, rfl⟩
          · rw [hEndless]
            exact .inr rfl

end Predicate

namespace Assignment

open Verdict (neighbours comparable allAre)

variable {σ : Assignment}
variable {expr : Value}
variable {args vs : List Value}

/- The value of a token: of a literal, or a bound variable. -/
def value?
    (σ : Assignment)
    (token : Value) : Option Value :=
  match σ.read token with
  | .known v => some v
  | _ => none

/- The values of tokens, if each has one. -/
def values?
    (σ : Assignment)
    (args : List Value) : Option (List Value) :=
  args.mapM σ.value?

/- The tokens have values that can be compared in a chain. -/
def compares
    (σ : Assignment)
    (args : List Value) : Bool :=
  (σ.values? args).any comparable

/- A token after which others have values has one, too. -/
theorem values?_cons
    {token : Value} :
    σ.values? (token :: args) = some vs ↔
      ∃ v ws, σ.value? token = some v
        ∧ σ.values? args = some ws
        ∧ v :: ws = vs := by
  simp [values?, List.mapM_cons, Option.bind_eq_some_iff]

/- Tokens that have values are arguments, as many. -/
theorem argument_of_values?
    (h : σ.values? args = some vs) :
    args.mapM σ.argument = .ok (vs.map some)
      ∧ vs.length = args.length := by
  induction args generalizing vs with
  | nil =>
      cases h
      exact ⟨rfl, rfl⟩
  | cons token args ih =>
      rcases values?_cons.mp h with ⟨v, ws, hHead, hTail, rfl⟩
      rcases ih hTail with ⟨hArguments, hLength⟩
      have hFirst : σ.argument token = .ok (some v) := by
        unfold value? at hHead
        unfold argument
        split at hHead
        next hRead =>
          cases hHead
          rw [hRead]
        next => cases hHead
      rw [List.mapM_cons, hFirst, ok_bind, hArguments, ok_bind]
      exact ⟨rfl, congrArg (· + 1) hLength⟩

/- A predicate on two or more values is their chain. -/
theorem satisfies_of_holdsAlong
    {sign : String}
    {p : Predicate}
    (hExpr : expr.sequence? = some (.str sign :: args))
    (hSign : Predicate.ofName? sign = some p)
    (hValues : σ.values? args = some vs)
    (hMany : 2 ≤ args.length)
    {b : Bool}
    (hAlong : p.holdsAlong (vs.map some) = .ok b) :
    σ.satisfies expr = .ok b := by
  rcases argument_of_values? hValues with
    ⟨hArguments, hLength⟩
  have hEnough : ¬(vs.map some).length < 2 := by
    rw [List.length_map, hLength]
    exact Nat.not_lt.mpr hMany
  have hOp :
      (Value.str sign).str?.bind Predicate.ofName? = some p :=
    hSign
  unfold satisfies
  rw [hExpr]
  simp only [hOp, hArguments, ok_bind, if_neg hEnough, hAlong]
  rfl

/- Equality and its opposite hold as the verdict says. -/
theorem satisfies_of_comparable
    {equality inequality : Value}
    {sign : String}
    (hEquality : equality.sequence? = some (.str "=" :: args))
    (hInequality :
      inequality.sequence? = some (.str sign :: args))
    (hSign : Predicate.ofName? sign = some .separates)
    (hMany : 2 ≤ args.length)
    (hValues : σ.values? args = some vs)
    (hComparable : comparable vs = true) :
    σ.satisfies equality
        = .ok (Verdict.ofValues vs == .equal)
      ∧ σ.satisfies inequality
        = .ok (Verdict.ofValues vs == .distinct)
      ∧ (args.length = 2 → Verdict.ofValues vs ≠ .mixed) := by
  have hLength := (argument_of_values? hValues).2
  rcases Verdict.ofValues_beq (hLength.symm ▸ hMany) with
    ⟨hEqual, hDistinct⟩
  rcases Predicate.holdsAlong_of_comparable hComparable with
    ⟨hEquates, hSeparates⟩
  rw [hEqual, hDistinct]
  exact
    ⟨satisfies_of_holdsAlong hEquality rfl hValues hMany
        hEquates,
      satisfies_of_holdsAlong hInequality hSign hValues hMany
        hSeparates,
      fun hTwo =>
        Verdict.ofValues_ne_mixed (hLength.trans hTwo)
          hComparable⟩

/- Where it cannot be told of two values, both fail. -/
theorem satisfies_of_equals?_eq_none
    {sign : String}
    {p : Predicate}
    {a b v w : Value}
    (hExpr : expr.sequence? = some [.str sign, a, b])
    (hSign : Predicate.ofName? sign = some p)
    (hEqual : p = .equates ∨ p = .separates)
    (hValues : σ.values? [a, b] = some [v, w])
    (h : v.equals? w = none) :
    σ.satisfies expr = .error (.mishap .endless) := by
  have hOp :
      (Value.str sign).str?.bind Predicate.ofName? = some p :=
    hSign
  have hAlong :
      p.holdsAlong [some v, some w] = .error .endless := by
    rcases hEqual with rfl | rfl <;>
      simp [Predicate.holdsAlong, Predicate.holds,
        Predicate.equalArguments, h, Except.map, bind,
        Except.bind]
  unfold satisfies
  rw [hExpr]
  simp only [hOp, (argument_of_values? hValues).1, ok_bind,
    List.map_cons, List.map_nil, hAlong]
  rfl

/- The names of one predicate are read alike. -/
theorem satisfies_separates_eq
    {expr' : Value}
    {sign sign' : String}
    (hExpr : expr.sequence? = some (.str sign :: args))
    (hExpr' : expr'.sequence? = some (.str sign' :: args))
    (hSign : Predicate.ofName? sign = some .separates)
    (hSign' : Predicate.ofName? sign' = some .separates)
    (hMany : 2 ≤ args.length) :
    σ.satisfies expr = σ.satisfies expr' := by
  have hOp :
      (Value.str sign).str?.bind Predicate.ofName?
        = some .separates := hSign
  have hOp' :
      (Value.str sign').str?.bind Predicate.ofName?
        = some .separates := hSign'
  unfold satisfies
  rw [hExpr, hExpr']
  simp only [hOp, hOp']
  refine Outcome.bind_congr_of_ok fun values hValues => ?_
  have hEnough : ¬values.length < 2 := by
    rw [Outcome.mapM_eq_ok] at hValues
    rw [← hValues.length_eq]
    exact Nat.not_lt.mpr hMany
  rw [if_neg hEnough, if_neg hEnough]
  rcases Predicate.holdsAlong_separates_cases values with
    ⟨b, hAlong⟩ | hAlong <;> rw [hAlong]

end Assignment

------------------------------------------------------------
-- Shares of a List
------------------------------------------------------------

namespace Verdict

section Shares

variable {α β : Type}
variable {xs : List (Verdict × α)}

/- The items on which a verdict was passed, in order. -/
def share
    (v : Verdict)
    (xs : List (Verdict × α)) : List α :=
  (xs.filter (fun x => x.1 == v)).map Prod.snd

/- A verdict is passed on an item if there is one already. -/
def Inherits
    (xs : List (Verdict × α))
    (ys : List (Verdict × β)) : Prop :=
  ∀ y ∈ ys, ∃ x ∈ xs, x.1 = y.1

/- What inherits from what inherits does so, too. -/
theorem Inherits.trans
    {γ : Type}
    {ys : List (Verdict × β)}
    {zs : List (Verdict × γ)}
    (h : Inherits xs ys)
    (h' : Inherits ys zs) : Inherits xs zs := by
  intro z hz
  rcases h' z hz with ⟨y, hy, hEq⟩
  rcases h y hy with ⟨x, hx, hEq'⟩
  exact ⟨x, hx, hEq'.trans hEq⟩

/- An item is in the share of its verdict. -/
theorem share_cons
    (v : Verdict)
    (x : Verdict × α)
    (xs : List (Verdict × α)) :
    v.share (x :: xs) =
      if x.1 = v then x.2 :: v.share xs else v.share xs := by
  unfold share
  by_cases h : x.1 = v <;> simp [h]

/- Items with one verdict come before the others. -/
theorem share_map_append
    (v w : Verdict)
    (ys : List α)
    (zs : List (Verdict × α)) :
    v.share (ys.map (w, ·) ++ zs) =
      if w = v then ys ++ v.share zs else v.share zs := by
  induction ys with
  | nil => split <;> rfl
  | cons y ys ih =>
      rw [List.map_cons, List.cons_append, share_cons, ih]
      split <;> rfl

/- Items that are judged by a rule are shared out by it. -/
theorem share_map
    (v : Verdict)
    (judge : α → Verdict)
    (as : List α) :
    v.share (as.map (fun a => (judge a, a)))
      = as.filter (fun a => judge a == v) := by
  unfold share
  rw [List.filter_map, List.map_map]
  exact List.map_id _

/- No verdict is passed on nothing. -/
theorem share_eq_nil
    {v : Verdict}
    (h : ∀ x ∈ xs, x.1 ≠ v) : v.share xs = [] := by
  unfold share
  rw [List.map_eq_nil_iff, List.filter_eq_nil_iff]
  exact fun x hx => by simpa using h x hx

/-
  What becomes of items that were shared out is shared out,
  too: each share goes its own way.
-/
theorem exists_mapM
    {f : α → Outcome (List β)}
    {yss : List (List β)}
    (h : (xs.map Prod.snd).mapM f = .ok yss) :
    ∃ ys : List (Verdict × β),
      ys.map Prod.snd = yss.flatten
        ∧ Inherits xs ys
        ∧ ∀ v : Verdict,
          ∃ zss, (v.share xs).mapM f = .ok zss
            ∧ zss.flatten = v.share ys := by
  induction xs generalizing yss with
  | nil =>
      cases h
      exact ⟨[], rfl, nofun, fun _ => ⟨[], rfl, rfl⟩⟩
  | cons x xs ih =>
      rw [List.map_cons, List.mapM_cons] at h
      rcases bind_eq_ok.mp h with ⟨first, hFirst, h⟩
      rcases bind_eq_ok.mp h with ⟨rest, hRest, h⟩
      cases pure_eq_ok.mp h
      rcases ih hRest with ⟨ys, hAll, hInherits, hShares⟩
      refine ⟨first.map (x.1, ·) ++ ys, ?_, ?_, fun v => ?_⟩
      · simp [hAll, Function.comp_def]
      · intro y hy
        rcases List.mem_append.mp hy with hNew | hOld
        · rcases List.mem_map.mp hNew with ⟨_, _, rfl⟩
          exact ⟨x, List.mem_cons_self, rfl⟩
        · rcases hInherits y hOld with ⟨z, hz, hEq⟩
          exact ⟨z, List.mem_cons_of_mem x hz, hEq⟩
      · rcases hShares v with ⟨zss, hShare, hFlat⟩
        rw [share_cons, share_map_append]
        split
        · refine ⟨first :: zss, ?_, ?_⟩
          · rw [List.mapM_cons, hFirst, ok_bind, hShare]
            rfl
          · rw [List.flatten_cons, hFlat]
        · exact ⟨zss, hShare, hFlat⟩

/- If all shares can go their way, so can all items. -/
theorem exists_mapM_of_shares
    {f : α → Outcome (List β)}
    (h : ∀ v : Verdict, ∃ zss, (v.share xs).mapM f = .ok zss) :
    ∃ yss, (xs.map Prod.snd).mapM f = .ok yss := by
  rw [Outcome.exists_mapM_eq_ok_iff]
  intro a ha
  rcases List.mem_map.mp ha with ⟨x, hx, rfl⟩
  refine Outcome.exists_mapM_eq_ok_iff.mp (h x.1) x.2 ?_
  unfold share
  refine List.mem_map.mpr ⟨x, ?_, rfl⟩
  exact List.mem_filter.mpr ⟨hx, beq_self_eq_true x.1⟩

end Shares

end Verdict

------------------------------------------------------------
-- Shares of a Search
------------------------------------------------------------

namespace Database

variable {db : Database}
variable {clause : Value}
variable {clauses : List Value}
variable {σs τs : List Assignment}

/- How a goal goes on from one assignment. -/
def goOn
    (db : Database) :
    Goal → Assignment → Outcome (List Assignment)
  | .test expr, σ => do
      return if ← σ.satisfies expr then [σ] else []
  | .pattern items, σ => db.matching items σ

/- A test keeps each item or none, one by one. -/
theorem filterM_eq_ok_iff
    {α : Type}
    {p : α → Outcome Bool}
    {xs ys : List α} :
    xs.filterM p = .ok ys ↔
      ∃ yss,
        xs.mapM (fun x => do return if ← p x then [x] else [])
            = .ok yss
          ∧ yss.flatten = ys := by
  let each (x : α) : List α :=
    if Outcome.holds (p x) then [x] else []
  have hFlat :
      (xs.map each).flatten
        = xs.filter (fun x => Outcome.holds (p x)) := by
    clear ys
    induction xs with
    | nil => rfl
    | cons x xs ih =>
        rw [List.map_cons, List.flatten_cons, ih,
          List.filter_cons]
        cases h : Outcome.holds (p x) <;> simp [each, h]
  have hBoth
      (hAll : ∀ x ∈ xs, ∃ b, p x = .ok b) :
      xs.filterM p
          = .ok (xs.filter (fun x => Outcome.holds (p x)))
        ∧ xs.mapM (fun x => do return if ← p x then [x] else [])
          = .ok (xs.map each) := by
    have hEach : ∀ x ∈ xs, p x = .ok (Outcome.holds (p x)) := by
      intro x hx
      rcases hAll x hx with ⟨b, hb⟩
      rw [hb, Outcome.holds_ok]
    refine
      ⟨Outcome.filterM_eq_ok hEach,
        Outcome.mapM_eq_ok_map fun x hx => ?_⟩
    rw [hEach x hx]
    rfl
  constructor
  · intro h
    rcases Outcome.eq_filter_of_filterM h with ⟨rfl, hAll⟩
    exact ⟨_, (hBoth hAll).2, hFlat⟩
  · rintro ⟨yss, hWalk, rfl⟩
    have hAll : ∀ x ∈ xs, ∃ b, p x = .ok b := by
      intro x hx
      rcases Outcome.exists_mapM_eq_ok_iff.mp ⟨yss, hWalk⟩ x hx
        with ⟨y, hy⟩
      rcases bind_eq_ok.mp hy with ⟨b, hb, -⟩
      exact ⟨b, hb⟩
    rw [(hBoth hAll).2] at hWalk
    cases hWalk
    rw [(hBoth hAll).1, hFlat]

/- A step goes on from each assignment by itself. -/
theorem step_eq_ok_iff :
    db.step σs clause = .ok τs ↔
      ∃ goal, Goal.ofClause? clause = some goal
        ∧ ∃ τss, σs.mapM (db.goOn goal) = .ok τss
          ∧ τss.flatten = τs := by
  unfold step Goal.ofClause?
  rcases clause.sequence? with - | (- | ⟨x, xs⟩)
  · simp
  · simp
  · cases hExpr : expressionOf? (x :: xs) with
    | some expr =>
        simp only [hExpr, Option.some.injEq, exists_eq_left']
        exact filterM_eq_ok_iff
    | none =>
        by_cases hLong : (x :: xs).length > 3
        · simp only [hExpr, if_pos hLong]
          simp
        · simp only [hExpr, if_neg hLong, Option.some.injEq,
            exists_eq_left', bind_eq_ok, pure_eq_ok]
          rfl

/- Clauses are solved if the first can be, then the others. -/
theorem solve_cons_eq_ok_iff :
    db.solve (clause :: clauses) σs = .ok τs ↔
      ∃ goal, Goal.ofClause? clause = some goal
        ∧ ∃ υss, σs.mapM (db.goOn goal) = .ok υss
          ∧ db.solve clauses υss.flatten = .ok τs := by
  rw [solve, List.foldlM_cons, bind_eq_ok]
  constructor
  · rintro ⟨υs, hStep, hRest⟩
    rcases step_eq_ok_iff.mp hStep with
      ⟨goal, hGoal, υss, hWalk, rfl⟩
    exact ⟨goal, hGoal, υss, hWalk, hRest⟩
  · rintro ⟨goal, hGoal, υss, hWalk, hRest⟩
    exact
      ⟨υss.flatten,
        step_eq_ok_iff.mpr ⟨goal, hGoal, υss, hWalk, rfl⟩,
        hRest⟩

/- A test that can be told everywhere lets some through. -/
theorem solve_test
    {expr : Value}
    {q : Assignment → Bool}
    (hClause : clause.sequence? = some [expr])
    (hExpr : expr.sequence?.isSome = true)
    (h : ∀ σ ∈ σs, σ.satisfies expr = .ok (q σ)) :
    db.solve (clause :: clauses) σs
      = db.solve clauses (σs.filter q) := by
  have hStep : db.step σs clause = .ok (σs.filter q) := by
    unfold step
    rw [hClause]
    simp only [expressionOf?, hExpr, if_true]
    exact Outcome.filterM_eq_ok h
  rw [solve, List.foldlM_cons, hStep]
  rfl

/- Assignments that were shared out go on in their shares. -/
theorem exists_solve
    {xs : List (Verdict × Assignment)}
    (h : db.solve clauses (xs.map Prod.snd) = .ok τs) :
    ∃ ys : List (Verdict × Assignment),
      ys.map Prod.snd = τs
        ∧ Verdict.Inherits xs ys
        ∧ ∀ v : Verdict,
          db.solve clauses (v.share xs) = .ok (v.share ys) := by
  induction clauses generalizing xs with
  | nil =>
      cases h
      exact ⟨xs, rfl, fun x hx => ⟨x, hx, rfl⟩, fun _ => rfl⟩
  | cons clause clauses ih =>
      rcases solve_cons_eq_ok_iff.mp h with
        ⟨goal, hGoal, υss, hWalk, hRest⟩
      rcases Verdict.exists_mapM hWalk with
        ⟨zs, hAll, hInherits, hShares⟩
      rw [← hAll] at hRest
      rcases ih hRest with ⟨ys, hEnd, hInherits', hSolve⟩
      refine
        ⟨ys, hEnd, hInherits.trans hInherits', fun v => ?_⟩
      rcases hShares v with ⟨wss, hShare, hFlat⟩
      exact
        solve_cons_eq_ok_iff.mpr
          ⟨goal, hGoal, wss, hShare, hFlat ▸ hSolve v⟩

/- If all shares can be solved, so can the whole. -/
theorem exists_solve_of_shares
    {xs : List (Verdict × Assignment)}
    (h :
      ∀ v : Verdict,
        ∃ υs, db.solve clauses (v.share xs) = .ok υs) :
    ∃ τs, db.solve clauses (xs.map Prod.snd) = .ok τs := by
  induction clauses generalizing xs with
  | nil => exact ⟨_, rfl⟩
  | cons clause clauses ih =>
      -- The clause asks each share for the same.
      rcases h .equal with ⟨_, hEqual⟩
      rcases solve_cons_eq_ok_iff.mp hEqual with
        ⟨goal, hGoal, -⟩
      have hWalks (v : Verdict) :
          ∃ υss, (v.share xs).mapM (db.goOn goal) = .ok υss
            ∧ ∃ τs, db.solve clauses υss.flatten = .ok τs := by
        rcases h v with ⟨τs, hv⟩
        rcases solve_cons_eq_ok_iff.mp hv with
          ⟨other, hOther, υss, hWalk, hRest⟩
        cases hGoal.symm.trans hOther
        exact ⟨υss, hWalk, τs, hRest⟩
      rcases Verdict.exists_mapM_of_shares
          (fun v => (hWalks v).imp fun _ hv => hv.1) with
        ⟨yss, hWalk⟩
      rcases Verdict.exists_mapM hWalk with
        ⟨zs, hAll, -, hShares⟩
      have hNext (v : Verdict) :
          ∃ τs, db.solve clauses (v.share zs) = .ok τs := by
        rcases hWalks v with ⟨υss, hOwn, hRest⟩
        rcases hShares v with ⟨zss, hShare, hFlat⟩
        cases hOwn.symm.trans hShare
        exact hFlat ▸ hRest
      rcases ih hNext with ⟨τs, hRest⟩
      exact
        ⟨τs, solve_cons_eq_ok_iff.mpr
          ⟨goal, hGoal, yss, hWalk, hAll ▸ hRest⟩⟩

/- What can be solved can also be from no assignment. -/
theorem solve_nil_of_ok
    (h : db.solve clauses σs = .ok τs) :
    db.solve clauses [] = .ok [] := by
  induction clauses generalizing σs with
  | nil => rfl
  | cons clause clauses ih =>
      rcases solve_cons_eq_ok_iff.mp h with
        ⟨goal, hGoal, υss, -, hRest⟩
      exact
        solve_cons_eq_ok_iff.mpr
          ⟨goal, hGoal, [], rfl, ih hRest⟩

end Database

------------------------------------------------------------
-- Shares of Rows
------------------------------------------------------------

namespace Verdict

variable {α β : Type}
variable {R : α → β → Prop}
variable {xs : List (Verdict × α)}

/- What is related to items can be shared out like these. -/
theorem exists_forall₂
    {ys : List β}
    (h : List.Forall₂ R (xs.map Prod.snd) ys) :
    ∃ zs : List (Verdict × β),
      zs.map Prod.snd = ys
        ∧ Inherits xs zs
        ∧ ∀ v : Verdict,
          List.Forall₂ R (v.share xs) (v.share zs) := by
  induction xs generalizing ys with
  | nil =>
      cases h
      exact ⟨[], rfl, nofun, fun _ => .nil⟩
  | cons x xs ih =>
      rw [List.map_cons, List.forall₂_cons_left_iff] at h
      rcases h with ⟨y, ys, hFirst, hRest, rfl⟩
      rcases ih hRest with ⟨zs, rfl, hInherits, hShares⟩
      refine ⟨(x.1, y) :: zs, rfl, ?_, fun v => ?_⟩
      · refine List.forall_mem_cons.mpr ⟨?_, fun z hz => ?_⟩
        · exact ⟨x, List.mem_cons_self, rfl⟩
        · rcases hInherits z hz with ⟨w, hw, hEq⟩
          exact ⟨w, List.mem_cons_of_mem x hw, hEq⟩
      · rw [share_cons, share_cons]
        split
        · exact .cons hFirst (hShares v)
        · exact hShares v

/- If each share has something related, so have all items. -/
theorem exists_forall₂_of_shares
    (h : ∀ v : Verdict, ∃ ys, List.Forall₂ R (v.share xs) ys) :
    ∃ ys, List.Forall₂ R (xs.map Prod.snd) ys := by
  induction xs with
  | nil => exact ⟨[], .nil⟩
  | cons x xs ih =>
      have hRest (v : Verdict) :
          ∃ ys, List.Forall₂ R (v.share xs) ys := by
        rcases h v with ⟨ys, hv⟩
        rw [share_cons] at hv
        split at hv
        · rcases List.forall₂_cons_left_iff.mp hv with
            ⟨_, zs, -, hTail, -⟩
          exact ⟨zs, hTail⟩
        · exact ⟨ys, hv⟩
      rcases h x.1 with ⟨ys, hOwn⟩
      rw [share_cons, if_pos rfl] at hOwn
      rcases List.forall₂_cons_left_iff.mp hOwn with
        ⟨y, _, hFirst, -, -⟩
      rcases ih hRest with ⟨zs, hTail⟩
      exact ⟨y :: zs, .cons hFirst hTail⟩

end Verdict

/- A solution has the rows that its assignments give. -/
theorem Solution.rows_eq_ok_iff
    {db : Database}
    {find : List Value}
    {σs : List Assignment}
    {rows : List (List Value)} :
    (Solution.rows find
        { db := db, assignments := σs }).run.run []
        = (.ok rows, [])
      ↔ List.Forall₂ (GivesRow db find) σs rows := by
  refine ⟨givesRow_of_rows, fun h => ?_⟩
  have hLooked (shown : List Shown) :
      (shown.mapM Gathering.look).run.run []
        = (.ok (shown.map (Shown.value [])), []) := by
    refine Gathering.run_mapM ?_
    rw [List.forall₂_map_right_iff, List.forall₂_same]
    exact fun _ _ => rfl
  have hShown :
      ∃ shown,
        (db.rows find σs).run.run [] = (.ok shown, [])
          ∧ shown.map (List.map (Shown.value [])) = rows := by
    induction h with
    | nil => exact ⟨[], rfl, rfl⟩
    | cons hFirst _ ih =>
        rcases hFirst with ⟨row, hRow, rfl⟩
        rcases ih with ⟨shown, hRest, rfl⟩
        refine ⟨row :: shown, ?_, rfl⟩
        rw [Database.rows, List.mapM_cons, Gathering.run_bind,
          hRow]
        change
          (db.rows find _ >>= fun rest =>
            pure (row :: rest)).run.run [] = _
        rw [Gathering.run_bind, hRest]
        rfl
  rcases hShown with ⟨shown, hRows, rfl⟩
  rw [Solution.rows, Gathering.run_bind, hRows]
  refine Gathering.run_mapM ?_
  rw [List.forall₂_map_right_iff, List.forall₂_same]
  exact fun row _ => hLooked row

namespace Database

variable {db : Database}
variable {find clauses : List Value}
variable {σs : List Assignment}
variable {rows : List (List Value)}
variable {xs : List (Verdict × Assignment)}

/- The rows that clauses leave of assignments. -/
def Answers
    (db : Database)
    (find clauses : List Value)
    (σs : List Assignment)
    (rows : List (List Value)) : Prop :=
  ∃ τs, db.solve clauses σs = .ok τs
    ∧ List.Forall₂ (Solution.GivesRow db find) τs rows

/- Rows are shared out like what they come from. -/
theorem Answers.exists_judged
    (h : db.Answers find clauses (xs.map Prod.snd) rows) :
    ∃ judged : List (Verdict × List Value),
      judged.map Prod.snd = rows
        ∧ Verdict.Inherits xs judged
        ∧ ∀ v : Verdict,
          db.Answers find clauses (v.share xs)
            (v.share judged) := by
  rcases h with ⟨τs, hSolve, hEach⟩
  rcases exists_solve hSolve with
    ⟨ys, rfl, hInherits, hShares⟩
  rcases Verdict.exists_forall₂ hEach with
    ⟨judged, hJudged, hInherits', hRows⟩
  exact
    ⟨judged, hJudged, hInherits.trans hInherits',
      fun v => ⟨v.share ys, hShares v, hRows v⟩⟩

/- If all shares have rows, so has the whole. -/
theorem exists_answers_of_shares
    (h :
      ∀ v : Verdict,
        ∃ rows, db.Answers find clauses (v.share xs) rows) :
    ∃ rows, db.Answers find clauses (xs.map Prod.snd) rows := by
  rcases exists_solve_of_shares (fun v =>
      (h v).elim fun _ hv => hv.imp fun _ hs => hs.1) with
    ⟨τs, hSolve⟩
  rcases exists_solve hSolve with ⟨ys, rfl, -, hShares⟩
  have hRows (v : Verdict) :
      ∃ rows,
        List.Forall₂ (Solution.GivesRow db find)
          (v.share ys) rows := by
    rcases h v with ⟨rows, υs, hShare, hEach⟩
    cases hShare.symm.trans (hShares v)
    exact ⟨rows, hEach⟩
  rcases Verdict.exists_forall₂_of_shares hRows with
    ⟨rows, hEach⟩
  exact ⟨rows, _, hSolve, hEach⟩

/- Clauses that leave rows leave none of nothing. -/
theorem Answers.of_nil
    (h : db.Answers find clauses σs rows) :
    db.Answers find clauses [] [] := by
  rcases h with ⟨τs, hSolve, -⟩
  exact ⟨[], solve_nil_of_ok hSolve, .nil⟩

/-
  An equality and its opposite go on from the shares of those
  verdicts.
-/
theorem exists_judged
    (db : Database)
    {args : List Value}
    {equality inequality same apart : Value}
    {sign : String}
    (hEquality : equality.sequence? = some (.str "=" :: args))
    (hInequality :
      inequality.sequence? = some (.str sign :: args))
    (hSign : Predicate.ofName? sign = some .separates)
    (hMany : 2 ≤ args.length)
    (hSame : same.sequence? = some [equality])
    (hApart : apart.sequence? = some [inequality])
    (hCompares : ∀ σ ∈ σs, σ.compares args = true) :
    ∃ xs : List (Verdict × Assignment),
      xs.map Prod.snd = σs
        ∧ (∀ find clauses rows,
          db.Answers find (same :: clauses) σs rows ↔
            db.Answers find clauses (Verdict.equal.share xs) rows)
        ∧ (∀ find clauses rows,
          db.Answers find (apart :: clauses) σs rows ↔
            db.Answers find clauses (Verdict.distinct.share xs)
              rows)
        ∧ (args.length = 2 → ∀ x ∈ xs, x.1 ≠ .mixed) := by
  let judge (σ : Assignment) : Verdict :=
    Verdict.ofValues ((σ.values? args).getD [])
  have hJudge (σ : Assignment) (hσ : σ ∈ σs) :
      σ.satisfies equality = .ok (judge σ == .equal)
        ∧ σ.satisfies inequality = .ok (judge σ == .distinct)
        ∧ (args.length = 2 → judge σ ≠ .mixed) := by
    have hAny := hCompares σ hσ
    rw [Assignment.compares, Option.any_eq_true] at hAny
    rcases hAny with ⟨vs, hValues, hComparable⟩
    have hOfValues : judge σ = Verdict.ofValues vs := by
      dsimp only [judge]
      rw [hValues, Option.getD_some]
    rw [hOfValues]
    exact
      Assignment.satisfies_of_comparable hEquality hInequality
        hSign hMany hValues hComparable
  refine
    ⟨σs.map (fun σ => (judge σ, σ)), ?_,
      fun find clauses rows => ?_, fun find clauses rows => ?_,
      fun hTwo x hx => ?_⟩
  · rw [List.map_map]
    exact List.map_id σs
  · rw [Verdict.share_map, Answers, Answers,
      solve_test hSame (by rw [hEquality]; rfl)
        (fun σ hσ => (hJudge σ hσ).1)]
  · rw [Verdict.share_map, Answers, Answers,
      solve_test hApart (by rw [hInequality]; rfl)
        (fun σ hσ => (hJudge σ hσ).2.1)]
  · rcases List.mem_map.mp hx with ⟨σ, hσ, rfl⟩
    exact (hJudge σ hσ).2.2 hTwo

end Database

namespace Call

variable {c : Call}

/- The same call with other clauses. -/
def withClauses
    (c : Call)
    (clauses : List Value) : Call :=
  { c with clauses := clauses }

/- The clauses of a call are solved one part after another. -/
theorem solution_append_eq_ok
    {before after : List Value}
    {s : Solution} :
    (c.withClauses (before ++ after)).solution = .ok s ↔
      ∃ σs,
        (c.withClauses before).solution
            = .ok { db := s.db, assignments := σs }
          ∧ s.db.solve after σs = .ok s.assignments := by
  simp only [solution_eq_ok, withClauses, Database.solve_append,
    bind_eq_ok]
  constructor
  · rintro ⟨inputs, hInputs, hSource, σs, hBefore, hAfter⟩
    exact ⟨σs, ⟨inputs, hInputs, hSource, hBefore⟩, hAfter⟩
  · rintro ⟨σs, ⟨inputs, hInputs, hSource, hBefore⟩, hAfter⟩
    exact ⟨inputs, hInputs, hSource, σs, hBefore, hAfter⟩

/- A call has the rows that its last clauses leave. -/
theorem evaluate_append_eq_ok
    {before after : List Value}
    {rows : List (List Value)} :
    (c.withClauses (before ++ after)).evaluate.run.run []
        = (.ok rows, [])
      ↔ ∃ s, (c.withClauses before).solution = .ok s
          ∧ s.db.Answers c.find after s.assignments rows := by
  have hRows :
      (c.withClauses (before ++ after)).evaluate.run.run []
          = (.ok rows, [])
        ↔ ∃ s,
          (c.withClauses (before ++ after)).solution = .ok s
            ∧ List.Forall₂ (Solution.GivesRow s.db c.find)
              s.assignments rows := by
    rw [run_evaluate]
    cases (c.withClauses (before ++ after)).solution with
    | error fault =>
        refine iff_of_false ?_ nofun
        exact fun h => nomatch congrArg Prod.fst h
    | ok s =>
        simp only [Except.ok.injEq, exists_eq_left']
        exact Solution.rows_eq_ok_iff
  rw [hRows]
  constructor
  · rintro ⟨s, hSolution, hEach⟩
    rcases solution_append_eq_ok.mp hSolution with
      ⟨σs, hBefore, hAfter⟩
    exact ⟨_, hBefore, s.assignments, hAfter, hEach⟩
  · rintro ⟨s, hBefore, τs, hAfter, hEach⟩
    exact
      ⟨{ db := s.db, assignments := τs },
        solution_append_eq_ok.mpr
          ⟨s.assignments, hBefore, hAfter⟩,
        hEach⟩

/-
  Equality and its opposite, on the same two or more arguments
  in place of a clause of any call.  Where all arguments have
  values that can be compared, each row of the call without
  them has a verdict: rows of equal arguments are those of the
  call with the equality, rows of distinct arguments those of
  the call with its opposite, in order.  Of two arguments the
  verdict is always one of these.
-/
theorem splits_by_equality
    {args : List Value}
    {equality inequality same apart : Value}
    {sign : String}
    (hEquality : equality.sequence? = some (.str "=" :: args))
    (hInequality :
      inequality.sequence? = some (.str sign :: args))
    (hSign : sign ∈ ["!=", "not="])
    (hMany : 2 ≤ args.length)
    (hSame : same.sequence? = some [equality])
    (hApart : apart.sequence? = some [inequality])
    (c : Call)
    (before after : List Value)
    (hCompares :
      ∀ s, (c.withClauses before).solution = .ok s →
        ∀ σ ∈ s.assignments, σ.compares args = true) :
    (∀ (σ : Assignment) (vs : List Value),
        σ.values? args = some vs →
        Verdict.comparable vs = true →
          σ.satisfies equality
              = .ok (Verdict.ofValues vs == .equal)
            ∧ σ.satisfies inequality
              = .ok (Verdict.ofValues vs == .distinct)
            ∧ (args.length = 2 →
              Verdict.ofValues vs ≠ .mixed))
      ∧ (∀ (other : Value) (σ : Assignment),
        other.sequence? = some (.str "not=" :: args) →
          σ.satisfies inequality = σ.satisfies other)
      ∧ (∀ rows,
        (c.withClauses (before ++ after)).evaluate.run.run []
            = (.ok rows, []) →
          ∃ judged : List (Verdict × List Value),
            judged.map Prod.snd = rows
              ∧ (c.withClauses
                  (before ++ same :: after)).evaluate.run.run []
                = (.ok (Verdict.equal.share judged), [])
              ∧ (c.withClauses
                  (before ++ apart :: after)).evaluate.run.run []
                = (.ok (Verdict.distinct.share judged), [])
              ∧ (args.length = 2 →
                ∀ row ∈ judged, row.1 ≠ .mixed))
      ∧ (args.length = 2 →
        ∀ rows rows',
          (c.withClauses
              (before ++ same :: after)).evaluate.run.run []
            = (.ok rows, []) →
          (c.withClauses
              (before ++ apart :: after)).evaluate.run.run []
            = (.ok rows', []) →
            ∃ all,
              (c.withClauses
                  (before ++ after)).evaluate.run.run []
                = (.ok all, [])) := by
  have hOpposite : Predicate.ofName? sign = some .separates := by
    rcases List.mem_pair.mp hSign with rfl | rfl <;> rfl
  refine ⟨fun σ vs hValues hComparable => ?_,
    fun other σ hOther => ?_, fun rows hRows => ?_,
    fun hTwo rows rows' hRows hRows' => ?_⟩
  · exact
      Assignment.satisfies_of_comparable hEquality hInequality
        hOpposite hMany hValues hComparable
  · exact
      Assignment.satisfies_separates_eq hInequality hOther
        hOpposite rfl hMany
  · rcases evaluate_append_eq_ok.mp hRows with
      ⟨s, hBefore, hAnswers⟩
    rcases s.db.exists_judged hEquality hInequality hOpposite
        hMany hSame hApart (hCompares s hBefore) with
      ⟨xs, hAll, hEqual, hDistinct, hMixed⟩
    rcases (hAll ▸ hAnswers).exists_judged with
      ⟨judged, hJudged, hInherits, hShares⟩
    refine ⟨judged, hJudged, ?_, ?_, fun hTwo row hRow => ?_⟩
    · exact
        evaluate_append_eq_ok.mpr
          ⟨s, hBefore, (hEqual _ _ _).mpr (hShares .equal)⟩
    · exact
        evaluate_append_eq_ok.mpr
          ⟨s, hBefore,
            (hDistinct _ _ _).mpr (hShares .distinct)⟩
    · rcases hInherits row hRow with ⟨x, hx, hEq⟩
      exact hEq ▸ hMixed hTwo x hx
  · rcases evaluate_append_eq_ok.mp hRows with
      ⟨s, hBefore, hAnswers⟩
    rcases evaluate_append_eq_ok.mp hRows' with
      ⟨_, hBefore', hAnswers'⟩
    cases hBefore.symm.trans hBefore'
    rcases s.db.exists_judged hEquality hInequality hOpposite
        hMany hSame hApart (hCompares s hBefore) with
      ⟨xs, hAll, hEqual, hDistinct, hMixed⟩
    have hOwn := (hEqual _ _ _).mp hAnswers
    have hOther := (hDistinct _ _ _).mp hAnswers'
    have hNone : Verdict.mixed.share xs = [] :=
      Verdict.share_eq_nil (hMixed hTwo)
    have hEach :
        ∀ v : Verdict, ∃ rows,
          s.db.Answers c.find after (v.share xs) rows := by
      intro v
      cases v with
      | equal => exact ⟨rows, hOwn⟩
      | distinct => exact ⟨rows', hOther⟩
      | mixed => exact ⟨[], hNone ▸ hOwn.of_nil⟩
    rcases Database.exists_answers_of_shares hEach with
      ⟨all, hAnswersAll⟩
    exact
      ⟨all, evaluate_append_eq_ok.mpr
        ⟨s, hBefore, hAll ▸ hAnswersAll⟩⟩

/- The first attribute, and any attribute that is installed. -/
def firstAttribute : List Value :=
  [.str "?a", .int 10]

/- A predicate. -/
def form (sign : String) (args : List Value) : Value :=
  .tuple (.str sign :: args)

/- It names its sign before its arguments. -/
theorem sequence?_form (sign : String) (args : List Value) :
    (form sign args).sequence? = some (.str sign :: args) := rfl

/- The clause of a predicate. -/
def testing (sign : String) (args : List Value) : Value :=
  .list [form sign args]

/- It holds the predicate alone. -/
theorem sequence?_testing (sign : String) (args : List Value) :
    (testing sign args).sequence? = some [form sign args] := rfl

/-
  Of the idents of all attributes, one is that of the first
  attribute, and all others are those of different ones.
-/
theorem splits_by_equality_attributesCall :
    (∀ s,
      (attributesCall.withClauses
          [.list installedPattern]).solution = .ok s →
        ∀ σ ∈ s.assignments, σ.compares firstAttribute = true)
      ∧ ∃ (rows : List (List Value))
          (judged : List (Verdict × List Value)),
          rows.length = 12
            ∧ (attributesCall.withClauses
                [.list installedPattern, .list identPattern]
              ).evaluate.run.run [] = (.ok rows, [])
            ∧ judged.map Prod.snd = rows
            ∧ (attributesCall.withClauses
                [ .list installedPattern
                , testing "=" firstAttribute
                , .list identPattern ]).evaluate.run.run []
              = (.ok (Verdict.equal.share judged), [])
            ∧ (attributesCall.withClauses
                [ .list installedPattern
                , testing "not=" firstAttribute
                , .list identPattern ]).evaluate.run.run []
              = (.ok (Verdict.distinct.share judged), [])
            ∧ ∀ row ∈ judged, row.1 ≠ .mixed := by
  have hCompares :
      ∀ s,
        (attributesCall.withClauses
            [.list installedPattern]).solution = .ok s →
          ∀ σ ∈ s.assignments,
            σ.compares firstAttribute = true := by
    decide +kernel
  rcases
      exists_of_succeeds
        ((attributesCall.withClauses
            [.list installedPattern, .list identPattern]
          ).evaluate.run.run []) (by decide +kernel)
    with ⟨rows, hRows⟩
  have hLength :
      ((attributesCall.withClauses
          [.list installedPattern, .list identPattern]
        ).evaluate.run.run []).1.toOption.map List.length
        = some 12 := by
    decide +kernel
  rw [hRows] at hLength
  rcases
      (splits_by_equality (sequence?_form "=" firstAttribute)
        (sequence?_form "not=" firstAttribute) (by decide)
        (by decide) (sequence?_testing "=" firstAttribute)
        (sequence?_testing "not=" firstAttribute) attributesCall
        [.list installedPattern] [.list identPattern]
        hCompares).2.2.1 rows hRows
    with ⟨judged, hJudged, hEqual, hDistinct, hMixed⟩
  exact
    ⟨hCompares, rows, judged, Option.some.inj hLength, hRows,
      hJudged, hEqual, hDistinct, hMixed rfl⟩

------------------------------------------------------------
-- Queries that Are Not Split
------------------------------------------------------------

/- The rows of a call, if it has any. -/
def rows (c : Call) : List (List Value) :=
  ((c.evaluate.run.run []).1.toOption).getD []

/- A row is among others. -/
def rowIn
    (row : List Value)
    (rows : List (List Value)) : Bool :=
  rows.any (fun other => (Value.tuple row).same (.tuple other))

/- A list that stands inside itself. -/
def loop (position : Nat) : Value :=
  .cyclic { tx := 0, position := position }
    [.enclosing { tx := 0, position := position }]

/- A query for the partitions, each as a value of one entity. -/
def partitionsCall (clauses : List Value) : Call where
  find := [.str "?e"]
  inputs := [.str "$"]
  clauses :=
    .list [.str "?e", .str "db.install/partition", .str "?v"]
      :: clauses
  args := [.database (Engine.start (fun _ => 0)).db]

/- A query by which lists grow that facts hold. -/
def pullsCall (clauses : List Value) : Call where
  find := pullsFind
  inputs := [.str "$"]
  clauses := .list docPattern :: clauses
  args := [.database listed.db]

/- Three arguments, of which only two neighbours are equal. -/
def uneven : List Value := [.int 1, .int 1, .int 2]

/-
  Equality and its opposite are not always complementary: of
  three arguments neither may hold, so that neither query has
  a row; two lists that stand inside themselves make both
  fail; different assignments may give the same row; and with
  fewer rows, less grows by pulls, so that the rows of the
  whole query are none of either part.
-/
theorem not_splits_by_equality :
    Assignment.satisfies [] (form "=" uneven) = .ok false
      ∧ Assignment.satisfies [] (form "not=" uneven) = .ok false
      ∧ (partitionsCall []).rows.length = 3
      ∧ (partitionsCall [testing "=" uneven]).rows.length = 0
      ∧ (partitionsCall [testing "not=" uneven]).rows.length = 0
      ∧ Assignment.satisfies [] (form "=" [loop 0, loop 1])
          = .error (.mishap .endless)
      ∧ Assignment.satisfies [] (form "not=" [loop 0, loop 1])
          = .error (.mishap .endless)
      ∧ (partitionsCall
            [testing "=" [.str "?v", .int 0]]).rows.any
          (fun row =>
            rowIn row
              (partitionsCall
                [testing "not=" [.str "?v", .int 0]]).rows)
          = true
      ∧ (pullsCall []).rows.length = 2
      ∧ (pullsCall []).rows.any
          (fun row =>
            rowIn row
                (pullsCall
                  [testing "=" [.str "?e", .int 5]]).rows
              || rowIn row
                (pullsCall
                  [testing "not=" [.str "?e", .int 5]]).rows)
          = false := by
  have hNone : (loop 0).equals? (loop 1) = none := by
    decide +kernel
  have hMixed : Verdict.ofValues uneven = .mixed := by
    decide +kernel
  have hValues : Assignment.values? [] uneven = some uneven :=
    rfl
  rcases
      Assignment.satisfies_of_comparable
        (sequence?_form "=" uneven) (sequence?_form "not=" uneven)
        rfl (by decide) hValues (by decide +kernel)
    with ⟨hEquality, hInequality, -⟩
  rw [hMixed] at hEquality hInequality
  refine ⟨hEquality, hInequality, ?_, ?_, ?_, ?_, ?_, ?_⟩
  · decide +kernel
  · decide +kernel
  · decide +kernel
  · exact
      Assignment.satisfies_of_equals?_eq_none
        (sequence?_form "=" _) rfl (.inl rfl) rfl hNone
  · exact
      Assignment.satisfies_of_equals?_eq_none
        (sequence?_form "not=" _) rfl (.inr rfl) rfl hNone
  · decide +kernel

end Call

end FactBase
