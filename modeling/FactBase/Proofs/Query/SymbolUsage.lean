import FactBase.Proofs.Query.Compilation
import FactBase.Proofs.Value.Equality

/-
  This file says what a report on the variables of a query
  tells: which names occur once that should not, and which
  occur more often than they should, each once and where it
  comes first.  The variables are found by a loop that takes
  nested sequences apart on a stack; it ends, and what it has
  found are the leaves from left to right.

  Key definitions include:
    * `Flattening`
    * `Flattening.step`
    * `Flattening.run`
    * `EarlierIn`

  Key theorems include:
    * `Flattening.step_leaves`
    * `Flattening.run_eq`
    * `pairwise_eraseDups`
    * `SymbolReport.ofSymbols_eq`
    * `SymbolReport.ofSymbols_querySymbols`
-/

------------------------------------------------------------
-- Taking Sequences Apart
------------------------------------------------------------

namespace FactBase

/-
  A stack of values that are still to be taken apart, with its
  top at the end, and the leaves that were found so far.
-/
structure Flattening where
  stack : List Value
  found : List Value

namespace Flattening

/-
  Take the top off the stack.  The items of a sequence are put
  there instead, the first one on top; all else is a leaf.
-/
def step (s : Flattening) : Option Flattening :=
  s.stack.getLast?.map (fun v =>
    match v.sequence? with
    | some items =>
        { s with stack := s.stack.dropLast ++ items.reverse }
    | none =>
        { stack := s.stack.dropLast
          found := s.found ++ [v] })

/- Take so many steps, or all there are until the stack is empty. -/
def run : Nat → Flattening → Flattening
  | 0, s => s
  | n + 1, s =>
      match s.step with
      | some t => run n t
      | none => s

variable {s t : Flattening}

/- What a step does. -/
theorem step_cases (h : s.step = some t) :
    ∃ rest v,
      s.stack = rest ++ [v]
        ∧ ((∃ items, v.sequence? = some items
            ∧ t = { s with stack := rest ++ items.reverse })
          ∨ (v.sequence? = none
            ∧ t = { stack := rest, found := s.found ++ [v] })) := by
  rcases Option.map_eq_some_iff.mp h with ⟨v, hTop, hNext⟩
  rcases List.getLast?_eq_some_iff.mp hTop with ⟨rest, hStack⟩
  refine ⟨rest, v, hStack, ?_⟩
  rw [hStack, List.dropLast_concat] at hNext
  split at hNext
  next items hItems => exact .inl ⟨items, hItems, hNext.symm⟩
  next hLeaf => exact .inr ⟨hLeaf, hNext.symm⟩

/- There is no step left only if the stack is empty. -/
theorem stack_eq_nil (h : s.step = none) : s.stack = [] :=
  List.getLast?_eq_none_iff.mp (Option.map_eq_none_iff.mp h)

end Flattening

namespace Value

/- The places of two lists are counted one after the other. -/
theorem extentOfItems_append (vs ws : List Value) :
    extentOfItems (vs ++ ws)
      = extentOfItems vs + extentOfItems ws := by
  induction vs with
  | nil => simp [extentOfItems]
  | cons v vs ih =>
      rw [List.cons_append, extentOfItems, extentOfItems, ih,
        Nat.add_assoc]

/- Their order does not matter. -/
theorem extentOfItems_reverse (vs : List Value) :
    extentOfItems vs.reverse = extentOfItems vs := by
  induction vs with
  | nil => rfl
  | cons v vs ih =>
      rw [List.reverse_cons, extentOfItems_append, ih,
        extentOfItems, extentOfItems, extentOfItems]
      omega

/- Every value has a place. -/
theorem extent_pos (v : Value) : 0 < v.extent := by
  cases v <;> simp [extent]

/- A sequence that ends has the leaves of its items. -/
theorem leaves_of_sequence
    {v : Value}
    {items : List Value}
    (hEnd : v.endless = false)
    (h : v.sequence? = some items) :
    v.leaves = leavesOf items
      ∧ v.extent = extentOfItems items + 1
      ∧ ∀ x ∈ items, x.endless = false := by
  have hItems :
      endlessItems items = false →
        ∀ x ∈ items, x.endless = false := by
    intro hAll x hx
    rw [Bool.eq_false_iff] at hAll ⊢
    exact fun hNone => hAll (endlessItems_iff.mpr ⟨x, hx, hNone⟩)
  cases v with
  | list xs =>
      cases h
      exact ⟨rfl, rfl, hItems hEnd⟩
  | tuple xs =>
      cases h
      exact ⟨rfl, rfl, hItems hEnd⟩
  | cyclic origin xs => cases hEnd
  | _ => cases h

/- Anything else is a leaf. -/
theorem leaves_of_not_sequence
    {v : Value}
    (h : v.sequence? = none) : v.leaves = [v] := by
  cases v <;> first | rfl | cases h

end Value

namespace Flattening

open Value

variable {s t : Flattening}

/-
  A step keeps the leaves that were found, followed by those
  of the stack from its top down, and leaves fewer places.
-/
theorem step_leaves
    (hEnd : ∀ v ∈ s.stack, v.endless = false)
    (h : s.step = some t) :
    t.found ++ leavesOf t.stack.reverse
        = s.found ++ leavesOf s.stack.reverse
      ∧ extentOfItems t.stack < extentOfItems s.stack
      ∧ ∀ v ∈ t.stack, v.endless = false := by
  rcases step_cases h with ⟨rest, v, hStack, hNext⟩
  rw [hStack] at hEnd ⊢
  rw [List.forall_mem_append, List.forall_mem_singleton] at hEnd
  rw [List.reverse_append, List.reverse_singleton,
    List.singleton_append, leavesOf, extentOfItems_append,
    extentOfItems, extentOfItems]
  rcases hNext with ⟨items, hItems, rfl⟩ | ⟨hLeaf, rfl⟩
  · rcases leaves_of_sequence hEnd.2 hItems with
      ⟨hLeaves, hExtent, hEach⟩
    refine ⟨?_, ?_, ?_⟩
    · rw [List.reverse_append, List.reverse_reverse,
        leavesOf_append, hLeaves]
    · rw [extentOfItems_append, extentOfItems_reverse, hExtent]
      omega
    · rw [List.forall_mem_append]
      refine ⟨hEnd.1, ?_⟩
      intro x hx
      exact hEach x (List.mem_reverse.mp hx)
  · refine ⟨?_, ?_, hEnd.1⟩
    · rw [leaves_of_not_sequence hLeaf, List.append_assoc]
    · have hPlace := extent_pos v
      simp only
      omega

/-
  So the loop ends, with nothing but leaves, within as many
  steps as there are places.
-/
theorem run_eq
    {n : Nat}
    (hEnd : ∀ v ∈ s.stack, v.endless = false)
    (h : extentOfItems s.stack ≤ n) :
    run n s
      = { stack := []
          found := s.found ++ leavesOf s.stack.reverse } := by
  induction n generalizing s with
  | zero =>
      have hEmpty : s.stack = [] := by
        rcases hStack : s.stack with _ | ⟨v, rest⟩
        · rfl
        · rw [hStack, extentOfItems] at h
          have hPlace := extent_pos v
          omega
      rcases s with ⟨stack, found⟩
      cases hEmpty
      rw [run, List.reverse_nil, leavesOf, List.append_nil]
  | succ n ih =>
      rw [run]
      cases hStep : s.step with
      | some t =>
          rcases step_leaves hEnd hStep with
            ⟨hLeaves, hLess, hEach⟩
          exact (ih hEach (by omega)).trans (by rw [hLeaves])
      | none =>
          rcases s with ⟨stack, found⟩
          cases stack_eq_nil hStep
          rw [List.reverse_nil, leavesOf, List.append_nil]

end Flattening

------------------------------------------------------------
-- First Occurrences
------------------------------------------------------------

/- The one occurs for the first time before the other does. -/
def EarlierIn
    (names : List String)
    (m n : String) : Prop :=
  names.idxOf m < names.idxOf n

/- Leaving out other names does not change what comes first. -/
theorem earlierIn_of_filter
    {p : String → Bool}
    {names : List String}
    {m n : String}
    (hm : p m = true)
    (hn : p n = true)
    (h : EarlierIn (names.filter p) m n) :
    EarlierIn names m n := by
  unfold EarlierIn at h ⊢
  induction names with
  | nil => exact h
  | cons x names ih =>
      by_cases hx : p x = true
      · rw [List.filter_cons_of_pos hx] at h
        by_cases hFirst : x = m
        · subst hFirst
          have hOther : x ≠ n := by
            rintro rfl
            omega
          rw [List.idxOf_cons_self, List.idxOf_cons_ne _ hOther]
          omega
        · by_cases hSecond : x = n
          · subst hSecond
            rw [List.idxOf_cons_self] at h
            omega
          · rw [List.idxOf_cons_ne _ hFirst,
              List.idxOf_cons_ne _ hSecond] at h ⊢
            exact Nat.succ_lt_succ (ih (by omega))
      · rw [List.filter_cons_of_neg hx] at h
        have hFirst : x ≠ m := by
          rintro rfl
          exact hx hm
        have hSecond : x ≠ n := by
          rintro rfl
          exact hx hn
        rw [List.idxOf_cons_ne _ hFirst,
          List.idxOf_cons_ne _ hSecond]
        exact Nat.succ_lt_succ (ih h)

/- Names without repetitions are in order of their first places. -/
theorem pairwise_eraseDups (names : List String) :
    names.eraseDups.Pairwise (EarlierIn names) := by
  induction hLength : names.length using Nat.strongRecOn
      generalizing names with
  | _ k ih =>
      cases names with
      | nil => exact .nil
      | cons x names =>
          rw [List.eraseDups_cons]
          have hLess :
              (names.filter (fun n => !n == x)).length < k := by
            rw [← hLength, List.length_cons]
            exact Nat.lt_succ_of_le (List.length_filter_le _ _)
          refine .cons ?_ ((ih _ hLess _ rfl).imp_of_mem ?_)
          · intro n hn
            rw [List.mem_eraseDups, List.mem_filter] at hn
            have hOther : x ≠ n := by
              rintro rfl
              simp at hn
            unfold EarlierIn
            rw [List.idxOf_cons_self, List.idxOf_cons_ne _ hOther]
            omega
          · intro m n hm hn hEarlier
            rw [List.mem_eraseDups, List.mem_filter] at hm hn
            refine
              earlierIn_of_filter (p := fun n => !n == x)
                hm.2 hn.2 ?_
            rwa [List.filter_cons_of_neg (by simp)]

/- Nothing is left out of names that do not repeat. -/
theorem eraseDups_of_nodup
    {names : List String}
    (h : names.Nodup) : names.eraseDups = names := by
  induction names with
  | nil => rfl
  | cons x names ih =>
      rcases List.nodup_cons.mp h with ⟨hNew, hRest⟩
      have hAll : names.filter (fun n => !n == x) = names := by
        rw [List.filter_eq_self]
        intro n hn
        have hOther : n ≠ x := by
          rintro rfl
          exact hNew hn
        simpa using hOther
      rw [List.eraseDups_cons, hAll, ih hRest]

/- Names can be picked before or after repetitions are left out. -/
theorem eraseDups_filter
    (p : String → Bool)
    (names : List String) :
    (names.filter p).eraseDups = names.eraseDups.filter p := by
  induction hLength : names.length using Nat.strongRecOn
      generalizing names with
  | _ k ih =>
      cases names with
      | nil => rfl
      | cons x names =>
          have hLess :
              (names.filter (fun n => !n == x)).length < k := by
            rw [← hLength, List.length_cons]
            exact Nat.lt_succ_of_le (List.length_filter_le _ _)
          have hRest := ih _ hLess _ rfl
          rw [List.eraseDups_cons]
          by_cases hx : p x = true
          · rw [List.filter_cons_of_pos hx,
              List.filter_cons_of_pos hx, List.eraseDups_cons,
              ← hRest, List.filter_comm]
          · rw [List.filter_cons_of_neg hx,
              List.filter_cons_of_neg hx, ← hRest,
              List.filter_filter]
            congr 1
            apply List.filter_congr
            intro n _
            cases hn : p n with
            | false => rfl
            | true =>
                have hOther : n ≠ x := by
                  rintro rfl
                  exact hx hn
                simp [hOther]

------------------------------------------------------------
-- Reports
------------------------------------------------------------

namespace SymbolReport

/-
  Names without the mark that occur once are the same ones
  before and after repetitions are left out.
-/
theorem orphans_eq (names : List String) :
    let regular := names.filter (fun n => !endsWithMark n)
    regular.filter (fun n => regular.count n == 1)
      = names.eraseDups.filter
        (fun n => !endsWithMark n && names.count n == 1) := by
  intro regular
  have hPick :
      regular.filter (fun n => regular.count n == 1)
        = names.filter
          (fun n => !endsWithMark n && names.count n == 1) := by
    rw [List.filter_filter]
    apply List.filter_congr
    intro n _
    cases hMark : endsWithMark n with
    | true => simp
    | false =>
        rw [List.count_filter (by simpa using hMark),
          Bool.and_comm]
  have hOnce :
      (names.filter
        (fun n => !endsWithMark n && names.count n == 1)).Nodup := by
    rw [List.nodup_iff_count_le_one]
    intro n
    cases hn : !endsWithMark n && names.count n == 1 with
    | true =>
        refine (List.count_filter (a := n) hn).trans_le ?_
        simp only [Bool.and_eq_true, beq_iff_eq] at hn
        omega
    | false =>
        rw [List.count_eq_zero_of_not_mem]
        · omega
        · simp [List.mem_filter, hn]
  rw [hPick, ← eraseDups_of_nodup hOnce, eraseDups_filter]

/-
  The report goes through the names of the variables in order
  of their first occurrence.
-/
theorem ofSymbols_eq (symbols : List Value) :
    let names := symbols.filterMap Value.variableName?
    ofSymbols symbols
      = { orphans :=
            names.eraseDups.filter
              (fun n => !endsWithMark n && names.count n == 1)
          overused :=
            names.eraseDups.filter
              (fun n => endsWithMark n && names.count n > 1) } := by
  intro names
  unfold ofSymbols
  rw [regularNames_eq, wildcardNames_eq, SymbolReport.mk.injEq]
  constructor
  · exact orphans_eq names
  · rw [eraseDups_filter, List.filter_filter]
    apply List.filter_congr
    intro n _
    cases hMark : endsWithMark n with
    | false => simp
    | true => rw [List.count_filter hMark, Bool.and_comm]

/- A report that is not clean fails, for its orphans first. -/
theorem check_cases (r : SymbolReport) :
    (r.check = .ok () ↔ r.orphans = [] ∧ r.overused = [])
      ∧ (r.orphans ≠ [] →
        r.check = .error (.orphanSymbols r.orphans r))
      ∧ (r.orphans = [] → r.overused ≠ [] →
        r.check = .error (.overusedWildcards r.overused r)) := by
  rcases r with ⟨orphans, overused⟩
  cases orphans <;> cases overused <;> simp [check, faults]

end SymbolReport

/- The symbols of a query are the variables among the leaves. -/
theorem querySymbols_eq
    (clauses bindings projection rules : List Value) :
    querySymbols clauses bindings projection rules
      = (Value.leavesOf
          (clauses ++ bindings ++ projection ++ rules)).filter
        Value.isVariable := by
  have hVariable :
      (fun v => (Term.ofValue v).name?.isSome)
        = Value.isVariable := by
    funext v
    rw [Value.name?_ofValue]
    rfl
  unfold querySymbols Value.flatten
  rw [Value.flattenPending_eq_leavesOf, hVariable,
    Value.leavesOf_append, Value.leavesOf_append,
    Value.leavesOf_append]
  simp only [Value.leavesOf, Value.leaves, List.append_nil,
    List.append_assoc]

/- Other leaves name no variable. -/
theorem filterMap_isVariable (vs : List Value) :
    (vs.filter Value.isVariable).filterMap Value.variableName?
      = vs.filterMap Value.variableName? := by
  rw [List.filterMap_filter]
  congr 1
  funext v
  unfold Value.isVariable
  cases v.variableName? <;> rfl

/-
  A report on the sections of a query is exact.  Its orphans
  are the names without the mark that occur once among the
  leaves, and its overused wildcards those with the mark that
  occur more than once, each listed once and in order of first
  occurrence.  The leaves are what the loop finds that takes
  sequences apart, which ends if the value does.  Checking the
  report fails if something is listed, for orphans if there
  are any.
-/
theorem SymbolReport.ofSymbols_querySymbols
    (clauses bindings projection rules : List Value) :
    let leaves :=
      Value.leavesOf (clauses ++ bindings ++ projection ++ rules)
    let names := leaves.filterMap Value.variableName?
    let symbols := querySymbols clauses bindings projection rules
    let r := ofSymbols symbols
    (∀ v : Value,
        v.flatten = v.leaves
          ∧ (v.endless = false →
            Flattening.run v.extent { stack := [v], found := [] }
              = { stack := [], found := v.leaves }))
      ∧ symbols = leaves.filter Value.isVariable
      ∧ (∀ n, n ∈ r.orphans ↔
        endsWithMark n = false ∧ names.count n = 1)
      ∧ (∀ n, n ∈ r.overused ↔
        endsWithMark n = true ∧ 1 < names.count n)
      ∧ r.orphans.Pairwise (EarlierIn names)
      ∧ r.overused.Pairwise (EarlierIn names)
      ∧ (r.check = .ok () ↔ r.orphans = [] ∧ r.overused = [])
      ∧ (r.orphans ≠ [] →
        r.check = .error (.orphanSymbols r.orphans r))
      ∧ (r.orphans = [] → r.overused ≠ [] →
        r.check = .error (.overusedWildcards r.overused r)) := by
  intro leaves names symbols r
  have hSymbols : symbols = leaves.filter Value.isVariable :=
    querySymbols_eq clauses bindings projection rules
  have hNames : symbols.filterMap Value.variableName? = names := by
    rw [hSymbols, filterMap_isVariable]
  have hReport := ofSymbols_eq symbols
  rw [hNames] at hReport
  refine ⟨?_, hSymbols, ?_, ?_, ?_, ?_, check_cases r⟩
  · intro v
    have hLeaves : Value.leavesOf [v] = v.leaves := by
      rw [Value.leavesOf, Value.leavesOf, List.append_nil]
    refine ⟨?_, ?_⟩
    · rw [Value.flatten, Value.flattenPending_eq_leavesOf, hLeaves]
    · intro hEnd
      rw [Flattening.run_eq (by simpa using hEnd)
        (by simp [Value.extentOfItems])]
      simpa using hLeaves
  · intro n
    rw [show r = _ from hReport, List.mem_filter,
      List.mem_eraseDups, Bool.and_eq_true, Bool.not_eq_true',
      beq_iff_eq]
    constructor
    · exact fun h => h.2
    · intro h
      exact ⟨List.count_pos_iff.mp (by omega), h⟩
  · intro n
    rw [show r = _ from hReport, List.mem_filter,
      List.mem_eraseDups, Bool.and_eq_true, decide_eq_true_eq]
    constructor
    · exact fun h => h.2
    · intro h
      exact ⟨List.count_pos_iff.mp (by omega), h⟩
  · rw [show r = _ from hReport]
    exact (pairwise_eraseDups names).filter _
  · rw [show r = _ from hReport]
    exact (pairwise_eraseDups names).filter _

/- A rule invocation with sequences inside one another. -/
def nestedRule : Value :=
  .tuple
    [ .str "region", .var "?e"
    , .list [.str "?r", .tuple [.str "?any*", .wildcard "?any*"]] ]

/-
  Next to a clause that mentions `?e` as a text, the report
  lists `?r` and `?any*`, and `?r` is what fails.
-/
theorem SymbolReport.ofSymbols_nestedRule :
    let clause :=
      Value.tuple [.str "?e", .str "db/ident", .str "?e"]
    let r := ofSymbols (querySymbols [clause] [] [] [nestedRule])
    Flattening.run nestedRule.extent
        { stack := [nestedRule], found := [] }
      = { stack := [], found := nestedRule.leaves }
      ∧ "?r" ∈ r.orphans
      ∧ "?e" ∉ r.orphans
      ∧ "?any*" ∈ r.overused
      ∧ r.check = .error (.orphanSymbols r.orphans r) := by
  intro clause r
  rcases ofSymbols_querySymbols [clause] [] [] [nestedRule] with
    ⟨hLoop, -, hOrphans, hOverused, -, -, -, hFails, -⟩
  have hOrphan : "?r" ∈ r.orphans :=
    (hOrphans "?r").mpr (by decide +kernel)
  refine ⟨(hLoop nestedRule).2 rfl, hOrphan, ?_, ?_, ?_⟩
  · exact fun h => absurd ((hOrphans "?e").mp h) (by decide +kernel)
  · exact (hOverused "?any*").mpr (by decide +kernel)
  · exact hFails (List.ne_nil_of_mem hOrphan)

end FactBase
