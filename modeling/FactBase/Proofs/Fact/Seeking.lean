import FactBase.Proofs.Fact.Removal
import FactBase.Proofs.Fact.Scanning
import FactBase.Proofs.Value.Rank
import FactBase.Sorting.Ascending.Sort

/-
  This file shows what it means to read from an index.  Facts
  whose values are defined have keys with ranks in one linear
  order, whatever the kinds of their values are, and an index
  holds them in that order.  So the facts from a key on are
  all that are left behind the facts before it, and the facts
  that begin with the key are a run at their front.

  Key definitions include:
    * `Value.standing`
    * `FactIndex.rankOf`
    * `FactIndex.Ranks`
    * `FactIndex.Takes`
    * `FactIndex.reaches`
    * `FactIndex.begins`
    * `FactIndex.Meets`

  Key theorems include:
    * `Value.ranksWith_orderKey`
    * `FactIndex.compared_keyOf`
    * `Database.exists_sortedFacts_ascending`
    * `Database.takes_of_componentKey`
    * `Database.seek_scan_sorted`
-/

------------------------------------------------------------
-- Ranks of Sort Keys
------------------------------------------------------------

namespace FactBase

open Sorting

namespace Value

variable {c : Comparison}
variable {v w : Value}

/- Integers and truth values are on the line. -/
theorem place?_of_int?
    (h : v.int?.isSome = true) :
    ∃ p, v.place? = some p := by
  cases v with
  | bool b => exact ⟨_, place?_bool b⟩
  | int n => exact ⟨_, place?_int n⟩
  | _ => cases h

/-
  Where a value stands among values of all kinds: first truth
  values, then numbers by size, then texts by code points,
  then instants by their seconds, and then all others by their
  descriptions.
-/
def standing : Value → Rank
  | .bool b => toLex (0, (Value.bool b).point)
  | .int n => toLex (1, (Value.int n).point)
  | .float x => toLex (1, (Value.float x).point)
  | .str s => toLex (2, (Value.str s).point)
  | .instant t =>
      toLex (3, (Value.float (Instant.seconds t)).point)
  | v => toLex (4, (Value.str v.description).point)

/- The key of a value ranks where the value stands. -/
theorem rank_orderKey (v : Value) :
    v.orderKey.rank = v.standing := by
  cases v <;> rfl

/- The keys of values rank with each other. -/
theorem ranksWith_orderKey
    (hv : v.isUndefined = false)
    (hw : c = .atLeast ∨ w.isUndefined = false) :
    RanksWith c v.orderKey w.orderKey := by
  rcases orderKey_cases v with ⟨k, x, hx, hKind⟩
  rcases orderKey_cases w with ⟨k', y, hy, hKind'⟩
  rw [hx, hy]
  rcases hKind with ⟨hNumber, hSome, hSame⟩ | ⟨hText, s, rfl⟩ <;>
    rcases hKind' with
      ⟨hNumber', hSome', hSame'⟩ | ⟨hText', t, rfl⟩
  · refine
      ranksWith_pair (endless_of_magnitude hSome)
        (endless_of_magnitude hSome') (rank_of_magnitude hSome)
        (rank_of_magnitude hSome') fun _ => ?_
    rcases exists_place hSome (hSame.trans hv) with ⟨p, hp⟩
    rw [← hSame'] at hw
    exact ranksWith_of_place hp hw
  · exact
      ranksWith_pair (endless_of_magnitude hSome) rfl
        (rank_of_magnitude hSome) (rank_str t)
        (fun h => by omega)
  · exact
      ranksWith_pair rfl (endless_of_magnitude hSome')
        (rank_str s) (rank_of_magnitude hSome')
        (fun h => by omega)
  · exact
      ranksWith_pair rfl rfl (rank_str s) (rank_str t)
        (fun _ => ranksWith_str s t)

end Value

------------------------------------------------------------
-- The Order of an Index
------------------------------------------------------------

namespace FactIndex

variable {i : FactIndex}
variable {c : Comparison}
variable {d d' : Datom}

/-
  The rank of one part of a fact: integers by size, and values
  as they stand among values of all kinds, except where the
  index takes references as they are.
-/
def rankPart
    (i : FactIndex)
    (d : Datom) : FactPart → Value.Rank
  | .entity => (Value.int d.entity).rank
  | .attr => (Value.int d.attr).rank
  | .tx => (Value.int d.tx).rank
  | .value =>
      match i with
      | .vaet => d.value.rank
      | _ => d.value.standing

/- The ranks of the parts by which an index sorts a fact. -/
def rankOf
    (i : FactIndex)
    (d : Datom) : List Value.Rank :=
  i.parts.map (i.rankPart d)

/- These are the ranks of the items of its key. -/
theorem map_rank_keyOf :
    (i.keyOf d).map Value.rank = i.rankOf d := by
  unfold keyOf rankOf
  rw [List.map_map]
  refine List.map_congr_left ?_
  intro part _
  cases part with
  | value =>
      cases i with
      | vaet => rfl
      | _ => exact Value.rank_orderKey d.value
  | _ => rfl

/-
  An index ranks facts whose values are defined, and are
  integers if it takes them as they are.
-/
structure Ranks
    (i : FactIndex)
    (d : Datom) : Prop where
  defined : d.value.isUndefined = false
  integer : i = .vaet → d.value.int?.isSome = true

/- The parts of two facts rank with each other. -/
theorem ranksWith_partOf
    (hd : i.Ranks d)
    (hd' : i.Ranks d')
    (part : FactPart) :
    Value.RanksWith c (i.partOf d part) (i.partOf d' part) := by
  have hInt (m n : Int) :
      Value.RanksWith c (.int m) (.int n) :=
    Value.ranksWith_of_place (Value.place?_int m) (.inr rfl)
  cases part with
  | value =>
      have hKey :
          Value.RanksWith c d.value.orderKey
            d'.value.orderKey :=
        Value.ranksWith_orderKey hd.defined (.inr hd'.defined)
      cases i with
      | vaet =>
          rcases Value.place?_of_int? (hd.integer rfl) with ⟨p, hp⟩
          exact Value.ranksWith_of_place hp (.inr hd'.defined)
      | _ => exact hKey
  | _ => exact hInt _ _

/- References can be told apart where they are compared. -/
theorem sortsWith_value
    (hd : FactIndex.vaet.Ranks d)
    (hd' : FactIndex.vaet.Ranks d') :
    d.value.SortsWith d'.value := by
  rcases Value.place?_of_int? (hd.integer rfl) with ⟨p, hp⟩
  rcases Value.place?_of_int? (hd'.integer rfl) with ⟨q, hq⟩
  have hLeft := Value.isSome_magnitude?_of_place? hp
  have hRight := Value.isSome_magnitude?_of_place? hq
  exact
    Value.sortsWith_of_not_endless
      (Value.endless_of_magnitude hLeft)
      (Value.endless_of_magnitude hRight)
      (.inr (Value.exists_ordered_of_magnitude hLeft hRight))

/- An index compares the keys of facts by their ranks. -/
theorem compared_keyOf
    (hd : i.Ranks d)
    (hd' : i.Ranks d') :
    Value.compared .less
        (.tuple (i.keyOf d)) (.tuple (i.keyOf d'))
      = .ok (decide (i.rankOf d < i.rankOf d')) := by
  have hSorts :
      i = .vaet → d.value.SortsWith d'.value := by
    rintro rfl
    exact sortsWith_value hd hd'
  rcases exists_compared_keyOf hSorts with ⟨b, hb⟩
  have hRanks :
      List.Forall₂ (Value.RanksWith .less)
        (i.keyOf d) (i.keyOf d') := by
    unfold keyOf
    rw [List.forall₂_map_left_iff, List.forall₂_map_right_iff,
      List.forall₂_same]
    exact fun part _ => ranksWith_partOf hd hd' part
  have hHolds := (Value.compared_tuple_iff hRanks hb).1
  rw [hb, Except.ok.injEq, Bool.eq_iff_iff, hHolds,
    decide_eq_true_eq, map_rank_keyOf, map_rank_keyOf]
  rfl

end FactIndex

namespace Database

variable {db : Database}
variable {i : FactIndex}

/-
  The facts of a database have ranks if no value is undefined
  and all references are integers.
-/
theorem ranks_of_mem
    (hDefined :
      ∀ d ∈ db.datoms, d.value.isUndefined = false)
    (hReferences :
      ∀ d ∈ db.datoms, db.isRef d.attr = true →
        d.value.int?.isSome = true) :
    ∀ d ∈ db.indexedFacts i, i.Ranks d := by
  intro d hd
  have hMem : d ∈ db.datoms := by
    cases i with
    | vaet => exact List.mem_of_mem_filter hd
    | _ => exact hd
  refine ⟨hDefined d hMem, ?_⟩
  rintro rfl
  exact hReferences d hMem (List.mem_filter.mp hd).2

/- Such facts ascend in their index, and none is left out. -/
theorem exists_sortedFacts_ascending
    (h : ∀ d ∈ db.indexedFacts i, i.Ranks d) :
    ∃ facts, db.sortedFacts i = .ok facts
      ∧ facts.Perm (db.indexedFacts i)
      ∧ facts.Pairwise
        (fun c d => i.rankOf c ≤ i.rankOf d) := by
  have hOrders :
      Orders i.Ranks
        (fun c d => decide (i.rankOf c < i.rankOf d))
        (fun c d =>
          Value.compared .less
            (.tuple (i.keyOf c)) (.tuple (i.keyOf d))) := by
    refine ⟨FactIndex.compared_keyOf, ?_, ?_⟩
    · intro c d _ _ hLess
      rw [decide_eq_true_eq] at hLess
      simpa using hLess.le
    · intro c d e _ _ _ hcd hde
      rw [decide_eq_false_iff_not, not_lt] at hcd hde ⊢
      exact hcd.trans hde
  rcases sort_ascends hOrders h with ⟨facts, hSort, hPerm, hUp⟩
  refine ⟨facts, ?_, hPerm, hUp.imp (fun hLe => by simpa using hLe)⟩
  unfold sortedFacts
  rw [hSort]
  rfl

end Database

------------------------------------------------------------
-- Keys of Components
------------------------------------------------------------

namespace FactIndex

variable {i : FactIndex}
variable {d : Datom}

/-
  A key that may stand for a part of a fact: the key of a
  value, where values are not taken as they are.
-/
def Takes
    (i : FactIndex)
    (part : FactPart)
    (key : Value) : Prop :=
  part = .value → i ≠ .vaet → ∃ v : Value, key = v.orderKey

/-
  Nothing more is needed to find out whether a fact is at
  least as great in that part.
-/
theorem ranksWith_of_takes
    (hd : i.Ranks d)
    {part : FactPart}
    {key : Value}
    (hKey : i.Takes part key) :
    Value.RanksWith .atLeast (i.partOf d part) key := by
  have hInt (n : Int) :
      Value.RanksWith .atLeast (.int n) key :=
    Value.ranksWith_of_place (Value.place?_int n) (.inl rfl)
  cases part with
  | value =>
      by_cases hRaw : i = .vaet
      · subst hRaw
        rcases Value.place?_of_int? (hd.integer rfl) with ⟨p, hp⟩
        exact Value.ranksWith_of_place hp (.inl rfl)
      · rcases hKey rfl hRaw with ⟨v, rfl⟩
        have hValue : i.partOf d .value = d.value.orderKey := by
          cases i <;> first | rfl | exact absurd rfl hRaw
        rw [hValue]
        exact Value.ranksWith_orderKey hd.defined (.inl rfl)
  | _ => exact hInt _

end FactIndex

namespace Database

variable {db : Database}
variable {i : FactIndex}

/- A component that is a value has the key of a value. -/
theorem orderKey_of_valueComponent
    {schema : Option Schema}
    {v key : Value}
    (h : db.valueComponent schema v = .ok key) :
    ∃ w : Value, key = w.orderKey := by
  unfold valueComponent at h
  split at h
  · rcases bind_eq_ok.mp h with ⟨w, _, hKey⟩
    exact ⟨w, (Except.ok.inj hKey).symm⟩
  · exact ⟨v, (Except.ok.inj h).symm⟩

/- Components are turned into keys for the parts in order. -/
theorem takes_of_componentKeys
    {schema : Option Schema}
    {parts : List FactPart}
    {components keys : List Value}
    (h : db.componentKeys i schema parts components = .ok keys) :
    List.Forall₂ i.Takes (parts.take keys.length) keys := by
  induction parts generalizing schema components keys with
  | nil =>
      unfold componentKeys at h
      rw [← Except.ok.inj h]
      exact .nil
  | cons part parts ih =>
      cases components with
      | nil =>
          unfold componentKeys at h
          rw [← Except.ok.inj h]
          exact .nil
      | cons v vs =>
          unfold componentKeys at h
          cases part with
          | entity =>
              rcases bind_eq_ok.mp h with ⟨key, _, h⟩
              rcases bind_eq_ok.mp h with ⟨rest, hRest, h⟩
              rw [← Except.ok.inj h]
              exact .cons (by simp [FactIndex.Takes]) (ih hRest)
          | attr =>
              rcases bind_eq_ok.mp h with ⟨⟨key, next⟩, _, h⟩
              rcases bind_eq_ok.mp h with ⟨rest, hRest, h⟩
              rw [← Except.ok.inj h]
              exact .cons (by simp [FactIndex.Takes]) (ih hRest)
          | tx =>
              rcases bind_eq_ok.mp h with ⟨rest, hRest, h⟩
              rw [← Except.ok.inj h]
              exact .cons (by simp [FactIndex.Takes]) (ih hRest)
          | value =>
              have hHead :
                  ∃ key rest, i.Takes .value key
                    ∧ db.componentKeys i schema parts vs
                      = .ok rest
                    ∧ key :: rest = keys := by
                cases i with
                | vaet =>
                    rcases bind_eq_ok.mp h with ⟨key, _, h⟩
                    rcases bind_eq_ok.mp h with ⟨rest, hRest, h⟩
                    exact
                      ⟨key, rest, by simp [FactIndex.Takes],
                        hRest, Except.ok.inj h⟩
                | _ =>
                    rcases bind_eq_ok.mp h with ⟨key, hKey, h⟩
                    rcases bind_eq_ok.mp h with ⟨rest, hRest, h⟩
                    exact
                      ⟨key, rest,
                        fun _ _ =>
                          orderKey_of_valueComponent hKey,
                        hRest, Except.ok.inj h⟩
              rcases hHead with ⟨key, rest, hKey, hRest, rfl⟩
              exact .cons hKey (ih hRest)

/- So the key of components has a place for each of them. -/
theorem takes_of_componentKey
    {components start : List Value}
    (h : db.componentKey i components = .ok start) :
    List.Forall₂ i.Takes (i.parts.take start.length) start := by
  unfold componentKey at h
  split at h
  · cases h
  · exact takes_of_componentKeys h

end Database

------------------------------------------------------------
-- Reading an Index
------------------------------------------------------------

namespace FactIndex

variable {i : FactIndex}
variable {d : Datom}
variable {start : List Value}

/- A fact is at or behind the place of a key. -/
def reaches
    (i : FactIndex)
    (start : List Value)
    (d : Datom) : Bool :=
  match
    Value.compared .atLeast
      (.tuple ((i.keyOf d).take start.length))
      (.tuple start)
  with
  | .ok b => b
  | .error _ => false

/- A fact begins with a key. -/
def begins
    (i : FactIndex)
    (start : List Value)
    (d : Datom) : Bool :=
  Value.sameItems ((i.keyOf d).take start.length) start

/- It can be told whether the fact has reached the key. -/
def Meets
    (i : FactIndex)
    (start : List Value)
    (d : Datom) : Prop :=
  ∃ b,
    Value.compared .atLeast
        (.tuple ((i.keyOf d).take start.length))
        (.tuple start)
      = .ok b

/-
  Where that can be told, the first ranks of the fact tell
  it, and whether the fact begins with the key.
-/
theorem reaches_begins_iff
    (hTakes :
      List.Forall₂ i.Takes (i.parts.take start.length) start)
    (hd : i.Ranks d)
    (hMeets : i.Meets start d) :
    (i.reaches start d = true ↔
        start.map Value.rank
          ≤ (i.rankOf d).take start.length)
      ∧ (i.begins start d = true ↔
        (i.rankOf d).take start.length
          = start.map Value.rank) := by
  have hRanks :
      List.Forall₂ (Value.RanksWith .atLeast)
        ((i.keyOf d).take start.length) start := by
    unfold keyOf
    rw [← List.map_take, List.forall₂_map_left_iff]
    exact hTakes.imp (fun _ _ hKey => ranksWith_of_takes hd hKey)
  rcases hMeets with ⟨b, hb⟩
  rcases Value.compared_tuple_iff hRanks hb with ⟨hHolds, hSame⟩
  rw [List.map_take, map_rank_keyOf] at hHolds hSame
  unfold reaches begins
  rw [hb]
  exact ⟨hHolds, hSame⟩

end FactIndex

/- Cutting off lists that are in order keeps their order. -/
theorem take_le_take
    {α : Type}
    [LinearOrder α]
    {xs ys : List α}
    (h : xs ≤ ys)
    (n : Nat) : xs.take n ≤ ys.take n := by
  induction n generalizing xs ys with
  | zero => exact le_refl _
  | succ n ih =>
      cases xs with
      | nil => simp [← not_lt]
      | cons x xs =>
          cases ys with
          | nil => simp [← not_lt] at h
          | cons y ys =>
              have hHolds :
                  Comparison.atMost.Holds (x :: xs) (y :: ys) := h
              by_cases hHead : x = y
              · subst hHead
                rw [Comparison.holds_cons_iff] at hHolds
                exact List.cons_le_cons x (ih hHolds)
              · rw [Comparison.holds_cons_of_ne hHead] at hHolds
                exact
                  (Comparison.holds_cons_of_ne (c := .atMost)
                    hHead _ _).mpr hHolds

namespace Database

variable {db : Database}
variable {i : FactIndex}
variable {facts : List Datom}
variable {components start : List Value}

/- No components have an empty key. -/
theorem componentKey_nil :
    db.componentKey i [] = .ok [] := by
  cases i <;> rfl

/- Seeking gives the facts that have reached the key. -/
theorem seek_eq_filter
    (hFacts : db.sortedFacts i = .ok facts)
    (hKey : db.componentKey i components = .ok start)
    (hMeets : ∀ d ∈ facts, i.Meets start d) :
    db.seek (.str i.name) components
      = .ok (facts.filter (i.reaches start)) := by
  unfold seek
  rw [FactIndex.ofValue_name, ok_bind, hFacts, ok_bind]
  cases components with
  | nil =>
      rw [componentKey_nil, Except.ok.injEq] at hKey
      subst hKey
      have hAll : facts.filter (i.reaches []) = facts :=
        List.filter_eq_self.mpr (fun _ _ => rfl)
      rw [hAll]
      rfl
  | cons v vs =>
      dsimp only
      rw [hKey, ok_bind]
      refine Outcome.filterM_eq_ok ?_
      intro d hd
      rcases hMeets d hd with ⟨b, hb⟩
      unfold FactIndex.reaches
      rw [hb]
      rfl

/- Scanning gives the facts that begin with the key. -/
theorem scan_eq_filter
    (hFacts : db.sortedFacts i = .ok facts)
    (hKey : db.componentKey i components = .ok start) :
    db.scan (.str i.name) components
      = .ok (facts.filter (i.begins start)) := by
  unfold scan
  rw [FactIndex.ofValue_name, ok_bind, hFacts, ok_bind]
  cases components with
  | nil =>
      rw [componentKey_nil, Except.ok.injEq] at hKey
      subst hKey
      have hAll : facts.filter (i.begins []) = facts := by
        rw [List.filter_eq_self]
        intro d _
        simp [FactIndex.begins, Value.sameItems]
      rw [hAll]
      rfl
  | cons v vs =>
      dsimp only
      rw [hKey, ok_bind]
      rfl

/-
  Along facts in the order of their ranks, those that have
  not reached a key come first.
-/
theorem falls_reaches
    (hTakes :
      List.Forall₂ i.Takes (i.parts.take start.length) start)
    (hRanks : ∀ d ∈ facts, i.Ranks d)
    (hMeets : ∀ d ∈ facts, i.Meets start d)
    (hUp : facts.Pairwise (fun c d => i.rankOf c ≤ i.rankOf d)) :
    Falls (fun d => !i.reaches start d) facts := by
  refine hUp.imp_of_mem ?_
  intro c d hc hd hLe hStays
  have hReaches {d : Datom} (hd : d ∈ facts) :=
    (FactIndex.reaches_begins_iff hTakes (hRanks d hd)
      (hMeets d hd)).1
  rw [Bool.not_eq_true', ← Bool.not_eq_true] at hStays ⊢
  rw [hReaches hd] at hStays
  rw [hReaches hc]
  exact fun h => hStays (h.trans (take_le_take hLe _))

/-
  Among those that have reached the key, the ones that begin
  with it come first.
-/
theorem falls_begins
    (hTakes :
      List.Forall₂ i.Takes (i.parts.take start.length) start)
    (hRanks : ∀ d ∈ facts, i.Ranks d)
    (hMeets : ∀ d ∈ facts, i.Meets start d)
    (hUp : facts.Pairwise (fun c d => i.rankOf c ≤ i.rankOf d)) :
    Falls (i.begins start) (facts.filter (i.reaches start)) := by
  have hTold {d : Datom} (hd : d ∈ facts) :=
    FactIndex.reaches_begins_iff hTakes (hRanks d hd)
      (hMeets d hd)
  refine (hUp.filter _).imp_of_mem ?_
  intro c d hc hd hLe hBegins
  rw [List.mem_filter] at hc hd
  rw [(hTold hd.1).2] at hBegins
  rw [(hTold hc.1).2]
  refine le_antisymm ?_ ((hTold hc.1).1.mp hc.2)
  exact (take_le_take hLe _).trans (le_of_eq hBegins)

/- A fact that begins with the key has reached it. -/
theorem reaches_of_begins
    (hTakes :
      List.Forall₂ i.Takes (i.parts.take start.length) start)
    {d : Datom}
    (hd : i.Ranks d)
    (hMeets : i.Meets start d)
    (h : i.begins start d = true) : i.reaches start d = true := by
  rcases FactIndex.reaches_begins_iff hTakes hd hMeets with
    ⟨hReaches, hBegins⟩
  exact hReaches.mpr (hBegins.mp h).ge

/-
  An index holds its facts in the order of their keys, which
  are compared by rank whatever the kinds of their values.
  Seeking components gives all facts from the first one on
  that has reached their key, and scanning them the longest
  run at its front of facts that begin with the key.
-/
theorem seek_scan_sorted
    (hDefined :
      ∀ d ∈ db.datoms, d.value.isUndefined = false)
    (hReferences :
      ∀ d ∈ db.datoms, db.isRef d.attr = true →
        d.value.int?.isSome = true)
    (hKey : db.componentKey i components = .ok start)
    (hMeets : ∀ d ∈ db.indexedFacts i, i.Meets start d) :
    ∃ facts, db.sortedFacts i = .ok facts
      ∧ facts.Perm (db.indexedFacts i)
      ∧ (∀ c ∈ facts, ∀ d ∈ facts,
        Value.compared .less
            (.tuple (i.keyOf c)) (.tuple (i.keyOf d))
          = .ok (decide (i.rankOf c < i.rankOf d)))
      ∧ facts.Pairwise (fun c d => i.rankOf c ≤ i.rankOf d)
      ∧ db.seek (.str i.name) components
        = .ok (facts.dropWhile (fun d => !i.reaches start d))
      ∧ db.scan (.str i.name) components
        = .ok
          ((facts.dropWhile
              (fun d => !i.reaches start d)).takeWhile
            (i.begins start)) := by
  have hIndexed := ranks_of_mem (i := i) hDefined hReferences
  rcases exists_sortedFacts_ascending hIndexed with
    ⟨facts, hFacts, hPerm, hUp⟩
  have hRanks : ∀ d ∈ facts, i.Ranks d :=
    fun d hd => hIndexed d (hPerm.mem_iff.mp hd)
  have hFactsMeet : ∀ d ∈ facts, i.Meets start d :=
    fun d hd => hMeets d (hPerm.mem_iff.mp hd)
  have hTakes := takes_of_componentKey hKey
  have hReached :
      facts.dropWhile (fun d => !i.reaches start d)
        = facts.filter (i.reaches start) := by
    rw [← filter_eq_dropWhile_of_falls
      (falls_reaches hTakes hRanks hFactsMeet hUp)]
    simp
  have hBegun :
      (facts.filter (i.reaches start)).takeWhile
          (i.begins start)
        = facts.filter (i.begins start) := by
    rw [← filter_eq_takeWhile_of_falls
      (falls_begins hTakes hRanks hFactsMeet hUp),
      List.filter_filter]
    refine List.filter_congr ?_
    intro d hd
    cases hBegins : i.begins start d with
    | false => rfl
    | true =>
        rw [reaches_of_begins hTakes (hRanks d hd)
          (hFactsMeet d hd) hBegins]
        rfl
  refine ⟨facts, hFacts, hPerm, ?_, hUp, ?_, ?_⟩
  · intro c hc d hd
    exact FactIndex.compared_keyOf (hRanks c hc) (hRanks d hd)
  · rw [hReached]
    exact seek_eq_filter hFacts hKey hFactsMeet
  · rw [hReached, hBegun]
    exact scan_eq_filter hFacts hKey

end Database

/-
  The members of a group, in the order of their ids, from a
  given one on.
-/
theorem Database.seek_scan_sorted_memberEngine :
    ∃ start facts,
      Engine.memberEngine.db.componentKey .avet
          [.str "group/member", .int Engine.memberId]
        = .ok start
      ∧ Engine.memberEngine.db.sortedFacts .avet = .ok facts
      ∧ facts.Pairwise
        (fun c d =>
          FactIndex.avet.rankOf c ≤ FactIndex.avet.rankOf d)
      ∧ Engine.memberEngine.db.seek (.str "avet")
          [.str "group/member", .int Engine.memberId]
        = .ok
          (facts.dropWhile
            (fun d => !FactIndex.avet.reaches start d))
      ∧ Engine.memberEngine.db.scan (.str "avet")
          [.str "group/member", .int Engine.memberId]
        = .ok
          ((facts.dropWhile
              (fun d => !FactIndex.avet.reaches start d)).takeWhile
            (FactIndex.avet.begins start)) := by
  have hDefined :
      ∀ d ∈ Engine.memberEngine.db.datoms,
        d.value.isUndefined = false := by
    decide +kernel
  have hReferences :
      ∀ d ∈ Engine.memberEngine.db.datoms,
        Engine.memberEngine.db.isRef d.attr = true →
          d.value.int?.isSome = true := by
    decide +kernel
  have hKnown :
      ∃ start,
        Engine.memberEngine.db.componentKey .avet
            [.str "group/member", .int Engine.memberId]
          = .ok start
        ∧ ∀ d ∈ Engine.memberEngine.db.indexedFacts .avet,
          ∃ b,
            Value.compared .atLeast
                (.tuple
                  ((FactIndex.avet.keyOf d).take start.length))
                (.tuple start)
              = .ok b := by
    decide +kernel
  rcases hKnown with ⟨start, hKey, hMeets⟩
  rcases seek_scan_sorted hDefined hReferences hKey hMeets with
    ⟨facts, hFacts, _, _, hUp, hSeek, hScan⟩
  exact ⟨start, facts, hKey, hFacts, hUp, hSeek, hScan⟩

end FactBase
