import Mathlib.Data.List.Induction
import Mathlib.Data.List.TakeWhile
import FactBase.Attribute.Registry
import FactBase.Proofs.Outcome

/-
  This file says what a registry finds, by the definitions
  that were registered.  A name stands for its forward
  reading, and what is found is the last definition of that
  ident.  A definition whose own ident is spelled in reverse
  is not found under its ident, but under the reverse
  spelling of it.

  Key definitions include:
    * `Keyword.Reverses`
    * `Registry.LastUnder`
    * `Registry.Finds`

  Key theorems include:
    * `Keyword.forward_eq_iff`
    * `Registry.get?_ofSchemas`
    * `Registry.declares_ofSchemas`
    * `Registry.finds_of_forward`
    * `Registry.finds_registered`
-/

------------------------------------------------------------
-- Reverse Spellings
------------------------------------------------------------

namespace FactBase

namespace Keyword

/-
  The name is the reverse spelling of the ident: it has an
  underscore after the first slash.
-/
def Reverses (name ident : String) : Prop :=
  ∃ space rest : List Char,
    '/' ∉ space
      ∧ name.toList = space ++ '/' :: '_' :: rest
      ∧ ident.toList = space ++ '/' :: rest

variable {name ident : String}

/- What comes before the first slash, and from it on. -/
theorem split_at_slash
    {space : List Char}
    (h : '/' ∉ space)
    (rest : List Char) :
    (space ++ '/' :: rest).takeWhile (· != '/') = space
      ∧ (space ++ '/' :: rest).dropWhile (· != '/')
        = '/' :: rest := by
  have hNone : ∀ c ∈ space, (c != '/') = true :=
    fun c hc => bne_iff_ne.mpr (fun hEq => h (hEq ▸ hc))
  constructor
  · rw [List.takeWhile_append_of_pos hNone,
      List.takeWhile_cons_of_neg (by decide), List.append_nil]
  · rw [List.dropWhile_append_of_pos hNone,
      List.dropWhile_cons_of_neg (by decide)]

/- A reverse spelling is read forward as what it reverses. -/
theorem Reverses.forward
    (h : Reverses name ident) : forward name = ident := by
  rcases h with ⟨space, rest, hSpace, hName, hIdent⟩
  rcases split_at_slash hSpace ('_' :: rest) with
    ⟨hTake, hDrop⟩
  simp only [Keyword.forward, hName, hDrop, hTake]
  rw [← hIdent, String.ofList_toList]

/- With an underscore after the slash it is reverse. -/
theorem reverses_of_dropWhile
    {rest : List Char}
    (h :
      name.toList.dropWhile (· != '/') = '/' :: '_' :: rest) :
    Reverses name
      (String.ofList
        (name.toList.takeWhile (· != '/') ++ '/' :: rest)) := by
  refine
    ⟨name.toList.takeWhile (· != '/'), rest, ?_, ?_,
      String.toList_ofList⟩
  · intro hMem
    exact absurd (List.mem_takeWhile_imp hMem) (by decide)
  · rw [← h, List.takeWhile_append_dropWhile]

/- All else is read as it is. -/
theorem forward_eq_self
    (h : ∀ j, ¬Reverses name j) : forward name = name := by
  unfold forward
  dsimp only
  split
  next rest hDrop =>
    exact absurd (reverses_of_dropWhile hDrop) (h _)
  next => rfl

/- So a name stands for what it reverses, or for itself. -/
theorem forward_eq_iff :
    forward name = ident ↔
      Reverses name ident
        ∨ (name = ident ∧ ∀ j, ¬Reverses name j) := by
  constructor
  · rintro rfl
    by_cases hReverses : ∃ j, Reverses name j
    · rcases hReverses with ⟨j, hj⟩
      exact .inl (hj.forward ▸ hj)
    · rw [not_exists] at hReverses
      exact .inr ⟨(forward_eq_self hReverses).symm, hReverses⟩
  · rintro (hReverses | ⟨rfl, hNot⟩)
    · exact hReverses.forward
    · exact forward_eq_self hNot

end Keyword

------------------------------------------------------------
-- Registered Definitions
------------------------------------------------------------

namespace Registry

open Keyword (Reverses)

variable {ss : List Schema}
variable {s t : Schema}
variable {name : String}

/- The definition is the last one that has the ident. -/
def LastUnder
    (ss : List Schema)
    (ident : String)
    (s : Schema) : Prop :=
  ∃ before later : List Schema,
    ss = before ++ s :: later
      ∧ s.ident = ident
      ∧ ∀ t ∈ later, t.ident ≠ ident

/- One more definition is the last, or changes nothing. -/
theorem lastUnder_append_iff :
    LastUnder (ss ++ [t]) name s ↔
      (t.ident = name ∧ t = s)
        ∨ (t.ident ≠ name ∧ LastUnder ss name s) := by
  constructor
  · rintro ⟨before, later, hEq, hIdent, hLast⟩
    rcases List.eq_nil_or_concat later with
      rfl | ⟨later, u, rfl⟩
    · rcases List.append_inj' hEq rfl with ⟨-, hLast⟩
      cases hLast
      exact .inl ⟨hIdent, rfl⟩
    · have hSplit :
          ss ++ [t] = (before ++ s :: later) ++ [u] := by
        rw [hEq, List.concat_eq_append, List.append_assoc,
          List.cons_append]
      rcases List.append_inj' hSplit rfl with ⟨rfl, hEnd⟩
      cases hEnd
      rw [List.concat_eq_append, List.forall_mem_append] at hLast
      exact
        .inr ⟨hLast.2 t List.mem_cons_self,
          before, later, rfl, hIdent, hLast.1⟩
  · rintro
      (⟨hIdent, rfl⟩
        | ⟨hNe, before, later, rfl, hIdent, hLast⟩)
    · exact ⟨ss, [], rfl, hIdent, by simp⟩
    · refine ⟨before, later ++ [t], ?_, hIdent, ?_⟩
      · simp
      · rw [List.forall_mem_append]
        exact ⟨hLast, by simpa using hNe⟩

/- A definition is not found under another name. -/
theorem lookup_place_of_ne
    {α : Type}
    {other : String}
    (h : other ≠ name)
    (x : α)
    (entries : List (String × α)) :
    (place name x entries).lookup other
      = entries.lookup other := by
  induction entries with
  | nil => rw [place, List.lookup_cons, beq_eq_false_iff_ne.mpr h]
  | cons e rest ih =>
      rcases e with ⟨n, y⟩
      rw [place]
      split
      next hName =>
        rw [List.lookup_cons, List.lookup_cons,
          beq_iff_eq.mp hName, beq_eq_false_iff_ne.mpr h]
      next => rw [List.lookup_cons, List.lookup_cons, ih]

/- What is registered last is placed last. -/
theorem ofSchemas_append
    (ss : List Schema)
    (s : Schema) :
    ofSchemas (ss ++ [s]) = (ofSchemas ss).register s := by
  rw [ofSchemas, List.foldl_append]
  rfl

/- An entry is the last definition of its name. -/
theorem lookup_ofSchemas
    (ss : List Schema)
    (name : String)
    (s : Schema) :
    (ofSchemas ss).entries.lookup name = some s ↔
      LastUnder ss name s := by
  induction ss using List.reverseRecOn with
  | nil =>
      refine iff_of_false (by simp [ofSchemas, empty]) ?_
      rintro ⟨before, later, hEq, -⟩
      simp at hEq
  | append_singleton ss t ih =>
      rw [ofSchemas_append, register, lastUnder_append_iff, ← ih]
      by_cases hIdent : t.ident = name
      · subst hIdent
        simp [lookup_place]
      · rw [lookup_place_of_ne (Ne.symm hIdent)]
        simp [hIdent]

/- What is found is the last definition that is meant. -/
theorem get?_ofSchemas :
    (ofSchemas ss).get? name = some s ↔
      LastUnder ss (Keyword.forward name) s :=
  lookup_ofSchemas ss _ s

/- There is a last one if there is any. -/
theorem exists_lastUnder_iff :
    (∃ s, LastUnder ss name s) ↔
      name ∈ ss.map SchemaOf.ident := by
  induction ss using List.reverseRecOn with
  | nil =>
      refine iff_of_false ?_ (by simp)
      rintro ⟨s, before, later, hEq, -⟩
      simp at hEq
  | append_singleton ss t ih =>
      simp only [lastUnder_append_iff, List.map_append,
        List.mem_append, ← ih]
      by_cases hIdent : t.ident = name
      · simp [hIdent]
      · simp [hIdent, Ne.symm hIdent]

/-
  A name is declared if it lies in a namespace of its own
  accord, or if what it means was registered.
-/
theorem declares_ofSchemas :
    (ofSchemas ss).declares name = true ↔
      (∃ space ∈ Keyword.builtinNamespaces,
          Keyword.namespace? name = some space)
        ∨ Keyword.forward name ∈ ss.map SchemaOf.ident := by
  rw [declares, Bool.or_eq_true, Option.isSome_iff_exists,
    ← exists_lastUnder_iff]
  simp only [get?_ofSchemas, Option.any_eq_true,
    List.contains_iff_mem]
  refine or_congr_left ?_
  exact exists_congr fun _ => and_comm

------------------------------------------------------------
-- Look-Up by Value
------------------------------------------------------------

/- Definitions are registered one after the other. -/
theorem ofValues_schemas (ss : List Schema) :
    ofValues (ss.map .schema) = .ok (ofSchemas ss) := by
  unfold ofValues ofSchemas
  generalize empty = r
  induction ss generalizing r with
  | nil => rfl
  | cons s ss ih =>
      rw [List.map_cons, List.foldlM_cons, List.foldl_cons]
      exact ih (r.register s)

/- A text is declared as what it names. -/
@[simp]
theorem declaresValue_str
    (r : Registry)
    (name : String) :
    r.declaresValue (.str name) = .ok (r.declares name) := rfl

/- Of texts it is always said which are not declared. -/
theorem undeclaredValues_texts
    (r : Registry)
    (idents : List String) :
    r.undeclaredValues (idents.map .str)
      = .ok ((r.undeclared idents).map .str) := by
  let missing : Value → Bool :=
    fun v => !v.str?.any r.declares
  have hTest :
      ∀ v ∈ idents.map Value.str,
        (do return !(← r.declaresValue v)) = .ok (missing v) := by
    rw [List.forall_mem_map]
    exact fun _ _ => rfl
  rw [undeclaredValues, Outcome.filterM_eq_ok hTest,
    List.filter_map]
  rfl

/-
  The definition is found under the name, which is declared,
  and missing from every list of what is not.
-/
structure Finds
    (r : Registry)
    (name : String)
    (s : Schema) : Prop where
  got : r.getValue? (.str name) = .ok (some s)
  declared : r.declaresValue (.str name) = .ok true
  omitted :
    ∀ vs kept,
      r.undeclaredValues vs = .ok kept → .str name ∉ kept

/- A name finds the last definition that is meant. -/
theorem finds_of_forward
    {ident : String}
    (hName : Keyword.forward name = ident)
    (hLast : LastUnder ss ident s) :
    (ofSchemas ss).Finds name s := by
  subst hName
  have hGot : (ofSchemas ss).get? name = some s :=
    get?_ofSchemas.mpr hLast
  have hDeclared : (ofSchemas ss).declares name = true := by
    rw [declares, hGot]
    exact Bool.or_true _
  have hValue :
      (ofSchemas ss).declaresValue (.str name) = .ok true := by
    rw [declaresValue_str, hDeclared]
  refine ⟨congrArg Except.ok hGot, hValue, ?_⟩
  intro vs kept hKept hMem
  rw [(Outcome.eq_filter_of_filterM hKept).1,
    List.mem_filter, hValue] at hMem
  exact absurd hMem.2 (by decide)

/-
  Whatever definitions are registered, one after the other:
  the last one of an ident is found under the reverse
  spelling of this ident, and under the ident itself if this
  is no reverse spelling.  If it is one, it finds instead what
  was registered under the ident that it reverses.
-/
theorem finds_registered (ss : List Schema) :
    ∃ r : Registry,
      ofValues (ss.map .schema) = .ok r
        ∧ (∀ idents : List String,
          ∃ kept,
            r.undeclaredValues (idents.map .str) = .ok kept)
        ∧ ∀ ident ∈ ss.map SchemaOf.ident,
          ∃ s, LastUnder ss ident s
            ∧ (∀ name, Reverses name ident → r.Finds name s)
            ∧ ((∀ j, ¬Reverses ident j) → r.Finds ident s)
            ∧ ∀ j, Reverses ident j →
              ∃ found : Option Schema,
                r.getValue? (.str ident) = .ok found
                  ∧ (∀ t, found = some t ↔ LastUnder ss j t)
                  ∧ (r.declaresValue (.str ident) = .ok true ↔
                    (∃ space ∈ Keyword.builtinNamespaces,
                        Keyword.namespace? ident = some space)
                      ∨ j ∈ ss.map SchemaOf.ident) := by
  refine
    ⟨ofSchemas ss, ofValues_schemas ss, fun idents => ?_,
      fun ident hIdent => ?_⟩
  · exact ⟨_, undeclaredValues_texts _ idents⟩
  · rcases exists_lastUnder_iff.mpr hIdent with ⟨s, hLast⟩
    refine ⟨s, hLast, fun name hName => ?_, fun hNot => ?_,
      fun j hj => ⟨_, rfl, fun t => ?_, ?_⟩⟩
    · have hForward := Keyword.forward_eq_iff.mpr (.inl hName)
      exact finds_of_forward hForward hLast
    · have hForward :=
        Keyword.forward_eq_iff.mpr (.inr ⟨rfl, hNot⟩)
      exact finds_of_forward hForward hLast
    · rw [← hj.forward]
      exact get?_ofSchemas
    · rw [declaresValue_str, Except.ok.injEq, ← hj.forward]
      exact declares_ofSchemas

/- A definition alone is lost under a reverse spelling. -/
example :
    let s : Schema :=
      { ident := "user/_x"
        valueType := .string
        cardinality := .one
        unique := none
        index := .bool true
        fulltext := .bool false
        component := .bool false
        noHistory := .bool false
        doc := none }
    ((ofSchemas [s]).get? "user/_x").isSome = false := by
  decide

end Registry

end FactBase
