import Mathlib
import FactBase.Fact.TxForm
import FactBase.Proofs.Outcome

/-
  This file says which texts are keywords, by a grammar of
  their characters instead of a search through them.  What
  the grammar describes holds no white space.  A text is also
  taken for a keyword if a single line feed follows one.  All
  else is refused wherever an ident is asked for.

  Key definitions include:
    * `Text.isSpace`
    * `Keyword.Initial`
    * `Keyword.Constituent`
    * `Keyword.Part`
    * `Keyword.Form`
    * `TxForm.Refuses`

  Key theorems include:
    * `Text.isSpace_eq_false_of_isWordCharacter`
    * `Keyword.isSpelled_iff`
    * `Keyword.isKeyword_iff`
    * `TxForm.refuses_of_not_isKeyword`
    * `Keyword.accepts_exactly`
-/

------------------------------------------------------------
-- White Space
------------------------------------------------------------

namespace FactBase

open Sorting

namespace Text

/-
  The blanks of every script, and the controls that separate
  lines, fields and records.
-/
def spaceRanges : List (Nat × Nat) :=
  [ (0x09, 0x0D), (0x1C, 0x20), (0x85, 0x85), (0xA0, 0xA0)
  , (0x1680, 0x1680), (0x2000, 0x200A), (0x2028, 0x2029)
  , (0x202F, 0x202F), (0x205F, 0x205F), (0x3000, 0x3000) ]

/- White space, which all line breaks are. -/
def isSpace (c : Char) : Bool :=
  inRanges spaceRanges c.toNat

/- No range of word characters meets one of white space. -/
private theorem wordRanges_apart :
    ∀ r ∈ wordRanges, ∀ b ∈ spaceRanges,
      r.2 < b.1 ∨ b.2 < r.1 := by
  decide +kernel

/- Where an ASCII word character lies. -/
private theorem toNat_of_ascii
    {c : Char}
    (h : (c.isAlphanum || c == '_') = true) :
    (0x30 ≤ c.toNat ∧ c.toNat ≤ 0x39)
      ∨ (0x41 ≤ c.toNat ∧ c.toNat ≤ 0x5A)
      ∨ c.toNat = 0x5F
      ∨ (0x61 ≤ c.toNat ∧ c.toNat ≤ 0x7A) := by
  simp only [Char.isAlphanum, Char.isAlpha, Char.isUpper,
    Char.isLower, Char.isDigit, Bool.or_eq_true,
    Bool.and_eq_true, decide_eq_true_eq, beq_iff_eq,
    UInt32.le_iff_toNat_le] at h
  rcases h with ((hUpper | hLower) | hDigit) | rfl
  · exact .inr (.inl hUpper)
  · exact .inr (.inr (.inr hLower))
  · exact .inl hDigit
  · exact .inr (.inr (.inl rfl))

/- No word character is white space. -/
theorem isSpace_eq_false_of_isWordCharacter
    {c : Char}
    (h : isWordCharacter c = true) : isSpace c = false := by
  rw [Bool.eq_false_iff]
  intro hSpace
  rcases (inRanges_iff _ _).mp hSpace with
    ⟨b, hb, hFrom, hTo⟩
  unfold isWordCharacter at h
  split at h
  · have hWhere := toNat_of_ascii h
    simp only [spaceRanges, List.mem_cons, List.not_mem_nil,
      or_false] at hb
    rcases hb with rfl | rfl | rfl | rfl | rfl | rfl | rfl
      | rfl | rfl | rfl <;> dsimp only at hFrom hTo <;> omega
  · rcases (inRanges_iff _ _).mp h with ⟨r, hr, hLow, hHigh⟩
    rcases wordRanges_apart r hr b hb with hLess | hLess <;>
      omega

end Text

------------------------------------------------------------
-- The Grammar
------------------------------------------------------------

namespace Keyword

/- A part starts with a letter of ASCII or one of nine signs. -/
def Initial (c : Char) : Prop :=
  ('A' ≤ c ∧ c ≤ 'Z') ∨ ('a' ≤ c ∧ c ≤ 'z')
    ∨ c ∈ ['_', '*', '+', '!', '<', '>', '=', '.', '-']

/- It goes on with word characters and nine signs. -/
def Constituent (c : Char) : Prop :=
  Text.isWordCharacter c = true
    ∨ c ∈ ['*', '+', '!', '<', '>', '=', '.', '?', '-']

/- The characters of one part. -/
inductive Part : List Char → Prop where
  | mk
      {c : Char}
      {cs : List Char}
      (hFirst : Initial c)
      (hRest : ∀ x ∈ cs, Constituent x) : Part (c :: cs)

/- One part, or two parts joined by a slash. -/
inductive Form : List Char → Prop where
  | single
      {cs : List Char}
      (hPart : Part cs) : Form cs
  | joined
      {space name : List Char}
      (hSpace : Part space)
      (hName : Part name) : Form (space ++ '/' :: name)

variable {c : Char}
variable {cs : List Char}

/- What starts a part may also follow in it. -/
theorem Initial.constituent (h : Initial c) : Constituent c := by
  have hLetter :
      c.isAlpha = true → c.toNat < 0x80 → Constituent c := by
    intro hAlpha hAscii
    refine .inl (Text.isWordCharacter_of_isAlphanum ?_ hAscii)
    rw [Char.isAlphanum, hAlpha, Bool.true_or]
  rcases h with ⟨hFrom, hTo⟩ | ⟨hFrom, hTo⟩ | hSign
  · have hTop : c.toNat ≤ 0x5A := hTo
    refine hLetter ?_ (by omega)
    simp only [Char.isAlpha, Char.isUpper, Bool.or_eq_true,
      decide_eq_true_eq]
    exact .inl ⟨hFrom, hTo⟩
  · have hTop : c.toNat ≤ 0x7A := hTo
    refine hLetter ?_ (by omega)
    simp only [Char.isAlpha, Char.isLower, Bool.or_eq_true,
      Bool.and_eq_true, decide_eq_true_eq]
    exact .inr ⟨hFrom, hTo⟩
  · simp only [List.mem_cons, List.not_mem_nil, or_false]
      at hSign
    rcases hSign with rfl | rfl | rfl | rfl | rfl | rfl | rfl
      | rfl | rfl <;> (unfold Constituent; decide)

/- All characters of a part may follow in one. -/
theorem Part.constituents
    (h : Part cs) : ∀ c ∈ cs, Constituent c := by
  cases h with
  | mk hFirst hRest =>
      exact List.forall_mem_cons.mpr ⟨hFirst.constituent, hRest⟩

/- The slash is in no part. -/
theorem Constituent.ne_slash (h : Constituent c) : c ≠ '/' := by
  rintro rfl
  rcases h with hWord | hSign
  · exact absurd hWord (by decide)
  · exact absurd hSign (by decide)

/- White space is in no part. -/
theorem Constituent.not_isSpace
    (h : Constituent c) : Text.isSpace c = false := by
  rcases h with hWord | hSign
  · exact Text.isSpace_eq_false_of_isWordCharacter hWord
  · simp only [List.mem_cons, List.not_mem_nil, or_false]
      at hSign
    rcases hSign with rfl | rfl | rfl | rfl | rfl | rfl | rfl
      | rfl | rfl <;> decide

/- Nothing that has the form holds white space. -/
theorem Form.not_isSpace
    (h : Form cs) : ∀ c ∈ cs, Text.isSpace c = false := by
  cases h with
  | single hPart =>
      exact fun c hc => (hPart.constituents c hc).not_isSpace
  | joined hSpace hName =>
      rw [List.forall_mem_append, List.forall_mem_cons]
      exact
        ⟨fun c hc => (hSpace.constituents c hc).not_isSpace,
          by decide,
          fun c hc => (hName.constituents c hc).not_isSpace⟩

------------------------------------------------------------
-- The Search
------------------------------------------------------------

/- The first character is tested for what may start a part. -/
theorem isInitial_iff : isInitial c = true ↔ Initial c := by
  simp only [isInitial, Initial, signs, Char.isAlpha,
    Char.isUpper, Char.isLower, Bool.or_eq_true,
    Bool.and_eq_true, decide_eq_true_eq, beq_iff_eq,
    List.contains_iff_mem, List.mem_cons (a := c) (b := '_'),
    or_assoc]
  rfl

/- The others are tested for what may follow. -/
theorem isConstituent_iff :
    isConstituent c = true ↔ Constituent c := by
  simp [isConstituent, Constituent, signs]
  tauto

/- So parts are told from all else. -/
theorem isPart_iff : isPart cs = true ↔ Part cs := by
  cases cs with
  | nil =>
      refine iff_of_false Bool.false_ne_true ?_
      intro h
      cases h
  | cons c cs =>
      rw [isPart, Bool.and_eq_true, isInitial_iff,
        List.all_eq_true]
      simp only [isConstituent_iff]
      constructor
      · exact fun h => .mk h.1 h.2
      · intro h
        cases h with
        | mk hFirst hRest => exact ⟨hFirst, hRest⟩

/- No part goes past the slash. -/
theorem Part.ne_slash
    (h : Part cs) : ∀ c ∈ cs, (c != '/') = true :=
  fun c hc => bne_iff_ne.mpr (h.constituents c hc).ne_slash

/- The search for the slash accepts what has the form. -/
theorem isSpelled_of_form
    (h : Form cs) : isSpelled cs = true := by
  unfold isSpelled
  cases h with
  | single hPart =>
      rw [List.takeWhile_eq_self_iff.mpr hPart.ne_slash,
        List.dropWhile_eq_nil_iff.mpr hPart.ne_slash]
      exact isPart_iff.mpr hPart
  | @joined space name hSpace hName =>
      have hHead :
          (space ++ '/' :: name).takeWhile (· != '/')
            = space := by
        rw [List.takeWhile_append_of_pos hSpace.ne_slash]
        simp
      have hTail :
          (space ++ '/' :: name).dropWhile (· != '/')
            = '/' :: name := by
        rw [List.dropWhile_append_of_pos hSpace.ne_slash]
        rfl
      rw [hHead, hTail]
      exact
        Bool.and_eq_true_iff.mpr
          ⟨isPart_iff.mpr hSpace, isPart_iff.mpr hName⟩

/- What it accepts has the form: it stops at a slash only. -/
theorem form_of_isSpelled
    (h : isSpelled cs = true) : Form cs := by
  have hSplit :=
    List.takeWhile_append_dropWhile (p := (· != '/')) (l := cs)
  unfold isSpelled at h
  cases hRest : cs.dropWhile (· != '/') with
  | nil =>
      rw [hRest] at h hSplit
      rw [List.append_nil] at hSplit
      rw [← hSplit]
      exact .single (isPart_iff.mp h)
  | cons x tail =>
      have hSlash : x = '/' := by
        have hStop := List.head?_dropWhile_not (· != '/') cs
        rw [hRest] at hStop
        simpa using hStop
      rw [hRest] at h hSplit
      rcases Bool.and_eq_true_iff.mp h with ⟨hSpace, hName⟩
      rw [← hSplit, hSlash]
      exact
        .joined (isPart_iff.mp hSpace) (isPart_iff.mp hName)

/- The search accepts exactly what has the form. -/
theorem isSpelled_iff : isSpelled cs = true ↔ Form cs :=
  ⟨form_of_isSpelled, isSpelled_of_form⟩

------------------------------------------------------------
-- The Line Feed at the End
------------------------------------------------------------

/- A line feed at the very end is passed over. -/
theorem withoutFinalBreak_break (cs : List Char) :
    withoutFinalBreak (cs ++ ['\n']) = cs := by
  simp [withoutFinalBreak]

/- What has the form does not end in one. -/
theorem Form.withoutFinalBreak_eq
    (h : Form cs) : withoutFinalBreak cs = cs := by
  unfold withoutFinalBreak
  rw [if_neg]
  intro hBreak
  have hLast : '\n' ∈ cs :=
    List.mem_of_getLast? (beq_iff_eq.mp hBreak)
  exact absurd (h.not_isSpace _ hLast) (by decide)

/-
  A keyword is a text that has the form, or has it up to a
  line feed at the very end.
-/
theorem isKeyword_iff (s : String) :
    isKeyword s = true ↔
      ∃ cs, Form cs
        ∧ (s.toList = cs ∨ s.toList = cs ++ ['\n']) := by
  unfold isKeyword
  rw [isSpelled_iff]
  constructor
  · intro h
    refine ⟨_, h, ?_⟩
    unfold withoutFinalBreak
    split
    next hBreak =>
      rcases List.getLast?_eq_some_iff.mp
        (beq_iff_eq.mp hBreak) with ⟨cs, hEq⟩
      rw [hEq, List.dropLast_concat]
      exact .inr rfl
    next => exact .inl rfl
  · rintro ⟨cs, hForm, hEq | hEq⟩
    · rw [hEq, hForm.withoutFinalBreak_eq]
      exact hForm
    · rw [hEq, withoutFinalBreak_break]
      exact hForm

/- White space in a keyword is a line feed at its very end. -/
theorem eq_break_of_isSpace
    {s : String}
    (h : isKeyword s = true)
    {before after : List Char}
    (hSplit : s.toList = before ++ c :: after)
    (hSpace : Text.isSpace c = true) : c = '\n' ∧ after = [] := by
  rcases (isKeyword_iff s).mp h with ⟨cs, hForm, hEq | hEq⟩
  · have hMem : c ∈ cs := by
      rw [← hEq, hSplit]
      exact List.mem_append_right _ List.mem_cons_self
    rw [hForm.not_isSpace c hMem] at hSpace
    cases hSpace
  · rw [hSplit] at hEq
    rcases List.eq_nil_or_concat after with
      rfl | ⟨rest, d, rfl⟩
    · exact
        ⟨List.singleton_inj.mp
          (List.append_inj_right' hEq rfl), rfl⟩
    · have hFront : before ++ c :: rest = cs := by
        rw [List.concat_eq_append, ← List.cons_append,
          ← List.append_assoc] at hEq
        exact List.append_inj_left' hEq rfl
      have hMem : c ∈ cs := by
        rw [← hFront]
        exact List.mem_append_right _ List.mem_cons_self
      rw [hForm.not_isSpace c hMem] at hSpace
      cases hSpace

end Keyword

------------------------------------------------------------
-- Refusals
------------------------------------------------------------

/- What is wrong is an ident, or what one stands in. -/
def Fault.IsRefusal (fault : Fault) : Prop :=
  ∃ i, fault = .identifier i

/- The outcome is a refusal. -/
def Outcome.Refuses
    {α : Type}
    (outcome : Outcome α) : Prop :=
  ∃ fault, outcome = .error fault ∧ fault.IsRefusal

/- It is one however many ids were drawn before. -/
def Drawing.Refuses
    {α : Type}
    (d : Drawing α) : Prop :=
  ∀ n, Outcome.Refuses (d.run n).1

/-
  A text is refused wherever an ident is asked for: as a
  partition, as what names an attribute, an enumerated value
  or an entity, and as an attribute of one.
-/
structure TxForm.Refuses (s : String) : Prop where
  tempid : (TempId.draw (.str s)).Refuses
  schema :
    ∀ f : Schema.Fields,
      f.ident = .str s → (Schema.ofFields f).Refuses
  newPartition : (TxForm.newPartition (.str s)).Refuses
  newAttribute :
    ∀ valueType options,
      (TxForm.newAttribute (.str s) valueType options).Refuses
  newEnum : (TxForm.newEnum (.str s)).Refuses
  newEntity : ∀ attrs, (TxForm.newEntity (.str s) attrs).Refuses
  newEntityWith :
    ∀ partition entries v,
      (.str s, v) ∈ entries →
        (TxForm.newEntity (.map entries) .null).Refuses
          ∧ (TxForm.newEntity partition (.map entries)).Refuses
  entitySpec : (TxForm.entitySpec (.str s)).Refuses
  lookup :
    ∀ v,
      (TxForm.entitySpec (.tuple [.str s, v])).Refuses
        ∧ (TxForm.entitySpec (.list [.str s, v])).Refuses
  update : ∀ attrs, (TxForm.update (.str s) attrs).Refuses
  updateWith :
    ∀ spec entries v,
      (.str s, v) ∈ entries →
        (TxForm.update spec (.map entries)).Refuses
  addValue :
    ∀ spec attr v,
      (TxForm.addValue (.str s) attr v).Refuses
        ∧ (TxForm.addValue spec (.str s) v).Refuses
  retractValue :
    ∀ spec attr v,
      (TxForm.retractValue (.str s) attr v).Refuses
        ∧ (TxForm.retractValue spec (.str s) v).Refuses
  retractEntity : (TxForm.retractEntity (.str s)).Refuses

open Outcome (failsIn_ok failsIn_error)

section Steps

variable {α β : Type}

/- A fault of an ident refuses. -/
theorem Outcome.refuses_identifier (i : IdentifierFault) :
    Outcome.Refuses (.error (.identifier i) : Outcome α) :=
  ⟨_, rfl, i, rfl⟩

/- What comes after a refusal is refused. -/
theorem Outcome.Refuses.bind
    {x : Outcome α}
    (h : x.Refuses)
    (f : α → Outcome β) : (x >>= f).Refuses := by
  rcases h with ⟨fault, rfl, hRefusal⟩
  exact ⟨fault, rfl, hRefusal⟩

/- Where only refusals come before, a refusal comes. -/
theorem Outcome.Refuses.after
    {x : Outcome α}
    {f : α → Outcome β}
    (hFirst : Outcome.FailsIn Fault.IsRefusal x)
    (h : ∀ a, x = .ok a → (f a).Refuses) :
    (x >>= f).Refuses := by
  cases x with
  | ok a => exact h a rfl
  | error fault => exact ⟨fault, rfl, hFirst fault rfl⟩

/- Drawing goes on with the count that a draw leaves. -/
theorem Drawing.run_bind
    (d : Drawing α)
    (f : α → Drawing β)
    (n : Nat) :
    (d >>= f).run n =
      match d.run n with
      | (.ok a, m) => (f a).run m
      | (.error fault, m) => (.error fault, m) := by
  rw [ExceptT.run_bind]
  change StateT.bind d.run _ n = _
  unfold StateT.bind
  rcases d.run n with ⟨fault | a, m⟩ <;> rfl

/- Where only refusals come of a draw, a refusal comes. -/
theorem Drawing.Refuses.after
    {d : Drawing α}
    {f : α → Drawing β}
    (hFirst : ∀ n, Outcome.FailsIn Fault.IsRefusal (d.run n).1)
    (h : ∀ a, (f a).Refuses) : Drawing.Refuses (d >>= f) := by
  intro n
  rw [Drawing.run_bind]
  cases hRun : d.run n with
  | mk x m =>
      cases x with
      | ok a => exact h a m
      | error fault =>
          refine ⟨fault, rfl, hFirst n fault ?_⟩
          rw [hRun]

/- A refusal of an outcome is one of a draw. -/
theorem Outcome.Refuses.lift
    {x : Outcome α}
    (h : x.Refuses) : Drawing.Refuses (liftM x) := by
  rcases h with ⟨fault, rfl, hRefusal⟩
  exact fun n => ⟨fault, rfl, hRefusal⟩

/- An outcome that refuses only does so as a draw. -/
theorem Outcome.FailsIn.lift
    {P : Fault → Prop}
    {x : Outcome α}
    (h : Outcome.FailsIn P x)
    (n : Nat) :
    Outcome.FailsIn P
      ((liftM x : Drawing α).run n).1 := by
  cases x with
  | ok a => exact failsIn_ok a
  | error fault => exact failsIn_error (h fault rfl)

/- Nothing is drawn after a refusal. -/
theorem Drawing.Refuses.bind
    {d : Drawing α}
    (h : d.Refuses)
    (f : α → Drawing β) : Drawing.Refuses (d >>= f) := by
  intro n
  have hFirst := h n
  rw [Drawing.run_bind]
  cases hRun : d.run n with
  | mk x m =>
      rw [hRun] at hFirst
      rcases hFirst with ⟨fault, rfl, hRefusal⟩
      exact ⟨fault, rfl, hRefusal⟩

/- It stays one if the result was not wanted. -/
theorem Drawing.Refuses.discard
    {d : Drawing α}
    (h : d.Refuses) : Drawing.Refuses (Functor.discard d) :=
  h.bind _

end Steps

namespace TxForm

/- Asking for a keyword fails by refusing. -/
theorem failsIn_keyword
    (otherwise : Value → IdentifierFault)
    (v : Value) :
    Outcome.FailsIn Fault.IsRefusal (keyword otherwise v) := by
  unfold keyword
  split
  · exact failsIn_ok v
  · exact failsIn_error ⟨_, rfl⟩

/- So does asking for an entity specification. -/
theorem failsIn_entitySpec (spec : Value) :
    Outcome.FailsIn Fault.IsRefusal (entitySpec spec) := by
  unfold entitySpec
  split
  · exact failsIn_ok _
  · exact failsIn_ok _
  · split
    · exact failsIn_ok _
    · exact failsIn_error ⟨_, rfl⟩
  · split
    · split
      · exact failsIn_ok _
      · exact failsIn_error ⟨_, rfl⟩
    · exact failsIn_error ⟨_, rfl⟩

/- So does an option of an attribute. -/
theorem failsIn_applyOption
    (f : Schema.Fields)
    (v : Value) :
    Outcome.FailsIn Fault.IsRefusal (applyOption f v) := by
  unfold applyOption
  split
  · split
    · exact failsIn_ok _
    · split
      · exact failsIn_error ⟨_, rfl⟩
      · exact failsIn_ok _
  · exact failsIn_error ⟨_, rfl⟩

/- So does drawing an id in a partition. -/
theorem failsIn_draw
    (partition : Value)
    (n : Nat) :
    Outcome.FailsIn Fault.IsRefusal
      ((TempId.draw partition).run n).1 := by
  unfold TempId.draw
  split
  · split
    · exact failsIn_ok _
    · exact failsIn_error ⟨_, rfl⟩
  · exact failsIn_error ⟨_, rfl⟩

/- No option changes what an attribute is called. -/
theorem ident_of_applyOption
    {f g : Schema.Fields}
    {v : Value}
    (h : applyOption f v = .ok g) : g.ident = f.ident := by
  unfold applyOption at h
  split at h
  · split at h
    next hOption =>
      cases h
      unfold option? at hOption
      split at hOption <;> cases hOption <;> rfl
    next =>
      split at h <;> cases h
      rfl
  · cases h

section Refused

variable {s : String}

/- A text that is no keyword is not taken for one. -/
theorem refuses_keyword
    (h : Keyword.isKeyword s = false)
    (otherwise : Value → IdentifierFault) :
    (keyword otherwise (.str s)).Refuses := by
  rw [keyword, Value.isKeyword, h]
  exact Outcome.refuses_identifier _

/- Nor is a map that has it for an attribute. -/
theorem refuses_attributeMap
    (h : Keyword.isKeyword s = false)
    {entries : List (Value × Value)}
    {v : Value}
    (hMem : (.str s, v) ∈ entries) :
    (attributeMap (.map entries)).Refuses := by
  refine Outcome.Refuses.bind ?_ _
  induction entries with
  | nil => cases hMem
  | cons e entries ih =>
      change
        Outcome.Refuses
          (discard (keyword .attribute e.1) >>= fun _ =>
            entries.forM _)
      rcases List.mem_cons.mp hMem with rfl | hMem
      · exact ((refuses_keyword h _).bind _).bind _
      · refine Outcome.Refuses.after ?_ (fun _ _ => ih hMem)
        exact
          (failsIn_keyword _ _).bind (fun _ _ => failsIn_ok _)

/- Neither such a text nor a lookup by it says which entity. -/
theorem refuses_entitySpec
    (h : Keyword.isKeyword s = false)
    (v : Value) :
    (entitySpec (.str s)).Refuses
      ∧ (entitySpec (.tuple [.str s, v])).Refuses
      ∧ (entitySpec (.list [.str s, v])).Refuses := by
  simp only [entitySpec, Value.isKeyword, Value.sequence?, h]
  exact
    ⟨Outcome.refuses_identifier _,
      Outcome.refuses_identifier _,
      Outcome.refuses_identifier _⟩

/- It names no definition. -/
theorem refuses_ofFields
    (h : Keyword.isKeyword s = false)
    {f : Schema.Fields}
    (hIdent : f.ident = .str s) :
    (Schema.ofFields f).Refuses := by
  rw [Schema.ofFields, hIdent, Schema.soughtIdent, h]
  exact (Outcome.refuses_identifier _).bind _

/- It names no attribute, whatever the options are. -/
theorem refuses_newAttribute
    (h : Keyword.isKeyword s = false)
    (valueType : Value)
    (options : List Value) :
    (newAttribute (.str s) valueType options).Refuses := by
  unfold newAttribute
  dsimp only
  cases hFold : options.foldlM applyOption _ with
  | ok f =>
      have hIdent : f.ident = .str s :=
        Outcome.foldlM_invariant (fun f => f.ident = .str s)
          (fun _ _ _ _ hStep hSoFar =>
            (ident_of_applyOption hStep).trans hSoFar)
          hFold rfl
      exact (refuses_ofFields h hIdent).lift.bind _
  | error fault =>
      have hRefusal : fault.IsRefusal :=
        Outcome.failsIn_foldlM
          (fun v _ f => failsIn_applyOption f v) _ fault hFold
      exact (Outcome.Refuses.lift ⟨fault, rfl, hRefusal⟩).bind _

/- No id is drawn in a partition of that name. -/
theorem refuses_draw
    (h : Keyword.isKeyword s = false) :
    (TempId.draw (.str s)).Refuses := by
  intro n
  rw [TempId.draw, h]
  exact Outcome.refuses_identifier _

/- Nor an entity put there. -/
theorem refuses_newEntityIn
    (h : Keyword.isKeyword s = false)
    (attrs : Value) :
    (newEntityIn (.str s) attrs).Refuses :=
  (refuses_draw h).bind _

/- What a map of such an attribute describes is not new. -/
theorem refuses_newEntityIn_map
    (h : Keyword.isKeyword s = false)
    (partition : Value)
    {entries : List (Value × Value)}
    {v : Value}
    (hMem : (.str s, v) ∈ entries) :
    (newEntityIn partition (.map entries)).Refuses := by
  unfold newEntityIn
  split
  · refine Drawing.Refuses.after (failsIn_draw _) fun id => ?_
    exact (refuses_attributeMap h hMem).lift.bind _
  · intro n
    exact Outcome.refuses_identifier _

/- Neither is a fact on it, nor one by it as an attribute. -/
theorem refuses_onFact
    (h : Keyword.isKeyword s = false)
    (op : String)
    (spec attr v : Value) :
    (onFact op (.str s) attr v).Refuses
      ∧ (onFact op spec (.str s) v).Refuses := by
  constructor
  · exact (refuses_entitySpec h v).1.bind _
  · refine .after (failsIn_entitySpec spec) fun _ _ => ?_
    exact (refuses_keyword h _).bind _

/- A text is no map of attributes. -/
theorem refuses_newEntity
    (h : Keyword.isKeyword s = false)
    (attrs : Value) :
    (newEntity (.str s) attrs).Refuses := by
  unfold newEntity
  split
  · refine Drawing.Refuses.after (failsIn_draw _) fun id => ?_
    exact (Outcome.refuses_identifier .notMap).lift.bind _
  · exact refuses_newEntityIn h attrs

/- A text that is no keyword is refused everywhere. -/
theorem refuses_of_not_isKeyword
    (h : Keyword.isKeyword s = false) : Refuses s where
  tempid := refuses_draw h
  schema := fun _ hIdent => refuses_ofFields h hIdent
  newPartition := (refuses_keyword h _).lift.discard.bind _
  newAttribute := refuses_newAttribute h
  newEnum := (refuses_keyword h _).lift.discard.bind _
  newEntity := refuses_newEntity h
  newEntityWith := by
    intro partition entries v hMem
    refine ⟨refuses_newEntityIn_map h _ hMem, ?_⟩
    exact refuses_newEntityIn_map h partition hMem
  entitySpec := (refuses_entitySpec h .null).1
  lookup := fun v => (refuses_entitySpec h v).2
  update := fun _ => (refuses_entitySpec h .null).1.bind _
  updateWith := by
    intro spec entries v hMem
    refine .after (failsIn_entitySpec spec) fun _ _ => ?_
    exact (refuses_attributeMap h hMem).bind _
  addValue := refuses_onFact h "db/add"
  retractValue := refuses_onFact h "db/retract"
  retractEntity := (refuses_entitySpec h .null).1.bind _

/- Only such a text is. -/
theorem Refuses.not_isKeyword
    (h : Refuses s) : Keyword.isKeyword s = false := by
  rw [Bool.eq_false_iff]
  intro hKeyword
  rcases h.entitySpec with ⟨fault, hEq, -⟩
  simp only [TxForm.entitySpec, Value.isKeyword, hKeyword,
    if_true] at hEq
  cases hEq

end Refused

end TxForm

/-
  A keyword is a text of the form of keywords, or one with a
  single line feed after it.  So white space is in no keyword,
  but for that line feed, and the texts that are refused as
  idents are those that are no keywords.
-/
theorem Keyword.accepts_exactly (s : String) :
    (Keyword.isKeyword s = true ↔
        ∃ cs, Form cs
          ∧ (s.toList = cs ∨ s.toList = cs ++ ['\n']))
      ∧ (∀ before c after,
          Keyword.isKeyword s = true →
            s.toList = before ++ c :: after →
              Text.isSpace c = true → c = '\n' ∧ after = [])
      ∧ (TxForm.Refuses s ↔ Keyword.isKeyword s = false) := by
  refine ⟨isKeyword_iff s, ?_, ?_⟩
  · intro before c after hKeyword hSplit hSpace
    exact eq_break_of_isSpace hKeyword hSplit hSpace
  · exact
      ⟨TxForm.Refuses.not_isKeyword,
        TxForm.refuses_of_not_isKeyword⟩

/- The line feed is let through, though it is white space. -/
example : Keyword.isKeyword "user/x\n" = true := by
  decide

end FactBase
