import FactBase.Value.Table

/-
  This file describes tables whose keys are texts, each of
  which occurs once: what is found in them, and what putting
  and erasing entries does to them.  Of entries that are put
  in one after the other, those survive whose keys do not come
  again.

  Key definitions include:
    * `Table.OfTexts`
    * `Table.surviving`

  Key theorems include:
    * `Table.OfTexts.find?_eq_some_iff`
    * `Table.OfTexts.mem_put_iff`
    * `Table.OfTexts.mem_erase_iff`
    * `Table.OfTexts.putAll_eq_append`
    * `Table.OfTexts.mem_putAll_iff`
-/

------------------------------------------------------------
-- Tables of Texts
------------------------------------------------------------

namespace FactBase

namespace Table

variable {α : Type}

/- Two texts are the same only if they are equal. -/
theorem same_str (s t : String) :
    (Value.str s).same (.str t) = (s == t) := by
  rw [Value.same]

/- What is put under a key that is not there goes to the end. -/
theorem put_of_find?_eq_none
    {key : Value}
    {table : List (Value × α)}
    (h : find? key table = none)
    (x : α) :
    put key x table = table ++ [(key, x)] := by
  induction table with
  | nil => rfl
  | cons e rest ih =>
      rcases e with ⟨k, y⟩
      by_cases hk : k.same key = true
      · simp [find?, hk] at h
      · rw [find?, if_neg hk] at h
        rw [put, if_neg hk, ih h, List.cons_append]

/- A key is looked up in one table, and then in the next. -/
theorem find?_append
    (key : Value)
    (table rest : List (Value × α)) :
    find? key (table ++ rest)
      = (find? key table).or (find? key rest) := by
  induction table with
  | nil => rfl
  | cons e table ih =>
      rcases e with ⟨k, x⟩
      rw [List.cons_append, find?, find?]
      split
      · rfl
      · exact ih

/- Entries with new keys can be put in one by one. -/
theorem putAll_eq_append
    {table entries : List (Value × α)}
    (hNew : ∀ e ∈ entries, find? e.1 table = none)
    (hApart :
      entries.Pairwise (fun a b => a.1.same b.1 = false)) :
    putAll entries table = table ++ entries := by
  induction entries generalizing table with
  | nil => exact (List.append_nil table).symm
  | cons e rest ih =>
      rw [List.forall_mem_cons] at hNew
      rcases List.pairwise_cons.mp hApart with
        ⟨hOther, hRest⟩
      change putAll rest (put e.1 e.2 table) = _
      rw [put_of_find?_eq_none hNew.1, ih ?_ hRest]
      · simp
      · intro b hb
        rw [find?_append, hNew.2 b hb, find?,
          if_neg (by simp [hOther b hb])]
        rfl

/- The keys of a table are texts, and none occurs twice. -/
structure OfTexts (table : List (Value × α)) : Prop where
  texts : ∀ entry ∈ table, ∃ s, entry.1 = .str s
  distinct : table.Pairwise (fun a b => a.1 ≠ b.1)

namespace OfTexts

variable {k : Value}
variable {x : α}
variable {rest table : List (Value × α)}
variable {s : String}

/- The rest of such a table is one without the first key. -/
theorem cons_iff :
    OfTexts ((k, x) :: rest) ↔
      (∃ s, k = .str s) ∧ (∀ b ∈ rest, b.1 ≠ k)
        ∧ OfTexts rest := by
  constructor
  · rintro ⟨hTexts, hDistinct⟩
    rw [List.forall_mem_cons] at hTexts
    rw [List.pairwise_cons] at hDistinct
    exact
      ⟨hTexts.1, fun b hb => (hDistinct.1 b hb).symm,
        hTexts.2, hDistinct.2⟩
  · rintro ⟨hText, hOther, hTexts, hDistinct⟩
    exact
      ⟨List.forall_mem_cons.mpr ⟨hText, hTexts⟩,
        List.pairwise_cons.mpr
          ⟨fun b hb => (hOther b hb).symm, hDistinct⟩⟩

/- What is found under a text is its entry. -/
theorem find?_eq_some_iff
    (h : OfTexts table) :
    find? (.str s) table = some x
      ↔ (Value.str s, x) ∈ table := by
  induction table with
  | nil => simp [find?]
  | cons e rest ih =>
      rcases e with ⟨k, y⟩
      rcases cons_iff.mp h with ⟨⟨t, rfl⟩, hOther, hRest⟩
      rw [find?, same_str, List.mem_cons]
      by_cases hts : t = s
      · subst hts
        have hNot : (Value.str t, x) ∉ rest :=
          fun hMem => hOther _ hMem rfl
        simp [hNot, eq_comm]
      · have hst : ¬s = t := fun h => hts h.symm
        simp [hts, hst, ih hRest]

/- Putting an entry replaces the one under its text. -/
theorem mem_put_iff
    (h : OfTexts table)
    {entry : Value × α} :
    entry ∈ put (.str s) x table
      ↔ entry = (.str s, x)
        ∨ (entry ∈ table ∧ entry.1 ≠ .str s) := by
  induction table with
  | nil => simp [put]
  | cons e rest ih =>
      rcases e with ⟨k, y⟩
      rcases cons_iff.mp h with ⟨⟨t, rfl⟩, hOther, hRest⟩
      rw [put, same_str]
      by_cases hts : t = s
      · subst hts
        simp only [beq_self_eq_true, if_true, List.mem_cons]
        constructor
        · rintro (hEq | hMem)
          · exact .inl hEq
          · exact .inr ⟨.inr hMem, hOther entry hMem⟩
        · rintro (hEq | ⟨rfl | hMem, hNot⟩)
          · exact .inl hEq
          · exact absurd rfl hNot
          · exact .inr hMem
      · simp only [beq_iff_eq, hts, if_false, List.mem_cons,
          ih hRest]
        constructor
        · rintro (rfl | hEq | ⟨hMem, hNot⟩)
          · exact .inr ⟨.inl rfl, by simp [hts]⟩
          · exact .inl hEq
          · exact .inr ⟨.inr hMem, hNot⟩
        · rintro (hEq | ⟨rfl | hMem, hNot⟩)
          · exact .inr (.inl hEq)
          · exact .inl rfl
          · exact .inr (.inr ⟨hMem, hNot⟩)

/- Erasing takes the entry under the text out. -/
theorem mem_erase_iff
    (h : OfTexts table)
    {entry : Value × α} :
    entry ∈ erase (.str s) table
      ↔ entry ∈ table ∧ entry.1 ≠ .str s := by
  induction table with
  | nil => simp [erase]
  | cons e rest ih =>
      rcases e with ⟨k, y⟩
      rcases cons_iff.mp h with ⟨⟨t, rfl⟩, hOther, hRest⟩
      rw [erase, same_str]
      by_cases hts : t = s
      · subst hts
        simp only [beq_self_eq_true, if_true, List.mem_cons]
        constructor
        · exact fun hMem => ⟨.inr hMem, hOther entry hMem⟩
        · rintro ⟨rfl | hMem, hNot⟩
          · exact absurd rfl hNot
          · exact hMem
      · simp only [beq_iff_eq, hts, if_false, List.mem_cons,
          ih hRest]
        constructor
        · rintro (rfl | ⟨hMem, hNot⟩)
          · exact ⟨.inl rfl, by simp [hts]⟩
          · exact ⟨.inr hMem, hNot⟩
        · rintro ⟨rfl | hMem, hNot⟩
          · exact .inl rfl
          · exact .inr ⟨hMem, hNot⟩

/- A table without entries has no keys to repeat. -/
theorem nil : OfTexts ([] : List (Value × α)) :=
  ⟨nofun, .nil⟩

/- Putting under a text keeps a table one of texts. -/
theorem put
    (h : OfTexts table)
    (s : String)
    (x : α) : OfTexts (put (.str s) x table) := by
  induction table with
  | nil =>
      exact
        cons_iff.mpr
          ⟨⟨s, rfl⟩, by simp, nil⟩
  | cons e rest ih =>
      rcases e with ⟨k, y⟩
      rcases cons_iff.mp h with ⟨⟨t, rfl⟩, hOther, hRest⟩
      rw [Table.put, same_str]
      by_cases hts : t = s
      · rw [if_pos (beq_iff_eq.mpr hts)]
        exact cons_iff.mpr ⟨⟨t, rfl⟩, hOther, hRest⟩
      · rw [if_neg (by simpa using hts)]
        refine cons_iff.mpr ⟨⟨t, rfl⟩, ?_, ih hRest⟩
        intro b hb
        rcases (mem_put_iff hRest).mp hb with rfl | ⟨hMem, _⟩
        · simpa [eq_comm] using hts
        · exact hOther b hMem

/- So does erasing. -/
theorem erase
    (h : OfTexts table)
    (s : String) : OfTexts (erase (.str s) table) := by
  induction table with
  | nil => exact h
  | cons e rest ih =>
      rcases e with ⟨k, y⟩
      rcases cons_iff.mp h with ⟨⟨t, rfl⟩, hOther, hRest⟩
      rw [Table.erase]
      split
      · exact hRest
      · refine cons_iff.mpr ⟨⟨t, rfl⟩, ?_, ih hRest⟩
        intro b hb
        exact hOther b ((mem_erase_iff hRest).mp hb).1

end OfTexts

------------------------------------------------------------
-- Surviving Entries
------------------------------------------------------------

/- The entries whose keys do not come again. -/
def surviving :
    List (Value × α) → List (Value × α)
  | [] => []
  | e :: rest =>
      if rest.any (fun b => b.1.same e.1) then surviving rest
      else e :: surviving rest

/- The entries that survive are some of the entries. -/
theorem surviving_sublist (entries : List (Value × α)) :
    (surviving entries).Sublist entries := by
  induction entries with
  | nil => exact List.Sublist.refl _
  | cons e rest ih =>
      rw [surviving]
      split
      · exact ih.cons e
      · exact ih.cons_cons e

/- Putting all entries keeps a table one of texts. -/
theorem OfTexts.putAll
    {table entries : List (Value × α)}
    (h : OfTexts table)
    (hEntries : ∀ e ∈ entries, ∃ s, e.1 = .str s) :
    OfTexts (Table.putAll entries table) := by
  induction entries generalizing table with
  | nil => exact h
  | cons e rest ih =>
      rcases e with ⟨k, x⟩
      rcases List.forall_mem_cons.mp hEntries with
        ⟨⟨s, rfl⟩, hRest⟩
      exact ih (h.put s x) hRest

/- Entries of a table of texts can be put in one by one. -/
theorem OfTexts.putAll_eq_append
    {table entries : List (Value × α)}
    (h : OfTexts (table ++ entries)) :
    Table.putAll entries table = table ++ entries := by
  rcases List.pairwise_append.mp h.distinct with
    ⟨hStart, hRest, hOther⟩
  have hTable : OfTexts table :=
    ⟨fun b hb => h.texts b (List.mem_append_left _ hb), hStart⟩
  refine Table.putAll_eq_append ?_ ?_
  · intro e he
    rcases h.texts e (List.mem_append_right _ he) with ⟨s, hKey⟩
    rw [hKey, Option.eq_none_iff_forall_ne_some]
    intro y hFound
    refine hOther _ (hTable.find?_eq_some_iff.mp hFound) e he ?_
    exact hKey.symm
  · refine hRest.imp_of_mem ?_
    intro a b ha hb hDiffer
    rcases h.texts a (List.mem_append_right _ ha) with ⟨s, hs⟩
    rcases h.texts b (List.mem_append_right _ hb) with ⟨t, ht⟩
    rw [hs, ht, same_str, beq_eq_false_iff_ne]
    rintro rfl
    exact hDiffer (hs.trans ht.symm)

/- Putting all entries adds or replaces those that survive. -/
theorem OfTexts.mem_putAll_iff
    {table entries : List (Value × α)}
    (h : OfTexts table)
    (hEntries : ∀ e ∈ entries, ∃ s, e.1 = .str s)
    {entry : Value × α} :
    entry ∈ Table.putAll entries table ↔
      (entry ∈ table ∧ ∀ e ∈ entries, e.1 ≠ entry.1)
        ∨ entry ∈ surviving entries := by
  induction entries generalizing table with
  | nil => simp [Table.putAll, surviving]
  | cons e rest ih =>
      rcases e with ⟨k, x⟩
      rcases List.forall_mem_cons.mp hEntries with
        ⟨⟨s, rfl⟩, hRest⟩
      have hAgain :
          rest.any (fun b => b.1.same (.str s)) = true ↔
            ∃ b ∈ rest, b.1 = .str s := by
        rw [List.any_eq_true]
        refine exists_congr fun b => and_congr_right fun hb => ?_
        rcases hRest b hb with ⟨t, ht⟩
        rw [ht, same_str, beq_iff_eq, Value.str.injEq]
      change
        entry ∈ Table.putAll rest (Table.put (.str s) x table)
          ↔ _
      rw [ih (h.put s x) hRest, mem_put_iff h, surviving,
        List.forall_mem_cons]
      by_cases hLater : ∃ b ∈ rest, b.1 = .str s
      · rw [if_pos (hAgain.mpr hLater)]
        rcases hLater with ⟨b, hb, hKey⟩
        constructor
        · rintro (⟨rfl | ⟨hMem, hOther⟩, hNone⟩ | hMem)
          · exact absurd hKey (hNone b hb)
          · exact .inl ⟨hMem, hOther.symm, hNone⟩
          · exact .inr hMem
        · rintro (⟨hMem, hOther, hNone⟩ | hMem)
          · exact .inl ⟨.inr ⟨hMem, hOther.symm⟩, hNone⟩
          · exact .inr hMem
      · rw [if_neg (fun hAny => hLater (hAgain.mp hAny)),
          List.mem_cons]
        constructor
        · rintro (⟨rfl | ⟨hMem, hOther⟩, hNone⟩ | hMem)
          · exact .inr (.inl rfl)
          · exact .inl ⟨hMem, hOther.symm, hNone⟩
          · exact .inr (.inr hMem)
        · rintro (⟨hMem, hOther, hNone⟩ | rfl | hMem)
          · exact .inl ⟨.inr ⟨hMem, hOther.symm⟩, hNone⟩
          · refine .inl ⟨.inl rfl, ?_⟩
            exact fun b hb hKey => hLater ⟨b, hb, hKey⟩
          · exact .inr hMem

end Table

end FactBase
