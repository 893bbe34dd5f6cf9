import FactBase.Proofs.Number.Written
import FactBase.Proofs.Value.Plain
import FactBase.Proofs.Value.Quoting
import FactBase.Proofs.Value.TextOrder

/-
  This file shows that the description of a plain value that
  may be a key can be read in one way only, as long as a
  number is followed by what ends it.  The first character
  tells the sort of the value, and the items of a tuple or a
  set are followed by a comma or what closes it.  So pairs
  with different keys are ordered by their keys, whatever
  comes after these.

  Key definitions include:
    * `Value.isNumeral`
    * `Value.IsKey`
    * `DescriptionSort`

  Key theorems include:
    * `Value.exists_description_cons`
    * `Value.description_append_inj`
    * `Value.description_inj`
    * `Value.compareTexts_description_pair`
-/

------------------------------------------------------------
-- Sorts of Descriptions
------------------------------------------------------------

namespace FactBase

namespace Value

/- A plain value that may be a key. -/
structure IsKey (v : Value) : Prop where
  plain : v.IsPlain
  hashable : v.hashable = true

/- The items of a tuple that is a key are keys. -/
theorem IsKey.of_mem_tuple
    {items : List Value}
    (h : IsKey (.tuple items)) : ∀ v ∈ items, v.IsKey := by
  intro v hv
  cases h.plain with
  | tuple hItems =>
      exact ⟨hItems v hv, hashableItems_iff.mp h.hashable v hv⟩

/- So are the members of a set that is a key. -/
theorem IsKey.of_mem_frozenset
    {items : List Value}
    (h : IsKey (.frozenset items)) : ∀ v ∈ items, v.IsKey := by
  intro v hv
  cases h.plain with
  | frozenset hItems hMembers _ =>
      exact ⟨hItems v hv, hMembers v hv⟩

end Value

/- The sorts of values that descriptions tell at the start. -/
inductive DescriptionSort where
  | null
  | yes
  | no
  | numeral
  | text
  | bytes
  | tuple
  | set
deriving DecidableEq, Repr

namespace Value

/- The sort of a key. -/
def descriptionSort? : Value → Option DescriptionSort
  | .null => some .null
  | .bool true => some .yes
  | .bool false => some .no
  | .int _ => some .numeral
  | .float _ => some .numeral
  | .str _ => some .text
  | .bytes _ => some .bytes
  | .tuple _ => some .tuple
  | .frozenset _ => some .set
  | _ => none

/- The value is written as a numeral. -/
def isNumeral : Value → Bool
  | .int _ => true
  | .float _ => true
  | _ => false

/- The sort of keys whose descriptions start with a character. -/
def sortOfStart? (c : Char) : Option DescriptionSort :=
  if c.isDigit || c == '-' || c == 'i' then some .numeral
  else if c == 'N' then some .null
  else if c == 'T' then some .yes
  else if c == 'F' then some .no
  else if c == Text.singleQuote || c == Text.doubleQuote then
    some .text
  else if c == 'b' then some .bytes
  else if c == '(' then some .tuple
  else if c == 'f' then some .set
  else none

/- Numerals are a sort of their own. -/
theorem descriptionSort?_eq_numeral_iff {v : Value} :
    v.descriptionSort? = some .numeral ↔ v.isNumeral = true := by
  cases v with
  | bool b => cases b <;> decide
  | _ => simp [descriptionSort?, isNumeral]

/- The characters of a description. -/
def descriptionChars (v : Value) : List Char :=
  v.description.toList

/- A number is written as a numeral. -/
theorem isNumeral_descriptionChars
    {v : Value}
    (h : v.IsPlain)
    (hNumeral : v.isNumeral = true) :
    IsNumeral v.descriptionChars := by
  unfold descriptionChars
  cases h with
  | int n =>
      rw [description]
      exact isNumeral_toString n
  | float _ hDefined =>
      rw [description]
      exact isNumeral_text hDefined
  | _ => cases hNumeral

------------------------------------------------------------
-- Tuples and Sets
------------------------------------------------------------

/- What follows the first item of a tuple. -/
def tupleTail : List Value → List Char
  | [] => [',', ')']
  | items => separated ',' [' '] descriptionChars items ++ [')']

/- Items are described one by one. -/
theorem descriptions_eq_map (items : List Value) :
    descriptions items = items.map description := by
  induction items with
  | nil => simp [descriptions]
  | cons v vs ih => rw [descriptions, ih, List.map_cons]

/- Texts between brackets, as characters. -/
theorem toList_bracketed
    (opening closing : String)
    (items : List Value) :
    (bracketed opening closing (items.map description)).toList
      = opening.toList
        ++ ([',', ' '].intercalate (items.map descriptionChars)
          ++ closing.toList) := by
  rw [bracketed, String.toList_append, String.toList_append,
    String.toList_intercalate, List.map_map, List.append_assoc]
  rfl

/- The characters of a tuple. -/
theorem descriptionChars_tuple
    (v : Value)
    (items : List Value) :
    descriptionChars (.tuple (v :: items))
      = '(' :: (v.descriptionChars ++ tupleTail items) := by
  unfold descriptionChars
  rw [description, descriptions_eq_map]
  cases items with
  | nil =>
      rw [List.map_singleton, bracketedTuple,
        String.toList_append, String.toList_append,
        List.append_assoc]
      rfl
  | cons w items =>
      have hList :
          bracketedTuple ((v :: w :: items).map description)
            = bracketed "(" ")"
              ((v :: w :: items).map description) := rfl
      rw [hList, toList_bracketed, intercalate_map_cons,
        List.append_assoc]
      rfl

/- The characters of a set of keys. -/
theorem descriptionChars_frozenset
    (v : Value)
    (items : List Value) :
    descriptionChars (.frozenset (v :: items))
      = "frozenset(".toList
        ++ '\x7b' :: ([',', ' '].intercalate
            ((v :: items).map descriptionChars)
          ++ ['\x7d', ')']) := by
  have hOne (opening closing item : String) :
      bracketed opening closing [item]
        = opening ++ item ++ closing := rfl
  unfold descriptionChars
  rw [description, if_neg (by simp), descriptions_eq_map,
    applied, braced, hOne, String.toList_append,
    String.toList_append, toList_bracketed, List.append_assoc,
    List.append_assoc, List.append_assoc]
  rfl

------------------------------------------------------------
-- Reading Descriptions
------------------------------------------------------------

variable {v w : Value}
variable {r s : List Char}

/- The first character of a description tells its sort. -/
theorem exists_description_cons (h : IsKey v) :
    ∃ first rest sort,
      v.descriptionChars = first :: rest
        ∧ sortOfStart? first = some sort
        ∧ v.descriptionSort? = some sort := by
  have hNumeral :
      v.isNumeral = true → v.descriptionSort? = some .numeral →
        ∃ first rest sort,
          v.descriptionChars = first :: rest
            ∧ sortOfStart? first = some sort
            ∧ v.descriptionSort? = some sort := by
    intro hNumeral hSort
    have hChars := isNumeral_descriptionChars h.plain hNumeral
    rcases hChars.exists_cons with ⟨c, rest, hFirst, hStart⟩
    refine ⟨c, rest, _, hFirst, ?_, hSort⟩
    rw [sortOfStart?, if_pos]
    rcases hStart with hDigit | rfl | rfl
    · rw [hDigit, Bool.true_or, Bool.true_or]
    · rfl
    · rfl
  cases h.plain with
  | null => exact ⟨'N', _, _, rfl, rfl, rfl⟩
  | bool b =>
      cases b
      · exact ⟨'F', _, _, rfl, rfl, rfl⟩
      · exact ⟨'T', _, _, rfl, rfl, rfl⟩
  | int n => exact hNumeral rfl rfl
  | float _ _ => exact hNumeral rfl rfl
  | str s =>
      refine ⟨_, _, _, Text.toList_quoted s, ?_, rfl⟩
      rcases Text.isQuoteMark_quoteMark s.toList with
        hMark | hMark
      · rw [hMark]
        rfl
      · rw [hMark]
        rfl
  | bytes bs => exact ⟨_, _, _, Text.toList_quotedBytes bs, rfl, rfl⟩
  | @tuple items _ =>
      cases items with
      | nil => exact ⟨'(', _, _, rfl, rfl, rfl⟩
      | cons x items =>
          exact
            ⟨_, _, _, descriptionChars_tuple x items, rfl, rfl⟩
  | @frozenset items _ _ _ =>
      cases items with
      | nil => exact ⟨'f', _, _, rfl, rfl, rfl⟩
      | cons x items =>
          exact
            ⟨_, _, _, descriptionChars_frozenset x items, rfl,
              rfl⟩
  | _ => cases h.hashable

/- Descriptions that start alike are of keys of one sort. -/
theorem descriptionSort?_eq_of_append
    (hv : IsKey v)
    (hw : IsKey w)
    (h : v.descriptionChars ++ r = w.descriptionChars ++ s) :
    v.descriptionSort? = w.descriptionSort? := by
  rcases exists_description_cons hv with
    ⟨first, rest, sort, hFirst, hStart, hSort⟩
  rcases exists_description_cons hw with
    ⟨other, more, sort', hOther, hStart', hSort'⟩
  rw [hFirst, hOther] at h
  rw [hSort, hSort', ← hStart, ← hStart', (List.cons.inj h).1]

/- What starts as a numeral does is one. -/
theorem isNumeral_of_append
    (hv : IsKey v)
    (hw : IsKey w)
    (h : v.descriptionChars ++ r = w.descriptionChars ++ s)
    (hNumeral : v.isNumeral = true) : w.isNumeral = true := by
  have hSort := descriptionSort?_eq_of_append hv hw h
  rw [descriptionSort?_eq_numeral_iff.mpr hNumeral, eq_comm] at hSort
  exact descriptionSort?_eq_numeral_iff.mp hSort

/- What comes after an item of a key, if anything does. -/
def keyStops : List Char := [',', ')', '\x7d']

/- No description starts so. -/
theorem description_opens
    {close : Char}
    (hClose : close ∈ keyStops)
    (h : IsKey v) :
    ∃ c rest, v.descriptionChars = c :: rest ∧ c ≠ close := by
  rcases exists_description_cons h with
    ⟨first, rest, sort, hFirst, hStart, -⟩
  refine ⟨first, rest, hFirst, ?_⟩
  rintro rfl
  have hNone :
      keyStops.all (fun c => (sortOfStart? c).isNone) = true := by
    decide
  have hFirstNone := List.all_eq_true.mp hNone first hClose
  rw [hStart] at hFirstNone
  cases hFirstNone

/- A numeral ends where no character of one follows. -/
def NumeralEnds (r : List Char) : Prop :=
  ∀ c ∈ r.head?, isNumeralChar c = false

/- So it does where nothing follows. -/
theorem NumeralEnds.nil : NumeralEnds [] :=
  fun _ h => by cases h

/- And where an item ends. -/
theorem NumeralEnds.of_stopsAt (h : StopsAt keyStops r) :
    NumeralEnds r := by
  have hAll :
      keyStops.all (fun c => !isNumeralChar c) = true := by
    decide
  intro c hc
  have hOther := List.all_eq_true.mp hAll c (h c hc)
  rwa [Bool.not_eq_true'] at hOther

/- Numerals are known where they must end. -/
theorem description_append_inj_of_numeral
    (hv : IsKey v)
    (hw : IsKey w)
    (hvNumeral : v.isNumeral = true)
    (hwNumeral : w.isNumeral = true)
    (hr : NumeralEnds r)
    (hs : NumeralEnds s)
    (h : v.descriptionChars ++ r = w.descriptionChars ++ s) :
    v = w ∧ r = s := by
  have hvChars := isNumeral_descriptionChars hv.plain hvNumeral
  have hwChars := isNumeral_descriptionChars hw.plain hwNumeral
  rcases
      append_inj_of_all (fun _ => hvChars.isNumeralChar_of_mem)
        (fun _ => hwChars.isNumeralChar_of_mem) hr hs h with
    ⟨hSame, hRest⟩
  have hText : v.description = w.description :=
    String.toList_inj.mp hSame
  refine ⟨?_, hRest⟩
  cases hv.plain with
  | int m =>
      cases hw.plain with
      | int n =>
          simp only [description] at hText
          rw [toString_int_inj hText]
      | float _ hDefined =>
          simp only [description] at hText
          exact absurd hText.symm (text_ne_toString hDefined m)
      | _ => cases hwNumeral
  | float hCanonical hDefined =>
      cases hw.plain with
      | int n =>
          simp only [description] at hText
          exact absurd hText (text_ne_toString hDefined n)
      | float hCanonical' hDefined' =>
          simp only [description] at hText
          rw [Binary64.text_inj hCanonical hCanonical' hDefined
            hDefined' hText]
      | _ => cases hwNumeral
  | _ => cases hvNumeral

/- The items that are left of a tuple are known up to its end. -/
theorem tupleTail_append_inj
    {xs ys : List Value}
    (hSevered :
      ∀ x ∈ xs, ∀ y ∈ ys,
        SeveredFrom keyStops descriptionChars x y)
    (h : tupleTail xs ++ r = tupleTail ys ++ s) :
    xs = ys ∧ r = s := by
  have hOne :
      ∀ (y : Value) (ys : List Value) (t u : List Char),
        tupleTail [] ++ t ≠ tupleTail (y :: ys) ++ u := by
    intro y ys t u hSame
    cases (List.cons.inj (List.cons.inj hSame).2).1
  cases xs with
  | nil =>
      cases ys with
      | nil => exact ⟨rfl, List.append_cancel_left h⟩
      | cons y ys => exact absurd h (hOne y ys r s)
  | cons x xs =>
      cases ys with
      | nil => exact absurd h.symm (hOne x xs s r)
      | cons y ys =>
          rw [tupleTail, tupleTail, List.append_assoc,
            List.append_assoc] at h
          · exact
              separated_append_inj (by decide) (by decide)
                (by decide) hSevered h
          · exact nofun
          · exact nofun

/- The items of a tuple are known up to its end. -/
theorem tuple_append_inj
    {xs ys : List Value}
    (hXs : ∀ x ∈ xs, IsKey x)
    (hYs : ∀ y ∈ ys, IsKey y)
    (hSevered :
      ∀ x ∈ xs, ∀ y ∈ ys,
        SeveredFrom keyStops descriptionChars x y)
    (h :
      descriptionChars (.tuple xs) ++ r
        = descriptionChars (.tuple ys) ++ s) :
    xs = ys ∧ r = s := by
  have hEmpty :
      ∀ {y : Value} (ys : List Value) (t u : List Char),
        IsKey y →
          descriptionChars (.tuple []) ++ t
            ≠ descriptionChars (.tuple (y :: ys)) ++ u := by
    intro y ys t u hy hSame
    have hClose : ')' ∈ keyStops := by decide
    rcases description_opens hClose hy with
      ⟨c, rest, hFirst, hOpen⟩
    rw [descriptionChars_tuple, hFirst] at hSame
    exact hOpen (List.cons.inj (List.cons.inj hSame).2).1.symm
  have hStops :
      ∀ (zs : List Value) (t : List Char),
        StopsAt keyStops (tupleTail zs ++ t) := by
    intro zs t c hc
    cases zs <;> exact Option.some.inj hc ▸ List.mem_cons_self
  cases xs with
  | nil =>
      cases ys with
      | nil => exact ⟨rfl, List.append_cancel_left h⟩
      | cons y ys =>
          exact absurd h (hEmpty ys r s (hYs y List.mem_cons_self))
  | cons x xs =>
      cases ys with
      | nil =>
          exact
            absurd h.symm (hEmpty xs s r (hXs x List.mem_cons_self))
      | cons y ys =>
          rw [descriptionChars_tuple, descriptionChars_tuple] at h
          simp only [List.cons_append, List.append_assoc] at h
          rcases
              hSevered x List.mem_cons_self y List.mem_cons_self
                (hStops xs r) (hStops ys s)
                (List.cons.inj h).2 with
            ⟨rfl, hTail⟩
          have hSevered' :
              ∀ x ∈ xs, ∀ y ∈ ys,
                SeveredFrom keyStops descriptionChars x y :=
            fun x hx y hy =>
              hSevered x (List.mem_cons_of_mem _ hx) y
                (List.mem_cons_of_mem _ hy)
          rcases tupleTail_append_inj hSevered' hTail with
            ⟨rfl, rfl⟩
          exact ⟨rfl, rfl⟩

/- The members of a set are known up to its end. -/
theorem frozenset_append_inj
    {xs ys : List Value}
    (hXs : ∀ x ∈ xs, IsKey x)
    (hYs : ∀ y ∈ ys, IsKey y)
    (hSevered :
      ∀ x ∈ xs, ∀ y ∈ ys,
        SeveredFrom keyStops descriptionChars x y)
    (h :
      descriptionChars (.frozenset xs) ++ r
        = descriptionChars (.frozenset ys) ++ s) :
    xs = ys ∧ r = s := by
  have hEmpty :
      ∀ (y : Value) (ys : List Value) (t u : List Char),
        descriptionChars (.frozenset []) ++ t
          ≠ descriptionChars (.frozenset (y :: ys)) ++ u := by
    intro y ys t u hSame
    rw [descriptionChars_frozenset, List.append_assoc] at hSame
    have hNone :
        descriptionChars (.frozenset [])
          = "frozenset(".toList ++ [')'] := rfl
    rw [hNone, List.append_assoc] at hSame
    cases (List.cons.inj (List.append_cancel_left hSame)).1
  cases xs with
  | nil =>
      cases ys with
      | nil => exact ⟨rfl, List.append_cancel_left h⟩
      | cons y ys => exact absurd h (hEmpty y ys r s)
  | cons x xs =>
      cases ys with
      | nil => exact absurd h.symm (hEmpty x xs s r)
      | cons y ys =>
          rw [descriptionChars_frozenset,
            descriptionChars_frozenset] at h
          simp only [List.append_assoc, List.cons_append,
            List.nil_append] at h
          have hList :=
            (List.cons.inj (List.append_cancel_left h)).2
          have hClose : '\x7d' ∈ keyStops := by decide
          have hOpens :
              ∀ z ∈ (x :: xs) ++ (y :: ys),
                ∃ c rest, descriptionChars z = c :: rest
                  ∧ c ≠ '\x7d' := by
            intro z hz
            rcases List.mem_append.mp hz with hx | hy
            · exact description_opens hClose (hXs z hx)
            · exact description_opens hClose (hYs z hy)
          rcases
              listed_append_inj (by decide) hClose (by decide)
                hOpens hSevered hList with
            ⟨hSame, hEnd⟩
          exact ⟨hSame, (List.cons.inj hEnd).2⟩

/-
  A value is known from where its description starts.  Only a
  numeral has to be followed by what ends it.
-/
def Readable (v : Value) : Prop :=
  ∀ ⦃w r s⦄, IsKey w →
    (v.isNumeral = true → NumeralEnds r ∧ NumeralEnds s) →
      v.descriptionChars ++ r = w.descriptionChars ++ s →
        v = w ∧ r = s

/- Such items can be told apart where they end. -/
theorem severed_of_readable
    {xs ys : List Value}
    (hXs : ∀ x ∈ xs, Readable x)
    (hYs : ∀ y ∈ ys, IsKey y) :
    ∀ x ∈ xs, ∀ y ∈ ys,
      SeveredFrom keyStops descriptionChars x y := by
  intro x hx y hy r s hr hs h
  exact
    hXs x hx (hYs y hy)
      (fun _ => ⟨.of_stopsAt hr, .of_stopsAt hs⟩) h

/- Every key is such a value.  The induction is on the key. -/
theorem IsKey.readable (h : IsKey v) : Readable v := by
  rcases h with ⟨hPlain, hHashable⟩
  have hNumeral :
      ∀ {v : Value}, IsKey v → v.isNumeral = true →
        Readable v := by
    intro v hv hNumeral w r s hw hEnds h
    exact
      description_append_inj_of_numeral hv hw hNumeral
        (isNumeral_of_append hv hw h hNumeral)
        (hEnds hNumeral).1 (hEnds hNumeral).2 h
  induction hPlain with
  | null =>
      intro w r s hw _ h
      have hSort :=
        descriptionSort?_eq_of_append ⟨.null, rfl⟩ hw h
      cases hw.plain with
      | null => exact ⟨rfl, List.append_cancel_left h⟩
      | bool b => cases b <;> cases hSort
      | _ => cases hSort
  | bool b =>
      intro w r s hw _ h
      have hSort :=
        descriptionSort?_eq_of_append ⟨.bool b, rfl⟩ hw h
      cases hw.plain with
      | bool c =>
          cases b <;> cases c
          · exact ⟨rfl, List.append_cancel_left h⟩
          · cases hSort
          · cases hSort
          · exact ⟨rfl, List.append_cancel_left h⟩
      | _ => cases b <;> cases hSort
  | int m => exact hNumeral ⟨.int m, rfl⟩ rfl
  | float hCanonical hDefined =>
      exact hNumeral ⟨.float hCanonical hDefined, rfl⟩ rfl
  | str t =>
      intro w r s hw _ h
      have hSort :=
        descriptionSort?_eq_of_append ⟨.str t, rfl⟩ hw h
      cases hw.plain with
      | str u =>
          rcases Text.quoted_append_inj h with ⟨rfl, hRest⟩
          exact ⟨rfl, hRest⟩
      | bool b => cases b <;> cases hSort
      | _ => cases hSort
  | bytes as =>
      intro w r s hw _ h
      have hSort :=
        descriptionSort?_eq_of_append ⟨.bytes as, rfl⟩ hw h
      cases hw.plain with
      | bytes bs =>
          rcases Text.quotedBytes_append_inj h with ⟨rfl, hRest⟩
          exact ⟨rfl, hRest⟩
      | bool b => cases b <;> cases hSort
      | _ => cases hSort
  | @tuple xs hXs ih =>
      intro w r s hw _ h
      have hKey : IsKey (.tuple xs) := ⟨.tuple hXs, hHashable⟩
      have hItems := hKey.of_mem_tuple
      have hSort := descriptionSort?_eq_of_append hKey hw h
      cases hw.plain with
      | tuple =>
          rcases
              tuple_append_inj hItems hw.of_mem_tuple
                (severed_of_readable
                  (fun x hx => ih x hx (hItems x hx).hashable)
                  hw.of_mem_tuple) h with
            ⟨rfl, hRest⟩
          exact ⟨rfl, hRest⟩
      | bool b => cases b <;> cases hSort
      | _ => cases hSort
  | @frozenset xs hXs hMembers hApart ih =>
      intro w r s hw _ h
      have hKey : IsKey (.frozenset xs) :=
        ⟨.frozenset hXs hMembers hApart, hHashable⟩
      have hSort := descriptionSort?_eq_of_append hKey hw h
      cases hw.plain with
      | frozenset =>
          rcases
              frozenset_append_inj hKey.of_mem_frozenset
                hw.of_mem_frozenset
                (severed_of_readable
                  (fun x hx => ih x hx (hMembers x hx))
                  hw.of_mem_frozenset) h with
            ⟨rfl, hRest⟩
          exact ⟨rfl, hRest⟩
      | bool b => cases b <;> cases hSort
      | _ => cases hSort
  | list => cases hHashable
  | set => cases hHashable
  | map => cases hHashable

/- Keys with one description are equal. -/
theorem description_inj
    (hv : IsKey v)
    (hw : IsKey w)
    (h : v.description = w.description) : v = w := by
  have hChars :
      v.descriptionChars ++ [] = w.descriptionChars ++ [] := by
    rw [descriptionChars, descriptionChars, h]
  exact (hv.readable hw (fun _ => ⟨.nil, .nil⟩) hChars).1

------------------------------------------------------------
-- Pairs with Keys in Front
------------------------------------------------------------

/- Only the plus sign of a numeral comes before a comma. -/
theorem comma_lt_of_isNumeralChar
    {c : Char}
    (h : isNumeralChar c = true)
    (hPlus : c ≠ '+') : ','.toNat < c.toNat := by
  simp only [isNumeralChar, Bool.or_eq_true, List.contains_iff_mem,
    List.mem_cons, List.not_mem_nil, or_false] at h
  rcases h with hDigit | hOther
  · have hZero := (Char.isDigit_iff_toNat.mp hDigit).1
    exact Nat.lt_of_lt_of_le (by decide) hZero
  · rcases hOther with rfl | rfl | rfl | rfl | rfl | rfl | rfl
    all_goals first | decide | exact absurd rfl hPlus

/-
  No description goes on where another one ends, unless both
  are numerals, and then not by a plus sign.
-/
theorem exists_cons_of_description_append
    (hv : IsKey v)
    (hw : IsKey w)
    (hOther : v ≠ w)
    (h : v.descriptionChars ++ r = w.descriptionChars) :
    ∃ c rest, r = c :: rest ∧ ','.toNat < c.toNat := by
  have hAlone :
      v.descriptionChars ++ r = w.descriptionChars ++ [] := by
    rw [h, List.append_nil]
  have hNumeral : v.isNumeral = true := by
    by_contra hNot
    exact hOther (hv.readable hw (fun h => absurd h hNot) hAlone).1
  have hNumeral' := isNumeral_of_append hv hw hAlone hNumeral
  have hvChars := isNumeral_descriptionChars hv.plain hNumeral
  have hwChars := isNumeral_descriptionChars hw.plain hNumeral'
  cases r with
  | nil =>
      rw [List.append_nil] at h
      exact
        absurd (description_inj hv hw (String.toList_inj.mp h))
          hOther
  | cons c rest =>
      refine ⟨c, rest, rfl, ?_⟩
      have hChar : isNumeralChar c = true := by
        refine hwChars.isNumeralChar_of_mem ?_
        rw [← h]
        exact List.mem_append_right _ List.mem_cons_self
      have hPlus : c ≠ '+' := by
        rintro rfl
        rw [← h] at hwChars
        exact hvChars.not_append_plus hwChars
      exact comma_lt_of_isNumeralChar hChar hPlus

/- The characters of a pair. -/
theorem descriptionChars_pair (k v : Value) :
    descriptionChars (.tuple [k, v])
      = '(' :: (k.descriptionChars
        ++ ',' :: (' ' :: (v.descriptionChars ++ [')']))) := by
  rw [descriptionChars_tuple, tupleTail, separated]
  · simp
  · intro hNone
    cases hNone

/- The code points of a pair. -/
theorem codePoints_pair (k v : Value) :
    ∃ rest,
      codePoints (description (.tuple [k, v]))
        = '('.toNat
          :: (codePoints k.description ++ ','.toNat :: rest) := by
  refine
    ⟨(' ' :: (v.descriptionChars ++ [')'])).map Char.toNat, ?_⟩
  have hPair :=
    congrArg (List.map Char.toNat) (descriptionChars_pair k v)
  rw [List.map_cons, List.map_append, List.map_cons] at hPair
  exact hPair

/-
  A key comes before another one that goes on where it ends,
  and so does a pair with it in front.
-/
theorem compare_of_prefix
    {k l : Value}
    (hk : IsKey k)
    (hl : IsKey l)
    (hOther : k ≠ l)
    (h : codePoints k.description <+: codePoints l.description)
    (as bs : List Nat) :
    compare (codePoints k.description ++ ','.toNat :: as)
        (codePoints l.description ++ bs) = .lt
      ∧ compare (codePoints k.description)
        (codePoints l.description) = .lt := by
  have hChars : k.descriptionChars <+: l.descriptionChars :=
    (List.prefix_map_iff_of_injective
      (fun _ _ hSame => Char.toNat_inj.mp hSame)).mp h
  rcases hChars with ⟨r, hr⟩
  rcases exists_cons_of_description_append hk hl hOther hr with
    ⟨c, rest, rfl, hComma⟩
  have hPoints :
      codePoints l.description
        = codePoints k.description
          ++ c.toNat :: rest.map Char.toNat := by
    unfold codePoints
    rw [← List.map_cons, ← List.map_append]
    exact congrArg (List.map Char.toNat) hr.symm
  rw [hPoints, List.append_assoc, List.cons_append]
  exact
    ⟨(compare_append_cons hComma _ as _).1,
      (compare_append_cons hComma _ as _).2⟩

/- Pairs with different keys in front are ordered by these. -/
theorem compareTexts_description_pair
    {k l : Value}
    (hk : IsKey k)
    (hl : IsKey l)
    (hOther : k ≠ l)
    (v w : Value) :
    compareTexts (description (.tuple [k, v]))
        (description (.tuple [l, w]))
      = compareTexts (description k) (description l) := by
  have hSwap :
      ∀ {xs ys : List Nat},
        compare xs ys = .lt → compare ys xs = .gt := by
    intro xs ys h
    rw [@Std.OrientedCmp.eq_swap (List Nat) compare _ ys xs, h]
    rfl
  rcases codePoints_pair k v with ⟨as, hLeft⟩
  rcases codePoints_pair l w with ⟨bs, hRight⟩
  change
    compare (codePoints (description (.tuple [k, v])))
        (codePoints (description (.tuple [l, w])))
      = compare (codePoints k.description)
        (codePoints l.description)
  rw [hLeft, hRight, compare_cons_self]
  by_cases hFirst :
      codePoints k.description <+: codePoints l.description
  · rcases compare_of_prefix hk hl hOther hFirst as
        (','.toNat :: bs) with ⟨hPair, hKeys⟩
    rw [hPair, hKeys]
  by_cases hSecond :
      codePoints l.description <+: codePoints k.description
  · rcases compare_of_prefix hl hk hOther.symm hSecond bs
        (','.toNat :: as) with ⟨hPair, hKeys⟩
    rw [hSwap hPair, hSwap hKeys]
  · exact compare_append hFirst hSecond _ _

end Value

end FactBase
