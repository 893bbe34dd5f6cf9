import Mathlib
import FactBase.Query.Canonical
import FactBase.Proofs.Text.Reading

/-
  This file defines JSON trees and proves that the text of a
  tree can be read in one way only, even if more text follows
  it.  Strings end at the first mark that is not escaped,
  numbers end where a list goes on or is closed, and the first
  character of a text tells what sort of tree it is.

  Key definitions include:
    * `Json`
    * `Json.text`
    * `Severs`

  Key theorems include:
    * `Text.jsonQuoted_append_inj`
    * `Severs.listed_append_inj`
    * `Json.severs_text`
    * `Json.text_inj`
-/

------------------------------------------------------------
-- Trees
------------------------------------------------------------

namespace FactBase

/- What a JSON text says.  Objects list their entries in order. -/
inductive Json where
  | null
  | bool (b : Bool)
  | int (n : Int)
  | str (s : String)
  | array (items : List Json)
  | object (entries : List (String × Json))

/- The sorts of JSON trees. -/
inductive JsonSort where
  | null
  | bool
  | int
  | str
  | array
  | object
deriving DecidableEq, Repr

namespace Json

mutual

/- The text of a tree. -/
def text : Json → String
  | .null => "null"
  | .bool b => Value.jsonBool b
  | .int n => toString n
  | .str s => Text.jsonQuoted s
  | .array items => Value.jsonArray (itemTexts items)
  | .object entries => Value.jsonObject (entryTexts entries)

/- The texts of all items. -/
def itemTexts : List Json → List String
  | [] => []
  | j :: items => text j :: itemTexts items

/- The texts of all keys and values. -/
def entryTexts :
    List (String × Json) → List (String × String)
  | [] => []
  | (k, j) :: entries =>
      (Text.jsonQuoted k, text j) :: entryTexts entries

end

/- Items are written one by one. -/
theorem itemTexts_eq_map (items : List Json) :
    itemTexts items = items.map text := by
  induction items with
  | nil => rfl
  | cons j items ih => rw [itemTexts, ih, List.map_cons]

/- So are entries. -/
theorem entryTexts_eq_map (entries : List (String × Json)) :
    entryTexts entries
      = entries.map
        (fun e => (Text.jsonQuoted e.1, e.2.text)) := by
  induction entries with
  | nil => rfl
  | cons e entries ih => rw [entryTexts, ih, List.map_cons]

/- The trees that a tree is made of. -/
def parts : Json → List Json
  | .array items => items
  | .object entries => entries.map Prod.snd
  | _ => []

/- A part is smaller than the whole. -/
theorem sizeOf_lt_of_mem_parts
    {j x : Json}
    (h : x ∈ j.parts) : sizeOf x < sizeOf j := by
  cases j with
  | array items =>
      have hItem : x ∈ items := h
      have hLess := List.sizeOf_lt_of_mem hItem
      simp only [array.sizeOf_spec]
      omega
  | object entries =>
      rcases List.mem_map.mp h with ⟨⟨k, y⟩, he, rfl⟩
      have hLess := List.sizeOf_lt_of_mem he
      simp only [Prod.mk.sizeOf_spec] at hLess
      simp only [object.sizeOf_spec]
      omega
  | _ => exact absurd h List.not_mem_nil

/-
  What holds of every tree of whose parts it holds, holds of
  all trees.
-/
theorem inductionOnParts
    {P : Json → Prop}
    (h : ∀ j, (∀ x ∈ j.parts, P x) → P j)
    (j : Json) : P j := by
  induction hSize : sizeOf j using Nat.strongRecOn
      generalizing j with
  | _ n ih =>
      apply h
      intro x hx
      have hLess := sizeOf_lt_of_mem_parts hx
      exact ih (sizeOf x) (hSize ▸ hLess) x rfl

end Json

------------------------------------------------------------
-- Strings
------------------------------------------------------------

namespace Text

/- The characters that are escaped. -/
def escapedChars : List Char :=
  doubleQuote :: '\\' :: (List.range 0x20).map Char.ofNat

/- Other characters stand for themselves. -/
theorem jsonEscape_of_not_mem
    {c : Char}
    (h : c ∉ escapedChars) : jsonEscape c = [c] := by
  have hRange :
      ∀ n < 0x20, c ≠ Char.ofNat n := by
    rintro n hn rfl
    refine h (List.mem_cons_of_mem _ (List.mem_cons_of_mem _ ?_))
    exact List.mem_map_of_mem (List.mem_range.mpr hn)
  have hLarge : 0x20 ≤ c.toNat := by
    by_contra hSmall
    exact hRange c.toNat (by omega) (Char.ofNat_toNat c).symm
  simp only [escapedChars, List.mem_cons, not_or] at h
  have hLine : c ≠ '\n' := hRange 0x0A (by decide)
  have hReturn : c ≠ '\r' := hRange 0x0D (by decide)
  have hTab : c ≠ '\t' := hRange 0x09 (by decide)
  simp only [jsonEscape, beq_iff_eq, Bool.or_eq_true, h.1,
    h.2.1, or_self, hLine, hReturn, hTab, if_false]
  rw [if_neg (by omega), if_neg (by omega), if_neg (by omega)]

/- Escapes start with a mark of their own. -/
theorem head?_jsonEscape_of_mem
    {c : Char}
    (h : c ∈ escapedChars) :
    (jsonEscape c).head? = some '\\' := by
  have hAll :
      escapedChars.all
        (fun c => (jsonEscape c).head? == some '\\') = true := by
    decide +kernel
  exact beq_iff_eq.mp (List.all_eq_true.mp hAll c h)

/- No escape goes on where another one ends. -/
theorem eq_of_prefix_escape
    {c d : Char}
    (hc : c ∈ escapedChars)
    (hd : d ∈ escapedChars)
    (h : jsonEscape c <+: jsonEscape d) : c = d := by
  have hAll :
      escapedChars.all (fun c => escapedChars.all (fun d =>
        !(jsonEscape c).isPrefixOf (jsonEscape d) || c == d))
          = true := by
    decide +kernel
  have hPair :=
    List.all_eq_true.mp (List.all_eq_true.mp hAll c hc) d hd
  rw [List.isPrefixOf_iff_prefix.mpr h, Bool.not_true,
    Bool.false_or] at hPair
  exact beq_iff_eq.mp hPair

/- A written character does not start with the quote. -/
theorem exists_jsonEscape_cons (c : Char) :
    ∃ first rest,
      jsonEscape c = first :: rest ∧ first ≠ doubleQuote := by
  by_cases h : c ∈ escapedChars
  · rcases List.head?_eq_some_iff.mp
        (head?_jsonEscape_of_mem h) with ⟨rest, hRest⟩
    exact ⟨'\\', rest, hRest, by decide⟩
  · refine ⟨c, [], jsonEscape_of_not_mem h, ?_⟩
    rintro rfl
    exact h List.mem_cons_self

/- No written character goes on where another one ends. -/
theorem eq_of_prefix_jsonEscape
    {c d : Char}
    (h : jsonEscape c <+: jsonEscape d) : c = d := by
  have hHead : (jsonEscape c).head? = (jsonEscape d).head? := by
    rcases exists_jsonEscape_cons c with ⟨first, rest, hc, -⟩
    rcases h with ⟨more, hMore⟩
    rw [← hMore, hc]
    rfl
  have hMark :
      ∀ {a b : Char}, a ∈ escapedChars → b ∉ escapedChars →
        (jsonEscape a).head? ≠ (jsonEscape b).head? := by
    intro a b ha hb hSame
    rw [head?_jsonEscape_of_mem ha,
      jsonEscape_of_not_mem hb] at hSame
    cases hSame
    exact hb (List.mem_cons_of_mem _ List.mem_cons_self)
  by_cases hc : c ∈ escapedChars
  · by_cases hd : d ∈ escapedChars
    · exact eq_of_prefix_escape hc hd h
    · exact absurd hHead (hMark hc hd)
  · by_cases hd : d ∈ escapedChars
    · exact absurd hHead.symm (hMark hd hc)
    · rw [jsonEscape_of_not_mem hc,
        jsonEscape_of_not_mem hd] at hHead
      exact Option.some.inj hHead

/- So the first written character of a text is known. -/
theorem jsonEscape_append_inj
    {c d : Char}
    {r s : List Char}
    (h : jsonEscape c ++ r = jsonEscape d ++ s) :
    c = d ∧ r = s := by
  have hSame : c = d := by
    rcases List.prefix_or_prefix_of_prefix
        (List.prefix_append (jsonEscape c) r)
        (h ▸ List.prefix_append (jsonEscape d) s) with
      hPrefix | hPrefix
    · exact eq_of_prefix_jsonEscape hPrefix
    · exact (eq_of_prefix_jsonEscape hPrefix).symm
  subst hSame
  exact ⟨rfl, List.append_cancel_left h⟩

/- What stands in quotes is known up to the closing one. -/
theorem jsonEscapes_append_inj
    {cs ds r s : List Char}
    (h :
      cs.flatMap jsonEscape ++ doubleQuote :: r
        = ds.flatMap jsonEscape ++ doubleQuote :: s) :
    cs = ds ∧ r = s := by
  have hOpens :
      ∀ (c : Char) (t u : List Char),
        jsonEscape c ++ t ≠ doubleQuote :: u := by
    intro c t u hSame
    rcases exists_jsonEscape_cons c with
      ⟨first, rest, hc, hFirst⟩
    rw [hc] at hSame
    exact hFirst (List.cons.inj hSame).1
  exact
    flatMap_append_inj (P := fun _ => True)
      (fun _ _ => trivial) hOpens
      (fun _ _ _ _ _ _ _ _ => jsonEscape_append_inj) h

/- The characters of a JSON string. -/
theorem toList_jsonQuoted (s : String) :
    (jsonQuoted s).toList
      = doubleQuote
        :: (s.toList.flatMap jsonEscape ++ [doubleQuote]) := by
  rw [jsonQuoted, String.toList_ofList, List.cons_append]

/- Strings are known from where they start. -/
theorem jsonQuoted_append_inj
    {s t : String}
    {r u : List Char}
    (h : (jsonQuoted s).toList ++ r = (jsonQuoted t).toList ++ u) :
    s = t ∧ r = u := by
  rw [toList_jsonQuoted, toList_jsonQuoted, List.cons_append,
    List.cons_append, List.append_assoc, List.append_assoc] at h
  rcases jsonEscapes_append_inj (List.cons.inj h).2 with
    ⟨hText, hRest⟩
  exact ⟨String.toList_inj.mp hText, hRest⟩

end Text

------------------------------------------------------------
-- Numbers
------------------------------------------------------------

/- The characters that numbers are written with. -/
def isNumeric (c : Char) : Bool :=
  c.isDigit || c == '-'

/- Numbers are written with these. -/
theorem isNumeric_of_mem_toString
    {n : Int}
    {c : Char}
    (h : c ∈ (toString n).toList) : isNumeric c = true := by
  have hDigits :
      ∀ m : Nat, ∀ c ∈ m.repr.toList, isNumeric c = true := by
    intro m c hc
    rw [Nat.repr_eq_ofList_toDigits, String.toList_ofList] at hc
    have hDigit :=
      Nat.isDigit_of_mem_toDigits (by omega) (Nat.le_refl 10) hc
    rw [isNumeric, hDigit, Bool.true_or]
  rw [Int.toString_eq_repr, Int.repr_eq_if] at h
  split at h
  · exact hDigits _ c h
  · rw [String.toList_append] at h
    rcases List.mem_append.mp h with hSign | hDigit
    · rcases List.mem_singleton.mp hSign with rfl
      rfl
    · exact hDigits _ c hDigit

/- And with at least one of them. -/
theorem exists_toString_cons (n : Int) :
    ∃ first rest, (toString n).toList = first :: rest := by
  apply List.exists_cons_of_ne_nil
  rw [Int.toString_eq_repr, Int.repr_eq_if]
  split
  · exact fun h => Nat.repr_ne_empty (String.toList_inj.mp h)
  · rw [String.toList_append]
    exact nofun

------------------------------------------------------------
-- Lists
------------------------------------------------------------

/- Opens an object. -/
def openingBrace : Char := '\x7b'

/- Closes an object. -/
def closingBrace : Char := '\x7d'

/- What comes after a part of a text, if anything does. -/
def stopChars : List Char := [',', ']', closingBrace]

/- A text goes on as it does after one of its parts. -/
def Stops (r : List Char) : Prop :=
  ∀ c ∈ r.head?, c ∈ stopChars

/-
  What stands for `x` is known from where it starts, whatever
  it is followed by.
-/
def Severs
    {α : Type}
    (f : α → List Char)
    (x : α) : Prop :=
  ∀ {y r s}, Stops r → Stops s →
    f x ++ r = f y ++ s → x = y ∧ r = s

variable {r s : List Char}
variable {close : Char}

/- A list of items that are known is known up to its end. -/
theorem Severs.listed_append_inj
    {α : Type}
    {f : α → List Char}
    {xs ys : List α}
    (hClose : close ∈ stopChars)
    (hComma : close ≠ ',')
    (hOpens : ∀ y, ∃ c rest, f y = c :: rest ∧ c ≠ close)
    (hSevers : ∀ x ∈ xs, Severs f x)
    (h :
      [','].intercalate (xs.map f) ++ close :: r
        = [','].intercalate (ys.map f) ++ close :: s) :
    xs = ys ∧ r = s := by
  have hSep : ',' ∈ stopChars := List.mem_cons_self
  exact
    FactBase.listed_append_inj hSep hClose hComma
      (fun x _ => hOpens x) (fun x hx _ _ => hSevers x hx) h

------------------------------------------------------------
-- Reading Trees
------------------------------------------------------------

namespace Json

/- The characters of an array. -/
theorem toList_array (items : List Json) :
    (text (.array items)).toList
      = '[' :: ([','].intercalate
          (items.map (fun j => j.text.toList)) ++ [']']) := by
  simp only [text, Value.jsonArray, itemTexts_eq_map,
    String.toList_append, String.toList_intercalate,
    List.map_map]
  rfl

/- The characters of an entry. -/
def entryChars (e : String × Json) : List Char :=
  (Text.jsonQuoted e.1).toList ++ ':' :: e.2.text.toList

/- The characters of an object. -/
theorem toList_object (entries : List (String × Json)) :
    (text (.object entries)).toList
      = openingBrace :: ([','].intercalate
          (entries.map entryChars) ++ [closingBrace]) := by
  have hEntry :
      (fun e : String × Json =>
          (Text.jsonQuoted e.1 ++ ":" ++ e.2.text).toList)
        = entryChars := by
    funext e
    rw [String.toList_append, String.toList_append,
      List.append_assoc]
    rfl
  simp only [text, Value.jsonObject, entryTexts_eq_map,
    String.toList_append, String.toList_intercalate,
    List.map_map, Function.comp_def, ← hEntry]
  rfl

/- The sort of a tree. -/
def sort : Json → JsonSort
  | .null => .null
  | .bool _ => .bool
  | .int _ => .int
  | .str _ => .str
  | .array _ => .array
  | .object _ => .object

/- The sort of trees whose texts start with a character. -/
def sortOf? (c : Char) : Option JsonSort :=
  if isNumeric c then some .int
  else if c == 'n' then some .null
  else if c == 't' || c == 'f' then some .bool
  else if c == Text.doubleQuote then some .str
  else if c == '[' then some .array
  else if c == openingBrace then some .object
  else none

/- The first character of a text tells the sort of the tree. -/
theorem exists_text_cons (j : Json) :
    ∃ first rest,
      j.text.toList = first :: rest
        ∧ sortOf? first = some j.sort := by
  cases j with
  | null => exact ⟨'n', _, rfl, rfl⟩
  | bool b =>
      cases b with
      | true => exact ⟨'t', _, rfl, rfl⟩
      | false => exact ⟨'f', _, rfl, rfl⟩
  | int n =>
      rcases exists_toString_cons n with ⟨first, rest, h⟩
      refine ⟨first, rest, h, ?_⟩
      have hNumeric : isNumeric first = true :=
        isNumeric_of_mem_toString (h ▸ List.mem_cons_self)
      rw [sortOf?, if_pos hNumeric]
      rfl
  | str s => exact ⟨_, _, Text.toList_jsonQuoted s, rfl⟩
  | array items => exact ⟨_, _, toList_array items, rfl⟩
  | object entries => exact ⟨_, _, toList_object entries, rfl⟩

/- Texts that start alike are of trees of one sort. -/
theorem sort_eq_of_append
    {i j : Json}
    {r s : List Char}
    (h : i.text.toList ++ r = j.text.toList ++ s) :
    i.sort = j.sort := by
  rcases exists_text_cons i with ⟨first, rest, hi, hSort⟩
  rcases exists_text_cons j with ⟨other, more, hj, hOther⟩
  rw [hi, hj] at h
  rw [(List.cons.inj h).1, hOther] at hSort
  exact (Option.some.inj hSort).symm

/- No text of a tree starts as lists are closed. -/
theorem text_opens
    (hClose : close ∈ stopChars)
    (j : Json) :
    ∃ c rest, j.text.toList = c :: rest ∧ c ≠ close := by
  rcases exists_text_cons j with ⟨first, rest, h, hSort⟩
  refine ⟨first, rest, h, ?_⟩
  rintro rfl
  have hNone :
      stopChars.all (fun c => (sortOf? c).isNone) = true := by
    decide
  have hFirst := List.all_eq_true.mp hNone first hClose
  rw [hSort] at hFirst
  cases hFirst

/- Numbers are known where they must end. -/
theorem toString_append_inj
    {m n : Int}
    (hr : Stops r)
    (hs : Stops s)
    (h : (toString m).toList ++ r = (toString n).toList ++ s) :
    m = n ∧ r = s := by
  have hAll :
      stopChars.all (fun c => !isNumeric c) = true := by
    decide
  have hStop :
      ∀ {r : List Char}, Stops r →
        ∀ c ∈ r.head?, isNumeric c = false := by
    intro r hr c hc
    have hOther := List.all_eq_true.mp hAll c (hr c hc)
    rwa [Bool.not_eq_true'] at hOther
  rcases
      append_inj_of_all (fun c => isNumeric_of_mem_toString)
        (fun c => isNumeric_of_mem_toString)
        (hStop hr) (hStop hs) h with
    ⟨hText, hRest⟩
  refine ⟨?_, hRest⟩
  rw [String.toList_inj, Int.toString_eq_repr,
    Int.toString_eq_repr] at hText
  exact Int.repr_inj.mp hText

/- An entry is known if its value is. -/
theorem severs_entryChars
    {e : String × Json}
    (h : Severs (fun j => j.text.toList) e.2) :
    Severs entryChars e := by
  intro e' r s hr hs hSame
  rw [entryChars, entryChars, List.append_assoc,
    List.append_assoc] at hSame
  rcases Text.jsonQuoted_append_inj hSame with ⟨hKey, hRest⟩
  rcases h hr hs (List.cons.inj hRest).2 with ⟨hValue, hRest⟩
  exact ⟨Prod.ext hKey hValue, hRest⟩

/-
  A tree is known from where its text starts.  The induction
  is on its parts, whose texts are followed by a comma or by
  what closes the list.
-/
theorem severs_text (j : Json) :
    Severs (fun j => j.text.toList) j := by
  induction j using inductionOnParts with
  | h j ih =>
      intro k r s hr hs h
      have hSort : j.sort = k.sort := sort_eq_of_append h
      cases j with
      | null =>
          cases k with
          | null => exact ⟨rfl, List.append_cancel_left h⟩
          | _ => cases hSort
      | bool b =>
          cases k with
          | bool c =>
              cases b <;> cases c
              · exact ⟨rfl, List.append_cancel_left h⟩
              · cases (List.cons.inj h).1
              · cases (List.cons.inj h).1
              · exact ⟨rfl, List.append_cancel_left h⟩
          | _ => cases hSort
      | int m =>
          cases k with
          | int n =>
              rcases toString_append_inj hr hs h with ⟨rfl, hRest⟩
              exact ⟨rfl, hRest⟩
          | _ => cases hSort
      | str t =>
          cases k with
          | str u =>
              rcases Text.jsonQuoted_append_inj h with
                ⟨rfl, hRest⟩
              exact ⟨rfl, hRest⟩
          | _ => cases hSort
      | array items =>
          cases k with
          | array others =>
              simp only [toList_array, List.cons_append,
                List.append_assoc, List.nil_append] at h
              rcases
                  Severs.listed_append_inj (by decide) (by decide)
                    (text_opens (by decide)) ih
                    (List.cons.inj h).2 with
                ⟨rfl, hRest⟩
              exact ⟨rfl, hRest⟩
          | _ => cases hSort
      | object entries =>
          cases k with
          | object others =>
              simp only [toList_object, List.cons_append,
                List.append_assoc, List.nil_append] at h
              have hOpens :
                  ∀ e : String × Json,
                    ∃ c rest,
                      entryChars e = c :: rest
                        ∧ c ≠ closingBrace := by
                intro e
                rw [entryChars, Text.toList_jsonQuoted]
                exact ⟨_, _, rfl, by decide⟩
              have hSevers :
                  ∀ e ∈ entries, Severs entryChars e := by
                intro e he
                exact severs_entryChars
                  (ih e.2 (List.mem_map_of_mem he))
              rcases
                  Severs.listed_append_inj (by decide) (by decide)
                    hOpens hSevers (List.cons.inj h).2 with
                ⟨rfl, hRest⟩
              exact ⟨rfl, hRest⟩
          | _ => cases hSort

/- Trees with one text are equal. -/
theorem text_inj {i j : Json} : i.text = j.text ↔ i = j := by
  constructor
  · intro h
    have hEnd : Stops [] := nofun
    exact (severs_text i hEnd hEnd
      (congrArg (fun t => String.toList t ++ []) h)).1
  · rintro rfl
    rfl

end Json

end FactBase
