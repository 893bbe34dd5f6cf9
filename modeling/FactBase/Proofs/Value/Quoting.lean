import Mathlib.Data.List.Basic
import FactBase.Proofs.Text.Reading
import FactBase.Text.Quoted

/-
  This file shows that a quoted text can be read in one way
  only, even if more text follows it: its first character is
  the mark that ends it, and every escape tells by its sign
  how long it is.  So can a quoted byte string.

  Key definitions include:
    * `Text.hexValue`
    * `Text.escapeWidth`
    * `Text.unescaped`
    * `Text.Escapes`

  Key theorems include:
    * `Text.hexValue_hexDigits`
    * `Text.escapes_append_inj`
    * `Text.quoted_append_inj`
    * `Text.quotedBytes_append_inj`
-/

------------------------------------------------------------
-- Hexadecimal Digits
------------------------------------------------------------

namespace FactBase

namespace Text

/- The value of a hexadecimal digit. -/
def hexDigitValue (c : Char) : Nat :=
  if c.toNat < 0x3A then c.toNat - 0x30 else c.toNat - 0x57

/- The number that hexadecimal digits stand for. -/
def hexValue (cs : List Char) : Nat :=
  cs.foldl (fun n c => 16 * n + hexDigitValue c) 0

/- A digit has the value that it is the digit of. -/
theorem hexDigitValue_digitChar
    {n : Nat}
    (h : n < 16) : hexDigitValue n.digitChar = n := by
  decide +revert

/- Digits are read from the first one to the last. -/
theorem hexValue_concat
    (cs : List Char)
    (c : Char) :
    hexValue (cs ++ [c]) = 16 * hexValue cs + hexDigitValue c := by
  simp [hexValue]

/- The digits of a number stand for it. -/
theorem hexValue_toDigits (n : Nat) :
    hexValue (Nat.toDigits 16 n) = n := by
  induction n using Nat.strongRecOn with
  | _ n ih =>
      rw [Nat.toDigits_eq_if (by omega)]
      split
      next hSmall =>
        have hOne : hexValue [n.digitChar] = n := by
          simpa [hexValue] using hexDigitValue_digitChar hSmall
        exact hOne
      next hLarge =>
        rw [hexValue_concat, ih _ (by omega),
          hexDigitValue_digitChar (Nat.mod_lt n (by omega))]
        omega

/- Zeros in front change nothing. -/
theorem hexValue_hexDigits (width n : Nat) :
    hexValue (hexDigits width n) = n := by
  have hZeros :
      ∀ k, (List.replicate k '0').foldl
          (fun n c => 16 * n + hexDigitValue c) 0
        = 0 := by
    intro k
    induction k with
    | zero => rfl
    | succ k ih => exact ih
  have hDigits := hexValue_toDigits n
  unfold hexValue at hDigits ⊢
  unfold hexDigits
  rw [List.foldl_append, hZeros, hDigits]

/- A number that is not too large has the width it is given. -/
theorem length_hexDigits
    {width n : Nat}
    (hWidth : 0 < width)
    (h : n < Nat.pow 16 width) :
    (hexDigits width n).length = width := by
  have hLength :=
    (Nat.length_toDigits_le_iff (by omega) hWidth).mpr h
  simp only [hexDigits, List.length_append,
    List.length_replicate]
  omega

------------------------------------------------------------
-- Escapes
------------------------------------------------------------

/- How many digits follow the sign of an escape. -/
def escapeWidth (sign : Char) : Nat :=
  if sign = 'x' then 2
  else if sign = 'u' then 4
  else if sign = 'U' then 8
  else 0

/- The character that a sign and digits stand for. -/
def unescaped
    (sign : Char)
    (digits : List Char) : Char :=
  if digits.isEmpty then
    if sign = 'n' then '\n'
    else if sign = 'r' then '\r'
    else if sign = 't' then '\t'
    else sign
  else Char.ofNat (hexValue digits)

/- The quotation marks. -/
def IsQuoteMark (mark : Char) : Prop :=
  mark = singleQuote ∨ mark = doubleQuote

/- Digits are read back as the character that they number. -/
private theorem unescaped_hexDigits
    {width : Nat}
    {c : Char}
    (sign : Char)
    (hWidth : 0 < width)
    (h : c.toNat < Nat.pow 16 width) :
    unescaped sign (hexDigits width c.toNat) = c := by
  have hLength := length_hexDigits hWidth h
  have hSome : (hexDigits width c.toNat).isEmpty = false := by
    rw [List.isEmpty_eq_false_iff]
    intro hNone
    rw [hNone, List.length_nil] at hLength
    omega
  rw [unescaped, hSome, hexValue_hexDigits]
  exact Char.ofNat_toNat c

/-
  What is written for a character between marks: the character
  itself, or an escape, where a sign follows the backslash,
  and the digits that the sign calls for.
-/
def Escapes
    (mark c : Char)
    (written : List Char) : Prop :=
  (written = [c] ∧ c ≠ mark ∧ c ≠ '\\')
    ∨ ∃ sign digits,
      written = '\\' :: sign :: digits
        ∧ digits.length = escapeWidth sign
        ∧ unescaped sign digits = c

/- A character may be written by its number. -/
theorem escapes_numberedEscape (mark c : Char) :
    Escapes mark c (numberedEscape c.toNat) := by
  unfold numberedEscape
  split
  next hSmall =>
    exact
      .inr
        ⟨'x', _, rfl, length_hexDigits (by omega) hSmall,
          unescaped_hexDigits 'x' (by omega) hSmall⟩
  split
  next hMedium =>
    exact
      .inr
        ⟨'u', _, rfl, length_hexDigits (by omega) hMedium,
          unescaped_hexDigits 'u' (by omega) hMedium⟩
  next =>
    have hLarge : c.toNat < 16 ^ 8 := by
      have hValid := c.valid
      simp only [UInt32.isValidChar, Nat.isValidChar]
        at hValid
      unfold Char.toNat
      omega
    exact
      .inr
        ⟨'U', _, rfl, length_hexDigits (by omega) hLarge,
          unescaped_hexDigits 'U' (by omega) hLarge⟩

/- Characters of a text are written so. -/
theorem escapes_escape
    {mark : Char}
    (hMark : IsQuoteMark mark)
    (c : Char) : Escapes mark c (escape mark c) := by
  unfold escape
  split
  next hPlain =>
    have hSign : c = singleQuote ∨ c = doubleQuote ∨ c = '\\' := by
      unfold IsQuoteMark at hMark
      simp only [Bool.or_eq_true, beq_iff_eq] at hPlain
      rcases hPlain with rfl | rfl <;> tauto
    refine .inr ⟨c, [], rfl, ?_⟩
    rcases hSign with rfl | rfl | rfl <;> decide
  next hPlain =>
    simp only [Bool.or_eq_true, beq_iff_eq, not_or] at hPlain
    split
    next hLine =>
      exact .inr ⟨'n', [], rfl, rfl, (beq_iff_eq.mp hLine).symm⟩
    split
    next hReturn =>
      exact .inr ⟨'r', [], rfl, rfl, (beq_iff_eq.mp hReturn).symm⟩
    split
    next hTab =>
      exact .inr ⟨'t', [], rfl, rfl, (beq_iff_eq.mp hTab).symm⟩
    split
    · exact .inl ⟨rfl, hPlain⟩
    · exact escapes_numberedEscape mark c

variable {mark c d : Char}
variable {cs ds r u : List Char}

/- What is written for a character is known from its start. -/
theorem Escapes.append_inj
    (hc : Escapes mark c cs)
    (hd : Escapes mark d ds)
    (h : cs ++ r = ds ++ u) : c = d ∧ r = u := by
  rcases hc with
    ⟨rfl, _, hPlain⟩ | ⟨sign, digits, rfl, hLength, hRead⟩
  · rcases hd with ⟨rfl, _, _⟩ | ⟨_, _, rfl, _, _⟩
    · exact List.cons.inj h
    · exact absurd (List.cons.inj h).1 hPlain
  · rcases hd with
      ⟨rfl, _, hPlain⟩ | ⟨sign', digits', rfl, hLength', hRead'⟩
    · exact absurd (List.cons.inj h).1.symm hPlain
    · rcases List.cons.inj (List.cons.inj h).2 with
        ⟨rfl, hRest⟩
      rcases List.append_inj hRest
          (hLength.trans hLength'.symm) with ⟨rfl, hEnd⟩
      exact ⟨hRead.symm.trans hRead', hEnd⟩

/- Nothing that is written starts with the mark. -/
theorem Escapes.append_ne
    (hMark : IsQuoteMark mark)
    (hc : Escapes mark c cs) : cs ++ r ≠ mark :: u := by
  intro h
  rcases hc with ⟨rfl, hOther, _⟩ | ⟨sign, digits, rfl, _, _⟩
  · exact hOther (List.cons.inj h).1
  · have hSlash : '\\' = mark := (List.cons.inj h).1
    rcases hMark with hSingle | hDouble
    · rw [hSingle] at hSlash
      exact absurd hSlash (by decide)
    · rw [hDouble] at hSlash
      exact absurd hSlash (by decide)

/- What stands between marks is known up to the closing one. -/
theorem escapes_append_inj
    {f : Char → List Char}
    (hMark : IsQuoteMark mark)
    (hEscapes : ∀ c, Escapes mark c (f c))
    (h :
      cs.flatMap f ++ mark :: r = ds.flatMap f ++ mark :: u) :
    cs = ds ∧ r = u :=
  flatMap_append_inj (P := fun _ => True) (fun _ _ => trivial)
    (fun c _ _ => (hEscapes c).append_ne hMark)
    (fun c _ d _ _ _ _ _ =>
      (hEscapes c).append_inj (hEscapes d)) h

------------------------------------------------------------
-- Quoted Texts
------------------------------------------------------------

/- A text is enclosed by quotation marks. -/
theorem isQuoteMark_quoteMark (cs : List Char) :
    IsQuoteMark (quoteMark cs) := by
  unfold quoteMark IsQuoteMark
  split
  · exact .inr rfl
  · exact .inl rfl

/- The characters of a quoted text. -/
theorem toList_quoted (s : String) :
    (quoted s).toList
      = quoteMark s.toList
        :: (s.toList.flatMap (escape (quoteMark s.toList))
          ++ [quoteMark s.toList]) := by
  rw [quoted, String.toList_ofList, List.cons_append]

/- A text in quotes is known from where it starts. -/
theorem quoted_append_inj
    {s t : String}
    (h : (quoted s).toList ++ r = (quoted t).toList ++ u) :
    s = t ∧ r = u := by
  rw [toList_quoted, toList_quoted, List.cons_append,
    List.cons_append, List.append_assoc, List.append_assoc] at h
  rcases List.cons.inj h with ⟨hMark, hRest⟩
  rw [← hMark] at hRest
  have hQuote := isQuoteMark_quoteMark s.toList
  rcases escapes_append_inj hQuote (escapes_escape hQuote) hRest
    with ⟨hText, hEnd⟩
  exact ⟨String.toList_inj.mp hText, hEnd⟩

------------------------------------------------------------
-- Quoted Byte Strings
------------------------------------------------------------

/- The character of a byte. -/
def byteChar (b : UInt8) : Char :=
  Char.ofNat b.toNat

/- How the character of a byte is written between `mark`s. -/
def byteEscape (mark c : Char) : List Char :=
  if c.toNat < 0x80 then escape mark c
  else numberedEscape c.toNat

/- It is written as characters of a text are, or by its number. -/
theorem escapes_byteEscape
    (hMark : IsQuoteMark mark)
    (c : Char) : Escapes mark c (byteEscape mark c) := by
  unfold byteEscape
  split
  · exact escapes_escape hMark c
  · exact escapes_numberedEscape mark c

/- Bytes have characters of their own. -/
theorem byteChar_injective : Function.Injective byteChar := by
  intro a b h
  have hNat : ∀ b : UInt8, (byteChar b).toNat = b.toNat := by
    intro b
    have hLess := b.toNat_lt
    have hValid : b.toNat.isValidChar := .inl (by omega)
    rw [byteChar, Char.ofNat, dif_pos hValid]
    rfl
  rw [← UInt8.toNat_inj, ← hNat, h, hNat]

/- The characters of a quoted byte string. -/
theorem toList_quotedBytes (bytes : List UInt8) :
    (quotedBytes bytes).toList
      = 'b' :: quoteMark (bytes.map byteChar)
        :: ((bytes.map byteChar).flatMap
            (byteEscape (quoteMark (bytes.map byteChar)))
          ++ [quoteMark (bytes.map byteChar)]) := by
  rw [quotedBytes, String.toList_ofList]
  rfl

/- A byte string in quotes is known from where it starts. -/
theorem quotedBytes_append_inj
    {as bs : List UInt8}
    (h :
      (quotedBytes as).toList ++ r
        = (quotedBytes bs).toList ++ u) :
    as = bs ∧ r = u := by
  rw [toList_quotedBytes, toList_quotedBytes] at h
  simp only [List.cons_append, List.append_assoc] at h
  rcases List.cons.inj (List.cons.inj h).2 with ⟨hMark, hRest⟩
  rw [← hMark] at hRest
  have hQuote := isQuoteMark_quoteMark (as.map byteChar)
  rcases escapes_append_inj hQuote (escapes_byteEscape hQuote)
      hRest with
    ⟨hBytes, hEnd⟩
  exact ⟨byteChar_injective.list_map hBytes, hEnd⟩

end Text

end FactBase
