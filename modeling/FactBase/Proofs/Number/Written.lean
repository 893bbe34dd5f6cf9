import FactBase.Proofs.Number.Shortest
import FactBase.Proofs.Text.Reading

/-
  This file takes written numbers apart: a whole part, maybe a
  fraction behind a point, and maybe an exponent with its
  sign.  The parts are known from the text, and so is the
  number that they stand for.  The text of a binary number
  stands for one that rounds to it, so no two numbers have the
  same text, and none has that of an integer.

  Key definitions include:
    * `Written`
    * `Written.chars`
    * `Written.value`
    * `Written.ofLayout`
    * `Binary64.written`
    * `IsNumeral`

  Key theorems include:
    * `Written.chars_inj`
    * `Written.value_ofLayout`
    * `Binary64.toList_text_finite`
    * `Binary64.rounds_written`
    * `Binary64.text_inj`
    * `Binary64.text_ne_toString`
    * `IsNumeral.not_append_plus`
-/

------------------------------------------------------------
-- Runs of Digits
------------------------------------------------------------

namespace FactBase

namespace Binary64

/- Digits are read from the first one to the last. -/
theorem digitsValue_eq (cs : List Char) :
    digitsValue cs = Nat.ofDigitChars 10 cs 0 := by
  simp only [digitsValue, Nat.ofDigitChars_eq_foldl,
    Nat.mul_comm]

/- Digits in front count as many tens as digits follow. -/
theorem digitsValue_append (cs ds : List Char) :
    digitsValue (cs ++ ds)
      = digitsValue cs * 10 ^ ds.length + digitsValue ds := by
  simp only [digitsValue_eq, Nat.ofDigitChars_append]
  rw [Nat.ofDigitChars_eq_ofDigitChars_zero, Nat.mul_comm]

/- Zeros stand for nothing. -/
theorem digitsValue_zeros (n : ℕ) :
    digitsValue (List.replicate n '0') = 0 := by
  rw [digitsValue_eq, Nat.ofDigitChars_replicate_zero,
    Nat.mul_zero]

/- The decimal digits of a number stand for it. -/
theorem digitsValue_toDigits (n : ℕ) :
    digitsValue (Nat.toDigits 10 n) = n := by
  rw [digitsValue_eq, Nat.ofDigitChars_ten_toDigits]

end Binary64

/- They are digits. -/
theorem isDigit_of_mem_toDigits
    {n : ℕ}
    {c : Char}
    (h : c ∈ Nat.toDigits 10 n) : c.isDigit = true :=
  Nat.isDigit_of_mem_toDigits (by omega) (Nat.le_refl 10) h

------------------------------------------------------------
-- Written Numbers
------------------------------------------------------------

/-
  The parts of a written number: the digits before and behind
  the point, and the exponent with its sign.
-/
structure Written where
  whole : List Char
  fraction : List Char
  power : Option (Bool × List Char)

namespace Written

/- A point stands before a fraction. -/
def pointChars (w : Written) : List Char :=
  if w.fraction.isEmpty then [] else '.' :: w.fraction

/- The sign of an exponent. -/
def signChar (negative : Bool) : Char :=
  if negative then '-' else '+'

/- The letter `e` stands before an exponent. -/
def powerChars (w : Written) : List Char :=
  match w.power with
  | none => []
  | some (negative, size) => 'e' :: signChar negative :: size

/- The number as it is written. -/
def chars (w : Written) : List Char :=
  w.whole ++ (w.pointChars ++ w.powerChars)

/- The exponent that is written, or none. -/
def powerValue (w : Written) : ℤ :=
  match w.power with
  | none => 0
  | some (negative, size) =>
      Binary64.exponentValue (signChar negative :: size)

/- The rational number that is written. -/
def value (w : Written) : ℚ :=
  Binary64.digitsValue (w.whole ++ w.fraction)
    * 10 ^ (w.powerValue - w.fraction.length)

/- The parts are digits; the whole part and the exponent have some. -/
structure WellFormed (w : Written) : Prop where
  whole_ne_nil : w.whole ≠ []
  whole_digits : ∀ c ∈ w.whole, c.isDigit = true
  fraction_digits : ∀ c ∈ w.fraction, c.isDigit = true
  power_ne_nil : ∀ p ∈ w.power, p.2 ≠ []
  power_digits : ∀ p ∈ w.power, ∀ c ∈ p.2, c.isDigit = true

/- It is not just a whole number: there is a point or an exponent. -/
def IsFractional (w : Written) : Prop :=
  w.fraction ≠ [] ∨ w.power ≠ none

variable {v w : Written}

/- No digit follows the whole part. -/
theorem head?_rest (w : Written) :
    ∀ c ∈ (w.pointChars ++ w.powerChars).head?,
      c.isDigit = false := by
  unfold pointChars powerChars
  intro c hc
  split at hc
  · rw [List.nil_append] at hc
    split at hc
    · cases hc
    · rw [← Option.some.inj hc]
      rfl
  · rw [← Option.some.inj hc]
    rfl

/- Nor the fraction. -/
theorem head?_powerChars (w : Written) :
    ∀ c ∈ w.powerChars.head?, c.isDigit = false := by
  unfold powerChars
  intro c hc
  split at hc
  · cases hc
  · rw [← Option.some.inj hc]
    rfl

/- The exponent is known from what is written. -/
theorem power_inj (h : v.powerChars = w.powerChars) :
    v.power = w.power := by
  have hSign :
      ∀ a b : Bool, signChar a = signChar b → a = b := by
    decide
  unfold powerChars at h
  cases hv : v.power with
  | none =>
      cases hw : w.power with
      | none => rfl
      | some q =>
          rw [hv, hw] at h
          cases h
  | some p =>
      cases hw : w.power with
      | none =>
          rw [hv, hw] at h
          cases h
      | some q =>
          rw [hv, hw] at h
          rcases List.cons.inj (List.cons.inj h).2 with
            ⟨hNegative, hSize⟩
          rw [Prod.ext (hSign _ _ hNegative) hSize]

/- The parts are known from what is written. -/
theorem chars_inj
    (hv : v.WellFormed)
    (hw : w.WellFormed)
    (h : v.chars = w.chars) : v = w := by
  have hPoint :
      ∀ u : Written, u.powerChars.head? ≠ some '.' := by
    intro u
    unfold powerChars
    split <;> simp
  rcases append_inj_of_all hv.whole_digits hw.whole_digits
      v.head?_rest w.head?_rest h with ⟨hWhole, hRest⟩
  have hParts :
      v.fraction = w.fraction ∧ v.powerChars = w.powerChars := by
    unfold pointChars at hRest
    cases hvNone : v.fraction.isEmpty <;>
      cases hwNone : w.fraction.isEmpty <;>
        simp only [hvNone, hwNone, Bool.false_eq_true, if_true,
          if_false, List.nil_append, List.cons_append] at hRest
    · exact
        append_inj_of_all hv.fraction_digits hw.fraction_digits
          v.head?_powerChars w.head?_powerChars
          (List.cons.inj hRest).2
    · exact absurd (by rw [← hRest]; rfl) (hPoint w)
    · exact absurd (by rw [hRest]; rfl) (hPoint v)
    · rw [List.isEmpty_iff] at hvNone hwNone
      rw [hvNone, hwNone]
      exact ⟨rfl, hRest⟩
  have hPower := power_inj hParts.2
  rcases v with ⟨_, _, _⟩
  rcases w with ⟨_, _, _⟩
  simp only at hWhole hParts hPower
  rw [hWhole, hParts.1, hPower]

/- The number starts with a digit. -/
theorem WellFormed.exists_cons (h : w.WellFormed) :
    ∃ c rest, w.chars = c :: rest ∧ c.isDigit = true := by
  rcases List.exists_cons_of_ne_nil h.whole_ne_nil with
    ⟨c, rest, hWhole⟩
  refine ⟨c, rest ++ (w.pointChars ++ w.powerChars), ?_, ?_⟩
  · rw [chars, hWhole, List.cons_append]
  · exact h.whole_digits c (hWhole ▸ List.mem_cons_self)

------------------------------------------------------------
-- Layouts
------------------------------------------------------------

/- The digits of an exponent, of which there are at least two. -/
def sizeDigits (k : ℤ) : List Char :=
  let size := Nat.toDigits 10 k.natAbs
  if size.length < 2 then '0' :: size else size

/- The parts of a layout. -/
def ofLayout
    (digits : List Char)
    (k : ℤ) : Written :=
  if -4 ≤ k ∧ k < 0 then
    { whole := ['0']
      fraction := List.replicate (-k - 1).toNat '0' ++ digits
      power := none }
  else if 0 ≤ k ∧ k < 16 then
    if digits.length ≤ k.toNat + 1 then
      { whole :=
          digits
            ++ List.replicate (k.toNat + 1 - digits.length) '0'
        fraction := ['0']
        power := none }
    else
      { whole := digits.take (k.toNat + 1)
        fraction := digits.drop (k.toNat + 1)
        power := none }
  else
    { whole := digits.take 1
      fraction := digits.drop 1
      power := some (k < 0, sizeDigits k) }

/- The digits of an exponent stand for its size. -/
theorem digitsValue_sizeDigits (k : ℤ) :
    Binary64.digitsValue (sizeDigits k) = k.natAbs := by
  unfold sizeDigits
  simp only
  split
  · rw [← List.singleton_append, Binary64.digitsValue_append,
      Binary64.digitsValue_toDigits]
    simp [Binary64.digitsValue]
  · rw [Binary64.digitsValue_toDigits]

/- With their sign they stand for the exponent. -/
theorem exponentValue_sizeDigits (k : ℤ) :
    Binary64.exponentValue (signChar (k < 0) :: sizeDigits k)
      = k := by
  unfold signChar
  split
  next hNegative =>
    have hLess := of_decide_eq_true hNegative
    rw [Binary64.exponentValue, digitsValue_sizeDigits]
    omega
  next hPositive =>
    have hMore := of_decide_eq_false (Bool.eq_false_iff.mpr hPositive)
    rw [Binary64.exponentValue, digitsValue_sizeDigits]
    omega

/- Its parts are digits and exponents. -/
theorem mem_sizeDigits
    {k : ℤ}
    {c : Char}
    (h : c ∈ sizeDigits k) : c.isDigit = true := by
  unfold sizeDigits at h
  simp only at h
  split at h
  · rcases List.mem_cons.mp h with rfl | hDigit
    · rfl
    · exact isDigit_of_mem_toDigits hDigit
  · exact isDigit_of_mem_toDigits h

variable {digits : List Char}

/- The parts of a layout are digits. -/
theorem wellFormed_ofLayout
    (hSome : digits ≠ [])
    (hDigits : ∀ c ∈ digits, c.isDigit = true)
    (k : ℤ) : (ofLayout digits k).WellFormed := by
  have hZeros :
      ∀ (n : ℕ), ∀ c ∈ List.replicate n '0', c.isDigit = true := by
    intro n c hc
    rw [List.eq_of_mem_replicate hc]
    rfl
  have hSize : sizeDigits k ≠ [] := by
    unfold sizeDigits
    simp only
    split
    · exact nofun
    · exact Nat.toDigits_ne_nil
  unfold ofLayout
  split
  · refine ⟨nofun, by simp, ?_, nofun, nofun⟩
    intro c hc
    rcases List.mem_append.mp hc with hZero | hDigit
    · exact hZeros _ c hZero
    · exact hDigits c hDigit
  split
  · split
    · refine ⟨?_, ?_, by simp, nofun, nofun⟩
      · exact List.append_ne_nil_of_left_ne_nil hSome _
      · intro c hc
        rcases List.mem_append.mp hc with hDigit | hZero
        · exact hDigits c hDigit
        · exact hZeros _ c hZero
    · exact
        ⟨by simpa using hSome,
          fun c hc => hDigits c (List.mem_of_mem_take hc),
          fun c hc => hDigits c (List.mem_of_mem_drop hc),
          nofun, nofun⟩
  · refine
      ⟨by simpa using hSome,
        fun c hc => hDigits c (List.mem_of_mem_take hc),
        fun c hc => hDigits c (List.mem_of_mem_drop hc), ?_, ?_⟩
    · rintro _ ⟨⟩
      exact hSize
    · rintro _ ⟨⟩ c hc
      exact mem_sizeDigits hc

/- There is a point or an exponent in it. -/
theorem isFractional_ofLayout
    (hSome : digits ≠ [])
    (k : ℤ) : (ofLayout digits k).IsFractional := by
  unfold ofLayout IsFractional
  split
  · exact .inl (List.append_ne_nil_of_right_ne_nil _ hSome)
  split
  · split
    · exact .inl nofun
    next hLong =>
      refine .inl ?_
      simp only [ne_eq, List.drop_eq_nil_iff]
      omega
  · exact .inr nofun

/- It stands for its digits, with the point moved to its place. -/
theorem value_ofLayout
    (hSome : digits ≠ [])
    (k : ℤ) :
    (ofLayout digits k).value
      = Binary64.digitsValue digits
        * 10 ^ (k + 1 - digits.length) := by
  have hLength := List.length_pos_iff.mpr hSome
  unfold ofLayout
  split
  next hSmall =>
    have hShift :
        0 - (((-k - 1).toNat + digits.length : ℕ) : ℤ)
          = k + 1 - digits.length := by
      omega
    simp only [value, powerValue, List.length_append,
      List.length_replicate, hShift]
    rw [List.singleton_append, ← List.cons_append,
      ← List.replicate_succ, Binary64.digitsValue_append,
      Binary64.digitsValue_zeros, Nat.zero_mul, Nat.zero_add]
  split
  · split
    next hFits =>
      have hShift :
          k + 1 - digits.length
            = ((k.toNat + 1 - digits.length + 1 : ℕ) : ℤ)
              + (0 - 1) := by
        omega
      simp only [value, powerValue, List.length_singleton,
        Nat.cast_one]
      rw [List.append_assoc, ← List.replicate_succ',
        Binary64.digitsValue_append,
        Binary64.digitsValue_zeros, hShift,
        List.length_replicate, zpow_add₀ (by norm_num),
        zpow_natCast]
      push_cast
      ring
    next hLong =>
      have hShift :
          0 - ((digits.length - (k.toNat + 1) : ℕ) : ℤ)
            = k + 1 - digits.length := by
        omega
      simp only [value, powerValue, List.take_append_drop,
        List.length_drop, hShift]
  · have hShift :
        k - ((digits.length - 1 : ℕ) : ℤ)
          = k + 1 - digits.length := by
      omega
    simp only [value, powerValue, List.take_append_drop,
      List.length_drop, exponentValue_sizeDigits, hShift]

end Written

namespace Binary64

/- The exponent is written by its digits. -/
theorem toList_size (k : ℤ) :
    (if (toString k.natAbs).length < 2 then
        "0" ++ toString k.natAbs
      else toString k.natAbs).toList
      = Written.sizeDigits k := by
  have hSize :
      (toString k.natAbs).toList = Nat.toDigits 10 k.natAbs := by
    rw [Nat.toString_eq_repr, Nat.toList_repr]
  unfold Written.sizeDigits
  rw [← hSize, ← String.length_toList, apply_ite String.toList,
    String.toList_append]
  rfl

/- A layout is what its parts make. -/
theorem toList_layout
    {digits : List Char}
    (h : digits ≠ [])
    (k : ℤ) :
    (layout digits k).toList
      = (Written.ofLayout digits k).chars := by
  unfold layout Written.ofLayout
  simp only
  split
  · simp [Written.chars, Written.pointChars, Written.powerChars,
      h]
  split
  · split
    · simp [Written.chars, Written.pointChars,
        Written.powerChars]
    next hLong =>
      have hMore : k.toNat + 1 < digits.length := by omega
      simp [Written.chars, Written.pointChars,
        Written.powerChars, hMore]
  · have hSign :
        (if k < 0 then "e-" else "e+").toList
          = ['e', Written.signChar (decide (k < 0))] := by
      split <;> simp [*, Written.signChar]
    rw [String.toList_append, String.toList_append,
      String.toList_append, String.toList_ofList, hSign,
      toList_size, apply_ite String.toList,
      String.toList_append, String.toList_ofList]
    rcases digits with _ | ⟨d, _ | ⟨d', ds⟩⟩ <;>
      simp [Written.chars, Written.pointChars,
        Written.powerChars]

------------------------------------------------------------
-- Texts of Binary Numbers
------------------------------------------------------------

/- The parts of the text of a finite number. -/
def written
    (m : ℕ)
    (e : ℤ) : Written :=
  if m = 0 then { whole := ['0'], fraction := ['0'], power := none }
  else
    let d := Decimal.shortest m e
    let digits := Nat.toDigits 10 d.digits
    Written.ofLayout digits (d.exponent + digits.length - 1)

/- The sign that is written. -/
def signChars (negative : Bool) : List Char :=
  if negative then ['-'] else []

variable {m : ℕ}
variable {e : ℤ}

/- The text of a finite number is its sign and these parts. -/
theorem toList_text_finite (negative : Bool) :
    (text (.finite negative m e)).toList
      = signChars negative ++ (written m e).chars := by
  have hMark :
      (if negative then "-" else "").toList
        = signChars negative := by
    cases negative <;> rfl
  unfold text written
  simp only [beq_iff_eq]
  split
  · rw [String.toList_append, hMark]
    rfl
  · rw [String.toList_append, hMark,
      toList_layout Nat.toDigits_ne_nil]

/- The parts are digits. -/
theorem wellFormed_written (m : ℕ) (e : ℤ) :
    (written m e).WellFormed := by
  unfold written
  split
  · exact ⟨nofun, by simp, by simp, nofun, nofun⟩
  · exact
      Written.wellFormed_ofLayout Nat.toDigits_ne_nil
        (fun _ hc => isDigit_of_mem_toDigits hc) _

/- There is a point or an exponent. -/
theorem isFractional_written (m : ℕ) (e : ℤ) :
    (written m e).IsFractional := by
  unfold written
  split
  · exact .inl nofun
  · exact Written.isFractional_ofLayout Nat.toDigits_ne_nil _

/- They stand for a number that rounds to the finite one. -/
theorem rounds_written (m : ℕ) (e : ℤ) :
    Rounds m e (written m e).value := by
  unfold written
  split
  next hZero =>
    subst hZero
    have hNone :
        Written.value
            { whole := ['0'], fraction := ['0'], power := none }
          = 0 := by
      have hDigits : digitsValue ['0', '0'] = 0 := rfl
      simp [Written.value, hDigits]
    have hLow : lowEnd 0 e = 0 := by
      unfold lowEnd
      split <;> rfl
    rw [hNone, Rounds, hLow]
    refine ⟨by simp, by positivity, fun hOdd => ?_⟩
    cases hOdd
  next hSome =>
    have hValue :
        (Written.ofLayout
            (Nat.toDigits 10 (Decimal.shortest m e).digits)
            ((Decimal.shortest m e).exponent
              + (Nat.toDigits 10
                (Decimal.shortest m e).digits).length - 1)).value
          = (Decimal.shortest m e).value := by
      rw [Written.value_ofLayout Nat.toDigits_ne_nil,
        digitsValue_toDigits, Decimal.value]
      congr 2
      omega
    simp only [hValue]
    exact rounds_shortest (Nat.pos_of_ne_zero hSome)

/- Sign and parts are known from what is written. -/
theorem signChars_append_inj
    {a b : Bool}
    {v w : Written}
    (hv : v.WellFormed)
    (hw : w.WellFormed)
    (h : signChars a ++ v.chars = signChars b ++ w.chars) :
    a = b ∧ v = w := by
  have hDigit :
      ∀ {u : Written} {cs : List Char}, u.WellFormed →
        u.chars ≠ '-' :: cs := by
    intro u cs hu hSame
    rcases hu.exists_cons with ⟨c, rest, hFirst, hDigit⟩
    rw [hFirst] at hSame
    rw [(List.cons.inj hSame).1] at hDigit
    cases hDigit
  cases a <;> cases b
  · exact ⟨rfl, Written.chars_inj hv hw h⟩
  · exact absurd h (hDigit hv)
  · exact absurd h.symm (hDigit hw)
  · exact ⟨rfl, Written.chars_inj hv hw (List.cons.inj h).2⟩

/- The text of an infinite number. -/
theorem toList_text_infinite (negative : Bool) :
    (text (.infinite negative)).toList
      = signChars negative ++ ['i', 'n', 'f'] := by
  cases negative <;> rfl

/- It is not that of a finite one, nor of an integer. -/
theorem infinite_ne
    {a b : Bool}
    {w : Written}
    (hw : w.WellFormed) :
    signChars a ++ ['i', 'n', 'f'] ≠ signChars b ++ w.chars := by
  intro h
  rcases hw.exists_cons with ⟨c, rest, hFirst, hDigit⟩
  rw [hFirst] at h
  cases a <;> cases b
  · rw [← (List.cons.inj h).1] at hDigit
    cases hDigit
  · cases (List.cons.inj h).1
  · rw [← (List.cons.inj h).1] at hDigit
    cases hDigit
  · rw [← (List.cons.inj (List.cons.inj h).2).1] at hDigit
    cases hDigit

/- Numbers with one text are equal. -/
theorem text_inj
    {x y : Binary64}
    (hx : x.canonical = true)
    (hy : y.canonical = true)
    (hxDefined : x.isUndefined = false)
    (hyDefined : y.isUndefined = false)
    (h : x.text = y.text) : x = y := by
  have hChars := congrArg String.toList h
  cases x with
  | undefined _ => cases hxDefined
  | infinite a =>
      rw [toList_text_infinite] at hChars
      cases y with
      | undefined _ => cases hyDefined
      | infinite b =>
          rw [toList_text_infinite] at hChars
          have hSign := List.append_cancel_right hChars
          cases a <;> cases b <;> first | rfl | cases hSign
      | finite b n j =>
          rw [toList_text_finite] at hChars
          exact absurd hChars (infinite_ne (wellFormed_written n j))
  | finite a m e =>
      rw [toList_text_finite] at hChars
      cases y with
      | undefined _ => cases hyDefined
      | infinite b =>
          rw [toList_text_infinite] at hChars
          exact
            absurd hChars.symm (infinite_ne (wellFormed_written m e))
      | finite b n j =>
          rw [toList_text_finite] at hChars
          rcases signChars_append_inj (wellFormed_written m e)
              (wellFormed_written n j) hChars with
            ⟨rfl, hParts⟩
          have hRounds := rounds_written n j
          rw [← hParts] at hRounds
          rcases (rounds_written m e).unique hx hy hRounds with
            ⟨rfl, rfl⟩
          rfl

end Binary64

------------------------------------------------------------
-- Numerals
------------------------------------------------------------

open Binary64

/- The parts of the text of an integer. -/
def Written.ofNat (n : ℕ) : Written where
  whole := Nat.toDigits 10 n
  fraction := []
  power := none

/- They are digits. -/
theorem Written.wellFormed_ofNat (n : ℕ) :
    (Written.ofNat n).WellFormed :=
  ⟨Nat.toDigits_ne_nil,
    fun _ hc => isDigit_of_mem_toDigits hc,
    nofun, nofun, nofun⟩

/- The digits of a natural number are all that is written. -/
theorem Written.chars_ofNat (n : ℕ) :
    (Written.ofNat n).chars = n.repr.toList := by
  rw [Nat.toList_repr]
  simp [chars, ofNat, pointChars, powerChars]

/- An integer is written by its sign and its digits. -/
theorem toList_toString_int (n : ℤ) :
    (toString n).toList
      = signChars (n < 0) ++ (Written.ofNat n.natAbs).chars := by
  rw [Written.chars_ofNat, Int.toString_eq_repr]
  cases n with
  | ofNat n => rfl
  | negSucc n =>
      have hSign : Int.negSucc n < 0 := Int.negSucc_lt_zero n
      rw [Int.repr, String.toList_append, decide_eq_true hSign]
      rfl

/- Integers with one text are equal. -/
theorem toString_int_inj
    {m n : ℤ}
    (h : toString m = toString n) : m = n := by
  have hChars := congrArg String.toList h
  rw [toList_toString_int, toList_toString_int] at hChars
  rcases signChars_append_inj (Written.wellFormed_ofNat _)
      (Written.wellFormed_ofNat _) hChars with
    ⟨hSign, hParts⟩
  have hSize :=
    congrArg (fun w => digitsValue (Written.whole w)) hParts
  simp only [Written.ofNat, digitsValue_toDigits] at hSize
  have hBelow := decide_eq_decide.mp hSign
  omega

/- No binary number has the text of an integer. -/
theorem text_ne_toString
    {x : Binary64}
    (hDefined : x.isUndefined = false)
    (n : ℤ) : x.text ≠ toString n := by
  intro h
  have hChars := congrArg String.toList h
  have hWhole := Written.wellFormed_ofNat n.natAbs
  rw [toList_toString_int] at hChars
  cases x with
  | undefined _ => cases hDefined
  | infinite a =>
      rw [toList_text_infinite] at hChars
      exact infinite_ne hWhole hChars
  | finite a m e =>
      rw [toList_text_finite] at hChars
      have hParts :=
        (signChars_append_inj (wellFormed_written m e) hWhole
          hChars).2
      have hFractional := isFractional_written m e
      rw [hParts] at hFractional
      rcases hFractional with hPoint | hPower
      · exact hPoint rfl
      · exact hPower rfl

/- A number with its sign, or an infinite one. -/
inductive IsNumeral : List Char → Prop where
  | written
      (negative : Bool)
      {w : Written}
      (h : w.WellFormed) :
      IsNumeral (signChars negative ++ w.chars)
  | infinite (negative : Bool) :
      IsNumeral (signChars negative ++ ['i', 'n', 'f'])

/- Integers are written as such. -/
theorem isNumeral_toString (n : ℤ) :
    IsNumeral (toString n).toList := by
  rw [toList_toString_int]
  exact .written _ (Written.wellFormed_ofNat _)

/- So are binary numbers. -/
theorem isNumeral_text
    {x : Binary64}
    (h : x.isUndefined = false) : IsNumeral x.text.toList := by
  cases x with
  | undefined _ => cases h
  | infinite a =>
      rw [toList_text_infinite]
      exact .infinite a
  | finite a m e =>
      rw [toList_text_finite]
      exact .written a (wellFormed_written m e)

/- The characters that numerals are written with. -/
def isNumeralChar (c : Char) : Bool :=
  c.isDigit || ['.', 'e', '+', '-', 'i', 'n', 'f'].contains c

namespace Written

variable {w : Written}
variable {c : Char}

/- Before the exponent there are digits and maybe a point. -/
theorem mem_body
    (hw : w.WellFormed)
    (h : c ∈ w.whole ++ w.pointChars) :
    c.isDigit = true ∨ c = '.' := by
  rcases List.mem_append.mp h with hWhole | hPoint
  · exact .inl (hw.whole_digits c hWhole)
  · unfold pointChars at hPoint
    split at hPoint
    · cases hPoint
    · rcases List.mem_cons.mp hPoint with hDot | hDigit
      · exact .inr hDot
      · exact .inl (hw.fraction_digits c hDigit)

/- What a number is written with. -/
theorem isNumeralChar_of_mem
    (hw : w.WellFormed)
    (h : c ∈ w.chars) : isNumeralChar c = true := by
  have hDigits : c.isDigit = true → isNumeralChar c = true := by
    intro hDigit
    rw [isNumeralChar, hDigit, Bool.true_or]
  rw [chars, ← List.append_assoc] at h
  rcases List.mem_append.mp h with hBody | hPower
  · rcases mem_body hw hBody with hDigit | rfl
    · exact hDigits hDigit
    · rfl
  · unfold powerChars at hPower
    split at hPower
    · cases hPower
    next negative size hSome =>
      rcases List.mem_cons.mp hPower with rfl | hSigned
      · rfl
      rcases List.mem_cons.mp hSigned with rfl | hDigit
      · cases negative <;> rfl
      · exact hDigits (hw.power_digits _ hSome c hDigit)

/- It ends with a digit. -/
theorem getLast?_chars_ne
    (hw : w.WellFormed)
    (cs : List Char) : (cs ++ w.chars).getLast? ≠ some 'e' := by
  have hEnds :
      ∀ front digits : List Char, digits ≠ [] →
        (∀ c ∈ digits, c.isDigit = true) →
          (front ++ digits).getLast? ≠ some 'e' := by
    intro front digits hSome hDigits hLast
    rw [List.getLast?_append_of_ne_nil _ hSome] at hLast
    cases hDigits 'e' (List.mem_of_getLast? hLast)
  unfold chars powerChars
  split
  · rw [List.append_nil]
    unfold pointChars
    split
    · rw [List.append_nil]
      exact hEnds _ _ hw.whole_ne_nil hw.whole_digits
    next hFraction =>
      have hSome : w.fraction ≠ [] := by
        rwa [ne_eq, ← List.isEmpty_iff]
      have hLast :=
        hEnds (cs ++ (w.whole ++ ['.'])) _ hSome
          hw.fraction_digits
      simp only [List.append_assoc, List.cons_append,
        List.nil_append] at hLast
      exact hLast
  next negative size hSome =>
    have hLast :=
      hEnds
        (cs
          ++ (w.whole ++ (w.pointChars ++ ['e', signChar negative])))
        size (hw.power_ne_nil _ hSome) (hw.power_digits _ hSome)
    simp only [List.append_assoc, List.cons_append,
      List.nil_append] at hLast
    exact hLast

/- A plus sign stands in it only behind the letter `e`. -/
theorem getLast?_of_plus
    (hw : w.WellFormed)
    {negative : Bool}
    {cs r : List Char}
    (h :
      signChars negative ++ w.chars = cs ++ '+' :: r) :
    cs.getLast? = some 'e' := by
  have hDigits :
      ∀ {ds : List Char}, (∀ c ∈ ds, c.isDigit = true) →
        '+' ∉ ds := by
    intro ds hDigits hPlus
    cases hDigits '+' hPlus
  have hBody :
      '+' ∉ signChars negative ++ (w.whole ++ w.pointChars) := by
    intro hPlus
    rcases List.mem_append.mp hPlus with hSign | hBody
    · revert hSign
      cases negative <;> decide
    · rcases mem_body hw hBody with hDigit | hDot
      · cases hDigit
      · cases hDot
  have hPlus : '+' ∈ cs ++ '+' :: r :=
    List.mem_append_right _ List.mem_cons_self
  rw [chars, ← List.append_assoc w.whole,
    ← List.append_assoc (signChars negative)] at h
  unfold powerChars at h
  split at h
  · rw [← h, List.append_nil] at hPlus
    exact absurd hPlus hBody
  next below size hSome =>
    have hSize := hDigits (hw.power_digits _ hSome)
    cases below with
    | true =>
        rw [← h] at hPlus
        rcases List.mem_append.mp hPlus with hFront | hPower
        · exact absurd hFront hBody
        · simp only [List.mem_cons] at hPower
          rcases hPower with hLetter | hSign | hDigit
          · cases hLetter
          · cases hSign
          · exact absurd hDigit hSize
    | false =>
        have hFront :
            '+' ∉ signChars negative ++ (w.whole ++ w.pointChars)
              ++ ['e'] := by
          intro hMem
          rcases List.mem_append.mp hMem with hFront | hLetter
          · exact hBody hFront
          · cases List.mem_singleton.mp hLetter
        rw [List.append_cons] at h
        rcases (List.append_cons_inj_of_notMem hFront hSize).mp h
          with ⟨rfl, -, -⟩
        exact List.getLast?_concat

end Written

namespace IsNumeral

variable {cs r : List Char}

/- Numerals are written with these. -/
theorem isNumeralChar_of_mem
    (h : IsNumeral cs)
    {c : Char}
    (hc : c ∈ cs) : isNumeralChar c = true := by
  have hSign :
      ∀ negative,
        (signChars negative).all isNumeralChar = true := by
    decide
  have hInfinity :
      ['i', 'n', 'f'].all isNumeralChar = true := by
    decide
  cases h with
  | written negative h =>
      rcases List.mem_append.mp hc with hSigned | hBody
      · exact List.all_eq_true.mp (hSign negative) c hSigned
      · exact Written.isNumeralChar_of_mem h hBody
  | infinite negative =>
      rcases List.mem_append.mp hc with hSigned | hBody
      · exact List.all_eq_true.mp (hSign negative) c hSigned
      · exact List.all_eq_true.mp hInfinity c hBody

/- They start with a digit, a sign or as infinity does. -/
theorem exists_cons (h : IsNumeral cs) :
    ∃ c rest, cs = c :: rest
      ∧ (c.isDigit = true ∨ c = '-' ∨ c = 'i') := by
  cases h with
  | written negative h =>
      rcases h.exists_cons with ⟨c, rest, hFirst, hDigit⟩
      cases negative
      · exact ⟨c, rest, hFirst, .inl hDigit⟩
      · exact ⟨_, _, rfl, .inr (.inl rfl)⟩
  | infinite negative =>
      cases negative
      · exact ⟨_, _, rfl, .inr (.inr rfl)⟩
      · exact ⟨_, _, rfl, .inr (.inl rfl)⟩

/- They do not end where an exponent goes on. -/
theorem getLast?_ne (h : IsNumeral cs) :
    cs.getLast? ≠ some 'e' := by
  cases h with
  | written negative h => exact Written.getLast?_chars_ne h _
  | infinite negative => cases negative <;> decide

/- The plus sign of an exponent follows no numeral. -/
theorem not_append_plus
    (h : IsNumeral cs) : ¬IsNumeral (cs ++ '+' :: r) := by
  intro hLong
  have hPlus : '+' ∈ cs ++ '+' :: r := by simp
  generalize hWhole : cs ++ '+' :: r = ds at hLong hPlus
  cases hLong with
  | infinite negative =>
      revert hPlus
      cases negative <;> decide
  | written negative hw =>
      exact h.getLast?_ne (Written.getLast?_of_plus hw hWhole.symm)

end IsNumeral

end FactBase
