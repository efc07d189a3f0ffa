import Mathlib.Data.List.Basic

/-! Decimal texts of integers: the canonical one, and how a text is read. -/

namespace Webserver.Library

/-- A sign for the negative numbers, and the digits without leading zeros. -/
def decimal (number : Int) : List Char :=
  (if number < 0 then ['-'] else []) ++ Nat.toDigits 10 number.natAbs

/-- The number that a text of an optional sign and digits stands for. -/
def parseDecimal : List Char → Int
  | [] => 0
  | first :: rest =>
    if first = '-' then -(Nat.ofDigitChars 10 rest 0 : Int) else Nat.ofDigitChars 10 (first :: rest) 0

theorem isDigit_toDigits {number : Nat} {char : Char} (member : char ∈ Nat.toDigits 10 number) : char.isDigit = true :=
  Nat.isDigit_of_mem_toDigits (by decide) (by decide) member

theorem minus_not_mem_toDigits (number : Nat) : '-' ∉ Nat.toDigits 10 number := by
  intro member
  exact absurd (isDigit_toDigits member) (by decide)

theorem toDigits_cons (number : Nat) : ∃ first rest, Nat.toDigits 10 number = first :: rest ∧ first ≠ '-' := by
  obtain ⟨first, rest, digits⟩ := List.exists_cons_of_ne_nil (Nat.toDigits_ne_nil : Nat.toDigits 10 number ≠ [])
  refine ⟨first, rest, digits, ?_⟩
  rintro rfl
  exact minus_not_mem_toDigits number (by simp [digits])

theorem decimal_eq_toString (number : Int) : decimal number = (toString number).toList := by
  rw [Int.toString_eq_repr, Int.repr_eq_if, decimal]
  by_cases negative : number < 0
  · have size : (-number).toNat = number.natAbs := by omega
    rw [if_pos negative, if_neg (by omega), size, String.toList_append, Nat.toList_repr]
    rfl
  · have size : number.toNat = number.natAbs := by omega
    rw [if_neg negative, if_pos (by omega), size, Nat.toList_repr, List.nil_append]

theorem decimal_minus_iff (number : Int) : (decimal number).head? = some '-' ↔ number < 0 := by
  obtain ⟨first, rest, digits, other⟩ := toDigits_cons number.natAbs
  rw [decimal, digits]
  split
  next negative => exact iff_of_true rfl negative
  next positive => exact iff_of_false (by simpa using other) positive

theorem digitChar_zero : ∀ number < 10, Nat.digitChar number = '0' → number = 0 := by decide

/-- A leading zero stands alone. -/
theorem toDigits_zero_iff (number : Nat) : (Nat.toDigits 10 number).head? = some '0' ↔ number = 0 := by
  induction number using Nat.strongRecOn with
  | _ number ih =>
    rw [Nat.toDigits_eq_if (by decide)]
    split
    next small =>
      constructor
      · intro zero
        have digit : number.digitChar = '0' := by simpa using zero
        exact digitChar_zero number small digit
      · rintro rfl
        rfl
    next large =>
      rw [List.head?_append_of_ne_nil _ Nat.toDigits_ne_nil, ih (number / 10) (by omega)]
      omega

theorem parseDecimal_decimal (number : Int) : parseDecimal (decimal number) = number := by
  obtain ⟨first, rest, digits, other⟩ := toDigits_cons number.natAbs
  have value : Nat.ofDigitChars 10 (first :: rest) 0 = number.natAbs := by rw [← digits, Nat.ofDigitChars_ten_toDigits]
  rw [decimal, digits]
  split
  next negative =>
    simp only [List.singleton_append, parseDecimal, if_true, value]
    omega
  next positive =>
    simp only [List.nil_append, parseDecimal, if_neg other, value]
    omega

/-- A decimal text of a number: signed when negative, without superfluous zeros, and
read as that number. -/
structure Canonical (number : Int) (text : List Char) : Prop where
  sign : text.head? = some '-' ↔ number < 0
  digits : ∃ digits, text = (if number < 0 then ['-'] else []) ++ digits ∧ digits ≠ [] ∧
    (∀ digit ∈ digits, digit.isDigit = true) ∧ (digits.head? = some '0' → digits = ['0'])
  zero : number = 0 → text = ['0']
  value : parseDecimal text = number

theorem canonical_decimal (number : Int) : Canonical number (decimal number) where
  sign := decimal_minus_iff number
  digits := by
    refine ⟨Nat.toDigits 10 number.natAbs, rfl, Nat.toDigits_ne_nil, fun _ => isDigit_toDigits, fun leading => ?_⟩
    rw [(toDigits_zero_iff _).mp leading, Nat.toDigits_zero]
  zero := by
    rintro rfl
    rfl
  value := parseDecimal_decimal number

theorem length_decimal_le {number : Int} {digits : Nat} (some : 0 < digits) (small : number.natAbs < Nat.pow 10 digits) :
    (decimal number).length ≤ digits + 1 := by
  have length := (Nat.length_toDigits_le_iff (by decide : 1 < 10) some).mpr small
  rw [decimal, List.length_append]
  split
  · rw [List.length_singleton]
    omega
  · rw [List.length_nil]
    omega

/-- The `%d` of `printf` with a width: filled with spaces on the left. -/
def spacePadded (width : Nat) (number : Int) : List Char :=
  List.replicate (width - (decimal number).length) ' ' ++ decimal number

/-- With a zero in front of the width: filled with zeros after the sign. -/
def zeroPadded (width : Nat) (number : Int) : List Char :=
  (if number < 0 then ['-'] else []) ++ List.replicate (width - (decimal number).length) '0' ++
    Nat.toDigits 10 number.natAbs

theorem length_spacePadded (width : Nat) (number : Int) :
    (spacePadded width number).length = max width (decimal number).length := by
  rw [spacePadded, List.length_append, List.length_replicate]
  omega

theorem length_zeroPadded (width : Nat) (number : Int) :
    (zeroPadded width number).length = max width (decimal number).length := by
  have length : (decimal number).length = (if number < 0 then ['-'] else []).length + (Nat.toDigits 10 number.natAbs).length :=
    List.length_append
  rw [zeroPadded, List.length_append, List.length_append, List.length_replicate]
  omega

end Webserver.Library
