import SecdMachine.Numeral
import SecdMachine.Proofs.Scanning

/-! The decimal digits of an integer are one token, and that token denotes the integer. -/

namespace SecdMachine

namespace Literal

theorem le_ofDigitChars (digits : List Char) (high : Nat) :
    high ≤ Nat.ofDigitChars 10 digits high := by
  induction digits generalizing high with
  | nil => simp
  | cons char rest ih =>
      rw [Nat.ofDigitChars_cons]
      have := ih (10 * high + (char.toNat - '0'.toNat))
      omega

theorem magnitude_eq {digits : List Char} {high : Nat}
    (decimal : ∀ char ∈ digits, char.isDigit = true)
    (small : Nat.ofDigitChars 10 digits high < UInt64.size) :
    magnitude high digits = .ok (Nat.ofDigitChars 10 digits high) := by
  induction digits generalizing high with
  | nil => simp [magnitude]
  | cons char rest ih =>
      rw [Nat.ofDigitChars_cons, Nat.mul_comm] at small
      have bound := Nat.lt_of_le_of_lt (le_ofDigitChars rest _) small
      rw [magnitude, if_pos (decimal char List.mem_cons_self)]
      simp only [bound, if_true]
      rw [ih (fun other member => decimal other (List.mem_cons_of_mem _ member)) small,
        Nat.ofDigitChars_cons, Nat.mul_comm]

theorem inRange_toInt (number : Int64) : inRange number.toInt = .ok number := by
  have bounds : Int64.minValue.toInt ≤ number.toInt ∧ number.toInt ≤ Int64.maxValue.toInt :=
    ⟨Int64.le_toInt number, Int64.toInt_le number⟩
  rw [inRange, if_pos bounds, Int64.ofInt_toInt]

theorem toList_toString (number : Int) :
    (toString number).toList =
      if 0 ≤ number then Nat.toDigits 10 number.natAbs
      else '-' :: Nat.toDigits 10 number.natAbs := by
  rw [Int.toString_eq_repr, Int.repr_eq_if]
  split
  next nonnegative =>
    rw [Nat.toList_repr, show number.toNat = number.natAbs by omega]
  next negative =>
    rw [String.toList_append, Nat.toList_repr, show (-number).toNat = number.natAbs by omega]
    rfl

/-- Decimal digits, with or without a minus sign before them, and the number they write. Zeros may
stand in front. -/
inductive Decimal : List Char → Int64 → Prop
  | plain {digits : List Char} {number : Int64} (some : digits ≠ [])
      (decimal : ∀ char ∈ digits, char.isDigit = true)
      (value : number.toInt = Nat.ofDigitChars 10 digits 0) : Decimal digits number
  | negative {digits : List Char} {number : Int64} (some : digits ≠ [])
      (decimal : ∀ char ∈ digits, char.isDigit = true)
      (value : number.toInt = -Nat.ofDigitChars 10 digits 0) : Decimal ('-' :: digits) number

theorem Decimal.integer_eq {text : List Char} {number : Int64} (decimal : Decimal text number) :
    integer text = .ok number := by
  have lower : -2 ^ 63 ≤ number.toInt := Int64.le_toInt number
  have upper : number.toInt < 2 ^ 63 := Int64.toInt_lt number
  cases decimal with
  | plain some digits value =>
      have small : Nat.ofDigitChars 10 text 0 < UInt64.size := by
        simp only [UInt64.size]
        omega
      have decoded := magnitude_eq digits small
      obtain ⟨first, rest, rfl⟩ := List.exists_cons_of_ne_nil some
      have noSign : first ≠ '-' := by
        rintro rfl
        exact absurd (digits '-' List.mem_cons_self) (by decide)
      simp only [integer]
      split
      next other same =>
        cases same
        exact absurd rfl noSign
      next =>
        rw [decoded]
        simp only [bind, Except.bind, ← value]
        exact inRange_toInt number
  | @negative chars _ some digits value =>
      have small : Nat.ofDigitChars 10 chars 0 < UInt64.size := by
        simp only [UInt64.size]
        omega
      simp only [integer, magnitude_eq digits small, bind, Except.bind, ← value]
      exact inRange_toInt number

theorem decimal_toString (number : Int64) : Decimal (toString number.toInt).toList number := by
  have digits : ∀ char ∈ Nat.toDigits 10 number.toInt.natAbs, char.isDigit = true :=
    fun char member => Nat.isDigit_of_mem_toDigits (by decide) (by decide) member
  rw [toList_toString]
  split
  next nonnegative =>
    refine .plain Nat.toDigits_ne_nil digits ?_
    rw [Nat.ofDigitChars_toDigits (by decide) (by decide)]
    omega
  next negative =>
    refine .negative Nat.toDigits_ne_nil digits ?_
    rw [Nat.ofDigitChars_toDigits (by decide) (by decide)]
    omega

theorem isDigit_of_isDigit {char : Char} (decimal : char.isDigit = true) :
    Text.isDigit char = true := by
  simp only [Char.isDigit, Bool.and_eq_true, decide_eq_true_eq, UInt32.le_iff_toNat_le] at decimal
  have lower : 0x30 ≤ char.toNat := decimal.1
  have upper : char.toNat ≤ 0x39 := decimal.2
  simp only [Text.isDigit, Text.digitRanges, Text.inRanges]
  rw [if_neg (by omega)]
  simp [upper]

theorem tokens_toString (number : Int) :
    tokens (toString number).toList = [.numeric (toString number).toList] := by
  obtain ⟨first, rest, digits⟩ := List.exists_cons_of_ne_nil
    (Nat.toDigits_ne_nil : Nat.toDigits 10 number.natAbs ≠ [])
  have decimal : ∀ char ∈ first :: rest, Text.isDigit char = true := by
    intro char member
    rw [← digits] at member
    exact isDigit_of_isDigit (Nat.isDigit_of_mem_toDigits (by decide) (by decide) member)
  rw [toList_toString, digits]
  split
  next =>
    have digit := decimal first List.mem_cons_self
    exact tokens_number (by simp [Token.startsNumber, digit])
      fun char member => decimal char (List.mem_cons_of_mem _ member)
  next => exact tokens_number (by decide) decimal

end Literal

end SecdMachine
