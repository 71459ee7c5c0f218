import Krl.Proofs.Binary64.Overflow
import Krl.Proofs.Token.Cuts
import Mathlib.Data.List.TakeWhile
import Mathlib.Tactic.Ring

/-!
# Numerals

A number literal may have any number of digits. Its double is finite just as long as the
digits before the point write a number below the limit from which on doubles are infinite.
-/

namespace Krl.Token

namespace Literal

open Binary64 (overflow)

theorem foldl_digits (value : Nat) (digits : List Char) :
    digits.foldl (fun value digit => 10 * value + (digit.toNat - '0'.toNat)) value =
      value * 10 ^ digits.length + number.digitsValue digits := by
  induction digits generalizing value with
  | nil => exact (Nat.mul_one value).symm
  | cons digit others ih =>
      rw [number.digitsValue, List.foldl_cons, List.foldl_cons, ih, ih, List.length_cons, pow_succ]
      ring

theorem digitsValue_append (whole fraction : List Char) :
    number.digitsValue (whole ++ fraction) =
      number.digitsValue whole * 10 ^ fraction.length + number.digitsValue fraction := by
  rw [number.digitsValue, List.foldl_append, foldl_digits]
  rfl

theorem digit_le_nine {digit : Char} (decimal : isDigit digit = true) :
    digit.toNat - '0'.toNat ≤ 9 := by
  rw [isDigit, Bool.and_eq_true, decide_eq_true_iff, decide_eq_true_iff] at decimal
  exact Nat.sub_le_sub_right (show digit.toNat ≤ '9'.toNat from decimal.2) '0'.toNat

theorem digitsValue_lt {digits : List Char} (decimal : ∀ digit ∈ digits, isDigit digit = true) :
    number.digitsValue digits < 10 ^ digits.length := by
  induction digits with
  | nil => decide
  | cons digit others ih =>
      obtain ⟨first, rest⟩ := List.forall_mem_cons.mp decimal
      have below := ih rest
      have small := digit_le_nine first
      have single : number.digitsValue [digit] = digit.toNat - '0'.toNat := Nat.zero_add _
      rw [← List.singleton_append, digitsValue_append, List.length_append, pow_add, single]
      calc (digit.toNat - '0'.toNat) * 10 ^ others.length + number.digitsValue others
          < (digit.toNat - '0'.toNat) * 10 ^ others.length + 10 ^ others.length :=
            Nat.add_lt_add_left below _
        _ = (digit.toNat - '0'.toNat + 1) * 10 ^ others.length := (Nat.add_one_mul _ _).symm
        _ ≤ 10 ^ 1 * 10 ^ others.length := Nat.mul_le_mul_right _ (Nat.succ_le_succ small)

/-- The places behind the point do not matter, as the limit is a whole number. -/
theorem isFinite_number_iff {chars : List Char}
    (decimal : ∀ digit ∈ (chars.dropWhile isDigit).drop 1, isDigit digit = true) :
    (number chars).isFinite = true ↔ number.digitsValue (chars.takeWhile isDigit) < overflow := by
  have same : number chars = .ofDecimal
      (number.digitsValue (chars.takeWhile isDigit ++ (chars.dropWhile isDigit).drop 1))
      (-(((chars.dropWhile isDigit).drop 1).length : Int)) := rfl
  rw [same, Binary64.isFinite_ofDecimal_iff, digitsValue_append]
  generalize (chars.dropWhile isDigit).drop 1 = fraction at decimal
  have below := digitsValue_lt decimal
  have scale : 0 < 10 ^ fraction.length := Nat.pow_pos (by decide)
  rw [mul_comm (10 ^ fraction.length) overflow, ← Nat.div_lt_iff_lt_mul scale, mul_comm,
    Nat.mul_add_div scale, Nat.div_eq_of_lt below, Nat.add_zero]

end Literal

/-- The text is that of digits, with or without a point and digits behind it. -/
inductive IsNumeral : List Char → Prop where
  | whole {digits : List Char} (decimal : ∀ digit ∈ digits, isDigit digit = true) :
      IsNumeral digits
  | fraction {digits places : List Char} (decimal : ∀ digit ∈ digits, isDigit digit = true)
      (decimal' : ∀ digit ∈ places, isDigit digit = true) : IsNumeral (digits ++ '.' :: places)

namespace IsNumeral

theorem places {chars : List Char} (numeral : IsNumeral chars) :
    ∀ digit ∈ (chars.dropWhile isDigit).drop 1, isDigit digit = true := by
  cases numeral with
  | whole decimal =>
      rw [List.dropWhile_eq_nil_iff.mpr decimal]
      exact List.forall_mem_nil _
  | fraction decimal decimal' =>
      rw [List.dropWhile_append_of_pos decimal]
      exact decimal'

end IsNumeral

theorem take_fractionLength (chars : List Char) :
    chars.take (Pattern.fractionLength chars) = [] ∨
      ∃ places, (∀ digit ∈ places, isDigit digit = true) ∧
        chars.take (Pattern.fractionLength chars) = '.' :: places := by
  fun_cases Pattern.fractionLength chars with
  | case1 => exact .inl List.take_zero
  | case2 rest nonempty =>
      refine .inr ⟨rest.takeWhile isDigit, fun digit member => List.mem_takeWhile_imp member, ?_⟩
      rw [Nat.add_comm, List.take_succ_cons, Pattern.take_run]
  | case3 => exact .inl List.take_zero

/-- What is read as a number is a numeral. -/
theorem isNumeral_of_longest? {chars : List Char} {token : PlainToken} {length : Nat}
    (longest : Pattern.longest? chars = some (.plain token, length))
    (number : token = .number ∨ token = .fraction) : IsNumeral (chars.take length) := by
  rw [← Pattern.extent_eq_of_longest? longest]
  rcases number with rfl | rfl
  · simp only [Pattern.extent]
    split
    next => exact .whole (List.forall_mem_nil _)
    next =>
      have whole : ∀ digit ∈ chars.takeWhile isDigit, isDigit digit = true :=
        fun digit member => List.mem_takeWhile_imp member
      rw [List.take_add, Pattern.take_run]
      rcases take_fractionLength (chars.drop (Pattern.run isDigit chars)) with
        none_ | ⟨places, decimal, some_⟩
      · rw [none_, List.append_nil]
        exact .whole whole
      · rw [some_]
        exact .fraction whole decimal
  · rcases take_fractionLength chars with none_ | ⟨places, decimal, some_⟩
    · exact none_ ▸ .whole (List.forall_mem_nil _)
    · exact some_ ▸ .fraction (List.forall_mem_nil _) decimal

end Krl.Token
