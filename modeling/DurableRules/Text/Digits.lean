namespace DurableRules.Text

def decimal (n : Nat) : List Char := Nat.toDigits 10 n

def numeral (digits : List Char) : Nat := Nat.ofDigitChars 10 digits 0

def padded (width n : Nat) : List Char := List.replicate (width - (decimal n).length) '0' ++ decimal n

def isDecimal (digits : List Char) : Bool := !digits.isEmpty && digits.all Char.isDigit

theorem numeral_decimal (n : Nat) : numeral (decimal n) = n := Nat.ofDigitChars_ten_toDigits

theorem decimal_digits {n : Nat} {c : Char} (present : c ∈ decimal n) : c.isDigit :=
  Nat.isDigit_of_mem_toDigits (by decide) (by decide) present

theorem isDecimal_decimal (n : Nat) : isDecimal (decimal n) = true := by
  simp only [isDecimal,Bool.and_eq_true,Bool.not_eq_true',List.isEmpty_eq_false_iff,List.all_eq_true]
  exact ⟨Nat.toDigits_ne_nil,fun _ present => decimal_digits present⟩

theorem numeral_zeros (count : Nat) (digits : List Char) :
    numeral (List.replicate count '0' ++ digits) = numeral digits := by
  simp [numeral,Nat.ofDigitChars_append]

theorem numeral_padded (width n : Nat) : numeral (padded width n) = n := by
  rw [padded,numeral_zeros,numeral_decimal]

end DurableRules.Text
