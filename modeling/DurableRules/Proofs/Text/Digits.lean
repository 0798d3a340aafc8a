import DurableRules.Text.Digits
import Mathlib.Algebra.Group.Nat.Defs
import Mathlib.Data.List.TakeWhile

namespace DurableRules.Text

theorem digit_range {c : Char} (digit : c.isDigit = true) : 48 ≤ c.toNat ∧ c.toNat < 58 := by
  obtain ⟨low,high⟩ := Char.isDigit_iff_toNat.mp digit
  exact ⟨low,Nat.lt_succ_of_le high⟩

theorem decimal_ne_nil (n : Nat) : decimal n ≠ [] := Nat.toDigits_ne_nil

theorem decimal_head {n : Nat} (positive : 0 < n) : ∃ c rest, decimal n = c :: rest ∧ c.isDigit = true ∧ c ≠ '0' := by
  induction n using Nat.base_induction 10 (by decide) with
  | single n small =>
    refine ⟨n.digitChar,[],Nat.toDigits_of_lt_base small,by simp [small],?_⟩
    rw [ne_eq,Nat.digitChar_eq_zero]
    exact Nat.ne_of_gt positive
  | digit n last small more ih =>
    obtain ⟨c,rest,spelled,digit,nonzero⟩ := ih more
    refine ⟨c,rest ++ decimal last,?_,digit,nonzero⟩
    rw [← List.cons_append,← spelled]
    exact (Nat.toDigits_append_toDigits (b := 10) (by decide) more small).symm

theorem decimal_length_le {n k : Nat} (some : 0 < k) : (decimal n).length ≤ k ↔ n < 10 ^ k :=
  Nat.length_toDigits_le_iff (by decide) some

theorem decimal_length_pos (n : Nat) : 0 < (decimal n).length := Nat.length_toDigits_pos

theorem lt_decimal_length (n : Nat) : n < 10 ^ (decimal n).length :=
  (decimal_length_le (decimal_length_pos n)).mp (Nat.le_refl _)

theorem decimal_length_ge {n : Nat} (positive : 0 < n) : 10 ^ ((decimal n).length - 1) ≤ n := by
  rcases Nat.eq_zero_or_pos ((decimal n).length - 1) with one | more
  · rw [one]
    exact positive
  · refine Nat.le_of_not_lt fun below => ?_
    have short := (decimal_length_le more).mpr below
    have some := decimal_length_pos n
    omega

theorem padded_length {width n : Nat} (some : 0 < width) (small : n < 10 ^ width) : (padded width n).length = width := by
  have fits := (decimal_length_le some).mpr small
  rw [padded,List.length_append,List.length_replicate]
  omega

theorem padded_length_ge (width n : Nat) : width ≤ (padded width n).length := by
  rw [padded,List.length_append,List.length_replicate]
  omega

theorem padded_digits {width n : Nat} {c : Char} (present : c ∈ padded width n) : c.isDigit = true := by
  rcases List.mem_append.mp present with zero | digit
  · rw [List.eq_of_mem_replicate zero]
    decide
  · exact decimal_digits digit

theorem numeral_append (one two : List Char) : numeral (one ++ two) = 10 ^ two.length * numeral one + numeral two := by
  rw [numeral,Nat.ofDigitChars_append,Nat.ofDigitChars_eq_ofDigitChars_zero]
  rfl

theorem numeral_cons (c : Char) (rest : List Char) :
    numeral (c :: rest) = 10 ^ rest.length * (c.toNat - 48) + numeral rest := by
  have one : numeral [c] = c.toNat - 48 := by simp [numeral,Nat.ofDigitChars_cons]
  rw [← one,← numeral_append,List.singleton_append]

theorem numeral_lt {digits : List Char} (all : ∀ c ∈ digits, c.isDigit = true) : numeral digits < 10 ^ digits.length := by
  induction digits with
  | nil => exact Nat.one_pos
  | cons c rest ih =>
    obtain ⟨digit,later⟩ := List.forall_mem_cons.mp all
    have range := digit_range digit
    have small : c.toNat - 48 ≤ 9 := by omega
    have first := Nat.mul_le_mul_left (10 ^ rest.length) small
    have below := ih later
    rw [numeral_cons,List.length_cons,Nat.pow_succ]
    omega

theorem numeral_inj {one two : List Char} (length : one.length = two.length) (ones : ∀ c ∈ one, c.isDigit = true)
    (twos : ∀ c ∈ two, c.isDigit = true) (same : numeral one = numeral two) : one = two := by
  induction one generalizing two with
  | nil => exact (List.eq_nil_of_length_eq_zero length.symm).symm
  | cons c rest ih =>
    cases two with
    | nil => cases length
    | cons d others =>
      obtain ⟨cDigit,rests⟩ := List.forall_mem_cons.mp ones
      obtain ⟨dDigit,othersAll⟩ := List.forall_mem_cons.mp twos
      have tails : rest.length = others.length := Nat.succ.inj length
      have below := numeral_lt rests
      have beyond := numeral_lt othersAll
      rw [numeral_cons,numeral_cons,tails] at same
      rw [tails] at below
      have first : c.toNat - 48 = d.toNat - 48 := by
        have front := congrArg (· / 10 ^ others.length) same
        rwa [Nat.mul_add_div (Nat.pow_pos (by decide)),Nat.mul_add_div (Nat.pow_pos (by decide)),Nat.div_eq_of_lt below,
          Nat.div_eq_of_lt beyond] at front
      have last : numeral rest = numeral others := by
        rw [first] at same
        exact Nat.add_left_cancel same
      have low := digit_range cDigit
      have high := digit_range dDigit
      have equal : c = d := Char.toNat_inj.mp (by omega)
      rw [equal,ih tails rests othersAll last]

theorem padded_numeral {digits : List Char} (some : digits ≠ []) (all : ∀ c ∈ digits, c.isDigit = true) :
    padded digits.length (numeral digits) = digits := by
  have length := padded_length (List.length_pos_iff.mpr some) (numeral_lt all)
  exact numeral_inj length (fun _ => padded_digits) all (numeral_padded _ _)

def significant (digits : List Char) : List Char := (digits.reverse.dropWhile (· == '0')).reverse

theorem significant_zeros (digits : List Char) :
    ∃ count, digits = significant digits ++ List.replicate count '0' := by
  have ends : digits.reverse.takeWhile (· == '0') =
      List.replicate (digits.reverse.takeWhile (· == '0')).length '0' := by
    refine List.eq_replicate_iff.mpr ⟨rfl,fun c present => ?_⟩
    simpa using List.mem_takeWhile_imp present
  refine ⟨(digits.reverse.takeWhile (· == '0')).length,?_⟩
  rw [significant,← List.reverse_replicate,← ends,← List.reverse_append,List.takeWhile_append_dropWhile,
    List.reverse_reverse]

theorem numeral_significant {digits : List Char} : (significant digits).length ≤ digits.length ∧
    numeral digits = numeral (significant digits) * 10 ^ (digits.length - (significant digits).length) := by
  obtain ⟨count,split⟩ := significant_zeros digits
  have zeros : numeral (List.replicate count '0') = 0 := by simp [numeral]
  have length : digits.length = (significant digits).length + count := by
    rw [congrArg List.length split,List.length_append,List.length_replicate]
  refine ⟨by omega,?_⟩
  rw [length,Nat.add_sub_cancel_left,congrArg numeral split,numeral_append,zeros,List.length_replicate,Nat.add_zero,
    Nat.mul_comm]

theorem significant_filled (digits : List Char) (count : Nat) :
    significant (digits ++ List.replicate count '0') = significant digits := by
  have zeros : ∀ c ∈ List.replicate count '0', (c == '0') = true := fun c present => by
    rw [List.eq_of_mem_replicate present]
    rfl
  rw [significant,List.reverse_append,List.reverse_replicate,List.dropWhile_append_of_pos zeros,significant]

theorem significant_digits {digits : List Char} {c : Char} (present : c ∈ significant digits) : c ∈ digits := by
  obtain ⟨count,split⟩ := significant_zeros digits
  rw [split]
  exact List.mem_append_left _ present

theorem significant_decimal {n : Nat} (positive : 0 < n) :
    ∃ c rest, significant (decimal n) = c :: rest ∧ c ≠ '0' := by
  obtain ⟨c,rest,spelled,_,nonzero⟩ := decimal_head positive
  obtain ⟨count,split⟩ := significant_zeros (decimal n)
  rw [spelled] at split ⊢
  cases kept : significant (c :: rest) with
  | nil =>
    rw [kept,List.nil_append] at split
    have zero := List.eq_of_mem_replicate (split ▸ List.mem_cons_self : c ∈ List.replicate count '0')
    exact absurd zero nonzero
  | cons d later =>
    rw [kept,List.cons_append] at split
    obtain ⟨rfl,_⟩ := List.cons.inj split
    exact ⟨c,later,rfl,nonzero⟩

end DurableRules.Text
