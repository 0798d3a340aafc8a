import DurableRules.Proofs.Timestamp.Acceptance
import DurableRules.Proofs.Timestamp.RoundTrip

namespace DurableRules.Timestamp
open Text

theorem byteLength_append (one two : List Char) : byteLength (one ++ two) = byteLength one + byteLength two := by
  induction one with
  | nil => exact (Nat.zero_add _).symm
  | cons c rest ih =>
    change c.utf8Size + byteLength (rest ++ two) = c.utf8Size + byteLength rest + byteLength two
    rw [ih,Nat.add_assoc]

theorem utf8ByteSize_ofList (text : List Char) : (String.ofList text).utf8ByteSize = byteLength text := by
  induction text with
  | nil => rfl
  | cons c rest ih =>
    rw [String.ofList_cons,String.utf8ByteSize_append,String.utf8ByteSize_singleton,ih]
    rfl

theorem utf8ByteSize_toList (text : String) : text.utf8ByteSize = byteLength text.toList := by
  rw [← utf8ByteSize_ofList,String.ofList_toList]

section Fraction
variable {w : Wording} {fraction : Option (List Char)} {n : Nat}

theorem suffix_chars (decimals : Decimals fraction) {c : Char} (present : c ∈ suffix fraction) : c.utf8Size = 1 := by
  cases fraction with
  | none => cases present
  | some digits =>
    rcases List.mem_cons.mp present with rfl | digit
    · decide
    · exact utf8Size_digit ((decimals digits rfl).2 c digit)

theorem decimals_filled {digits : List Char} (short : digits.length ≤ 9) (all : ∀ c ∈ digits, c.isDigit = true) :
    (suffix (decimals (numeral (digits ++ List.replicate (9 - digits.length) '0')))).length ≤ digits.length + 1 := by
  unfold decimals
  split
  · exact Nat.zero_le _
  · have nine : (digits ++ List.replicate (9 - digits.length) '0').length = 9 := by
      rw [List.length_append,List.length_replicate]
      omega
    have each : ∀ c ∈ digits ++ List.replicate (9 - digits.length) '0', c.isDigit = true := by
      intro c present
      rcases List.mem_append.mp present with digit | zero
      · exact all c digit
      · rw [List.eq_of_mem_replicate zero]
        decide
    have spelled := padded_numeral (List.ne_nil_of_length_eq_add_one nine) each
    rw [nine] at spelled
    rw [spelled,significant_filled]
    exact Nat.succ_le_succ numeral_significant.1

theorem numeral_nine {digits : List Char} (short : digits.length ≤ 9) (all : ∀ c ∈ digits, c.isDigit = true) :
    numeral (digits ++ List.replicate (9 - digits.length) '0') < 1000000000 := by
  have below := Nat.mul_lt_mul_of_pos_right (numeral_lt all) (Nat.pow_pos (by decide : 0 < 10) : 0 < 10 ^ (9 - digits.length))
  rw [← Nat.pow_add,Nat.add_sub_cancel' short] at below
  rw [numeral_filled]
  exact below

theorem Wording.reading_whole (w : Wording) : w.reading.nanosecond % 1000000000 = 0 := by
  unfold Wording.reading
  dsimp only
  split <;> rfl

theorem fraction_shortest (decimal : Decimals fraction) :
    byteLength (suffix (decimals ((refined w.reading fraction).nanosecond % 1000000000))) ≤ byteLength (suffix fraction) := by
  have printed := decimals_spelled (Nat.mod_lt (refined w.reading fraction).nanosecond (by decide : 0 < 1000000000))
  rw [byteLength_ascii fun _ => suffix_chars printed,byteLength_ascii fun _ => suffix_chars decimal]
  rcases fraction with _ | _ | ⟨c,rest⟩
  · exact w.reading_whole ▸ Nat.zero_le _
  · exact w.reading_whole ▸ Nat.zero_le _
  · obtain ⟨short,all⟩ := decimal (c :: rest) rfl
    have small := numeral_nine short all
    change (suffix (decimals (numeral (c :: rest ++ List.replicate (9 - (c :: rest).length) '0') % 1000000000))).length ≤ _
    rw [Nat.mod_eq_of_lt small]
    exact decimals_filled short all

end Fraction

theorem print_shortest {text : List Char} {t : Timestamp} (read : parse text = some t)
    (year : 0 ≤ t.reading.year ∧ t.reading.year ≤ 9999) : byteLength t.print ≤ byteLength text := by
  obtain ⟨w,fraction,passes,rfl,decimal,refines⟩ := parse_iff.mp read
  rw [print_eq,byteLength_append,byteLength_append,words_length.mpr year,passes.length,← refines]
  exact Nat.add_le_add_left (fraction_shortest decimal) 19

-- A time is read back from its own text exactly when its year has four digits and it
-- has no fraction of a leap second. No text that is read as a time of such a year is
-- shorter than its own.
theorem toText_canonical (t : Timestamp) : (ofText t.toText = .ok t ↔ t.Portable) ∧
    ∀ text, ofText text = .ok t → 0 ≤ t.reading.year → t.reading.year ≤ 9999 →
      t.toText.utf8ByteSize ≤ text.utf8ByteSize := by
  constructor
  · rw [ofText_ok,toText,String.toList_ofList]
    exact ⟨portable_of_parse,parse_print⟩
  · intro text read low high
    rw [toText,utf8ByteSize_ofList,utf8ByteSize_toList]
    exact print_shortest (ofText_ok.mp read) ⟨low,high⟩

def half : Timestamp := ⟨⟨2023,4,5,12,0,0,500000000⟩,by decide⟩

theorem half_canonical : ofText "2023-04-05T12:00:00.500" = .ok half ∧ ofText half.toText = .ok half ∧
    half.toText.utf8ByteSize ≤ "2023-04-05T12:00:00.500".utf8ByteSize := by
  have read : ofText "2023-04-05T12:00:00.500" = .ok half := by decide +kernel
  obtain ⟨back,shortest⟩ := toText_canonical half
  exact ⟨read,back.mpr (by decide),shortest _ read (by decide) (by decide)⟩

end DurableRules.Timestamp
