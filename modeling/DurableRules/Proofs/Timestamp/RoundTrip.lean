import DurableRules.Proofs.Timestamp.Words

namespace DurableRules.Timestamp
open Text

structure Portable (t : Timestamp) : Prop where
  year : 0 ≤ t.reading.year ∧ t.reading.year ≤ 9999
  whole : t.isLeapSecond = true → t.reading.nanosecond = 1000000000

instance (t : Timestamp) : Decidable t.Portable :=
  decidable_of_iff ((0 ≤ t.reading.year ∧ t.reading.year ≤ 9999) ∧
    (t.isLeapSecond = true → t.reading.nanosecond = 1000000000))
    ⟨fun held => ⟨held.1,held.2⟩,fun held => ⟨held.year,held.whole⟩⟩

namespace Figure
variable {width n : Nat} {year : Int}

def plain (width n : Nat) : Figure := ⟨[],none,padded width n⟩

theorem plain_full (some : 0 < width) (small : n < 10 ^ width) : (plain width n).Full width :=
  ⟨rfl,rfl,padded_length some small,fun _ => padded_digits⟩

theorem plain_number (width n : Nat) : (plain width n).number = n := numeral_padded width n

def ofYear (year : Int) : Figure :=
  if 0 ≤ year ∧ year ≤ 9999 then plain 4 year.toNat
  else { plain 4 year.natAbs with sign := some (if year < 0 then '-' else '+') }

theorem ofYear_text (year : Int) : (ofYear year).text = yearText year := by
  unfold ofYear yearText
  split
  · simp [text,plain]
  · simp [text,plain]

theorem ofYear_value (year : Int) : (ofYear year).value = year := by
  have number (n : Nat) : numeral (padded 4 n) = n := numeral_padded 4 n
  unfold ofYear
  split
  · next four =>
    simp only [value,plain,Figure.number,number]
    exact Int.toNat_of_nonneg four.1
  · by_cases negative : year < 0
    · simp only [value,plain,Figure.number,number,negative,if_true]
      omega
    · have plus : some '+' ≠ some '-' := by decide
      simp only [value,plain,Figure.number,number,negative,if_false,if_neg plus]
      omega

theorem ofYear_full (four : 0 ≤ year ∧ year ≤ 9999) : (ofYear year).Full 4 := by
  rw [ofYear,if_pos four]
  exact plain_full (by decide) (by omega)

theorem ofYear_fits (year : Int) : (ofYear year).Fits 4 ['+','-'] := by
  by_cases four : 0 ≤ year ∧ year ≤ 9999
  · exact (ofYear_full four).fits (by decide)
  · have some : padded 4 year.natAbs ≠ [] := List.ne_nil_of_length_pos (Nat.lt_of_lt_of_le (by decide) (padded_length_ge 4 _))
    rw [ofYear,if_neg four]
    refine ⟨nofun,fun _ => padded_digits,some,nofun,fun mark signed => ?_⟩
    cases signed
    split <;> simp

-- The sign of a year makes it longer than four digits.
theorem ofYear_length (signed : ¬(0 ≤ year ∧ year ≤ 9999)) : 5 ≤ (ofYear year).text.length := by
  have length := padded_length_ge 4 year.natAbs
  rw [ofYear,if_neg signed]
  simp only [text,plain,List.nil_append,Option.toList_some,List.length_append,List.length_singleton]
  omega

end Figure

def words (t : Timestamp) : Wording where
  year := .ofYear t.reading.year
  month := .plain 2 t.reading.month
  day := .plain 2 t.reading.day
  hour := .plain 2 t.reading.hour
  minute := .plain 2 t.reading.minute
  second := .plain 2 (if t.isLeapSecond then 60 else t.reading.second)

def decimals (nanosecond : Nat) : Option (List Char) :=
  if nanosecond = 0 then none else some (significant (padded 9 nanosecond))

section Print
variable {t : Timestamp}

theorem print_eq (t : Timestamp) : t.print = t.words.text ++ suffix (decimals (t.reading.nanosecond % 1000000000)) := by
  have fraction (n : Nat) : fractionText n = suffix (decimals n) := by
    unfold fractionText decimals
    split <;> rfl
  have bare (n : Nat) : (Figure.plain 2 n).text = padded 2 n := rfl
  simp only [print,Wording.text,words,Figure.ofYear_text,bare,fraction,List.append_assoc,List.cons_append]

theorem daysIn_le (year : Int) (month : Nat) : Calendar.daysIn year month ≤ 31 := by
  unfold Calendar.daysIn
  split
  · split <;> decide
  all_goals decide

theorem words_fields (t : Timestamp) : ∀ f ∈ t.words.fields, f.Full 2 := by
  have month := t.real.month
  have day := t.real.day
  have clock := t.real.clock
  have most := daysIn_le t.reading.year t.reading.month
  have two {n : Nat} (small : n < 100) : (Figure.plain 2 n).Full 2 := Figure.plain_full (by decide) small
  have second : (if t.isLeapSecond then 60 else t.reading.second) < 100 := by
    split <;> omega
  simp only [Wording.fields,words,List.forall_mem_cons]
  exact ⟨two (by omega),two (by omega),two (by omega),two (by omega),two second,List.forall_mem_nil _⟩

theorem words_loose (t : Timestamp) : t.words.Loose :=
  ⟨Figure.ofYear_fits t.reading.year,fun f one => (t.words_fields f one).fits (by decide)⟩

theorem words_fixed (year : 0 ≤ t.reading.year ∧ t.reading.year ≤ 9999) : t.words.Fixed :=
  ⟨Figure.ofYear_full year,t.words_fields⟩

theorem words_bare (t : Timestamp) : ∀ f ∈ t.words.year :: t.words.fields, f.blanks = [] := by
  refine List.forall_mem_cons.mpr ⟨?_,fun f one => (t.words_fields f one).blanks⟩
  change (Figure.ofYear t.reading.year).blanks = []
  unfold Figure.ofYear
  split <;> rfl

-- A year that is not of four digits carries a sign, which makes the text too long.
theorem words_length : byteLength t.words.text = 19 ↔ 0 ≤ t.reading.year ∧ t.reading.year ≤ 9999 := by
  refine ⟨fun length => ?_,fun year => (words_fixed year).passes.length⟩
  by_contra signed
  have long : 5 ≤ t.words.year.text.length := Figure.ofYear_length signed
  have two : ∀ f ∈ t.words.fields, f.text.length = 2 := fun f one => by
    rw [(t.words_fields f one).text_eq,(t.words_fields f one).length]
  simp only [Wording.fields,List.forall_mem_cons] at two
  rw [t.words_loose.byteLength_text (t.words_loose.ink t.words_bare),Wording.text_length] at length
  omega

def wholeSecond (t : Timestamp) : Nat := if t.isLeapSecond then 1000000000 else 0

theorem leap_second (leap : t.isLeapSecond = true) : t.reading.second = 59 := by
  have range := t.real.nanosecond
  simp only [isLeapSecond,decide_eq_true_eq] at leap
  omega

theorem words_reading (t : Timestamp) : t.words.reading = { t.reading with nanosecond := t.wholeSecond } := by
  have clock := t.real.clock
  simp only [Wording.reading,words,Figure.plain_number,Figure.ofYear_value,wholeSecond]
  by_cases leap : t.isLeapSecond = true
  · simp [leap,leap_second leap]
  · have before : t.reading.second ≠ 60 := Nat.ne_of_lt (by omega)
    simp [leap,before]

end Print

section Decimal
variable {n : Nat} {t : Timestamp}

theorem decimals_spelled (small : n < 1000000000) : Decimals (decimals n) := by
  unfold decimals
  split
  · nofun
  · intro digits spelled
    cases spelled
    have shorter := (@numeral_significant (padded 9 n)).1
    rw [padded_length (by decide) small] at shorter
    exact ⟨shorter,fun c present => padded_digits (significant_digits present)⟩

theorem refined_decimals (r : Reading) (small : n < 1000000000) :
    refined r (decimals n) = if n = 0 then r else { r with nanosecond := n } := by
  unfold decimals
  split
  · rfl
  · next some =>
    obtain ⟨_,value⟩ := @numeral_significant (padded 9 n)
    rw [numeral_padded,padded_length (by decide) small] at value
    have filled := numeral_filled (significant (padded 9 n)) (9 - (significant (padded 9 n)).length)
    rw [← value] at filled
    cases spelled : significant (padded 9 n) with
    | nil =>
      rw [spelled] at value
      exact absurd (value.trans (Nat.zero_mul _)) some
    | cons c rest =>
      rw [spelled] at filled
      rw [refined,filled]

theorem words_refined (t : Timestamp) : refined t.words.reading (decimals (t.reading.nanosecond % 1000000000)) =
    if t.reading.nanosecond % 1000000000 = 0 then t.reading
    else { t.reading with nanosecond := t.reading.nanosecond % 1000000000 } := by
  rw [refined_decimals _ (Nat.mod_lt _ (by decide)),words_reading]
  split
  · next none =>
    have same : t.wholeSecond = t.reading.nanosecond := by
      have range := t.real.nanosecond
      simp only [wholeSecond,isLeapSecond,decide_eq_true_eq]
      split <;> omega
    rw [same]
  · rfl

theorem parse_words {next : Timestamp} (year : 0 ≤ t.reading.year ∧ t.reading.year ≤ 9999)
    (same : refined t.words.reading (decimals (t.reading.nanosecond % 1000000000)) = next.reading) :
    parse t.print = some next :=
  parse_iff.mpr ⟨t.words,_,(words_fixed year).passes,t.print_eq.symm,decimals_spelled (Nat.mod_lt _ (by decide)),same⟩

theorem parse_print (portable : Portable t) : parse t.print = some t := by
  refine parse_words portable.year ?_
  rw [words_refined]
  split
  · rfl
  · next fraction =>
    have small : t.reading.nanosecond < 1000000000 := by
      refine Nat.lt_of_not_le fun leap => fraction ?_
      rw [portable.whole (decide_eq_true leap)]
    rw [Nat.mod_eq_of_lt small]

theorem portable_of_parse (read : parse t.print = some t) : Portable t := by
  have year : 0 ≤ t.reading.year ∧ t.reading.year ≤ 9999 := by
    refine words_length.mp ?_
    by_contra other
    rw [print_eq,parse_split t.words_loose.pointless] at read
    simp [guard,other] at read
  refine ⟨year,fun leap => ?_⟩
  have most := t.real.nanosecond
  simp only [isLeapSecond,decide_eq_true_eq] at leap
  by_cases none : t.reading.nanosecond % 1000000000 = 0
  · omega
  -- With a fraction the leap second is lost.
  · have real : ({ t.reading with nanosecond := t.reading.nanosecond % 1000000000 } : Reading).Real :=
      ⟨t.real.year,t.real.month,t.real.day,t.real.clock,.inl (Nat.mod_lt _ (by decide))⟩
    have other : parse t.print = some ⟨_,real⟩ := parse_words year (by rw [words_refined,if_neg none])
    have same := congrArg (fun t : Timestamp => t.reading.nanosecond) (Option.some.inj (read.symm.trans other))
    dsimp only at same
    omega

end Decimal
end DurableRules.Timestamp
