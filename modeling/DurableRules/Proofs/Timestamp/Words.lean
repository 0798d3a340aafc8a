import DurableRules.Proofs.Text.Digits
import DurableRules.Timestamp.Text
import Mathlib.Data.Option.Basic

namespace DurableRules.Timestamp
open Text

theorem isBlank_digit {c : Char} (digit : c.isDigit = true) : isBlank c = false := by
  have all : ∀ n < 58, 48 ≤ n → blanks.contains n = false := by decide
  exact all c.toNat (digit_range digit).2 (digit_range digit).1

theorem guard_holds {p : Prop} [Decidable p] (holds : p) : (guard p : Option Unit) = some () := if_pos holds

theorem byteLength_ascii {text : List Char} (ascii : ∀ c ∈ text, c.utf8Size = 1) : byteLength text = text.length := by
  induction text with
  | nil => rfl
  | cons c rest ih =>
    have later := ih fun d present => ascii d (List.mem_cons_of_mem _ present)
    change c.utf8Size + byteLength rest = rest.length + 1
    rw [ascii c List.mem_cons_self,later,Nat.add_comm]

theorem utf8Size_digit {c : Char} (digit : c.isDigit = true) : c.utf8Size = 1 := by
  have small := (digit_range digit).2
  exact Char.utf8Size_eq_one_iff.mpr (by
    change c.toNat ≤ 127
    omega)

structure Figure where
  blanks : List Char
  sign : Option Char
  digits : List Char

namespace Figure

def text (f : Figure) : List Char := f.blanks ++ (f.sign.toList ++ f.digits)
def number (f : Figure) : Nat := numeral f.digits
def value (f : Figure) : Int := if f.sign = some '-' then -(f.number : Int) else f.number

-- A sign lifts the limit on the digits.
structure Fits (most : Nat) (signs : List Char) (f : Figure) : Prop where
  blanks : ∀ c ∈ f.blanks, isBlank c = true
  digits : ∀ c ∈ f.digits, c.isDigit = true
  some : f.digits ≠ []
  short : f.sign = none → f.digits.length ≤ most
  signed : ∀ mark ∈ f.sign, mark ∈ signs

structure Full (width : Nat) (f : Figure) : Prop where
  blanks : f.blanks = []
  sign : f.sign = none
  length : f.digits.length = width
  digits : ∀ c ∈ f.digits, c.isDigit = true

variable {f : Figure} {most width : Nat} {signs : List Char}

theorem Fits.unsigned (fits : f.Fits most []) : f.sign = none := by
  refine Option.eq_none_iff_forall_not_mem.mpr fun mark present => ?_
  cases fits.signed mark present

theorem Fits.chars (fits : f.Fits most signs) {c : Char} (present : c ∈ f.text) :
    isBlank c = true ∨ c.isDigit = true ∨ c ∈ signs := by
  simp only [text,List.mem_append,Option.mem_toList] at present
  rcases present with blank | mark | digit
  · exact .inl (fits.blanks c blank)
  · exact .inr (.inr (fits.signed c mark))
  · exact .inr (.inl (fits.digits c digit))

theorem Fits.ink (fits : f.Fits most signs) (apart : ∀ mark ∈ signs, isBlank mark = false) (bare : f.blanks = [])
    {c : Char} (present : c ∈ f.text) : isBlank c = false := by
  simp only [text,bare,List.nil_append,List.mem_append,Option.mem_toList] at present
  rcases present with mark | digit
  · exact apart c (fits.signed c mark)
  · exact isBlank_digit (fits.digits c digit)

theorem Full.text_eq (full : f.Full width) : f.text = f.digits := by
  simp [text,full.blanks,full.sign]

theorem Full.fits (full : f.Full width) (positive : 0 < width) : f.Fits width signs := by
  refine ⟨by simp [full.blanks],full.digits,fun none => ?_,fun _ => full.length.le,by simp [full.sign]⟩
  have length := full.length
  rw [none] at length
  exact absurd length (Nat.ne_of_lt positive)

end Figure

structure Wording where
  year : Figure
  month : Figure
  day : Figure
  hour : Figure
  minute : Figure
  second : Figure

namespace Wording

def fields (w : Wording) : List Figure := [w.month,w.day,w.hour,w.minute,w.second]

def text (w : Wording) : List Char :=
  w.year.text ++ '-' :: (w.month.text ++ '-' :: (w.day.text ++
    'T' :: (w.hour.text ++ ':' :: (w.minute.text ++ ':' :: w.second.text))))

-- Second 60 is the leap second after second 59.
def reading (w : Wording) : Reading where
  year := w.year.value
  month := w.month.number
  day := w.day.number
  hour := w.hour.number
  minute := w.minute.number
  second := if w.second.number = 60 then 59 else w.second.number
  nanosecond := if w.second.number = 60 then 1000000000 else 0

-- Blanks before any number, a signed year and short numbers.
structure Loose (w : Wording) : Prop where
  year : w.year.Fits 4 ['+','-']
  fields : ∀ f ∈ w.fields, f.Fits 2 []

-- They pass as long as the whole comes to nineteen bytes.
structure Passes (w : Wording) : Prop extends Loose w where
  length : byteLength w.text = 19

-- Four digits for the year and two for each other number.
structure Fixed (w : Wording) : Prop where
  year : w.year.Full 4
  fields : ∀ f ∈ w.fields, f.Full 2

end Wording

def suffix : Option (List Char) → List Char
  | none => []
  | some digits => '.' :: digits

def Decimals (fraction : Option (List Char)) : Prop :=
  ∀ digits ∈ fraction, digits.length ≤ 9 ∧ ∀ c ∈ digits, c.isDigit = true

-- A fraction of some digits is filled up with zeros to nanoseconds.
def refined (r : Reading) : Option (List Char) → Reading
  | some (c :: rest) => { r with nanosecond := numeral (c :: rest ++ List.replicate (9 - (c :: rest).length) '0') }
  | _ => r

def Spells (kind : Wording → Prop) (text : List Char) (t : Timestamp) : Prop :=
  ∃ w fraction, kind w ∧ w.text ++ suffix fraction = text ∧ Decimals fraction ∧ refined w.reading fraction = t.reading

section Numbers
variable {most n : Nat} {text rest digits : List Char} {f : Figure}

def Stops (rest : List Char) : Prop := ∀ c ∈ rest.head?, c.isDigit = false

theorem stops_mark {mark : Char} (apart : mark.isDigit = false) (rest : List Char) : Stops (mark :: rest) := by
  simpa [Stops] using apart

theorem takeNumber_some (taken : takeNumber most text = some (n,rest)) : ∃ digits, text = digits ++ rest ∧
    digits ≠ [] ∧ digits.length ≤ most ∧ (∀ c ∈ digits, c.isDigit = true) ∧ numeral digits = n := by
  unfold takeNumber at taken
  dsimp only at taken
  split at taken
  · cases taken
  · next more =>
    cases taken
    have front : (text.take most).takeWhile Char.isDigit <+: text :=
      (List.takeWhile_prefix _).trans (List.take_prefix most text)
    refine ⟨_,(List.prefix_iff_eq_append.mp front).symm,fun none => more (by rw [none]; rfl),?_,?_,rfl⟩
    · exact (List.takeWhile_prefix _).length_le.trans (List.length_take_le most text)
    · exact fun c present => List.mem_takeWhile_imp present

theorem takeNumber_stops (some : digits ≠ []) (short : digits.length ≤ most) (all : ∀ c ∈ digits, c.isDigit = true)
    (stops : Stops rest) : takeNumber most (digits ++ rest) = .some (numeral digits,rest) := by
  have none : (rest.take (most - digits.length)).takeWhile Char.isDigit = [] := by
    cases rest with
    | nil => simp
    | cons c later =>
      cases most - digits.length with
      | zero => rfl
      | succ _ => simp [stops c rfl]
  have taken : ((digits ++ rest).take most).takeWhile Char.isDigit = digits := by
    rw [List.take_append,List.take_of_length_le short,List.takeWhile_append_of_pos all,none,List.append_nil]
  simp [takeNumber,taken,some]

theorem figure_some {limit : Nat} {later : List Char} (most : Nat) (signs : List Char) (sign : Option Char)
    (opens : skipBlanks text = sign.toList ++ later) (taken : takeNumber limit later = some (n,rest))
    (short : sign = none → limit = most) (signed : ∀ mark ∈ sign, mark ∈ signs) :
    ∃ f : Figure, f.Fits most signs ∧ f.sign = sign ∧ f.number = n ∧ text = f.text ++ rest := by
  obtain ⟨digits,rfl,some,fits,each,value⟩ := takeNumber_some taken
  refine ⟨⟨text.takeWhile isBlank,sign,digits⟩,⟨fun c present => List.mem_takeWhile_imp present,each,some,?_,signed⟩,rfl,value,?_⟩
  · exact fun none => short none ▸ fits
  · have split : text = text.takeWhile isBlank ++ skipBlanks text := List.takeWhile_append_dropWhile.symm
    rw [opens] at split
    simpa [Figure.text] using split

theorem skipBlanks_figure {signs : List Char} (fits : f.Fits most signs) (apart : ∀ mark ∈ signs, isBlank mark = false)
    (rest : List Char) : skipBlanks (f.text ++ rest) = f.sign.toList ++ (f.digits ++ rest) := by
  obtain ⟨c,later,opens,ink⟩ : ∃ c later, f.sign.toList ++ (f.digits ++ rest) = c :: later ∧ isBlank c = false := by
    cases sign : f.sign with
    | some mark => exact ⟨mark,_,rfl,apart mark (fits.signed mark sign)⟩
    | none =>
      obtain ⟨c,later,spelled⟩ := List.exists_cons_of_ne_nil fits.some
      exact ⟨c,later ++ rest,by simp [spelled],isBlank_digit (fits.digits c (spelled ▸ List.mem_cons_self))⟩
  rw [Figure.text,List.append_assoc,List.append_assoc,opens,skipBlanks,List.dropWhile_append_of_pos fits.blanks,
    List.dropWhile_cons_of_neg (by simp [ink])]

theorem takeField_some (taken : takeField text = some (n,rest)) :
    ∃ f : Figure, f.Fits 2 [] ∧ f.number = n ∧ text = f.text ++ rest := by
  obtain ⟨f,fits,_,value,split⟩ := figure_some 2 [] none rfl taken (fun _ => rfl) nofun
  exact ⟨f,fits,value,split⟩

theorem takeField_stops (fits : f.Fits 2 []) (stops : Stops rest) : takeField (f.text ++ rest) = some (f.number,rest) := by
  rw [takeField,skipBlanks_figure fits (List.forall_mem_nil _),fits.unsigned]
  exact takeNumber_stops fits.some (fits.short fits.unsigned) fits.digits stops

theorem takeYear_some {year : Int} (taken : takeYear text = some (year,rest)) :
    ∃ f : Figure, f.Fits 4 ['+','-'] ∧ f.value = year ∧ text = f.text ++ rest := by
  unfold takeYear at taken
  split at taken
  · next later opens =>
    obtain ⟨_,number,same⟩ := Option.map_eq_some_iff.mp taken
    cases same
    obtain ⟨f,fits,sign,value,split⟩ := figure_some 4 ['+','-'] (some '-') opens number nofun (by simp)
    exact ⟨f,fits,by simp [Figure.value,sign,value],split⟩
  · next later opens =>
    obtain ⟨_,number,same⟩ := Option.map_eq_some_iff.mp taken
    cases same
    obtain ⟨f,fits,sign,value,split⟩ := figure_some 4 ['+','-'] (some '+') opens number nofun (by simp)
    exact ⟨f,fits,by simp [Figure.value,sign,value],split⟩
  · obtain ⟨_,number,same⟩ := Option.map_eq_some_iff.mp taken
    cases same
    obtain ⟨f,fits,sign,value,split⟩ := figure_some 4 ['+','-'] none rfl number (fun _ => rfl) nofun
    exact ⟨f,fits,by simp [Figure.value,sign,value],split⟩

theorem ink_signs : ∀ mark ∈ ['+','-'], isBlank mark = false :=
  List.forall_mem_cons.mpr ⟨by decide,List.forall_mem_singleton.mpr (by decide)⟩

theorem takeYear_stops (fits : f.Fits 4 ['+','-']) (stops : Stops rest) :
    takeYear (f.text ++ rest) = some (f.value,rest) := by
  have opens := skipBlanks_figure fits ink_signs rest
  have whole : takeNumber (f.digits ++ rest).length (f.digits ++ rest) = some (f.number,rest) :=
    takeNumber_stops fits.some (by simp) fits.digits stops
  unfold takeYear
  rw [opens]
  cases sign : f.sign with
  | none =>
    have number : takeNumber 4 (f.digits ++ rest) = some (f.number,rest) :=
      takeNumber_stops fits.some (fits.short sign) fits.digits stops
    obtain ⟨c,later,spelled⟩ := List.exists_cons_of_ne_nil fits.some
    have digit : c.isDigit = true := fits.digits c (spelled ▸ List.mem_cons_self)
    rw [Option.toList_none,List.nil_append]
    rw [spelled,List.cons_append] at number ⊢
    split
    · next same => cases same; cases digit
    · next same => cases same; cases digit
    · simp [number,Figure.value,sign]
  | some mark =>
    have either : mark = '+' ∨ mark = '-' := by simpa using fits.signed mark sign
    rcases either with rfl | rfl
    · change (takeNumber (f.digits ++ rest).length (f.digits ++ rest)).map _ = _
      rw [whole]
      simp [Figure.value,sign]
    · change (takeNumber (f.digits ++ rest).length (f.digits ++ rest)).map _ = _
      rw [whole]
      simp [Figure.value,sign]

theorem takeMark_iff {mark : Char} : takeMark mark text = some rest ↔ text = mark :: rest := by
  cases text with
  | nil => simp [takeMark]
  | cons c later => simp [takeMark]

end Numbers

theorem ofReading?_iff {r : Reading} {t : Timestamp} : ofReading? r = some t ↔ r = t.reading := by
  unfold ofReading?
  constructor
  · intro read
    split at read
    · cases read
      rfl
    · cases read
  · intro same
    subst same
    exact dif_pos t.real

section Words
variable {text : List Char} {t : Timestamp} {w : Wording}

theorem Wording.Loose.each (loose : w.Loose) : w.month.Fits 2 [] ∧ w.day.Fits 2 [] ∧ w.hour.Fits 2 [] ∧
    w.minute.Fits 2 [] ∧ w.second.Fits 2 [] := by
  simpa [Wording.fields] using loose.fields

-- Without a fraction loose words are read as what they spell, whatever their length.
theorem readBase_iff : readBase text = some t ↔ ∃ w : Wording, w.Loose ∧ w.text = text ∧ w.reading = t.reading := by
  constructor
  · intro read
    unfold readBase at read
    simp only [Option.bind_eq_bind,Option.bind_eq_some_iff,Prod.exists,takeMark_iff] at read
    obtain ⟨year,rest,isYear,_,rfl,month,rest,isMonth,_,rfl,day,rest,isDay,_,rfl,hour,rest,isHour,_,rfl,minute,rest,
      isMinute,_,rfl,second,rest,isSecond,_,ends,read⟩ := read
    obtain ⟨y,fitsY,rfl,rfl⟩ := takeYear_some isYear
    obtain ⟨mo,fitsMo,rfl,rfl⟩ := takeField_some isMonth
    obtain ⟨d,fitsD,rfl,rfl⟩ := takeField_some isDay
    obtain ⟨h,fitsH,rfl,rfl⟩ := takeField_some isHour
    obtain ⟨mi,fitsMi,rfl,rfl⟩ := takeField_some isMinute
    obtain ⟨s,fitsS,rfl,rfl⟩ := takeField_some isSecond
    have none : rest = [] := by simpa [guard] using ends
    subst none
    refine ⟨⟨y,mo,d,h,mi,s⟩,⟨fitsY,by simp [Wording.fields,fitsMo,fitsD,fitsH,fitsMi,fitsS]⟩,by simp [Wording.text],?_⟩
    split at read
    · next leap => simpa [Wording.reading,leap] using ofReading?_iff.mp read
    · next plain => simpa [Wording.reading,plain] using ofReading?_iff.mp read
  · rintro ⟨w,loose,rfl,same⟩
    obtain ⟨month,day,hour,minute,second⟩ := loose.each
    have last : takeField (w.second.text ++ []) = _ := takeField_stops second (by simp [Stops])
    have after {mark : Char} (apart : mark.isDigit = false) (rest : List Char) : Stops (mark :: rest) := stops_mark apart rest
    rw [List.append_nil] at last
    simp only [readBase,Wording.text,takeYear_stops loose.year (after (by decide : '-'.isDigit = false) _),
      takeField_stops month (after (by decide : '-'.isDigit = false) _),
      takeField_stops day (after (by decide : 'T'.isDigit = false) _),
      takeField_stops hour (after (by decide : ':'.isDigit = false) _),
      takeField_stops minute (after (by decide : ':'.isDigit = false) _),last,takeMark,if_true,Option.bind_eq_bind,
      Option.bind_some,List.isEmpty_nil,guard_holds]
    split
    · next leap => exact ofReading?_iff.mpr (by simpa [Wording.reading,leap] using same)
    · next plain => exact ofReading?_iff.mpr (by simpa [Wording.reading,plain] using same)

theorem Wording.mem_text {c : Char} :
    c ∈ w.text ↔ c ∈ w.year.text ∨ (∃ f ∈ w.fields, c ∈ f.text) ∨ c ∈ ['-','T',':'] := by
  simp only [Wording.text,Wording.fields,List.mem_append,List.mem_cons,List.not_mem_nil,or_false]
  grind

theorem Wording.Loose.chars (loose : w.Loose) {c : Char} (present : c ∈ w.text) :
    isBlank c = true ∨ c.isDigit = true ∨ c ∈ ['+','-','T',':'] := by
  rcases Wording.mem_text.mp present with year | ⟨f,one,inside⟩ | mark
  · rcases loose.year.chars year with blank | digit | sign
    · exact .inl blank
    · exact .inr (.inl digit)
    · exact .inr (.inr (List.mem_append_left ['T',':'] sign))
  · rcases (loose.fields f one).chars inside with blank | digit | none
    · exact .inl blank
    · exact .inr (.inl digit)
    · cases none
  · exact .inr (.inr (List.mem_cons_of_mem _ mark))

theorem Wording.Loose.pointless (loose : w.Loose) : ∀ c ∈ w.text, (c != '.') = true := by
  intro c present
  rw [bne_iff_ne]
  rintro rfl
  rcases loose.chars present with blank | digit | mark
  · exact absurd blank (by decide)
  · cases digit
  · exact absurd mark (by decide)

end Words

section Fractions
variable {t : Timestamp} {fraction : Option (List Char)}

theorem dropWhile_point (text : List Char) : ∃ fraction, text.dropWhile (· != '.') = suffix fraction := by
  cases rest : text.dropWhile (· != '.') with
  | nil => exact ⟨none,rfl⟩
  | cons c digits =>
    have some : text.dropWhile (· != '.') ≠ [] := by simp [rest]
    have point := List.head_dropWhile_not (· != '.') some
    simp only [rest,List.head_cons,bne_eq_false_iff_eq] at point
    exact ⟨.some digits,by rw [suffix,point]⟩

theorem numeral_filled (digits : List Char) (count : Nat) :
    numeral (digits ++ List.replicate count '0') = numeral digits * 10 ^ count := by
  have zeros : numeral (List.replicate count '0') = 0 := by simp [numeral]
  rw [numeral_append,zeros,List.length_replicate,Nat.add_zero,Nat.mul_comm]

theorem readFraction_iff {digits : List Char} {n : Nat} : readFraction digits = some n ↔
    (digits.length ≤ 9 ∧ ∀ c ∈ digits, c.isDigit = true) ∧
      numeral (digits ++ List.replicate (9 - digits.length) '0') = n := by
  rw [readFraction,numeral_filled,Option.ite_none_right_eq_some,List.all_eq_true,Option.some_inj]
  exact Iff.rfl

def finished (t : Timestamp) : Option (List Char) → Option Timestamp
  | none | some [] => some t
  | some digits => (readFraction digits).bind fun nanosecond => ofReading? { t.reading with nanosecond }

theorem finished_iff {start : Timestamp} :
    finished start fraction = some t ↔ Decimals fraction ∧ refined start.reading fraction = t.reading := by
  have same : some start = some t ↔ start.reading = t.reading := by
    rw [← ofReading?_reading start,ofReading?_iff]
  rcases fraction with _ | _ | ⟨c,rest⟩
  · simp [finished,Decimals,refined,same]
  · simp [finished,Decimals,refined,same]
  · simp only [finished,Option.bind_eq_some_iff,readFraction_iff,ofReading?_iff,Decimals,refined,Option.mem_some_iff,
      forall_eq']
    constructor
    · rintro ⟨n,⟨decimals,rfl⟩,same⟩
      exact ⟨decimals,same⟩
    · rintro ⟨decimals,same⟩
      exact ⟨_,⟨decimals,rfl⟩,same⟩

theorem parse_split {base : List Char} (pointless : ∀ c ∈ base, (c != '.') = true) : parse (base ++ suffix fraction) =
    (guard (byteLength base = 19) >>= fun _ => readBase base >>= fun t => finished t fraction) := by
  have front : (base ++ suffix fraction).takeWhile (· != '.') = base := by
    rw [List.takeWhile_append_of_pos pointless]
    cases fraction <;> simp [suffix]
  have back : (base ++ suffix fraction).dropWhile (· != '.') = suffix fraction := by
    rw [List.dropWhile_append_of_pos pointless]
    cases fraction <;> simp [suffix]
  unfold parse
  dsimp only
  rw [front,back]
  rcases fraction with _ | _ | ⟨c,rest⟩ <;> rfl

end Fractions

theorem Wording.reading_real {w : Wording} {fraction : Option (List Char)} (real : (refined w.reading fraction).Real) :
    w.reading.Real := by
  have shared : (refined w.reading fraction).year = w.reading.year ∧ (refined w.reading fraction).month = w.reading.month ∧
      (refined w.reading fraction).day = w.reading.day ∧ (refined w.reading fraction).hour = w.reading.hour ∧
      (refined w.reading fraction).minute = w.reading.minute ∧ (refined w.reading fraction).second = w.reading.second := by
    unfold refined
    split <;> exact ⟨rfl,rfl,rfl,rfl,rfl,rfl⟩
  obtain ⟨year,month,day,hour,minute,second⟩ := shared
  refine ⟨year ▸ real.year,month ▸ real.month,year ▸ month ▸ day ▸ real.day,hour ▸ minute ▸ second ▸ real.clock,?_⟩
  unfold Wording.reading
  dsimp only
  split
  · exact .inr ⟨rfl,by decide⟩
  · exact .inl (by decide)

theorem parse_iff {text : List Char} {t : Timestamp} : parse text = some t ↔ Spells Wording.Passes text t := by
  constructor
  · intro read
    obtain ⟨fraction,point⟩ := dropWhile_point text
    have split : text.takeWhile (· != '.') ++ suffix fraction = text := by
      rw [← point,List.takeWhile_append_dropWhile]
    have pointless : ∀ c ∈ text.takeWhile (· != '.'), (c != '.') = true := fun _ => List.mem_takeWhile_imp
    rw [← split,parse_split pointless] at read
    simp only [Option.bind_eq_bind,Option.bind_eq_some_iff,finished_iff,readBase_iff] at read
    obtain ⟨_,length,start,⟨w,loose,spelled,same⟩,decimals,refines⟩ := read
    have nineteen : byteLength w.text = 19 := by
      rw [spelled]
      by_contra other
      simp [guard,other] at length
    exact ⟨w,fraction,⟨loose,nineteen⟩,spelled ▸ split,decimals,same ▸ refines⟩
  · rintro ⟨w,fraction,passes,rfl,decimals,refines⟩
    have real : w.reading.Real := Wording.reading_real (refines ▸ t.real)
    have read : readBase w.text = some ⟨w.reading,real⟩ := readBase_iff.mpr ⟨w,passes.toLoose,rfl,rfl⟩
    rw [parse_split passes.toLoose.pointless,passes.length,guard_holds rfl,read]
    exact finished_iff.mpr ⟨decimals,refines⟩

section Width
variable {w : Wording}

theorem Wording.Loose.ink (loose : w.Loose) (bare : ∀ f ∈ w.year :: w.fields, f.blanks = []) :
    ∀ c ∈ w.text, isBlank c = false := by
  obtain ⟨first,others⟩ := List.forall_mem_cons.mp bare
  intro c present
  rcases Wording.mem_text.mp present with year | ⟨f,one,inside⟩ | mark
  · exact loose.year.ink ink_signs first year
  · exact (loose.fields f one).ink (List.forall_mem_nil _) (others f one) inside
  · simp only [List.mem_cons,List.not_mem_nil,or_false] at mark
    rcases mark with rfl | rfl | rfl <;> decide

theorem Wording.Loose.byteLength_text (loose : w.Loose) (ink : ∀ c ∈ w.text, isBlank c = false) :
    byteLength w.text = w.text.length := by
  refine byteLength_ascii fun c present => ?_
  rcases loose.chars present with blank | digit | mark
  · rw [ink c present] at blank
    cases blank
  · exact utf8Size_digit digit
  · simp only [List.mem_cons,List.not_mem_nil,or_false] at mark
    rcases mark with rfl | rfl | rfl | rfl <;> decide

theorem Wording.text_length : w.text.length = w.year.text.length + w.month.text.length + w.day.text.length +
    w.hour.text.length + w.minute.text.length + w.second.text.length + 5 := by
  simp only [Wording.text,List.length_append,List.length_cons]
  omega

theorem Wording.Fixed.loose (fixed : w.Fixed) : w.Loose :=
  ⟨fixed.year.fits (by decide),fun f one => (fixed.fields f one).fits (by decide)⟩

theorem Wording.Fixed.ink (fixed : w.Fixed) : ∀ c ∈ w.text, isBlank c = false :=
  fixed.loose.ink (List.forall_mem_cons.mpr ⟨fixed.year.blanks,fun f one => (fixed.fields f one).blanks⟩)

theorem Wording.Fixed.passes (fixed : w.Fixed) : w.Passes := by
  refine ⟨fixed.loose,?_⟩
  have four : w.year.text.length = 4 := by rw [fixed.year.text_eq,fixed.year.length]
  have two : ∀ f ∈ w.fields, f.text.length = 2 := fun f one => by
    rw [(fixed.fields f one).text_eq,(fixed.fields f one).length]
  simp only [Wording.fields,List.forall_mem_cons] at two
  rw [fixed.loose.byteLength_text fixed.ink,Wording.text_length]
  omega

end Width
end DurableRules.Timestamp
