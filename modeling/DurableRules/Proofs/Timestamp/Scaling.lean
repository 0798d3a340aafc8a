import DurableRules.Proofs.Text.Word
import DurableRules.Proofs.Timestamp.Shortest

namespace DurableRules.Timestamp
open Text

-- Why a text is not read. The first three are found before there is any arithmetic.
inductive Failure where
  | length
  | base
  | decimals
  | overflow
  | number
  | nanosecond
deriving DecidableEq

def require {α : Type} (failure : Failure) : Option α → Except Failure α
  | some result => .ok result
  | none => .error failure

-- A nanosecond is taken as long as it is below two seconds.
def withNanosecond (t : Timestamp) (nanosecond : UInt32) : Option Reading :=
  if nanosecond < 2000000000 then some { t.reading with nanosecond := nanosecond.toNat } else none

def splitPoint (text : List Char) : List Char × Option (List Char) :=
  (text.takeWhile (· != '.'),
    match text.dropWhile (· != '.') with
    | [] => none
    | _ :: rest => some rest)

-- All that is done before the arithmetic: the time before the point, and the digits
-- after it if there are any.
def prepared (text : List Char) : Except Failure (Timestamp × Option (List Char)) :=
  let (base,fraction) := splitPoint text
  if byteLength base ≠ 19 then .error .length
  else match readBase base with
    | none => .error .base
    | some t =>
      match fraction with
      | none | some [] => .ok (t,none)
      | some digits =>
        if 9 < byteLength digits ∨ digits.all Char.isDigit = false then .error .decimals
        else .ok (t,some digits)

def scaled (t : Timestamp) (digits : List Char) : Except Failure Reading := do
  let exponent ← require .overflow (Word.sub 9 (UInt32.ofNat (byteLength digits)))
  let scale ← require .overflow (Word.pow 10 exponent)
  let number ← require .number (Word.read digits)
  let nanosecond ← require .overflow (Word.mul number scale)
  require .nanosecond (t.withNanosecond nanosecond)

-- The reader in words of 32 bits, with each way to fail apart from the others.
def stepwise (text : List Char) : Except Failure Reading := do
  let (t,fraction) ← prepared text
  match fraction with
  | none => pure t.reading
  | some digits => scaled t digits

-- The words of the scaling, one after the other. The last of them is the number of
-- the digits when zeros follow up to nine places.
structure Scales (digits : List Char) (exponent scale number nanosecond : UInt32) : Prop where
  places : Word.sub 9 (UInt32.ofNat (byteLength digits)) = some exponent
  power : Word.pow 10 exponent = some scale
  named : Word.read digits = some number
  product : Word.mul number scale = some nanosecond
  value : nanosecond.toNat = numeral (digits ++ List.replicate (9 - digits.length) '0')
  small : nanosecond.toNat < 1000000000

section Digits
variable {digits : List Char}

structure Scalable (digits : List Char) : Prop where
  nonempty : digits ≠ []
  short : digits.length ≤ 9
  all : ∀ c ∈ digits, c.isDigit = true

theorem byteLength_digits (all : ∀ c ∈ digits, c.isDigit = true) : byteLength digits = digits.length :=
  byteLength_ascii fun c present => utf8Size_digit (all c present)

theorem Scalable.scale (scalable : Scalable digits) : ∃ exponent scale,
    Word.sub 9 (UInt32.ofNat (byteLength digits)) = some exponent ∧ Word.pow 10 exponent = some scale ∧
      scale.toNat = 10 ^ (9 - digits.length) := by
  have short := scalable.short
  have width : (UInt32.ofNat (byteLength digits)).toNat = digits.length := by
    rw [byteLength_digits scalable.all]
    exact UInt32.toNat_ofNat_of_lt' (Nat.lt_of_le_of_lt short (by decide))
  obtain ⟨exponent,subtracted,places⟩ := Word.sub_of_le (a := 9) (b := UInt32.ofNat (byteLength digits))
    (UInt32.le_iff_toNat_le.mpr (width ▸ short))
  rw [width] at places
  have nine : exponent.toNat ≤ 9 := places ▸ Nat.sub_le 9 _
  obtain ⟨scale,raised,factor⟩ := Word.pow_of_lt (a := 10) (b := exponent)
    (Nat.lt_of_le_of_lt (Nat.pow_le_pow_right (by decide) nine) (by decide))
  exact ⟨exponent,scale,subtracted,raised,places ▸ factor⟩

-- The number of the digits and the factor are bounded together: their product is the
-- number of nine digits.
theorem Scalable.scales (scalable : Scalable digits) :
    ∃ exponent scale number nanosecond, Scales digits exponent scale number nanosecond := by
  obtain ⟨exponent,scale,subtracted,raised,factor⟩ := scalable.scale
  have small := numeral_nine scalable.short scalable.all
  have filled := numeral_filled digits (9 - digits.length)
  have below : numeral digits ≤ numeral digits * 10 ^ (9 - digits.length) :=
    Nat.le_mul_of_pos_right _ (Nat.pow_pos (by decide))
  have room : 1000000000 < UInt32.size := by decide
  obtain ⟨number,read,named⟩ := Word.read_of_lt scalable.nonempty scalable.all (by omega)
  have result : number.toNat * scale.toNat = numeral (digits ++ List.replicate (9 - digits.length) '0') := by
    rw [named,factor,filled]
  obtain ⟨nanosecond,multiplied,value⟩ := Word.mul_of_lt (a := number) (b := scale) (by omega)
  exact ⟨exponent,scale,number,nanosecond,subtracted,raised,read,multiplied,value.trans result,by omega⟩

theorem withNanosecond_small {nanosecond : UInt32} (small : nanosecond.toNat < 1000000000) (t : Timestamp) :
    t.withNanosecond nanosecond = some { t.reading with nanosecond := nanosecond.toNat } :=
  if_pos (UInt32.lt_iff_toNat_lt.mpr (Nat.lt_trans small (by decide)))

theorem Scales.refined {exponent scale number nanosecond : UInt32} (scales : Scales digits exponent scale number nanosecond)
    (nonempty : digits ≠ []) (t : Timestamp) :
    refined t.reading (some digits) = { t.reading with nanosecond := nanosecond.toNat } := by
  obtain ⟨c,rest,rfl⟩ := List.exists_cons_of_ne_nil nonempty
  rw [Timestamp.refined,scales.value]

theorem Scalable.scaled_ok (scalable : Scalable digits) (t : Timestamp) :
    scaled t digits = .ok (refined t.reading (some digits)) := by
  obtain ⟨exponent,scale,number,nanosecond,scales⟩ := scalable.scales
  simp only [scaled,scales.places,scales.power,scales.named,scales.product,withNanosecond_small scales.small,require,
    bind,Except.bind,scales.refined scalable.nonempty]

end Digits

theorem refined_real {fraction : Option (List Char)} (decimals : Decimals fraction) (t : Timestamp) :
    (refined t.reading fraction).Real := by
  rcases fraction with _ | _ | ⟨c,rest⟩
  · exact t.real
  · exact t.real
  · obtain ⟨short,all⟩ := decimals (c :: rest) rfl
    exact ⟨t.real.year,t.real.month,t.real.day,t.real.clock,.inl (numeral_nine short all)⟩

section Stepping
variable {text : List Char} {t next : Timestamp} {fraction : Option (List Char)} {r : Reading}

theorem splitPoint_text (text : List Char) : (splitPoint text).1 ++ suffix (splitPoint text).2 = text := by
  obtain ⟨fraction,point⟩ := dropWhile_point text
  have whole : text.takeWhile (· != '.') ++ suffix fraction = text := by
    rw [← point,List.takeWhile_append_dropWhile]
  unfold splitPoint
  rw [point]
  cases fraction <;> exact whole

theorem parse_point : parse text = some next ↔ byteLength (splitPoint text).1 = 19 ∧
    ∃ t, readBase (splitPoint text).1 = some t ∧ Decimals (splitPoint text).2 ∧
      refined t.reading (splitPoint text).2 = next.reading := by
  have pointless : ∀ c ∈ (splitPoint text).1, (c != '.') = true := fun _ => List.mem_takeWhile_imp
  have split : parse ((splitPoint text).1 ++ suffix (splitPoint text).2) = _ := parse_split pointless
  rw [splitPoint_text] at split
  rw [split]
  by_cases nineteen : byteLength (splitPoint text).1 = 19
  · rw [guard_holds nineteen]
    simp only [Option.bind_eq_bind,Option.bind_some,Option.bind_eq_some_iff,finished_iff,nineteen,true_and]
  · simp [guard,nineteen]

theorem decimals_iff {digits : List Char} : Decimals (some digits) ↔
    ¬(9 < byteLength digits ∨ digits.all Char.isDigit = false) := by
  rw [not_or,Nat.not_lt,Bool.not_eq_false,List.all_eq_true]
  constructor
  · intro decimals
    obtain ⟨short,all⟩ := decimals digits rfl
    exact ⟨byteLength_digits all ▸ short,all⟩
  · rintro ⟨short,all⟩ _ ⟨⟩
    exact ⟨byteLength_digits all ▸ short,all⟩

-- The reader gives up for one of three reasons or goes on to the arithmetic, and then
-- the time is the one before the point with these digits for a fraction.
theorem prepared_cases (text : List Char) :
    (∃ failure ∈ [Failure.length,.base,.decimals], prepared text = .error failure ∧ parse text = none) ∨
    ∃ t fraction, prepared text = .ok (t,fraction) ∧ Decimals fraction ∧
      (∀ digits ∈ fraction, digits ≠ [] ∧ (splitPoint text).2 = some digits) ∧
      ∀ next, parse text = some next ↔ refined t.reading fraction = next.reading := by
  have refuses (none : ∀ next, parse text = some next → False) : parse text = .none :=
    Option.eq_none_iff_forall_ne_some.mpr none
  unfold prepared
  dsimp only
  split
  · next other => exact .inl ⟨_,by simp,rfl,refuses fun _ read => other (parse_point.mp read).1⟩
  · next nineteen =>
    rw [not_not] at nineteen
    split
    · next unread =>
      refine .inl ⟨_,by simp,rfl,refuses fun _ read => ?_⟩
      obtain ⟨_,_,start,_⟩ := parse_point.mp read
      cases unread.symm.trans start
    · next t start =>
      have goes (fraction : Option (List Char)) (given : (splitPoint text).2 = fraction) (decimals : Decimals fraction) :
          ∀ next, parse text = some next ↔ refined t.reading fraction = next.reading := by
        intro next
        rw [parse_point,given,start]
        simp [nineteen,decimals]
      split
      · next given => exact .inr ⟨t,none,rfl,nofun,nofun,goes _ given nofun⟩
      · next given => exact .inr ⟨t,none,rfl,nofun,nofun,goes (some []) given (by simp [Decimals])⟩
      · next digits more given =>
        split
        · next refused =>
          refine .inl ⟨_,by simp,rfl,refuses fun _ read => ?_⟩
          obtain ⟨_,_,_,decimals,_⟩ := parse_point.mp read
          exact decimals_iff.mp (given ▸ decimals) refused
        · next accepted =>
          have decimals := decimals_iff.mpr accepted
          refine .inr ⟨t,_,rfl,decimals,fun others same => ?_,goes _ given decimals⟩
          cases same
          exact ⟨more,given⟩

theorem prepared_scalable {digits : List Char} (ready : prepared text = .ok (t,some digits)) :
    Scalable digits ∧ (splitPoint text).2 = some digits := by
  obtain ⟨_,_,refused,_⟩ | ⟨_,_,same,decimals,given,_⟩ := prepared_cases text
  · cases ready.symm.trans refused
  · cases ready.symm.trans same
    obtain ⟨short,all⟩ := decimals digits rfl
    obtain ⟨nonempty,point⟩ := given digits rfl
    exact ⟨⟨nonempty,short,all⟩,point⟩

theorem stepwise_ok (ready : prepared text = .ok (t,fraction)) : stepwise text = .ok (refined t.reading fraction) := by
  unfold stepwise
  rw [ready]
  cases fraction with
  | none => rfl
  | some digits => exact (prepared_scalable ready).1.scaled_ok t

theorem stepwise_cases (text : List Char) :
    (∃ failure ∈ [Failure.length,.base,.decimals], stepwise text = .error failure ∧ parse text = none) ∨
    ∃ t, stepwise text = .ok t.reading ∧ parse text = some t := by
  obtain ⟨failure,early,refused,none⟩ | ⟨t,fraction,ready,decimals,_,same⟩ := prepared_cases text
  · exact .inl ⟨failure,early,by rw [stepwise,refused]; rfl,none⟩
  · refine .inr ⟨⟨refined t.reading fraction,refined_real decimals t⟩,stepwise_ok ready,(same _).mpr rfl⟩

theorem ofText_stepwise {text : String} : ofText text = .ok t ↔ stepwise text.toList = .ok t.reading := by
  rw [ofText_ok]
  obtain ⟨_,_,refused,none⟩ | ⟨u,stepped,read⟩ := stepwise_cases text.toList
  · simp [refused,none]
  · rw [stepped,read,← ofReading?_reading u,ofReading?_iff,Except.ok.injEq]

theorem ofText_refused {text : String} : ofText text = .error ⟨text⟩ ↔
    ∃ failure ∈ [Failure.length,.base,.decimals], stepwise text.toList = .error failure := by
  obtain ⟨failure,early,refused,none⟩ | ⟨t,stepped,read⟩ := stepwise_cases text.toList
  · exact iff_of_true (by rw [ofText,none]) ⟨failure,early,refused⟩
  · refine iff_of_false (by rw [ofText,read]; nofun) ?_
    rintro ⟨_,_,refused⟩
    cases stepped.symm.trans refused

theorem stepwise_early {failure : Failure} (refused : stepwise text = .error failure) :
    failure ∈ [Failure.length,.base,.decimals] := by
  obtain ⟨other,early,failed,_⟩ | ⟨_,stepped,_⟩ := stepwise_cases text
  · cases refused.symm.trans failed
    exact early
  · cases refused.symm.trans stepped

theorem prepared_point {digits : List Char} (ready : prepared text = .ok (t,some digits)) :
    ∃ base, text = base ++ '.' :: digits ∧ '.' ∉ base := by
  have whole := splitPoint_text text
  rw [(prepared_scalable ready).2] at whole
  exact ⟨_,whole.symm,fun inside => by cases List.mem_takeWhile_imp inside⟩

theorem ofText_ready {text : String} (ready : prepared text.toList = .ok (t,fraction)) :
    ∃ next, ofText text = .ok next ∧ next.reading = refined t.reading fraction := by
  have stepped := stepwise_ok ready
  obtain ⟨_,_,refused,_⟩ | ⟨next,read,_⟩ := stepwise_cases text.toList
  · cases stepped.symm.trans refused
  · exact ⟨next,ofText_stepwise.mpr read,Except.ok.inj (read.symm.trans stepped)⟩

end Stepping

-- Read in words of 32 bits a text gives the same answer, and no step of the arithmetic
-- ever fails: once what follows the point is known to be digits, nine at most, every
-- word fits, and the time takes their number with zeros up to nine places.
theorem fraction_exact (text : String) :
    (∀ t, ofText text = .ok t ↔ stepwise text.toList = .ok t.reading) ∧
    (ofText text = .error ⟨text⟩ ↔ ∃ failure ∈ [Failure.length,.base,.decimals], stepwise text.toList = .error failure) ∧
    (∀ failure ∈ [Failure.overflow,.number,.nanosecond], stepwise text.toList ≠ .error failure) ∧
    ∀ t digits, prepared text.toList = .ok (t,some digits) →
      (∃ base, text.toList = base ++ '.' :: digits ∧ '.' ∉ base) ∧
      ∃ exponent scale number nanosecond, Scales digits exponent scale number nanosecond ∧
        t.withNanosecond nanosecond = some { t.reading with nanosecond := nanosecond.toNat } ∧
        ∃ next, ofText text = .ok next ∧ next.reading = { t.reading with nanosecond := nanosecond.toNat } := by
  refine ⟨fun _ => ofText_stepwise,ofText_refused,fun failure late stepped => ?_,fun t digits ready => ?_⟩
  · have apart : ∀ failure ∈ [Failure.overflow,.number,.nanosecond], failure ∉ [Failure.length,.base,.decimals] := by decide
    exact apart failure late (stepwise_early stepped)
  · have scalable := (prepared_scalable ready).1
    obtain ⟨exponent,scale,number,nanosecond,scales⟩ := scalable.scales
    obtain ⟨next,read,result⟩ := ofText_ready ready
    rw [scales.refined scalable.nonempty t] at result
    exact ⟨prepared_point ready,exponent,scale,number,nanosecond,scales,withNanosecond_small scales.small t,next,read,result⟩

-- A leap second is the second before with a nanosecond past one second, and a fraction
-- takes the place of that nanosecond.
def brink : Timestamp := ⟨⟨2016,12,31,23,59,59,1000000000⟩,by decide⟩

theorem brink_exact : prepared "2016-12-31T23:59:60.999999999".toList = .ok (brink,some "999999999".toList) ∧
    ∃ exponent scale number nanosecond, Scales "999999999".toList exponent scale number nanosecond ∧
      brink.withNanosecond nanosecond = some { brink.reading with nanosecond := nanosecond.toNat } ∧
      ∃ next, ofText "2016-12-31T23:59:60.999999999" = .ok next ∧ next.reading = { brink.reading with nanosecond := nanosecond.toNat } := by
  have ready : prepared "2016-12-31T23:59:60.999999999".toList = .ok (brink,some "999999999".toList) := by decide +kernel
  exact ⟨ready,((fraction_exact "2016-12-31T23:59:60.999999999").2.2.2 brink "999999999".toList ready).2⟩

end DurableRules.Timestamp
