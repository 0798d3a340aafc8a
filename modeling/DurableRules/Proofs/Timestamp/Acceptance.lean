import DurableRules.Proofs.Timestamp.Words

namespace DurableRules.Timestamp
open Text

structure Plain (text : List Char) : Prop where
  ink : ∀ c ∈ text, isBlank c = false
  sign : ∀ c ∈ text.head?, c ≠ '+' ∧ c ≠ '-'

section Width
variable {w : Wording} {fraction : Option (List Char)}

theorem Wording.Fixed.plain (fixed : w.Fixed) (decimals : Decimals fraction) : Plain (w.text ++ suffix fraction) := by
  constructor
  · intro c present
    rcases List.mem_append.mp present with word | tail
    · exact fixed.ink c word
    · cases fraction with
      | none => cases tail
      | some digits =>
        rcases List.mem_cons.mp tail with rfl | digit
        · decide
        · exact isBlank_digit ((decimals digits rfl).2 c digit)
  · obtain ⟨c,rest,spelled⟩ : ∃ c rest, w.year.digits = c :: rest :=
      List.exists_cons_of_length_pos (fixed.year.length ▸ by decide)
    have digit : c.isDigit = true := fixed.year.digits c (spelled ▸ List.mem_cons_self)
    have first : (w.text ++ suffix fraction).head? = some c := by
      simp [Wording.text,fixed.year.text_eq,spelled]
    intro d front
    rw [first] at front
    cases front
    constructor <;> rintro rfl <;> cases digit

theorem Figure.Fits.bare {f : Figure} {most : Nat} {signs : List Char} (fits : f.Fits most signs)
    (ink : ∀ c ∈ f.text, isBlank c = false) : f.blanks = [] := by
  refine List.eq_nil_iff_forall_not_mem.mpr fun c present => ?_
  have blank := fits.blanks c present
  rw [ink c (List.mem_append_left _ present)] at blank
  cases blank

theorem Figure.text_length {f : Figure} (bare : f.blanks = []) (unsigned : f.sign = none) :
    f.text.length = f.digits.length := by
  simp [Figure.text,bare,unsigned]

-- Blanks and a sign are the only way to nineteen bytes for a number that is too short.
theorem Wording.Passes.fixed (passes : w.Passes) (plain : Plain (w.text ++ suffix fraction)) : w.Fixed := by
  have ink : ∀ c ∈ w.text, isBlank c = false := fun c present => plain.ink c (List.mem_append_left _ present)
  have bare : w.year.blanks = [] := passes.year.bare fun c inside => ink c (Wording.mem_text.mpr (.inl inside))
  have unsigned : w.year.sign = none := by
    refine Option.eq_none_iff_forall_not_mem.mpr fun mark present => ?_
    have first : mark ∈ (w.text ++ suffix fraction).head? := by
      simp [Wording.text,Figure.text,bare,Option.mem_def.mp present]
    have apart := plain.sign mark first
    have either : mark = '+' ∨ mark = '-' := by simpa using passes.year.signed mark present
    rcases either with plus | minus
    · exact apart.1 plus
    · exact apart.2 minus
  have field : ∀ f ∈ w.fields, f.blanks = [] ∧ f.sign = none ∧ f.digits.length ≤ 2 := fun f one => by
    have fits := passes.fields f one
    exact ⟨fits.bare fun c inside => ink c (Wording.mem_text.mpr (.inr (.inl ⟨f,one,inside⟩))),fits.unsigned,
      fits.short fits.unsigned⟩
  have most := passes.year.short unsigned
  have widths : w.year.digits.length = 4 ∧ ∀ f ∈ w.fields, f.digits.length = 2 := by
    have length := passes.length
    rw [passes.toLoose.byteLength_text ink,Wording.text_length,Figure.text_length bare unsigned] at length
    simp only [Wording.fields,List.forall_mem_cons] at field ⊢
    obtain ⟨month,day,hour,minute,second,_⟩ := field
    rw [Figure.text_length month.1 month.2.1,Figure.text_length day.1 day.2.1,Figure.text_length hour.1 hour.2.1,
      Figure.text_length minute.1 minute.2.1,Figure.text_length second.1 second.2.1] at length
    exact ⟨by omega,by omega,by omega,by omega,by omega,by omega,List.forall_mem_nil _⟩
  exact ⟨⟨bare,unsigned,widths.1,passes.year.digits⟩,fun f one =>
    ⟨(field f one).1,(field f one).2.1,widths.2 f one,(passes.fields f one).digits⟩⟩

end Width

theorem spells_fixed_iff {text : List Char} {t : Timestamp} :
    Spells Wording.Fixed text t ↔ Spells Wording.Passes text t ∧ Plain text := by
  constructor
  · rintro ⟨w,fraction,fixed,rfl,decimals,same⟩
    exact ⟨⟨w,fraction,fixed.passes,rfl,decimals,same⟩,fixed.plain decimals⟩
  · rintro ⟨⟨w,fraction,passes,rfl,decimals,same⟩,plain⟩
    exact ⟨w,fraction,passes.fixed plain,rfl,decimals,same⟩

theorem ofText_ok {text : String} {t : Timestamp} : ofText text = .ok t ↔ parse text.toList = some t := by
  unfold ofText
  split <;> simp_all

-- The reader takes what passes and names every other text. Of the texts without
-- blanks and without a sign in front these are the ones of fixed width, but blanks
-- and a sign make up for short numbers.
theorem ofText_ok_iff (text : String) :
    (∀ t, ofText text = .ok t ↔ Spells Wording.Passes text.toList t) ∧
    (∀ t, Spells Wording.Fixed text.toList t ↔ ofText text = .ok t ∧ Plain text.toList) ∧
    (ofText text = .error ⟨text⟩ ↔ ∀ t, ¬Spells Wording.Passes text.toList t) := by
  have accepted (t : Timestamp) : ofText text = .ok t ↔ Spells Wording.Passes text.toList t := ofText_ok.trans parse_iff
  refine ⟨accepted,fun t => by rw [accepted,spells_fixed_iff],?_⟩
  simp only [← accepted]
  unfold ofText
  split <;> simp

example : parse "+12345-6-7T08:09:10".toList = ofReading? ⟨12345,6,7,8,9,10,0⟩ := by decide +kernel

end DurableRules.Timestamp
