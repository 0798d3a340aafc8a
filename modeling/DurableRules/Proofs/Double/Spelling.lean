import DurableRules.Double.Decimal
import DurableRules.Proofs.Json.Scanning
import DurableRules.Proofs.Text.Digits

namespace DurableRules
open Text

namespace Double

-- Digits that spell a number other than zero without zeros at its ends.
structure Leading (digits : List Char) : Prop where
  first : ∃ c rest, digits = c :: rest ∧ c ≠ '0'
  all : ∀ c ∈ digits, c.isDigit = true

theorem stripped_leading {n : Nat} (positive : 0 < n) (place : Int) : Leading (stripped n place).digits :=
  ⟨significant_decimal positive,fun _ present => decimal_digits (significant_digits present)⟩

theorem significand_pos {magnitude : Nat} (some : magnitude ≠ 0) : 0 < significand magnitude := by
  unfold significand
  split
  · exact Nat.pos_of_ne_zero some
  · exact Nat.add_pos_right _ (by decide)

theorem ratio_pos {magnitude : Nat} (some : magnitude ≠ 0) : 0 < (ratio magnitude).1 ∧ 0 < (ratio magnitude).2 := by
  simp only [ratio,Nat.shiftLeft_eq]
  exact ⟨Nat.mul_pos (significand_pos some) (Nat.two_pow_pos _),Nat.mul_pos Nat.one_pos (Nat.two_pow_pos _)⟩

theorem hits_pos {magnitude n : Nat} {place : Int} (some : magnitude ≠ 0) (hit : hits magnitude n place = true) : 0 < n := by
  apply Nat.pos_of_ne_zero
  intro zero
  subst zero
  simp [hits,tenths,nearest] at hit
  exact some hit.symm

theorem onGrid_pos {magnitude n : Nat} {place : Int} (some : magnitude ≠ 0)
    (found : onGrid magnitude place = .some n) : 0 < n := by
  unfold onGrid at found
  dsimp only at found
  split at found
  · next hit =>
    cases found
    exact hits_pos some hit
  · split at found
    · next hit =>
      cases found
      exact hits_pos some hit
    · split at found
      · next hit =>
        cases found
        exact hits_pos some hit
      · cases found

theorem roundDiv_pos {num den : Nat} (some : 0 < den) (large : den ≤ num) : 0 < roundDiv num den := by
  have whole := Nat.div_pos large some
  unfold roundDiv
  dsimp only
  split
  · exact Nat.succ_pos _
  · exact whole

theorem last_grid {num den : Nat} (top : 0 < num) (bottom : 0 < den) : den * Nat.pow 10 (decimalPlace num den - 17).toNat ≤
    num * Nat.pow 10 ((17 : Int) - decimalPlace num den).toNat := by
  unfold decimalPlace
  split
  · next large =>
    have digits := decimal_length_ge (Nat.div_pos large bottom)
    have some := decimal_length_pos (num / den)
    have covered : den * 10 ^ ((decimal (num / den)).length - 1) ≤ num :=
      Nat.le_trans (Nat.mul_le_mul_left den digits) (Nat.mul_div_le num den)
    have fewer : 10 ^ (((decimal (num / den)).length : Int) - 17).toNat ≤ 10 ^ ((decimal (num / den)).length - 1) :=
      Nat.pow_le_pow_right (by decide) (by omega)
    calc den * Nat.pow 10 (((decimal (num / den)).length : Int) - 17).toNat
        ≤ den * 10 ^ ((decimal (num / den)).length - 1) := Nat.mul_le_mul_left den fewer
      _ ≤ num := covered
      _ ≤ num * Nat.pow 10 ((17 : Int) - (decimal (num / den)).length).toNat :=
        Nat.le_mul_of_pos_right num (Nat.pow_pos (by decide))
  · next small =>
    have digits := lt_decimal_length (den / num)
    have some := decimal_length_pos (den / num)
    have covered : den ≤ num * 10 ^ (decimal (den / num)).length := by
      rw [Nat.mul_comm]
      exact Nat.le_of_lt ((Nat.div_lt_iff_lt_mul top).mp digits)
    have none : ((1 - ((decimal (den / num)).length : Int)) - 17).toNat = 0 := by omega
    have more : 10 ^ (decimal (den / num)).length ≤ 10 ^ ((17 : Int) - (1 - ((decimal (den / num)).length : Int))).toNat :=
      Nat.pow_le_pow_right (by decide) (by omega)
    rw [none]
    calc den * Nat.pow 10 0 = den := Nat.mul_one den
      _ ≤ num * 10 ^ (decimal (den / num)).length := covered
      _ ≤ num * Nat.pow 10 ((17 : Int) - (1 - ((decimal (den / num)).length : Int))).toNat := Nat.mul_le_mul_left num more

theorem shortestFrom_leading {magnitude : Nat} (some : magnitude ≠ 0) (more width : Nat) (total : more + width = 17) :
    Leading (shortestFrom magnitude (decimalPlace (ratio magnitude).1 (ratio magnitude).2) more width).digits := by
  obtain ⟨top,bottom⟩ := ratio_pos some
  induction more generalizing width with
  | zero =>
    have all : width = 17 := by omega
    subst all
    apply stripped_leading
    apply roundDiv_pos (Nat.mul_pos bottom (Nat.pow_pos (by decide)))
    exact last_grid top bottom
  | succ more ih =>
    unfold shortestFrom
    split
    · next n found => exact stripped_leading (onGrid_pos some found) _
    · exact ih (width + 1) (by omega)

theorem shortest_leading {magnitude : Nat} (some : magnitude ≠ 0) : Leading (shortest magnitude).digits :=
  shortestFrom_leading some 16 1 rfl

end Double

namespace Json

section Stages
variable {digits : List Char}

theorem foldlM_digits {stage : Stage} (stays : ∀ c, c.isDigit = true → stage.next? c = some stage)
    (all : ∀ c ∈ digits, c.isDigit = true) : digits.foldlM Stage.next? stage = some stage := by
  induction digits with
  | nil => rfl
  | cons c rest ih =>
    rw [List.foldlM_cons,stays c (all c List.mem_cons_self)]
    exact ih fun d present => all d (List.mem_cons_of_mem _ present)

theorem foldlM_run {stage next : Stage} (moves : ∀ c, c.isDigit = true → stage.next? c = some next)
    (stays : ∀ c, c.isDigit = true → next.next? c = some next) (some : digits ≠ [])
    (all : ∀ c ∈ digits, c.isDigit = true) : digits.foldlM Stage.next? stage = .some next := by
  cases digits with
  | nil => exact absurd rfl some
  | cons c rest =>
    rw [List.foldlM_cons,moves c (all c List.mem_cons_self)]
    exact foldlM_digits stays fun d present => all d (List.mem_cons_of_mem _ present)

theorem whole_digits (all : ∀ c ∈ digits, c.isDigit = true) : digits.foldlM Stage.next? .whole = some .whole :=
  foldlM_digits (fun c digit => by simp [Stage.next?,digit]) all

theorem point_digits (some : digits ≠ []) (all : ∀ c ∈ digits, c.isDigit = true) :
    digits.foldlM Stage.next? .point = .some .fraction :=
  foldlM_run (fun c digit => by simp [Stage.next?,digit]) (fun c digit => by simp [Stage.next?,digit]) some all

theorem sign_digits (some : digits ≠ []) (all : ∀ c ∈ digits, c.isDigit = true) :
    digits.foldlM Stage.next? .sign = .some .power :=
  foldlM_run (fun c digit => by simp [Stage.next?,digit]) (fun c digit => by simp [Stage.next?,digit]) some all

theorem first?_digit {c : Char} (digit : c.isDigit = true) (nonzero : c ≠ '0') : Stage.first? c = some .whole := by
  have minus : c ≠ '-' := by
    intro same
    subst same
    cases digit
  simp [Stage.first?,Stage.next?,digit,nonzero,minus]

end Stages

theorem Numeric.negative {c : Char} {rest : List Char} (numeric : Numeric (c :: rest)) (digit : c.isDigit = true) :
    Numeric ('-' :: c :: rest) := by
  obtain ⟨stage,last,first,stages,complete⟩ := numeric
  have minus : c ≠ '-' := by
    intro same
    subst same
    cases digit
  rw [Stage.first?,if_neg minus] at first
  refine ⟨.minus,last,rfl,?_,complete⟩
  rw [List.foldlM_cons,first]
  exact stages

theorem numeric_decimal (n : Nat) : Numeric (decimal n) := by
  rcases Nat.eq_zero_or_pos n with rfl | positive
  · exact ⟨.zero,.zero,rfl,rfl,rfl⟩
  · obtain ⟨c,rest,spelled,digit,nonzero⟩ := decimal_head positive
    rw [spelled]
    refine ⟨.whole,.whole,first?_digit digit nonzero,whole_digits fun d present => ?_,rfl⟩
    exact decimal_digits (spelled ▸ List.mem_cons_of_mem c present)

theorem decimal_cons (n : Nat) : ∃ c rest, decimal n = c :: rest ∧ c.isDigit = true := by
  obtain ⟨c,rest,spelled⟩ := List.exists_cons_of_ne_nil (decimal_ne_nil n)
  exact ⟨c,rest,spelled,decimal_digits (spelled ▸ List.mem_cons_self)⟩

theorem numeric_negative (n : Nat) : Numeric ('-' :: decimal n) := by
  obtain ⟨c,rest,spelled,digit⟩ := decimal_cons n
  have numeric := numeric_decimal n
  rw [spelled] at numeric ⊢
  exact numeric.negative digit

theorem zeros_digits {n : Nat} {c : Char} (present : c ∈ Double.zeros n) : c.isDigit = true := by
  rw [List.eq_of_mem_replicate present]
  rfl

theorem mark_power {stage : Stage} (marks : stage.next? 'e' = some .mark) (e : Int) :
    ('e' :: (if e < 0 then '-' else '+') :: decimal e.natAbs).foldlM Stage.next? stage = some .power := by
  have digits := sign_digits (decimal_ne_nil e.natAbs) fun _ => decimal_digits
  rw [List.foldlM_cons,marks,Option.bind_eq_bind,Option.bind_some,List.foldlM_cons]
  split <;> exact digits

theorem layout_numeric {s : Double.Shortest} (leading : Double.Leading s.digits) :
    ∃ c rest, Double.layout s = c :: rest ∧ c.isDigit = true ∧ Numeric (c :: rest) := by
  obtain ⟨c,rest,spelled,nonzero⟩ := leading.first
  have all := leading.all
  have digit : c.isDigit = true := all c (spelled ▸ List.mem_cons_self)
  have later : ∀ d ∈ rest, d.isDigit = true := fun d present => all d (spelled ▸ List.mem_cons_of_mem c present)
  have first := first?_digit digit nonzero
  unfold Double.layout
  dsimp only
  split
  · split
    · refine ⟨'0','.' :: (Double.zeros (-s.point).toNat ++ s.digits),rfl,rfl,.zero,.fraction,rfl,?_,rfl⟩
      rw [List.foldlM_cons]
      apply point_digits
      · simp [spelled]
      · intro d present
        rcases List.mem_append.mp present with zero | inside
        · exact zeros_digits zero
        · exact all d inside
    · split
      · rw [spelled]
        refine ⟨c,rest ++ (Double.zeros (s.point.toNat - (c :: rest).length) ++ ['.','0']),by simp,digit,.whole,.fraction,
          first,?_,rfl⟩
        rw [List.foldlM_append,whole_digits later,Option.bind_eq_bind,Option.bind_some,
          List.foldlM_append,whole_digits fun _ => zeros_digits]
        rfl
      · next positive few =>
        obtain ⟨n,count⟩ := Nat.exists_eq_add_one_of_ne_zero (show s.point.toNat ≠ 0 by omega)
        rw [count,spelled,List.take_succ_cons,List.drop_succ_cons]
        rw [count,spelled,List.length_cons] at few
        refine ⟨c,rest.take n ++ '.' :: rest.drop n,rfl,digit,.whole,.fraction,first,?_,rfl⟩
        rw [List.foldlM_append,whole_digits fun d present => later d (List.mem_of_mem_take present),Option.bind_eq_bind,
          Option.bind_some,List.foldlM_cons]
        apply point_digits
        · intro none
          have short := List.drop_eq_nil_iff.mp none
          omega
        · exact fun d present => later d (List.mem_of_mem_drop present)
  · rw [spelled,List.drop_succ_cons,List.drop_zero,List.take_succ_cons,List.take_zero]
    cases rest with
    | nil => exact ⟨c,_,rfl,digit,.whole,.power,first,mark_power rfl _,rfl⟩
    | cons d more =>
      refine ⟨c,'.' :: ((d :: more) ++ 'e' :: (if s.point - 1 < 0 then '-' else '+') :: decimal (s.point - 1).natAbs),
        rfl,digit,.whole,.power,first,?_,rfl⟩
      rw [List.foldlM_cons]
      have fraction := point_digits (List.cons_ne_nil d more) later
      have point : Stage.whole.next? '.' = some .point := rfl
      rw [point,Option.bind_eq_bind,Option.bind_some,List.foldlM_append,fraction,Option.bind_eq_bind,Option.bind_some]
      exact mark_power rfl _

theorem numeric_double (x : Double) : Numeric x.toLiteral := by
  have unsigned : ∃ c rest, (if x.magnitude = 0 then ['0','.','0'] else Double.layout (Double.shortest x.magnitude)) =
      c :: rest ∧ c.isDigit = true ∧ Numeric (c :: rest) := by
    split
    · exact ⟨'0',_,rfl,rfl,.zero,.fraction,rfl,rfl,rfl⟩
    · next some => exact layout_numeric (Double.shortest_leading some)
  obtain ⟨c,rest,spelled,digit,numeric⟩ := unsigned
  unfold Double.toLiteral
  dsimp only
  rw [spelled]
  split
  · exact numeric.negative digit
  · exact numeric

end Json
end DurableRules
