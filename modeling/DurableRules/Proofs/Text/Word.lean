import DurableRules.Proofs.Text.Digits
import Mathlib.Data.Option.Basic

-- Arithmetic in words of 32 bits. What does not fit into a word has no result.
namespace DurableRules.Word
open Text

def fit (n : Nat) : Option UInt32 := if n < UInt32.size then some (UInt32.ofNat n) else none

def sub (a b : UInt32) : Option UInt32 := if b ≤ a then some (a - b) else none
def add (a b : UInt32) : Option UInt32 := fit (a.toNat + b.toNat)
def mul (a b : UInt32) : Option UInt32 := fit (a.toNat * b.toNat)
def pow (a b : UInt32) : Option UInt32 := fit (a.toNat ^ b.toNat)

def accumulate : UInt32 → List Char → Option UInt32
  | n, [] => some n
  | n, c :: rest => do
    guard c.isDigit
    let shifted ← mul n 10
    let next ← add shifted (UInt32.ofNat (c.toNat - 48))
    accumulate next rest

-- A plus sign may stand before the digits.
def read : List Char → Option UInt32
  | [] => none
  | '+' :: c :: rest => accumulate 0 (c :: rest)
  | text => accumulate 0 text

section Values
variable {a b : UInt32} {n : Nat} {digits : List Char}

theorem fit_of_lt (small : n < UInt32.size) : ∃ w, fit n = some w ∧ w.toNat = n :=
  ⟨UInt32.ofNat n,if_pos small,UInt32.toNat_ofNat_of_lt' small⟩

theorem mul_of_lt (small : a.toNat * b.toNat < UInt32.size) : ∃ w, mul a b = some w ∧ w.toNat = a.toNat * b.toNat :=
  fit_of_lt small

theorem pow_of_lt (small : a.toNat ^ b.toNat < UInt32.size) : ∃ w, pow a b = some w ∧ w.toNat = a.toNat ^ b.toNat :=
  fit_of_lt small

theorem sub_of_le (less : b ≤ a) : ∃ w, sub a b = some w ∧ w.toNat = a.toNat - b.toNat :=
  ⟨a - b,if_pos less,UInt32.toNat_sub_of_le a b less⟩

theorem accumulate_cons {c : Char} (digit : c.isDigit = true) (small : a.toNat * 10 + (c.toNat - 48) < UInt32.size) :
    ∃ next : UInt32, next.toNat = a.toNat * 10 + (c.toNat - 48) ∧
      ∀ rest, accumulate a (c :: rest) = accumulate next rest := by
  have range := digit_range digit
  have value : (UInt32.ofNat (c.toNat - 48)).toNat = c.toNat - 48 :=
    UInt32.toNat_ofNat_of_lt' (Nat.lt_trans (by omega : c.toNat - 48 < 10) (by decide))
  obtain ⟨shifted,multiplied,tenfold⟩ := mul_of_lt (b := 10) (Nat.lt_of_le_of_lt (Nat.le_add_right _ _) small)
  obtain ⟨next,added,sum⟩ := fit_of_lt small
  have taken : add shifted (UInt32.ofNat (c.toNat - 48)) = some next := by
    rw [add,tenfold,value]
    exact added
  have checked : (guard (c.isDigit = true) : Option Unit) = some () := if_pos digit
  refine ⟨next,sum,fun rest => ?_⟩
  rw [accumulate,checked,multiplied]
  change (add shifted (UInt32.ofNat (c.toNat - 48)) >>= fun next => accumulate next rest) = accumulate next rest
  rw [taken]
  rfl

-- If the whole number fits, so does what has been read of it at any time.
theorem accumulate_of_lt (all : ∀ c ∈ digits, c.isDigit = true)
    (small : a.toNat * 10 ^ digits.length + numeral digits < UInt32.size) :
    ∃ w, accumulate a digits = some w ∧ w.toNat = a.toNat * 10 ^ digits.length + numeral digits := by
  induction digits generalizing a with
  | nil => exact ⟨a,rfl,by simp [numeral]⟩
  | cons c rest ih =>
    obtain ⟨digit,later⟩ := List.forall_mem_cons.mp all
    have whole : a.toNat * 10 ^ (c :: rest).length + numeral (c :: rest) =
        (a.toNat * 10 + (c.toNat - 48)) * 10 ^ rest.length + numeral rest := by
      rw [numeral_cons,List.length_cons,Nat.pow_succ,Nat.add_mul,Nat.mul_assoc,Nat.mul_comm 10,Nat.add_assoc,
        Nat.mul_comm (c.toNat - 48)]
    have grows : a.toNat * 10 + (c.toNat - 48) ≤ (a.toNat * 10 + (c.toNat - 48)) * 10 ^ rest.length :=
      Nat.le_mul_of_pos_right _ (Nat.pow_pos (by decide))
    obtain ⟨next,sum,taken⟩ := accumulate_cons (a := a) digit (by omega)
    obtain ⟨w,rested,result⟩ := ih later (sum ▸ whole ▸ small)
    exact ⟨w,(taken rest).trans rested,by rw [result,sum,whole]⟩

theorem read_of_lt (some : digits ≠ []) (all : ∀ c ∈ digits, c.isDigit = true) (small : numeral digits < UInt32.size) :
    ∃ w, read digits = .some w ∧ w.toNat = numeral digits := by
  obtain ⟨c,rest,rfl⟩ := List.exists_cons_of_ne_nil some
  have plain : read (c :: rest) = accumulate 0 (c :: rest) := by
    unfold read
    split
    · next same => cases same
    · next same =>
      obtain ⟨rfl,_⟩ := List.cons.inj same
      cases all '+' List.mem_cons_self
    · rfl
  obtain ⟨w,accumulated,value⟩ := accumulate_of_lt (a := 0) all (by simpa using small)
  exact ⟨w,plain.trans accumulated,by simpa using value⟩

end Values
end DurableRules.Word
