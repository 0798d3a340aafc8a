namespace DurableRules

-- A binary64 number as a sign and the lower 63 bits. Magnitudes are ordered as
-- the numbers they stand for; the infinity stands above all finite ones and
-- every larger magnitude is a NaN.
structure Double where
  negative : Bool
  magnitude : Nat
  narrow : magnitude < 0x8000000000000000
deriving DecidableEq

namespace Double

def infinite : Nat := 0x7FF0000000000000

def isFinite (x : Double) : Bool := x.magnitude < infinite

def zero : Double := ⟨false,0,by decide⟩
def infinity (negative : Bool) : Double := ⟨negative,infinite,by decide⟩
def nan : Double := ⟨false,0x7FF8000000000000,by decide⟩

-- Numeric equality: the two zeros are equal and a NaN differs from itself.
def same (x y : Double) : Bool :=
  x.magnitude ≤ infinite && x.magnitude == y.magnitude && (x.negative == y.negative || x.magnitude == 0)

def scaleUnit : Nat := 0x10000000000000

def significand (magnitude : Nat) : Nat :=
  if magnitude < scaleUnit then magnitude else magnitude % scaleUnit + scaleUnit
def exponent (magnitude : Nat) : Int := ((magnitude / scaleUnit - 1 : Nat) : Int) - 1074

def ratio (magnitude : Nat) : Nat × Nat :=
  let q := exponent magnitude
  (significand magnitude <<< q.toNat,1 <<< (-q).toNat)

def roundDiv (num den : Nat) : Nat :=
  let whole := num / den
  let twice := 2 * (num % den)
  if den < twice || (twice == den && whole % 2 == 1) then whole + 1 else whole

def binaryExponent (num den : Nat) : Int :=
  let guess : Int := (num.log2 : Int) - (den.log2 : Int)
  if den <<< guess.toNat ≤ num <<< (-guess).toNat then guess else guess - 1

-- A carry out of the significand moves into the exponent by itself.
def nearest (num den : Nat) : Nat :=
  if num = 0 then 0 else
    let q := max (binaryExponent num den - 52) (-1074)
    let m := roundDiv (num <<< (-q).toNat) (den <<< q.toNat)
    min infinite (m + (q + 1074).toNat * scaleUnit)

def product (one two : Nat) : Nat :=
  nearest ((ratio one).1 * (ratio two).1) ((ratio one).2 * (ratio two).2)
def quotient (one two : Nat) : Nat :=
  nearest ((ratio one).1 * (ratio two).2) ((ratio one).2 * (ratio two).1)

end Double
end DurableRules
