import DurableRules.Double.Basic
import DurableRules.Text.Digits

namespace DurableRules.Double
open Text

structure Spelling where
  negative : Bool
  whole : List Char
  fraction : List Char
  power : Int
deriving DecidableEq

def readPower : List Char → Int
  | '-' :: digits => -(numeral digits : Int)
  | '+' :: digits => numeral digits
  | digits => numeral digits

def spellingOf (literal : List Char) : Spelling :=
  let negative := literal.head? == some '-'
  let unsigned := if negative then literal.drop 1 else literal
  let whole := unsigned.takeWhile Char.isDigit
  let rest := unsigned.dropWhile Char.isDigit
  let fraction := match rest with
    | '.' :: more => more.takeWhile Char.isDigit
    | _ => []
  let tail := match rest with
    | '.' :: more => more.dropWhile Char.isDigit
    | _ => rest
  ⟨negative,whole,fraction,readPower (tail.drop 1)⟩

-- Digits join a significand as long as it stays a 64-bit word.
def absorb (significand : Nat) : List Char → Nat × Nat
  | [] => (significand,0)
  | c :: rest =>
    let next := significand * 10 + (c.toNat - '0'.toNat)
    if next < 0x10000000000000000 then
      let (total,joined) := absorb next rest
      (total,joined + 1)
    else (significand,0)

def powerOfTen (n : Nat) : Nat := nearest (Nat.pow 10 n) 1

-- In steps within the range of the doubles, which end early at zero.
def scaleDown : Nat → Nat → Nat → Nat
  | 0, magnitude, _ => magnitude
  | steps + 1, magnitude, n =>
    if n ≤ 308 then quotient magnitude (powerOfTen n)
    else if magnitude = 0 then 0
    else scaleDown steps (quotient magnitude (powerOfTen 308)) (n - 308)

-- significand · 10^power, rounded once for the significand, once for the power
-- of ten and once for their product or quotient. Nothing when out of range.
def scale (significand : Nat) (power : Int) : Option Nat :=
  let magnitude := nearest significand 1
  if power < 0 then some (scaleDown (-power).toNat magnitude (-power).toNat)
  else if power ≤ 308 then
    let total := product magnitude (powerOfTen power.toNat)
    if total < infinite then some total else none
  else if magnitude = 0 then some 0 else none

def ofSpelling (s : Spelling) : Option Double :=
  let (head,joined) := absorb 0 s.whole
  let (total,places) := absorb head s.fraction
  let power : Int := ((s.whole.length - joined : Nat) : Int) - places + s.power
  (scale total power).bind fun magnitude =>
    if narrow : magnitude < 0x8000000000000000 then some ⟨s.negative,magnitude,narrow⟩ else none

def ofLiteral (literal : List Char) : Option Double := ofSpelling (spellingOf literal)

structure Shortest where
  digits : List Char
  point : Int
deriving DecidableEq

-- The place of the first digit: 10^(place-1) ≤ num / den < 10^place.
def decimalPlace (num den : Nat) : Int :=
  if den ≤ num then (decimal (num / den)).length else 1 - (decimal (den / num)).length

def tenths (n : Nat) (place : Int) : Nat × Nat := (n * Nat.pow 10 place.toNat,Nat.pow 10 (-place).toNat)

def hits (magnitude n : Nat) (place : Int) : Bool :=
  let (num,den) := tenths n place
  nearest num den == magnitude

-- The two neighbours of the value on the grid of multiples of 10^place: the
-- one that hits, of two the nearer, at equal distance the even one.
def onGrid (magnitude : Nat) (place : Int) : Option Nat :=
  let (num,den) := ratio magnitude
  let top := num * Nat.pow 10 (-place).toNat
  let bottom := den * Nat.pow 10 place.toNat
  let below := top / bottom
  let nearer := roundDiv top bottom
  if hits magnitude nearer place then some nearer
  else if hits magnitude below place then some below
  else if hits magnitude (below + 1) place then some (below + 1)
  else none

def stripped (n : Nat) (place : Int) : Shortest :=
  let digits := decimal n
  let kept := (digits.reverse.dropWhile (· == '0')).reverse
  ⟨kept,place + digits.length⟩

-- Seventeen digits always tell a double from its neighbours.
def shortestFrom (magnitude : Nat) (first : Int) : Nat → Nat → Shortest
  | 0, width => stripped (roundDiv ((ratio magnitude).1 * Nat.pow 10 ((width : Int) - first).toNat)
      ((ratio magnitude).2 * Nat.pow 10 (first - width).toNat)) (first - width)
  | more + 1, width =>
    match onGrid magnitude (first - width) with
    | some n => stripped n (first - width)
    | none => shortestFrom magnitude first more (width + 1)

def shortest (magnitude : Nat) : Shortest :=
  let (num,den) := ratio magnitude
  shortestFrom magnitude (decimalPlace num den) 16 1

def zeros (n : Nat) : List Char := List.replicate n '0'

-- Positional between 10^-5 and 10^16 with at least one place after the point,
-- otherwise one digit before the point and a signed exponent.
def layout (s : Shortest) : List Char :=
  let count := s.digits.length
  if -4 ≤ s.point ∧ s.point ≤ 16 then
    if s.point ≤ 0 then '0' :: '.' :: zeros (-s.point).toNat ++ s.digits
    else if count ≤ s.point.toNat then s.digits ++ zeros (s.point.toNat - count) ++ ['.','0']
    else s.digits.take s.point.toNat ++ '.' :: s.digits.drop s.point.toNat
  else
    let fraction := match s.digits.drop 1 with
      | [] => []
      | rest => '.' :: rest
    let e := s.point - 1
    s.digits.take 1 ++ fraction ++ 'e' :: (if e < 0 then '-' else '+') :: decimal e.natAbs

def toLiteral (x : Double) : List Char :=
  let unsigned := if x.magnitude = 0 then ['0','.','0'] else layout (shortest x.magnitude)
  if x.negative then '-' :: unsigned else unsigned

def ReadsBack (x : Double) : Prop := x.isFinite = true ∧ ofLiteral x.toLiteral = some x

instance (x : Double) : Decidable x.ReadsBack := inferInstanceAs (Decidable (_ ∧ _))

end DurableRules.Double
