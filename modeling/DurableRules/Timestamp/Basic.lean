namespace DurableRules

namespace Calendar

def isLeapYear (year : Int) : Bool := year % 4 == 0 && (year % 100 != 0 || year % 400 == 0)

def daysIn (year : Int) : Nat → Nat
  | 2 => if isLeapYear year then 29 else 28
  | 4 | 6 | 9 | 11 => 30
  | _ => 31

end Calendar

structure Reading where
  year : Int
  month : Nat
  day : Nat
  hour : Nat
  minute : Nat
  second : Nat
  nanosecond : Nat
deriving DecidableEq

-- A leap second is second 59 with a nanosecond of a whole second or more.
structure Reading.Real (r : Reading) : Prop where
  year : -262143 ≤ r.year ∧ r.year ≤ 262142
  month : 1 ≤ r.month ∧ r.month ≤ 12
  day : 1 ≤ r.day ∧ r.day ≤ Calendar.daysIn r.year r.month
  clock : r.hour < 24 ∧ r.minute < 60 ∧ r.second < 60
  nanosecond : r.nanosecond < 1000000000 ∨ (r.second = 59 ∧ r.nanosecond < 2000000000)

theorem Reading.real_iff (r : Reading) : r.Real ↔
    (-262143 ≤ r.year ∧ r.year ≤ 262142) ∧ (1 ≤ r.month ∧ r.month ≤ 12) ∧
    (1 ≤ r.day ∧ r.day ≤ Calendar.daysIn r.year r.month) ∧
    (r.hour < 24 ∧ r.minute < 60 ∧ r.second < 60) ∧
    (r.nanosecond < 1000000000 ∨ (r.second = 59 ∧ r.nanosecond < 2000000000)) :=
  ⟨fun h => ⟨h.year,h.month,h.day,h.clock,h.nanosecond⟩,fun ⟨y,m,d,c,n⟩ => ⟨y,m,d,c,n⟩⟩

instance (r : Reading) : Decidable r.Real := decidable_of_iff' _ (Reading.real_iff r)

structure Timestamp where
  reading : Reading
  real : reading.Real
deriving DecidableEq

namespace Timestamp

def ofReading? (r : Reading) : Option Timestamp := if real : r.Real then some ⟨r,real⟩ else none

def isLeapSecond (t : Timestamp) : Bool := 1000000000 ≤ t.reading.nanosecond

theorem ofReading?_reading (t : Timestamp) : ofReading? t.reading = some t := by
  simp [ofReading?,t.real]

end Timestamp
end DurableRules
