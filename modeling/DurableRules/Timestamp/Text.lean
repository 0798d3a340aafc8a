import DurableRules.Text.Blank
import DurableRules.Text.Digits
import DurableRules.Timestamp.Basic

namespace DurableRules.Timestamp
open Text

-- Years of four digits stand bare; any other year carries its sign.
def yearText (year : Int) : List Char :=
  if 0 ≤ year ∧ year ≤ 9999 then padded 4 year.toNat
  else (if year < 0 then '-' else '+') :: padded 4 year.natAbs

-- The fraction without zeros at its end, and no point without a fraction.
def fractionText (nanosecond : Nat) : List Char :=
  if nanosecond = 0 then [] else '.' :: ((padded 9 nanosecond).reverse.dropWhile (· == '0')).reverse

def print (t : Timestamp) : List Char :=
  let r := t.reading
  let second := if t.isLeapSecond then 60 else r.second
  yearText r.year ++ '-' :: padded 2 r.month ++ '-' :: padded 2 r.day ++
    'T' :: padded 2 r.hour ++ ':' :: padded 2 r.minute ++ ':' :: padded 2 second ++
    fractionText (r.nanosecond % 1000000000)

def takeNumber (most : Nat) (text : List Char) : Option (Nat × List Char) :=
  let digits := (text.take most).takeWhile Char.isDigit
  if digits.isEmpty then none else some (numeral digits,text.drop digits.length)

def takeField (text : List Char) : Option (Nat × List Char) := takeNumber 2 (skipBlanks text)

def takeYear (text : List Char) : Option (Int × List Char) :=
  match skipBlanks text with
  | '-' :: rest => (takeNumber rest.length rest).map fun (n,rest) => (-(n : Int),rest)
  | '+' :: rest => (takeNumber rest.length rest).map fun (n,rest) => ((n : Int),rest)
  | rest => (takeNumber 4 rest).map fun (n,rest) => ((n : Int),rest)

def takeMark (mark : Char) : List Char → Option (List Char)
  | [] => none
  | c :: rest => if c = mark then some rest else none

-- Date and clock without a fraction. Blanks may stand before every number.
-- Second 60 is the leap second after second 59.
def readBase (text : List Char) : Option Timestamp := do
  let (year,text) ← takeYear text
  let text ← takeMark '-' text
  let (month,text) ← takeField text
  let text ← takeMark '-' text
  let (day,text) ← takeField text
  let text ← takeMark 'T' text
  let (hour,text) ← takeField text
  let text ← takeMark ':' text
  let (minute,text) ← takeField text
  let text ← takeMark ':' text
  let (second,text) ← takeField text
  guard text.isEmpty
  if second = 60 then ofReading? ⟨year,month,day,hour,minute,59,1000000000⟩
  else ofReading? ⟨year,month,day,hour,minute,second,0⟩

def readFraction (digits : List Char) : Option Nat :=
  if digits.length ≤ 9 ∧ digits.all Char.isDigit then some (numeral digits * Nat.pow 10 (9 - digits.length))
  else none

def byteLength (text : List Char) : Nat := text.foldr (fun c length => c.utf8Size + length) 0

-- The base is nineteen bytes long. A fraction of no digits changes nothing and
-- any other sets the nanosecond, which ends a leap second.
def parse (text : List Char) : Option Timestamp := do
  let base := text.takeWhile (· != '.')
  guard (byteLength base = 19)
  let t ← readBase base
  match text.dropWhile (· != '.') with
  | [] | [_] => pure t
  | _ :: digits =>
    let nanosecond ← readFraction digits
    ofReading? { t.reading with nanosecond }

structure Unreadable where
  text : String
deriving DecidableEq

def Unreadable.message (e : Unreadable) : String :=
  "failed to convert string (" ++ e.text ++ ") to type (NaiveDateTime)"

def ofText (text : String) : Except Unreadable Timestamp :=
  match parse text.toList with
  | some t => .ok t
  | none => .error ⟨text⟩

def toText (t : Timestamp) : String := String.ofList t.print

end DurableRules.Timestamp
