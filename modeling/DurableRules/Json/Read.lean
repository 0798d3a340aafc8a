import DurableRules.Double.Decimal
import DurableRules.Json.Tree
import DurableRules.Ordered.Map
import DurableRules.Timestamp.Text

namespace DurableRules.Json
open Text

-- Why a text is not read as a value. Of several faults the first in the text counts.
inductive Refusal where
  | malformed
  | timestamp (cause : Timestamp.Unreadable)
deriving DecidableEq

abbrev Reader (α : Type) := Tree → Except Refusal α

def malformed {α : Type} : Except Refusal α := .error .malformed

def orMalformed {α : Type} : Option α → Except Refusal α
  | some value => .ok value
  | none => malformed

def strict (pieces : List Piece) : Except Refusal String :=
  orMalformed ((content pieces).map String.ofList)

def readString : Reader String
  | .string pieces => strict pieces
  | _ => malformed

def readBool : Reader Bool
  | .bool truth => .ok truth
  | _ => malformed

def natural? (bound : Nat) (literal : List Char) : Option Nat :=
  if isDecimal literal ∧ numeral literal < bound then some (numeral literal) else none

def readNat (bound : Nat) : Reader Nat
  | .number literal => orMalformed (natural? bound literal)
  | _ => malformed

def signedLimit : Nat := 0x8000000000000000

def integer? : List Char → Option Int64
  | '-' :: digits =>
    if isDecimal digits ∧ 0 < numeral digits ∧ numeral digits ≤ signedLimit then
      some (Int64.ofInt (-(numeral digits : Int))) else none
  | digits => (natural? signedLimit digits).map (fun n => Int64.ofInt n)

def readInt : Reader Int64
  | .number literal => orMalformed (integer? literal)
  | _ => malformed

def readDouble : Reader Double
  | .number literal => orMalformed (Double.ofLiteral literal)
  | _ => malformed

def readTimestamp : Reader Timestamp := fun tree => do
  match Timestamp.ofText (← readString tree) with
  | .ok time => .ok time
  | .error cause => .error (.timestamp cause)

def readItems {α : Type} (item : Reader α) : List Tree → Except Refusal (List α)
  | [] => .ok []
  | tree :: rest => do
    let value ← item tree
    let later ← readItems item rest
    return value :: later

def readList {α : Type} (item : Reader α) : Reader (List α)
  | .array items => readItems item items
  | _ => malformed

def readRows {κ α : Type} (key : List Piece → Except Refusal κ) (item : Reader α) :
    List (List Piece × Tree) → Except Refusal (List (κ × α))
  | [] => .ok []
  | (pieces,tree) :: rest => do
    let name ← key pieces
    let value ← item tree
    let later ← readRows key item rest
    return (name,value) :: later

def readMap {κ α : Type} [Ord κ] [Std.TransOrd κ] [Std.LawfulEqOrd κ]
    (key : List Piece → Except Refusal κ) (item : Reader α) : Reader (Map κ α)
  | .object members => (readRows key item members).map Map.ofList
  | _ => malformed

-- A number as a key is spelled in digits, without escapes and without zeros before it.
def numberKey (bound : Nat) (pieces : List Piece) : Except Refusal Nat :=
  let digits := pieces.filterMap fun
    | .plain c => some c
    | _ => none
  if digits.length = pieces.length ∧ (digits.head? ≠ some '0' ∨ digits.length = 1) then
    orMalformed (natural? bound digits)
  else malformed

def readName {α : Type} (known : String → Option α) : Reader α
  | .string pieces => do orMalformed (known (← strict pieces))
  | .object [(pieces,value)] => do
    let name ← orMalformed (known (← strict pieces))
    match value with
    | .null => return name
    | _ => malformed
  | _ => malformed

def fillMembers {α : Type} (names : List String) (fill : α → String → Reader α) :
    List String → α → List (List Piece × Tree) → Except Refusal α
  | seen, draft, [] => if names.all seen.contains then .ok draft else malformed
  | seen, draft, (pieces,tree) :: rest => do
    let name ← strict pieces
    if names.contains name then
      if seen.contains name then malformed
      else fillMembers names fill (name :: seen) (← fill draft name tree) rest
    else if tree.whole then fillMembers names fill seen draft rest
    else malformed

def fillItems {α : Type} (fill : α → String → Reader α) :
    List String → α → List Tree → Except Refusal α
  | [], draft, [] => .ok draft
  | name :: names, draft, tree :: rest => do fillItems fill names (← fill draft name tree) rest
  | _, _, _ => malformed

-- A record by its fields: an object with each field once among other members,
-- or an array of exactly the fields in their order. The draft is overwritten
-- field by field.
def readRecord {α : Type} (names : List String) (draft : α) (fill : α → String → Reader α) : Reader α
  | .object members => fillMembers names fill [] draft members
  | .array items => fillItems fill names draft items
  | _ => malformed

def decode {α : Type} (reader : Reader α) (bytes : ByteArray) : Except Refusal α := do
  let (tree,last) := Tree.ofBytes bytes
  let value ← reader tree
  if last then return value else malformed

def string (text : String) : Tree := .string (pieces text)
def nat (n : Nat) : Tree := .number (decimal n)
def int (n : Int64) : Tree :=
  .number (if n.toInt < 0 then '-' :: decimal n.toInt.natAbs else decimal n.toInt.natAbs)
def double (x : Double) : Tree := if x.isFinite then .number x.toLiteral else .null
def record (members : List (String × Tree)) : Tree :=
  .object (members.map fun (name,value) => (pieces name,value))

end DurableRules.Json
