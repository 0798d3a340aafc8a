import DurableRules.Double.Basic
import DurableRules.Ordered.Map
import DurableRules.Timestamp.Basic

namespace DurableRules

inductive Value where
  | text (content : String)
  | int (number : Int64)
  | float (number : Double)
  | bool (truth : Bool)
  | timestamp (time : Timestamp)
deriving DecidableEq

-- Equality as rules see it: numbers of different types never mix, and floats
-- compare as numbers, so a NaN equals nothing and the two zeros are equal.
def Value.same : Value → Value → Bool
  | .float x, .float y => x.same y
  | one, two => one == two

structure Fact where
  kind : String
  fields : Map String Value
deriving DecidableEq

namespace Fact

def ofText (content : String) : Fact := ⟨"String",Map.empty.put "value" (.text content)⟩

def set (fact : Fact) (name : String) (value : Value) : Fact :=
  { fact with fields := fact.fields.put name value }

def get? (fact : Fact) (name : String) : Option Value := fact.fields.get? name

def text? (fact : Fact) (name : String) : Option String :=
  match fact.get? name with
  | some (.text content) => some content
  | _ => none

def int? (fact : Fact) (name : String) : Option Int64 :=
  match fact.get? name with
  | some (.int number) => some number
  | _ => none

def sameFields : List (String × Value) → List (String × Value) → Bool
  | [], [] => true
  | one :: rest, two :: more => one.1 == two.1 && one.2.same two.2 && sameFields rest more
  | _, _ => false

def same (one two : Fact) : Bool := one.kind == two.kind && sameFields one.fields.rows two.fields.rows

end Fact

abbrev Handle := Nat
abbrev Version := Nat
abbrev Globals := Map String (List Value)

structure StoredFact where
  version : Version
  fact : Fact
deriving DecidableEq

end DurableRules
