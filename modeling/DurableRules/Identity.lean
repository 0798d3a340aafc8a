import DurableRules.Fact
import DurableRules.Text.Digits

namespace DurableRules

def wordLimit : Nat := 0x10000000000000000

-- A fact at one point of its life. An update keeps the handle and moves the version.
structure Identity where
  handle : Handle
  version : Version
deriving DecidableEq

namespace Identity

instance : Ord Identity := ⟨compareLex (compareOn handle) (compareOn version)⟩
instance : Std.TransOrd Identity := inferInstanceAs (Std.TransCmp (compareLex _ _))
instance : Std.LawfulEqOrd Identity where
  compare_self := Std.ReflCmp.compare_self
  eq_of_compare {one two} equal := by
    have parts := Ordering.then_eq_eq.mp equal
    cases one; cases two
    cases Nat.compare_eq_eq.mp parts.1; cases Nat.compare_eq_eq.mp parts.2; rfl

end Identity

structure Activation where
  rule : String
  tuple : List Identity
deriving DecidableEq

namespace Activation

instance : Ord Activation := ⟨compareLex (compareOn rule) (compareOn tuple)⟩
instance : Std.TransOrd Activation := inferInstanceAs (Std.TransCmp (compareLex _ _))
instance : Std.LawfulEqOrd Activation where
  compare_self := Std.ReflCmp.compare_self
  eq_of_compare {one two} equal := by
    have parts := Ordering.then_eq_eq.mp equal
    have rules : compare one.rule two.rule = .eq := parts.1
    have tuples : compare one.tuple two.tuple = .eq := parts.2
    cases one; cases two
    cases Std.LawfulEqCmp.eq_of_compare rules; cases Std.LawfulEqCmp.eq_of_compare tuples; rfl

def involves (activation : Activation) (handle : Handle) : Bool :=
  activation.tuple.any (·.handle == handle)

end Activation

def showNat (n : Nat) : String := String.ofList (Text.decimal n)
def showHandle (handle : Handle) : String := "#" ++ showNat handle
def Identity.toText (i : Identity) : String := showHandle i.handle ++ "v" ++ showNat i.version
def Activation.toText (a : Activation) : String :=
  a.rule ++ "(" ++ ", ".intercalate (a.tuple.map Identity.toText) ++ ")"

end DurableRules
