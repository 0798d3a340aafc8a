import DurableRules.SessionId

namespace DurableRules

inductive Tag where
  | header
  | facts
  | markers
  | globals
  | network
deriving DecidableEq

namespace Tag

def all : List Tag := [header,facts,markers,globals,network]

def name : Tag → String
  | header => "header"
  | facts => "facts"
  | markers => "markers"
  | globals => "globals"
  | network => "network"

def rank : Tag → Nat
  | header => 0
  | facts => 1
  | markers => 2
  | globals => 3
  | network => 4

theorem rank_injective {one two : Tag} (same : one.rank = two.rank) : one = two := by
  cases one <;> cases two <;> first | rfl | cases same

end Tag

inductive StoreError where
  | io
  | database
  | unavailable (reason : String)
  | unknownTag (text : String)
deriving DecidableEq

def StoreError.message : StoreError → String
  | io => "io error"
  | database => "sqlite error"
  | unavailable reason => "store unavailable: " ++ reason
  | unknownTag text => "unknown component tag: " ++ text

def Tag.ofText (text : String) : Except StoreError Tag :=
  match Tag.all.find? (·.name == text) with
  | some tag => .ok tag
  | none => .error (.unknownTag text)

structure Key where
  id : SessionId
  tag : Tag
deriving DecidableEq

namespace Key

instance : Ord Key := ⟨compareLex (compareOn id) (compareOn (·.tag.rank))⟩
instance : Std.TransOrd Key := inferInstanceAs (Std.TransCmp (compareLex _ _))
instance : Std.LawfulEqOrd Key where
  compare_self := Std.ReflCmp.compare_self
  eq_of_compare {one two} equal := by
    have parts := Ordering.then_eq_eq.mp equal
    have ids : compare one.id two.id = .eq := parts.1
    have ranks := Tag.rank_injective (Nat.compare_eq_eq.mp parts.2)
    cases one; cases two
    cases Std.LawfulEqCmp.eq_of_compare ids; cases ranks; rfl

end Key

-- What a call does to a store, also when it fails.
abbrev Call (σ : Type) := ExceptT StoreError (StateM σ)

-- Bytes under a session and a tag. A deletion of nothing is no error, and the
-- sessions are those with a header.
class Store (σ : Type) where
  put : SessionId → Tag → ByteArray → Call σ Unit
  get : SessionId → Tag → Call σ (Option ByteArray)
  delete : SessionId → Tag → Call σ Unit
  sessions : Call σ (List SessionId)

def Call.within {σ τ α : Type} (put : τ → σ) (part : τ) (call : Call τ α) : Call σ α := fun _ =>
  let (answer,next) := call part
  (answer,put next)

end DurableRules
