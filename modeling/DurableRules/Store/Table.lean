import DurableRules.Ordered.Map
import DurableRules.Store.Basic

namespace DurableRules

-- The primary key of a row: a session by its text and a tag by its name. Rows
-- of other origin may hold any text.
structure RowKey where
  session : String
  tag : String
deriving DecidableEq

namespace RowKey

instance : Ord RowKey := ⟨compareLex (compareOn session) (compareOn tag)⟩
instance : Std.TransOrd RowKey := inferInstanceAs (Std.TransCmp (compareLex _ _))
instance : Std.LawfulEqOrd RowKey where
  compare_self := Std.ReflCmp.compare_self
  eq_of_compare {one two} equal := by
    have parts := Ordering.then_eq_eq.mp equal
    have sessions : compare one.session two.session = .eq := parts.1
    have tags : compare one.tag two.tag = .eq := parts.2
    cases one; cases two
    cases Std.LawfulEqCmp.eq_of_compare sessions; cases Std.LawfulEqCmp.eq_of_compare tags; rfl

def of (id : SessionId) (tag : Tag) : RowKey := ⟨id.toText,tag.name⟩

end RowKey

structure Table where
  rows : Map RowKey ByteArray

namespace Table

def empty : Table := ⟨Map.empty⟩

def act {α : Type} (step : Map RowKey ByteArray → α × Map RowKey ByteArray) : Call Table α := fun table =>
  let (answer,rows) := step table.rows
  (.ok answer,⟨rows⟩)

def headers (rows : Map RowKey ByteArray) : List SessionId :=
  (rows.keys.filter (·.tag == Tag.header.name)).filterMap (fun key => SessionId.ofText? key.session)

instance : Store Table where
  put id tag bytes := act fun rows => ((),rows.put (.of id tag) bytes)
  get id tag := act fun rows => (rows.get? (.of id tag),rows)
  delete id tag := act fun rows => ((),rows.erase (.of id tag))
  sessions := act fun rows => (headers rows,rows)

end Table
end DurableRules
