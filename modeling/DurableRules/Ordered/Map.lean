namespace DurableRules

variable {κ : Type u} {ν : Type v} [Ord κ]

def Ascending (rows : List (κ × ν)) : Prop := rows.Pairwise (fun a b => compare a.1 b.1 = .lt)

def putRow (key : κ) (value : ν) : List (κ × ν) → List (κ × ν)
  | [] => [(key,value)]
  | row :: rest =>
    match compare key row.1 with
    | .lt => (key,value) :: row :: rest
    | .eq => (key,value) :: rest
    | .gt => row :: putRow key value rest

def eraseRow (key : κ) (rows : List (κ × ν)) : List (κ × ν) :=
  rows.filter (fun row => compare key row.1 != .eq)

-- The order of the rows is part of the type, so maps with the same bindings
-- are the same value and a walk over a map is a walk in key order.
structure Map (κ : Type u) (ν : Type v) [Ord κ] where
  rows : List (κ × ν)
  ascending : Ascending rows

theorem putRow_member {key : κ} {value : ν} {rows : List (κ × ν)} {row : κ × ν}
    (present : row ∈ putRow key value rows) : row = (key,value) ∨ row ∈ rows := by
  induction rows with
  | nil => exact .inl (List.mem_singleton.mp present)
  | cons head rest ih =>
    unfold putRow at present
    split at present
    · exact List.mem_cons.mp present
    · exact (List.mem_cons.mp present).imp id (List.mem_cons_of_mem _)
    · rcases List.mem_cons.mp present with rfl | later
      · exact .inr List.mem_cons_self
      · exact (ih later).imp id (List.mem_cons_of_mem _)

theorem putRow_ascending [Std.TransOrd κ] [Std.LawfulEqOrd κ] (key : κ) (value : ν)
    {rows : List (κ × ν)} (order : Ascending rows) : Ascending (putRow key value rows) := by
  induction rows with
  | nil => exact List.pairwise_singleton _ _
  | cons head rest ih =>
    obtain ⟨above,tail⟩ := List.pairwise_cons.mp order
    unfold putRow
    split
    · next less =>
      refine List.pairwise_cons.mpr ⟨?_,order⟩
      intro row present
      rcases List.mem_cons.mp present with rfl | later
      · exact less
      · exact Std.TransCmp.lt_trans less (above row later)
    · next same =>
      rw [Std.LawfulEqCmp.eq_of_compare same]
      exact List.pairwise_cons.mpr ⟨above,tail⟩
    · next more =>
      refine List.pairwise_cons.mpr ⟨?_,ih tail⟩
      intro row present
      rcases putRow_member present with rfl | later
      · exact Std.OrientedCmp.gt_iff_lt.mp more
      · exact above row later

theorem eraseRow_ascending (key : κ) {rows : List (κ × ν)} (order : Ascending rows) :
    Ascending (eraseRow key rows) := order.filter _

namespace Map

@[ext] theorem ext {one two : Map κ ν} (same : one.rows = two.rows) : one = two := by
  cases one; cases two; cases same; rfl

instance [DecidableEq κ] [DecidableEq ν] : DecidableEq (Map κ ν) := fun one two =>
  if same : one.rows = two.rows then isTrue (ext same) else isFalse (fun equal => same (equal ▸ rfl))

def empty : Map κ ν := ⟨[],.nil⟩

instance : Inhabited (Map κ ν) := ⟨empty⟩

def get? (map : Map κ ν) (key : κ) : Option ν :=
  (map.rows.find? (fun row => compare key row.1 == .eq)).map Prod.snd

def contains (map : Map κ ν) (key : κ) : Bool := map.rows.any (fun row => compare key row.1 == .eq)

theorem contains_eq (map : Map κ ν) (key : κ) : map.contains key = (map.get? key).isSome := by
  rw [contains,get?,Option.isSome_map]
  exact Bool.eq_iff_iff.mpr (List.any_eq_true.trans List.find?_isSome.symm)

def keys (map : Map κ ν) : List κ := map.rows.map Prod.fst
def values (map : Map κ ν) : List ν := map.rows.map Prod.snd
def size (map : Map κ ν) : Nat := map.rows.length
def isEmpty (map : Map κ ν) : Bool := map.rows.isEmpty

def put [Std.TransOrd κ] [Std.LawfulEqOrd κ] (map : Map κ ν) (key : κ) (value : ν) : Map κ ν :=
  ⟨putRow key value map.rows,putRow_ascending key value map.ascending⟩

def erase (map : Map κ ν) (key : κ) : Map κ ν := ⟨eraseRow key map.rows,eraseRow_ascending key map.ascending⟩

def filter (map : Map κ ν) (keep : κ → ν → Bool) : Map κ ν :=
  ⟨map.rows.filter (fun row => keep row.1 row.2),map.ascending.filter _⟩

def mapValues {ω : Type w} (map : Map κ ν) (change : κ → ν → ω) : Map κ ω :=
  ⟨map.rows.map (fun row => (row.1,change row.1 row.2)),by exact List.pairwise_map.mpr map.ascending⟩

def filterMapValues {ω : Type w} (map : Map κ ν) (change : κ → ν → Option ω) : Map κ ω :=
  ⟨map.rows.filterMap (fun row => (change row.1 row.2).map (fun value => (row.1,value))),
    List.Pairwise.filterMap _ (by
      intro one two less newOne hOne newTwo hTwo
      obtain ⟨_,_,rfl⟩ := Option.map_eq_some_iff.mp hOne
      obtain ⟨_,_,rfl⟩ := Option.map_eq_some_iff.mp hTwo
      exact less) map.ascending⟩

-- Of rows with one key the last is kept.
def ofList [Std.TransOrd κ] [Std.LawfulEqOrd κ] (rows : List (κ × ν)) : Map κ ν :=
  rows.foldl (fun map row => map.put row.1 row.2) empty

def pop? (map : Map κ ν) : Option ((κ × ν) × Map κ ν) :=
  match map with
  | ⟨[],_⟩ => none
  | ⟨row :: rest,order⟩ => some (row,⟨rest,(List.pairwise_cons.mp order).2⟩)

end Map

abbrev Members (α : Type u) [Ord α] := Map α Unit

namespace Members
variable {α : Type u} [Ord α]

def insert [Std.TransOrd α] [Std.LawfulEqOrd α] (set : Members α) (item : α) : Members α := Map.put set item ()
def toList (set : Members α) : List α := Map.keys set
def ofList [Std.TransOrd α] [Std.LawfulEqOrd α] (items : List α) : Members α :=
  items.foldl insert Map.empty

end Members
end DurableRules
