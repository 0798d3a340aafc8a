import DurableRules.Ordered.Lookup
import Mathlib.Data.List.Nodup

namespace DurableRules

section Rows
variable {κ : Type u} {ν : Type v} [Ord κ]

theorem putRow_last {key : κ} {value : ν} {rows : List (κ × ν)} [Std.OrientedOrd κ]
    (above : ∀ row ∈ rows, compare row.1 key = .lt) : putRow key value rows = rows ++ [(key,value)] := by
  induction rows with
  | nil => rfl
  | cons head rest ih =>
    have more : compare key head.1 = .gt := Std.OrientedCmp.gt_iff_lt.mpr (above head List.mem_cons_self)
    rw [putRow,more,List.cons_append]
    exact congrArg _ (ih fun row present => above row (List.mem_cons_of_mem _ present))

end Rows

namespace Map
variable {κ : Type u} {ν : Type v} [Ord κ]

theorem pop?_eq_none {map : Map κ ν} : map.pop? = none ↔ map.rows = [] := by
  obtain ⟨rows,order⟩ := map
  cases rows <;> simp [pop?]

theorem pop?_rows {map rest : Map κ ν} {row : κ × ν} (popped : map.pop? = some (row,rest)) :
    map.rows = row :: rest.rows := by
  obtain ⟨rows,order⟩ := map
  cases rows with
  | nil => cases popped
  | cons head tail =>
    simp only [pop?,Option.some.injEq,Prod.mk.injEq] at popped
    obtain ⟨rfl,rfl⟩ := popped
    rfl

variable [Std.TransOrd κ] [Std.LawfulEqOrd κ]

theorem mem_values {map : Map κ ν} {value : ν} : value ∈ map.values ↔ ∃ key, map.get? key = some value := by
  rw [values,List.mem_map]
  constructor
  · intro member
    obtain ⟨row,present,rfl⟩ := member
    exact ⟨row.1,get?_eq_some_iff.mpr present⟩
  · intro held
    obtain ⟨key,found⟩ := held
    exact ⟨_,get?_eq_some_iff.mp found,rfl⟩

@[simp] theorem mem_keys {map : Map κ ν} {key : κ} : key ∈ map.keys ↔ map.contains key = true := by
  rw [contains_eq,Option.isSome_iff_exists,keys,List.mem_map]
  constructor
  · intro member
    obtain ⟨row,present,rfl⟩ := member
    exact ⟨row.2,get?_eq_some_iff.mpr present⟩
  · intro held
    obtain ⟨value,found⟩ := held
    exact ⟨_,get?_eq_some_iff.mp found,rfl⟩

@[grind =] theorem get?_put [DecidableEq κ] (map : Map κ ν) (key other : κ) (value : ν) :
    (map.put key value).get? other = if other = key then some value else map.get? other := by
  split
  · next same => rw [same,get?_put_self]
  · next apart => exact get?_put_other map value apart

@[grind =] theorem get?_erase [DecidableEq κ] (map : Map κ ν) (key other : κ) :
    (map.erase key).get? other = if other = key then none else map.get? other := by
  split
  · next same => rw [same,get?_erase_self]
  · next apart => exact get?_erase_other map apart

theorem get?_of_erase [DecidableEq κ] {map : Map κ ν} {key other : κ} {value : ν}
    (found : (map.erase key).get? other = some value) : map.get? other = some value := by grind

theorem erase_absent {map : Map κ ν} {key : κ} (absent : map.get? key = none) : map.erase key = map := by
  refine ext_get? fun other => ?_
  by_cases same : other = key <;> simp [same,absent]

theorem get?_filter (map : Map κ ν) (keep : κ → ν → Bool) (key : κ) :
    (map.filter keep).get? key = (map.get? key).filter (keep key) := by
  refine Option.ext fun value => ?_
  rw [get?_eq_some_iff,Option.filter_eq_some_iff,get?_eq_some_iff]
  exact List.mem_filter

theorem erase_put [DecidableEq κ] {map : Map κ ν} {key : κ} (absent : map.get? key = none) (value : ν) :
    (map.put key value).erase key = map := by
  refine ext_get? fun other => ?_
  rw [get?_erase,get?_put]
  split
  · next same => rw [same,absent]
  · rfl

theorem filter_put [DecidableEq κ] {map : Map κ ν} {keep : κ → ν → Bool} {key : κ} {value : ν}
    (absent : map.get? key = none) (dropped : keep key value = false) :
    (map.put key value).filter keep = map.filter keep := by
  refine ext_get? fun other => ?_
  rw [get?_filter,get?_filter,get?_put]
  split
  · next same => rw [same,absent,Option.filter_some,dropped]; rfl
  · rfl

theorem filter_whole {map : Map κ ν} {keep : κ → ν → Bool}
    (kept : ∀ key value, map.get? key = some value → keep key value = true) : map.filter keep = map := by
  refine ext (List.filter_eq_self.mpr fun row present => ?_)
  exact kept row.1 row.2 (get?_eq_some_iff.mpr present)

@[simp] theorem get?_mapValues {ω : Type w} (map : Map κ ν) (change : κ → ν → ω) (key : κ) :
    (map.mapValues change).get? key = (map.get? key).map (change key) := by
  refine Option.ext fun value => ?_
  rw [get?_eq_some_iff,Option.map_eq_some_iff]
  constructor
  · intro present
    obtain ⟨row,member,same⟩ := List.mem_map.mp present
    cases same
    exact ⟨row.2,get?_eq_some_iff.mpr member,rfl⟩
  · intro held
    obtain ⟨old,found,rfl⟩ := held
    exact List.mem_map.mpr ⟨_,get?_eq_some_iff.mp found,rfl⟩

theorem get?_filterMapValues {ω : Type w} (map : Map κ ν) (change : κ → ν → Option ω) (key : κ) :
    (map.filterMapValues change).get? key = (map.get? key).bind (change key) := by
  refine Option.ext fun value => ?_
  rw [get?_eq_some_iff,Option.bind_eq_some_iff]
  constructor
  · intro present
    obtain ⟨row,member,same⟩ := List.mem_filterMap.mp present
    obtain ⟨changed,found,equal⟩ := Option.map_eq_some_iff.mp same
    cases equal
    exact ⟨row.2,get?_eq_some_iff.mpr member,found⟩
  · intro held
    obtain ⟨old,found,changed⟩ := held
    refine List.mem_filterMap.mpr ⟨_,get?_eq_some_iff.mp found,?_⟩
    rw [changed,Option.map_some]

theorem values_put_last {map : Map κ ν} {key : κ} {value : ν}
    (above : ∀ row ∈ map.rows, compare row.1 key = .lt) : (map.put key value).values = map.values ++ [value] := by
  change (putRow key value map.rows).map Prod.snd = _
  rw [putRow_last above,List.map_append]
  rfl

theorem keys_put_last {map : Map κ ν} {key : κ} {value : ν}
    (above : ∀ row ∈ map.rows, compare row.1 key = .lt) : (map.put key value).keys = map.keys ++ [key] := by
  change (putRow key value map.rows).map Prod.fst = _
  rw [putRow_last above,List.map_append]
  rfl

theorem foldl_put_rows {map : Map κ ν} {rows : List (κ × ν)} (order : Ascending (map.rows ++ rows)) :
    (rows.foldl (fun map row => map.put row.1 row.2) map).rows = map.rows ++ rows := by
  induction rows generalizing map with
  | nil => exact (List.append_nil _).symm
  | cons head rest ih =>
    have above : ∀ row ∈ map.rows, compare row.1 head.1 = .lt := fun row present =>
      (List.pairwise_append.mp order).2.2 row present head List.mem_cons_self
    have next : (map.put head.1 head.2).rows = map.rows ++ [head] := putRow_last above
    have whole : map.rows ++ head :: rest = (map.put head.1 head.2).rows ++ rest := by
      rw [next,List.append_assoc,List.singleton_append]
    rw [List.foldl_cons,whole]
    exact ih (whole ▸ order)

theorem ofList_rows (map : Map κ ν) : ofList map.rows = map := ext (foldl_put_rows map.ascending)

end Map

namespace Members
variable {α : Type u} [Ord α] [Std.TransOrd α] [Std.LawfulEqOrd α]

theorem ofList_toList (set : Members α) : ofList set.toList = set := by
  have units : set.rows = set.toList.map fun item => (item,()) := by
    rw [toList,Map.keys,List.map_map]
    exact (List.map_id _).symm
  have folds : ofList set.toList = Map.ofList set.rows := by
    rw [units,Map.ofList,List.foldl_map]
    rfl
  rw [folds,Map.ofList_rows]

theorem foldl_insert_mem {items : List α} {set : Members α} {item : α} :
    item ∈ (items.foldl insert set).toList ↔ item ∈ items ∨ item ∈ set.toList := by
  induction items generalizing set with
  | nil => simp
  | cons head rest ih => rw [List.foldl_cons,ih,mem_insert,List.mem_cons]; tauto

theorem mem_ofList {items : List α} {item : α} : item ∈ (ofList items).toList ↔ item ∈ items := by
  rw [ofList,foldl_insert_mem]
  exact or_iff_left (by intro present; cases present)

theorem mem_erase [DecidableEq α] {set : Members α} {item other : α} :
    other ∈ Members.toList (Map.erase set item) ↔ other ≠ item ∧ other ∈ set.toList := by
  rw [← contains_iff_mem,← contains_iff_mem,Map.contains_eq,Map.contains_eq,Map.get?_erase]
  by_cases same : other = item <;> simp [same]

@[simp] theorem mem_filter {set : Members α} {keep : α → Bool} {item : α} :
    item ∈ Members.toList (Map.filter set fun item _ => keep item) ↔ item ∈ set.toList ∧ keep item = true := by
  rw [← contains_iff_mem,← contains_iff_mem,Map.contains_eq,Map.contains_eq,Map.get?_filter]
  cases set.get? item <;> simp

end Members
end DurableRules
