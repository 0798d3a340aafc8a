import DurableRules.Ordered.Map

namespace DurableRules

section Rows
variable {κ : Type u} {ν : Type v} [Ord κ]

theorem key_of_find {key : κ} {rows : List (κ × ν)} {row : κ × ν} [Std.LawfulEqOrd κ]
    (found : rows.find? (fun row => compare key row.1 == .eq) = some row) : key = row.1 := by
  have same := List.find?_some found
  exact Std.LawfulEqCmp.eq_of_compare (eq_of_beq same)

theorem mem_putRow_self (key : κ) (value : ν) (rows : List (κ × ν)) : (key,value) ∈ putRow key value rows := by
  induction rows with
  | nil => exact List.mem_singleton_self _
  | cons head rest ih =>
    unfold putRow
    split
    · exact List.mem_cons_self
    · exact List.mem_cons_self
    · exact List.mem_cons_of_mem _ ih

theorem mem_putRow_other [Std.LawfulEqOrd κ] {key : κ} {value : ν} {rows : List (κ × ν)} {row : κ × ν}
    (other : row.1 ≠ key) : row ∈ putRow key value rows ↔ row ∈ rows := by
  have differs : row ≠ (key,value) := fun same => other (same ▸ rfl)
  induction rows with
  | nil => simp [putRow,differs]
  | cons head rest ih =>
    unfold putRow
    split
    · simp [differs]
    · next same =>
      have apart : row ≠ head := fun equal => other (equal ▸ (Std.LawfulEqCmp.eq_of_compare same).symm)
      simp [differs,apart]
    · simp [ih]

variable [Std.TransOrd κ]

theorem ascending_irreflexive {rows : List (κ × ν)} {head : κ × ν}
    (above : ∀ row ∈ rows, compare head.1 row.1 = .lt) : ∀ row ∈ rows, row.1 ≠ head.1 := by
  intro row present equal
  have less := above row present
  have level : compare head.1 head.1 = .eq := Std.ReflCmp.compare_self
  rw [equal,level] at less
  cases less

theorem row_unique {rows : List (κ × ν)} (order : Ascending rows) {one two : κ × ν}
    (first : one ∈ rows) (second : two ∈ rows) (same : one.1 = two.1) : one = two := by
  induction rows with
  | nil => cases first
  | cons head rest ih =>
    obtain ⟨above,tail⟩ := List.pairwise_cons.mp order
    have apart := ascending_irreflexive above
    rcases List.mem_cons.mp first with rfl | one_later <;> rcases List.mem_cons.mp second with rfl | two_later
    · rfl
    · exact absurd same.symm (apart _ two_later)
    · exact absurd same (apart _ one_later)
    · exact ih tail one_later two_later

theorem ascending_ext {one two : List (κ × ν)} (first : Ascending one) (second : Ascending two)
    (members : ∀ row, row ∈ one ↔ row ∈ two) : one = two := by
  induction one generalizing two with
  | nil => exact (List.eq_nil_iff_forall_not_mem.mpr fun row present => by cases (members row).mpr present).symm
  | cons a rest ih =>
    cases two with
    | nil => cases (members a).mp List.mem_cons_self
    | cons b more =>
      obtain ⟨above,tail⟩ := List.pairwise_cons.mp first
      obtain ⟨beyond,later⟩ := List.pairwise_cons.mp second
      have heads : a = b := by
        rcases List.mem_cons.mp ((members a).mp List.mem_cons_self) with equal | inMore
        · exact equal
        · rcases List.mem_cons.mp ((members b).mpr List.mem_cons_self) with equal | inRest
          · exact equal.symm
          · have less := above b inRest
            rw [Std.OrientedCmp.gt_iff_lt.mpr (beyond a inMore)] at less
            cases less
      subst heads
      have aside : ∀ row ∈ rest, row ≠ a := fun row present equal =>
        ascending_irreflexive above row present (equal ▸ rfl)
      have asideToo : ∀ row ∈ more, row ≠ a := fun row present equal =>
        ascending_irreflexive beyond row present (equal ▸ rfl)
      refine congrArg _ (ih tail later fun row => ⟨fun present => ?_,fun present => ?_⟩)
      · exact (List.mem_cons.mp ((members row).mp (List.mem_cons_of_mem _ present))).resolve_left (aside row present)
      · exact (List.mem_cons.mp ((members row).mpr (List.mem_cons_of_mem _ present))).resolve_left
          (asideToo row present)

end Rows

namespace Map
variable {κ : Type u} {ν : Type v} [Ord κ] [Std.TransOrd κ] [Std.LawfulEqOrd κ]

theorem get?_eq_some_iff {map : Map κ ν} {key : κ} {value : ν} :
    map.get? key = some value ↔ (key,value) ∈ map.rows := by
  rw [get?,Option.map_eq_some_iff]
  constructor
  · intro held
    obtain ⟨row,found,rfl⟩ := held
    rw [key_of_find found]
    exact List.mem_of_find?_eq_some found
  · intro present
    cases found : map.rows.find? (fun row => compare key row.1 == .eq) with
    | none =>
      have differs := List.find?_eq_none.mp found (key,value) present
      simp [Std.ReflCmp.compare_self] at differs
    | some row =>
      have same := row_unique map.ascending (List.mem_of_find?_eq_some found) present (key_of_find found).symm
      exact ⟨row,rfl,by rw [same]⟩

theorem get?_eq_none_iff {map : Map κ ν} {key : κ} : map.get? key = none ↔ ∀ value, (key,value) ∉ map.rows := by
  rw [Option.eq_none_iff_forall_ne_some]
  exact forall_congr' fun value => not_congr get?_eq_some_iff

@[simp] theorem get?_put_self (map : Map κ ν) (key : κ) (value : ν) : (map.put key value).get? key = some value :=
  get?_eq_some_iff.mpr (mem_putRow_self key value map.rows)

@[simp] theorem get?_put_other (map : Map κ ν) (value : ν) {key other : κ} (apart : other ≠ key) :
    (map.put key value).get? other = map.get? other :=
  Option.ext fun _ => get?_eq_some_iff.trans ((mem_putRow_other apart).trans get?_eq_some_iff.symm)

@[simp] theorem get?_erase_self (map : Map κ ν) (key : κ) : (map.erase key).get? key = none := by
  rw [get?_eq_none_iff]
  intro value present
  have kept := (List.mem_filter.mp present).2
  simp [Std.ReflCmp.compare_self] at kept

@[simp] theorem get?_erase_other (map : Map κ ν) {key other : κ} (apart : other ≠ key) :
    (map.erase key).get? other = map.get? other := by
  refine Option.ext fun value => get?_eq_some_iff.trans (Iff.trans ?_ get?_eq_some_iff.symm)
  have differs : compare key other ≠ .eq := fun same => apart (Std.LawfulEqCmp.eq_of_compare same).symm
  exact List.mem_filter.trans (and_iff_left (by simpa using differs))

theorem ext_get? {one two : Map κ ν} (same : ∀ key, one.get? key = two.get? key) : one = two :=
  ext (ascending_ext one.ascending two.ascending fun row => by
    rw [← Prod.eta row,← get?_eq_some_iff,← get?_eq_some_iff,same])

end Map

namespace Members
variable {α : Type u} [Ord α] [Std.TransOrd α] [Std.LawfulEqOrd α]

theorem contains_iff_mem {set : Members α} {item : α} : set.contains item = true ↔ item ∈ set.toList := by
  rw [Map.contains_eq,Option.isSome_iff_exists,toList,Map.keys,List.mem_map]
  constructor
  · intro held
    obtain ⟨value,found⟩ := held
    exact ⟨_,Map.get?_eq_some_iff.mp found,rfl⟩
  · intro member
    obtain ⟨row,present,rfl⟩ := member
    exact ⟨row.2,Map.get?_eq_some_iff.mpr present⟩

@[simp] theorem mem_insert {set : Members α} {item other : α} :
    other ∈ (set.insert item).toList ↔ other = item ∨ other ∈ set.toList := by
  rw [← contains_iff_mem,← contains_iff_mem,Map.contains_eq,Map.contains_eq,insert]
  by_cases same : other = item
  · subst same
    simp [Map.get?_put_self]
  · simp [Map.get?_put_other set () same,same]

end Members
end DurableRules
