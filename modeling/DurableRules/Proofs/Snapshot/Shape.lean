import DurableRules.Proofs.Snapshot.RoundTrip
import DurableRules.Proofs.Store.Recovering

namespace DurableRules
open Json Recovery

section Lengths
variable {α κ : Type} {item : Reader α} {key : List Piece → Except Refusal κ}

theorem readItems_length {trees : List Tree} {values : List α} (read : readItems item trees = .ok values) :
    values.length = trees.length := by
  induction trees generalizing values with
  | nil =>
    cases read
    rfl
  | cons tree rest ih =>
    simp only [readItems,except_bind_ok] at read
    obtain ⟨value,_,others,later,last⟩ := read
    cases last
    exact congrArg Nat.succ (ih later)

theorem readItems_member {trees : List Tree} {values : List α} (read : readItems item trees = .ok values) :
    ∀ value ∈ values, ∃ tree ∈ trees, item tree = .ok value := by
  induction trees generalizing values with
  | nil =>
    cases read
    simp
  | cons tree rest ih =>
    simp only [readItems,except_bind_ok] at read
    obtain ⟨first,atFirst,others,later,last⟩ := read
    cases last
    intro value present
    cases List.mem_cons.mp present with
    | inl same => exact ⟨tree,List.mem_cons_self,same ▸ atFirst⟩
    | inr inside =>
      obtain ⟨tree,among,found⟩ := ih later value inside
      exact ⟨tree,List.mem_cons_of_mem _ among,found⟩

theorem readRows_member {members : List (List Piece × Tree)} {rows : List (κ × α)}
    (read : readRows key item members = .ok rows) :
    ∀ row ∈ rows, ∃ member ∈ members, key member.1 = .ok row.1 ∧ item member.2 = .ok row.2 := by
  induction members generalizing rows with
  | nil =>
    cases read
    simp
  | cons member rest ih =>
    obtain ⟨pieces,tree⟩ := member
    simp only [readRows,except_bind_ok] at read
    obtain ⟨name,named,value,first,others,later,last⟩ := read
    cases last
    intro row present
    cases List.mem_cons.mp present with
    | inl same => exact ⟨(pieces,tree),List.mem_cons_self,same ▸ named,same ▸ first⟩
    | inr inside =>
      obtain ⟨member,among,found⟩ := ih later row inside
      exact ⟨member,List.mem_cons_of_mem _ among,found⟩

variable {ν : Type} [DecidableEq κ] [Ord κ] [Std.TransOrd κ] [Std.LawfulEqOrd κ] {rows : List (κ × ν)} {name : κ} {value : ν}

theorem foldl_put_member {map : Map κ ν}
    (found : (rows.foldl (fun map row => map.put row.1 row.2) map).get? name = some value) :
    (name,value) ∈ rows ∨ map.get? name = some value := by
  induction rows generalizing map with
  | nil => exact .inr found
  | cons row rest ih =>
    cases ih found with
    | inl inside => exact .inl (List.mem_cons_of_mem _ inside)
    | inr put =>
      rw [Map.get?_put] at put
      split at put
      · next same =>
        cases put
        exact .inl (same ▸ List.mem_cons_self)
      · exact .inr put

theorem ofList_member
    (found : (Map.ofList rows).get? name = some value) : (name,value) ∈ rows := by
  cases foldl_put_member found with
  | inl inside => exact inside
  | inr empty => cases empty

theorem readMap_member {members : List (List Piece × Tree)} {map : Map κ α} {value : α}
    (read : readMap key item (.object members) = .ok map) (found : map.get? name = some value) :
    ∃ member ∈ members, key member.1 = .ok name ∧ item member.2 = .ok value := by
  unfold readMap at read
  cases rows : readRows key item members with
  | error cause => simp [rows,Except.map] at read
  | ok list =>
    simp only [rows,Except.map,Except.ok.injEq] at read
    subst read
    exact readRows_member rows _ (ofList_member found)

theorem readItems_back {write : α → Tree} {items : List α} (read : readItems item (items.map write) = .ok items) :
    ∀ value ∈ items, item (write value) = .ok value := by
  induction items with
  | nil => simp
  | cons head rest ih =>
    simp only [List.map_cons,readItems,except_bind_ok] at read
    obtain ⟨value,first,others,later,last⟩ := read
    cases last
    exact List.forall_mem_cons.mpr ⟨first,ih later⟩

theorem readMap_back {spell : κ → List Piece} {write : α → Tree} {map : Map κ α}
    (keys : ∀ row ∈ map.rows, key (spell row.1) = .ok row.1)
    (read : readMap key item (.object (map.rows.map fun row => (spell row.1,write row.2))) = .ok map) :
    ∀ row ∈ map.rows, item (write row.2) = .ok row.2 := by
  intro row present
  obtain ⟨member,inside,named,found⟩ := readMap_member read (Map.get?_eq_some_iff.mpr present)
  obtain ⟨source,among,rfl⟩ := List.mem_map.mp inside
  have same : source.1 = row.1 := Except.ok.inj ((keys source among).symm.trans named)
  rwa [row_unique map.ascending among present same] at found

variable {map : Map String ν} {reader : Reader ν} {write : ν → Tree}

theorem mapTree_back (read : readMap readKey reader (mapTree write map) = .ok map) :
    ∀ row ∈ map.rows, reader (write row.2) = .ok row.2 :=
  readMap_back (fun row _ => (readKey_pieces row.1).1) read

theorem spelled_mapTree (each : ∀ row ∈ map.rows, Spelled (write row.2)) : Spelled (mapTree write map) := by
  apply Spelled.object
  · intro member present
    obtain ⟨row,_,rfl⟩ := List.mem_map.mp present
    exact pieces_clean row.1
  · intro member present
    obtain ⟨row,inside,rfl⟩ := List.mem_map.mp present
    exact each row inside

end Lengths

namespace Snapshot

theorem spelled_globals (globals : Globals) : Spelled globals.toTree := by
  have map : Spelled (mapTree (fun values => .array (values.map Value.toTree)) globals.globals) := by
    refine spelled_mapTree fun row _ => .array fun tree inside => ?_
    obtain ⟨value,_,rfl⟩ := List.mem_map.mp inside
    exact spelled_value value
  have number : Spelled (Json.nat globals.stateVersion) := .number (numeric_decimal _)
  apply spelled_record
  simp [map,number]

theorem globals_filled {globals part : Globals} (read : Globals.read globals.toTree = .ok part)
    (filled : ∀ row ∈ globals.globals.rows, row.2 ≠ []) :
    ∀ name values, part.globals.get? name = some values → values ≠ [] := by
  simp [Globals.read,Globals.toTree,Json.record,readRecord,fillMembers,strict_pieces,except_bind_ok] at read
  obtain ⟨version,_,map,reads,rfl⟩ := read
  intro name values found none
  obtain ⟨member,inside,_,item⟩ := readMap_member reads found
  obtain ⟨row,among,rfl⟩ := List.mem_map.mp inside
  have length := readItems_length item
  rw [none,List.length_map] at length
  exact filled row among (List.length_eq_zero_iff.mp length.symm)

end Snapshot
end DurableRules
