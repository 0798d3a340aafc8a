import DurableRules.Proofs.Double.Spelling
import DurableRules.Proofs.Json.Document
import DurableRules.Proofs.Ordered.Walk
import DurableRules.Proofs.Timestamp.RoundTrip

namespace DurableRules.Json
open Text

structure Conveys {α : Type} (reader : Reader α) (tree : Tree) (value : α) : Prop where
  spelled : Spelled tree
  reads : reader tree = .ok value

section Leaves
variable {α : Type}

theorem Conveys.decode {reader : Reader α} {tree : Tree} {value : α} (conveys : Conveys reader tree value) :
    decode reader tree.text.toUTF8 = .ok value :=
  (conveys.spelled.decode reader).trans conveys.reads

theorem Conveys.map {β : Type} {reader : Reader α} {tree : Tree} {value : α} (conveys : Conveys reader tree value)
    (f : α → β) : Conveys (fun tree => (reader tree).map f) tree (f value) := by
  refine ⟨conveys.spelled,?_⟩
  rw [conveys.reads]
  rfl

@[simp] theorem strict_pieces (text : String) : strict (pieces text) = .ok text := by
  rw [strict,content_pieces,Option.map_some,String.ofList_toList]
  rfl

theorem spelled_string (text : String) : Spelled (Json.string text) := .string (pieces_clean text)

theorem conveys_string (text : String) : Conveys readString (Json.string text) text :=
  ⟨spelled_string text,strict_pieces text⟩

theorem natural?_decimal {n bound : Nat} (small : n < bound) : natural? bound (decimal n) = some n := by
  rw [natural?,numeral_decimal,if_pos ⟨isDecimal_decimal n,small⟩]

theorem conveys_nat {n bound : Nat} (small : n < bound) : Conveys (readNat bound) (Json.nat n) n := by
  refine ⟨.number (numeric_decimal n),?_⟩
  rw [Json.nat,readNat,natural?_decimal small]
  rfl

theorem integer?_decimal {n : Nat} (small : n < signedLimit) : integer? (decimal n) = some (Int64.ofInt n) := by
  obtain ⟨c,rest,spelled,digit⟩ := decimal_cons n
  unfold integer?
  split
  · next digits same =>
    rw [spelled] at same
    cases same
    cases digit
  · rw [natural?_decimal small]
    rfl

theorem conveys_int (n : Int64) : Conveys readInt (Json.int n) n := by
  have low := n.le_toInt
  have high := n.toInt_lt
  unfold Json.int
  split
  · next negative =>
    have range : 0 < n.toInt.natAbs ∧ n.toInt.natAbs ≤ signedLimit := by
      simp only [signedLimit]
      omega
    have value : -(n.toInt.natAbs : Int) = n.toInt := by omega
    refine ⟨.number (numeric_negative _),?_⟩
    rw [readInt,integer?,numeral_decimal,if_pos ⟨isDecimal_decimal _,range⟩,value,Int64.ofInt_toInt]
    rfl
  · next positive =>
    have small : n.toInt.natAbs < signedLimit := by
      simp only [signedLimit]
      omega
    have value : (n.toInt.natAbs : Int) = n.toInt := by omega
    refine ⟨.number (numeric_decimal _),?_⟩
    rw [readInt,integer?_decimal small,value,Int64.ofInt_toInt]
    rfl

theorem conveys_double {x : Double} (back : x.ReadsBack) : Conveys readDouble (Json.double x) x := by
  rw [Json.double,if_pos back.1]
  refine ⟨.number (numeric_double x),?_⟩
  rw [readDouble,back.2]
  rfl

theorem conveys_bool (truth : Bool) : Conveys readBool (.bool truth) truth := ⟨.bool truth,rfl⟩

theorem conveys_timestamp {t : Timestamp} (portable : t.Portable) :
    Conveys readTimestamp (Json.string t.toText) t := by
  refine ⟨spelled_string _,?_⟩
  have read : Timestamp.ofText t.toText = .ok t := by
    simp [Timestamp.ofText,Timestamp.toText,Timestamp.parse_print portable]
  rw [readTimestamp,(conveys_string _).reads]
  simp only [bind,Except.bind,read]

theorem conveys_name {known : String → Option α} {name : String} {value : α} (found : known name = some value) :
    Conveys (readName known) (Json.string name) value := by
  refine ⟨spelled_string name,?_⟩
  rw [Json.string,readName,strict_pieces]
  simp only [bind,Except.bind,found]
  rfl

end Leaves

section Collections
variable {α : Type} {item : Reader α} {write : α → Tree}

theorem readItems_map {items : List α} (each : ∀ value ∈ items, item (write value) = .ok value) :
    readItems item (items.map write) = .ok items := by
  induction items with
  | nil => rfl
  | cons value rest ih =>
    have later := ih fun other present => each other (List.mem_cons_of_mem _ present)
    simp only [List.map_cons,readItems,each value List.mem_cons_self,later,bind,Except.bind]
    rfl

theorem conveys_list {items : List α} (each : ∀ value ∈ items, Conveys item (write value) value) :
    Conveys (readList item) (.array (items.map write)) items := by
  refine ⟨.array fun tree present => ?_,readItems_map fun value present => (each value present).reads⟩
  obtain ⟨value,inside,rfl⟩ := List.mem_map.mp present
  exact (each value inside).spelled

variable {κ : Type} {key : List Piece → Except Refusal κ} {spell : κ → List Piece}

theorem readRows_map {rows : List (κ × α)} (keys : ∀ row ∈ rows, key (spell row.1) = .ok row.1)
    (each : ∀ row ∈ rows, item (write row.2) = .ok row.2) :
    readRows key item (rows.map fun row => (spell row.1,write row.2)) = .ok rows := by
  induction rows with
  | nil => rfl
  | cons row rest ih =>
    have later := ih (fun other present => keys other (List.mem_cons_of_mem _ present))
      (fun other present => each other (List.mem_cons_of_mem _ present))
    simp only [List.map_cons,readRows,keys row List.mem_cons_self,each row List.mem_cons_self,later,bind,Except.bind]
    rfl

theorem conveys_map [Ord κ] [Std.TransOrd κ] [Std.LawfulEqOrd κ] (spell : κ → List Piece) {map : Map κ α}
    (keys : ∀ row ∈ map.rows, key (spell row.1) = .ok row.1 ∧ ∀ piece ∈ spell row.1, piece.Clean)
    (each : ∀ row ∈ map.rows, Conveys item (write row.2) row.2) :
    Conveys (readMap key item) (.object (map.rows.map fun row => (spell row.1,write row.2))) map := by
  constructor
  · apply Spelled.object
    · intro member present
      obtain ⟨row,inside,rfl⟩ := List.mem_map.mp present
      exact (keys row inside).2
    · intro member present
      obtain ⟨row,inside,rfl⟩ := List.mem_map.mp present
      exact (each row inside).spelled
  · rw [readMap,readRows_map (fun row present => (keys row present).1) fun row present => (each row present).reads]
    exact congrArg Except.ok (Map.ofList_rows map)

end Collections

section Records
variable {α : Type} {fill : α → String → Reader α}

theorem fillMembers_all {names seen : List String} {members : List (String × Tree)} {draft value : α}
    (known : ∀ member ∈ members, member.1 ∈ names) (fresh : ∀ member ∈ members, member.1 ∉ seen)
    (once : (members.map Prod.fst).Nodup) (all : ∀ name ∈ names, name ∈ seen ∨ name ∈ members.map Prod.fst)
    (filled : members.foldlM (fun draft member => fill draft member.1 member.2) draft = .ok value) :
    fillMembers names fill seen draft (members.map fun member => (pieces member.1,member.2)) = .ok value := by
  induction members generalizing seen draft with
  | nil =>
    have complete : names.all seen.contains = true := by
      simpa using all
    simp only [List.map_nil,fillMembers,complete,if_true]
    exact filled
  | cons member rest ih =>
    obtain ⟨name,tree⟩ := member
    have inside : names.contains name = true := List.contains_iff_mem.mpr (known (name,tree) List.mem_cons_self)
    have new : seen.contains name = false := by
      simpa using fresh (name,tree) List.mem_cons_self
    obtain ⟨apart,later⟩ := List.nodup_cons.mp once
    rw [List.foldlM_cons] at filled
    cases first : fill draft name tree with
    | error cause =>
      rw [first] at filled
      cases filled
    | ok next =>
      rw [first] at filled
      simp only [List.map_cons,fillMembers,strict_pieces,bind,Except.bind,inside,new,first,if_true,Bool.false_eq_true,
        if_false]
      apply ih
      · exact fun other present => known other (List.mem_cons_of_mem _ present)
      · intro other present again
        have listed : other.1 ∈ rest.map Prod.fst := List.mem_map_of_mem present
        cases List.mem_cons.mp again with
        | inl same => exact apart (same ▸ listed)
        | inr earlier => exact fresh other (List.mem_cons_of_mem _ present) earlier
      · exact later
      · intro other present
        cases all other present with
        | inl earlier => exact .inl (List.mem_cons_of_mem _ earlier)
        | inr listed =>
          cases List.mem_cons.mp listed with
          | inl same => exact .inl (same ▸ List.mem_cons_self)
          | inr later => exact .inr later
      · exact filled

theorem spelled_record {members : List (String × Tree)} (each : ∀ member ∈ members, Spelled member.2) :
    Spelled (record members) := by
  apply Spelled.object
  · intro member present
    obtain ⟨row,_,rfl⟩ := List.mem_map.mp present
    exact pieces_clean row.1
  · intro member present
    obtain ⟨row,inside,rfl⟩ := List.mem_map.mp present
    exact each row inside

theorem conveys_record {names : List String} {members : List (String × Tree)} {draft value : α}
    (order : members.map Prod.fst = names) (once : names.Nodup)
    (spelled : ∀ member ∈ members, Spelled member.2)
    (filled : members.foldlM (fun draft member => fill draft member.1 member.2) draft = .ok value) :
    Conveys (readRecord names draft fill) (record members) value := by
  refine ⟨spelled_record spelled,?_⟩
  apply fillMembers_all
  · exact fun member present => order ▸ List.mem_map_of_mem present
  · exact fun _ _ => List.not_mem_nil
  · exact order ▸ once
  · exact fun name present => .inr (order ▸ present)
  · exact filled

end Records
end DurableRules.Json
