import DurableRules.Proofs.Json.RoundTrip
import DurableRules.Snapshot.Codec

namespace DurableRules
open Json

-- The values that a snapshot brings back: floats that read back what is
-- printed and times whose text has a fixed width.
def Value.Portable : Value → Prop
  | .float x => x.ReadsBack
  | .timestamp t => t.Portable
  | _ => True

def Fact.Portable (fact : Fact) : Prop := ∀ row ∈ fact.fields.rows, row.2.Portable

-- Handles, versions and sequences are 64-bit words.
structure Identity.Narrow (i : Identity) : Prop where
  handle : i.handle < wordLimit
  version : i.version < wordLimit

def Activation.Narrow (a : Activation) : Prop := ∀ i ∈ a.tuple, i.Narrow

structure Network.Narrow (network : Network) : Prop where
  alpha : ∀ row ∈ network.alpha.rows, ∀ handle ∈ row.2.toList, handle < wordLimit
  agenda : ∀ row ∈ network.agenda.rows, row.1 < wordLimit ∧ row.2.Narrow
  next : network.nextSequence < wordLimit

structure Stores.Portable (stores : Stores) : Prop where
  facts : ∀ row ∈ stores.facts.rows, row.2.fact.Portable
  globals : ∀ row ∈ stores.globals.rows, ∀ value ∈ row.2, value.Portable

structure Stores.Narrow (stores : Stores) : Prop where
  next : stores.nextHandle < wordLimit
  facts : ∀ row ∈ stores.facts.rows, row.1 < wordLimit ∧ row.2.version < wordLimit
  fired : ∀ a ∈ stores.fired.toList, a.Narrow

structure Engine.Narrow (e : Engine) : Prop where
  stores : e.stores.Narrow
  network : e.network.Narrow

section Deciding

instance : (value : Value) → Decidable value.Portable
  | .float x => inferInstanceAs (Decidable x.ReadsBack)
  | .timestamp t => inferInstanceAs (Decidable t.Portable)
  | .text _ | .int _ | .bool _ => .isTrue trivial

instance (fact : Fact) : Decidable fact.Portable :=
  inferInstanceAs (Decidable (∀ row ∈ fact.fields.rows, row.2.Portable))

instance (i : Identity) : Decidable i.Narrow :=
  decidable_of_iff (i.handle < wordLimit ∧ i.version < wordLimit)
    ⟨fun held => ⟨held.1,held.2⟩,fun held => ⟨held.handle,held.version⟩⟩

instance (a : Activation) : Decidable a.Narrow := inferInstanceAs (Decidable (∀ i ∈ a.tuple, i.Narrow))

instance (network : Network) : Decidable network.Narrow :=
  decidable_of_iff ((∀ row ∈ network.alpha.rows, ∀ handle ∈ row.2.toList, handle < wordLimit) ∧
    (∀ row ∈ network.agenda.rows, row.1 < wordLimit ∧ row.2.Narrow) ∧ network.nextSequence < wordLimit)
    ⟨fun held => ⟨held.1,held.2.1,held.2.2⟩,fun held => ⟨held.alpha,held.agenda,held.next⟩⟩

instance (stores : Stores) : Decidable stores.Portable :=
  decidable_of_iff ((∀ row ∈ stores.facts.rows, row.2.fact.Portable) ∧
    ∀ row ∈ stores.globals.rows, ∀ value ∈ row.2, value.Portable)
    ⟨fun held => ⟨held.1,held.2⟩,fun held => ⟨held.facts,held.globals⟩⟩

instance (stores : Stores) : Decidable stores.Narrow :=
  decidable_of_iff (stores.nextHandle < wordLimit ∧
    (∀ row ∈ stores.facts.rows, row.1 < wordLimit ∧ row.2.version < wordLimit) ∧ ∀ a ∈ stores.fired.toList, a.Narrow)
    ⟨fun held => ⟨held.1,held.2.1,held.2.2⟩,fun held => ⟨held.next,held.facts,held.fired⟩⟩

instance (e : Engine) : Decidable e.Narrow :=
  decidable_of_iff (e.stores.Narrow ∧ e.network.Narrow) ⟨fun held => ⟨held.1,held.2⟩,fun held => ⟨held.stores,held.network⟩⟩

end Deciding

section Parts

theorem spelled_content (value : Value) : Spelled value.content := by
  cases value with
  | text content => exact spelled_string content
  | int number => exact (conveys_int number).spelled
  | float number =>
    change Spelled (if number.isFinite then .number number.toLiteral else .null)
    split
    · exact .number (numeric_double number)
    · exact .null
  | bool truth => exact .bool truth
  | timestamp time => exact spelled_string _

theorem spelled_value (value : Value) : Spelled value.toTree := by
  apply spelled_record
  simp [spelled_content,spelled_string]

theorem conveys_content {value : Value} (portable : value.Portable) : Conveys value.type.read value.content value := by
  cases value with
  | text content => exact (conveys_string content).map _
  | int number => exact (conveys_int number).map _
  | float number => exact (conveys_double portable).map _
  | bool truth => exact (conveys_bool truth).map _
  | timestamp time => exact (conveys_timestamp portable).map _

theorem ofName?_name (type : ValueType) : ValueType.ofName? type.name = some type := by
  cases type <;> rfl

theorem fill_type (tree : Tree) :
    Value.fill .nothing "type" tree = (readName ValueType.ofName? tree).map .typed := rfl

theorem fill_value (type : ValueType) (tree : Tree) :
    Value.fill (.typed type) "value" tree = (type.read tree).map .done := rfl

theorem conveys_value {value : Value} (portable : value.Portable) : Conveys Value.read value.toTree value := by
  have content := conveys_content portable
  have type := conveys_name (ofName?_name value.type)
  refine ⟨spelled_value value,?_⟩
  simp [Value.toTree,Json.record,Value.read,Value.readMembers,fill_type,fill_value,strict_pieces,type.reads,
    content.reads,Except.map,bind,Except.bind]

theorem readKey_pieces (name : String) : readKey (pieces name) = .ok name ∧ ∀ piece ∈ pieces name, piece.Clean :=
  ⟨strict_pieces name,pieces_clean name⟩

theorem conveys_mapTree {ν : Type} {reader : Reader ν} {write : ν → Tree} {map : Map String ν}
    (each : ∀ row ∈ map.rows, Conveys reader (write row.2) row.2) :
    Conveys (readMap readKey reader) (mapTree write map) map :=
  conveys_map pieces (fun row _ => readKey_pieces row.1) each

theorem conveys_fact {fact : Fact} (portable : fact.Portable) : Conveys Fact.read fact.toTree fact := by
  have kind := conveys_string fact.kind
  have fields := conveys_mapTree fun row present => conveys_value (portable row present)
  apply conveys_record
  · rfl
  · decide
  · simp [kind.spelled,fields.spelled]
  · simp [bind,Except.bind,pure,Except.pure,kind.reads,fields.reads]

theorem conveys_identity {i : Identity} (narrow : i.Narrow) : Conveys Identity.read i.toTree i := by
  have handle := conveys_nat narrow.handle
  have version := conveys_nat narrow.version
  apply conveys_record
  · rfl
  · decide
  · simp [handle.spelled,version.spelled]
  · simp [readWord,bind,Except.bind,pure,Except.pure,handle.reads,version.reads]

theorem conveys_activation {a : Activation} (narrow : a.Narrow) : Conveys Activation.read a.toTree a := by
  have rule := conveys_string a.rule
  have tuple := conveys_list fun i present => conveys_identity (narrow i present)
  apply conveys_record
  · rfl
  · decide
  · simp [rule.spelled,tuple.spelled]
  · simp [bind,Except.bind,pure,Except.pure,rule.reads,tuple.reads]

theorem conveys_persistence (persistence : Persistence) :
    Conveys (readName Persistence.ofName?) (Json.string persistence.name) persistence :=
  conveys_name (by cases persistence <;> rfl)

theorem conveys_safepoint (safepoint : Safepoint) :
    Conveys (readName Safepoint.ofName?) (Json.string safepoint.name) safepoint :=
  conveys_name (by cases safepoint <;> rfl)

theorem conveys_id (id : SessionId) : Conveys SessionId.read (Json.string id.toText) id := by
  have text := conveys_string id.toText
  refine ⟨text.spelled,?_⟩
  simp [SessionId.read,text.reads,SessionId.ofText?_toText,orMalformed,bind,Except.bind]

theorem numberKey_decimal {n : Nat} (small : n < wordLimit) :
    numberKey wordLimit ((Text.decimal n).map Piece.plain) = .ok n ∧
      ∀ piece ∈ (Text.decimal n).map Piece.plain, piece.Clean := by
  constructor
  · have first : (Text.decimal n).head? ≠ some '0' ∨ (Text.decimal n).length = 1 := by
      rcases Nat.eq_zero_or_pos n with rfl | positive
      · exact .inr rfl
      · obtain ⟨c,rest,spelled,_,nonzero⟩ := Text.decimal_head positive
        exact .inl (by simp [spelled,nonzero])
    simp only [numberKey,List.filterMap_map,Function.comp_def,List.filterMap_some,List.length_map,true_and,if_pos first,
      natural?_decimal small]
    rfl
  · intro piece present
    obtain ⟨c,inside,rfl⟩ := List.mem_map.mp present
    have digit := Text.decimal_digits inside
    refine ⟨Nat.le_trans (by decide) (Char.isDigit_iff_toNat.mp digit).1,?_,?_⟩ <;> intro same <;> subst same <;> cases digit

theorem conveys_handles {handles : Members Handle} (narrow : ∀ handle ∈ handles.toList, handle < wordLimit) :
    Conveys Network.readHandles (.array (handles.toList.map Json.nat)) handles := by
  have list := (conveys_list fun handle present => conveys_nat (narrow handle present)).map Members.ofList
  rwa [Members.ofList_toList] at list

theorem conveys_network {network : Network} (narrow : network.Narrow) : Conveys Network.read network.toTree network := by
  have alpha : Conveys (readMap readKey Network.readHandles)
      (mapTree (fun handles => .array (handles.toList.map Json.nat)) network.alpha) network.alpha :=
    conveys_mapTree fun row present => conveys_handles (narrow.alpha row present)
  have agenda : Conveys (readMap (numberKey wordLimit) Activation.read) (Network.agendaTree network.agenda) network.agenda :=
    conveys_map (fun n => (Text.decimal n).map Piece.plain) (fun row present => numberKey_decimal (narrow.agenda row present).1)
      fun row present => conveys_activation (narrow.agenda row present).2
  have next := conveys_nat narrow.next
  apply conveys_record
  · rfl
  · decide
  · simp [alpha.spelled,agenda.spelled,next.spelled]
  · simp [readWord,bind,Except.bind,pure,Except.pure,alpha.reads,agenda.reads,next.reads]

end Parts

namespace Snapshot

section Components

theorem conveys_header {header : Header} (format : header.formatVersion < 0x100000000)
    (state : header.stateVersion < wordLimit) (next : header.nextHandle < wordLimit) :
    Conveys Header.read header.toTree header := by
  have format := conveys_nat format
  have id := conveys_id header.id
  have state := conveys_nat state
  have persistence := conveys_persistence header.persistence
  have safepoint := conveys_safepoint header.safepoint
  have rules := conveys_list fun (name : String) (_ : name ∈ header.rules) => conveys_string name
  have next := conveys_nat next
  apply conveys_record
  · rfl
  · decide
  · simp [format.spelled,id.spelled,state.spelled,persistence.spelled,safepoint.spelled,rules.spelled,next.spelled]
  · simp [readWord,bind,Except.bind,pure,Except.pure,format.reads,id.reads,state.reads,persistence.reads,
      safepoint.reads,rules.reads,next.reads]

theorem conveys_entry {entry : FactEntry} (handle : entry.handle < wordLimit) (version : entry.version < wordLimit)
    (portable : entry.fact.Portable) : Conveys FactEntry.read entry.toTree entry := by
  have handle := conveys_nat handle
  have version := conveys_nat version
  have fact := conveys_fact portable
  apply conveys_record
  · rfl
  · decide
  · simp [handle.spelled,version.spelled,fact.spelled]
  · simp [readWord,bind,Except.bind,pure,Except.pure,handle.reads,version.reads,fact.reads]

theorem conveys_facts {facts : Facts} (state : facts.stateVersion < wordLimit)
    (narrow : ∀ entry ∈ facts.facts, entry.handle < wordLimit ∧ entry.version < wordLimit)
    (portable : ∀ entry ∈ facts.facts, entry.fact.Portable) : Conveys Facts.read facts.toTree facts := by
  have state := conveys_nat state
  have list := conveys_list fun entry present =>
    conveys_entry (narrow entry present).1 (narrow entry present).2 (portable entry present)
  apply conveys_record
  · rfl
  · decide
  · simp [state.spelled,list.spelled]
  · simp [readWord,bind,Except.bind,pure,Except.pure,state.reads,list.reads]

theorem conveys_markers {markers : Markers} (state : markers.stateVersion < wordLimit)
    (narrow : ∀ a ∈ markers.fired.toList, a.Narrow) : Conveys Markers.read markers.toTree markers := by
  have state := conveys_nat state
  have list := conveys_list fun a present => conveys_activation (narrow a present)
  apply conveys_record
  · rfl
  · decide
  · simp [state.spelled,list.spelled]
  · simp [readWord,bind,Except.bind,pure,Except.pure,state.reads,list.reads,Members.ofList_toList]

theorem conveys_globals {globals : Globals} (state : globals.stateVersion < wordLimit)
    (portable : ∀ row ∈ globals.globals.rows, ∀ value ∈ row.2, value.Portable) :
    Conveys Globals.read globals.toTree globals := by
  have state := conveys_nat state
  have map : Conveys (readMap readKey (readList Value.read))
      (mapTree (fun values => .array (values.map Value.toTree)) globals.globals) globals.globals :=
    conveys_mapTree fun row present => conveys_list fun value inside => conveys_value (portable row present value inside)
  apply conveys_record
  · rfl
  · decide
  · simp [state.spelled,map.spelled]
  · simp [readWord,bind,Except.bind,pure,Except.pure,state.reads,map.reads]

theorem conveys_propagation {part : Propagation} (state : part.stateVersion < wordLimit)
    (narrow : part.network.Narrow) : Conveys Propagation.read part.toTree part := by
  have state := conveys_nat state
  have network := conveys_network narrow
  apply conveys_record
  · rfl
  · decide
  · simp [state.spelled,network.spelled]
  · simp [readWord,bind,Except.bind,pure,Except.pure,state.reads,network.reads]

end Components

theorem stores_components (id : SessionId) (e : Engine) (options : Options) (version : Nat) :
    stores (header id e options version) ⟨version,factEntries e.stores⟩ ⟨version,e.stores.fired⟩
      ⟨version,e.stores.globals⟩ = e.stores := by
  have entries : (factEntries e.stores).map (fun entry => (entry.handle,StoredFact.mk entry.version entry.fact)) =
      e.stores.facts.rows := by
    rw [factEntries,List.map_map]
    exact List.map_id _
  unfold stores
  rw [entries,Map.ofList_rows]
  rfl

end Snapshot
end DurableRules
