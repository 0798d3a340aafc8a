import DurableRules.Proofs.Engine.Reachable
import DurableRules.Proofs.Snapshot.Complete
import DurableRules.Proofs.Snapshot.Shape

namespace DurableRules
open Json Recovery

-- Values that have a text of their own: floats that are numbers, and times
-- with a year of four digits and without a fraction of a leap second.
def Value.Representable : Value → Prop
  | .float x => x.isFinite = true
  | .timestamp t => t.Portable
  | _ => True

def Legible (values : List Value) : Prop := ∀ x, .float x ∈ values → x.isFinite = true → x.ReadsBack

def Fact.values (fact : Fact) : List Value := fact.fields.values

def Stores.values (stores : Stores) : List Value :=
  (stores.facts.values.flatMap fun stored => stored.fact.values) ++ stores.globals.values.flatten

section Values
variable {value : Value} {fact : Fact} {values : List Value} {stores : Stores}

theorem Value.Portable.representable (portable : value.Portable) : value.Representable := by
  cases value with
  | float x => exact portable.1
  | timestamp t => exact portable
  | text | int | bool => trivial

theorem portable_iff (legible : Legible values) :
    (∀ value ∈ values, value.Portable) ↔ ∀ value ∈ values, value.Representable := by
  refine ⟨fun all value present => (all value present).representable,fun all value present => ?_⟩
  have held := all value present
  cases value with
  | float x => exact legible x present held
  | timestamp t => exact held
  | text | int | bool => trivial

theorem forall_values {ν : Type} {κ : Type} [Ord κ] {map : Map κ ν} {holds : ν → Prop} :
    (∀ value ∈ map.values, holds value) ↔ ∀ row ∈ map.rows, holds row.2 := by
  rw [Map.values,List.forall_mem_map]

theorem Fact.portable_iff : fact.Portable ↔ ∀ value ∈ fact.values, value.Portable := forall_values.symm

theorem Stores.portable_iff : stores.Portable ↔ ∀ value ∈ stores.values, value.Portable := by
  have all : (∀ value ∈ stores.values, value.Portable) ↔
      (∀ stored ∈ stores.facts.values, ∀ value ∈ stored.fact.values, value.Portable) ∧
        ∀ values ∈ stores.globals.values, ∀ value ∈ values, value.Portable := by
    rw [Stores.values,List.forall_mem_append,List.forall_mem_flatMap,List.forall_mem_flatten]
  rw [all,forall_values,forall_values]
  exact ⟨fun held => ⟨fun row present => Fact.portable_iff.mp (held.facts row present),held.globals⟩,
    fun held => ⟨fun row present => Fact.portable_iff.mpr (held.1 row present),held.2⟩⟩

theorem read_value (value : Value) : Value.read value.toTree = value.type.read value.content := by
  have type := conveys_name (ofName?_name value.type)
  simp only [Value.toTree,Json.record,List.map_cons,List.map_nil,Value.read,Value.readMembers,fill_type,fill_value,
    strict_pieces,type.reads,Except.map,bind,Except.bind]
  cases value.type.read value.content <;> rfl

theorem except_map_back {α β : Type} {f : α → β} (apart : Function.Injective f) {result : Except Refusal α} {a : α} :
    result.map f = .ok (f a) ↔ result = .ok a := by
  cases result with
  | error cause => simp [Except.map]
  | ok other => simp [Except.map,apart.eq_iff]

theorem readDouble_back {x : Double} (read : readDouble (Json.double x) = .ok x) : x.ReadsBack := by
  unfold Json.double at read
  split at read
  · next finite =>
    refine ⟨finite,?_⟩
    unfold readDouble at read
    cases literal : Double.ofLiteral x.toLiteral with
    | none => simp [literal,orMalformed,malformed] at read
    | some other => simpa [literal,orMalformed] using read
  · cases read

theorem readTimestamp_back {t : Timestamp} (read : readTimestamp (Json.string t.toText) = .ok t) : t.Portable := by
  apply Timestamp.portable_of_parse
  rw [readTimestamp,(conveys_string _).reads] at read
  simp only [bind,Except.bind,Timestamp.ofText,Timestamp.toText,String.toList_ofList] at read
  cases parsed : Timestamp.parse t.print with
  | none => simp [parsed] at read
  | some other => simpa [parsed] using read

theorem value_back (read : Value.read value.toTree = .ok value) : value.Portable := by
  rw [read_value] at read
  cases value with
  | float x => exact readDouble_back ((except_map_back fun _ _ => Value.float.inj).mp read)
  | timestamp t => exact readTimestamp_back ((except_map_back fun _ _ => Value.timestamp.inj).mp read)
  | text | int | bool => trivial

theorem fact_back (read : Fact.read fact.toTree = .ok fact) : fact.Portable := by
  simp [Fact.read,Fact.toTree,Json.record,readRecord,fillMembers,strict_pieces,except_bind_ok] at read
  obtain ⟨kind,_,fields,read,rfl⟩ := read
  exact fun row present => value_back (mapTree_back read row present)

theorem spelled_fact (fact : Fact) : Spelled fact.toTree := by
  have fields : Spelled (mapTree Value.toTree fact.fields) := spelled_mapTree fun row _ => spelled_value row.2
  apply spelled_record
  simp [fields,spelled_string]

end Values

namespace Snapshot

section Back
variable {facts : Facts} {globals : Globals}

theorem facts_back (read : Facts.read facts.toTree = .ok facts) : ∀ entry ∈ facts.facts, entry.fact.Portable := by
  simp [Facts.read,Facts.toTree,Json.record,readRecord,fillMembers,strict_pieces,except_bind_ok] at read
  obtain ⟨version,_,entries,read,rfl⟩ := read
  intro entry present
  have entryRead := readItems_back read entry present
  simp [FactEntry.read,FactEntry.toTree,Json.record,readRecord,fillMembers,strict_pieces,except_bind_ok] at entryRead
  obtain ⟨handle,_,version,_,fact,read,rfl⟩ := entryRead
  exact fact_back read

theorem globals_back (read : Globals.read globals.toTree = .ok globals) :
    ∀ row ∈ globals.globals.rows, ∀ value ∈ row.2, value.Portable := by
  simp [Globals.read,Globals.toTree,Json.record,readRecord,fillMembers,strict_pieces,except_bind_ok] at read
  obtain ⟨version,_,map,read,rfl⟩ := read
  intro row present value inside
  exact value_back (readItems_back (mapTree_back read row present) value inside)

theorem spelled_facts (facts : Facts) : Spelled facts.toTree := by
  have number (n : Nat) : Spelled (Json.nat n) := .number (numeric_decimal n)
  have entries : Spelled (.array (facts.facts.map FactEntry.toTree)) := by
    refine .array fun tree present => ?_
    obtain ⟨entry,_,rfl⟩ := List.mem_map.mp present
    apply spelled_record
    simp [number,spelled_fact]
  apply spelled_record
  simp [number,entries]

end Back

inductive Part where
  | header (part : Header)
  | facts (part : Facts)
  | markers (part : Markers)
  | globals (part : Globals)
  | network (part : Propagation)

namespace Part

def tag : Part → Tag
  | header _ => .header
  | facts _ => .facts
  | markers _ => .markers
  | globals _ => .globals
  | network _ => .network

def toTree : Part → Tree
  | header part => part.toTree
  | facts part => part.toTree
  | markers part => part.toTree
  | globals part => part.toTree
  | network part => part.toTree

def bytes (part : Part) : ByteArray := part.toTree.text.toUTF8

def read : Tag → Reader Part
  | .header => fun tree => (Header.read tree).map header
  | .facts => fun tree => (Facts.read tree).map facts
  | .markers => fun tree => (Markers.read tree).map markers
  | .globals => fun tree => (Globals.read tree).map globals
  | .network => fun tree => (Propagation.read tree).map network

def Narrow : Part → Prop
  | header part => part.formatVersion < 0x100000000 ∧ part.stateVersion < wordLimit ∧ part.nextHandle < wordLimit
  | facts part => part.stateVersion < wordLimit ∧
      ∀ entry ∈ part.facts, entry.handle < wordLimit ∧ entry.version < wordLimit
  | markers part => part.stateVersion < wordLimit ∧ ∀ a ∈ part.fired.toList, a.Narrow
  | globals part => part.stateVersion < wordLimit
  | network part => part.stateVersion < wordLimit ∧ part.network.Narrow

def values : Part → List Value
  | facts part => part.facts.flatMap fun entry => entry.fact.values
  | globals part => part.globals.values.flatten
  | _ => []

theorem spelled {part : Part} (narrow : part.Narrow) : Spelled part.toTree := by
  cases part with
  | header part => exact (conveys_header narrow.1 narrow.2.1 narrow.2.2).spelled
  | facts part => exact spelled_facts part
  | markers part => exact (conveys_markers narrow.1 narrow.2).spelled
  | globals part => exact spelled_globals part
  | network part => exact (conveys_propagation narrow.1 narrow.2).spelled

-- The values decide, since everything else is always brought back.
theorem read_iff {part : Part} (narrow : part.Narrow) :
    read part.tag part.toTree = .ok part ↔ ∀ value ∈ part.values, value.Portable := by
  cases part with
  | header part =>
    have back := (conveys_header narrow.1 narrow.2.1 narrow.2.2).map header
    exact iff_of_true back.reads (by simp [values])
  | facts part =>
    have all : (∀ value ∈ (facts part).values, value.Portable) ↔ ∀ entry ∈ part.facts, entry.fact.Portable := by
      simp only [values,List.forall_mem_flatMap,Fact.portable_iff]
    rw [all]
    exact (except_map_back fun _ _ => Part.facts.inj).trans
      ⟨facts_back,fun portable => (conveys_facts narrow.1 narrow.2 portable).reads⟩
  | markers part =>
    have back := (conveys_markers narrow.1 narrow.2).map markers
    exact iff_of_true back.reads (by simp [values])
  | globals part =>
    have all : (∀ value ∈ (globals part).values, value.Portable) ↔
        ∀ row ∈ part.globals.rows, ∀ value ∈ row.2, value.Portable := by
      rw [values,List.forall_mem_flatten,forall_values]
    rw [all]
    exact (except_map_back fun _ _ => Part.globals.inj).trans
      ⟨globals_back,fun portable => (conveys_globals narrow portable).reads⟩
  | network part =>
    have back := (conveys_propagation narrow.1 narrow.2).map network
    exact iff_of_true back.reads (by simp [values])

end Part

structure Opened where
  header : Header
  stores : Stores
  network : Option Network

def part {α : Type} (encoded : List (Tag × ByteArray)) (tag : Tag) (reader : Reader α) : Except Refusal α :=
  match encoded.lookup tag with
  | some bytes => decode reader bytes
  | none => malformed

-- The components are decoded one by one and put together, with the network
-- where the header says that it was kept.
def opened (encoded : List (Tag × ByteArray)) : Except Refusal Opened := do
  let header ← part encoded .header Header.read
  let facts ← part encoded .facts Facts.read
  let markers ← part encoded .markers Markers.read
  let globals ← part encoded .globals Globals.read
  let network ← match header.persistence with
    | .full => (part encoded .network Propagation.read).map fun part => some part.network
    | .storesOnly => .ok none
  return ⟨header,stores header facts markers globals,network⟩

end Snapshot

structure Recordable (e : Engine) (version : Nat) : Prop extends Bounded e version where
  values : ∀ value ∈ e.stores.values, value.Representable
  legible : Legible e.stores.values

theorem Recordable.storable {e : Engine} {version : Nat} (recordable : Recordable e version) : Storable e version :=
  ⟨recordable.toBounded,Stores.portable_iff.mpr ((portable_iff recordable.legible).mpr recordable.values)⟩

namespace Snapshot

section Encoded
variable {id : SessionId} {e : Engine} {options : Options} {version : Nat} {tag : Tag} {tree : Tree}

theorem lookup_encode (present : (tag,tree) ∈ components id e options version) :
    (encode id e options version).lookup tag = some tree.text.toUTF8 := by
  obtain ⟨persistence,safepoint⟩ := options
  rcases mem_components.mp present with ⟨rfl,rfl⟩ | ⟨rfl,rfl⟩ | ⟨rfl,rfl⟩ | ⟨full,rfl,rfl⟩ | ⟨rfl,rfl⟩
  case inr.inr.inr.inl =>
    cases full
    rfl
  all_goals cases persistence <;> rfl

theorem part_encode {α : Type} {reader : Reader α} {value : α} (present : (tag,tree) ∈ components id e options version)
    (conveys : Conveys reader tree value) : part (encode id e options version) tag reader = .ok value := by
  rw [part,lookup_encode present]
  exact conveys.decode

theorem opened_encode (storable : Storable e version) : opened (encode id e options version) =
    .ok ⟨header id e options version,e.stores,if options.persistence = .full then some e.network else none⟩ := by
  have head : part (encode id e options version) .header Header.read = .ok (header id e options version) :=
    part_encode (mem_components.mpr (by simp)) (conveys_storedHeader storable.toBounded)
  have facts : part (encode id e options version) .facts Facts.read = .ok ⟨version,factEntries e.stores⟩ :=
    part_encode (mem_components.mpr (by simp)) (conveys_storedFacts storable)
  have markers : part (encode id e options version) .markers Markers.read = .ok ⟨version,e.stores.fired⟩ :=
    part_encode (mem_components.mpr (by simp)) (conveys_storedMarkers storable.toBounded)
  have globals : part (encode id e options version) .globals Globals.read = .ok ⟨version,e.stores.globals⟩ :=
    part_encode (mem_components.mpr (by simp)) (conveys_storedGlobals storable)
  have same := stores_components id e options version
  have kind : (header id e options version).persistence = options.persistence := rfl
  simp only [opened,head,facts,markers,globals,kind,same,bind,Except.bind,pure,Except.pure]
  cases kept : options.persistence with
  | full =>
    have network : part (encode id e options version) .network Propagation.read = .ok ⟨version,e.network⟩ :=
      part_encode (mem_components.mpr (by simp [kept])) (conveys_storedNetwork storable.toBounded)
    rw [network]
    rfl
  | storesOnly => rfl

end Encoded

-- A component comes back if and only if its values are representable, an
-- engine comes back with all that the snapshot keeps of it, and engines with
-- different stores have different snapshots.
theorem snapshot_decoded :
    (∀ part : Part, part.Narrow → Legible part.values →
      Tree.ofBytes part.bytes = (part.toTree,true) ∧
        (decode (Part.read part.tag) part.bytes = .ok part ↔ ∀ value ∈ part.values, value.Representable)) ∧
    (∀ id e options version, Recordable e version → ∃ o, opened (encode id e options version) = .ok o ∧
      o.header.id = id ∧ o.header.options = options ∧ o.header.rules = e.program.names ∧
      o.header.stateVersion = version ∧ o.stores = e.stores ∧
      (options.persistence = .full → o.network = some e.network)) ∧
    (∀ id one options version id' two options' version', Recordable one version → Recordable two version' →
      encode id one options version = encode id' two options' version' → one.stores = two.stores) := by
  refine ⟨fun part narrow legible => ?_,fun id e options version recordable => ?_,?_⟩
  · have spelled := part.spelled narrow
    refine ⟨spelled.ofBytes,?_⟩
    rw [Part.bytes,spelled.decode,part.read_iff narrow,portable_iff legible]
  · exact ⟨_,opened_encode recordable.storable,rfl,rfl,rfl,rfl,rfl,fun full => if_pos full⟩
  · intro id one options version id' two options' version' first second same
    have opens := @opened_encode id one options version first.storable
    rw [same,opened_encode second.storable] at opens
    exact (congrArg Opened.stores (Except.ok.inj opens)).symm

def half : Double := ⟨false,0x3FE0000000000000,by decide⟩

-- Half a second into the leap second at the end of 2016.
def leaping : Timestamp := ⟨⟨2016,12,31,23,59,59,1500000000⟩,by decide⟩

def spread : Globals := ⟨1,Map.empty.put "rate" [.float half,.text "1/2"]⟩
def spoiled : Globals := ⟨1,Map.empty.put "when" [.timestamp leaping]⟩

theorem spread_decoded :
    decode (Part.read .globals) (Part.globals spread).bytes = .ok (.globals spread) ∧
    decode (Part.read .globals) (Part.globals spoiled).bytes ≠ .ok (.globals spoiled) ∧
    (∃ o, opened (encode SessionId.zero Engine.paired ⟨.full,.always⟩ 3) = .ok o ∧ o.stores = Engine.paired.stores) ∧
    encode SessionId.zero Engine.paired .standard 3 ≠ encode SessionId.zero (Engine.new Engine.pairing) .standard 3 := by
  have paired : Recordable Engine.paired 3 := by
    have none : Engine.paired.stores.values = [] := by decide
    refine ⟨by decide,?_,?_⟩ <;> simp [none,Legible]
  have empty : Recordable (Engine.new Engine.pairing) 3 := by
    have none : (Engine.new Engine.pairing).stores.values = [] := by decide
    refine ⟨by decide,?_,?_⟩ <;> simp [none,Legible]
  have word : 1 < wordLimit := by decide
  have spreadValues : (Part.globals spread).values = [.float half,.text "1/2"] := by decide
  have spoiledValues : (Part.globals spoiled).values = [.timestamp leaping] := by decide
  refine ⟨(snapshot_decoded.1 (.globals spread) word ?_).2.mpr ?_,fun back => ?_,?_,fun same => ?_⟩
  · rw [spreadValues]
    intro x present _
    simp at present
    subst present
    decide +kernel
  · rw [spreadValues]
    simp [Value.Representable]
    decide
  · have all := (snapshot_decoded.1 (.globals spoiled) word (by simp [spoiledValues,Legible])).2.mp back
    rw [spoiledValues] at all
    have held : leaping.Portable := all (.timestamp leaping) List.mem_cons_self
    revert held
    decide
  · obtain ⟨o,opens,_,_,_,_,stores,_⟩ := snapshot_decoded.2.1 SessionId.zero Engine.paired ⟨.full,.always⟩ 3 paired
    exact ⟨o,opens,stores⟩
  · have stores := snapshot_decoded.2.2 _ _ _ _ _ _ _ _ paired empty same
    revert stores
    decide

end Snapshot
end DurableRules
