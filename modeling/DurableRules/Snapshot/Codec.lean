import DurableRules.Json.Read
import DurableRules.Snapshot.Component
import DurableRules.Store.Basic

namespace DurableRules
open Json

def readWord : Reader Nat := readNat wordLimit

inductive ValueType where
  | text
  | int
  | float
  | bool
  | timestamp
deriving DecidableEq

namespace ValueType

def name : ValueType → String
  | text => "Text"
  | int => "Int"
  | float => "Float"
  | bool => "Bool"
  | timestamp => "Timestamp"

def ofName? (name : String) : Option ValueType :=
  [text,int,float,bool,timestamp].find? (·.name == name)

def read : ValueType → Reader Value
  | text => fun tree => (readString tree).map .text
  | int => fun tree => (readInt tree).map .int
  | float => fun tree => (readDouble tree).map .float
  | bool => fun tree => (readBool tree).map .bool
  | timestamp => fun tree => (readTimestamp tree).map .timestamp

end ValueType

namespace Value

def type : Value → ValueType
  | text _ => .text
  | int _ => .int
  | float _ => .float
  | bool _ => .bool
  | timestamp _ => .timestamp

def content : Value → Tree
  | text content => Json.string content
  | int number => Json.int number
  | float number => Json.double number
  | bool truth => .bool truth
  | timestamp time => Json.string time.toText

def toTree (value : Value) : Tree :=
  Json.record [("type",Json.string value.type.name),("value",value.content)]

-- What is known of a value between its members. Content that comes before its
-- type waits for it.
inductive Draft where
  | nothing
  | typed (type : ValueType)
  | waiting (content : Tree)
  | done (value : Value)

def fill (draft : Draft) (name : String) (tree : Tree) : Except Refusal Draft :=
  if name = "type" then
    match draft with
    | .nothing => (readName ValueType.ofName? tree).map .typed
    | .waiting content => do return .done (← (← readName ValueType.ofName? tree).read content)
    | _ => malformed
  else if name = "value" then
    match draft with
    | .nothing => .ok (.waiting tree)
    | .typed type => (type.read tree).map .done
    | _ => malformed
  else if tree.whole then .ok draft
  else malformed

def readMembers : Draft → List (List Piece × Tree) → Except Refusal Value
  | .done value, [] => .ok value
  | _, [] => malformed
  | draft, (pieces,tree) :: rest => do readMembers (← fill draft (← strict pieces) tree) rest

def readType : Reader ValueType := fun tree => do orMalformed (ValueType.ofName? (← readString tree))

def read : Reader Value
  | .object members => readMembers .nothing members
  | .array [type,content] => do (← readType type).read content
  | .array (type :: content :: _) => do
    let _ ← (← readType type).read content
    malformed
  | _ => malformed

end Value

def readKey : List Piece → Except Refusal String := strict

def mapTree {ν : Type} (item : ν → Tree) (map : Map String ν) : Tree :=
  .object (map.rows.map fun (key,value) => (pieces key,item value))

namespace Fact

def toTree (fact : Fact) : Tree :=
  Json.record [("kind",Json.string fact.kind),("fields",mapTree Value.toTree fact.fields)]

def read : Reader Fact := readRecord ["kind","fields"] ⟨"",Map.empty⟩ fun draft name tree =>
  if name = "kind" then do return { draft with kind := ← readString tree }
  else do return { draft with fields := ← readMap readKey Value.read tree }

end Fact

namespace StoredFact

def toTree (stored : StoredFact) : Tree :=
  Json.record [("version",Json.nat stored.version),("fact",stored.fact.toTree)]

def read : Reader StoredFact :=
  readRecord ["version","fact"] ⟨0,⟨"",Map.empty⟩⟩ fun draft name tree =>
    if name = "version" then do return { draft with version := ← readWord tree }
    else do return { draft with fact := ← Fact.read tree }

end StoredFact

namespace Identity

def toTree (identity : Identity) : Tree :=
  Json.record [("handle",Json.nat identity.handle),("version",Json.nat identity.version)]

def read : Reader Identity := readRecord ["handle","version"] ⟨0,0⟩ fun draft name tree =>
  if name = "handle" then do return { draft with handle := ← readWord tree }
  else do return { draft with version := ← readWord tree }

end Identity

namespace Activation

def toTree (activation : Activation) : Tree :=
  Json.record [("rule",Json.string activation.rule),
    ("tuple",.array (activation.tuple.map Identity.toTree))]

def read : Reader Activation := readRecord ["rule","tuple"] ⟨"",[]⟩ fun draft name tree =>
  if name = "rule" then do return { draft with rule := ← readString tree }
  else do return { draft with tuple := ← readList Identity.read tree }

end Activation

namespace Options

def toTree (options : Options) : Tree :=
  Json.record [("persistence",Json.string options.persistence.name),
    ("safepoint",Json.string options.safepoint.name)]

def read : Reader Options := readRecord ["persistence","safepoint"] standard fun draft name tree =>
  if name = "persistence" then do return { draft with persistence := ← readName Persistence.ofName? tree }
  else do return { draft with safepoint := ← readName Safepoint.ofName? tree }

end Options

namespace Network

def agendaTree (agenda : Map Sequence Activation) : Tree :=
  .object (agenda.rows.map fun (sequence,activation) =>
    ((Text.decimal sequence).map Piece.plain,activation.toTree))

def toTree (network : Network) : Tree :=
  Json.record [
    ("alpha",mapTree (fun handles => .array (handles.toList.map Json.nat)) network.alpha),
    ("agenda",agendaTree network.agenda),
    ("next_sequence",Json.nat network.nextSequence)]

def readHandles : Reader (Members Handle) := fun tree => (readList readWord tree).map Members.ofList

def read : Reader Network :=
  readRecord ["alpha","agenda","next_sequence"] empty fun draft name tree =>
    if name = "alpha" then do return { draft with alpha := ← readMap readKey readHandles tree }
    else if name = "agenda" then do
      return { draft with agenda := ← readMap (numberKey wordLimit) Activation.read tree }
    else do return { draft with nextSequence := ← readWord tree }

end Network

def SessionId.read : Reader SessionId := fun tree => do
  orMalformed (SessionId.ofText? (← readString tree))

namespace Snapshot

namespace Header

def toTree (header : Header) : Tree :=
  Json.record [
    ("format_version",Json.nat header.formatVersion),
    ("session_id",Json.string header.id.toText),
    ("state_version",Json.nat header.stateVersion),
    ("persistence",Json.string header.persistence.name),
    ("safepoint",Json.string header.safepoint.name),
    ("rules",.array (header.rules.map Json.string)),
    ("next_handle",Json.nat header.nextHandle)]

def fields : List String :=
  ["format_version","session_id","state_version","persistence","safepoint","rules","next_handle"]

def read : Reader Header :=
  readRecord fields ⟨0,SessionId.zero,0,.full,.always,[],0⟩ fun draft name tree =>
    match name with
    | "format_version" => do return { draft with formatVersion := ← readNat 0x100000000 tree }
    | "session_id" => do return { draft with id := ← SessionId.read tree }
    | "state_version" => do return { draft with stateVersion := ← readWord tree }
    | "persistence" => do return { draft with persistence := ← readName Persistence.ofName? tree }
    | "safepoint" => do return { draft with safepoint := ← readName Safepoint.ofName? tree }
    | "rules" => do return { draft with rules := ← readList readString tree }
    | _ => do return { draft with nextHandle := ← readWord tree }

end Header

namespace FactEntry

def toTree (entry : FactEntry) : Tree :=
  Json.record [("handle",Json.nat entry.handle),("version",Json.nat entry.version),
    ("fact",entry.fact.toTree)]

def read : Reader FactEntry :=
  readRecord ["handle","version","fact"] ⟨0,0,⟨"",Map.empty⟩⟩ fun draft name tree =>
    if name = "handle" then do return { draft with handle := ← readWord tree }
    else if name = "version" then do return { draft with version := ← readWord tree }
    else do return { draft with fact := ← Fact.read tree }

end FactEntry

namespace Facts

def toTree (facts : Facts) : Tree :=
  Json.record [("state_version",Json.nat facts.stateVersion),
    ("facts",.array (facts.facts.map FactEntry.toTree))]

def read : Reader Facts := readRecord ["state_version","facts"] ⟨0,[]⟩ fun draft name tree =>
  if name = "state_version" then do return { draft with stateVersion := ← readWord tree }
  else do return { draft with facts := ← readList FactEntry.read tree }

end Facts

namespace Markers

def toTree (markers : Markers) : Tree :=
  Json.record [("state_version",Json.nat markers.stateVersion),
    ("fired",.array (markers.fired.toList.map Activation.toTree))]

def read : Reader Markers := readRecord ["state_version","fired"] ⟨0,Map.empty⟩ fun draft name tree =>
  if name = "state_version" then do return { draft with stateVersion := ← readWord tree }
  else do return { draft with fired := Members.ofList (← readList Activation.read tree) }

end Markers

namespace Globals

def toTree (globals : Globals) : Tree :=
  Json.record [("state_version",Json.nat globals.stateVersion),
    ("globals",mapTree (fun values => .array (values.map Value.toTree)) globals.globals)]

def read : Reader Globals := readRecord ["state_version","globals"] ⟨0,Map.empty⟩ fun draft name tree =>
  if name = "state_version" then do return { draft with stateVersion := ← readWord tree }
  else do return { draft with globals := ← readMap readKey (readList Value.read) tree }

end Globals

namespace Propagation

def toTree (part : Propagation) : Tree :=
  Json.record [("state_version",Json.nat part.stateVersion),("network",part.network.toTree)]

def read : Reader Propagation :=
  readRecord ["state_version","network"] ⟨0,Network.empty⟩ fun draft name tree =>
    if name = "state_version" then do return { draft with stateVersion := ← readWord tree }
    else do return { draft with network := ← Network.read tree }

end Propagation

def header (id : SessionId) (e : Engine) (options : Options) (version : Nat) : Header :=
  ⟨formatVersion,id,version,options.persistence,options.safepoint,e.program.names,e.roster.nextHandle⟩

def factEntries (stores : Stores) : List FactEntry :=
  stores.facts.rows.map fun (handle,stored) => ⟨handle,stored.version,stored.fact⟩

-- The components of an engine in the order in which they are written. Only a
-- full snapshot has the network, and the header comes last.
def components (id : SessionId) (e : Engine) (options : Options) (version : Nat) : List (Tag × Tree) :=
  let stores := e.stores
  let bodies := [
    (Tag.facts,(Facts.mk version (factEntries stores)).toTree),
    (Tag.markers,(Markers.mk version stores.fired).toTree),
    (Tag.globals,(Globals.mk version stores.globals).toTree)]
  let network := match options.persistence with
    | .full => [(Tag.network,(Propagation.mk version e.network).toTree)]
    | .storesOnly => []
  bodies ++ network ++ [(Tag.header,(header id e options version).toTree)]

def encode (id : SessionId) (e : Engine) (options : Options) (version : Nat) : List (Tag × ByteArray) :=
  (components id e options version).map fun (tag,tree) => (tag,tree.text.toUTF8)

end Snapshot
end DurableRules
