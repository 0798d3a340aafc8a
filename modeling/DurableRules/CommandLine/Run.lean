import DurableRules.CommandLine.Arguments
import DurableRules.CommandLine.Report
import DurableRules.Session.Registry
import DurableRules.Store.Route
import DurableRules.Store.RowFile

namespace DurableRules

namespace Walkthrough

def name (facts : Match) (position : Nat) (field : String) : Option String :=
  (facts[position]?).bind fun row => row.2.text? field

def rule : Rule where
  name := "prefix_match"
  patterns := ["String","Person"]
  condition := fun facts =>
    match name facts 0 "value", name facts 1 "name" with
    | some start, some full => start.toList.isPrefixOf full.toList
    | _, _ => false
  action := fun facts => Effects.none.push "results" (.text ((name facts 1 "name").getD ""))

def program : Program := Program.ofRules [rule]

def person (name : String) (age : Int64) : Fact :=
  ((Fact.mk "Person" Map.empty).set "name" (.text name)).set "age" (.int age)

end Walkthrough

structure Printed where
  lines : List String
  failure : Option Report

-- A command over a store: the lines so far are kept when it fails.
abbrev Script (σ : Type) := ExceptT Report (StateM (List String × Registry σ))

namespace Script
variable {σ : Type} [Store σ]

def line (text : String) : Script σ Unit := modify fun (lines,r) => (lines ++ [text],r)

def manage {α : Type} (act : Registry σ → Except SessionError α × Registry σ) : Script σ α := do
  let (lines,r) ← get
  let (answer,r) := act r
  set (lines,r)
  match answer with
  | .ok value => return value
  | .error e => throw (Report.ofSession e)

def inspect {α : Type} (id : SessionId) (look : Engine → α) : Script σ α :=
  manage fun r => ((r.session? id).map (fun s => look s.engine),r)

def header (id : SessionId) : Script σ (Option Snapshot.Header) := do
  let (lines,r) ← get
  let (answer,store) := Recovery.readHeader id r.store
  set (lines,{ r with store })
  match answer with
  | .ok header => return header
  | .error e => throw (Report.ofRecovery e)

-- No action of the program inserts, so all that is pending is all that fires.
def fire (id : SessionId) : Script σ Nat := do
  let limit ← inspect id (fun e => e.pending.length)
  match ← manage (·.send id (.fire limit)) with
  | .fired count => return count
  | _ => return 0

def valuesTree (values : List Value) : Json.Tree := .array (values.map Value.toTree)

def demo (id : SessionId) (options : Options) : Script σ Unit := do
  let _ ← manage (·.create id Walkthrough.program options)
  line ("session " ++ id.toText ++ " (" ++ options.persistence.name ++ " / " ++ options.safepoint.name ++ ")")
  let _ ← manage (·.send id (.insert (Fact.ofText "M")))
  let _ ← manage (·.send id (.insert (Walkthrough.person "Matching Person One" 37)))
  line ("fired " ++ showNat (← fire id) ++ " before failover")
  let _ ← manage (·.send id (.insert (Walkthrough.person "Matching Person Two" 35)))
  let _ ← manage (·.send id .safepoint)
  modify fun (lines,r) => (lines,r.failover)
  let _ ← manage (·.restore id Walkthrough.program options)
  line ("fired " ++ showNat (← fire id) ++ " after restore")
  let results ← inspect id (·.global "results")
  (Report.textLines (String.ofList ((valuesTree results).lines 0))).forM line

def sessions : Script σ Unit := do
  for id in ← manage (·.stored) do
    match ← header id with
    | some header => line (id.toText ++ "  state_version=" ++ showNat header.stateVersion ++ "  " ++
        header.persistence.name ++ " / " ++ header.safepoint.name)
    | none => line (id.toText ++ "  (no header)")

def «show» (id : SessionId) : Script σ Unit := do
  match ← header id with
  | none => throw ⟨"no snapshot stored for session " ++ id.toText,[]⟩
  | some header =>
    let _ ← manage (·.restore id Walkthrough.program header.options)
    for (handle,fact) in ← inspect id (·.facts.rows) do
      line (showHandle handle ++ "  " ++ fact.toTree.text)
    line ("results: " ++ (valuesTree (← inspect id (·.global "results"))).text)
    line ("pending activations: " ++ showNat (← inspect id (·.pending.length)))

def destroy (id : SessionId) : Script σ Unit := do
  manage (·.destroy id)
  line ("destroyed " ++ id.toText)

def perform (fresh : SessionId) (options : Options) : Action → Script σ Unit
  | .demo => demo fresh options
  | .sessions => sessions
  | .show id => «show» id
  | .destroy id => destroy id

def run (script : Script σ Unit) (store : σ) : Printed × σ :=
  let (answer,lines,r) := script ([],Registry.new store)
  match answer with
  | .ok _ => (⟨lines,none⟩,r.store)
  | .error report => (⟨lines,some report⟩,r.store)

end Script

namespace Invocation

-- The environment must be in order by itself before the flags replace parts of it.
def settings (lookup : String → Option String) (flags : Flags) : Except Report Settings :=
  match Settings.ofEnvironment lookup with
  | .error e => .error (Report.ofSettings e)
  | .ok found =>
    let settings := flags.apply found
    match settings.options.validate with
    | .ok _ => .ok settings
    | .error e => .error ⟨e.message,[]⟩

def failed (report : Report) : Printed := ⟨[],some report⟩

def performAt (home : Path) (fresh : SessionId) (settings : Settings) (action : Action) (disk : Node) :
    Printed × Node :=
  match settings.store with
  | .memory => ((Script.run (Script.perform fresh settings.options action) Memory.empty).1,disk)
  | .file =>
    match Directory.open disk home with
    | .error e => (failed (Report.ofOpening e),disk)
    | .ok store =>
      let (printed,store) := Script.run (Script.perform fresh settings.options action) store
      (printed,store.disk)
  | .sqlite =>
    match Table.open disk home with
    | .error e => (failed (Report.ofOpening e),disk)
    | .ok (store,disk) =>
      let (printed,store) := Script.run (Script.perform fresh settings.options action) store
      (printed,store.save disk home)

def perform (fresh : SessionId) (settings : Settings) (action : Action) (disk : Node) : Printed × Node :=
  let route := Route.ofText settings.home
  if settings.store = .memory then performAt [] fresh settings action disk
  else match route.travel disk with
    | (.error _,disk) => (failed (Report.ofOpening .io),disk)
    | (.ok _,disk) => performAt (Route.destination [] route) fresh settings action disk

def versionLine : String := "ruleward 0.1.0"

def run (fresh : SessionId) (lookup : String → Option String) (invocation : Invocation) (disk : Node) :
    Printed × Node :=
  match invocation with
  | .version => (⟨[versionLine],none⟩,disk)
  | .command flags action =>
    match settings lookup flags with
    | .error report => (failed report,disk)
    | .ok settings => perform fresh settings action disk

end Invocation
end DurableRules
