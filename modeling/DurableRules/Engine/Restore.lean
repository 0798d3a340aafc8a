import DurableRules.Engine.Operation

namespace DurableRules

inductive Inconsistency where
  | unallocated (cause : Unallocated)
  | wrongKind (memory : String) (handle : Handle) (kind : String)
  | deadHandle (memory : String) (handle : Handle)
  | missing (handle : Handle) (kind : String)
  | lateSequence (sequence next : Sequence)
  | unknownRule (activation : Activation)
  | stale (activation : Activation)
  | alreadyFired (activation : Activation)
deriving DecidableEq

def Inconsistency.detail : Inconsistency → String
  | unallocated cause => cause.message
  | wrongKind memory handle kind =>
    "alpha memory " ++ memory ++ " holds " ++ showHandle handle ++ " of type " ++ kind
  | deadHandle memory handle => "alpha memory " ++ memory ++ " holds dead handle " ++ showHandle handle
  | missing handle kind => "fact " ++ showHandle handle ++ " is missing from alpha memory " ++ kind
  | lateSequence sequence next =>
    "activation sequence " ++ showNat sequence ++ " is not below next sequence " ++ showNat next
  | unknownRule activation =>
    "pending activation " ++ activation.toText ++ " names a rule missing from the program"
  | stale activation => "pending activation " ++ activation.toText ++ " references a stale or dead fact"
  | alreadyFired activation => "pending activation " ++ activation.toText ++ " is already marked fired"

def Inconsistency.message (e : Inconsistency) : String := "inconsistent engine state: " ++ e.detail

def alphaFault (facts : Map Handle Fact) (alpha : Map String (Members Handle)) : Option Inconsistency :=
  alpha.rows.findSome? fun (memory,handles) => handles.toList.findSome? fun handle =>
    match facts.get? handle with
    | none => some (.deadHandle memory handle)
    | some fact => if fact.kind = memory then none else some (.wrongKind memory handle fact.kind)

def factFault (facts : Map Handle Fact) (alpha : Map String (Members Handle)) : Option Inconsistency :=
  facts.rows.findSome? fun (handle,fact) =>
    if (memory alpha fact.kind).contains handle then none else some (.missing handle fact.kind)

def agendaFault (program : Program) (roster : Roster) (network : Network) : Option Inconsistency :=
  network.agenda.rows.findSome? fun (sequence,activation) =>
    if network.nextSequence ≤ sequence then some (.lateSequence sequence network.nextSequence)
    else if (program.rule? activation.rule).isNone then some (.unknownRule activation)
    else if !roster.isCurrent activation then some (.stale activation)
    else if roster.hasFired activation then some (.alreadyFired activation)
    else none

def Stores.versions (stores : Stores) : Map Handle Version :=
  stores.facts.mapValues (fun _ stored => stored.version)

def Stores.roster (stores : Stores) : Except Inconsistency Roster :=
  match Roster.restore stores.nextHandle stores.versions stores.fired with
  | .ok roster => .ok roster
  | .error cause => .error (.unallocated cause)

namespace Engine

def replay (e : Engine) (row : Handle × StoredFact) : Engine :=
  (e.attach row.1 row.2.fact).propagate row.1

-- Every fact goes through the matcher again, in handle order.
def rebuild (program : Program) (stores : Stores) : Except Inconsistency Engine :=
  match stores.roster with
  | .error cause => .error cause
  | .ok roster =>
    let bare : Engine := ⟨program,Map.empty,roster,Network.empty,Map.empty,stores.globals⟩
    .ok (stores.facts.rows.foldl replay bare)

def adopt (program : Program) (stores : Stores) (network : Network) : Except Inconsistency Engine :=
  match stores.roster with
  | .error cause => .error cause
  | .ok roster =>
    let facts := stores.facts.mapValues (fun _ stored => stored.fact)
    match alphaFault facts network.alpha <|> factFault facts network.alpha <|>
        agendaFault program roster network with
    | some cause => .error cause
    | none => .ok ⟨program,facts,roster,network,Members.ofList network.agenda.values,stores.globals⟩

end Engine
end DurableRules
