import DurableRules.Engine.Restore

namespace DurableRules

-- What follows the last word is left to how the program is built: with checks
-- it stops there, and without them it goes on from zero.
inductive Build where
  | checked
  | wrapping
deriving DecidableEq

def Build.next (b : Build) (count : Nat) : Option Nat :=
  if count + 1 < wordLimit then some (count + 1)
  else
    match b with
    | checked => none
    | wrapping => some 0

namespace Roster

def allocateIn (b : Build) (r : Roster) : Option (Identity × Roster) := do
  let nextHandle ← b.next r.nextHandle
  return (⟨r.nextHandle,0⟩,{ r with nextHandle, versions := r.versions.put r.nextHandle 0 })

def bumpIn (b : Build) (r : Roster) (handle : Handle) : Option (Option Identity × Roster) :=
  match r.versions.get? handle with
  | none => some (none,r)
  | some version => do
    let version ← b.next version
    return (some ⟨handle,version⟩,{ r with versions := r.versions.put handle version })

end Roster

-- The operations of an engine whose numbers are words. There is no result
-- where the program stops.
namespace Engine

def enqueueIn (b : Build) (e : Engine) (activation : Activation) : Option Engine := do
  let nextSequence ← b.next e.network.nextSequence
  return { e with
    network := { e.network with
      agenda := e.network.agenda.put e.network.nextSequence activation
      nextSequence }
    queued := e.queued.insert activation }

def considerIn (b : Build) (e : Engine) (candidate : Rule × List Handle) : Option Engine :=
  match e.due candidate with
  | none => some e
  | some activation => e.enqueueIn b activation

def propagateIn (b : Build) (e : Engine) (handle : Handle) : Option Engine :=
  match e.facts.get? handle with
  | none => some e
  | some fact => (candidates e.program.rules e.network.alpha fact.kind handle).foldlM (considerIn b) e

def insertIn (b : Build) (e : Engine) (fact : Fact) : Option (Handle × Engine) := do
  let (identity,roster) ← e.roster.allocateIn b
  let next ← ({ e with roster }.attach identity.handle fact).propagateIn b identity.handle
  return (identity.handle,next)

def updateIn (b : Build) (e : Engine) (handle : Handle) (fact : Fact) : Option (Except UnknownHandle Engine) :=
  if e.roster.isLive handle then do
    let cleared := (e.cancel handle).detach handle
    let (_,roster) ← cleared.roster.bumpIn b handle
    let next ← ({ cleared with roster }.attach handle fact).propagateIn b handle
    return .ok next
  else some (.error ⟨handle⟩)

def applyIn (b : Build) (e : Engine) (effects : Effects) : Option Engine := do
  let pushed := effects.pushes.foldl pushGlobal e
  let inserted ← effects.inserts.foldlM (fun e fact => (e.insertIn b fact).map Prod.snd) pushed
  return effects.deletes.foldl deleteLive inserted

def stepIn (b : Build) (e : Engine) : Option (Option (Option Activation × Engine)) :=
  match e.take? with
  | none => some none
  | some (none,next) => some (some (none,next))
  | some (some (activation,effects),next) => (next.applyIn b effects).map fun last => some (some activation,last)

def fireIn (b : Build) : Nat → Engine → Option (List Activation × Engine)
  | 0, e => some ([],e)
  | limit + 1, e => do
    match ← e.stepIn b with
    | none => return ([],e)
    | some (fired,next) =>
      let (later,last) ← fireIn b limit next
      return (fired.toList ++ later,last)

def replayIn (b : Build) (e : Engine) (row : Handle × StoredFact) : Option Engine :=
  (e.attach row.1 row.2.fact).propagateIn b row.1

def rebuildIn (b : Build) (program : Program) (stores : Stores) : Option (Except Inconsistency Engine) :=
  match stores.roster with
  | .error cause => some (.error cause)
  | .ok roster => do
    let bare : Engine := ⟨program,Map.empty,roster,Network.empty,Map.empty,stores.globals⟩
    return .ok (← stores.facts.rows.foldlM (replayIn b) bare)

end Engine
end DurableRules
