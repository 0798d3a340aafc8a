import DurableRules.Engine.Basic
import DurableRules.SessionId
import DurableRules.Strategy

namespace DurableRules.Snapshot

def formatVersion : Nat := 1

-- Written last, so its presence marks a complete snapshot.
structure Header where
  formatVersion : Nat
  id : SessionId
  stateVersion : Nat
  persistence : Persistence
  safepoint : Safepoint
  rules : List String
  nextHandle : Handle
deriving DecidableEq

def Header.options (header : Header) : Options := ⟨header.persistence,header.safepoint⟩

structure FactEntry where
  handle : Handle
  version : Version
  fact : Fact
deriving DecidableEq

structure Facts where
  stateVersion : Nat
  facts : List FactEntry
deriving DecidableEq

structure Markers where
  stateVersion : Nat
  fired : Members Activation
deriving DecidableEq

structure Globals where
  stateVersion : Nat
  globals : DurableRules.Globals
deriving DecidableEq

structure Propagation where
  stateVersion : Nat
  network : Network
deriving DecidableEq

-- Of two entries for one handle the later counts.
def stores (header : Header) (facts : Facts) (markers : Markers) (globals : Globals) : Stores where
  nextHandle := header.nextHandle
  facts := Map.ofList (facts.facts.map fun entry => (entry.handle,⟨entry.version,entry.fact⟩))
  fired := markers.fired
  globals := globals.globals

end DurableRules.Snapshot
