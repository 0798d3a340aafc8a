import DurableRules.Roster
import DurableRules.Rule

namespace DurableRules

abbrev Sequence := Nat

-- Alpha memories hold the handles of each kind. The agenda holds what is
-- pending, in the order in which it was scheduled.
structure Network where
  alpha : Map String (Members Handle)
  agenda : Map Sequence Activation
  nextSequence : Sequence
deriving DecidableEq

def Network.empty : Network := ⟨Map.empty,Map.empty,0⟩

-- What must be kept of an engine so that the rest can be computed again.
structure Stores where
  nextHandle : Handle
  facts : Map Handle StoredFact
  fired : Members Activation
  globals : Globals
deriving DecidableEq

structure Engine where
  program : Program
  facts : Map Handle Fact
  roster : Roster
  network : Network
  -- The activations of the agenda, for the test whether one is pending.
  queued : Members Activation
  globals : Globals

namespace Engine

def new (program : Program) : Engine :=
  ⟨program,Map.empty,Roster.empty,Network.empty,Map.empty,Map.empty⟩

def fact? (e : Engine) (handle : Handle) : Option Fact := e.facts.get? handle

def findHandle (e : Engine) (fact : Fact) : Option Handle :=
  (e.facts.rows.find? (fun row => row.2.same fact)).map Prod.fst

def global (e : Engine) (name : String) : List Value := (e.globals.get? name).getD []

def pending (e : Engine) : List Activation := e.network.agenda.values

def stores (e : Engine) : Stores where
  nextHandle := e.roster.nextHandle
  facts := e.facts.filterMapValues fun handle fact =>
    (e.roster.identity handle).map (fun i => ⟨i.version,fact⟩)
  fired := e.roster.fired
  globals := e.globals

end Engine
end DurableRules
