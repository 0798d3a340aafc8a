import DurableRules.Engine.Basic

namespace DurableRules

def memory (alpha : Map String (Members Handle)) (kind : String) : List Handle :=
  match alpha.get? kind with
  | some handles => handles.toList
  | none => []

-- Every choice of one handle per slot, no handle twice, in lexicographic order.
def choices (used : List Handle) : List (List Handle) → List (List Handle)
  | [] => [[]]
  | slot :: rest =>
    (slot.filter (fun handle => !used.contains handle)).flatMap fun handle =>
      (choices (handle :: used) rest).map (handle :: ·)

def slots (alpha : Map String (Members Handle)) (patterns : List String) (position : Nat)
    (handle : Handle) : List (List Handle) :=
  patterns.zipIdx.map fun (pattern,index) =>
    if index = position then [handle] else (memory alpha pattern).filter (· != handle)

def tuplesWith (alpha : Map String (Members Handle)) (patterns : List String) (position : Nat)
    (handle : Handle) : List (List Handle) :=
  choices [] (slots alpha patterns position handle)

-- What a fact of a kind may complete: by rule, then by the position it takes,
-- then by the other handles.
def candidates (rules : List Rule) (alpha : Map String (Members Handle)) (kind : String)
    (handle : Handle) : List (Rule × List Handle) :=
  rules.flatMap fun rule => rule.patterns.zipIdx.flatMap fun (pattern,position) =>
    if pattern = kind then (tuplesWith alpha rule.patterns position handle).map (rule,·) else []

namespace Engine

def matched (e : Engine) (handles : List Handle) : Match :=
  handles.filterMap (fun handle => (e.facts.get? handle).map (handle,·))

def enqueue (e : Engine) (activation : Activation) : Engine :=
  { e with
    network := { e.network with
      agenda := e.network.agenda.put e.network.nextSequence activation
      nextSequence := e.network.nextSequence + 1 }
    queued := e.queued.insert activation }

def due (e : Engine) (candidate : Rule × List Handle) : Option Activation :=
  match candidate.2.mapM e.roster.identity with
  | none => none
  | some tuple =>
    let activation : Activation := ⟨candidate.1.name,tuple⟩
    if e.queued.contains activation || e.roster.hasFired activation then none
    else if candidate.1.condition (e.matched candidate.2) then some activation
    else none

def consider (e : Engine) (candidate : Rule × List Handle) : Engine :=
  match e.due candidate with
  | none => e
  | some activation => e.enqueue activation

def propagate (e : Engine) (handle : Handle) : Engine :=
  match e.facts.get? handle with
  | none => e
  | some fact => (candidates e.program.rules e.network.alpha fact.kind handle).foldl consider e

def attach (e : Engine) (handle : Handle) (fact : Fact) : Engine :=
  let handles := (e.network.alpha.get? fact.kind).getD Map.empty
  { e with
    facts := e.facts.put handle fact
    network := { e.network with alpha := e.network.alpha.put fact.kind (handles.insert handle) } }

def forget (alpha : Map String (Members Handle)) (kind : String) (handle : Handle) :
    Map String (Members Handle) :=
  match alpha.get? kind with
  | none => alpha
  | some handles =>
    let rest := handles.erase handle
    if rest.isEmpty then alpha.erase kind else alpha.put kind rest

def detach (e : Engine) (handle : Handle) : Engine :=
  match e.facts.get? handle with
  | none => e
  | some fact => { e with
    facts := e.facts.erase handle
    network := { e.network with alpha := forget e.network.alpha fact.kind handle } }

def cancel (e : Engine) (handle : Handle) : Engine :=
  { e with
    network := { e.network with
      agenda := e.network.agenda.filter (fun _ activation => !activation.involves handle) }
    queued := e.queued.filter (fun activation _ => !activation.involves handle) }

end Engine
end DurableRules
