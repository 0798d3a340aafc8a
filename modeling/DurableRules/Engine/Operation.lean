import DurableRules.Engine.Matching

namespace DurableRules

structure UnknownHandle where
  handle : Handle
deriving DecidableEq

def UnknownHandle.message (e : UnknownHandle) : String := "unknown fact handle: " ++ showHandle e.handle

namespace Engine

def insert (e : Engine) (fact : Fact) : Handle × Engine :=
  let (identity,roster) := e.roster.allocate
  (identity.handle,({ e with roster }.attach identity.handle fact).propagate identity.handle)

-- The handle stays and its version moves on, so the new value is matched afresh.
def update (e : Engine) (handle : Handle) (fact : Fact) : Except UnknownHandle Engine :=
  if e.roster.isLive handle then
    let cleared := (e.cancel handle).detach handle
    .ok (({ cleared with roster := (cleared.roster.bump handle).2 }.attach handle fact).propagate handle)
  else .error ⟨handle⟩

-- Whether there is a fact is only seen after what is pending with it was withdrawn.
def retract (e : Engine) (handle : Handle) : Except UnknownHandle Fact × Engine :=
  if e.roster.isLive handle then
    let cleared := e.cancel handle
    match cleared.facts.get? handle with
    | none => (.error ⟨handle⟩,cleared)
    | some fact =>
      let cleared := cleared.detach handle
      (.ok fact,{ cleared with roster := (cleared.roster.retire handle).2 })
  else (.error ⟨handle⟩,e)

def delete (e : Engine) (handle : Handle) : Except UnknownHandle (Fact × Engine) :=
  match e.retract handle with
  | (.ok fact,next) => .ok (fact,next)
  | (.error cause,_) => .error cause

def clear (e : Engine) (name : String) : Bool × Engine :=
  (!(e.global name).isEmpty,{ e with globals := e.globals.erase name })

def pushGlobal (e : Engine) (entry : String × Value) : Engine :=
  { e with globals := e.globals.put entry.1 (e.global entry.1 ++ [entry.2]) }

def deleteLive (e : Engine) (handle : Handle) : Engine := (e.retract handle).2

def apply (e : Engine) (effects : Effects) : Engine :=
  let pushed := effects.pushes.foldl pushGlobal e
  let inserted := effects.inserts.foldl (fun e fact => (e.insert fact).2) pushed
  effects.deletes.foldl deleteLive inserted

def ready (e : Engine) (activation : Activation) : Option (Rule × Match) :=
  if e.roster.isCurrent activation && !e.roster.hasFired activation then
    (e.program.rule? activation.rule).bind fun rule =>
      let facts := e.matched (activation.tuple.map Identity.handle)
      if facts.length = activation.tuple.length then some (rule,facts) else none
  else none

-- The head of the agenda is taken off. If it may fire, its action runs and its
-- marker is recorded, in this order, and what the action asks for is left to do.
def take? (e : Engine) : Option (Option (Activation × Effects) × Engine) :=
  match e.network.agenda.pop? with
  | none => none
  | some ((_,activation),agenda) =>
    let taken : Engine := { e with
      network := { e.network with agenda }
      queued := e.queued.erase activation }
    match taken.ready activation with
    | none => some (none,taken)
    | some (rule,facts) =>
      let effects := rule.action facts
      some (some (activation,effects),{ taken with roster := (taken.roster.record activation).2 })

def step (e : Engine) : Option (Option Activation × Engine) :=
  match e.take? with
  | none => none
  | some (none,next) => some (none,next)
  | some (some (activation,effects),next) => some (some activation,next.apply effects)

def fire : Nat → Engine → List Activation × Engine
  | 0, e => ([],e)
  | limit + 1, e =>
    match e.step with
    | none => ([],e)
    | some (fired,next) =>
      let (later,last) := fire limit next
      (fired.toList ++ later,last)

end Engine
end DurableRules
