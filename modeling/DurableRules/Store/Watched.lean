import DurableRules.Store.Basic

namespace DurableRules

inductive Request where
  | put (tag : Tag)
  | get (tag : Tag)
  | delete (tag : Tag)
  | sessions
deriving DecidableEq

def Request.toText : Request → String
  | put tag => "put " ++ tag.name
  | get tag => "get " ++ tag.name
  | delete tag => "delete " ++ tag.name
  | sessions => "sessions"

structure Event where
  request : Request
  refused : Bool
deriving DecidableEq

def Event.toText (event : Event) : String :=
  if event.refused then event.request.toText ++ " failed" else event.request.toText

-- A store whose calls are recorded. Some of the calls are refused, by their
-- number, and a refused call has no effect.
structure Watched (σ : Type) where
  store : σ
  events : List Event
  asked : Nat
  refuses : Nat → Bool

namespace Watched

def unlimited {σ : Type} (store : σ) : Watched σ := ⟨store,[],0,fun _ => false⟩

-- From now on so many calls pass and all later ones are refused. Without a
-- number every call passes.
def allow {σ : Type} (w : Watched σ) (calls : Option Nat) : Watched σ :=
  match calls with
  | none => { w with refuses := fun _ => false }
  | some count => { w with refuses := fun number => w.asked + count ≤ number }

def ask {σ α : Type} (request : Request) (call : Call σ α) : Call (Watched σ) α := fun w =>
  let next := { w with asked := w.asked + 1, events := w.events ++ [⟨request,w.refuses w.asked⟩] }
  if w.refuses w.asked then (.error (.unavailable "injected failure"),next)
  else
    let (answer,store) := call w.store
    (answer,{ next with store })

instance {σ : Type} [Store σ] : Store (Watched σ) where
  put id tag bytes := ask (.put tag) (Store.put id tag bytes)
  get id tag := ask (.get tag) (Store.get id tag)
  delete id tag := ask (.delete tag) (Store.delete id tag)
  sessions := ask .sessions Store.sessions

end Watched
end DurableRules
