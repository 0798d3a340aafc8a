import DurableRules.Session.Basic

namespace DurableRules

structure Registry (σ : Type) where
  store : σ
  live : Map SessionId Session

namespace Registry
variable {σ : Type} [Store σ]

def new (store : σ) : Registry σ := ⟨store,Map.empty⟩

def isLive (r : Registry σ) (id : SessionId) : Bool := r.live.contains id
def session? (r : Registry σ) (id : SessionId) : Except SessionError Session :=
  match r.live.get? id with
  | some s => .ok s
  | none => .error (.unknownSession id)

-- No header under the id, then no component at all, then the empty session if
-- every state is to be durable.
def prepare (id : SessionId) (program : Program) (options : Options) : ExceptT SessionError (StateM σ) Session := do
  if (← ExceptT.adapt SessionError.store (Store.get id .header)).isSome then throw (.sessionExists id)
  ExceptT.adapt SessionError.store (discard id)
  let engine := Engine.new program
  match options.safepoint with
  | .always =>
    let writer ← ExceptT.adapt SessionError.persistence ((Writer.new id options).write engine 0)
    return ⟨engine,writer,0⟩
  | .explicit => return ⟨engine,Writer.new id options,0⟩

def create (r : Registry σ) (id : SessionId) (program : Program) (options : Options) :
    Except SessionError SessionId × Registry σ :=
  match options.validate with
  | .error e => (.error (.configuration e),r)
  | .ok _ =>
    if r.isLive id then (.error (.sessionExists id),r)
    else
      match prepare id program options r.store with
      | (.ok s,store) => (.ok id,⟨store,r.live.put id s⟩)
      | (.error e,store) => (.error e,{ r with store })

-- The last complete snapshot becomes live in place of whatever was live.
def restore (r : Registry σ) (id : SessionId) (program : Program) (options : Options) :
    Except SessionError SessionId × Registry σ :=
  match options.validate with
  | .error e => (.error (.configuration e),r)
  | .ok _ =>
    match Recovery.recover id program options.persistence r.store with
    | (.ok found,store) =>
      let version := found.header.stateVersion
      (.ok id,⟨store,r.live.put id ⟨found.engine,.resumed id options version,version⟩⟩)
    | (.error e,store) => (.error (.recovery e),{ r with store })

-- A session whose header cannot be read or which does not recover is passed over.
def recoverOne (program : Program) (found : List SessionId × Registry σ) (id : SessionId) :
    List SessionId × Registry σ :=
  let (ids,r) := found
  match Recovery.readHeader id r.store with
  | (.ok (some header),store) =>
    match ({ r with store }).restore id program header.options with
    | (.ok id,r) => (ids ++ [id],r)
    | (.error _,r) => (ids,r)
  | (_,store) => (ids,{ r with store })

def recoverAll (r : Registry σ) (program : Program) : Except SessionError (List SessionId) × Registry σ :=
  match (Store.sessions : Call σ _) r.store with
  | (.error e,store) => (.error (.store e),{ r with store })
  | (.ok ids,store) =>
    let (recovered,r) := ids.foldl (recoverOne program) ([],{ r with store })
    (.ok recovered,r)

def send (r : Registry σ) (id : SessionId) (command : Command) : Except SessionError Outcome × Registry σ :=
  match r.session? id with
  | .error e => (.error e,r)
  | .ok s =>
    let (answer,s,store) := s.process command r.store
    (answer,⟨store,r.live.put id s⟩)

-- The session is no longer live, even when its snapshot cannot be deleted.
def destroy (r : Registry σ) (id : SessionId) : Except SessionError Unit × Registry σ :=
  match (discard id : Call σ Unit) r.store with
  | (.ok _,store) => (.ok (),⟨store,r.live.erase id⟩)
  | (.error e,store) => (.error (.store e),⟨store,r.live.erase id⟩)

-- The process is lost: no session is live and the store stays as it is.
def failover (r : Registry σ) : Registry σ := { r with live := Map.empty }

def stored (r : Registry σ) : Except SessionError (List SessionId) × Registry σ :=
  match (Store.sessions : Call σ _) r.store with
  | (.ok ids,store) => (.ok ids,{ r with store })
  | (.error e,store) => (.error (.store e),{ r with store })

end Registry
end DurableRules
