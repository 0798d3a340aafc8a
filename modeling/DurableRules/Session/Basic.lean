import DurableRules.Checkpoint
import DurableRules.Recovery

namespace DurableRules

inductive SessionError where
  | configuration (cause : StrategyError)
  | unknownHandle (id : SessionId) (handle : Handle)
  | persistence (cause : StoreError)
  | recovery (cause : RecoveryError)
  | store (cause : StoreError)
  | unknownSession (id : SessionId)
  | sessionExists (id : SessionId)
  | closed
deriving DecidableEq

def SessionError.message : SessionError → String
  | configuration cause => "configuration error: " ++ cause.message
  | unknownHandle id handle => "unknown fact handle " ++ showHandle handle ++ " in session " ++ id.toText
  | persistence cause => "persistence error: store error: " ++ cause.message
  | recovery cause => "recovery error: " ++ cause.message
  | store cause => "store error: " ++ cause.message
  | unknownSession id => "session is not live: " ++ id.toText
  | sessionExists id => "session is already live: " ++ id.toText
  | closed => "session actor channel closed"

-- Firing comes with a limit on the activations that are taken from the agenda.
inductive Command where
  | insert (fact : Fact)
  | update (handle : Handle) (fact : Fact)
  | delete (handle : Handle)
  | fire (limit : Nat)
  | clear (name : String)
  | safepoint
  | discard

inductive Outcome where
  | inserted (handle : Handle)
  | updated
  | deleted (fact : Fact)
  | fired (count : Nat)
  | cleared (held : Bool)
  | checkpointed (wrote : Bool)
  | discarded
deriving DecidableEq

def Outcome.mutated : Outcome → Bool
  | inserted _ | updated | deleted _ => true
  | fired count => 0 < count
  | cleared held => held
  | checkpointed _ | discarded => false

structure Session where
  engine : Engine
  writer : Writer
  stateVersion : Nat

namespace Session

def id (s : Session) : SessionId := s.writer.id
def options (s : Session) : Options := s.writer.options

-- What a command other than a safepoint or a discard does to the engine, also
-- when it is refused.
def operate (e : Engine) : Command → Except (UnknownHandle × Engine) (Outcome × Engine)
  | .insert fact =>
    let (handle,next) := e.insert fact
    .ok (.inserted handle,next)
  | .update handle fact =>
    match e.update handle fact with
    | .ok next => .ok (.updated,next)
    | .error cause => .error (cause,e)
  | .delete handle =>
    match e.retract handle with
    | (.ok fact,next) => .ok (.deleted fact,next)
    | (.error cause,next) => .error (cause,next)
  | .fire limit =>
    let (fired,next) := e.fire limit
    .ok (.fired fired.length,next)
  | .clear name =>
    let (held,next) := e.clear name
    .ok (.cleared held,next)
  | .safepoint => .ok (.checkpointed false,e)
  | .discard => .ok (.discarded,e)

-- A mutation takes place in memory and is then handed to the writer. When that
-- fails the mutation stays and only its durability is in question.
def mutate {σ : Type} [Store σ] (s : Session) (command : Command) (store : σ) :
    Except SessionError Outcome × Session × σ :=
  match operate s.engine command with
  | .error (cause,engine) => (.error (.unknownHandle s.id cause.handle),{ s with engine },store)
  | .ok (outcome,engine) =>
    if outcome.mutated then
      let version := s.stateVersion + 1
      match s.writer.afterMutation engine version store with
      | (.ok (_,writer),store) => (.ok outcome,⟨engine,writer,version⟩,store)
      | (.error e,store) => (.error (.persistence e),⟨engine,s.writer,version⟩,store)
    else (.ok outcome,{ s with engine },store)

def process {σ : Type} [Store σ] (s : Session) (command : Command) (store : σ) :
    Except SessionError Outcome × Session × σ :=
  match command with
  | .safepoint =>
    match s.writer.safepoint s.engine s.stateVersion store with
    | (.ok (wrote,writer),store) => (.ok (.checkpointed wrote),{ s with writer },store)
    | (.error e,store) => (.error (.persistence e),s,store)
  | .discard =>
    match s.writer.discard store with
    | (.ok writer,store) => (.ok .discarded,{ s with writer },store)
    | (.error e,store) => (.error (.store e),s,store)
  | command => s.mutate command store

end Session
end DurableRules
