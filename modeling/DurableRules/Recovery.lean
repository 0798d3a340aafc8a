import DurableRules.Engine.Restore
import DurableRules.Snapshot.Codec

namespace DurableRules

inductive RecoveryError where
  | notFound (id : SessionId)
  | store (cause : StoreError)
  | missingComponent (id : SessionId) (tag : Tag)
  | decode (tag : Tag) (cause : Json.Refusal)
  | unsupportedFormat (found : Nat)
  | sessionMismatch (expected found : SessionId)
  | torn (tag : Tag) (expected found : Nat)
  | engine (cause : Inconsistency)
deriving DecidableEq

def Json.Refusal.suffix : Json.Refusal → String
  | malformed => ""
  | timestamp cause => ": " ++ cause.message

def RecoveryError.message : RecoveryError → String
  | notFound id => "no snapshot stored for session " ++ id.toText
  | store cause => "store error: " ++ cause.message
  | missingComponent id tag => "component " ++ tag.name ++ " of session " ++ id.toText ++ " is missing"
  | decode tag cause => "failed to decode component " ++ tag.name ++ cause.suffix
  | unsupportedFormat found => "unsupported snapshot format version " ++ showNat found ++
      " (expected " ++ showNat Snapshot.formatVersion ++ ")"
  | sessionMismatch expected found =>
    "snapshot header names session " ++ found.toText ++ ", expected " ++ expected.toText
  | torn tag expected found => "torn snapshot: " ++ tag.name ++ " is at state version " ++ showNat found ++
      ", header is at " ++ showNat expected
  | engine cause => "engine error: " ++ cause.message

abbrev Recovery (σ : Type) := ExceptT RecoveryError (StateM σ)

namespace Recovery

def fetch {σ : Type} [Store σ] (id : SessionId) (tag : Tag) : Recovery σ (Option ByteArray) :=
  ExceptT.adapt RecoveryError.store (Store.get id tag)

def orFail {σ α : Type} : Except RecoveryError α → Recovery σ α := fun answer => ExceptT.mk (pure answer)

def decoded {α : Type} (reader : Json.Reader α) (tag : Tag) (bytes : ByteArray) : Except RecoveryError α :=
  match Json.decode reader bytes with
  | .ok value => .ok value
  | .error cause => .error (.decode tag cause)

def readHeader {σ : Type} [Store σ] (id : SessionId) : Recovery σ (Option Snapshot.Header) := do
  match ← fetch id .header with
  | none => return none
  | some bytes => return some (← orFail (decoded Snapshot.Header.read .header bytes))

def checkHeader (id : SessionId) (header : Snapshot.Header) : Except RecoveryError Unit :=
  if header.formatVersion ≠ Snapshot.formatVersion then .error (.unsupportedFormat header.formatVersion)
  else if header.id ≠ id then .error (.sessionMismatch id header.id)
  else .ok ()

-- A component of another state version belongs to another checkpoint.
def load {σ α : Type} [Store σ] (header : Snapshot.Header) (id : SessionId) (tag : Tag)
    (reader : Json.Reader α) (version : α → Nat) : Recovery σ α := do
  match ← fetch id tag with
  | none => throw (.missingComponent id tag)
  | some bytes =>
    let part ← orFail (decoded reader tag bytes)
    if version part = header.stateVersion then return part
    else throw (.torn tag header.stateVersion (version part))

def orInconsistent {α : Type} : Except Inconsistency α → Except RecoveryError α
  | .ok value => .ok value
  | .error cause => .error (.engine cause)

structure Recovered where
  engine : Engine
  header : Snapshot.Header

-- The header and then the components that must agree with it. The agenda is
-- adopted from the network or computed again from the stores.
def recover {σ : Type} [Store σ] (id : SessionId) (program : Program) (persistence : Persistence) :
    Recovery σ Recovered := do
  match ← readHeader id with
  | none => throw (.notFound id)
  | some header =>
    orFail (checkHeader id header)
    let facts ← load header id .facts Snapshot.Facts.read (·.stateVersion)
    let markers ← load header id .markers Snapshot.Markers.read (·.stateVersion)
    let globals ← load header id .globals Snapshot.Globals.read (·.stateVersion)
    let stores := Snapshot.stores header facts markers globals
    match persistence with
    | .full =>
      let part ← load header id .network Snapshot.Propagation.read (·.stateVersion)
      return ⟨← orFail (orInconsistent (Engine.adopt program stores part.network)),header⟩
    | .storesOnly => return ⟨← orFail (orInconsistent (Engine.rebuild program stores)),header⟩

end Recovery
end DurableRules
