import DurableRules.Snapshot.Codec

namespace DurableRules

structure Writer where
  id : SessionId
  options : Options
  durable : Option Nat
deriving DecidableEq

-- All components go, the header first, so what is left of an interrupted
-- discard is no snapshot.
def discard {σ : Type} [Store σ] (id : SessionId) : Call σ Unit :=
  Tag.all.forM (fun tag => Store.delete id tag)

namespace Writer

def new (id : SessionId) (options : Options) : Writer := ⟨id,options,none⟩
def resumed (id : SessionId) (options : Options) (version : Nat) : Writer := ⟨id,options,some version⟩

-- A network left by an earlier full checkpoint goes before the header is written.
def writeComponent {σ : Type} [Store σ] (w : Writer) (component : Tag × ByteArray) : Call σ Unit := do
  if component.1 = .header ∧ w.options.persistence = .storesOnly then Store.delete w.id .network
  Store.put w.id component.1 component.2

def write {σ : Type} [Store σ] (w : Writer) (e : Engine) (version : Nat) : Call σ Writer := do
  (Snapshot.encode w.id e w.options version).forM w.writeComponent
  return { w with durable := some version }

def afterMutation {σ : Type} [Store σ] (w : Writer) (e : Engine) (version : Nat) :
    Call σ (Bool × Writer) :=
  match w.options.safepoint with
  | .always => do return (true,← w.write e version)
  | .explicit => return (false,w)

-- Where every mutation is written, a safepoint writes only after a failure.
def safepoint {σ : Type} [Store σ] (w : Writer) (e : Engine) (version : Nat) : Call σ (Bool × Writer) :=
  if w.options.safepoint = .always ∧ w.durable = some version then return (false,w)
  else do return (true,← w.write e version)

def discard {σ : Type} [Store σ] (w : Writer) : Call σ Writer := do
  DurableRules.discard w.id
  return { w with durable := none }

end Writer
end DurableRules
