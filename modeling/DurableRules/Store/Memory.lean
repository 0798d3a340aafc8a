import DurableRules.Ordered.Map
import DurableRules.Store.Basic

namespace DurableRules

-- Components in memory. Offline every call fails and nothing is lost.
structure Memory where
  available : Bool
  entries : Map Key ByteArray

namespace Memory

def empty : Memory := ⟨true,Map.empty⟩

def whenOnline {α : Type} (act : Map Key ByteArray → α × Map Key ByteArray) : Call Memory α := fun m =>
  if m.available then
    let (answer,entries) := act m.entries
    (.ok answer,{ m with entries })
  else (.error (.unavailable "memory store is offline"),m)

def headers (entries : Map Key ByteArray) : List SessionId :=
  (entries.keys.filter (·.tag == .header)).map Key.id

instance : Store Memory where
  put id tag bytes := whenOnline fun entries => ((),entries.put ⟨id,tag⟩ bytes)
  get id tag := whenOnline fun entries => (entries.get? ⟨id,tag⟩,entries)
  delete id tag := whenOnline fun entries => ((),entries.erase ⟨id,tag⟩)
  sessions := whenOnline fun entries => (headers entries,entries)

end Memory
end DurableRules
