import DurableRules.Store.Directory
import DurableRules.Store.Memory
import DurableRules.Store.Table

namespace DurableRules

inductive StoreKind where
  | memory
  | file
  | sqlite
deriving DecidableEq

def StoreKind.name : StoreKind → String
  | memory => "memory"
  | file => "file"
  | sqlite => "sqlite"

def StoreKind.ofName? (name : String) : Option StoreKind :=
  [memory,file,sqlite].find? (·.name == name)

inductive Backend where
  | memory (store : Memory)
  | directory (store : Directory)
  | table (store : Table)

namespace Backend

def through {α : Type} (call : {σ : Type} → [Store σ] → Call σ α) : Call Backend α
  | .memory store => Call.within .memory store call (.memory store)
  | .directory store => Call.within .directory store call (.directory store)
  | .table store => Call.within .table store call (.table store)

instance : Store Backend where
  put id tag bytes := through (Store.put id tag bytes)
  get id tag := through (Store.get id tag)
  delete id tag := through (Store.delete id tag)
  sessions := through Store.sessions

end Backend
end DurableRules
