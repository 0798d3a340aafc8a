import DurableRules.Store.Backend
import DurableRules.Strategy

namespace DurableRules

inductive SettingsError where
  | invalidStore (text : String)
  | strategy (cause : StrategyError)
deriving DecidableEq

def SettingsError.message : SettingsError → String
  | invalidStore text => "RULEWARD_STORE must be one of memory, file, sqlite; got " ++ text
  | strategy cause => cause.message

structure Settings where
  home : String
  store : StoreKind
  options : Options
deriving DecidableEq

namespace Settings

def joined (folder name : String) : String :=
  if folder.toList.getLast? = some '/' then folder ++ name else folder ++ "/" ++ name

def orStrategy {α : Type} : Except StrategyError α → Except SettingsError α
  | .ok value => .ok value
  | .error cause => .error (.strategy cause)

def parseStore (text : String) : Except SettingsError StoreKind :=
  match StoreKind.ofName? text with
  | some kind => .ok kind
  | none => .error (.invalidStore text)

def parsed {α : Type} (parse : String → Except SettingsError α) (default : α) :
    Option String → Except SettingsError α
  | some text => parse text
  | none => .ok default

-- An empty variable counts as absent. The store is read first, then the
-- strategies one by one and then as a pair.
def ofEnvironment (lookup : String → Option String) : Except SettingsError Settings := do
  let var (name : String) : Option String := (lookup name).filter (· ≠ "")
  let home := (var "RULEWARD_HOME").getD (joined ((var "HOME").getD "/tmp") ".ruleward")
  let store ← parsed parseStore .sqlite (var "RULEWARD_STORE")
  let persistence ← parsed (fun text => orStrategy (Persistence.parse text)) .storesOnly
    (var "RULEWARD_PERSISTENCE")
  let safepoint ← parsed (fun text => orStrategy (Safepoint.parse text)) .always (var "RULEWARD_SAFEPOINT")
  let options : Options := ⟨persistence,safepoint⟩
  orStrategy options.validate
  return ⟨home,store,options⟩

end Settings
end DurableRules
