import DurableRules.SessionId
import DurableRules.Settings

namespace DurableRules

inductive Action where
  | demo
  | sessions
  | show (id : SessionId)
  | destroy (id : SessionId)
deriving DecidableEq

structure Flags where
  home : Option String
  store : Option StoreKind
  persistence : Option Persistence
  safepoint : Option Safepoint
deriving DecidableEq

namespace Flags

def none : Flags := ⟨.none,.none,.none,.none⟩

def apply (flags : Flags) (settings : Settings) : Settings where
  home := flags.home.getD settings.home
  store := flags.store.getD settings.store
  options := ⟨flags.persistence.getD settings.options.persistence,
    flags.safepoint.getD settings.options.safepoint⟩

def set? (flags : Flags) (name value : String) : Option Flags :=
  match name with
  | "--home" =>
    if flags.home.isNone ∧ value ≠ "" then some { flags with home := some value } else .none
  | "--store" =>
    if flags.store.isNone then
      (StoreKind.ofName? value).map fun kind => { flags with store := some kind }
    else .none
  | "--persistence" =>
    if flags.persistence.isNone then
      (Persistence.parse value).toOption.map fun strategy => { flags with persistence := some strategy }
    else .none
  | "--safepoint" =>
    if flags.safepoint.isNone then
      (Safepoint.parse value).toOption.map fun strategy => { flags with safepoint := some strategy }
    else .none
  | _ => .none

end Flags

inductive Invocation where
  | command (flags : Flags) (action : Action)
  | version
deriving DecidableEq

namespace Invocation

def isFlag (text : String) : Bool := text.toList.head? == some '-' && text.toList.length > 1

-- Whatever follows the short letter stands for nothing.
def asksVersion (text : String) : Bool := text == "--version" || ['-','V'].isPrefixOf text.toList

def readAction : List String → Option Action
  | ["demo"] => some .demo
  | ["sessions"] => some .sessions
  | ["show",text] => (SessionId.ofText? text).map .show
  | ["destroy",text] => (SessionId.ofText? text).map .destroy
  | _ => none

-- Among the arguments of a subcommand two hyphens stand once for nothing.
def withoutHyphens : List String → List String
  | [] => []
  | name :: rest => name :: rest.erase "--"

def splitFlag (text : String) : Option (String × String) :=
  let chars := text.toList
  match chars.dropWhile (· != '=') with
  | [] => none
  | _ :: value => some (String.ofList (chars.takeWhile (· != '=')),String.ofList value)

def readFrom (flags : Flags) : List String → Option Invocation
  | [] => none
  | text :: rest =>
    if asksVersion text then some .version
    else if isFlag text then
      match splitFlag text, rest with
      | some (name,value), rest => (flags.set? name value).bind (readFrom · rest)
      | none, value :: rest =>
        if isFlag value then none else (flags.set? text value).bind (readFrom · rest)
      | none, [] => none
    else (readAction (withoutHyphens (text :: rest))).map fun action => .command flags action

-- Flags come before the subcommand. A question for the version is answered
-- when it is met, whatever follows. Nothing is read of arguments that do not fit.
def ofArguments (arguments : List String) : Option Invocation := readFrom Flags.none arguments

end Invocation
end DurableRules
