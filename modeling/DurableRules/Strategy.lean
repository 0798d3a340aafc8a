import DurableRules.Text.Blank

namespace DurableRules
open Text

inductive Persistence where
  | full
  | storesOnly
deriving DecidableEq

inductive Safepoint where
  | explicit
  | always
deriving DecidableEq

inductive StrategyError where
  | unsupported (persistence : Persistence) (safepoint : Safepoint)
  | unknownPersistence (text : String)
  | unknownSafepoint (text : String)
deriving DecidableEq

def lowered (text : List Char) : List Char := text.map Char.toLower

namespace Persistence

def name : Persistence → String
  | full => "full"
  | storesOnly => "stores_only"

def ofName? (text : String) : Option Persistence := [full,storesOnly].find? (·.name == text)

-- Case, outer blanks and the choice between hyphen and underscore are free.
def parse (text : String) : Except StrategyError Persistence :=
  let plain := (lowered (trim text.toList)).map (fun c => if c = '-' then '_' else c)
  match ofName? (String.ofList plain) with
  | some strategy => .ok strategy
  | none => .error (.unknownPersistence text)

end Persistence

namespace Safepoint

def name : Safepoint → String
  | explicit => "explicit"
  | always => "always"

def ofName? (text : String) : Option Safepoint := [explicit,always].find? (·.name == text)

def parse (text : String) : Except StrategyError Safepoint :=
  match ofName? (String.ofList (lowered (trim text.toList))) with
  | some strategy => .ok strategy
  | none => .error (.unknownSafepoint text)

end Safepoint

def StrategyError.message : StrategyError → String
  | unsupported persistence safepoint =>
    "persistence strategy " ++ persistence.name ++ " is not supported with safepoint strategy " ++
      safepoint.name ++
      ": pending propagation state cannot be reconstructed reliably between explicit safepoints"
  | unknownPersistence text => "unknown persistence strategy: " ++ text
  | unknownSafepoint text => "unknown safepoint strategy: " ++ text

structure Options where
  persistence : Persistence
  safepoint : Safepoint
deriving DecidableEq

namespace Options

def standard : Options := ⟨.storesOnly,.always⟩

-- A pending agenda may only be captured whole, after every mutation.
def Supported (options : Options) : Prop := ¬(options.persistence = .full ∧ options.safepoint = .explicit)

instance (options : Options) : Decidable options.Supported := inferInstanceAs (Decidable (¬_))

def validate (options : Options) : Except StrategyError Unit :=
  if options.Supported then .ok () else .error (.unsupported options.persistence options.safepoint)

def supported : List Options := [⟨.storesOnly,.explicit⟩,⟨.storesOnly,.always⟩,⟨.full,.always⟩]

end Options
end DurableRules
