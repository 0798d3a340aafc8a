import DurableRules.Session.Basic
import DurableRules.Settings

namespace DurableRules

structure Report where
  message : String
  causes : List String
deriving DecidableEq

def RecoveryError.causes : RecoveryError → List String
  | store cause => [cause.message]
  | engine cause => [cause.message]
  | _ => []

def SessionError.causes : SessionError → List String
  | configuration cause => [cause.message]
  | persistence cause => ["store error: " ++ cause.message,cause.message]
  | recovery cause => cause.message :: cause.causes
  | store cause => [cause.message]
  | _ => []

namespace Report

def ofSession (e : SessionError) : Report := ⟨e.message,e.causes⟩
def ofRecovery (e : RecoveryError) : Report := ⟨e.message,e.causes⟩
def ofSettings (e : SettingsError) : Report := ⟨"loading configuration",[e.message]⟩
def ofOpening (e : StoreError) : Report :=
  ⟨"opening snapshot store",["failed to open snapshot store: " ++ e.message,e.message]⟩

def textLines (text : String) : List String := text.splitOn "\n"

def indented (first later : String) (text : String) : List String :=
  match textLines text with
  | [] => [first]
  | head :: rest => (first ++ head) :: rest.map (later ++ ·)

-- A single cause stands alone and several are numbered.
def lines (report : Report) : List String :=
  textLines ("Error: " ++ report.message) ++
    match report.causes with
    | [] => []
    | [cause] => "" :: "Caused by:" :: indented "    " "    " cause
    | causes => "" :: "Caused by:" :: causes.zipIdx.flatMap fun (cause,number) =>
        indented ("    " ++ showNat number ++ ": ") "       " cause

end Report
end DurableRules
