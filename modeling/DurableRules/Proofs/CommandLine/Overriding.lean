import DurableRules.CommandLine.Run
import Mathlib.Logic.Function.Basic

namespace DurableRules

-- What a refused environment is refused for.
inductive Concern where
  | store
  | pair
  | persistence
  | safepoint

namespace SettingsError

def concern : SettingsError → Concern
  | invalidStore _ => .store
  | strategy (.unsupported _ _) => .pair
  | strategy (.unknownPersistence _) => .persistence
  | strategy (.unknownSafepoint _) => .safepoint

end SettingsError

-- How the message of an error begins.
def Concern.opening : Concern → String
  | store => "RULEWARD_STORE must be one of memory, file, sqlite; got "
  | pair => "persistence strategy "
  | persistence => "unknown persistence strategy: "
  | safepoint => "unknown safepoint strategy: "

theorem Concern.opening_apart {one two : Concern} (begins : one.opening.toList <+: two.opening.toList) : one = two := by
  cases one <;> cases two <;> first | rfl | exact absurd begins (by decide +kernel)

namespace SettingsError

theorem message_opening (e : SettingsError) : ∃ rest, e.message = e.concern.opening ++ rest := by
  unfold message StrategyError.message
  rcases e with text | _ | text | text
  · exact ⟨text,rfl⟩
  · exact ⟨_,by simp only [String.append_assoc]; rfl⟩
  · exact ⟨text,rfl⟩
  · exact ⟨text,rfl⟩

theorem concern_of_message {one two : SettingsError} (same : one.message = two.message) : one.concern = two.concern := by
  have begins (e : SettingsError) : e.concern.opening.toList <+: e.message.toList := by
    obtain ⟨rest,opens⟩ := message_opening e
    rw [opens,String.toList_append]
    exact List.prefix_append _ _
  rcases List.prefix_or_prefix_of_prefix (begins one) (same ▸ begins two) with first | second
  · exact Concern.opening_apart first
  · exact (Concern.opening_apart second).symm

end SettingsError

section Flags

-- A setting under a flag: the value of the flag, if it is given, spelled in
-- the variable, or the variable as it was.
def Spells {α : Type} (reads : String → Option α) (slot : Option α) (before after : Option String) : Prop :=
  match slot with
  | none => after = before
  | some value => ∃ text, after = some text ∧ text ≠ "" ∧ reads text = some value

namespace Flags
variable {lookup later : String → Option String} {flags next : Flags} {name value : String}

def overridden? : String → Option String
  | "--home" => some "RULEWARD_HOME"
  | "--store" => some "RULEWARD_STORE"
  | "--persistence" => some "RULEWARD_PERSISTENCE"
  | "--safepoint" => some "RULEWARD_SAFEPOINT"
  | _ => .none

def replace (lookup : String → Option String) (given : String × String) : String → Option String :=
  match overridden? given.1 with
  | some name => Function.update lookup name (some given.2)
  | .none => lookup

-- The environment in which the variables of these flags are replaced by their values.
structure Over (lookup : String → Option String) (flags : Flags) (later : String → Option String) : Prop where
  home : Spells some flags.home (lookup "RULEWARD_HOME") (later "RULEWARD_HOME")
  store : Spells StoreKind.ofName? flags.store (lookup "RULEWARD_STORE") (later "RULEWARD_STORE")
  persistence : Spells (fun text => (Persistence.parse text).toOption) flags.persistence
    (lookup "RULEWARD_PERSISTENCE") (later "RULEWARD_PERSISTENCE")
  safepoint : Spells (fun text => (Safepoint.parse text).toOption) flags.safepoint
    (lookup "RULEWARD_SAFEPOINT") (later "RULEWARD_SAFEPOINT")
  rest : later "HOME" = lookup "HOME"

theorem over_none (lookup : String → Option String) : Over lookup none lookup := ⟨rfl,rfl,rfl,rfl,rfl⟩

theorem spells_value {α : Type} (reads : String → Option α) {read : α} {before : Option String} (empty : reads "" = .none)
    (found : reads value = some read) : Spells reads (some read) before (some value) := by
  refine ⟨value,rfl,fun blank => ?_,found⟩
  rw [blank,empty] at found
  cases found

theorem Over.set (laid : Over lookup flags later) (set : flags.set? name value = some next) :
    Over lookup next (replace later (name,value)) := by
  obtain ⟨home,store,persistence,safepoint,rest⟩ := laid
  unfold set? at set
  split at set
  · split at set
    · next free =>
      cases set
      have given : Spells some (some value) (lookup "RULEWARD_HOME") (some value) := ⟨value,rfl,free.2,rfl⟩
      constructor <;> simp [replace,overridden?, *]
    · cases set
  · split at set
    · obtain ⟨kind,read,rfl⟩ := Option.map_eq_some_iff.mp set
      have given : Spells _ (some kind) (lookup "RULEWARD_STORE") (some value) := spells_value _ (by decide) read
      constructor <;> simp [replace,overridden?, *]
    · cases set
  · split at set
    · obtain ⟨strategy,read,rfl⟩ := Option.map_eq_some_iff.mp set
      have given : Spells _ (some strategy) (lookup "RULEWARD_PERSISTENCE") (some value) :=
        spells_value (fun text => (Persistence.parse text).toOption) (by decide) read
      constructor <;> simp [replace,overridden?, *]
    · cases set
  · split at set
    · obtain ⟨strategy,read,rfl⟩ := Option.map_eq_some_iff.mp set
      have given : Spells _ (some strategy) (lookup "RULEWARD_SAFEPOINT") (some value) :=
        spells_value (fun text => (Safepoint.parse text).toOption) (by decide) read
      constructor <;> simp [replace,overridden?, *]
    · cases set
  · cases set

end Flags

namespace Invocation

def typed : List String → List (String × String)
  | [] => []
  | text :: rest =>
    if isFlag text then
      match splitFlag text, rest with
      | some given, rest => given :: typed rest
      | none, value :: rest => (text,value) :: typed rest
      | none, [] => []
    else []

variable {lookup later : String → Option String} {flags last : Flags} {arguments : List String} {action : Action}

theorem readFrom_over (laid : Flags.Over lookup flags later) (read : readFrom flags arguments = some (.command last action)) :
    Flags.Over lookup last ((typed arguments).foldl Flags.replace later) := by
  fun_induction readFrom flags arguments generalizing later with
  | case1 => cases read
  | case2 => cases read
  | case3 flags text _ flagged name value rest joined ih =>
    obtain ⟨next,set,read⟩ := Option.bind_eq_some_iff.mp read
    rw [typed.eq_2 _ _ _ joined,if_pos flagged]
    exact ih next (laid.set set) read
  | case4 => cases read
  | case5 flags text _ flagged value rest apart _ ih =>
    obtain ⟨next,set,read⟩ := Option.bind_eq_some_iff.mp read
    simp only [typed,flagged,if_true,apart]
    exact ih next (laid.set set) read
  | case6 => cases read
  | case7 flags text rest _ plain =>
    obtain ⟨_,_,same⟩ := Option.map_eq_some_iff.mp read
    cases same
    have last : typed (text :: rest) = [] := by
      rw [typed.eq_def]
      exact if_neg plain
    rw [last]
    exact laid

end Invocation
end Flags

namespace Settings
variable {lookup later : String → Option String} {flags : Flags} {e : SettingsError} {home : String} {found : Settings}
  {store : Except SettingsError StoreKind} {persistence : Except SettingsError Persistence} {safepoint : Except SettingsError Safepoint}

def homeIn (lookup : String → Option String) : String :=
  ((lookup "RULEWARD_HOME").filter (· ≠ "")).getD (joined (((lookup "HOME").filter (· ≠ "")).getD "/tmp") ".ruleward")

def storeIn (lookup : String → Option String) : Except SettingsError StoreKind :=
  parsed parseStore .sqlite ((lookup "RULEWARD_STORE").filter (· ≠ ""))

def persistenceIn (lookup : String → Option String) : Except SettingsError Persistence :=
  parsed (fun text => orStrategy (Persistence.parse text)) .storesOnly ((lookup "RULEWARD_PERSISTENCE").filter (· ≠ ""))

def safepointIn (lookup : String → Option String) : Except SettingsError Safepoint :=
  parsed (fun text => orStrategy (Safepoint.parse text)) .always ((lookup "RULEWARD_SAFEPOINT").filter (· ≠ ""))

def assembled (home : String) (store : Except SettingsError StoreKind) (persistence : Except SettingsError Persistence)
    (safepoint : Except SettingsError Safepoint) : Except SettingsError Settings := do
  let store ← store
  let persistence ← persistence
  let safepoint ← safepoint
  let options : Options := ⟨persistence,safepoint⟩
  orStrategy options.validate
  return ⟨home,store,options⟩

theorem ofEnvironment_eq (lookup : String → Option String) : ofEnvironment lookup =
    assembled (homeIn lookup) (storeIn lookup) (persistenceIn lookup) (safepointIn lookup) := rfl

-- The first of the settings that is refused, or the two strategies as a pair.
inductive Refused (store : Except SettingsError StoreKind) (persistence : Except SettingsError Persistence)
    (safepoint : Except SettingsError Safepoint) : SettingsError → Prop
  | store {e : SettingsError} (failed : store = .error e) : Refused store persistence safepoint e
  | persistence {e : SettingsError} {kind : StoreKind} (kept : store = .ok kind) (failed : persistence = .error e) :
    Refused store persistence safepoint e
  | safepoint {e : SettingsError} {kind : StoreKind} {captured : Persistence} (kept : store = .ok kind)
    (captures : persistence = .ok captured) (failed : safepoint = .error e) : Refused store persistence safepoint e
  | pair {kind : StoreKind} {captured : Persistence} {taken : Safepoint} (kept : store = .ok kind)
    (captures : persistence = .ok captured) (takes : safepoint = .ok taken) (apart : ¬ (Options.mk captured taken).Supported) :
    Refused store persistence safepoint (.strategy (.unsupported captured taken))

theorem assembled_pair {kind : StoreKind} {captured : Persistence} {taken : Safepoint} :
    assembled home (.ok kind) (.ok captured) (.ok taken) = if (Options.mk captured taken).Supported
      then .ok ⟨home,kind,⟨captured,taken⟩⟩ else .error (.strategy (.unsupported captured taken)) := by
  by_cases supported : (Options.mk captured taken).Supported
  · simp [assembled,Options.validate,supported,orStrategy,bind,Except.bind,pure,Except.pure]
  · simp [assembled,Options.validate,supported,orStrategy,bind,Except.bind]

theorem assembled_error : assembled home store persistence safepoint = .error e ↔ Refused store persistence safepoint e := by
  constructor
  · intro failed
    cases store with
    | error => cases failed; exact .store rfl
    | ok kind =>
      cases persistence with
      | error => cases failed; exact .persistence rfl rfl
      | ok captured =>
        cases safepoint with
        | error => cases failed; exact .safepoint rfl rfl rfl
        | ok taken =>
          rw [assembled_pair] at failed
          split at failed
          · cases failed
          · next apart => cases failed; exact .pair rfl rfl rfl apart
  · intro refused
    cases refused with
    | store failed => rw [failed]; rfl
    | persistence kept failed => rw [kept,failed]; rfl
    | safepoint kept captures failed => rw [kept,captures,failed]; rfl
    | pair kept captures takes apart => rw [kept,captures,takes,assembled_pair,if_neg apart]

theorem assembled_ok (went : assembled home store persistence safepoint = .ok found) : ∃ kind captured taken,
    store = .ok kind ∧ persistence = .ok captured ∧ safepoint = .ok taken ∧ found = ⟨home,kind,⟨captured,taken⟩⟩ := by
  cases store with
  | error => cases went
  | ok kind =>
    cases persistence with
    | error => cases went
    | ok captured =>
      cases safepoint with
      | error => cases went
      | ok taken =>
        rw [assembled_pair] at went
        split at went
        · cases went
          exact ⟨kind,captured,taken,rfl,rfl,rfl,rfl⟩
        · cases went

theorem parsed_error {α : Type} {parse : String → Except SettingsError α} {default : α} {slot : Option String}
    (failed : parsed parse default slot = .error e) : ∃ text, parse text = .error e := by
  cases slot with
  | none => cases failed
  | some text => exact ⟨text,failed⟩

theorem storeIn_error (failed : storeIn lookup = .error e) : ∃ text, e = .invalidStore text := by
  obtain ⟨text,failed⟩ := parsed_error failed
  unfold parseStore at failed
  split at failed <;> cases failed
  exact ⟨text,rfl⟩

theorem persistenceIn_error (failed : persistenceIn lookup = .error e) : ∃ text, e = .strategy (.unknownPersistence text) := by
  obtain ⟨text,failed⟩ := parsed_error failed
  unfold Persistence.parse at failed
  dsimp only at failed
  split at failed <;> cases failed
  exact ⟨text,rfl⟩

theorem safepointIn_error (failed : safepointIn lookup = .error e) : ∃ text, e = .strategy (.unknownSafepoint text) := by
  obtain ⟨text,failed⟩ := parsed_error failed
  unfold Safepoint.parse at failed
  split at failed <;> cases failed
  exact ⟨text,rfl⟩

def overlaid {α : Type} (slot : Option α) (found : Except SettingsError α) : Except SettingsError α := slot.elim found .ok

@[simp] theorem overlaid_ok {α : Type} (slot : Option α) (value : α) : overlaid slot (.ok value) = .ok (slot.getD value) := by
  cases slot <;> rfl

theorem overlaid_error {α : Type} {slot : Option α} {found : Except SettingsError α} (failed : overlaid slot found = .error e) :
    slot = none ∧ found = .error e := by
  cases slot with
  | none => exact ⟨rfl,failed⟩
  | some => cases failed

theorem overlaid_kept {α : Type} {slot : Option α} {found : Except SettingsError α} {value : α} (kept : overlaid slot found = .ok value) :
    slot.getD value = value := by
  cases slot with
  | none => rfl
  | some => exact Except.ok.inj kept

theorem parsed_overlaid {α : Type} {reads : String → Option α} {parse : String → Except SettingsError α} {slot : Option α}
    {before after : Option String} (agree : ∀ text value, reads text = some value → parse text = .ok value)
    (spells : Spells reads slot before after) (default : α) :
    parsed parse default (after.filter (· ≠ "")) = overlaid slot (parsed parse default (before.filter (· ≠ ""))) := by
  cases slot with
  | none => rw [show after = before from spells]; rfl
  | some value =>
    obtain ⟨text,rfl,filled,read⟩ := spells
    rw [Option.filter_some_pos (by simp [filled])]
    exact agree text value read

theorem ofEnvironment_over (laid : Flags.Over lookup flags later) : ofEnvironment later =
    assembled (flags.home.getD (homeIn lookup)) (overlaid flags.store (storeIn lookup))
      (overlaid flags.persistence (persistenceIn lookup)) (overlaid flags.safepoint (safepointIn lookup)) := by
  have home : homeIn later = flags.home.getD (homeIn lookup) := by
    unfold homeIn
    rw [laid.rest]
    have spells := laid.home
    cases given : flags.home with
    | none => rw [given] at spells; rw [show later _ = lookup _ from spells]; rfl
    | some value =>
      rw [given] at spells
      obtain ⟨text,spelled,filled,same⟩ := spells
      cases same
      rw [spelled,Option.filter_some_pos (by simp [filled])]
      rfl
  have strategy {α : Type} {found : Except StrategyError α} {value : α} (read : found.toOption = some value) :
      orStrategy found = .ok value := by
    cases found with
    | ok => cases read; rfl
    | error => cases read
  rw [ofEnvironment_eq,home]
  unfold storeIn persistenceIn safepointIn
  rw [parsed_overlaid (fun text kind read => by rw [parseStore,read]) laid.store,
    parsed_overlaid (fun text value => strategy) laid.persistence,parsed_overlaid (fun text value => strategy) laid.safepoint]

end Settings

-- A flag was given in the place of what an environment is refused for.
def SettingsError.Cured (flags : Flags) : SettingsError → Prop
  | .invalidStore _ => flags.store ≠ none
  | .strategy (.unknownPersistence _) => flags.persistence ≠ none
  | .strategy (.unknownSafepoint _) => flags.safepoint ≠ none
  | .strategy (.unsupported persistence safepoint) =>
    ¬ (flags.persistence.getD persistence = persistence ∧ flags.safepoint.getD safepoint = safepoint)

def Settings.Conveyed : Except Report Settings → Except SettingsError Settings → Prop
  | .ok settings, .ok wanted => settings = wanted
  | .error report, .error e => report = .ofSettings e ∨ report = ⟨e.message,[]⟩
  | _, _ => False

section Curing
open Settings
variable {lookup : String → Option String} {flags : Flags} {e one two : SettingsError}

theorem not_supported {persistence : Persistence} {safepoint : Safepoint} (apart : ¬ (Options.mk persistence safepoint).Supported) :
    persistence = .full ∧ safepoint = .explicit := Classical.not_not.mp apart

theorem refused_pair (flags : Flags) {persistence : Persistence} {safepoint : Safepoint}
    (refused : Refused (overlaid flags.store (storeIn lookup)) (overlaid flags.persistence (persistenceIn lookup))
      (overlaid flags.safepoint (safepointIn lookup)) (.strategy (.unsupported persistence safepoint))) :
    persistence = .full ∧ safepoint = .explicit := by
  cases refused with
  | store failed =>
    obtain ⟨text,other⟩ := storeIn_error (overlaid_error failed).2
    cases other
  | persistence _ failed =>
    obtain ⟨text,other⟩ := persistenceIn_error (overlaid_error failed).2
    cases other
  | safepoint _ _ failed =>
    obtain ⟨text,other⟩ := safepointIn_error (overlaid_error failed).2
    cases other
  | pair _ _ _ apart => exact not_supported apart

theorem refused_uncured (refused : Refused (overlaid flags.store (storeIn lookup)) (overlaid flags.persistence (persistenceIn lookup))
    (overlaid flags.safepoint (safepointIn lookup)) e) : ¬ e.Cured flags := by
  intro cured
  cases refused with
  | store failed =>
    obtain ⟨none,failed⟩ := overlaid_error failed
    obtain ⟨text,rfl⟩ := storeIn_error failed
    exact cured none
  | persistence _ failed =>
    obtain ⟨none,failed⟩ := overlaid_error failed
    obtain ⟨text,rfl⟩ := persistenceIn_error failed
    exact cured none
  | safepoint _ _ failed =>
    obtain ⟨none,failed⟩ := overlaid_error failed
    obtain ⟨text,rfl⟩ := safepointIn_error failed
    exact cured none
  | pair _ captures takes _ => exact cured ⟨overlaid_kept captures,overlaid_kept takes⟩

theorem refused_overlaid (refused : Refused (storeIn lookup) (persistenceIn lookup) (safepointIn lookup) e) (free : ¬ e.Cured flags) :
    Refused (overlaid flags.store (storeIn lookup)) (overlaid flags.persistence (persistenceIn lookup))
      (overlaid flags.safepoint (safepointIn lookup)) e := by
  cases refused with
  | store failed =>
    obtain ⟨text,rfl⟩ := storeIn_error failed
    rw [Classical.not_not.mp free]
    exact .store failed
  | persistence kept failed =>
    obtain ⟨text,rfl⟩ := persistenceIn_error failed
    rw [Classical.not_not.mp free,kept,overlaid_ok]
    exact .persistence rfl failed
  | safepoint kept captures failed =>
    obtain ⟨text,rfl⟩ := safepointIn_error failed
    rw [Classical.not_not.mp free,kept,captures,overlaid_ok,overlaid_ok]
    exact .safepoint rfl rfl failed
  | pair kept captures takes apart =>
    obtain ⟨first,second⟩ := Classical.not_not.mp free
    rw [kept,captures,takes,overlaid_ok,overlaid_ok,overlaid_ok,first,second]
    exact .pair rfl rfl rfl apart

-- Under a flag for what the environment is refused for, something else is refused, if anything.
theorem cured_apart (cured : one.Cured flags) (first : Refused (storeIn lookup) (persistenceIn lookup) (safepointIn lookup) one)
    (second : Refused (overlaid flags.store (storeIn lookup)) (overlaid flags.persistence (persistenceIn lookup))
      (overlaid flags.safepoint (safepointIn lookup)) two) : one.concern ≠ two.concern := by
  intro same
  have uncured := refused_uncured second
  rcases one with _ | ⟨persistence,safepoint⟩ | _ | _ <;> rcases two with _ | ⟨captured,taken⟩ | _ | _
  case strategy.unsupported.strategy.unsupported =>
    obtain ⟨rfl,rfl⟩ := refused_pair Flags.none first
    obtain ⟨rfl,rfl⟩ := refused_pair flags second
    exact uncured cured
  all_goals first | exact uncured cured | (revert same; simp [SettingsError.concern])

end Curing

namespace Invocation
open Settings
variable {lookup later : String → Option String} {flags : Flags} {arguments : List String} {action : Action}

theorem conveyed_error {e : SettingsError} {wanted : Except SettingsError Settings}
    (conveyed : Conveyed (.error (.ofSettings e)) wanted) : ∃ other, wanted = .error other ∧ e.concern = other.concern := by
  cases wanted with
  | ok => exact conveyed.elim
  | error other =>
    refine ⟨other,rfl,?_⟩
    rcases conveyed with same | same
    · exact SettingsError.concern_of_message (List.cons.inj (Report.mk.inj same).2).1
    · cases (Report.mk.inj same).2

-- Flags override the environment unless it is refused by itself, for a value
-- that one of them replaces.
theorem flags_override_iff (lookup : String → Option String) (command : ofArguments arguments = some (.command flags action)) :
    Conveyed (settings lookup flags) (ofEnvironment ((typed arguments).foldl Flags.replace lookup)) ↔
      ∀ e, ofEnvironment lookup = .error e → ¬ e.Cured flags := by
  have laid := readFrom_over (Flags.over_none lookup) command
  rw [ofEnvironment_over laid]
  constructor
  · intro conveyed e failed cured
    rw [settings,failed] at conveyed
    obtain ⟨other,refused,same⟩ := conveyed_error conveyed
    rw [ofEnvironment_eq] at failed
    exact cured_apart cured (assembled_error.mp failed) (assembled_error.mp refused) same
  · intro free
    cases alone : ofEnvironment lookup with
    | error e =>
      have refused := refused_overlaid (assembled_error.mp (ofEnvironment_eq lookup ▸ alone)) (free e alone)
      rw [settings,alone,assembled_error.mpr refused]
      exact .inl rfl
    | ok found =>
      rw [ofEnvironment_eq] at alone
      obtain ⟨kind,captured,taken,kept,captures,takes,rfl⟩ := assembled_ok alone
      rw [settings,ofEnvironment_eq,alone,kept,captures,takes,overlaid_ok,overlaid_ok,overlaid_ok,assembled_pair]
      by_cases supported : (Options.mk (flags.persistence.getD captured) (flags.safepoint.getD taken)).Supported
      · simp [Flags.apply,Options.validate,supported,Conveyed]
      · simp only [Flags.apply,Options.validate,supported,if_false]
        exact .inr rfl

section Slipped

def slipped (name : String) : Option String :=
  if name = "RULEWARD_STORE" then some "redis" else none

def clashing (name : String) : Option String :=
  if name = "RULEWARD_PERSISTENCE" then some "full" else if name = "RULEWARD_SAFEPOINT" then some "explicit" else none

def filed : List String := ["--store","file","sessions"]
def eager : List String := ["--store=memory","--safepoint","always","demo"]

theorem slipped_not_overridden :
    ¬ Conveyed (settings slipped { Flags.none with store := some .file })
      (ofEnvironment ((typed filed).foldl Flags.replace slipped)) ∧
    ¬ Conveyed (settings clashing { Flags.none with store := some .memory, safepoint := some .always })
      (ofEnvironment ((typed eager).foldl Flags.replace clashing)) ∧
    Conveyed (settings clashing { Flags.none with store := some .file })
      (ofEnvironment ((typed filed).foldl Flags.replace clashing)) := by
  have files : ofArguments filed = some (.command { Flags.none with store := some .file } .sessions) := by decide +kernel
  have keeps : ofArguments eager = some (.command { Flags.none with store := some .memory, safepoint := some .always } .demo) := by
    decide +kernel
  have unknown : ofEnvironment slipped = .error (.invalidStore "redis") := rfl
  have clash : ofEnvironment clashing = .error (.strategy (.unsupported .full .explicit)) := rfl
  refine ⟨fun conveyed => ?_,fun conveyed => ?_,?_⟩
  · exact (flags_override_iff slipped files).mp conveyed _ unknown (by simp [SettingsError.Cured])
  · exact (flags_override_iff clashing keeps).mp conveyed _ clash (by simp [SettingsError.Cured])
  · refine (flags_override_iff clashing files).mpr fun e failed => ?_
    cases clash.symm.trans failed
    simp [SettingsError.Cured,Flags.none]

end Slipped

end Invocation
end DurableRules
