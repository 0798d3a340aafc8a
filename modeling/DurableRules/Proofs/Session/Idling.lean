import DurableRules.Proofs.Session.Declining
import DurableRules.Proofs.Session.Outage
import DurableRules.Proofs.Session.Preparing
import DurableRules.Proofs.Store.Stability

namespace DurableRules
open Recovery Session

namespace Snapshot

theorem encode_names {id : SessionId} {one two : Engine} {options : Options} {version : Nat}
    (same : encode id one options version = encode id two options version) : one.globals.keys = two.globals.keys := by
  have third (e : Engine) : (encode id e options version)[2]? =
      some (.globals,(Globals.mk version e.globals).toTree.text.toUTF8) := rfl
  have bytes := (third one).symm.trans ((congrArg (·[2]?) same).trans (third two))
  have texts := congrArg Json.Tree.ofBytes (Prod.mk.inj (Option.some.inj bytes)).2
  rw [(spelled_globals _).ofBytes,(spelled_globals _).ofBytes] at texts
  have trees := (Prod.mk.inj texts).1
  simp only [Globals.toTree,Json.record,mapTree,List.map_cons,List.map_nil,Json.Tree.object.injEq,List.cons.injEq,
    Prod.mk.injEq,and_true,true_and] at trees
  have keys := congrArg (List.filterMap fun member => (Json.strict member.1).toOption) trees
  simpa only [List.filterMap_map,Function.comp_def,Json.strict_pieces,Except.toOption,List.filterMap_eq_map',Map.keys] using keys

end Snapshot

namespace Engine
variable {e middle next : Engine} {program : Program} {command : Command} {commands later : List Command} {outcome : Outcome}

theorem Enduring.genuine (enduring : Enduring program e) : ∀ a ∈ e.pending, e.Genuine a := by
  intro a present
  obtain ⟨sequence,found⟩ := Map.mem_values.mp present
  obtain ⟨_,known,current,unfired⟩ := enduring.checked.agenda sequence a found
  refine ⟨known,isCurrent_iff.mp current,fun i member => ?_,unfired⟩
  rw [enduring.founded.handles,Roster.isLive_eq,isCurrent_iff.mp current i member]
  rfl

def Exhausts (e : Engine) (command : Command) : Prop :=
  ∀ limit, command = .fire limit → (e.fire limit).2.pending = []

theorem Enduring.operate (enduring : Enduring program e) (through : e.Exhausts command)
    (operated : operate e command = .ok (outcome,next)) : Enduring program next := by
  cases command with
  | insert fact =>
    cases operated
    exact enduring.insert fact
  | update handle fact => exact enduring.update (operate_update operated).1
  | delete handle =>
    obtain ⟨_,done,_⟩ := operate_delete operated
    exact enduring.delete done
  | fire limit =>
    cases operated
    exact enduring.fire (through limit rfl)
  | clear name =>
    cases operated
    exact ⟨enduring.program,enduring.founded.globals _,enduring.checked.globals _⟩
  | safepoint | discard =>
    cases operated
    exact enduring

-- The command takes away a list of results that is there and holds nothing.
def ClearsEmpty (e : Engine) : Command → Prop
  | .clear name => e.globals.get? name = some []
  | _ => False

-- Lists that held nothing are gone, those that were cleared, and everything
-- else is as before.
structure EmptiesCleared (e : Engine) (commands : List Command) (next : Engine) : Prop where
  rest : next = { e with globals := next.globals }
  gone : ∀ name, .clear name ∈ commands → e.globals.get? name = some [] → next.globals.get? name = none
  kept : ∀ name, (.clear name ∈ commands → e.globals.get? name ≠ some []) → next.globals.get? name = e.globals.get? name

theorem EmptiesCleared.same (none : ∀ command ∈ commands, ¬ e.ClearsEmpty command) : EmptiesCleared e commands e :=
  ⟨rfl,fun name cleared empty => absurd empty (none (.clear name) cleared),fun _ _ => rfl⟩

theorem EmptiesCleared.trans (one : EmptiesCleared e commands middle) (two : EmptiesCleared middle later next) :
    EmptiesCleared e (commands ++ later) next := by
  refine ⟨?_,fun name cleared empty => ?_,fun name filled => ?_⟩
  · rw [two.rest,one.rest]
  · by_cases first : .clear name ∈ commands
    · have absent := one.gone name first empty
      rw [two.kept name fun _ => by simp [absent],absent]
    · have still := one.kept name fun cleared => absurd cleared first
      refine two.gone name ?_ (still.trans empty)
      exact (List.mem_append.mp cleared).resolve_left first
  · have still := one.kept name fun first => filled (List.mem_append_left _ first)
    rw [two.kept name fun second => still ▸ filled (List.mem_append_right _ second),still]

theorem EmptiesCleared.encode_iff {id : SessionId} {options : Options} {version : Nat}
    (emptied : EmptiesCleared e commands next) : Snapshot.encode id next options version = Snapshot.encode id e options version ↔
      ∀ command ∈ commands, ¬ e.ClearsEmpty command := by
  constructor
  · intro same command asked clears
    cases command with
    | clear name =>
      have before : name ∈ e.globals.keys := Map.mem_keys.mpr (by rw [Map.contains_eq,clears]; rfl)
      rw [← Snapshot.encode_names same,Map.mem_keys,Map.contains_eq,emptied.gone name asked clears] at before
      cases before
    | _ => exact clears
  · intro none
    have globals : next.globals = e.globals :=
      Map.ext_get? fun name => emptied.kept name fun cleared => none (.clear name) cleared
    rw [emptied.rest,globals]

-- What is not counted as a mutation takes no more than an empty list away.
theorem operate_idle (enduring : Enduring program e) (operated : operate e command = .ok (outcome,next))
    (idle : outcome.mutated = false) : EmptiesCleared e [command] next := by
  cases command with
  | insert fact =>
    cases operated
    cases idle
  | update handle fact =>
    rw [(operate_update operated).2] at idle
    cases idle
  | delete handle =>
    obtain ⟨_,_,rfl⟩ := operate_delete operated
    cases idle
  | fire limit =>
    cases operated
    rw [fire_nothing enduring.genuine (by simpa [Outcome.mutated] using idle)]
    exact .same (by simp [ClearsEmpty])
  | clear name =>
    cases operated
    have nothing : e.global name = [] := by simpa [Outcome.mutated] using idle
    refine ⟨rfl,fun other cleared _ => ?_,fun other filled => ?_⟩
    · cases List.mem_singleton.mp cleared
      exact Map.get?_erase_self _ _
    · change (e.globals.erase name).get? other = _
      by_cases same : other = name
      · subst same
        have full := filled List.mem_cons_self
        rw [Map.get?_erase_self]
        unfold Engine.global at nothing
        cases held : e.globals.get? other with
        | none => rfl
        | some values =>
          rw [held] at nothing full
          exact absurd (congrArg some nothing) full
      · exact Map.get?_erase_other _ same
  | safepoint | discard =>
    cases operated
    exact .same (by simp [ClearsEmpty])

-- A list that is there and holds nothing has been so all along: results are
-- only ever added at the end, and a list that is cleared is taken away.
def NoNewEmpties (e next : Engine) : Prop := ∀ name, next.globals.get? name = some [] → e.globals.get? name = some []

theorem NoNewEmpties.of_globals (same : next.globals = e.globals) : NoNewEmpties e next := fun _ empty => same ▸ empty

theorem NoNewEmpties.trans (one : NoNewEmpties e middle) (two : NoNewEmpties middle next) : NoNewEmpties e next :=
  fun name empty => one name (two name empty)

theorem pushGlobal_no_new_empties (e : Engine) (entry : String × Value) : NoNewEmpties e (e.pushGlobal entry) := by
  intro name empty
  change (e.globals.put entry.1 (e.global entry.1 ++ [entry.2])).get? name = some [] at empty
  rw [Map.get?_put] at empty
  split at empty
  · simp at empty
  · exact empty

theorem step_no_new_empties {fired : Option Activation} (stepped : e.step = some (fired,next)) : NoNewEmpties e next := by
  obtain ⟨_,a,agenda,_,rfl | ⟨rule,facts,_,rfl⟩⟩ := step_inv stepped
  · exact .of_globals rfl
  · exact apply_induct (motive := NoNewEmpties e) _ (.of_globals rfl)
      (fun _ entry _ held => held.trans (pushGlobal_no_new_empties _ entry))
      (fun _ fact _ held => held.trans (.of_globals (insert_rest _ fact).2.2))
      (fun _ _ _ _ held deleted => held.trans (.of_globals (delete_rest deleted).2.2))
      fun _ handle held _ _ => held.trans (.of_globals (withdraw_globals _ handle))

theorem operate_no_new_empties (operated : operate e command = .ok (outcome,next)) : NoNewEmpties e next := by
  exact operate_induct (motive := NoNewEmpties e) operated (.of_globals rfl) (fun fact => .of_globals (insert_rest e fact).2.2)
    (fun _ _ done => .of_globals (update_rest done).2.2) (fun _ _ done => .of_globals (delete_rest done).2.2)
    (fun limit => fire_induct (fun _ _ _ held stepped => held.trans (step_no_new_empties stepped)) limit e (.of_globals rfl))
    fun _ _ empty => Map.get?_of_erase empty

end Engine

namespace Session
variable {s next t first : Session} {command : Command} {commands : List Command} {program : Program}

def encoded (s : Session) : List (Tag × ByteArray) := Snapshot.encode s.id s.engine s.options s.stateVersion

theorem discard_kept {σ : Type} [Store σ] (s : Session) (store : σ) :
    (s.process .discard store).2.1.engine = s.engine ∧ (s.process .discard store).2.1.stateVersion = s.stateVersion ∧
      (s.process .discard store).2.1.id = s.id ∧ (s.process .discard store).2.1.options = s.options := by
  simp only [process]
  cases went : (DurableRules.discard s.writer.id : Call σ Unit) store with
  | mk answer after =>
    cases answer with
    | ok _ =>
      have discarded : (s.writer.discard : Call σ Writer) store = (.ok { s.writer with durable := none },after) :=
        bind_of_ok went
      rw [discarded]
      exact ⟨rfl,rfl,rfl,rfl⟩
    | error cause =>
      have failed : (s.writer.discard : Call σ Writer) store = (.error cause,after) := bind_of_error went
      rw [failed]
      exact ⟨rfl,rfl,rfl,rfl⟩

-- What is left of a session in memory after a command is what was reckoned,
-- whatever the store does.
theorem process_kept {σ : Type} [Store σ] (s : Session) (command : Command) (store : σ) :
    (s.process command store).2.1.engine = (s.reckon command).2.1 ∧
      (s.process command store).2.1.stateVersion = (s.reckon command).2.2 ∧
      (s.process command store).2.1.id = s.id ∧ (s.process command store).2.1.options = s.options := by
  cases closes : Mailbox.closes command with
  | false =>
    have reckoned := process_reckoned s command closes store
    exact ⟨reckoned.engine,reckoned.version,reckoned.id,reckoned.options⟩
  | true =>
    have same : command = .discard := by
      cases command <;> first | rfl | cases closes
    subst same
    exact discard_kept s store

section Handling
variable {σ : Type} [Store σ] {store : σ}

theorem process_enduring (enduring : s.engine.Enduring program) (through : s.engine.Exhausts command) (store : σ) :
    (s.process command store).2.1.engine.Enduring program := by
  rw [(process_kept s command store).1]
  unfold reckon
  cases operated : operate s.engine command with
  | error refusal =>
    obtain ⟨cause,engine⟩ := refusal
    cases enduring.founded.operate_refused operated
    exact enduring
  | ok result => exact enduring.operate through operated

theorem process_no_new_empties (s : Session) (command : Command) (store : σ) :
    s.engine.NoNewEmpties (s.process command store).2.1.engine := by
  rw [(process_kept s command store).1]
  unfold reckon
  cases operated : operate s.engine command with
  | error refusal =>
    rcases Engine.operate_error operated with same | ⟨handle,_,_,same⟩
    · exact .of_globals (congrArg Engine.globals same)
    · exact .of_globals ((congrArg Engine.globals same).trans (Engine.withdraw_globals _ handle))
  | ok result => exact Engine.operate_no_new_empties operated

theorem process_later (s : Session) (command : Command) (store : σ) :
    s.stateVersion ≤ (s.process command store).2.1.stateVersion := by
  rw [(process_kept s command store).2.1]
  unfold reckon
  cases operate s.engine command with
  | error cause => exact Nat.le_refl _
  | ok result =>
    dsimp only
    split
    · exact Nat.le_succ _
    · exact Nat.le_refl _

-- Where the state version stays the engine does too, an empty list apart.
theorem process_emptied (enduring : s.engine.Enduring program)
    (same : (s.process command store).2.1.stateVersion = s.stateVersion) :
    s.engine.EmptiesCleared [command] (s.process command store).2.1.engine := by
  obtain ⟨engine,version,_⟩ := process_kept s command store
  rw [version] at same
  rw [engine]
  unfold reckon at same ⊢
  cases operated : operate s.engine command with
  | error refusal =>
    obtain ⟨cause,engine⟩ := refusal
    cases enduring.founded.operate_refused operated
    refine .same fun asked member clears => ?_
    cases List.mem_singleton.mp member
    cases command with
    | clear name => cases operated
    | _ => exact clears
  | ok result =>
    refine Engine.operate_idle enduring operated (Bool.eq_false_iff.mpr fun mutated => ?_)
    simp [operated,mutated] at same

inductive Idle : Command → Except SessionError Outcome → Prop where
  | fired {limit : Nat} : Idle (.fire limit) (.ok (.fired 0))
  | cleared {name : String} : Idle (.clear name) (.ok (.cleared false))
  | unknown {command : Command} {id : SessionId} {handle : Handle} : Idle command (.error (.unknownHandle id handle))

theorem excused_ok {expected : Except SessionError Outcome} {outcome : Outcome} (excused : Excused expected (.ok outcome))
    (apart : ∀ wrote, outcome ≠ .checkpointed wrote) : expected = .ok outcome := by
  cases excused with
  | same => rfl
  | checkpointed _ wrote => exact absurd rfl (apart wrote)

theorem reckon_version {outcome : Outcome} (expected : (s.reckon command).1 = .ok outcome) (quiet : outcome.mutated = false) :
    (s.reckon command).2.2 = s.stateVersion := by
  unfold reckon at expected ⊢
  cases operated : operate s.engine command with
  | error cause => rfl
  | ok result =>
    simp only [operated,Except.ok.injEq] at expected
    simp [expected,quiet]

theorem idle_version (founded : s.engine.Founded) (idle : Idle command (s.process command store).1) :
    (s.process command store).2.1.stateVersion = s.stateVersion := by
  generalize answered : (s.process command store).1 = answer at idle
  cases idle with
  | @fired limit =>
    have answer := (process_reckoned s (.fire limit) rfl store).answer
    rw [answered] at answer
    rw [(process_kept s (.fire limit) store).2.1,reckon_version (excused_ok answer (by simp)) rfl]
  | @cleared name =>
    have answer := (process_reckoned s (.clear name) rfl store).answer
    rw [answered] at answer
    rw [(process_kept s (.clear name) store).2.1,reckon_version (excused_ok answer (by simp)) rfl]
  | unknown => rw [process_unknown founded answered rfl]

end Handling

-- Commands one after the other, each over any store. What is fired is fired to
-- the end, and no number runs over.
inductive Runs : Session → List Command → Session → Prop where
  | nil {s : Session} : Runs s [] s
  | cons {σ : Type} [Store σ] {s t : Session} {command : Command} {commands : List Command} (store : σ)
      (through : s.engine.Exhausts command)
      (bounded : Bounded (s.process command store).2.1.engine (s.process command store).2.1.stateVersion)
      (rest : Runs (s.process command store).2.1 commands t) : Runs s (command :: commands) t

-- A session as it becomes live: created, or restored from anything that is
-- accepted.
inductive Started (program : Program) : Session → Prop where
  | created {σ : Type} [Store σ] [Faithful σ] {store : σ} {id : SessionId} {options : Options} {s : Session}
      (prepared : (Registry.prepare id program options store).1 = .ok s) : Started program s
  | restored {σ : Type} [Store σ] [Faithful σ] {store : σ} {id : SessionId} {options : Options} {found : Recovered}
      (went : (recover id program options.persistence store).1 = .ok found) :
      Started program ⟨found.engine,.resumed id options found.header.stateVersion,found.header.stateVersion⟩

theorem Runs.enduring (runs : Runs s commands t) (enduring : s.engine.Enduring program) : t.engine.Enduring program := by
  induction runs with
  | nil => exact enduring
  | cons store through _ _ ih => exact ih (process_enduring enduring through store)

theorem Runs.no_new_empties (runs : Runs s commands t) : s.engine.NoNewEmpties t.engine := by
  induction runs with
  | nil => exact .of_globals rfl
  | cons store _ _ _ ih => exact (process_no_new_empties _ _ store).trans ih

theorem Runs.later (runs : Runs s commands t) : s.stateVersion ≤ t.stateVersion := by
  induction runs with
  | nil => exact Nat.le_refl _
  | cons store _ _ _ ih => exact Nat.le_trans (process_later _ _ store) ih

theorem Runs.owner (runs : Runs s commands t) : t.id = s.id ∧ t.options = s.options := by
  induction runs with
  | nil => exact ⟨rfl,rfl⟩
  | cons store _ _ _ ih =>
    obtain ⟨_,_,id,options⟩ := process_kept _ _ store
    exact ⟨ih.1.trans id,ih.2.trans options⟩

-- The state version never falls, so where it is as before at the end it was so
-- all the way.
theorem Runs.emptied (runs : Runs s commands t) (enduring : s.engine.Enduring program)
    (same : t.stateVersion = s.stateVersion) : s.engine.EmptiesCleared commands t.engine := by
  induction runs with
  | nil => exact .same (by simp)
  | @cons _ _ s t command _ store through _ rest ih =>
    have still : (s.process command store).2.1.stateVersion = s.stateVersion :=
      Nat.le_antisymm (same ▸ rest.later) (process_later s command store)
    exact (process_emptied enduring still).trans (ih (process_enduring enduring through store) (same.trans still.symm))

theorem encoded_iff (id : t.id = s.id) (options : t.options = s.options) (same : t.stateVersion = s.stateVersion)
    (emptied : s.engine.EmptiesCleared commands t.engine) :
    t.encoded = s.encoded ↔ ∀ command ∈ commands, ¬ s.engine.ClearsEmpty command := by
  unfold encoded
  rw [id,options,same]
  exact emptied.encode_iff

theorem prepared_engine {σ : Type} [Store σ] [Faithful σ] {store : σ} {id : SessionId} {options : Options}
    (prepared : (Registry.prepare id program options store).1 = .ok s) : s.engine = Engine.new program := by
  obtain ⟨_,made,makes,_,_,answer⟩ := prepare_spec id program options store
  have some : made = some s := by
    cases made with
    | none =>
      obtain ⟨cause,failed⟩ := answer
      cases prepared.symm.trans failed
    | some other => exact congrArg Option.some (Except.ok.inj (answer.symm.trans prepared))
  cases makes with
  | refused => cases some
  | undiscarded => cases some
  | explicit =>
    cases some
    rfl
  | always =>
    obtain ⟨_,_,rfl⟩ := Option.map_eq_some_iff.mp some
    rfl

theorem Started.enduring (started : Started program s) : s.engine.Enduring program := by
  cases started with
  | created prepared =>
    rw [prepared_engine prepared]
    exact Engine.Origin.new.enduring
  | restored went => exact (stored_enduring (recover_ok went)).1

-- Commands that are not counted leave the bytes of a snapshot as they are, and
-- so do all commands between two states of one version. The one exception is a
-- list that holds nothing when it is cleared: it goes away although the answer
-- is that there was none. Such a list comes out of the snapshot the session was
-- restored from, and a session that was created never has one.
theorem idle_unchanged_iff (started : Started program first) {past : List Command} (before : Runs first past s) :
    (∀ {σ : Type} [Store σ] (command : Command) (store : σ), Idle command (s.process command store).1 →
      (s.process command store).2.1.stateVersion = s.stateVersion ∧
        ((s.process command store).2.1.encoded = s.encoded ↔ ¬ s.engine.ClearsEmpty command)) ∧
    (∀ commands t, Runs s commands t → t.stateVersion = s.stateVersion →
      (t.encoded = s.encoded ↔ ∀ command ∈ commands, ¬ s.engine.ClearsEmpty command)) ∧
    (∀ name, s.engine.ClearsEmpty (.clear name) → first.engine.ClearsEmpty (.clear name)) ∧
    ∀ {σ : Type} [Store σ] [Faithful σ] {store : σ} {id : SessionId} {options : Options},
      (Registry.prepare id program options store).1 = .ok first → ∀ command, ¬ s.engine.ClearsEmpty command := by
  have enduring := before.enduring started.enduring
  refine ⟨fun command store idle => ?_,fun commands t runs same => ?_,before.no_new_empties,fun prepared command clears => ?_⟩
  · have same := idle_version enduring.founded idle
    obtain ⟨_,_,id,options⟩ := process_kept s command store
    refine ⟨same,(encoded_iff id options same (process_emptied enduring same)).trans ?_⟩
    simp
  · exact encoded_iff runs.owner.1 runs.owner.2 same (runs.emptied enduring same)
  · cases command with
    | clear name =>
      have empty := before.no_new_empties name clears
      rw [prepared_engine prepared] at empty
      cases empty
    | _ => exact clears

def hollow : Engine := { Engine.new noting with globals := Map.empty.put "noted" [] }
def hollowed : Session := ⟨hollow,.resumed .zero shelving.options 1,1⟩

-- The list is cleared, the answer is that there was none, and the next snapshot
-- of the same version is another one.
theorem hollowed_unequal : Started noting hollowed ∧ Runs hollowed [] hollowed ∧
    (hollowed.process (.clear "noted") Memory.empty).1 = .ok (.cleared false) ∧
    (hollowed.process (.clear "noted") Memory.empty).2.1.stateVersion = hollowed.stateVersion ∧
    (hollowed.process (.clear "noted") Memory.empty).2.1.encoded ≠ hollowed.encoded := by
  obtain ⟨written,steady⟩ := write_steady (@Memory.steady Memory.empty rfl) shelving hollow 1
  have rebuilt : Engine.rebuild noting hollow.stores = .ok hollow := rfl
  have whole : stored (shelf (shelving.write hollow 1 Memory.empty).2 .zero) .zero noting .storesOnly =
      .ok ⟨hollow,Snapshot.header .zero hollow shelving.options 1⟩ :=
    (write_complete written).regains rfl (by decide) rebuilt
  have went : (recover .zero noting shelving.options.persistence (shelving.write hollow 1 Memory.empty).2).1 =
      .ok ⟨hollow,Snapshot.header .zero hollow shelving.options 1⟩ := (steady.readable.recovers _ _ _).trans whole
  have started : Started noting hollowed := .restored went
  have answered : (hollowed.process (.clear "noted") Memory.empty).1 = .ok (.cleared false) := rfl
  obtain ⟨exactly,_⟩ := idle_unchanged_iff started .nil
  obtain ⟨version,same⟩ := exactly (.clear "noted") Memory.empty (answered ▸ .cleared)
  exact ⟨started,.nil,answered,version,fun equal => same.mp equal rfl⟩

end Session
end DurableRules
