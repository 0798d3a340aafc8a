import DurableRules.Proofs.Session.Standing

namespace DurableRules
open Recovery

namespace Engine
variable {one two : Engine} {a : Activation}

theorem Satisfied.of_stores (satisfied : Satisfied one a) (left : Coherent one) (right : Coherent two)
    (program : one.program = two.program) (stores : one.stores = two.stores) : Satisfied two a := by
  have facts : one.facts = two.facts := by rw [left.holds.facts,right.holds.facts,stores]
  have roster : one.roster = two.roster := by rw [left.holds.roster,right.holds.roster,stores]
  exact satisfied.congr program (fun _ _ => by rw [roster]) (fun _ _ => by rw [facts])

theorem hasFired_stores (stores : one.stores = two.stores) : one.roster.hasFired a = two.roster.hasFired a := by
  have fired : one.roster.fired = two.roster.fired := congrArg Stores.fired stores
  rw [Roster.hasFired,Roster.hasFired,fired]

end Engine

-- A whole snapshot of an engine of the program, with no network but its own.
structure Kept (id : SessionId) (program : Program) (shelf : Shelf) (e : Engine) (options : Options) (version : Nat) : Prop where
  complete : Complete shelf id e options version
  alone : options.persistence = .storesOnly → shelf .network = none
  storable : Storable e version
  sound : e.Sound
  exact : e.Exact
  program : e.program = program

section Kept
variable {id : SessionId} {program : Program} {shelf : Shelf} {e : Engine} {options : Options} {version : Nat}
  {persistence : Persistence} {found : Recovered}

theorem lies_unique {α : Type} {tag : Tag} {reader : Json.Reader α} {one two : α} (left : Lies shelf tag reader one)
    (right : Lies shelf tag reader two) : one = two := by
  obtain ⟨bytes,lying,read⟩ := left
  obtain ⟨others,also,again⟩ := right
  cases lying.symm.trans also
  cases read.symm.trans again
  rfl

theorem Kept.recovered (kept : Kept id program shelf e options version)
    (went : stored shelf id program persistence = .ok found) :
    found.engine.stores = e.stores ∧ found.engine.Sound ∧ found.engine.Exact ∧ found.engine.program = program := by
  obtain ⟨facts,markers,globals,pieces,built⟩ := stored_ok.mp went
  have own := kept.complete.pieces kept.storable
  have header := lies_unique pieces.isHeader own.isHeader
  cases lies_unique pieces.isFacts.1 own.isFacts.1
  cases lies_unique pieces.isMarkers.1 own.isMarkers.1
  cases lies_unique pieces.isGlobals.1 own.isGlobals.1
  rw [header,Snapshot.stores_components] at built
  cases persistence with
  | storesOnly =>
    have rebuilt : Engine.rebuild program e.stores = .ok found.engine := built
    obtain ⟨holds,coherent,exact,same⟩ := Engine.rebuild_ok rebuilt
    obtain ⟨roster,restored⟩ := Engine.rebuild_roster rebuilt
    exact ⟨holds.stores_eq,⟨coherent,holds.tidy restored kept.sound.tidy.numbered.next kept.sound.tidy.filled⟩,exact,same⟩
  | full =>
    obtain ⟨part,lies,_,adopted⟩ := built
    cases kind : options.persistence with
    | storesOnly =>
      obtain ⟨bytes,lying,_⟩ := lies
      cases (kept.alone kind).symm.trans lying
    | full =>
      have network : Lies shelf .network Snapshot.Propagation.read ⟨version,e.network⟩ :=
        kept.complete.lies (mem_components.mpr (by simp [kind])) (conveys_storedNetwork kept.storable.toBounded)
      cases lies_unique lies network
      rw [← kept.program] at adopted
      rw [Engine.adopt_self kept.sound.coherent adopted]
      exact ⟨rfl,kept.sound,kept.exact,kept.program⟩

theorem Writer.whole_kept (w : Writer) (shelf : Shelf) (storable : Storable e version) (sound : e.Sound) (exact : e.Exact)
    (own : e.program = program) : Kept w.id program ((w.edits e version).foldl Shelf.edit shelf) e w.options version := by
  refine ⟨w.edits_complete shelf e version,fun kind => ?_,storable,sound,exact,own⟩
  rw [edits_eq]
  simp [bodyEdits,headerEdit,kind,Shelf.edit]

end Kept

-- Commands for this session, restarts of it with its program, and anything for
-- the others.
def Operation.keeps (id : SessionId) (program : Program) : Operation → Prop
  | create other _ _ => other ≠ id
  | destroy other => other ≠ id
  | restore other given _ => other = id → given = program
  | recoverAll given => given = program
  | send .. => True
  | failover => True

section History
variable {σ : Type} {id : SessionId} {program : Program} {step : Step σ} {history : List (Step σ)} {s : Session}
  {fired : List Activation}

def Step.executed (id : SessionId) (step : Step σ) : List Activation :=
  match step.operation, step.before.live.get? id with
  | .send other command _, some s => if other = id then s.engine.executed command else []
  | _, _ => []

def executed (id : SessionId) (history : List (Step σ)) : List Activation := history.flatMap (Step.executed id)

def lost (id : SessionId) (history : List (Step σ)) : Option Session :=
  history.findSome? fun step => step.before.live.get? id

theorem lost_cons (step : Step σ) (history : List (Step σ)) :
    lost id (step :: history) = (step.before.live.get? id).or (lost id history) := by
  rw [lost,List.findSome?_cons]
  cases step.before.live.get? id <;> rfl

theorem executed_unmutated (quiet : step.mutates id = false) : step.executed id = [] := by
  unfold Step.executed
  split
  · next other command stays s asked live =>
    split
    · next same =>
      subst same
      rw [Step.mutates,asked,live] at quiet
      cases command with
      | fire limit =>
        have none : (s.engine.fire limit).1 = [] := by simpa [Session.mutates,Session.operate,Outcome.mutated] using quiet
        exact none
      | _ => rfl
    · rfl
  · rfl

theorem executed_skip (quiet : step.mutates id = false) : executed id (step :: history) = executed id history := by
  rw [executed,List.flatMap_cons,executed_unmutated quiet]
  rfl

theorem unsent_mutates (unsent : ∀ other command stays, step.operation ≠ .send other command stays) :
    step.mutates id = false := by
  refine Bool.eq_false_iff.mpr fun mutates => ?_
  obtain ⟨_,_,_,asked,_⟩ := mutates_sent mutates
  exact unsent _ _ _ asked

theorem restored_program {given : Program} {options : Options} (keeps : step.operation.keeps id program)
    (asked : step.operation = .restore id given options ∨ step.operation = .recoverAll given) : given = program := by
  cases asked with
  | inl asked =>
    rw [asked] at keeps
    exact keeps rfl
  | inr asked =>
    rw [asked] at keeps
    exact keeps

-- A session of the program whose markers are what it has fired.
structure MarksFired (program : Program) (fired : List Activation) (s : Session) : Prop where
  sound : s.engine.Sound
  exact : s.engine.Exact
  program : s.engine.program = program
  marks : ∀ a, s.engine.roster.hasFired a = true ↔ a ∈ fired

theorem MarksFired.operated {command : Command} {outcome : Outcome} {engine : Engine}
    (marking : MarksFired program fired s) (once : fired.Nodup) (operated : Session.operate s.engine command = .ok (outcome,engine))
    (writer : Writer) (version : Nat) : (s.engine.executed command ++ fired).Nodup ∧
      MarksFired program (s.engine.executed command ++ fired) ⟨engine,writer,version⟩ := by
  have coherent := marking.sound.coherent
  obtain ⟨apart,fresh,marked⟩ := Engine.operate_markers coherent operated
  refine ⟨List.nodup_append.mpr ⟨apart,once,fun a new b old same => ?_⟩,?_⟩
  · have unmarked := fresh a new
    rw [same,(marking.marks b).mpr old] at unmarked
    cases unmarked
  · refine ⟨marking.sound.operate operated,marking.exact.operate coherent operated,
      (Engine.operate_program coherent operated).trans marking.program,fun a => ?_⟩
    rw [marked,List.mem_append,marking.marks]

theorem MarksFired.restored (marking : MarksFired program fired s) {e : Engine} (stores : e.stores = s.engine.stores)
    (sound : e.Sound) (exact : e.Exact) (same : e.program = program) (writer : Writer) (version : Nat) :
    MarksFired program fired ⟨e,writer,version⟩ := by
  refine ⟨sound,exact,same,fun a => ?_⟩
  rw [Engine.hasFired_stores stores]
  exact marking.marks a

-- What is stored is the session as it is, if it is lost, if all its changes are
-- written or if it has just been asked for a safepoint. Or nothing is stored
-- yet, and nothing has been lost.
inductive Backed (id : SessionId) (program : Program) (shelf : Shelf) (live settled : Bool) (s : Session) : Prop where
  | unsaved (absent : shelf .header = none) (live : live = true) (explicit : s.options.safepoint = .explicit)
      (unsettled : settled = false)
  | saved {e : Engine} {options : Options} {version : Nat} (kept : Kept id program shelf e options version)
      (current : live = false ∨ s.options.safepoint = .always ∨ settled = true → e.stores = s.engine.stores)

end History

section Guards
variable {σ : Type} [Store σ] {id : SessionId} {step : Step σ} {history : List (Step σ)}

-- A live session is gone after the step, or another one stands in its place.
def Step.loses (id : SessionId) (step : Step σ) : Bool :=
  match step.operation with
  | .failover => true
  | _ => step.restores id

-- There was a safepoint, and nothing has been changed since.
def settled (id : SessionId) : List (Step σ) → Bool
  | [] => false
  | step :: earlier => step.checkpoints id || (!step.mutates id && settled id earlier)

-- Where only safepoints are written, each loss comes after one.
def Guarded (id : SessionId) : List (Step σ) → Prop
  | [] => True
  | step :: earlier => Guarded id earlier ∧ (step.loses id = true → ∀ s, step.before.live.get? id = some s →
      s.options.safepoint = .explicit → settled id earlier = true)

instance Guarded.decidable (id : SessionId) : (history : List (Step σ)) → Decidable (Guarded id history)
  | [] => .isTrue trivial
  | step :: earlier =>
    have := Guarded.decidable id earlier
    decidable_of_iff (Guarded id earlier ∧ (step.loses id = true → ∀ s ∈ (step.before.live.get? id).toList,
      s.options.safepoint = .explicit → settled id earlier = true))
      (by simp only [Option.mem_toList,Guarded])

theorem settled_mutated (mutates : step.mutates id = true) (apart : step.safepoints id = false) :
    settled id (step :: history) = false := by
  simp [settled,Step.checkpoints,apart,mutates]

theorem settled_unmutated (mutates : step.mutates id = false) (apart : step.safepoints id = false) :
    settled id (step :: history) = settled id history := by
  simp [settled,Step.checkpoints,apart,mutates]

end Guards

variable {σ : Type} [Store σ] [Faithful σ]

section Step
variable {id : SessionId} {program : Program} {step : Step σ} {history : List (Step σ)} {r : Registry σ} {s next : Session}

-- No action has run twice, and the session that is live, or was live last, has
-- fared well and is backed by what is stored.
structure Survives (id : SessionId) (program : Program) (history : List (Step σ)) (r : Registry σ) : Prop where
  once : (executed id history).Nodup
  latest : ∃ s, (r.live.get? id).or (lost id history) = some s ∧ MarksFired program (executed id history) s ∧
    Backed id program (shelf r.store id) (r.live.get? id).isSome (settled id history) s

theorem Survives.alive (live : step.after.live.get? id = some next) (once : (executed id (step :: history)).Nodup)
    (marking : MarksFired program (executed id (step :: history)) next)
    (backed : Backed id program (shelf step.after.store id) true (settled id (step :: history)) next) :
    Survives id program (step :: history) step.after := by
  refine ⟨once,next,?_,marking,?_⟩
  · rw [live,Option.some_or]
  · rw [live]
    exact backed

theorem Survives.here (held : Survives id program history r) (live : r.live.get? id = some s) :
    MarksFired program (executed id history) s ∧ Backed id program (shelf r.store id) true (settled id history) s := by
  obtain ⟨_,latest,found,marking,backed⟩ := held
  rw [live,Option.some_or] at found
  cases found
  rw [live] at backed
  exact ⟨marking,backed⟩

section Handled
variable {command : Command} {stays : Mailbox.closes command = false} {edits : List Edit}
  {answer : Except SessionError Outcome} {outcome : Outcome} {engine : Engine} {writer : Writer} {version : Nat}

theorem Survives.still (held : Survives id program history step.before) (live : step.before.live.get? id = some s)
    (after : step.after.live.get? id = some { s with writer }) (unmutated : step.mutates id = false)
    (backed : Backed id program (shelf step.before.store id) true (settled id history) s →
      Backed id program (shelf step.after.store id) true (settled id (step :: history)) { s with writer }) :
    Survives id program (step :: history) step.after := by
  obtain ⟨marking,before⟩ := held.here live
  have unchanged : executed id (step :: history) = executed id history := executed_skip unmutated
  refine .alive after (unchanged ▸ held.once) ?_ (backed before)
  rw [unchanged]
  exact ⟨marking.sound,marking.exact,marking.program,marking.marks⟩

theorem Survives.moved (held : Survives id program history step.before) (asked : step.operation = .send id command stays)
    (live : step.before.live.get? id = some s) (after : step.after.live.get? id = some ⟨engine,writer,version⟩)
    (operated : Session.operate s.engine command = .ok (outcome,engine))
    (backed : Backed id program (shelf step.before.store id) true (settled id history) s → engine.Sound → engine.Exact →
      engine.program = program →
      Backed id program (shelf step.after.store id) true (settled id (step :: history)) ⟨engine,writer,version⟩) :
    Survives id program (step :: history) step.after := by
  obtain ⟨marking,before⟩ := held.here live
  have grown : executed id (step :: history) = s.engine.executed command ++ executed id history := by
    rw [executed,List.flatMap_cons,executed]
    simp [Step.executed,asked,live]
  obtain ⟨once,marking⟩ := marking.operated held.once operated writer version
  exact .alive after (grown ▸ once) (grown ▸ marking) (backed before marking.sound marking.exact marking.program)

theorem handled_survives (asked : step.operation = .send id command stays)
    (live : step.before.live.get? id = some s) (name : s.id = id)
    (processed : s.Processed (Steady step.before.store) command edits answer next) (steady : Steady step.before.store)
    (storable : Storable next.engine next.stateVersion) (after : step.after.live.get? id = some next)
    (changed : shelf step.after.store id = edits.foldl Shelf.edit (shelf step.before.store id))
    (held : Survives id program history step.before) : Survives id program (step :: history) step.after := by
  subst name
  have mutates := send_mutates asked live
  cases processed with
  | refused refused =>
    rw [Session.mutates,refused] at mutates
    cases (held.here live).1.sound.coherent.founded.operate_refused refused
    refine held.still live after mutates fun backed => ?_
    rw [changed,settled_unmutated mutates (safepoints_other asked live (Engine.refused_apart refused))]
    exact backed
  | quiet operated idle other =>
    rw [Session.mutates,operated] at mutates
    have unmutated : step.mutates s.id = false := mutates.trans idle
    cases (held.here live).1.sound.unmutated operated idle
    refine held.still live after unmutated fun backed => ?_
    rw [changed,settled_unmutated unmutated (safepoints_other asked live (Engine.outcome_apart operated other))]
    exact backed
  | kept operated mutated explicit =>
    rw [Session.mutates,operated] at mutates
    refine held.moved asked live after operated fun backed _ _ _ => ?_
    rw [changed,settled_mutated (mutates.trans mutated) (safepoints_other asked live (Engine.mutated_apart operated mutated))]
    cases backed with
    | unsaved absent => exact .unsaved absent rfl explicit rfl
    | saved kept =>
      refine .saved kept fun kind => ?_
      rcases kind with dead | always | settled
      · cases dead
      · cases explicit.symm.trans always
      · cases settled
  | written operated mutated always attempt answers =>
    cases attempt with
    | cut count short unsteady => exact absurd steady unsteady
    | whole =>
      refine held.moved asked live after operated fun _ sound exact program => ?_
      rw [changed]
      exact .saved (s.writer.whole_kept _ storable sound exact program) fun _ => rfl
  | skipped always durable =>
    refine held.still live after mutates fun backed => ?_
    rw [changed]
    cases backed with
    | unsaved _ _ explicit => cases explicit.symm.trans always
    | saved kept current => exact .saved kept fun _ => current (.inr (.inl always))
  | checkpointed due attempt answers =>
    cases attempt with
    | cut count short unsteady => exact absurd steady unsteady
    | whole =>
      have marking := (held.here live).1
      refine held.still live after mutates fun backed => ?_
      rw [changed]
      exact .saved (s.writer.whole_kept _ storable marking.sound marking.exact marking.program) fun _ => rfl

end Handled

-- A session that may be lost, or is, is stored as it was.
theorem Survives.current (held : Survives id program history r)
    (guarded : ∀ s, r.live.get? id = some s → s.options.safepoint = .explicit → settled id history = true) :
    ∃ s e options version, (r.live.get? id).or (lost id history) = some s ∧ MarksFired program (executed id history) s ∧
      Kept id program (shelf r.store id) e options version ∧ e.stores = s.engine.stores := by
  cases here : r.live.get? id with
  | none =>
    obtain ⟨once,s,found,marking,backed⟩ := held
    rw [here] at found backed
    cases backed with
    | unsaved _ live => cases live
    | saved kept current => exact ⟨s,_,_,_,found,marking,kept,current (.inl rfl)⟩
  | some s =>
    obtain ⟨marking,backed⟩ := held.here here
    cases backed with
    | unsaved _ _ explicit unsettled =>
      rw [guarded s here explicit] at unsettled
      cases unsettled
    | saved kept current =>
      refine ⟨s,_,_,_,Option.some_or,marking,kept,current (.inr ?_)⟩
      cases strategy : s.options.safepoint with
      | always => exact .inl rfl
      | explicit => exact .inr (guarded s here strategy)

theorem Survives.idle (held : Survives id program history step.before) (mutates : step.mutates id = false)
    (apart : step.safepoints id = false) (live : step.after.live.get? id = step.before.live.get? id)
    (lying : shelf step.after.store id = shelf step.before.store id) : Survives id program (step :: history) step.after := by
  obtain ⟨once,s,found,marking,backed⟩ := held
  have same : executed id (step :: history) = executed id history := executed_skip mutates
  refine ⟨same ▸ once,s,?_,same ▸ marking,?_⟩
  · rw [live,lost_cons]
    cases here : step.before.live.get? id with
    | none =>
      rw [here] at found
      exact found
    | some last =>
      rw [here] at found
      exact found
  · rw [live,lying,settled_unmutated mutates apart]
    exact backed

theorem Touches.survives {edits : List Edit} (touches : Touches id step edits) (named : Named step.before)
    (steady : Steady step.before.store) (keeps : step.operation.keeps id program) (storable : step.Storable id)
    (guarded : Guarded id (step :: history)) (held : Survives id program history step.before) :
    Survives id program (step :: history) step.after := by
  have own := touches.own
  have changed := touches.shelf
  have change := touches.change
  generalize here : step.before.live.get? id = before at change
  generalize after : step.after.live.get? id = next at change
  cases change with
  | idle apart creates restores mutates safepoints =>
    cases List.eq_nil_iff_forall_not_mem.mpr fun edit present => apart edit present (own edit present)
    exact held.idle mutates safepoints (after.trans here.symm) changed
  | handled asked live _ processed =>
    exact handled_survives asked live (named id _ live) processed steady (storable _ after) after changed held
  | lost asked =>
    obtain ⟨s,e,options,version,found,marking,kept,stores⟩ := held.current (guarded.2 (by simp [Step.loses,asked]))
    have same : executed id (step :: history) = executed id history := executed_skip (unsent_mutates (by simp [asked]))
    refine ⟨same ▸ held.once,s,?_,same ▸ marking,?_⟩
    · rw [after,lost_cons]
      exact found
    · rw [changed]
      exact .saved kept fun _ => stores
  | destroyed asked =>
    rw [asked] at keeps
    exact absurd rfl keeps
  | created asked =>
    rw [asked] at keeps
    exact absurd rfl keeps
  | restored asked restores stored =>
    have loses : step.loses id = true := by
      rcases asked with asked | asked <;> simp [Step.loses,asked,restores]
    obtain ⟨s,e,options,version,found,marking,kept,stores⟩ := held.current (guarded.2 loses)
    cases restored_program keeps asked
    obtain ⟨same,sound,exact,program⟩ := kept.recovered stored
    have unsent : ∀ other command stays, step.operation ≠ .send other command stays := by
      rcases asked with asked | asked <;> simp [asked]
    have unchanged : executed id (step :: history) = executed id history := executed_skip (unsent_mutates unsent)
    refine .alive after (unchanged ▸ held.once) ?_ ?_
    · rw [unchanged]
      exact marking.restored (same.trans stores) sound exact program _ _
    · rw [changed]
      exact .saved kept fun _ => same.symm

-- What was satisfied when the session was lost and has not fired is pending again.
theorem Touches.pending {edits : List Edit} (touches : Touches id step edits) (keeps : step.operation.keeps id program)
    (guarded : Guarded id (step :: history)) (held : Survives id program history step.before)
    (restores : step.restores id = true) : ∃ last next, lost id (step :: history) = some last ∧
      step.after.live.get? id = some next ∧
      ∀ a, last.engine.Satisfied a → a ∉ executed id history → a ∈ next.engine.pending := by
  have change := touches.change
  generalize step.before.live.get? id = before at change
  generalize after : step.after.live.get? id = next at change
  cases change with
  | idle _ _ apart =>
    rw [apart] at restores
    cases restores
  | handled asked => simp [Step.restores,asked] at restores
  | lost asked => simp [Step.restores,asked] at restores
  | destroyed asked => simp [Step.restores,asked] at restores
  | created asked => simp [Step.restores,asked] at restores
  | restored asked _ stored =>
    have loses : step.loses id = true := by
      rcases asked with asked | asked <;> simp [Step.loses,asked,restores]
    obtain ⟨last,e,options,version,found,marking,kept,stores⟩ := held.current (guarded.2 loses)
    cases restored_program keeps asked
    obtain ⟨same,sound,exact,program⟩ := kept.recovered stored
    refine ⟨last,_,(lost_cons step history).trans found,rfl,fun a satisfied unfired => ?_⟩
    have back := same.trans stores
    refine (exact a).mpr ⟨satisfied.of_stores marking.sound.coherent sound.coherent (marking.program.trans program.symm) back.symm,?_⟩
    rw [Engine.hasFired_stores back,Bool.eq_false_iff]
    exact fun marked => unfired ((marking.marks a).mp marked)

theorem Prepared.backed {steady : Prop} {around : Shelf} {options : Options} {edits : List Edit}
    (prepared : Prepared steady around id program options edits (some s)) : MarksFired program [] s ∧
      Backed id program (edits.foldl Shelf.edit around) true false s := by
  obtain ⟨_,_,engine,_⟩ := prepared.empty
  have marking : MarksFired program [] s := by
    refine ⟨engine ▸ Engine.new_sound program,engine ▸ Engine.new_exact program,engine ▸ rfl,fun a => ?_⟩
    rw [engine]
    exact ⟨fun marked => absurd marked Bool.false_ne_true,fun fired => absurd fired List.not_mem_nil⟩
  refine ⟨marking,?_⟩
  generalize whole : some s = made at prepared
  cases prepared with
  | refused => cases whole
  | undiscarded => cases whole
  | explicit _ strategy =>
    cases whole
    exact .unsaved rfl rfl strategy rfl
  | always _ _ attempt =>
    cases attempt with
    | cut => cases whole
    | whole =>
      cases whole
      rw [List.foldl_append]
      have kept := (Writer.new id options).whole_kept ((discards id).foldl Shelf.edit around) (new_storable program)
        marking.sound marking.exact marking.program
      exact .saved kept fun _ => rfl

theorem created_survives {options : Options} (named : Named r) (created : (r.create id program options).1 = .ok id) :
    Survives id program [] (r.create id program options).2 := by
  let step : Step σ := ⟨r,.create id program options⟩
  obtain ⟨edits,touches,_⟩ := step_touches step named id
  have creates : step.creates id = true := by
    simp [step,Step.creates,Step.answer,Operation.perform,created,Except.map]
  have changed := touches.shelf
  have change := touches.change
  generalize step.before.live.get? id = before at change
  generalize after : step.after.live.get? id = made at change
  cases change with
  | idle _ absent =>
    rw [absent] at creates
    cases creates
  | handled asked => cases asked
  | lost asked => cases asked
  | destroyed asked => cases asked
  | restored asked => rcases asked with asked | asked <;> cases asked
  | created asked found prepared =>
    cases asked
    rw [creates] at found
    cases made with
    | none => cases found
    | some s =>
      obtain ⟨marking,backed⟩ := prepared.backed
      have live : (r.create id program options).2.live.get? id = some s := after
      refine ⟨List.nodup_nil,s,?_,marking,?_⟩
      · rw [live,Option.some_or]
      · rw [live,show shelf (r.create id program options).2.store id = _ from changed]
        exact backed

end Step

section Run
variable {id : SessionId} {program : Program} {options : Options} {store : σ} {earlier history : List (Step σ)}
  {start made r : Registry σ}

omit [Faithful σ] in
theorem Run.before {later past : List (Step σ)} {step : Step σ} (run : Run start (later ++ step :: past) r) :
    Run start past step.before := by
  induction later generalizing r with
  | nil =>
    cases run with
    | next run => exact run
  | cons _ rest ih =>
    cases run with
    | next run => exact ih run

omit [Faithful σ] in
theorem Guarded.before {later past : List (Step σ)} (guarded : Guarded id (later ++ past)) : Guarded id past := by
  induction later with
  | nil => exact guarded
  | cons _ rest ih => exact ih guarded.1

theorem run_steady (run : Run (Registry.new store) history r) (steady : Steady store) (id : SessionId) : Steady r.store := by
  induction run with
  | start => exact steady
  | next run operation ih =>
    obtain ⟨_,_,_,still⟩ := step_effect ⟨_,operation⟩ (run_named run) id
    exact still ih

theorem run_survives (named : Named start) (steady : Steady start.store) (survives : Survives id program [] start)
    (run : Run start history r) (keeps : ∀ step ∈ history, step.operation.keeps id program)
    (storable : ∀ step ∈ history, step.Storable id) (guarded : Guarded id history) :
    Named r ∧ Steady r.store ∧ Survives id program history r := by
  induction run with
  | start => exact ⟨named,steady,survives⟩
  | next run operation ih =>
    obtain ⟨named,steady,survives⟩ := ih (fun step present => keeps step (List.mem_cons_of_mem _ present))
      (fun step present => storable step (List.mem_cons_of_mem _ present)) guarded.1
    obtain ⟨edits,touches,still⟩ := step_touches ⟨_,operation⟩ named id
    exact ⟨named_step _ named,still steady,touches.survives named steady (keeps _ List.mem_cons_self)
      (storable _ List.mem_cons_self) guarded survives⟩

-- Over a store that does not fail no action runs twice, however often the
-- session is lost and restored, and what was due when it was lost is due again.
theorem fired_once (before : Run (Registry.new store) earlier made) (steady : Steady store)
    (created : (made.create id program options).1 = .ok id) (run : Run (made.create id program options).2 history r)
    (keeps : ∀ step ∈ history, step.operation.keeps id program) (storable : ∀ step ∈ history, step.Storable id)
    (guarded : Guarded id history) : (executed id history).Nodup ∧
      ∀ later restore past, history = later ++ restore :: past → restore.restores id = true → ∃ last next,
        lost id (restore :: past) = some last ∧ restore.after.live.get? id = some next ∧
        ∀ a, last.engine.Satisfied a → a ∉ executed id past → a ∈ next.engine.pending := by
  have named : Named (made.create id program options).2 := named_step ⟨made,.create id program options⟩ (run_named before)
  have start := created_survives (run_named before) created
  have still : Steady (made.create id program options).2.store := by
    obtain ⟨_,_,_,still⟩ := create_effect made id program options id
    exact still (run_steady before steady id)
  refine ⟨(run_survives named still start run keeps storable guarded).2.2.once,fun later restore past split restores => ?_⟩
  subst split
  have inside (step : Step σ) (present : step ∈ past) : step ∈ later ++ restore :: past :=
    List.mem_append_right _ (List.mem_cons_of_mem _ present)
  have here : restore ∈ later ++ restore :: past := List.mem_append_right _ List.mem_cons_self
  obtain ⟨named,_,survives⟩ := run_survives named still start run.before (fun step present => keeps step (inside step present))
    (fun step present => storable step (inside step present)) guarded.before.1
  obtain ⟨edits,touches,_⟩ := step_touches restore named id
  exact touches.pending (keeps _ here) guarded.before survives restores

end Run

-- A parcel is saved and lost before it is noted.
def vacant : Registry Memory := Registry.new Memory.empty

def rescue : List Operation := [
  .fire .zero 9,.restore .zero noting ⟨.storesOnly,.always⟩,.failover,.checkpoint .zero,.insert .zero parcel]

def rescued : List (Step Memory) × Registry Memory :=
  play (vacant.create .zero noting ⟨.storesOnly,.explicit⟩).2 rescue

theorem rescued_once : (vacant.create .zero noting ⟨.storesOnly,.explicit⟩).1 = .ok .zero ∧
    (executed .zero rescued.1).Nodup ∧
      ∀ later restore past, rescued.1 = later ++ restore :: past → restore.restores .zero = true → ∃ last next,
        lost .zero (restore :: past) = some last ∧ restore.after.live.get? .zero = some next ∧
        ∀ a, last.engine.Satisfied a → a ∉ executed .zero past → a ∈ next.engine.pending := by
  have created : (vacant.create .zero noting ⟨.storesOnly,.explicit⟩).1 = .ok .zero := rfl
  have run : Run (vacant.create .zero noting ⟨.storesOnly,.explicit⟩).2 rescued.1 rescued.2 := play_run _ _
  have held : (∀ step ∈ rescued.1, step.Storable .zero) ∧ Guarded .zero rescued.1 := by decide +kernel
  have allowed : ∀ operation ∈ rescued.1.map Step.operation, operation.keeps .zero noting := by
    rw [rescued,play_operations]
    simp [rescue,Operation.keeps,Operation.insert,Operation.fire,Operation.checkpoint]
  exact ⟨created,fired_once .start (Memory.steady rfl) created run (List.forall_mem_map.mp allowed) held.1 held.2⟩

end DurableRules
