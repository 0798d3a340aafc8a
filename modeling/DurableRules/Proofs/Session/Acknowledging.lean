import DurableRules.Proofs.Session.Standing

namespace DurableRules

def Session.Flushed (s : Session) (shelf : Shelf) : Prop := ∃ found,
  Recovery.stored shelf s.id s.engine.program s.options.persistence = .ok found ∧
    found.engine.stores = s.engine.stores ∧
    (s.options.persistence = .full → found.engine.network = s.engine.network) ∧
    found.header.stateVersion = s.stateVersion

theorem Writer.whole_flushed (w : Writer) {e : Engine} {version : Nat} (shelf : Shelf) (bounded : Bounded e version)
    (sound : e.Sound) (portable : e.stores.Portable) :
    (Session.mk e { w with durable := some version } version).Flushed ((w.edits e version).foldl Shelf.edit shelf) := by
  obtain ⟨next,stored,stores,full⟩ :=
    (w.edits_complete shelf e version).recovers ⟨bounded,portable⟩ sound.coherent sound.tidy
  exact ⟨_,stored,stores,fun kind => by rw [full kind],rfl⟩

variable {σ : Type} [Store σ] [Faithful σ]

def Step.concerns (id : SessionId) (step : Step σ) : Bool :=
  step.begins id || step.mutates id || step.safepoints id

def mutations (id : SessionId) (history : List (Step σ)) : Nat :=
  (history.takeWhile fun step => !step.begins id).countP (Step.mutates id)

section Step
variable {id : SessionId} {step : Step σ} {history : List (Step σ)} {r after : Registry σ} {s next : Session}

-- The writer claims nothing that has not been reached, a safepoint it skips is
-- not needed, what was acknowledged is flushed, and the versions are counted.
structure Acknowledged (id : SessionId) (history : List (Step σ)) (r : Registry σ) (s : Session) : Prop where
  reached : ∀ version, s.writer.durable = some version → version ≤ s.stateVersion
  skipping : s.options.safepoint = .always → s.writer.durable = some s.stateVersion → s.engine.stores.Portable →
    s.Flushed (shelf r.store id)
  flushed : ∀ last, history.find? (Step.concerns id) = some last → last.accepted = true →
    s.options.safepoint = .always ∨ last.restores id = true ∨ last.checkpoints id = true → s.engine.stores.Portable →
    s.Flushed (shelf r.store id)
  counted : ∃ first start, history.find? (Step.begins id) = some first ∧ first.after.live.get? id = some start ∧
    s.stateVersion = start.stateVersion + mutations id history

theorem Acknowledged.passed (held : Acknowledged id history r s) (quiet : step.concerns id = false)
    (same : shelf after.store id = shelf r.store id) : Acknowledged id (step :: history) after s := by
  obtain ⟨reached,skipping,flushed,first,start,found,live,counted⟩ := held
  have parts := quiet
  simp only [Step.concerns,Bool.or_eq_false_iff] at parts
  obtain ⟨⟨begins,mutates⟩,_⟩ := parts
  refine ⟨reached,same ▸ skipping,fun last recent => ?_,first,start,?_,live,?_⟩
  · rw [List.find?_cons_of_neg (by simp [quiet])] at recent
    rw [same]
    exact flushed last recent
  · rw [List.find?_cons_of_neg (by simp [begins])]
    exact found
  · rw [counted,mutations,mutations,List.takeWhile_cons_of_pos (by simp [begins]),List.countP_cons_of_neg (by simp [mutates])]

theorem Acknowledged.concerned (held : Acknowledged id history r s) (begins : step.begins id = false)
    (concerns : step.concerns id = true) (reached : ∀ version, next.writer.durable = some version → version ≤ next.stateVersion)
    (skipping : next.options.safepoint = .always → next.writer.durable = some next.stateVersion →
      next.engine.stores.Portable → next.Flushed (shelf after.store id))
    (flushed : step.accepted = true → next.options.safepoint = .always ∨ step.checkpoints id = true →
      next.engine.stores.Portable → next.Flushed (shelf after.store id))
    (version : next.stateVersion = s.stateVersion + if step.mutates id then 1 else 0) :
    Acknowledged id (step :: history) after next := by
  obtain ⟨_,_,_,first,start,found,live,counted⟩ := held
  refine ⟨reached,skipping,fun last recent accepted kind => ?_,first,start,?_,live,?_⟩
  · rw [List.find?_cons_of_pos concerns] at recent
    cases recent
    have restores : step.restores id = false := (Bool.or_eq_false_iff.mp begins).2
    rw [restores] at kind
    exact flushed accepted (kind.imp_right fun kind => kind.resolve_left Bool.false_ne_true)
  · rw [List.find?_cons_of_neg (by simp [begins])]
    exact found
  · rw [version,counted,mutations,mutations,List.takeWhile_cons_of_pos (by simp [begins]),List.countP_cons,Nat.add_assoc]

-- Once all is written the writer may claim it.
theorem Acknowledged.written (held : Acknowledged id history r s) (begins : step.begins id = false)
    (concerns : step.concerns id = true) (claimed : next.writer.durable = some next.stateVersion)
    (flushed : next.engine.stores.Portable → next.Flushed (shelf after.store id))
    (version : next.stateVersion = s.stateVersion + if step.mutates id then 1 else 0) :
    Acknowledged id (step :: history) after next := by
  refine held.concerned begins concerns (fun durable claims => ?_) (fun _ _ => flushed) (fun _ _ => flushed) version
  cases claimed.symm.trans claims
  exact Nat.le_refl _

-- A checkpoint that succeeds flushes the session, and one that is cut short is not acknowledged.
theorem Acknowledged.attempted (held : Acknowledged id history step.before s) (begins : step.begins id = false)
    (concerns : step.concerns id = true) {steady : Prop} {engine : Engine} {version : Nat} {edits : List Edit}
    {done : Option Writer} (attempt : Attempt steady s.writer engine version edits done)
    (answers : done.isSome = step.accepted) (bounded : Bounded engine version) (sound : engine.Sound)
    (changed : shelf step.after.store id = edits.foldl Shelf.edit (shelf step.before.store id))
    (counted : version = s.stateVersion + if step.mutates id then 1 else 0)
    (due : s.options.safepoint = .always → s.writer.durable ≠ some version) :
    Acknowledged id (step :: history) step.after ⟨engine,done.getD s.writer,version⟩ := by
  cases attempt with
  | whole =>
    have flushed := s.writer.whole_flushed (shelf step.before.store id) bounded sound
    rw [← changed] at flushed
    exact held.written begins concerns rfl flushed counted
  | cut count =>
    refine held.concerned begins concerns (fun durable claimed => ?_) (fun always claimed => absurd claimed (due always))
      (fun went => ?_) counted
    · exact (held.reached durable claimed).trans (counted ▸ Nat.le_add_right _ _)
    · rw [← answers] at went
      cases went

theorem Acknowledged.begun (begins : step.begins id = true) (live : step.after.live.get? id = some s)
    (reached : ∀ version, s.writer.durable = some version → version ≤ s.stateVersion)
    (skipping : s.options.safepoint = .always → s.writer.durable = some s.stateVersion → s.engine.stores.Portable →
      s.Flushed (shelf step.after.store id))
    (flushed : s.options.safepoint = .always ∨ step.restores id = true ∨ step.checkpoints id = true →
      s.engine.stores.Portable → s.Flushed (shelf step.after.store id)) :
    Acknowledged id (step :: history) step.after s := by
  have concerns : step.concerns id = true := by simp [Step.concerns,begins]
  refine ⟨reached,skipping,fun last recent _ kind => ?_,step,s,?_,live,?_⟩
  · rw [List.find?_cons_of_pos concerns] at recent
    cases recent
    exact flushed kind
  · rw [List.find?_cons_of_pos begins]
  · rw [mutations,List.takeWhile_cons_of_neg (by simp [begins])]
    rfl

theorem Acknowledged.begun_written (begins : step.begins id = true) (live : step.after.live.get? id = some s)
    (claimed : s.writer.durable = some s.stateVersion)
    (flushed : s.engine.stores.Portable → s.Flushed (shelf step.after.store id)) :
    Acknowledged id (step :: history) step.after s := by
  refine .begun begins live (fun durable claims => ?_) (fun _ _ => flushed) (fun _ => flushed)
  cases claimed.symm.trans claims
  exact Nat.le_refl _

section Handled
variable {command : Command} {stays : Mailbox.closes command = false} {edits : List Edit}
  {answer : Except SessionError Outcome}

theorem handled_acknowledged (asked : step.operation = .send id command stays) (live : step.before.live.get? id = some s)
    (answered : step.answer = answer.map .handled) (processed : s.Processed (Steady step.before.store) command edits answer next)
    (sound : s.engine.Sound) (bounded : Bounded next.engine next.stateVersion)
    (changed : shelf step.after.store id = edits.foldl Shelf.edit (shelf step.before.store id))
    (held : Acknowledged id history step.before s) : Acknowledged id (step :: history) step.after next := by
  have begins := send_begins asked
  have mutates := send_mutates asked live
  have safepoints := safepoints_iff asked live
  have accepted : step.accepted = answer.isOk := by
    rw [Step.accepted,answered]
    cases answer <;> rfl
  have quiet (unmutated : step.mutates id = false) (other : command ≠ .safepoint) : step.concerns id = false := by
    simp [Step.concerns,begins,unmutated,safepoints_other asked live other]
  have kept := processed.same.2.2 sound
  cases processed with
  | refused refused =>
    rw [Session.mutates,refused] at mutates
    cases sound.coherent.founded.operate_refused refused
    exact held.passed (quiet mutates (Engine.refused_apart refused)) changed
  | quiet operated idle other =>
    rw [Session.mutates,operated] at mutates
    cases sound.unmutated operated idle
    exact held.passed (quiet (mutates.trans idle) (Engine.outcome_apart operated other)) changed
  | kept operated mutated explicit =>
    rw [Session.mutates,operated] at mutates
    have mutates : step.mutates id = true := mutates.trans mutated
    refine held.concerned begins (by simp [Step.concerns,mutates]) ?_ ?_ ?_ (by simp [mutates])
    · exact fun version claimed => Nat.le_succ_of_le (held.reached version claimed)
    · intro always
      cases explicit.symm.trans always
    · intro _ kind
      cases kind with
      | inl always => cases explicit.symm.trans always
      | inr checkpoints =>
        have asks := safepoints.mp (Bool.and_eq_true_iff.mp checkpoints).1
        exact absurd asks (Engine.mutated_apart operated mutated)
  | written operated mutated always attempt answers =>
    rw [Session.mutates,operated] at mutates
    have mutates : step.mutates id = true := mutates.trans mutated
    have concerns : step.concerns id = true := by simp [Step.concerns,mutates]
    refine held.attempted begins concerns attempt (answers.trans accepted.symm) bounded kept changed (by simp [mutates]) ?_
    exact fun _ claimed => absurd (held.reached _ claimed) (Nat.not_succ_le_self _)
  | skipped always durable =>
    have unmutated : step.mutates id = false := mutates
    have flushed := held.skipping always durable
    have concerns : step.concerns id = true := by simp [Step.concerns,safepoints.mpr rfl]
    rw [show shelf step.before.store id = shelf step.after.store id from changed.symm] at flushed
    exact held.written begins concerns durable flushed (by simp [unmutated])
  | checkpointed due attempt answers =>
    have unmutated : step.mutates id = false := mutates
    have concerns : step.concerns id = true := by simp [Step.concerns,safepoints.mpr rfl]
    exact held.attempted begins concerns attempt (answers.trans accepted.symm) bounded kept changed (by simp [unmutated])
      fun always claimed => due ⟨always,claimed⟩

end Handled

theorem created_acknowledged {program : Program} {options : Options} {edits : List Edit} {around : Shelf}
    (asked : step.operation = .create id program options) (creates : step.creates id = true)
    (live : step.after.live.get? id = some s) {steady : Prop}
    (prepared : Prepared steady around id program options edits (some s))
    (changed : shelf step.after.store id = edits.foldl Shelf.edit around) :
    Acknowledged id (step :: history) step.after s := by
  have begins : step.begins id = true := by simp [Step.begins,creates]
  generalize whole : some s = made at prepared
  cases prepared with
  | refused => cases whole
  | undiscarded => cases whole
  | explicit free strategy =>
    cases whole
    have explicit : options.safepoint ≠ .always := by simp [strategy]
    refine .begun begins live (fun version claimed => by cases claimed) (fun always => absurd always explicit) ?_
    intro kind
    rcases kind with always | restores | checkpoints
    · exact absurd always explicit
    · simp [Step.restores,asked] at restores
    · simp [Step.checkpoints,Step.safepoints,asked] at checkpoints
  | always free strategy attempt =>
    cases attempt with
    | cut => cases whole
    | whole =>
      cases whole
      have flushed := (Writer.new id options).whole_flushed ((discards id).foldl Shelf.edit around)
        (new_storable program).toBounded (Engine.new_sound program)
      rw [← List.foldl_append,← changed] at flushed
      exact .begun_written begins live rfl flushed

theorem Touches.acknowledged {edits : List Edit} (touches : Touches id step edits)
    (standing : Standing id step.before) (bounded : step.Bounded id)
    (held : ∀ s, step.before.live.get? id = some s → Acknowledged id history step.before s) :
    ∀ s, step.after.live.get? id = some s → Acknowledged id (step :: history) step.after s := by
  intro s live
  have own := touches.own
  have change := touches.change
  have changed := touches.shelf
  generalize here : step.before.live.get? id = before at change
  rw [live] at change
  generalize after : some s = next at change
  cases change with
  | idle apart creates restores mutates safepoints =>
    cases List.eq_nil_iff_forall_not_mem.mpr fun edit present => apart edit present (own edit present)
    refine (held s (here.trans after.symm)).passed ?_ changed
    simp [Step.concerns,Step.begins,creates,restores,mutates,safepoints]
  | handled asked was answered processed =>
    cases after
    exact handled_acknowledged asked was answered processed (standing.sound _ was) (bounded _ live) changed (held _ was)
  | lost => cases after
  | destroyed => cases after
  | created asked creates prepared =>
    cases after
    exact created_acknowledged asked creates live prepared changed
  | restored asked restores stored =>
    cases after
    have same := (stored_sound standing.bears stored).2
    have lying : DurableRules.shelf step.after.store id = DurableRules.shelf step.before.store id := changed
    rw [← same,← lying] at stored
    exact .begun_written (by simp [Step.begins,restores]) live rfl fun _ => ⟨_,stored,rfl,fun _ => rfl,rfl⟩

end Step

section Run
variable {id : SessionId} {store : σ} {history : List (Step σ)} {r : Registry σ} {s : Session}

theorem run_acknowledged (run : Run (Registry.new store) history r) (empty : ∀ tag, shelf store id tag = none)
    (bounded : ∀ step ∈ history, step.Bounded id) : ∀ s, r.live.get? id = some s → Acknowledged id history r s := by
  induction run with
  | start =>
    intro s live
    cases live
  | next run operation ih =>
    have before := fun step present => bounded step (List.mem_cons_of_mem _ present)
    have named := run_named run
    obtain ⟨edits,touches,_⟩ := step_touches ⟨_,operation⟩ named id
    exact touches.acknowledged (run_standing run empty before) (bounded _ List.mem_cons_self) (ih before)

-- What the last step of a session has acknowledged is what a crash brings back:
-- its stores, its network where that is kept, and its version, counted from
-- where the session was begun. Any reader of what is stored will do.
theorem acknowledged_durable (run : Run (Registry.new store) history r)
    (empty : ∀ key, (Faithful.view store).contents key = none) (bounded : ∀ step ∈ history, step.Bounded id)
    (live : r.live.get? id = some s) (portable : s.engine.stores.Portable) {last : Step σ}
    (recent : history.find? (Step.concerns id) = some last) (accepted : last.accepted = true)
    (kind : s.options.safepoint = .always ∨ last.restores id = true ∨ last.checkpoints id = true)
    {τ : Type} [Store τ] [Faithful τ] {reader : τ} (readable : Readable reader)
    (same : (Faithful.view reader).contents = (Faithful.view r.store).contents) :
    ∃ found first start,
      (Recovery.recover id s.engine.program s.options.persistence reader).1 = .ok found ∧
      found.engine.stores = s.engine.stores ∧
      (s.options.persistence = .full → found.engine.network = s.engine.network) ∧
      history.find? (Step.begins id) = some first ∧ first.after.live.get? id = some start ∧
      found.header.stateVersion = start.stateVersion + mutations id history := by
  have held := run_acknowledged run (fun tag => empty ⟨id,tag⟩) bounded s live
  obtain ⟨found,stored,stores,network,version⟩ := held.flushed last recent accepted kind portable
  obtain ⟨first,start,begun,begins,counted⟩ := held.counted
  have name := run_named run id s live
  have lying : shelf reader id = shelf r.store id := congrArg (fun contents tag => contents ⟨id,tag⟩) same
  rw [name,← lying] at stored
  exact ⟨found,first,start,((Recovery.answers_recover _ _ reader).readable readable).1.trans stored,stores,network,
    begun,begins,version.trans counted⟩

end Run

-- The first put after the second insertion is refused, and a safepoint makes up for it.
def failing : Watched Memory := { Watched.unlimited Memory.empty with refuses := fun number => number == 16 }

def healed : List (Step (Watched Memory)) × Registry (Watched Memory) :=
  play (Registry.new failing) [
    .checkpoint .zero,.insert .zero parcel,.insert .zero parcel,.create .zero noting ⟨.storesOnly,.always⟩]

theorem healed_durable : ∃ s last found first start, healed.2.live.get? .zero = some s ∧
    healed.1.find? (Step.concerns .zero) = some last ∧ last.accepted = true ∧
    (Recovery.recover .zero s.engine.program s.options.persistence healed.2.store.store).1 = .ok found ∧
    found.engine.stores = s.engine.stores ∧
    (s.options.persistence = .full → found.engine.network = s.engine.network) ∧
    healed.1.find? (Step.begins .zero) = some first ∧ first.after.live.get? .zero = some start ∧
    found.header.stateVersion = start.stateVersion + mutations .zero healed.1 := by
  have run : Run (Registry.new failing) healed.1 healed.2 := play_run _ _
  have bounded : ∀ step ∈ healed.1, step.Bounded .zero := by decide +kernel
  have same (w : Watched Memory) : (Faithful.view w.store).contents = (Faithful.view w).contents := rfl
  have online : healed.2.store.store.available = true := by decide +kernel
  have here : (healed.2.live.get? .zero).isSome = true := by decide +kernel
  have asked : (healed.1.find? (Step.concerns .zero)).isSome = true := by decide +kernel
  obtain ⟨s,live⟩ := Option.isSome_iff_exists.mp here
  obtain ⟨last,recent⟩ := Option.isSome_iff_exists.mp asked
  have kind : ∀ s ∈ healed.2.live.get? .zero, s.engine.stores.Portable ∧ s.options.safepoint = .always := by decide +kernel
  have accepted : ∀ last ∈ healed.1.find? (Step.concerns .zero), last.accepted = true := by decide +kernel
  obtain ⟨portable,always⟩ := kind s live
  obtain ⟨found,first,start,rest⟩ := acknowledged_durable run (fun _ => rfl) bounded live portable recent
    (accepted last recent) (.inl always) (Memory.steady online).readable (same healed.2.store)
  exact ⟨s,last,found,first,start,live,recent,accepted last recent,rest⟩

end DurableRules
