import DurableRules.Proofs.Session.Changing
import DurableRules.Proofs.Snapshot.Written

namespace DurableRules

theorem new_storable (program : Program) : Storable (Engine.new program) 0 := by
  have small : 1 < wordLimit := by decide
  refine ⟨⟨⟨small,?_,?_⟩,⟨?_,?_,?_⟩,Nat.lt_trans Nat.zero_lt_one small⟩,⟨?_,?_⟩⟩
  all_goals first | exact Nat.lt_trans Nat.zero_lt_one small | (intro row present; cases present)

section Parts
variable {steady : Prop} {w : Writer} {e : Engine} {version : Nat} {edits : List Edit} {done : Option Writer}
  {id : SessionId} {program : Program} {options : Options} {made : Option Session} {s next : Session}
  {command : Command} {answer : Except SessionError Outcome} {around : Shelf}

theorem Attempt.written (attempt : Attempt steady w e version edits done) (bounded : Bounded e version) (sound : e.Sound) :
    ∀ edit ∈ edits, ∀ bytes, edit.bytes = some bytes → Written w.id e version edit.key.tag bytes := by
  intro edit present bytes put
  cases attempt with
  | whole => exact Writer.edits_written bounded sound present put
  | cut count => exact Writer.edits_written bounded sound (List.mem_of_mem_take present) put

theorem Attempt.writer (attempt : Attempt steady w e version edits done) : ∃ durable, done.getD w = { w with durable } := by
  cases attempt with
  | whole => exact ⟨some version,rfl⟩
  | cut => exact ⟨w.durable,rfl⟩

theorem Session.Processed.same (processed : s.Processed steady command edits answer next) :
    next.id = s.id ∧ next.options = s.options ∧ (s.engine.Sound → next.engine.Sound) := by
  cases processed with
  | refused refused => exact ⟨rfl,rfl,fun sound => (sound.coherent.founded.operate_refused refused).symm ▸ sound⟩
  | quiet operated => exact ⟨rfl,rfl,fun sound => sound.operate operated⟩
  | kept operated => exact ⟨rfl,rfl,fun sound => sound.operate operated⟩
  | written operated _ _ attempt =>
    obtain ⟨durable,same⟩ := attempt.writer
    rw [same]
    exact ⟨rfl,rfl,fun sound => sound.operate operated⟩
  | skipped => exact ⟨rfl,rfl,fun sound => sound⟩
  | checkpointed _ attempt =>
    obtain ⟨durable,same⟩ := attempt.writer
    rw [same]
    exact ⟨rfl,rfl,fun sound => sound⟩

theorem Session.Processed.puts (processed : s.Processed steady command edits answer next) (sound : next.engine.Sound)
    (bounded : Bounded next.engine next.stateVersion) : ∀ edit ∈ edits, ∀ bytes, edit.bytes = some bytes →
      Written s.id next.engine next.stateVersion edit.key.tag bytes := by
  cases processed with
  | refused => simp
  | quiet => simp
  | kept => simp
  | written _ _ _ attempt => exact attempt.written bounded sound
  | skipped => simp
  | checkpointed _ attempt => exact attempt.written bounded sound

theorem Prepared.empty (prepared : Prepared steady around id program options edits (some s)) :
    s.id = id ∧ s.options = options ∧ s.engine = Engine.new program ∧ s.stateVersion = 0 := by
  generalize whole : some s = made at prepared
  cases prepared with
  | refused => cases whole
  | undiscarded => cases whole
  | explicit =>
    cases whole
    exact ⟨rfl,rfl,rfl,rfl⟩
  | always _ _ attempt =>
    cases attempt with
    | whole =>
      cases whole
      exact ⟨rfl,rfl,rfl,rfl⟩
    | cut => cases whole

theorem Prepared.puts (prepared : Prepared steady around id program options edits made) : ∀ edit ∈ edits,
    ∀ bytes, edit.bytes = some bytes → Written id (Engine.new program) 0 edit.key.tag bytes := by
  have discarded (edit : Edit) (present : edit ∈ discards id) (bytes : ByteArray) (put : edit.bytes = some bytes) :
      Written id (Engine.new program) 0 edit.key.tag bytes := by
    rw [discards_blank present] at put
    cases put
  intro edit present bytes put
  cases prepared with
  | refused => cases present
  | undiscarded count => exact discarded edit (List.mem_of_mem_take present) bytes put
  | explicit => exact discarded edit present bytes put
  | always _ _ attempt =>
    cases List.mem_append.mp present with
    | inl gone => exact discarded edit gone bytes put
    | inr written => exact attempt.written (new_storable program).toBounded (Engine.new_sound program) edit written bytes put

end Parts

section Storable
variable {σ : Type} [Store σ] {id : SessionId} {step : Step σ}

def Step.Bounded (id : SessionId) (step : Step σ) : Prop :=
  ∀ s, step.after.live.get? id = some s → DurableRules.Bounded s.engine s.stateVersion

def Step.Storable (id : SessionId) (step : Step σ) : Prop :=
  ∀ s, step.after.live.get? id = some s → DurableRules.Storable s.engine s.stateVersion

instance (step : Step σ) (id : SessionId) : Decidable (step.Bounded id) :=
  decidable_of_iff (∀ s ∈ (step.after.live.get? id).toList, DurableRules.Bounded s.engine s.stateVersion)
    (by simp only [Option.mem_toList,Step.Bounded])

instance (step : Step σ) (id : SessionId) : Decidable (step.Storable id) :=
  decidable_of_iff (∀ s ∈ (step.after.live.get? id).toList, DurableRules.Storable s.engine s.stateVersion)
    (by simp only [Option.mem_toList,Step.Storable])

theorem Step.Storable.bounded (storable : step.Storable id) : step.Bounded id := fun s live => (storable s live).toBounded

end Storable

variable {σ : Type} [Store σ] [Faithful σ]

section Step
variable {id : SessionId} {step : Step σ} {edits : List Edit} {before after : Option Session}

theorem Change.named (change : Change id step edits before after) (named : ∀ s, before = some s → s.id = id) :
    ∀ s, after = some s → s.id = id := by
  cases change with
  | idle => exact named
  | handled _ _ _ processed =>
    intro s same
    cases same
    exact processed.same.1.trans (named _ rfl)
  | lost => simp
  | destroyed => simp
  | created _ _ prepared =>
    intro s same
    subst same
    exact prepared.empty.1
  | restored =>
    intro s same
    cases same
    rfl

theorem named_step (step : Step σ) (named : Named step.before) : Named step.after := by
  intro id s live
  obtain ⟨_,change,_⟩ := step_effect step named id
  exact change.named (fun s held => named id s held) s live

theorem past_apart {α π : Type} {written : Key → π → π} {v : View π} {measure : π → α}
    (blind : ∀ key past, key.id ≠ id → measure (written key past) = measure past)
    (apart : ∀ edit ∈ edits, edit.key.id ≠ id) : measure (v.edits written edits).past = measure v.past := by
  induction edits generalizing v with
  | nil => rfl
  | cons edit rest ih =>
    have later := @ih (v.edit written edit) fun other present => apart other (List.mem_cons_of_mem _ present)
    refine later.trans ?_
    unfold View.edit
    cases edit.bytes with
    | none => rfl
    | some bytes => exact blind _ _ (apart edit List.mem_cons_self)

structure Touches (id : SessionId) (step : Step σ) (edits : List Edit) : Prop where
  change : Change id step edits (step.before.live.get? id) (step.after.live.get? id)
  own : ∀ edit ∈ edits, edit.key.id = id
  shelf : shelf step.after.store id = edits.foldl Shelf.edit (shelf step.before.store id)
  past : ∀ {α : Type} (measure : Faithful.Past σ → α),
    (∀ key past, key.id ≠ id → measure (Faithful.written key past) = measure past) →
      measure (Faithful.view step.after.store).past =
        measure ((Faithful.view step.before.store).edits Faithful.written edits).past

theorem touches_own (change : Change id step edits (step.before.live.get? id) (step.after.live.get? id))
    (view : Faithful.view step.after.store = (Faithful.view step.before.store).edits Faithful.written edits)
    (own : ∀ edit ∈ edits, edit.key.id = id) : Touches id step edits := by
  refine ⟨change,own,?_,fun measure _ => by rw [view]⟩
  rw [DurableRules.shelf,view,shelf_edits_own own]
  rfl

theorem step_touches (step : Step σ) (named : Named step.before) (id : SessionId) : ∃ edits,
    Touches id step edits ∧ (Steady step.before.store → Steady step.after.store) := by
  obtain ⟨edits,change,view,steady⟩ := step_effect step named id
  have whole (own : ∀ edit ∈ edits, edit.key.id = id) : ∃ edits, Touches id step edits ∧
      (Steady step.before.store → Steady step.after.store) := ⟨edits,touches_own change view own,steady⟩
  generalize held : step.before.live.get? id = before at change
  generalize next : step.after.live.get? id = after at change
  cases change with
  | idle apart creates restores mutates safepoints destroys =>
    refine ⟨[],⟨?_,by simp,?_,fun measure blind => ?_⟩,steady⟩
    · rw [held,next]
      exact .idle (by simp) creates restores mutates safepoints destroys
    · rw [shelf,view,shelf_edits_other apart]
      rfl
    · rw [view,past_apart blind apart]
      rfl
  | handled _ live _ processed => exact whole fun edit present => (processed.own present).trans (named id _ live)
  | lost => exact whole (by simp)
  | destroyed _ count => exact whole fun edit present => discards_own (List.mem_of_mem_take present)
  | created _ _ prepared => exact whole fun edit present => prepared.own present
  | restored => exact whole (by simp)

-- All that is stored of a session was written of sound engines, and its
-- engine is one as long as it is live.
structure Standing (id : SessionId) (r : Registry σ) : Prop where
  bears : Bears id (shelf r.store id) Anything
  sound : ∀ s, r.live.get? id = some s → s.engine.Sound

theorem Touches.sound (touches : Touches id step edits) (standing : Standing id step.before) :
    ∀ s, step.after.live.get? id = some s → s.engine.Sound := by
  have sound := standing.sound
  have change := touches.change
  generalize step.before.live.get? id = before at change sound
  generalize step.after.live.get? id = after at change
  cases change with
  | idle => exact sound
  | handled _ _ _ processed =>
    intro s same
    cases same
    exact processed.same.2.2 (sound _ rfl)
  | lost => simp
  | destroyed => simp
  | created _ _ prepared =>
    intro s same
    subst same
    rw [prepared.empty.2.2.1]
    exact Engine.new_sound _
  | restored _ _ stored =>
    intro s same
    cases same
    exact (stored_sound standing.bears stored).1

theorem Touches.written (touches : Touches id step edits) (named : Named step.before) (standing : Standing id step.before)
    (bounded : step.Bounded id) : ∀ edit ∈ edits, ∀ bytes, edit.bytes = some bytes →
      ∃ e version, Written id e version edit.key.tag bytes := by
  intro edit present bytes put
  have sound := touches.sound standing
  have own := touches.own
  have change := touches.change
  generalize step.before.live.get? id = before at change
  generalize held : step.after.live.get? id = after at change
  cases change with
  | idle apart => exact absurd (own edit present) (apart edit present)
  | handled _ live _ processed =>
    have written := processed.puts (sound _ held) (bounded _ held) edit present bytes put
    rw [named id _ live] at written
    exact ⟨_,_,written⟩
  | lost => cases present
  | destroyed =>
    rw [discards_blank (List.mem_of_mem_take present)] at put
    cases put
  | created _ _ prepared => exact ⟨_,_,prepared.puts edit present bytes put⟩
  | restored => cases present

theorem Touches.standing (touches : Touches id step edits) (named : Named step.before) (standing : Standing id step.before)
    (bounded : step.Bounded id) : Standing id step.after := by
  refine ⟨?_,touches.sound standing⟩
  rw [touches.shelf]
  refine standing.bears.edits fun edit present bytes put => ?_
  obtain ⟨e,version,written⟩ := touches.written named standing bounded edit present bytes put
  exact ⟨e,version,written,trivial⟩

end Step

section Run
variable {id : SessionId} {store : σ} {history : List (Step σ)} {r : Registry σ}

omit [Store σ] [Faithful σ] in
theorem new_named (store : σ) : Named (Registry.new store) := by
  intro id s live
  cases live

theorem run_named (run : Run (Registry.new store) history r) : Named r := by
  induction run with
  | start => exact new_named store
  | next run operation ih => exact named_step _ ih

theorem run_standing (run : Run (Registry.new store) history r) (empty : ∀ tag, shelf store id tag = none)
    (bounded : ∀ step ∈ history, step.Bounded id) : Standing id r := by
  induction run with
  | start =>
    refine ⟨fun tag bytes lying => ?_,fun s live => by cases live⟩
    cases (empty tag).symm.trans lying
  | next run operation ih =>
    have named := run_named run
    obtain ⟨edits,touches,_⟩ := step_touches ⟨_,operation⟩ named id
    exact touches.standing named (ih fun step present => bounded step (List.mem_cons_of_mem _ present))
      (bounded _ List.mem_cons_self)

end Run
end DurableRules
