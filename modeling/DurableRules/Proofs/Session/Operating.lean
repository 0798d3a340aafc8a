import DurableRules.Proofs.Engine.Frame
import DurableRules.Session.Basic

namespace DurableRules
open Session

structure Engine.Sound (e : Engine) : Prop where
  coherent : e.Coherent
  tidy : e.Tidy

namespace Engine
variable {e next : Engine} {command : Command} {outcome : Outcome}

theorem new_sound (program : Program) : Sound (new program) := ⟨new_coherent program,new_tidy program⟩

theorem operate_update {handle : Handle} {fact : Fact} (operated : operate e (.update handle fact) = .ok (outcome,next)) :
    e.update handle fact = .ok next ∧ outcome = .updated := by
  simp only [operate] at operated
  split at operated
  · next changed done =>
    cases operated
    exact ⟨done,rfl⟩
  · cases operated

theorem operate_delete {handle : Handle} (operated : operate e (.delete handle) = .ok (outcome,next)) :
    ∃ fact, e.delete handle = .ok (fact,next) ∧ outcome = .deleted fact := by
  simp only [operate] at operated
  split at operated
  · next fact changed done =>
    cases operated
    exact ⟨fact,delete_retract.mpr done,rfl⟩
  · cases operated

-- Only an update and a deletion are refused, and then nothing is pending with the handle any more.
theorem operate_error {cause : UnknownHandle} (refused : operate e command = .error (cause,next)) :
    next = e ∨ ∃ handle, e.roster.isLive handle = true ∧ e.facts.get? handle = none ∧ next = e.withdraw handle := by
  unfold operate at refused
  cases command with
  | update handle fact =>
    dsimp only at refused
    split at refused
    · cases refused
    · cases refused
      exact .inl rfl
  | delete handle =>
    dsimp only at refused
    rcases retract_cases e handle with ⟨_,went⟩ | ⟨live,out,went⟩ | ⟨fact,_,_,went⟩
    · rw [went] at refused
      cases refused
      exact .inl rfl
    · rw [went] at refused
      cases refused
      exact .inr ⟨handle,live,out,rfl⟩
    · rw [went] at refused
      cases refused
  | insert | fire | clear | safepoint | discard => cases refused

theorem Founded.operate_refused (founded : Founded e) {cause : UnknownHandle}
    (refused : operate e command = .error (cause,next)) : next = e := by
  rcases operate_error refused with same | ⟨handle,live,out,_⟩
  · exact same
  · exact absurd out (founded.known live)

theorem operate_outcome (apart : command ≠ .safepoint) (operated : operate e command = .ok (outcome,next)) (wrote : Bool) :
    outcome ≠ .checkpointed wrote := by
  cases command with
  | insert fact => cases operated; simp
  | update handle fact => simp [(operate_update operated).2]
  | delete handle =>
    obtain ⟨fact,_,rfl⟩ := operate_delete operated
    simp
  | fire limit => cases operated; simp
  | clear name => cases operated; simp
  | safepoint => exact absurd rfl apart
  | discard => cases operated; simp

theorem refused_apart {refusal : UnknownHandle × Engine} (refused : operate e command = .error refusal) : command ≠ .safepoint := by
  intro same
  subst same
  cases refused

theorem mutated_apart (operated : operate e command = .ok (outcome,next)) (mutated : outcome.mutated = true) :
    command ≠ .safepoint := by
  intro same
  subst same
  cases operated
  cases mutated

theorem outcome_apart (operated : operate e command = .ok (outcome,next)) (other : ∀ wrote, outcome ≠ .checkpointed wrote) :
    command ≠ .safepoint := by
  intro same
  subst same
  cases operated
  exact other false rfl

theorem operate_induct {motive : Engine → Prop} (operated : operate e command = .ok (outcome,next)) (same : motive e)
    (insert : ∀ fact, motive (e.insert fact).2)
    (update : ∀ handle fact, e.update handle fact = .ok next → motive next)
    (delete : ∀ handle fact, e.delete handle = .ok (fact,next) → motive next)
    (fire : ∀ limit, motive (e.fire limit).2) (clear : ∀ name, motive (e.clear name).2) : motive next := by
  cases command with
  | insert fact =>
    cases operated
    exact insert fact
  | update handle fact => exact update handle fact (operate_update operated).1
  | delete handle =>
    obtain ⟨fact,done,_⟩ := operate_delete operated
    exact delete handle fact done
  | fire limit =>
    cases operated
    exact fire limit
  | clear name =>
    cases operated
    exact clear name
  | safepoint =>
    cases operated
    exact same
  | discard =>
    cases operated
    exact same

theorem Sound.operate (sound : Sound e) (operated : operate e command = .ok (outcome,next)) : Sound next :=
  operate_induct operated sound (fun fact => ⟨sound.coherent.insert fact,sound.tidy.insert fact⟩)
    (fun _ _ done => ⟨sound.coherent.update done,sound.tidy.update done⟩)
    (fun _ _ done => ⟨sound.coherent.delete done,sound.tidy.delete done⟩)
    (fun limit => ⟨sound.coherent.fire limit,sound.tidy.fire sound.coherent limit⟩)
    (fun name => ⟨sound.coherent.globals _,sound.tidy.clear name⟩)

theorem Exact.operate (exact : Exact e) (coherent : Coherent e) (operated : operate e command = .ok (outcome,next)) :
    Exact next :=
  operate_induct operated exact (fun fact => exact.insert coherent fact) (fun _ _ done => exact.update coherent done)
    (fun _ _ done => exact.delete done) (fun limit => exact.fire coherent limit) (fun _ => exact.globals _)

theorem operate_program (coherent : Coherent e) (operated : operate e command = .ok (outcome,next)) :
    next.program = e.program :=
  operate_induct (motive := fun next => next.program = e.program) operated rfl (fun fact => (insert_markers e fact).program)
    (fun _ _ done => (update_markers done).program) (fun _ _ done => (delete_markers done).program)
    (fun limit => fire_program coherent limit) (fun _ => rfl)

theorem Sound.unmutated (sound : Sound e) (operated : Session.operate e command = .ok (outcome,next))
    (idle : outcome.mutated = false) : next = e := by
  cases command with
  | insert fact =>
    cases operated
    cases idle
  | update handle fact =>
    rw [(operate_update operated).2] at idle
    cases idle
  | delete handle =>
    obtain ⟨fact,_,rfl⟩ := operate_delete operated
    cases idle
  | fire limit =>
    cases operated
    exact fire_nothing sound.coherent.genuine (by simpa [Outcome.mutated] using idle)
  | clear name =>
    cases operated
    exact clear_nothing sound.tidy idle
  | safepoint =>
    cases operated
    rfl
  | discard =>
    cases operated
    rfl

def executed (e : Engine) : Command → List Activation
  | .fire limit => (e.fire limit).1
  | _ => []

theorem operate_markers (coherent : Coherent e) (operated : operate e command = .ok (outcome,next)) :
    (e.executed command).Nodup ∧ (∀ a ∈ e.executed command, e.roster.hasFired a = false) ∧
      ∀ a, next.roster.hasFired a = true ↔ a ∈ e.executed command ∨ e.roster.hasFired a = true := by
  have still (none : e.executed command = []) (same : SameMarkers next e) : (e.executed command).Nodup ∧
      (∀ a ∈ e.executed command, e.roster.hasFired a = false) ∧
      ∀ a, next.roster.hasFired a = true ↔ a ∈ e.executed command ∨ e.roster.hasFired a = true := by
    rw [none]
    refine ⟨List.nodup_nil,by simp,fun a => ?_⟩
    simp [Roster.hasFired,same.fired]
  cases command with
  | fire limit =>
    cases operated
    exact fire_markers coherent limit
  | insert fact =>
    cases operated
    exact still rfl (insert_markers e fact)
  | update handle fact =>
    exact still rfl (update_markers (operate_update operated).1)
  | delete handle =>
    obtain ⟨_,done,_⟩ := operate_delete operated
    exact still rfl (delete_markers done)
  | clear name =>
    cases operated
    exact still rfl ⟨rfl,rfl⟩
  | safepoint =>
    cases operated
    exact still rfl (.refl _)
  | discard =>
    cases operated
    exact still rfl (.refl _)

end Engine
end DurableRules
