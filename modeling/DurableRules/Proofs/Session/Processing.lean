import DurableRules.Proofs.Session.Operating
import DurableRules.Proofs.Store.Performing
import DurableRules.Session.Mailbox

namespace DurableRules
variable {σ : Type} [Store σ] [Faithful σ]

-- A checkpoint is written as a whole, or some failing call cuts it short.
inductive Attempt (steady : Prop) (w : Writer) (e : Engine) (version : Nat) : List Edit → Option Writer → Prop where
  | whole : Attempt steady w e version (w.edits e version) (some { w with durable := some version })
  | cut (count : Nat) (short : count < (w.edits e version).length) (unsteady : ¬ steady) :
      Attempt steady w e version ((w.edits e version).take count) none

theorem write_attempt (w : Writer) (e : Engine) (version : Nat) (store : σ) : ∃ edits done,
    Attempt (Steady store) w e version edits done ∧
      Faithful.view ((w.write e version : Call σ Writer) store).2 = (Faithful.view store).edits Faithful.written edits ∧
      (Steady store → Steady ((w.write e version : Call σ Writer) store).2) ∧
      match done with
      | some next => ((w.write e version : Call σ Writer) store).1 = .ok next
      | none => ∃ cause, ((w.write e version : Call σ Writer) store).1 = .error cause := by
  obtain ⟨cut,_,view,answer,steady⟩ := performs_write w e version store
  cases answer with
  | inl went =>
    obtain ⟨ok,all⟩ := went
    rw [all,List.take_length] at view
    exact ⟨_,_,.whole,view,fun held => (steady held).2,ok⟩
  | inr failed =>
    obtain ⟨⟨cause,failed⟩,short⟩ := failed
    refine ⟨_,_,.cut cut short fun held => ?_,view,fun held => (steady held).2,cause,failed⟩
    rw [(steady held).1] at failed
    cases failed

omit [Faithful σ] in
theorem write_flagged (w : Writer) (e : Engine) (version : Nat) (store : σ) :
    (do return (true,← w.write e version) : Call σ (Bool × Writer)) store =
      (((w.write e version : Call σ Writer) store).1.map (true,·),((w.write e version : Call σ Writer) store).2) := by
  cases went : (w.write e version : Call σ Writer) store with
  | mk answer after =>
    cases answer with
    | ok next => exact bind_of_ok went
    | error cause => exact bind_of_error went

namespace Session

-- What becomes of a session by a command, what is written for it and what it answers.
inductive Processed (steady : Prop) (s : Session) : Command → List Edit → Except SessionError Outcome → Session → Prop where
  | refused {command : Command} {cause : UnknownHandle} {engine : Engine}
      (refused : operate s.engine command = .error (cause,engine)) :
      Processed steady s command [] (.error (.unknownHandle s.id cause.handle)) { s with engine }
  | quiet {command : Command} {outcome : Outcome} {engine : Engine}
      (operated : operate s.engine command = .ok (outcome,engine)) (idle : outcome.mutated = false)
      (other : ∀ wrote, outcome ≠ .checkpointed wrote) : Processed steady s command [] (.ok outcome) { s with engine }
  | kept {command : Command} {outcome : Outcome} {engine : Engine}
      (operated : operate s.engine command = .ok (outcome,engine)) (mutated : outcome.mutated = true)
      (explicit : s.options.safepoint = .explicit) :
      Processed steady s command [] (.ok outcome) ⟨engine,s.writer,s.stateVersion + 1⟩
  | written {command : Command} {outcome : Outcome} {engine : Engine} {edits : List Edit} {done : Option Writer}
      (operated : operate s.engine command = .ok (outcome,engine)) (mutated : outcome.mutated = true)
      (always : s.options.safepoint = .always)
      (attempt : Attempt steady s.writer engine (s.stateVersion + 1) edits done)
      {answer : Except SessionError Outcome} (answers : done.isSome = answer.isOk) :
      Processed steady s command edits answer ⟨engine,done.getD s.writer,s.stateVersion + 1⟩
  | skipped (always : s.options.safepoint = .always) (durable : s.writer.durable = some s.stateVersion) :
      Processed steady s .safepoint [] (.ok (.checkpointed false)) s
  | checkpointed {edits : List Edit} {done : Option Writer}
      (due : ¬ (s.options.safepoint = .always ∧ s.writer.durable = some s.stateVersion))
      (attempt : Attempt steady s.writer s.engine s.stateVersion edits done)
      {answer : Except SessionError Outcome} (answers : done.isSome = answer.isOk) :
      Processed steady s .safepoint edits answer { s with writer := done.getD s.writer }

theorem mutate_spec (s : Session) (command : Command) (other : ∀ outcome engine,
      operate s.engine command = .ok (outcome,engine) → ∀ wrote, outcome ≠ .checkpointed wrote) (store : σ) :
    ∃ edits, Processed (Steady store) s command edits (s.mutate command store).1 (s.mutate command store).2.1 ∧
      Faithful.view (s.mutate command store).2.2 = (Faithful.view store).edits Faithful.written edits ∧
      (Steady store → Steady (s.mutate command store).2.2) := by
  unfold mutate
  cases operated : operate s.engine command with
  | error cause => exact ⟨[],.refused operated,rfl,fun steady => steady⟩
  | ok result =>
    obtain ⟨outcome,engine⟩ := result
    dsimp only
    cases mutated : outcome.mutated with
    | false => exact ⟨[],.quiet operated mutated (other outcome engine operated),rfl,fun steady => steady⟩
    | true =>
      simp only [if_true]
      unfold Writer.afterMutation
      cases strategy : s.writer.options.safepoint with
      | explicit => exact ⟨[],.kept operated mutated strategy,rfl,fun steady => steady⟩
      | always =>
        obtain ⟨edits,done,attempt,view,steady,answer⟩ := write_attempt s.writer engine (s.stateVersion + 1) store
        dsimp only
        cases done with
        | some next =>
          rw [write_flagged,answer]
          exact ⟨edits,.written operated mutated strategy attempt rfl,view,steady⟩
        | none =>
          obtain ⟨cause,answer⟩ := answer
          rw [write_flagged,answer]
          exact ⟨edits,.written operated mutated strategy attempt rfl,view,steady⟩

theorem safepoint_spec (s : Session) (store : σ) : ∃ edits,
    Processed (Steady store) s .safepoint edits (s.process .safepoint store).1 (s.process .safepoint store).2.1 ∧
      Faithful.view (s.process .safepoint store).2.2 = (Faithful.view store).edits Faithful.written edits ∧
      (Steady store → Steady (s.process .safepoint store).2.2) := by
  unfold process Writer.safepoint
  by_cases skip : s.writer.options.safepoint = .always ∧ s.writer.durable = some s.stateVersion
  · simp only [if_pos skip]
    exact ⟨[],.skipped skip.1 skip.2,rfl,fun steady => steady⟩
  · simp only [if_neg skip]
    obtain ⟨edits,done,attempt,view,steady,answer⟩ := write_attempt s.writer s.engine s.stateVersion store
    cases done with
    | some next =>
      rw [write_flagged,answer]
      exact ⟨edits,.checkpointed skip attempt rfl,view,steady⟩
    | none =>
      obtain ⟨cause,answer⟩ := answer
      rw [write_flagged,answer]
      exact ⟨edits,.checkpointed skip attempt rfl,view,steady⟩

theorem process_spec (s : Session) (command : Command) (stays : Mailbox.closes command = false) (store : σ) : ∃ edits,
    Processed (Steady store) s command edits (s.process command store).1 (s.process command store).2.1 ∧
      Faithful.view (s.process command store).2.2 = (Faithful.view store).edits Faithful.written edits ∧
      (Steady store → Steady (s.process command store).2.2) := by
  cases command with
  | safepoint => exact safepoint_spec s store
  | discard => cases stays
  | insert fact => exact s.mutate_spec _ (fun _ _ => Engine.operate_outcome (by simp)) store
  | update handle fact => exact s.mutate_spec _ (fun _ _ => Engine.operate_outcome (by simp)) store
  | delete handle => exact s.mutate_spec _ (fun _ _ => Engine.operate_outcome (by simp)) store
  | fire limit => exact s.mutate_spec _ (fun _ _ => Engine.operate_outcome (by simp)) store
  | clear name => exact s.mutate_spec _ (fun _ _ => Engine.operate_outcome (by simp)) store

end Session
end DurableRules
