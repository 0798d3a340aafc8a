import DurableRules.Proofs.Session.Processing
import DurableRules.Proofs.Session.Run
import Mathlib.Data.List.Forall2

namespace DurableRules

section Writing
variable {σ : Type}

-- What a writer is asked to do ends in a writer of the same session or in the
-- call that failed. The store may do as it likes.
def Writer.Answers (w : Writer) (call : Call σ (Bool × Writer)) : Prop := ∀ store,
  (∃ wrote next after, call store = (.ok (wrote,next),after) ∧ next.id = w.id ∧ next.options = w.options) ∨
    ∃ cause after, call store = (.error cause,after)

namespace Writer
variable (w : Writer) (e : Engine) (version : Nat)

theorem answers_idle (wrote : Bool) : w.Answers (pure (wrote,w) : Call σ (Bool × Writer)) := fun store =>
  .inl ⟨wrote,w,store,rfl,rfl,rfl⟩

variable [Store σ]

theorem answers_write : w.Answers (do return (true,← w.write e version) : Call σ (Bool × Writer)) := by
  intro store
  rw [write_flagged]
  cases went : ((Snapshot.encode w.id e w.options version).forM w.writeComponent : Call σ Unit) store with
  | mk answer after =>
    cases answer with
    | ok done =>
      have written : (w.write e version : Call σ Writer) store = (.ok { w with durable := some version },after) :=
        bind_of_ok went
      rw [written]
      exact .inl ⟨true,_,after,rfl,rfl,rfl⟩
    | error cause =>
      have failed : (w.write e version : Call σ Writer) store = (.error cause,after) := bind_of_error went
      rw [failed]
      exact .inr ⟨cause,after,rfl⟩

theorem answers_afterMutation : w.Answers (w.afterMutation e version : Call σ (Bool × Writer)) := by
  unfold afterMutation
  cases w.options.safepoint with
  | always => exact answers_write w e version
  | explicit => exact answers_idle w false

theorem answers_safepoint : w.Answers (w.safepoint e version : Call σ (Bool × Writer)) := by
  unfold safepoint
  split
  · exact answers_idle w false
  · exact answers_write w e version

end Writer
end Writing

theorem Attempt.answered {w : Writer} {e : Engine} {version : Nat} {edits : List Edit} {done : Option Writer} {steady : Prop}
    (attempt : Attempt steady w e version edits done) (held : steady) : done.isSome = true := by
  cases attempt with
  | whole => rfl
  | cut count short unsteady => exact absurd held unsteady

-- What a caller may hear in place of the expected answer when the store fails
-- at times. Which safepoint has something to write depends on the failures before it.
inductive Excused (expected : Except SessionError Outcome) : Except SessionError Outcome → Prop where
  | same : Excused expected expected
  | failed (cause : StoreError) : Excused expected (.error (.persistence cause))
  | checkpointed {one : Bool} (expects : expected = .ok (.checkpointed one)) (two : Bool) :
      Excused expected (.ok (.checkpointed two))

theorem Excused.sharpen {expected one two : Except SessionError Outcome} (first : Excused expected one)
    (second : Excused expected two) (served : ∀ cause, one ≠ .error (.persistence cause)) : Excused one two := by
  cases first with
  | same => exact second
  | failed cause => exact absurd rfl (served cause)
  | checkpointed expects wrote =>
    subst expects
    cases second with
    | same => exact .checkpointed rfl _
    | failed cause => exact .failed cause
    | checkpointed _ also => exact .checkpointed rfl also

namespace Session

-- What a command comes to in memory: the answer, the engine and the state
-- version. No store has a part in it.
def reckon (s : Session) (command : Command) : Except SessionError Outcome × Engine × Nat :=
  match operate s.engine command with
  | .error (cause,engine) => (.error (.unknownHandle s.id cause.handle),engine,s.stateVersion)
  | .ok (outcome,engine) =>
    (.ok outcome,engine,if outcome.mutated then s.stateVersion + 1 else s.stateVersion)

structure Reckoned (s : Session) (command : Command) (answer : Except SessionError Outcome) (next : Session) : Prop where
  answer : Excused (s.reckon command).1 answer
  engine : next.engine = (s.reckon command).2.1
  version : next.stateVersion = (s.reckon command).2.2
  id : next.id = s.id
  options : next.options = s.options

section Steps
variable {σ : Type} [Store σ]

theorem mutate_reckoned (s : Session) (command : Command) (store : σ) :
    Reckoned s command (s.mutate command store).1 (s.mutate command store).2.1 := by
  unfold mutate
  cases operated : operate s.engine command with
  | error refusal => constructor <;> simp [reckon,operated,Excused.same,id,options]
  | ok result =>
    obtain ⟨outcome,engine⟩ := result
    cases mutated : outcome.mutated with
    | false => constructor <;> simp [reckon,operated,mutated,Excused.same,id,options]
    | true =>
      simp only [mutated,if_true]
      rcases s.writer.answers_afterMutation engine (s.stateVersion + 1) store with
        ⟨wrote,next,after,went,same,options⟩ | ⟨cause,after,failed⟩
      · rw [went]
        constructor <;> simp [reckon,operated,mutated,Excused.same,Session.id,Session.options,same,options]
      · rw [failed]
        constructor <;> simp [reckon,operated,mutated,Excused.failed,Session.id,Session.options]

theorem safepoint_reckoned (s : Session) (store : σ) :
    Reckoned s .safepoint (s.process .safepoint store).1 (s.process .safepoint store).2.1 := by
  have expected : s.reckon .safepoint = (.ok (.checkpointed false),s.engine,s.stateVersion) := rfl
  simp only [process]
  rcases s.writer.answers_safepoint s.engine s.stateVersion store with
    ⟨wrote,next,after,went,same,options⟩ | ⟨cause,after,failed⟩
  · rw [went]
    exact ⟨.checkpointed (by rw [expected]) wrote,rfl,rfl,same,options⟩
  · rw [failed]
    exact ⟨.failed cause,rfl,rfl,rfl,rfl⟩

theorem process_reckoned (s : Session) (command : Command) (stays : Mailbox.closes command = false) (store : σ) :
    Reckoned s command (s.process command store).1 (s.process command store).2.1 := by
  cases command with
  | safepoint => exact safepoint_reckoned s store
  | discard => cases stays
  | insert fact => exact mutate_reckoned s (.insert fact) store
  | update handle fact => exact mutate_reckoned s (.update handle fact) store
  | delete handle => exact mutate_reckoned s (.delete handle) store
  | fire limit => exact mutate_reckoned s (.fire limit) store
  | clear name => exact mutate_reckoned s (.clear name) store

theorem process_served [Faithful σ] (s : Session) (command : Command) (stays : Mailbox.closes command = false) {store : σ}
    (steady : Steady store) (cause : StoreError) : (s.process command store).1 ≠ .error (.persistence cause) := by
  obtain ⟨edits,processed,-,-⟩ := process_spec s command stays store
  intro failed
  rw [failed] at processed
  generalize (s.process command store).2.1 = next at processed
  cases processed with
  | written operated mutated always attempt answers => simp [attempt.answered steady,Except.isOk,Except.toBool] at answers
  | checkpointed due attempt answers => simp [attempt.answered steady,Except.isOk,Except.toBool] at answers

end Steps

structure Handled where
  command : Command
  answer : Except SessionError Outcome
  session : Session

def trail {σ : Type} [Store σ] (s : Session) : List Command → σ → List Handled
  | [], _ => []
  | command :: rest, store =>
    match s.process command store with
    | (answer,next,after) => ⟨command,answer,next⟩ :: next.trail rest after

-- Sessions in the same state, whatever of it is durable.
structure Twin (one two : Session) : Prop where
  engine : two.engine = one.engine
  version : two.stateVersion = one.stateVersion
  id : two.id = one.id
  options : two.options = one.options

theorem Twin.refl (s : Session) : Twin s s := ⟨rfl,rfl,rfl,rfl⟩

theorem Twin.reckon {one two : Session} (twin : Twin one two) (command : Command) : two.reckon command = one.reckon command := by
  unfold Session.reckon
  rw [twin.engine,twin.version,twin.id]

-- The same command over two stores, of which the first never fails.
structure Undisturbed (one two : Handled) : Prop where
  command : two.command = one.command
  session : Twin one.session two.session
  answer : Excused one.answer two.answer

section Twins
variable {σ τ : Type} [Store σ] [Faithful σ] [Store τ]

theorem Twin.process {one two : Session} (twin : Twin one two) (command : Command) (stays : Mailbox.closes command = false)
    {reliable : σ} (steady : Steady reliable) (failing : τ) :
    Twin (one.process command reliable).2.1 (two.process command failing).2.1 ∧
      Excused (one.process command reliable).1 (two.process command failing).1 := by
  have first := process_reckoned one command stays reliable
  have second := process_reckoned two command stays failing
  have answer := second.answer
  rw [twin.reckon] at answer
  refine ⟨⟨?_,?_,?_,?_⟩,first.answer.sharpen answer fun cause => process_served one command stays steady cause⟩
  · rw [first.engine,second.engine,twin.reckon]
  · rw [first.version,second.version,twin.reckon]
  · rw [first.id,second.id,twin.id]
  · rw [first.options,second.options,twin.options]

theorem Twin.trail {one two : Session} (twin : Twin one two) (commands : List Command)
    (stays : ∀ command ∈ commands, Mailbox.closes command = false) {reliable : σ} (steady : Steady reliable) (failing : τ) :
    List.Forall₂ Undisturbed (one.trail commands reliable) (two.trail commands failing) := by
  induction commands generalizing one two reliable failing with
  | nil => exact .nil
  | cons command rest ih =>
    have first := stays command List.mem_cons_self
    obtain ⟨next,answer⟩ := twin.process command first steady failing
    obtain ⟨_,_,_,after⟩ := process_spec one command first reliable
    exact .cons ⟨rfl,next,answer⟩ (ih next (fun other later => stays other (List.mem_cons_of_mem _ later)) (after steady) _)

-- A store that fails changes nothing in memory. After every command the two
-- sessions are in the same state, and the answers differ by what the store owes.
theorem outage_unnoticed (s : Session) (commands : List Command)
    (stays : ∀ command ∈ commands, Mailbox.closes command = false) {reliable : σ} (steady : Steady reliable) (failing : τ) :
    List.Forall₂ Undisturbed (s.trail commands reliable) (s.trail commands failing) :=
  (Twin.refl s).trail commands stays steady failing

end Twins

-- The write of the first mutation fails at its second call and the firing after
-- it at its first one. Then a safepoint has something to write.
def faltering : Watched Memory := { Watched.unlimited Memory.empty with refuses := fun number => number == 1 || number == 2 }

def newborn : Session := ⟨Engine.new noting,.new .zero .standard,0⟩

def errands : List Command := [.insert parcel,.fire 4,.safepoint,.clear "noted",.delete 7,.safepoint]

theorem faltering_unnoticed :
    Steady Memory.empty ∧ (∀ command ∈ errands, Mailbox.closes command = false) ∧
      List.Forall₂ Undisturbed (newborn.trail errands Memory.empty) (newborn.trail errands faltering) ∧
      (newborn.trail errands Memory.empty).map Handled.answer =
        [.ok (.inserted 1),.ok (.fired 1),.ok (.checkpointed false),.ok (.cleared true),
          .error (.unknownHandle .zero 7),.ok (.checkpointed false)] ∧
      (newborn.trail errands faltering).map Handled.answer =
        [.error (.persistence (.unavailable "injected failure")),
          .error (.persistence (.unavailable "injected failure")),.ok (.checkpointed true),.ok (.cleared true),
          .error (.unknownHandle .zero 7),.ok (.checkpointed false)] := by
  have steady : Steady Memory.empty := Memory.steady rfl
  have stays : ∀ command ∈ errands, Mailbox.closes command = false := by decide
  exact ⟨steady,stays,outage_unnoticed newborn errands stays steady faltering,by decide +kernel,by decide +kernel⟩

end Session
end DurableRules
