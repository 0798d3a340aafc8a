import DurableRules.Session.Mailbox
import DurableRules.Session.Registry

namespace DurableRules

def Session.mutates (s : Session) (command : Command) : Bool :=
  match operate s.engine command with
  | .ok (outcome,_) => outcome.mutated
  | .error _ => false

-- What can be asked of a registry. The command that closes a mailbox belongs
-- to destruction and is not sent by itself.
inductive Operation where
  | create (id : SessionId) (program : Program) (options : Options)
  | restore (id : SessionId) (program : Program) (options : Options)
  | recoverAll (program : Program)
  | send (id : SessionId) (command : Command) (stays : Mailbox.closes command = false)
  | destroy (id : SessionId)
  | failover

inductive Reply where
  | opened (id : SessionId)
  | recovered (ids : List SessionId)
  | handled (outcome : Outcome)
  | done
deriving DecidableEq

namespace Operation

def insert (id : SessionId) (fact : Fact) : Operation := send id (.insert fact) rfl
def fire (id : SessionId) (limit : Nat) : Operation := send id (.fire limit) rfl
def checkpoint (id : SessionId) : Operation := send id .safepoint rfl

variable {σ : Type} [Store σ]

def perform (r : Registry σ) : Operation → Except SessionError Reply × Registry σ
  | create id program options => ((r.create id program options).1.map .opened,(r.create id program options).2)
  | restore id program options => ((r.restore id program options).1.map .opened,(r.restore id program options).2)
  | recoverAll program => ((r.recoverAll program).1.map .recovered,(r.recoverAll program).2)
  | send id command _ => ((r.send id command).1.map .handled,(r.send id command).2)
  | destroy id => ((r.destroy id).1.map fun _ => .done,(r.destroy id).2)
  | failover => (.ok .done,r.failover)

end Operation

structure Step (σ : Type) where
  before : Registry σ
  operation : Operation

namespace Step
variable {σ : Type} [Store σ]

def answer (step : Step σ) : Except SessionError Reply := (step.operation.perform step.before).1
def after (step : Step σ) : Registry σ := (step.operation.perform step.before).2

def creates (id : SessionId) (step : Step σ) : Bool :=
  match step.operation, step.answer with
  | .create .., .ok (.opened other) => other == id
  | _, _ => false

-- The session is read back from its snapshot, in place of a live one if there is any.
def restores (id : SessionId) (step : Step σ) : Bool :=
  match step.operation, step.answer with
  | .restore .., .ok (.opened other) => other == id
  | .recoverAll _, .ok (.recovered ids) => ids.contains id
  | _, _ => false

def begins (id : SessionId) (step : Step σ) : Bool := step.creates id || step.restores id

-- A command changes the engine of the session, whether or not the change gets written.
def mutates (id : SessionId) (step : Step σ) : Bool :=
  match step.operation, step.before.live.get? id with
  | .send other command _, some s => other == id && s.mutates command
  | _, _ => false

def safepoints (id : SessionId) (step : Step σ) : Bool :=
  match step.operation, step.before.live.get? id with
  | .send other .safepoint _, some _ => other == id
  | _, _ => false

def accepted (step : Step σ) : Bool := step.answer.isOk

def checkpoints (id : SessionId) (step : Step σ) : Bool := step.safepoints id && step.accepted

def destroys (id : SessionId) (step : Step σ) : Bool :=
  match step.operation, step.answer with
  | .destroy other, .ok _ => other == id
  | _, _ => false

end Step

section Sending
variable {σ : Type} {id : SessionId} {step : Step σ} {s : Session} {command : Command} {stays : Mailbox.closes command = false}

theorem send_mutates (asked : step.operation = .send id command stays) (live : step.before.live.get? id = some s) :
    step.mutates id = s.mutates command := by
  simp [Step.mutates,asked,live]

theorem send_begins [Store σ] (asked : step.operation = .send id command stays) : step.begins id = false := by
  simp [Step.begins,Step.creates,Step.restores,asked]

theorem safepoints_iff (asked : step.operation = .send id command stays) (live : step.before.live.get? id = some s) :
    step.safepoints id = true ↔ command = .safepoint := by
  cases command <;> simp [Step.safepoints,asked,live]

theorem safepoints_other (asked : step.operation = .send id command stays) (live : step.before.live.get? id = some s)
    (apart : command ≠ .safepoint) : step.safepoints id = false :=
  Bool.eq_false_iff.mpr fun asks => apart ((safepoints_iff asked live).mp asks)

theorem mutates_sent (mutates : step.mutates id = true) : ∃ command stays s,
    step.operation = .send id command stays ∧ step.before.live.get? id = some s := by
  unfold Step.mutates at mutates
  split at mutates
  · next other command stays s asked live =>
    cases eq_of_beq (Bool.and_eq_true_iff.mp mutates).1
    exact ⟨command,stays,s,asked,live⟩
  · cases mutates

theorem safepoints_sent (safepoints : step.safepoints id = true) : ∃ command stays s,
    step.operation = .send id command stays ∧ step.before.live.get? id = some s := by
  unfold Step.safepoints at safepoints
  split at safepoints
  · next other stays s asked live =>
    cases eq_of_beq safepoints
    exact ⟨.safepoint,stays,s,asked,live⟩
  · cases safepoints

end Sending

-- Operations one after the other, each carried out to its end. The last one stands first.
inductive Run {σ : Type} [Store σ] (start : Registry σ) : List (Step σ) → Registry σ → Prop where
  | start : Run start [] start
  | next {history : List (Step σ)} {r : Registry σ} (run : Run start history r) (operation : Operation) :
      Run start (⟨r,operation⟩ :: history) (Step.mk r operation).after

section Play
variable {σ : Type} [Store σ]

def play (start : Registry σ) : List Operation → List (Step σ) × Registry σ
  | [] => ([],start)
  | operation :: earlier =>
    let (history,r) := play start earlier
    (⟨r,operation⟩ :: history,(Step.mk r operation).after)

theorem play_run (start : Registry σ) (operations : List Operation) :
    Run start (play start operations).1 (play start operations).2 := by
  induction operations with
  | nil => exact .start
  | cons operation earlier ih => exact ih.next operation

theorem play_operations (start : Registry σ) (operations : List Operation) :
    (play start operations).1.map Step.operation = operations := by
  induction operations with
  | nil => rfl
  | cons operation earlier ih => exact congrArg (operation :: ·) ih

end Play

def noting : Program := Program.empty.add
  { name := "note"
    patterns := ["Parcel"]
    action := fun _ => Effects.none.push "noted" (.int 1) }

def parcel : Fact := ⟨"Parcel",Map.empty⟩

end DurableRules
