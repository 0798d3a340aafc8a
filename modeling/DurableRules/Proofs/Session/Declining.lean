import DurableRules.Proofs.Session.Saving
import DurableRules.Proofs.Store.Renewal

namespace DurableRules
open Recovery

def SessionError.unknown : SessionError → Bool
  | unknownHandle .. | unknownSession _ => true
  | _ => false

def Operation.opens : Operation → Bool
  | create .. | restore .. => true
  | _ => false

def Registry.Founded {σ : Type} (r : Registry σ) : Prop := ∀ id s, r.live.get? id = some s → s.engine.Founded

section Founding

theorem Engine.Founded.operate {e next : Engine} {command : Command} {outcome : Outcome} (founded : e.Founded)
    (operated : Session.operate e command = .ok (outcome,next)) : next.Founded :=
  operate_induct operated founded founded.insert (fun _ _ done => founded.update done) (fun _ _ done => founded.delete done)
    founded.fire fun _ => founded.globals _

theorem Session.Processed.founded {steady : Prop} {s next : Session} {command : Command} {edits : List Edit}
    {answer : Except SessionError Outcome} (processed : s.Processed steady command edits answer next)
    (founded : s.engine.Founded) : next.engine.Founded := by
  cases processed with
  | refused refused => exact (founded.operate_refused refused).symm ▸ founded
  | quiet operated | kept operated | written operated => exact founded.operate operated
  | skipped | checkpointed => exact founded

variable {σ : Type} [Store σ] [Faithful σ]

end Founding

section Handling
variable {σ : Type} [Store σ]

theorem Session.mutate_unknown {s : Session} {command : Command} {store : σ} {cause : SessionError}
    (founded : s.engine.Founded) (failed : (s.mutate command store).1 = .error cause) (unknown : cause.unknown = true) :
    (s.mutate command store).2 = (s,store) := by
  unfold Session.mutate at failed ⊢
  split at failed
  · next refused =>
    cases founded.operate_refused refused
    rfl
  · dsimp only at failed
    split at failed
    · split at failed
      · cases failed
      · cases failed
        cases unknown
    · cases failed

theorem Session.process_unknown {s : Session} {command : Command} {store : σ} {cause : SessionError}
    (founded : s.engine.Founded) (failed : (s.process command store).1 = .error cause) (unknown : cause.unknown = true) :
    (s.process command store).2 = (s,store) := by
  cases command with
  | insert | update | delete | fire | clear => exact Session.mutate_unknown founded failed unknown
  | safepoint | discard =>
    unfold Session.process at failed
    dsimp only at failed
    split at failed
    · cases failed
    · cases failed
      cases unknown

end Handling

section Opening
variable {σ : Type} [Store σ] [Faithful σ] {r : Registry σ} {id : SessionId} {program : Program} {options : Options}
  {cause : SessionError}

-- What is prepared is put where no header lies, and none lies there when it fails.
theorem Prepared.headers {steady : Prop} {shelf : Shelf} {edits : List Edit} {made : Option Session}
    (prepared : Prepared steady shelf id program options edits made) : edits = [] ∨
      shelf .header = none ∧ (made = none → edits.foldl Shelf.edit shelf .header = none) := by
  have own : ∀ edit ∈ edits, edit.key.id = id := fun _ => prepared.own
  cases prepared with
  | refused => exact .inl rfl
  | undiscarded count free => exact .inr ⟨free,fun _ => header_absent own (discards_quiet id id count) free⟩
  | explicit free => exact .inr ⟨free,nofun⟩
  | always free _ attempt =>
    refine .inr ⟨free,fun failed => ?_⟩
    cases attempt with
    | whole => cases failed
    | cut count short =>
      refine header_absent own ?_ free
      rw [List.any_append,blank_quiet fun _ => discards_blank,Bool.false_or]
      exact cut_quiet short

end Opening

section Steps
variable {σ : Type} [Store σ] {step : Step σ}

end Steps

-- Two sessions are created, and the third put of the second one is refused.
def stalling : Watched Memory := { Watched.unlimited Memory.empty with refuses := fun number => number == 19 }

def opening : List (Step (Watched Memory)) × Registry (Watched Memory) :=
  play (Registry.new stalling) [.create (.ofNat 1) noting ⟨.storesOnly,.always⟩]

end DurableRules
