import DurableRules.Proofs.Session.Preparing
import DurableRules.Proofs.Snapshot.Complete

namespace DurableRules
open Recovery

variable {σ : Type} [Store σ] [Faithful σ]

-- Two stores that never fail and hold the same of one session. What they hold
-- of the others is left open.
structure Alike (id : SessionId) (one two : σ) : Prop where
  shelf : shelf one id = shelf two id
  first : Steady one
  second : Steady two

-- The call asks a store for nothing but one session: its answer and what it
-- leaves of the session are decided by what the store holds of it.
def Confined {ε α : Type} (id : SessionId) (call : ExceptT ε (StateM σ) α) : Prop := ∀ ⦃one two : σ⦄, Alike id one two →
  (call one).1 = (call two).1 ∧ Alike id (call one).2 (call two).2

section Combining
variable {ε ε' α β : Type} {id : SessionId}

theorem Confined.runs {call : ExceptT ε (StateM σ) α} (confined : Confined id call) {one two : σ}
    (alike : Alike id one two) : ∃ answer next next', call one = (answer,next) ∧ call two = (answer,next') ∧
      Alike id next next' := by
  obtain ⟨same,after⟩ := confined alike
  exact ⟨(call two).1,(call one).2,(call two).2,Prod.ext same rfl,rfl,after⟩

theorem confined_answer (answer : Except ε α) : Confined id (ExceptT.mk (pure answer) : ExceptT ε (StateM σ) α) :=
  fun _ _ alike => ⟨rfl,alike⟩

theorem confined_pure (value : α) : Confined id (pure value : ExceptT ε (StateM σ) α) := confined_answer (.ok value)

theorem Confined.bind {call : ExceptT ε (StateM σ) α} {next : α → ExceptT ε (StateM σ) β} (first : Confined id call)
    (later : ∀ value, Confined id (next value)) : Confined id (call >>= next) := by
  intro one two alike
  obtain ⟨same,after⟩ := first alike
  cases went : (call two).1 with
  | ok value =>
    rw [bind_of_ok (Prod.ext (same.trans went) rfl),bind_of_ok (Prod.ext went rfl)]
    exact later value after
  | error cause =>
    rw [bind_of_error (Prod.ext (same.trans went) rfl),bind_of_error (Prod.ext went rfl)]
    exact ⟨rfl,after⟩

theorem Confined.adapt {call : ExceptT ε (StateM σ) α} (confined : Confined id call) (f : ε → ε') :
    Confined id (ExceptT.adapt f call) := by
  intro one two alike
  obtain ⟨same,after⟩ := confined alike
  exact ⟨congrArg (Except.mapError f) same,after⟩

end Combining

section Kinds
variable {α : Type} {id : SessionId}

theorem Performs.whole {edits : List Edit} {value : α} {call : Call σ α} (performs : Performs edits value call) {store : σ}
    (steady : Steady store) : (call store).1 = .ok value ∧
      Faithful.view (call store).2 = (Faithful.view store).edits Faithful.written edits ∧ Steady (call store).2 := by
  obtain ⟨cut,_,view,answer,served⟩ := performs store
  obtain ⟨ok,after⟩ := served steady
  rcases answer with ⟨_,all⟩ | ⟨⟨cause,failed⟩,_⟩
  · rw [all,List.take_length] at view
    exact ⟨ok,view,after⟩
  · cases ok.symm.trans failed

theorem Performs.confined {edits : List Edit} {value : α} {call : Call σ α} (performs : Performs edits value call)
    (own : ∀ edit ∈ edits, edit.key.id = id) : Confined id call := by
  intro one two alike
  obtain ⟨answer,view,steady⟩ := performs.whole alike.first
  obtain ⟨answer',view',steady'⟩ := performs.whole alike.second
  refine ⟨answer.trans answer'.symm,?_,steady,steady'⟩
  rw [shelf,shelf,view,view',shelf_edits_own own,shelf_edits_own own]
  exact congrArg (edits.foldl Shelf.edit) alike.shelf

theorem confined_of_answers {call : Recovery σ α} {answer : Shelf → Except RecoveryError α}
    (answers : ∀ store, Answers call id answer store) : Confined id call := by
  intro one two alike
  have first := answers one
  have second := answers two
  refine ⟨?_,?_,first.steady alike.first,second.steady alike.second⟩
  · rw [(first.readable alike.first.readable).1,(second.readable alike.second.readable).1,alike.shelf]
  · rw [shelf,shelf,first.view,second.view]
    exact alike.shelf

theorem confined_get (tag : Tag) : Confined id (Store.get id tag : Call σ (Option ByteArray)) := by
  intro one two alike
  obtain ⟨first,_⟩ := alike.first.readable.get id tag
  obtain ⟨second,_⟩ := alike.second.readable.get id tag
  refine ⟨?_,?_,alike.first.get id tag,alike.second.get id tag⟩
  · rw [first,second]
    exact congrArg Except.ok (congrFun alike.shelf tag)
  · rw [shelf,shelf,(Faithful.get one id tag).1,(Faithful.get two id tag).1]
    exact alike.shelf

end Kinds

section Sessions
variable {id : SessionId}

theorem confined_discard (id : SessionId) : Confined id (discard id : Call σ Unit) :=
  (performs_discard id).confined fun _ => discards_own

theorem confined_write (w : Writer) (e : Engine) (version : Nat) : Confined w.id (w.write e version : Call σ Writer) :=
  (performs_write w e version).confined fun _ => Writer.edits_own

theorem confined_flagged (w : Writer) (e : Engine) (version : Nat) :
    Confined w.id (do return (true,← w.write e version) : Call σ (Bool × Writer)) :=
  (confined_write w e version).bind fun _ => confined_pure _

theorem confined_afterMutation (w : Writer) (e : Engine) (version : Nat) :
    Confined w.id (w.afterMutation e version : Call σ (Bool × Writer)) := by
  unfold Writer.afterMutation
  cases w.options.safepoint with
  | always => exact confined_flagged w e version
  | explicit => exact confined_pure _

theorem confined_safepoint (w : Writer) (e : Engine) (version : Nat) :
    Confined w.id (w.safepoint e version : Call σ (Bool × Writer)) := by
  unfold Writer.safepoint
  split
  · exact confined_pure _
  · exact confined_flagged w e version

theorem confined_fresh (id : SessionId) (program : Program) (options : Options) :
    Confined id (fresh id program options : ExceptT SessionError (StateM σ) Session) := by
  unfold fresh
  cases options.safepoint with
  | always => exact ((confined_write (.new id options) _ _).adapt _).bind fun _ => confined_pure _
  | explicit => exact confined_pure _

theorem confined_prepare (id : SessionId) (program : Program) (options : Options) :
    Confined id (Registry.prepare id program options : ExceptT SessionError (StateM σ) Session) := by
  unfold Registry.prepare
  refine ((confined_get .header).adapt _).bind fun found => ?_
  cases found with
  | some bytes => exact confined_answer (.error (SessionError.sessionExists id))
  | none =>
    have discarded : Confined id (ExceptT.adapt SessionError.store (discard id) : ExceptT SessionError (StateM σ) Unit) :=
      (confined_discard id).adapt _
    exact discarded.bind fun _ => confined_fresh id program options

theorem confined_recover (id : SessionId) (program : Program) (persistence : Persistence) :
    Confined id (recover id program persistence : Recovery σ Recovered) :=
  confined_of_answers fun store => answers_recover program persistence store

end Sessions
end DurableRules
