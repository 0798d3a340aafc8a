import DurableRules.Proofs.Session.Processing
import DurableRules.Proofs.Session.Run
import DurableRules.Proofs.Store.Recovering

namespace DurableRules
open Recovery

section Calls
variable {σ : Type}

section Adapt
variable {ε ε' α : Type} {f : ε → ε'} {call : ExceptT ε (StateM σ) α} {store after : σ}

theorem adapt_ok {value : α} (went : call store = (.ok value,after)) :
    (ExceptT.adapt f call) store = (.ok value,after) := by
  change ((call store).1.mapError f,(call store).2) = _
  rw [went]
  rfl

theorem adapt_error {cause : ε} (failed : call store = (.error cause,after)) :
    (ExceptT.adapt f call) store = (.error (f cause),after) := by
  change ((call store).1.mapError f,(call store).2) = _
  rw [failed]
  rfl

end Adapt

variable [Store σ]

def fresh (id : SessionId) (program : Program) (options : Options) : ExceptT SessionError (StateM σ) Session :=
  match options.safepoint with
  | .always => do
    let writer ← ExceptT.adapt SessionError.persistence ((Writer.new id options).write (Engine.new program) 0)
    return ⟨Engine.new program,writer,0⟩
  | .explicit => return ⟨Engine.new program,.new id options,0⟩

theorem prepare_found {id : SessionId} {program : Program} {options : Options} {store after : σ} {bytes : Option ByteArray}
    (found : (Store.get id .header : Call σ _) store = (.ok bytes,after)) :
    Registry.prepare id program options store =
      if bytes.isSome then (.error (.sessionExists id),after)
      else (ExceptT.adapt SessionError.store (discard id) >>= fun _ => fresh id program options) after := by
  unfold Registry.prepare
  rw [bind_of_ok (adapt_ok found)]
  cases bytes <;> rfl

theorem prepare_failed {id : SessionId} {program : Program} {options : Options} {store : σ} {cause : StoreError}
    (failed : ((Store.get id .header : Call σ _) store).1 = .error cause) :
    Registry.prepare id program options store = (.error (.store cause),((Store.get id .header : Call σ _) store).2) :=
  bind_of_error (adapt_error (Prod.ext failed rfl))

end Calls

variable {σ : Type} [Store σ] [Faithful σ]

section Preparing

inductive Prepared (steady : Prop) (shelf : Shelf) (id : SessionId) (program : Program) (options : Options) :
    List Edit → Option Session → Prop where
  | refused : Prepared steady shelf id program options [] none
  | undiscarded (count : Nat) (free : shelf .header = none) (unsteady : ¬ steady) :
      Prepared steady shelf id program options ((discards id).take count) none
  | explicit (free : shelf .header = none) (strategy : options.safepoint = .explicit) :
      Prepared steady shelf id program options (discards id) (some ⟨Engine.new program,.new id options,0⟩)
  | always {edits : List Edit} {done : Option Writer} (free : shelf .header = none) (strategy : options.safepoint = .always)
      (attempt : Attempt steady (.new id options) (Engine.new program) 0 edits done) :
      Prepared steady shelf id program options (discards id ++ edits) (done.map fun w => ⟨Engine.new program,w,0⟩)

theorem fresh_spec (id : SessionId) (program : Program) (options : Options) (before store : σ)
    (same : Steady before → Steady store) (shelf : Shelf) (free : shelf .header = none) : ∃ edits made,
    Prepared (Steady before) shelf id program options (discards id ++ edits) made ∧
      Faithful.view (fresh id program options store).2 = (Faithful.view store).edits Faithful.written edits ∧
      (Steady before → Steady (fresh id program options store).2) ∧
      match made with
      | some s => (fresh id program options store).1 = .ok s
      | none => ∃ cause, (fresh id program options store).1 = .error cause := by
  unfold fresh
  cases strategy : options.safepoint with
  | explicit =>
    refine ⟨[],some ⟨Engine.new program,.new id options,0⟩,?_,rfl,same,rfl⟩
    rw [List.append_nil]
    exact .explicit free strategy
  | always =>
    obtain ⟨edits,done,attempt,view,steady,answer⟩ := write_attempt (.new id options) (Engine.new program) 0 store
    have attempted : Attempt (Steady before) (.new id options) (Engine.new program) 0 edits done := by
      cases attempt with
      | whole => exact .whole
      | cut count short unsteady => exact .cut count short fun held => unsteady (same held)
    refine ⟨edits,_,.always free strategy attempted,?_⟩
    dsimp only
    cases done with
    | some next =>
      rw [bind_of_ok (adapt_ok (Prod.ext answer rfl))]
      exact ⟨view,fun held => steady (same held),rfl⟩
    | none =>
      obtain ⟨cause,answer⟩ := answer
      rw [bind_of_error (adapt_error (Prod.ext answer rfl))]
      exact ⟨view,fun held => steady (same held),_,rfl⟩

theorem edits_append {π : Type} (written : Key → π → π) (v : View π) (one two : List Edit) :
    v.edits written (one ++ two) = (v.edits written one).edits written two := List.foldl_append

theorem prepare_spec (id : SessionId) (program : Program) (options : Options) (store : σ) : ∃ edits made,
    Prepared (Steady store) (shelf store id) id program options edits made ∧
      Faithful.view (Registry.prepare id program options store).2 = (Faithful.view store).edits Faithful.written edits ∧
      (Steady store → Steady (Registry.prepare id program options store).2) ∧
      match made with
      | some s => (Registry.prepare id program options store).1 = .ok s
      | none => ∃ cause, (Registry.prepare id program options store).1 = .error cause := by
  obtain ⟨same,found⟩ := Faithful.get store id .header
  have steady (held : Steady store) : Steady ((Store.get id .header : Call σ _) store).2 := held.get id .header
  cases found with
  | inr failed =>
    obtain ⟨cause,failed⟩ := failed
    rw [prepare_failed failed]
    exact ⟨[],none,.refused,same,steady,_,rfl⟩
  | inl found =>
    rw [prepare_found (Prod.ext found rfl)]
    cases free : (Faithful.view store).contents ⟨id,.header⟩ with
    | some bytes => exact ⟨[],none,.refused,same,steady,_,rfl⟩
    | none =>
      simp only [Option.isSome_none,Bool.false_eq_true,if_false]
      obtain ⟨cut,_,view,answer,after⟩ := performs_discard id ((Store.get id .header : Call σ _) store).2
      rw [same] at view
      cases answer with
      | inl went =>
        obtain ⟨ok,all⟩ := went
        rw [all,List.take_length] at view
        rw [bind_of_ok (adapt_ok (Prod.ext ok rfl))]
        obtain ⟨edits,made,prepared,seen,still,answer⟩ := fresh_spec id program options store _
          (fun held => (after (steady held)).2) (shelf store id) free
        refine ⟨_,made,prepared,?_,still,answer⟩
        rw [seen,view,edits_append]
      | inr failed =>
        obtain ⟨⟨cause,failed⟩,short⟩ := failed
        rw [bind_of_error (adapt_error (Prod.ext failed rfl))]
        refine ⟨_,none,.undiscarded cut free fun held => ?_,view,fun held => (after (steady held)).2,_,rfl⟩
        rw [(after (steady held)).1] at failed
        cases failed

end Preparing
end DurableRules
