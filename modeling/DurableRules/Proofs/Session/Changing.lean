import DurableRules.Proofs.Session.Preparing
import DurableRules.Proofs.Session.Run
import DurableRules.Proofs.Snapshot.Complete

namespace DurableRules
open Recovery

section Own
variable {id : SessionId} {edit : Edit}

theorem Attempt.own {steady : Prop} {w : Writer} {e : Engine} {version : Nat} {edits : List Edit} {done : Option Writer}
    (attempt : Attempt steady w e version edits done) (present : edit ∈ edits) : edit.key.id = w.id := by
  cases attempt with
  | whole => exact Writer.edits_own present
  | cut count => exact Writer.edits_own (List.mem_of_mem_take present)

theorem Prepared.own {steady : Prop} {shelf : Shelf} {program : Program} {options : Options} {edits : List Edit}
    {made : Option Session} (prepared : Prepared steady shelf id program options edits made) (present : edit ∈ edits) :
    edit.key.id = id := by
  cases prepared with
  | refused => cases present
  | undiscarded count => exact discards_own (List.mem_of_mem_take present)
  | explicit => exact discards_own present
  | always _ _ attempt =>
    cases List.mem_append.mp present with
    | inl discarded => exact discards_own discarded
    | inr written => exact attempt.own written

theorem Session.Processed.own {steady : Prop} {s next : Session} {command : Command} {edits : List Edit}
    {answer : Except SessionError Outcome} (processed : s.Processed steady command edits answer next)
    (present : edit ∈ edits) : edit.key.id = s.id := by
  cases processed with
  | written _ _ _ attempt => exact attempt.own present
  | checkpointed _ attempt => exact attempt.own present
  | refused => cases present
  | quiet => cases present
  | kept => cases present
  | skipped => cases present

end Own

variable {σ : Type} [Store σ] [Faithful σ]

-- What an operation means for one session: the changes made to the store, and
-- the session as it was and as it is afterwards.
inductive Change (id : SessionId) (step : Step σ) : List Edit → Option Session → Option Session → Prop where
  | idle {edits : List Edit} {x : Option Session} (apart : ∀ edit ∈ edits, edit.key.id ≠ id)
      (creates : step.creates id = false) (restores : step.restores id = false) (mutates : step.mutates id = false)
      (safepoints : step.safepoints id = false) (destroys : step.destroys id = false) : Change id step edits x x
  | handled {command : Command} {stays : Mailbox.closes command = false} {s next : Session} {edits : List Edit}
      {answer : Except SessionError Outcome} (asked : step.operation = .send id command stays)
      (live : step.before.live.get? id = some s) (answered : step.answer = answer.map .handled)
      (processed : s.Processed (Steady step.before.store) command edits answer next) :
      Change id step edits (some s) (some next)
  | lost {x : Option Session} (asked : step.operation = .failover) : Change id step [] x none
  | destroyed {x : Option Session} (asked : step.operation = .destroy id) (count : Nat)
      (all : step.destroys id = true → count = (discards id).length) :
      Change id step ((discards id).take count) x none
  | created {program : Program} {options : Options} {edits : List Edit} {made : Option Session}
      (asked : step.operation = .create id program options) (creates : step.creates id = made.isSome)
      (prepared : Prepared (Steady step.before.store) (shelf step.before.store id) id program options edits made) :
      Change id step edits none made
  | restored {x : Option Session} {program : Program} {options : Options} {found : Recovered}
      (asked : step.operation = .restore id program options ∨ step.operation = .recoverAll program)
      (restores : step.restores id = true)
      (stored : stored (shelf step.before.store id) id program options.persistence = .ok found) :
      Change id step [] x (some ⟨found.engine,.resumed id options found.header.stateVersion,found.header.stateVersion⟩)

section Restoring
variable {r : Registry σ} {id : SessionId} {program : Program} {options : Options}

theorem restore_spec (r : Registry σ) (id : SessionId) (program : Program) (options : Options) :
    Faithful.view (r.restore id program options).2.store = Faithful.view r.store ∧
      (Steady r.store → Steady (r.restore id program options).2.store) ∧
      ((∃ cause, (r.restore id program options).1 = .error cause) ∧ (r.restore id program options).2.live = r.live ∨
        ∃ found, stored (shelf r.store id) id program options.persistence = .ok found ∧
          (r.restore id program options).1 = .ok id ∧ (r.restore id program options).2.live =
            r.live.put id ⟨found.engine,.resumed id options found.header.stateVersion,found.header.stateVersion⟩) := by
  have answers : Answers (recover id program options.persistence) id _ r.store := answers_recover program options.persistence r.store
  unfold Registry.restore
  cases options.validate with
  | error cause => exact ⟨rfl,fun steady => steady,.inl ⟨⟨_,rfl⟩,rfl⟩⟩
  | ok _ =>
    cases went : recover id program options.persistence r.store with
    | mk answer after =>
      have view := answers.view
      have steady := answers.steady
      have read := answers.read
      rw [went] at view steady read
      cases answer with
      | error cause => exact ⟨view,steady,.inl ⟨⟨_,rfl⟩,rfl⟩⟩
      | ok found =>
        refine ⟨view,steady,.inr ⟨found,?_,rfl,rfl⟩⟩
        cases read with
        | inl read => exact read.symm
        | inr failed =>
          obtain ⟨_,failed⟩ := failed
          cases failed

structure Recovering (start : Registry σ) (id : SessionId) (program : Program) (found : List SessionId × Registry σ) : Prop where
  view : Faithful.view found.2.store = Faithful.view start.store
  steady : Steady start.store → Steady found.2.store
  live : id ∉ found.1 ∧ found.2.live.get? id = start.live.get? id ∨ id ∈ found.1 ∧ ∃ (options : Options) (recovered : Recovered),
    stored (shelf start.store id) id program options.persistence = .ok recovered ∧ found.2.live.get? id =
      some ⟨recovered.engine,.resumed id options recovered.header.stateVersion,recovered.header.stateVersion⟩

theorem recoverOne_spec {start : Registry σ} {found : List SessionId × Registry σ}
    (recovering : Recovering start id program found) (other : SessionId) :
    Recovering start id program (Registry.recoverOne program found other) := by
  obtain ⟨ids,r⟩ := found
  have answers : Answers (readHeader other) other _ r.store := answers_readHeader r.store
  unfold Registry.recoverOne
  dsimp only
  cases went : readHeader other r.store with
  | mk answer after =>
    have view := answers.view
    have steady := answers.steady
    rw [went] at view steady
    have passed : Recovering start id program (ids,{ r with store := after }) :=
      ⟨view.trans recovering.view,fun held => steady (recovering.steady held),recovering.live⟩
    cases answer with
    | error cause => exact passed
    | ok header =>
      cases header with
      | none => exact passed
      | some header =>
        obtain ⟨seen,still,result⟩ := restore_spec { r with store := after } other program header.options
        dsimp only
        cases done : ({ r with store := after } : Registry σ).restore other program header.options with
        | mk answer next =>
          rw [done] at seen still result
          cases result with
          | inl failed =>
            obtain ⟨⟨cause,refused⟩,same⟩ := failed
            dsimp only at refused same
            subst refused
            refine ⟨seen.trans passed.view,fun held => still (passed.steady held),?_⟩
            dsimp only
            rw [same]
            exact passed.live
          | inr restored =>
            obtain ⟨recovered,stored,accepted,live⟩ := restored
            dsimp only at accepted live
            subst accepted
            refine ⟨seen.trans passed.view,fun held => still (passed.steady held),?_⟩
            dsimp only
            rw [live]
            by_cases same : id = other
            · subst same
              refine .inr ⟨List.mem_append_right _ List.mem_cons_self,header.options,recovered,?_,Map.get?_put_self _ _ _⟩
              exact shelf_of_view passed.view id ▸ stored
            · rw [Map.get?_put_other _ _ same,List.mem_append,List.mem_singleton,or_iff_left same]
              exact passed.live

theorem foldl_recoverOne {start : Registry σ} {found : List SessionId × Registry σ} (ids : List SessionId)
    (recovering : Recovering start id program found) :
    Recovering start id program (ids.foldl (Registry.recoverOne program) found) := by
  induction ids generalizing found with
  | nil => exact recovering
  | cons other rest ih => exact ih (recoverOne_spec recovering other)

end Restoring

section Operations
variable {r : Registry σ} {id : SessionId}

def Named (r : Registry σ) : Prop := ∀ id s, r.live.get? id = some s → s.id = id

theorem create_spec (r : Registry σ) (id : SessionId) (program : Program) (options : Options) : ∃ edits made,
    Prepared (Steady r.store) (shelf r.store id) id program options edits made ∧
      Faithful.view (r.create id program options).2.store = (Faithful.view r.store).edits Faithful.written edits ∧
      (Steady r.store → Steady (r.create id program options).2.store) ∧
      (∀ s, r.live.get? id = some s → edits = [] ∧ made = none) ∧
      match made with
      | some s => (r.create id program options).1 = .ok id ∧ (r.create id program options).2.live = r.live.put id s
      | none => (∃ cause, (r.create id program options).1 = .error cause) ∧ (r.create id program options).2.live = r.live := by
  unfold Registry.create
  cases options.validate with
  | error cause => exact ⟨[],none,.refused,rfl,fun steady => steady,fun _ _ => ⟨rfl,rfl⟩,⟨_,rfl⟩,rfl⟩
  | ok _ =>
    cases live : r.isLive id with
    | true =>
      simp only [if_true]
      exact ⟨[],none,.refused,rfl,fun steady => steady,fun _ _ => ⟨rfl,rfl⟩,⟨_,rfl⟩,trivial⟩
    | false =>
      simp only [Bool.false_eq_true,if_false]
      have absent (s : Session) : r.live.get? id ≠ some s := by
        intro found
        rw [Registry.isLive,Map.contains_eq,found] at live
        cases live
      obtain ⟨edits,made,prepared,view,steady,answer⟩ := prepare_spec id program options r.store
      refine ⟨edits,made,prepared,?_⟩
      cases made with
      | some s =>
        cases went : Registry.prepare id program options r.store with
        | mk result after =>
          rw [went] at view steady answer
          dsimp only at answer
          subst answer
          exact ⟨view,steady,fun s found => absurd found (absent s),rfl,rfl⟩
      | none =>
        obtain ⟨cause,answer⟩ := answer
        cases went : Registry.prepare id program options r.store with
        | mk result after =>
          rw [went] at view steady answer
          dsimp only at answer
          subst answer
          exact ⟨view,steady,fun s found => absurd found (absent s),⟨_,rfl⟩,rfl⟩

def Effect (id : SessionId) (step : Step σ) : Prop := ∃ edits,
  Change id step edits (step.before.live.get? id) (step.after.live.get? id) ∧
    Faithful.view step.after.store = (Faithful.view step.before.store).edits Faithful.written edits ∧
    (Steady step.before.store → Steady step.after.store)

theorem create_effect (r : Registry σ) (other : SessionId) (program : Program) (options : Options) (id : SessionId) :
    Effect id ⟨r,.create other program options⟩ := by
  obtain ⟨edits,made,prepared,view,steady,refused,result⟩ := create_spec r other program options
  refine ⟨edits,?_,view,steady⟩
  by_cases same : other = id
  · subst same
    cases live : r.live.get? other with
    | some s =>
      obtain ⟨rfl,rfl⟩ := refused s live
      obtain ⟨⟨cause,answer⟩,kept⟩ := result
      have after : (Step.mk r (.create other program options)).after.live.get? other = some s := by
        change (r.create other program options).2.live.get? other = some s
        rw [kept,live]
      rw [after]
      have failed : (Step.mk r (.create other program options)).answer = .error cause := by
        simp [Step.answer,Operation.perform,answer,Except.map]
      apply Change.idle <;> simp [Step.creates,Step.restores,Step.mutates,Step.safepoints,Step.destroys,failed]
    | none =>
      cases made with
      | none =>
        obtain ⟨⟨cause,answer⟩,kept⟩ := result
        have after : (Step.mk r (.create other program options)).after.live.get? other = none := by
          change (r.create other program options).2.live.get? other = none
          rw [kept,live]
        rw [after]
        exact .created rfl (by simp [Step.creates,Step.answer,Operation.perform,answer,Except.map]) prepared
      | some s =>
        obtain ⟨answer,put⟩ := result
        have after : (Step.mk r (.create other program options)).after.live.get? other = some s := by
          change (r.create other program options).2.live.get? other = some s
          rw [put,Map.get?_put_self]
        rw [after]
        exact .created rfl (by simp [Step.creates,Step.answer,Operation.perform,answer,Except.map]) prepared
  · have after : (Step.mk r (.create other program options)).after.live.get? id = r.live.get? id := by
      change (r.create other program options).2.live.get? id = r.live.get? id
      cases made with
      | none => rw [result.2]
      | some s => rw [result.2,Map.get?_put_other _ _ (Ne.symm same)]
    rw [after]
    have creates : (Step.mk r (.create other program options)).creates id = false := by
      cases made with
      | none =>
        obtain ⟨⟨cause,answer⟩,_⟩ := result
        simp [Step.creates,Step.answer,Operation.perform,answer,Except.map]
      | some s => simp [Step.creates,Step.answer,Operation.perform,result.1,Except.map,same]
    exact .idle (fun edit present own => same ((prepared.own present).symm.trans own)) creates rfl rfl rfl rfl

theorem send_effect (named : Named r) (other : SessionId) (command : Command) (stays : Mailbox.closes command = false)
    (id : SessionId) : Effect id ⟨r,.send other command stays⟩ := by
  let step : Step σ := ⟨r,.send other command stays⟩
  have quiet (apart : other = id → r.live.get? other = none) : step.mutates id = false ∧ step.safepoints id = false := by
    constructor
    · refine Bool.eq_false_iff.mpr fun mutates => ?_
      obtain ⟨_,_,s,asked,found⟩ := mutates_sent mutates
      cases asked
      cases (apart rfl).symm.trans found
    · refine Bool.eq_false_iff.mpr fun safepoints => ?_
      obtain ⟨_,_,s,asked,found⟩ := safepoints_sent safepoints
      cases asked
      cases (apart rfl).symm.trans found
  cases live : r.live.get? other with
  | none =>
    have went : r.send other command = (.error (.unknownSession other),r) := by
      simp [Registry.send,Registry.session?,live]
    have after : step.after = r := congrArg Prod.snd went
    refine ⟨[],?_,congrArg (fun r => Faithful.view r.store) after,fun steady => (congrArg Registry.store after) ▸ steady⟩
    rw [show Step.after ⟨r,.send other command stays⟩ = r from after]
    exact .idle (by simp) rfl rfl (quiet fun _ => live).1 (quiet fun _ => live).2 rfl
  | some s =>
    obtain ⟨edits,processed,view,steady⟩ := s.process_spec command stays r.store
    have went : r.send other command = ((s.process command r.store).1,
        ⟨(s.process command r.store).2.2,r.live.put other (s.process command r.store).2.1⟩) := by
      simp [Registry.send,Registry.session?,live]
    have after : step.after = ⟨(s.process command r.store).2.2,r.live.put other (s.process command r.store).2.1⟩ :=
      congrArg Prod.snd went
    have answer : step.answer = (s.process command r.store).1.map .handled := by
      simp [step,Step.answer,Operation.perform,went]
    refine ⟨edits,?_,by rw [after]; exact view,fun held => by rw [after]; exact steady held⟩
    rw [after]
    dsimp only
    by_cases same : id = other
    · subst same
      rw [live,Map.get?_put_self]
      exact .handled rfl live answer processed
    · rw [Map.get?_put_other _ _ same]
      have still := quiet fun equal => absurd equal.symm same
      refine .idle (fun edit present own => same ?_) rfl rfl still.1 still.2 rfl
      rw [← own,processed.own present,named other s live]

theorem destroy_effect (r : Registry σ) (other id : SessionId) : Effect id ⟨r,.destroy other⟩ := by
  let step : Step σ := ⟨r,.destroy other⟩
  obtain ⟨cut,bound,view,answer,steady⟩ := performs_discard other r.store
  have after : step.after = ⟨((discard other : Call σ Unit) r.store).2,r.live.erase other⟩ := by
    simp only [step,Step.after,Operation.perform,Registry.destroy]
    split <;> next went => simp [went]
  refine ⟨(discards other).take cut,?_,by rw [after]; exact view,fun held => by rw [after]; exact (steady held).2⟩
  rw [after]
  dsimp only
  by_cases same : id = other
  · subst same
    rw [Map.get?_erase_self]
    refine .destroyed rfl cut fun destroys => ?_
    cases answer with
    | inl went => exact went.2
    | inr failed =>
      obtain ⟨⟨cause,failed⟩,_⟩ := failed
      obtain ⟨after,went⟩ : ∃ after, (discard id : Call σ Unit) r.store = (.error cause,after) := ⟨_,Prod.ext failed rfl⟩
      simp [Step.destroys,Step.answer,Operation.perform,Registry.destroy,went,Except.map] at destroys
  · rw [Map.get?_erase_other _ same]
    refine .idle (fun edit present own => same ?_) rfl rfl rfl rfl ?_
    · exact own.symm.trans (discards_own (List.mem_of_mem_take present))
    · unfold Step.destroys
      split
      · next asked _ =>
        cases asked
        exact beq_false_of_ne (Ne.symm same)
      · rfl

theorem failover_effect (r : Registry σ) (id : SessionId) : Effect id ⟨r,.failover⟩ :=
  ⟨[],.lost rfl,rfl,fun steady => steady⟩

theorem restore_effect (r : Registry σ) (other : SessionId) (program : Program) (options : Options) (id : SessionId) :
    Effect id ⟨r,.restore other program options⟩ := by
  obtain ⟨view,steady,result⟩ := restore_spec r other program options
  refine ⟨[],?_,view,steady⟩
  dsimp only [Step.after,Operation.perform]
  cases result with
  | inl failed =>
    obtain ⟨⟨cause,answer⟩,same⟩ := failed
    rw [same]
    apply Change.idle <;> simp [Step.creates,Step.restores,Step.mutates,Step.safepoints,Step.destroys,Step.answer,
      Operation.perform,answer,Except.map]
  | inr restored =>
    obtain ⟨found,stored,answer,live⟩ := restored
    rw [live]
    by_cases same : id = other
    · subst same
      rw [Map.get?_put_self]
      exact .restored (.inl rfl) (by simp [Step.restores,Step.answer,Operation.perform,answer,Except.map]) stored
    · rw [Map.get?_put_other _ _ same]
      apply Change.idle <;> simp [Step.creates,Step.restores,Step.mutates,Step.safepoints,Step.destroys,Step.answer,
        Operation.perform,answer,Except.map,Ne.symm same]

theorem recoverAll_effect (r : Registry σ) (program : Program) (id : SessionId) : Effect id ⟨r,.recoverAll program⟩ := by
  have asked := Faithful.sessions r.store
  have steady (held : Steady r.store) : Steady ((Store.sessions : Call σ _) r.store).2 := (held.ask .sessions trivial).2
  cases went : (Store.sessions : Call σ _) r.store with
  | mk answer store =>
    rw [went] at asked steady
    cases answer with
    | error cause =>
      have result : r.recoverAll program = (.error (.store cause),{ r with store }) := by
        simp [Registry.recoverAll,went]
      refine ⟨[],?_,?_,?_⟩
      · dsimp only [Step.after,Operation.perform]
        rw [result]
        apply Change.idle <;> simp [Step.creates,Step.restores,Step.mutates,Step.safepoints,Step.destroys,Step.answer,
          Operation.perform,result,Except.map]
      · dsimp only [Step.after,Operation.perform]
        rw [result]
        exact asked
      · dsimp only [Step.after,Operation.perform]
        rw [result]
        exact steady
    | ok ids =>
      have start : Recovering r id program ([],{ r with store }) := ⟨asked,steady,.inl ⟨by simp,rfl⟩⟩
      obtain ⟨view,still,live⟩ := foldl_recoverOne ids start
      have result : r.recoverAll program = (.ok (ids.foldl (Registry.recoverOne program) ([],{ r with store })).1,
          (ids.foldl (Registry.recoverOne program) ([],{ r with store })).2) := by
        simp [Registry.recoverAll,went]
      refine ⟨[],?_,?_,?_⟩
      · dsimp only [Step.after,Operation.perform]
        rw [result]
        cases live with
        | inl passed =>
          dsimp only
          rw [passed.2]
          apply Change.idle <;> simp [Step.creates,Step.restores,Step.mutates,Step.safepoints,Step.destroys,Step.answer,
            Operation.perform,result,Except.map,passed.1]
        | inr recovered =>
          obtain ⟨present,options,found,stored,live⟩ := recovered
          dsimp only
          rw [live]
          refine .restored (.inr rfl) ?_ stored
          simpa [Step.restores,Step.answer,Operation.perform,result,Except.map] using present
      · dsimp only [Step.after,Operation.perform]
        rw [result]
        exact view
      · dsimp only [Step.after,Operation.perform]
        rw [result]
        exact still

-- Whatever is asked of a registry, each session changes in one of these ways.
theorem step_effect (step : Step σ) (named : Named step.before) (id : SessionId) : Effect id step := by
  obtain ⟨r,operation⟩ := step
  cases operation with
  | create other program options => exact create_effect r other program options id
  | restore other program options => exact restore_effect r other program options id
  | recoverAll program => exact recoverAll_effect r program id
  | send other command stays => exact send_effect named other command stays id
  | destroy other => exact destroy_effect r other id
  | failover => exact failover_effect r id

end Operations
end DurableRules
