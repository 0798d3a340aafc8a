import DurableRules.Engine.Restore
import DurableRules.Proofs.Engine.Coherence

namespace DurableRules.Engine
variable {e next : Engine} {handle : Handle} {fact : Fact}

def enter (e : Engine) (handle : Handle) (fact : Fact) : Engine := (e.attach handle fact).propagate handle

def withdraw (e : Engine) (handle : Handle) : Engine := (e.cancel handle).detach handle

theorem insert_eq (e : Engine) (fact : Fact) : e.insert fact =
    (e.roster.nextHandle,({ e with roster := e.roster.allocate.2 }).enter e.roster.nextHandle fact) := rfl

theorem update_ok (updated : e.update handle fact = .ok next) : e.roster.isLive handle = true ∧
    next = ({ e.withdraw handle with roster := ((e.withdraw handle).roster.bump handle).2 }).enter handle fact := by
  unfold update at updated
  split at updated
  · next live =>
    cases updated
    exact ⟨live,rfl⟩
  · cases updated

theorem retract_cases (e : Engine) (handle : Handle) :
    (e.roster.isLive handle = false ∧ e.retract handle = (.error ⟨handle⟩,e)) ∨
    (e.roster.isLive handle = true ∧ e.facts.get? handle = none ∧ e.retract handle = (.error ⟨handle⟩,e.withdraw handle)) ∨
    ∃ fact, e.roster.isLive handle = true ∧ e.facts.get? handle = some fact ∧
      e.retract handle = (.ok fact,{ e.withdraw handle with roster := ((e.withdraw handle).roster.retire handle).2 }) := by
  unfold retract
  cases live : e.roster.isLive handle with
  | false => exact .inl ⟨rfl,rfl⟩
  | true =>
    cases held : e.facts.get? handle with
    | none =>
      have same : (e.cancel handle).facts.get? handle = none := held
      exact .inr (.inl ⟨rfl,rfl,by simp only [withdraw,detach,same,if_true]⟩)
    | some fact =>
      have same : (e.cancel handle).facts.get? handle = some fact := held
      exact .inr (.inr ⟨fact,rfl,rfl,by simp only [same,if_true]; rfl⟩)

theorem retract_ok (retracted : e.retract handle = (.ok fact,next)) : e.roster.isLive handle = true ∧
    e.facts.get? handle = some fact ∧
    next = { e.withdraw handle with roster := ((e.withdraw handle).roster.retire handle).2 } := by
  rcases retract_cases e handle with ⟨_,went⟩ | ⟨_,_,went⟩ | ⟨_,live,held,went⟩
  · cases went.symm.trans retracted
  · cases went.symm.trans retracted
  · cases went.symm.trans retracted
    exact ⟨live,held,rfl⟩

theorem delete_retract : e.delete handle = .ok (fact,next) ↔ e.retract handle = (.ok fact,next) := by
  unfold delete
  split <;> simp_all

theorem delete_ok (deleted : e.delete handle = .ok (fact,next)) : e.roster.isLive handle = true ∧
    e.facts.get? handle = some fact ∧
    next = { e.withdraw handle with roster := ((e.withdraw handle).roster.retire handle).2 } :=
  retract_ok (delete_retract.mp deleted)

theorem delete_known (live : e.roster.isLive handle = true) (known : e.facts.get? handle = some fact) :
    e.delete handle = .ok (fact,{ e.withdraw handle with roster := ((e.withdraw handle).roster.retire handle).2 }) := by
  rcases retract_cases e handle with ⟨dead,_⟩ | ⟨_,out,_⟩ | ⟨other,_,held,went⟩
  · cases dead.symm.trans live
  · cases out.symm.trans known
  · cases held.symm.trans known
    exact delete_retract.mpr went

theorem delete_dead (dead : e.roster.isLive handle = false) : e.delete handle = .error ⟨handle⟩ := by
  simp [delete,retract,dead]

theorem detach_other (e : Engine) (handle : Handle) : (e.detach handle).program = e.program ∧
    (e.detach handle).roster = e.roster ∧ (e.detach handle).globals = e.globals ∧
    (e.detach handle).network.agenda = e.network.agenda ∧
    (e.detach handle).network.nextSequence = e.network.nextSequence ∧ (e.detach handle).queued = e.queued := by
  unfold detach
  split <;> exact ⟨rfl,rfl,rfl,rfl,rfl,rfl⟩

@[simp] theorem withdraw_program (e : Engine) (handle : Handle) : (e.withdraw handle).program = e.program :=
  (detach_other _ handle).1
@[simp] theorem withdraw_roster (e : Engine) (handle : Handle) : (e.withdraw handle).roster = e.roster :=
  (detach_other _ handle).2.1
@[simp] theorem withdraw_globals (e : Engine) (handle : Handle) : (e.withdraw handle).globals = e.globals :=
  (detach_other _ handle).2.2.1

@[simp] theorem withdraw_facts (e : Engine) (handle : Handle) : (e.withdraw handle).facts = e.facts.erase handle := by
  unfold withdraw detach
  split
  · next absent => exact (Map.erase_absent absent).symm
  · rfl

theorem withdraw_pending (e : Engine) (handle : Handle) :
    (e.withdraw handle).pending = e.pending.filter fun a => !a.involves handle := by
  have agenda : (e.withdraw handle).network.agenda = (e.cancel handle).network.agenda := (detach_other _ handle).2.2.2.1
  unfold pending
  rw [agenda]
  exact (List.filter_map (f := Prod.snd) (p := fun a : Activation => !a.involves handle)).symm

theorem mem_withdraw_pending {e : Engine} {handle : Handle} {a : Activation} :
    a ∈ (e.withdraw handle).pending ↔ a ∈ e.pending ∧ a.involves handle = false := by
  rw [withdraw_pending,List.mem_filter,Bool.not_eq_true']

theorem attach_orderly (orderly : Orderly e) (handle : Handle) (fact : Fact) : Orderly (e.attach handle fact) :=
  ⟨orderly.queued,orderly.once,orderly.early⟩

theorem attach_alpha (e : Engine) (handle : Handle) (fact : Fact) (kind : String) :
    (e.attach handle fact).network.alpha.get? kind = if kind = fact.kind then
      some (((e.network.alpha.get? fact.kind).getD Map.empty).insert handle) else e.network.alpha.get? kind :=
  Map.get?_put _ _ _ _

theorem attach_memory {e : Engine} {handle x : Handle} {fact : Fact} {kind : String} :
    x ∈ memory (e.attach handle fact).network.alpha kind ↔
      (kind = fact.kind ∧ x = handle) ∨ x ∈ memory e.network.alpha kind := by
  rw [mem_memory,mem_memory,attach_alpha]
  by_cases same : kind = fact.kind
  · subst same
    simp only [if_true,Option.some.injEq,exists_eq_left',Members.mem_insert,true_and]
    cases e.network.alpha.get? fact.kind with
    | none => simp [Members.toList,Map.keys,Map.empty]
    | some handles => simp
  · simp [same]

theorem attach_inhabited (inhabited : Inhabited e.network.alpha) (handle : Handle) (fact : Fact) :
    Inhabited (e.attach handle fact).network.alpha := by
  intro kind handles found
  rw [attach_alpha] at found
  split at found
  · cases found
    exact List.ne_nil_of_mem (Members.mem_insert.mpr (.inl rfl))
  · exact inhabited kind handles found

theorem attach_indexed (indexed : Indexed e) (out : e.facts.get? handle = none) (fact : Fact) :
    Indexed (e.attach handle fact) := by
  intro kind x
  rw [attach_memory,indexed]
  change _ ↔ ∃ other, (e.facts.put handle fact).get? x = some other ∧ other.kind = kind
  rw [Map.get?_put]
  by_cases same : x = handle
  · subst same
    simp [out,eq_comm]
  · simp [same]

theorem enter_indexed (indexed : Indexed e) (out : e.facts.get? handle = none) (fact : Fact) :
    Indexed (e.enter handle fact) := by
  have same : SameFacts (e.enter handle fact) (e.attach handle fact) := propagate_facts _ _
  intro kind x
  rw [same.alpha,same.facts]
  exact attach_indexed indexed out fact kind x

theorem withdraw_indexed (indexed : Indexed e) (handle : Handle) : Indexed (e.withdraw handle) := by
  intro kind x
  rw [withdraw_facts,Map.get?_erase]
  have before := indexed kind x
  unfold withdraw detach
  change e.Indexed at indexed
  cases known : e.facts.get? handle with
  | none =>
    have same : (e.cancel handle).facts.get? handle = none := known
    simp only [same]
    change x ∈ memory e.network.alpha kind ↔ _
    rw [before]
    by_cases equal : x = handle <;> simp [equal,known]
  | some fact =>
    have same : (e.cancel handle).facts.get? handle = some fact := known
    simp only [same]
    change x ∈ memory (forget e.network.alpha fact.kind handle) kind ↔ _
    rw [mem_memory_forget,before]
    by_cases equal : x = handle
    · subst equal
      simp [known,eq_comm]
    · simp [equal]

theorem withdraw_inhabited (inhabited : Inhabited e.network.alpha) (handle : Handle) :
    Inhabited (e.withdraw handle).network.alpha := by
  unfold withdraw detach
  split
  · exact inhabited
  · exact inhabited_forget inhabited

theorem withdraw_orderly (orderly : Orderly e) (handle : Handle) : Orderly (e.withdraw handle) := by
  obtain ⟨_,_,_,agenda,sequence,queued⟩ := detach_other (e.cancel handle) handle
  refine ⟨fun a => ?_,?_,fun number a found => ?_⟩
  · rw [mem_withdraw_pending,withdraw,queued,Members.contains_iff_mem]
    change a ∈ Members.toList (Map.filter e.queued fun a _ => !a.involves handle) ↔ _
    rw [Members.mem_filter,← Members.contains_iff_mem,orderly.queued,Bool.not_eq_true']
  · rw [withdraw_pending]
    exact orderly.once.filter _
  · rw [withdraw,agenda] at found
    rw [withdraw,sequence]
    have kept : (e.network.agenda.filter fun _ a => !a.involves handle).get? number = some a := found
    rw [Map.get?_filter] at kept
    exact orderly.early number a (Option.filter_eq_some_iff.mp kept).1

section Roster
variable {roster : Roster}

-- The version of a fact that is out of the network may change.
theorem Aligned.reroster (aligned : Aligned e) (fired : roster.fired = e.roster.fired)
    (out : e.facts.get? handle = none)
    (versions : ∀ other, other ≠ handle → roster.versions.get? other = e.roster.versions.get? other) :
    Aligned { e with roster } := by
  refine ⟨aligned.indexed,aligned.inhabited,⟨aligned.orderly.queued,aligned.orderly.once,aligned.orderly.early⟩,?_⟩
  intro a present
  have genuine := aligned.genuine a present
  refine ⟨genuine.known,fun i member => ?_,genuine.facts,?_⟩
  · have apart : i.handle ≠ handle := by
      intro equal
      have held := genuine.facts i member
      rw [equal,out] at held
      cases held
    exact (versions i.handle apart).trans (genuine.current i member)
  · have unfired := genuine.unfired
    rwa [Roster.hasFired,← fired] at unfired

theorem Exact.reroster (exact : Exact e) (fired : roster.fired = e.roster.fired)
    (out : e.facts.get? handle = none)
    (versions : ∀ other, other ≠ handle → roster.versions.get? other = e.roster.versions.get? other) :
    Exact { e with roster } := by
  intro a
  have markers : roster.hasFired a = e.roster.hasFired a := by rw [Roster.hasFired,fired,Roster.hasFired]
  have apart (one : Engine) (facts : one.facts = e.facts) (satisfied : one.Satisfied a) (other : Handle)
      (present : a.involves other = true) : other ≠ handle := by
    intro same
    subst same
    obtain ⟨fact,held⟩ := satisfied.fact present
    rw [facts,out] at held
    cases held
  change a ∈ e.pending ↔ Satisfied { e with roster } a ∧ roster.hasFired a = false
  rw [exact,markers]
  refine and_congr_left' ⟨fun satisfied => ?_,fun satisfied => ?_⟩
  · exact satisfied.congr rfl (fun other present => (versions other (apart e rfl satisfied other present)).symm)
      (fun _ _ => rfl)
  · exact satisfied.congr rfl (fun other present => versions other (apart { e with roster } rfl satisfied other present))
      (fun _ _ => rfl)

end Roster

theorem Aligned.withdraw (aligned : Aligned e) (handle : Handle) : Aligned (e.withdraw handle) := by
  refine ⟨withdraw_indexed aligned.indexed handle,withdraw_inhabited aligned.inhabited handle,
    withdraw_orderly aligned.orderly handle,fun a present => ?_⟩
  obtain ⟨before,apart⟩ := mem_withdraw_pending.mp present
  have genuine := aligned.genuine a before
  refine ⟨?_,?_,fun i member => ?_,?_⟩
  · simpa using genuine.known
  · simpa using genuine.current
  · have other : i.handle ≠ handle := by
      intro equal
      rw [involves_iff.mpr (equal ▸ List.mem_map_of_mem member)] at apart
      cases apart
    simpa [other] using genuine.facts i member
  · simpa using genuine.unfired

theorem Exact.withdraw (exact : Exact e) (handle : Handle) : Exact (e.withdraw handle) := by
  intro a
  rw [mem_withdraw_pending,exact,withdraw_roster]
  have facts (other : Handle) (apart : other ≠ handle) :
      (e.withdraw handle).facts.get? other = e.facts.get? other := by
    simp [apart]
  have versions : (e.withdraw handle).roster = e.roster := withdraw_roster e handle
  constructor
  · intro both
    obtain ⟨⟨satisfied,unfired⟩,apart⟩ := both
    refine ⟨satisfied.congr (withdraw_program e handle).symm (fun _ _ => by rw [versions]) ?_,unfired⟩
    intro other present
    refine (facts other ?_).symm
    intro same
    subst same
    rw [present] at apart
    cases apart
  · intro both
    obtain ⟨satisfied,unfired⟩ := both
    have apart : a.involves handle = false := by
      rw [Bool.eq_false_iff]
      intro present
      obtain ⟨fact,held⟩ := satisfied.fact present
      simp at held
    refine ⟨⟨satisfied.congr (withdraw_program e handle) (fun _ _ => by rw [versions]) ?_,unfired⟩,apart⟩
    intro other present
    refine facts other ?_
    intro same
    subst same
    rw [present] at apart
    cases apart

theorem enter_spec (aligned : Aligned e) (out : e.facts.get? handle = none) (fact : Fact) :
    SameFacts (e.enter handle fact) (e.attach handle fact) ∧ Orderly (e.enter handle fact) ∧
      ∀ a, a ∈ (e.enter handle fact).pending ↔ a ∈ e.pending ∨
        (((e.attach handle fact).Satisfied a ∧ a.involves handle = true) ∧ e.roster.hasFired a = false) :=
  propagate_spec (attach_indexed aligned.indexed out fact) (attach_orderly aligned.orderly handle fact)
    (Map.get?_put_self _ _ _)

theorem Satisfied.same (satisfied : Satisfied one a) (same : SameFacts one two) : Satisfied two a :=
  satisfied.congr same.program (fun _ _ => by rw [same.roster]) (fun _ _ => by rw [same.facts])

theorem SameFacts.symm (same : SameFacts one two) : SameFacts two one :=
  ⟨same.program.symm,same.facts.symm,same.roster.symm,same.alpha.symm,same.globals.symm⟩

theorem Aligned.enter (aligned : Aligned e) (out : e.facts.get? handle = none) : Aligned (e.enter handle fact) := by
  obtain ⟨same,orderly,members⟩ := enter_spec aligned out fact
  have facts : (e.enter handle fact).facts = e.facts.put handle fact := same.facts
  refine ⟨enter_indexed aligned.indexed out fact,?_,orderly,fun a present => ?_⟩
  · rw [same.alpha]
    exact attach_inhabited aligned.inhabited handle fact
  · rcases (members a).mp present with old | ⟨⟨satisfied,_⟩,unfired⟩
    · have genuine := aligned.genuine a old
      refine ⟨?_,?_,fun i member => ?_,?_⟩
      · rw [same.program]; exact genuine.known
      · rw [same.roster]; exact genuine.current
      · rw [facts,Map.get?_put]
        split
        · rfl
        · exact genuine.facts i member
      · rw [same.roster]; exact genuine.unfired
    · exact (satisfied.same same.symm).genuine (by rw [same.roster]; exact unfired)

theorem Exact.enter (exact : Exact e) (aligned : Aligned e) (out : e.facts.get? handle = none) :
    Exact (e.enter handle fact) := by
  obtain ⟨same,_,members⟩ := enter_spec aligned out fact
  have others (a : Activation) (apart : a.involves handle = false) (other : Handle)
      (present : a.involves other = true) :
      e.facts.get? other = (e.attach handle fact).facts.get? other := by
    refine (Map.get?_put_other e.facts fact ?_).symm
    intro same
    subst same
    rw [present] at apart
    cases apart
  intro a
  have markers : (e.enter handle fact).roster = e.roster := same.roster
  rw [members,markers,exact]
  cases inside : a.involves handle with
  | true =>
    -- Nothing could be pending with a fact that was out.
    have absent : ¬ e.Satisfied a := by
      intro satisfied
      obtain ⟨held,known⟩ := satisfied.fact inside
      rw [out] at known
      cases known
    simp only [absent,false_and,false_or,and_true]
    exact and_congr_left' ⟨fun satisfied => satisfied.same same.symm,fun satisfied => satisfied.same same⟩
  | false =>
    simp only [Bool.false_eq_true,and_false,false_and,or_false]
    refine and_congr_left' ⟨fun satisfied => ?_,fun satisfied => ?_⟩
    · have attached : (e.attach handle fact).Satisfied a := satisfied.congr rfl (fun _ _ => rfl) (others a inside)
      exact attached.same same.symm
    · exact (satisfied.same same).congr rfl (fun _ _ => rfl) fun other present => (others a inside other present).symm

end DurableRules.Engine
