import DurableRules.Proofs.Engine.Change

namespace DurableRules

namespace Roster
variable {r : Roster} {handle : Handle}

theorem isLive_eq (r : Roster) (handle : Handle) : r.isLive handle = (r.versions.get? handle).isSome :=
  Map.contains_eq _ _

theorem bump_other (r : Roster) (handle : Handle) : (r.bump handle).2.fired = r.fired ∧
    (r.bump handle).2.nextHandle = r.nextHandle ∧
    ∀ other, other ≠ handle → (r.bump handle).2.versions.get? other = r.versions.get? other := by
  unfold bump
  split
  · exact ⟨rfl,rfl,fun _ _ => rfl⟩
  · exact ⟨rfl,rfl,fun _ apart => Map.get?_put_other _ _ apart⟩

@[simp] theorem isLive_bump (r : Roster) (handle other : Handle) : (r.bump handle).2.isLive other = r.isLive other := by
  unfold bump
  split
  · rfl
  · next version found =>
    rw [isLive_eq,isLive_eq,Map.get?_put]
    split
    · next same => rw [same,found]; rfl
    · rfl

@[simp] theorem isLive_allocate (r : Roster) (other : Handle) :
    r.allocate.2.isLive other = if other = r.nextHandle then true else r.isLive other := by
  rw [isLive_eq,isLive_eq]
  change ((r.versions.put r.nextHandle 0).get? other).isSome = _
  rw [Map.get?_put]
  split <;> rfl

@[simp] theorem isLive_retire (r : Roster) (handle other : Handle) :
    (r.retire handle).2.isLive other = if other = handle then false else r.isLive other := by
  rw [isLive_eq,isLive_eq]
  change ((r.versions.erase handle).get? other).isSome = _
  rw [Map.get?_erase]
  split <;> rfl

end Roster

namespace Engine
variable {e next : Engine} {handle : Handle} {fact : Fact}

-- The facts are the live handles, all of them lie below the next one, and every
-- memory lists those of its kind. Nothing is said about what is pending.
structure Founded (e : Engine) : Prop where
  indexed : e.Indexed
  handles : ∀ handle, (e.facts.get? handle).isSome = e.roster.isLive handle
  below : ∀ handle, e.roster.isLive handle = true → handle < e.roster.nextHandle

theorem Founded.out_of_dead (founded : Founded e) (dead : e.roster.isLive handle = false) :
    e.facts.get? handle = none := by
  have missing := founded.handles handle
  rw [dead] at missing
  exact Option.not_isSome_iff_eq_none.mp (by simp [missing])

theorem Founded.known (founded : Founded e) (live : e.roster.isLive handle = true) : e.facts.get? handle ≠ none := by
  intro out
  have same := founded.handles handle
  rw [out,live] at same
  cases same

-- The facts are those of the live handles, so a refused retraction has changed nothing.
theorem Founded.retract_eq (founded : Founded e) (handle : Handle) : e.retract handle =
    match e.delete handle with
    | .ok (fact,next) => (.ok fact,next)
    | .error cause => (.error cause,e) := by
  rcases retract_cases e handle with ⟨dead,went⟩ | ⟨live,out,_⟩ | ⟨fact,live,held,went⟩
  · rw [delete_dead dead,went]
  · exact absurd out (founded.known live)
  · rw [delete_known live held,went]

theorem Founded.next_dead (founded : Founded e) : e.roster.isLive e.roster.nextHandle = false :=
  Bool.eq_false_iff.mpr fun live => Nat.lt_irrefl _ (founded.below _ live)

theorem Founded.next_out (founded : Founded e) : e.facts.get? e.roster.nextHandle = none :=
  founded.out_of_dead founded.next_dead

theorem Founded.insert (founded : Founded e) (fact : Fact) : Founded (e.insert fact).2 := by
  rw [insert_eq]
  have same : SameFacts (enter { e with roster := e.roster.allocate.2 } e.roster.nextHandle fact)
    (attach { e with roster := e.roster.allocate.2 } e.roster.nextHandle fact) := propagate_facts _ _
  have indexed : Indexed { e with roster := e.roster.allocate.2 } := founded.indexed
  refine ⟨enter_indexed indexed founded.next_out fact,fun other => ?_,fun other live => ?_⟩
  · dsimp only
    rw [same.facts,same.roster]
    change ((e.facts.put e.roster.nextHandle fact).get? other).isSome = e.roster.allocate.2.isLive other
    rw [Map.get?_put,Roster.isLive_allocate]
    split
    · rfl
    · exact founded.handles other
  · dsimp only at live ⊢
    rw [same.roster] at live ⊢
    change e.roster.allocate.2.isLive other = true at live
    change other < e.roster.nextHandle + 1
    rw [Roster.isLive_allocate] at live
    split at live
    · next equal => exact equal ▸ Nat.lt_succ_self _
    · exact Nat.lt_succ_of_lt (founded.below other live)

theorem withdraw_out (e : Engine) (handle : Handle) : (e.withdraw handle).facts.get? handle = none := by simp

theorem Founded.update (founded : Founded e) (updated : e.update handle fact = .ok next) : Founded next := by
  obtain ⟨live,rfl⟩ := update_ok updated
  have same : SameFacts (enter { e.withdraw handle with roster := ((e.withdraw handle).roster.bump handle).2 } handle fact)
    (attach { e.withdraw handle with roster := ((e.withdraw handle).roster.bump handle).2 } handle fact) := propagate_facts _ _
  have indexed : Indexed { e.withdraw handle with roster := ((e.withdraw handle).roster.bump handle).2 } :=
    withdraw_indexed founded.indexed handle
  refine ⟨enter_indexed indexed (withdraw_out e handle) fact,fun other => ?_,fun other known => ?_⟩
  · rw [same.facts,same.roster]
    change (((e.withdraw handle).facts.put handle fact).get? other).isSome =
      ((e.withdraw handle).roster.bump handle).2.isLive other
    rw [Roster.isLive_bump,withdraw_roster,withdraw_facts,Map.get?_put,Map.get?_erase]
    split
    · next equal => exact equal ▸ live.symm
    · exact founded.handles other
  · rw [same.roster] at known ⊢
    change ((e.withdraw handle).roster.bump handle).2.isLive other = true at known
    change other < ((e.withdraw handle).roster.bump handle).2.nextHandle
    rw [Roster.isLive_bump,withdraw_roster] at known
    rw [(Roster.bump_other _ handle).2.1,withdraw_roster]
    exact founded.below other known

theorem Founded.delete (founded : Founded e) (deleted : e.delete handle = .ok (fact,next)) : Founded next := by
  obtain ⟨_,_,rfl⟩ := delete_ok deleted
  refine ⟨withdraw_indexed founded.indexed handle,fun other => ?_,fun other live => ?_⟩
  · dsimp only
    rw [Roster.isLive_retire,withdraw_facts,withdraw_roster,Map.get?_erase]
    split
    · rfl
    · exact founded.handles other
  · dsimp only at live
    rw [Roster.isLive_retire,withdraw_roster] at live
    change other < (e.withdraw handle).roster.nextHandle
    rw [withdraw_roster]
    split at live
    · cases live
    · exact founded.below other live

theorem Founded.globals (founded : Founded e) (globals : Globals) : Founded { e with globals } :=
  ⟨founded.indexed,founded.handles,founded.below⟩

-- The invariant between operations: the facts are the live handles, all of
-- them lie below the next one, and the network agrees with both.
structure Coherent (e : Engine) : Prop extends Aligned e where
  handles : ∀ handle, (e.facts.get? handle).isSome = e.roster.isLive handle
  below : ∀ handle, e.roster.isLive handle = true → handle < e.roster.nextHandle

theorem Coherent.founded (coherent : Coherent e) : Founded e := ⟨coherent.indexed,coherent.handles,coherent.below⟩

theorem Coherent.next_out (coherent : Coherent e) : e.facts.get? e.roster.nextHandle = none := coherent.founded.next_out

def bare (program : Program) (roster : Roster) (globals : Globals) : Engine :=
  ⟨program,Map.empty,roster,Network.empty,Map.empty,globals⟩

section Bare
variable {program : Program} {roster : Roster} {globals : Globals}

theorem bare_aligned : Aligned (bare program roster globals) := by
  refine ⟨?_,?_,⟨?_,List.nodup_nil,?_⟩,?_⟩
  · intro kind handle
    constructor
    · intro present
      cases present
    · intro listed
      obtain ⟨fact,known,_⟩ := listed
      cases known
  · intro kind handles found
    cases found
  · intro a
    constructor <;> (intro present; cases present)
  · intro sequence a found
    cases found
  · intro a present
    cases present

theorem bare_exact : Exact (bare program roster globals) := by
  intro a
  constructor
  · intro present
    cases present
  · intro both
    obtain ⟨⟨rule,_,_,found,fits⟩,_⟩ := both
    -- Every pattern takes a fact, so a rule with patterns matches nothing here.
    cases found with
    | nil => exact absurd fits.kinds.symm fits.patterned
    | cons row rest => cases fits.facts row List.mem_cons_self

end Bare

theorem new_coherent (program : Program) : Coherent (new program) :=
  ⟨bare_aligned,fun _ => rfl,fun _ live => by cases live⟩

theorem new_exact (program : Program) : Exact (new program) := bare_exact

theorem allocated_aligned (coherent : Coherent e) : Aligned { e with roster := e.roster.allocate.2 } :=
  coherent.toAligned.reroster rfl coherent.next_out fun _ apart => Map.get?_put_other _ _ apart

theorem Coherent.insert (coherent : Coherent e) (fact : Fact) : Coherent (e.insert fact).2 := by
  have founded := coherent.founded.insert fact
  exact ⟨(allocated_aligned coherent).enter coherent.next_out,founded.handles,founded.below⟩

theorem allocated_exact (exact : Exact e) (coherent : Coherent e) : Exact { e with roster := e.roster.allocate.2 } :=
  exact.reroster rfl coherent.next_out fun _ apart => Map.get?_put_other _ _ apart

theorem Exact.insert (exact : Exact e) (coherent : Coherent e) (fact : Fact) : Exact (e.insert fact).2 := by
  rw [insert_eq]
  exact (allocated_exact exact coherent).enter (allocated_aligned coherent) coherent.next_out

theorem bumped_aligned (aligned : Aligned e) (handle : Handle) :
    Aligned { e.withdraw handle with roster := ((e.withdraw handle).roster.bump handle).2 } :=
  (aligned.withdraw handle).reroster (Roster.bump_other _ handle).1 (withdraw_out e handle)
    (Roster.bump_other _ handle).2.2

theorem Coherent.update (coherent : Coherent e) (updated : e.update handle fact = .ok next) : Coherent next := by
  have founded := coherent.founded.update updated
  obtain ⟨_,rfl⟩ := update_ok updated
  exact ⟨(bumped_aligned coherent.toAligned handle).enter (withdraw_out e handle),founded.handles,founded.below⟩

theorem Exact.update (exact : Exact e) (coherent : Coherent e) (updated : e.update handle fact = .ok next) :
    Exact next := by
  obtain ⟨_,rfl⟩ := update_ok updated
  exact ((exact.withdraw handle).reroster (Roster.bump_other _ handle).1 (withdraw_out e handle)
    (Roster.bump_other _ handle).2.2).enter (bumped_aligned coherent.toAligned handle) (withdraw_out e handle)

theorem Coherent.delete (coherent : Coherent e) (deleted : e.delete handle = .ok (fact,next)) : Coherent next := by
  have founded := coherent.founded.delete deleted
  obtain ⟨_,_,rfl⟩ := delete_ok deleted
  exact ⟨(coherent.toAligned.withdraw handle).reroster rfl (withdraw_out e handle) fun _ apart =>
    Map.get?_erase_other _ apart,founded.handles,founded.below⟩

theorem Exact.delete (exact : Exact e) (deleted : e.delete handle = .ok (fact,next)) : Exact next := by
  obtain ⟨_,_,rfl⟩ := delete_ok deleted
  exact (exact.withdraw handle).reroster rfl (withdraw_out e handle) fun _ apart => Map.get?_erase_other _ apart

end Engine
end DurableRules
