import DurableRules.Proofs.Engine.Firing
import DurableRules.Proofs.Engine.Restoring

namespace DurableRules.Engine
variable {e next : Engine} {handle : Handle} {fact : Fact} {a : Activation}

structure SameMarkers (one two : Engine) : Prop where
  program : one.program = two.program
  fired : one.roster.fired = two.roster.fired

theorem SameMarkers.refl (e : Engine) : SameMarkers e e := ⟨rfl,rfl⟩
theorem SameMarkers.trans (left : SameMarkers one two) (right : SameMarkers two three) : SameMarkers one three :=
  ⟨left.program.trans right.program,left.fired.trans right.fired⟩

theorem enter_same (e : Engine) (handle : Handle) (fact : Fact) :
    SameFacts (e.enter handle fact) (e.attach handle fact) := propagate_facts _ _

theorem insert_rest (e : Engine) (fact : Fact) : (e.insert fact).2.program = e.program ∧
    (e.insert fact).2.roster = e.roster.allocate.2 ∧ (e.insert fact).2.globals = e.globals := by
  rw [insert_eq]
  have same := enter_same { e with roster := e.roster.allocate.2 } e.roster.nextHandle fact
  exact ⟨same.program,same.roster,same.globals⟩

theorem update_rest (updated : e.update handle fact = .ok next) : next.program = e.program ∧
    next.roster = (e.roster.bump handle).2 ∧ next.globals = e.globals := by
  obtain ⟨_,rfl⟩ := update_ok updated
  have same := enter_same { e.withdraw handle with roster := ((e.withdraw handle).roster.bump handle).2 } handle fact
  refine ⟨same.program.trans (withdraw_program e handle),same.roster.trans ?_,same.globals.trans (withdraw_globals e handle)⟩
  change ((e.withdraw handle).roster.bump handle).2 = _
  rw [withdraw_roster]

theorem delete_rest (deleted : e.delete handle = .ok (fact,next)) : next.program = e.program ∧
    next.roster = (e.roster.retire handle).2 ∧ next.globals = e.globals := by
  obtain ⟨_,_,rfl⟩ := delete_ok deleted
  refine ⟨withdraw_program e handle,?_,withdraw_globals e handle⟩
  change ((e.withdraw handle).roster.retire handle).2 = _
  rw [withdraw_roster]

theorem insert_markers (e : Engine) (fact : Fact) : SameMarkers (e.insert fact).2 e := by
  obtain ⟨program,roster,_⟩ := insert_rest e fact
  exact ⟨program,roster ▸ rfl⟩

theorem update_markers (updated : e.update handle fact = .ok next) : SameMarkers next e := by
  obtain ⟨program,roster,_⟩ := update_rest updated
  exact ⟨program,roster ▸ (Roster.bump_other _ handle).1⟩

theorem delete_markers (deleted : e.delete handle = .ok (fact,next)) : SameMarkers next e := by
  obtain ⟨program,roster,_⟩ := delete_rest deleted
  exact ⟨program,roster ▸ rfl⟩

theorem withdraw_markers (e : Engine) (handle : Handle) : SameMarkers (e.withdraw handle) e :=
  ⟨withdraw_program e handle,congrArg Roster.fired (withdraw_roster e handle)⟩

theorem apply_markers (e : Engine) (effects : Effects) : SameMarkers (e.apply effects) e :=
  apply_induct (motive := fun next => SameMarkers next e) effects (.refl e)
    (fun _ _ _ held => ⟨held.program,held.fired⟩) (fun _ fact _ held => (insert_markers _ fact).trans held)
    (fun _ _ _ _ held deleted => (delete_markers deleted).trans held)
    fun _ handle held _ _ => (withdraw_markers _ handle).trans held

theorem step_markers (coherent : Coherent e) {fired : Option Activation} (stepped : e.step = some (fired,next)) :
    ∃ a, fired = some a ∧ e.roster.hasFired a = false ∧ next.program = e.program ∧
      ∀ b, next.roster.hasFired b = true ↔ b = a ∨ e.roster.hasFired b = true := by
  obtain ⟨sequence,a,agenda,effects,popped,rfl,rfl⟩ := step_applies coherent stepped
  have genuine := coherent.genuine a (pending_pop popped ▸ List.mem_cons_self)
  have same := apply_markers ((e.taken a agenda).recorded a) effects
  refine ⟨a,rfl,genuine.unfired,same.program,fun b => ?_⟩
  rw [Roster.hasFired,same.fired]
  exact hasFired_record

theorem fire_program (coherent : Coherent e) (limit : Nat) : (e.fire limit).2.program = e.program :=
  (fire_induct (motive := fun next => Coherent next ∧ next.program = e.program)
    (fun _ _ _ held stepped => by
      obtain ⟨_,_,_,program,_⟩ := step_markers held.1 stepped
      exact ⟨held.1.step stepped,program.trans held.2⟩) limit e ⟨coherent,rfl⟩).2

theorem fire_markers (coherent : Coherent e) (limit : Nat) : (e.fire limit).1.Nodup ∧
    (∀ a ∈ (e.fire limit).1, e.roster.hasFired a = false) ∧
    ∀ b, (e.fire limit).2.roster.hasFired b = true ↔ b ∈ (e.fire limit).1 ∨ e.roster.hasFired b = true := by
  induction limit generalizing e with
  | zero => exact ⟨List.nodup_nil,by simp [fire],by simp [fire]⟩
  | succ limit ih =>
    unfold fire
    split
    · exact ⟨List.nodup_nil,by simp,by simp⟩
    · next fired next stepped =>
      obtain ⟨a,rfl,unfired,_,marked⟩ := step_markers coherent stepped
      obtain ⟨once,fresh,later⟩ := ih (coherent.step stepped)
      have apart : a ∉ (next.fire limit).1 := by
        intro again
        have unmarked := fresh a again
        rw [(marked a).mpr (.inl rfl)] at unmarked
        cases unmarked
      refine ⟨List.nodup_cons.mpr ⟨apart,once⟩,fun b present => ?_,fun b => ?_⟩
      · rcases List.mem_cons.mp present with rfl | inRest
        · exact unfired
        · rw [Bool.eq_false_iff]
          intro before
          have unmarked := fresh b inRest
          rw [(marked b).mpr (.inr before)] at unmarked
          cases unmarked
      · dsimp only [Option.toList]
        rw [List.singleton_append,List.mem_cons,later,marked]
        tauto

-- Handles are numbered from one on and no list of results is empty.
structure Tidy (e : Engine) : Prop where
  numbered : e.roster.Numbered
  filled : ∀ name values, e.globals.get? name = some values → values ≠ []

theorem new_tidy (program : Program) : Tidy (new program) :=
  ⟨⟨Nat.one_pos,fun _ live => by cases live⟩,fun _ _ found => by cases found⟩

theorem Tidy.insert (tidy : Tidy e) (fact : Fact) : Tidy (e.insert fact).2 := by
  obtain ⟨_,roster,globals⟩ := insert_rest e fact
  exact ⟨roster ▸ tidy.numbered.allocate,globals ▸ tidy.filled⟩

theorem Tidy.update (tidy : Tidy e) (updated : e.update handle fact = .ok next) : Tidy next := by
  obtain ⟨_,roster,globals⟩ := update_rest updated
  exact ⟨roster ▸ tidy.numbered.bump handle,globals ▸ tidy.filled⟩

theorem Tidy.delete (tidy : Tidy e) (deleted : e.delete handle = .ok (fact,next)) : Tidy next := by
  obtain ⟨_,roster,globals⟩ := delete_rest deleted
  exact ⟨roster ▸ tidy.numbered.retire handle,globals ▸ tidy.filled⟩

theorem Tidy.withdraw (tidy : Tidy e) (handle : Handle) : Tidy (e.withdraw handle) :=
  ⟨(withdraw_roster e handle).symm ▸ tidy.numbered,(withdraw_globals e handle).symm ▸ tidy.filled⟩

theorem Tidy.push (tidy : Tidy e) (entry : String × Value) : Tidy (e.pushGlobal entry) := by
  refine ⟨tidy.numbered,fun name values found => ?_⟩
  change (e.globals.put entry.1 (e.global entry.1 ++ [entry.2])).get? name = some values at found
  rw [Map.get?_put] at found
  split at found
  · cases found
    exact List.append_ne_nil_of_right_ne_nil _ (List.cons_ne_nil _ _)
  · exact tidy.filled name values found

theorem Tidy.clear (tidy : Tidy e) (name : String) : Tidy (e.clear name).2 :=
  ⟨tidy.numbered,fun other values found => tidy.filled other values (Map.get?_of_erase found)⟩

theorem Tidy.recorded (tidy : Tidy e) (a : Activation) (agenda : Map Sequence Activation) :
    Tidy ((e.taken a agenda).recorded a) :=
  ⟨⟨tidy.numbered.next,tidy.numbered.positive⟩,tidy.filled⟩

theorem Tidy.step (tidy : Tidy e) (coherent : Coherent e) {fired : Option Activation}
    (stepped : e.step = some (fired,next)) : Tidy next := by
  obtain ⟨_,a,agenda,effects,_,_,rfl⟩ := step_applies coherent stepped
  exact apply_induct effects (tidy.recorded a agenda) (fun _ entry _ kept => kept.push entry)
    (fun _ fact _ kept => kept.insert fact) (fun _ _ _ _ kept deleted => kept.delete deleted)
    fun _ handle kept _ _ => kept.withdraw handle

theorem Tidy.fire (tidy : Tidy e) (coherent : Coherent e) (limit : Nat) : Tidy (e.fire limit).2 :=
  (fire_induct (motive := fun e => Coherent e ∧ Tidy e)
    (fun _ _ _ held stepped => ⟨held.1.step stepped,held.2.step held.1 stepped⟩) limit e ⟨coherent,tidy⟩).2

section Restored
variable {stores : Stores} {program : Program} {network : Network}

theorem rebuild_roster (rebuilt : rebuild program stores = .ok e) : ∃ roster, stores.roster = .ok roster := by
  unfold rebuild at rebuilt
  split at rebuilt
  · cases rebuilt
  · next roster restored => exact ⟨roster,restored⟩

theorem adopt_roster (adopted : adopt program stores network = .ok e) : ∃ roster, stores.roster = .ok roster := by
  unfold adopt at adopted
  split at adopted
  · cases adopted
  · next roster restored => exact ⟨roster,restored⟩

theorem Holds.positive (holds : Holds e stores) {roster : Roster} (restored : stores.roster = .ok roster)
    {handle : Handle} (live : e.roster.isLive handle = true) : 0 < handle := by
  obtain ⟨same,range⟩ := roster_ok restored
  rw [holds.roster,← same] at live
  exact (range handle live).1

theorem Holds.tidy (holds : Holds e stores) {roster : Roster} (restored : stores.roster = .ok roster)
    (next : 0 < stores.nextHandle) (filled : ∀ name values, stores.globals.get? name = some values → values ≠ []) :
    Tidy e := by
  refine ⟨⟨?_,fun _ live => holds.positive restored live⟩,holds.globals ▸ filled⟩
  rw [holds.roster]
  exact next

end Restored

theorem clear_nothing (tidy : Tidy e) {name : String} (none : (e.clear name).1 = false) : (e.clear name).2 = e := by
  have absent : e.globals.get? name = .none := by
    refine Option.eq_none_iff_forall_ne_some.mpr fun values found => tidy.filled name values found ?_
    have nothing : (e.global name).isEmpty = true := by simpa [Engine.clear] using none
    rw [Engine.global,found,Option.getD_some,List.isEmpty_iff] at nothing
    exact nothing
  unfold Engine.clear
  rw [Map.erase_absent absent]

end DurableRules.Engine
