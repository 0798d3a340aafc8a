import DurableRules.Proofs.Engine.Execution
import DurableRules.Proofs.Engine.Order

namespace DurableRules.Engine
variable {e : Engine} {handle : Handle} {fact : Fact} {a : Activation} {program : Program}

-- A memory that gains a handle it did not hold is as before once the handle
-- has left again, also when it came about for that handle alone.
theorem forget_put {alpha : Map String (Members Handle)} {kind : String} {handle : Handle}
    (inhabited : Inhabited alpha) (absent : handle ∉ memory alpha kind) :
    forget (alpha.put kind (((alpha.get? kind).getD Map.empty).insert handle)) kind handle = alpha := by
  have out : ((alpha.get? kind).getD Map.empty).get? handle = none := by
    rw [← Option.not_isSome_iff_eq_none,← Map.contains_eq,Members.contains_iff_mem]
    cases held : alpha.get? kind with
    | none => intro present; cases present
    | some handles => exact fun present => absent (mem_memory.mpr ⟨handles,held,present⟩)
  have back : Map.erase (((alpha.get? kind).getD Map.empty).insert handle) handle = (alpha.get? kind).getD Map.empty :=
    Map.erase_put out ()
  refine Map.ext_get? fun other => ?_
  rw [forget_get?,Map.get?_put_self,Option.bind_some,back]
  by_cases same : other = kind
  · subst same
    rw [if_pos rfl]
    cases held : alpha.get? other with
    | none => rfl
    | some handles =>
      have some : handles.rows ≠ [] := fun nothing => inhabited other handles held (List.map_eq_nil_iff.mpr nothing)
      rw [Option.getD_some,if_neg (by rwa [Map.isEmpty,List.isEmpty_iff])]
  · rw [if_neg same,Map.get?_put_other _ _ same]

theorem schedule_sequence (orderly : Orderly e) (a : Activation) :
    (e.schedule a).network.nextSequence + e.pending.length = e.network.nextSequence + (e.schedule a).pending.length := by
  rcases schedule_cases orderly a with ⟨same,_⟩ | ⟨next,_,_⟩
  · rw [same]
  · rw [next,pending_enqueue orderly,List.length_append]
    exact Nat.add_right_comm _ _ _

theorem foldl_schedule_sequence (orderly : Orderly e) (list : List Activation) :
    (list.foldl schedule e).network.nextSequence + e.pending.length =
      e.network.nextSequence + (list.foldl schedule e).pending.length := by
  induction list generalizing e with
  | nil => rfl
  | cons a rest ih =>
    have first := schedule_sequence orderly a
    have later := ih (orderly.schedule a)
    refine Nat.add_right_cancel (m := (e.schedule a).pending.length) ?_
    rw [List.foldl_cons,Nat.add_right_comm,later,Nat.add_right_comm,first,Nat.add_right_comm]

theorem enter_scheduled (aligned : Aligned e) (out : e.facts.get? handle = none) (fact : Fact) :
    ∃ scheduled, (e.enter handle fact).pending = e.pending ++ scheduled ∧
      (e.enter handle fact).network.nextSequence = e.network.nextSequence + scheduled.length := by
  have pending := enter_pending aligned out fact
  refine ⟨_,pending,?_⟩
  have sequence := foldl_schedule_sequence (attach_orderly aligned.orderly handle fact)
    ((e.attach handle fact).offers handle fact)
  rw [← enter_folds,pending,List.length_append,← Nat.add_assoc,Nat.add_right_comm] at sequence
  exact Nat.add_right_cancel sequence

theorem schedule_cancelled (orderly : Orderly e) (inside : a.involves handle = true) :
    ((e.schedule a).cancel handle).network.agenda = (e.cancel handle).network.agenda ∧
      ((e.schedule a).cancel handle).queued = (e.cancel handle).queued := by
  rcases schedule_cases orderly a with ⟨same,_⟩ | ⟨next,new,_⟩
  · rw [same]
    exact ⟨rfl,rfl⟩
  · have free : e.network.agenda.get? e.network.nextSequence = none :=
      Option.eq_none_iff_forall_ne_some.mpr fun b found => Nat.lt_irrefl _ (orderly.early _ b found)
    have unqueued : e.queued.get? a = none := by
      rwa [← Option.not_isSome_iff_eq_none,← Map.contains_eq,orderly.queued]
    have dropped : (!a.involves handle) = false := by rw [inside]; rfl
    have agenda : (e.network.agenda.put e.network.nextSequence a).filter (fun _ b => !b.involves handle) =
        e.network.agenda.filter fun _ b => !b.involves handle := Map.filter_put free dropped
    have queued : Map.filter (e.queued.insert a) (fun b _ => !b.involves handle) =
        Map.filter e.queued fun b _ => !b.involves handle := Map.filter_put unqueued dropped
    rw [next]
    exact ⟨agenda,queued⟩

theorem foldl_schedule_cancelled (orderly : Orderly e) {list : List Activation}
    (inside : ∀ a ∈ list, a.involves handle = true) :
    ((list.foldl schedule e).cancel handle).network.agenda = (e.cancel handle).network.agenda ∧
      ((list.foldl schedule e).cancel handle).queued = (e.cancel handle).queued := by
  induction list generalizing e with
  | nil => exact ⟨rfl,rfl⟩
  | cons a rest ih =>
    obtain ⟨agenda,queued⟩ := schedule_cancelled orderly (inside a List.mem_cons_self)
    obtain ⟨later,also⟩ := ih (orderly.schedule a) fun b present => inside b (List.mem_cons_of_mem _ present)
    exact ⟨later.trans agenda,also.trans queued⟩

theorem cancel_out (aligned : Aligned e) (out : e.facts.get? handle = none) : e.cancel handle = e := by
  have apart {b : Activation} (present : b ∈ e.pending) : (!b.involves handle) = true := by
    rw [aligned.uninvolved out present]
    rfl
  have agenda : e.network.agenda.filter (fun _ b => !b.involves handle) = e.network.agenda :=
    Map.filter_whole fun sequence b found => apart (Map.mem_values.mpr ⟨sequence,found⟩)
  have queued : e.queued.filter (fun b _ => !b.involves handle) = e.queued := by
    refine Map.filter_whole fun b _ found => apart ((aligned.orderly.queued b).mp ?_)
    rw [Map.contains_eq,found]
    rfl
  unfold cancel
  rw [agenda,queued]

theorem withdraw_alpha (known : e.facts.get? handle = some fact) :
    (e.withdraw handle).network.alpha = forget e.network.alpha fact.kind handle := by
  have same : (e.cancel handle).facts.get? handle = some fact := known
  simp only [withdraw,detach,same]
  rfl

theorem SameFacts.equal {one two : Engine} (same : SameFacts one two) (agenda : one.network.agenda = two.network.agenda)
    (sequence : one.network.nextSequence = two.network.nextSequence) (queued : one.queued = two.queued) : one = two := by
  obtain ⟨_,_,_,⟨_,_,_⟩,_,_⟩ := one
  obtain ⟨_,_,_,⟨_,_,_⟩,_,_⟩ := two
  obtain ⟨rfl,rfl,rfl,rfl,rfl⟩ := same
  cases agenda; cases sequence; cases queued; rfl

-- A fact that enters and is withdrawn again leaves nothing behind but the
-- sequence.
theorem enter_withdrawn (aligned : Aligned e) (out : e.facts.get? handle = none) (fact : Fact) :
    (e.enter handle fact).withdraw handle =
      { e with network := { e.network with nextSequence := (e.enter handle fact).network.nextSequence } } := by
  have same := enter_same e handle fact
  have known : (e.attach handle fact).facts.get? handle = some fact := Map.get?_put_self _ _ _
  have unlisted : handle ∉ memory e.network.alpha fact.kind := by
    rw [aligned.indexed,out]
    simp
  have facts : ((e.enter handle fact).withdraw handle).facts = e.facts := by
    rw [withdraw_facts,same.facts]
    exact Map.erase_put out fact
  have alpha : ((e.enter handle fact).withdraw handle).network.alpha = e.network.alpha := by
    rw [withdraw_alpha (same.facts ▸ known),same.alpha]
    exact forget_put aligned.inhabited unlisted
  -- All that is offered for the fact involves it, and it is all that is withdrawn.
  have inside : ∀ a ∈ (e.attach handle fact).offers handle fact, a.involves handle = true :=
    fun a offered => ((mem_offers (attach_indexed aligned.indexed out fact) known).mp offered).2
  obtain ⟨agenda,queued⟩ := foldl_schedule_cancelled (attach_orderly aligned.orderly handle fact) inside
  rw [← enter_folds] at agenda queued
  have idle : (e.cancel handle).network.agenda = e.network.agenda ∧ (e.cancel handle).queued = e.queued := by
    rw [cancel_out aligned out]
    exact ⟨rfl,rfl⟩
  obtain ⟨_,_,_,withdrawn,sequence,rest⟩ := detach_other ((e.enter handle fact).cancel handle) handle
  refine SameFacts.equal ⟨?_,facts,?_,alpha,?_⟩ ?_ sequence ?_
  · exact (withdraw_program _ handle).trans same.program
  · exact (withdraw_roster _ handle).trans same.roster
  · exact (withdraw_globals _ handle).trans same.globals
  · exact withdrawn.trans (agenda.trans idle.1)
  · exact rest.trans (queued.trans idle.2)

theorem retire_allocated {r : Roster} (dead : r.isLive r.nextHandle = false) :
    (r.allocate.2.retire r.nextHandle).2 = { r with nextHandle := r.nextHandle + 1 } := by
  have absent : r.versions.get? r.nextHandle = none := by
    rwa [← Option.not_isSome_iff_eq_none,← Roster.isLive_eq,Bool.not_eq_true]
  have versions : (r.versions.put r.nextHandle 0).erase r.nextHandle = r.versions := Map.erase_put absent 0
  simp only [Roster.retire,Roster.allocate,versions]

def advanced (e : Engine) (more : Nat) : Engine := { e with
  roster := { e.roster with nextHandle := e.roster.nextHandle + 1 }
  network := { e.network with nextSequence := e.network.nextSequence + more } }

theorem delete_insert (coherent : Coherent e) (fact : Fact) : ∃ scheduled : List Activation,
    (e.insert fact).2.pending = e.pending ++ scheduled ∧
    (e.insert fact).2.network.nextSequence = e.network.nextSequence + scheduled.length ∧
    (e.insert fact).2.delete (e.insert fact).1 = .ok (fact,e.advanced scheduled.length) := by
  have aligned := allocated_aligned coherent
  have same := enter_same { e with roster := e.roster.allocate.2 } e.roster.nextHandle fact
  obtain ⟨scheduled,pending,sequence⟩ := enter_scheduled aligned coherent.next_out fact
  refine ⟨scheduled,pending,sequence,?_⟩
  have live : (e.insert fact).2.roster.isLive e.roster.nextHandle = true := by
    simp [(insert_rest e fact).2.1]
  have known : (e.insert fact).2.facts.get? e.roster.nextHandle = some fact := by
    rw [insert_eq,same.facts]
    exact Map.get?_put_self _ _ _
  have back := enter_withdrawn aligned coherent.next_out fact
  rw [sequence] at back
  rw [insert_eq] at live known ⊢
  rw [delete_known live known,back]
  dsimp only
  rw [retire_allocated coherent.founded.next_dead]
  rfl

-- An insertion is undone by the deletion of the handle it returned: the fact
-- comes back, and of all the engine held only the next handle and the next
-- sequence have moved, by one and by what the insertion had scheduled. It takes
-- numbers that are still words, and without them a program with checks stops.
theorem insert_undone (reached : Reached program e) (fact : Fact) : ∃ scheduled : List Activation,
    (e.insert fact).2.pending = e.pending ++ scheduled ∧
    (e.insertIn .checked fact = none ↔ ¬ (e.advanced scheduled.length).Within) ∧
    ((e.advanced scheduled.length).Within → ∀ b, ∃ inserted, e.insertIn b fact = some (e.roster.nextHandle,inserted) ∧
      inserted.pending = e.pending ++ scheduled ∧
      inserted.delete e.roster.nextHandle = .ok (fact,e.advanced scheduled.length)) := by
  obtain ⟨before,within⟩ := reached.plain
  obtain ⟨_,coherent,_⟩ := before.kept
  obtain ⟨scheduled,pending,sequence,undone⟩ := delete_insert coherent fact
  have ends : Unmoved (e.insert fact).2 (e.advanced scheduled.length) :=
    ⟨by rw [(insert_rest e fact).2.1]; rfl,sequence.symm⟩
  have tracks (b : Build) := (insertIn_tracks b fact within).iff ⟨ends.within,ends.onwards.back⟩
  refine ⟨scheduled,pending,⟨fun stopped room => ?_,(tracks .checked).stops rfl⟩,fun room b => ?_⟩
  · cases stopped.symm.trans ((tracks .checked).agrees room)
  · exact ⟨_,(tracks b).agrees room,pending,undone⟩

-- The pairs that a fourth item makes with three others are six, and they all
-- go with it.
theorem paired_undone : Reached pairing paired ∧ ∃ scheduled : List Activation,
    (paired.insert item).2.pending = paired.pending ++ scheduled ∧
    (paired.insertIn .checked item = none ↔ ¬ (paired.advanced scheduled.length).Within) ∧
    ((paired.advanced scheduled.length).Within → ∀ b, ∃ inserted,
      paired.insertIn b item = some (paired.roster.nextHandle,inserted) ∧
      inserted.pending = paired.pending ++ scheduled ∧
      inserted.delete paired.roster.nextHandle = .ok (item,paired.advanced scheduled.length)) :=
  ⟨paired_reached,insert_undone paired_reached item⟩

example : (paired.insert item).2.network.nextSequence = paired.network.nextSequence + 6 := by decide

-- Once the handles have run over, what is undone is another fact that was live
-- before.
example : ((overrun .wrapping).bind fun e => (e.delete 1).toOption).map (fun undone => undone.2.facts.keys) =
    some [0,wordLimit - 1] := by
  decide

end DurableRules.Engine
