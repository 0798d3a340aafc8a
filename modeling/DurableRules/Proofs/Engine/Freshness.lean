import DurableRules.Proofs.Engine.Chronicle

namespace DurableRules

-- The handle was handed out, and a fact that is live under it has come as far
-- as the version or further.
structure Roster.Knows (r : Roster) (i : Identity) : Prop where
  given : i.handle < r.nextHandle
  reached : ∀ version, r.versions.get? i.handle = some version → i.version ≤ version

namespace Roster
variable {r : Roster} {i : Identity}

theorem bump_versions (r : Roster) (handle : Handle) :
    (r.bump handle).2.versions.get? handle = (r.versions.get? handle).map (· + 1) := by
  unfold bump
  cases found : r.versions.get? handle with
  | none => simp [found]
  | some version => simp

theorem Knows.allocate (known : r.Knows i) : r.allocate.2.Knows i := by
  refine ⟨Nat.lt_succ_of_lt known.given,fun version held => known.reached version ?_⟩
  have apart : i.handle ≠ r.nextHandle := Nat.ne_of_lt known.given
  exact (Map.get?_put_other r.versions 0 apart).symm.trans held

theorem Knows.bump (known : r.Knows i) (handle : Handle) : (r.bump handle).2.Knows i := by
  obtain ⟨_,next,others⟩ := bump_other r handle
  refine ⟨next.symm ▸ known.given,fun version held => ?_⟩
  by_cases same : i.handle = handle
  · subst same
    rw [bump_versions,Option.map_eq_some_iff] at held
    obtain ⟨before,found,rfl⟩ := held
    exact Nat.le_succ_of_le (known.reached before found)
  · exact known.reached version ((others i.handle same).symm.trans held)

theorem Knows.retire (known : r.Knows i) (handle : Handle) : (r.retire handle).2.Knows i :=
  ⟨known.given,fun version held => known.reached version (Map.get?_of_erase held)⟩

end Roster

namespace Engine
variable {e next : Engine} {handle : Handle} {fact : Fact} {m : Moment}

-- A marker speaks of the past only: of handles that were handed out, and of
-- live ones at a version they have reached.
structure Dated (e : Engine) : Prop extends Coherent e where
  markers : ∀ a, e.roster.hasFired a = true → ∀ i ∈ a.tuple, e.roster.Knows i

def Awaited (e : Engine) (handle : Handle) : Prop := ∀ a, e.Satisfied a → a.involves handle = true → a ∈ e.pending

theorem Dated.of_coherent (dated : Dated e) (coherent : Coherent next) (fired : next.roster.fired = e.roster.fired)
    (knows : ∀ i, e.roster.Knows i → next.roster.Knows i) : Dated next := by
  refine ⟨coherent,fun a marked i member => knows i (dated.markers a ?_ i member)⟩
  rwa [Roster.hasFired,fired] at marked

theorem new_dated (program : Program) : Dated (new program) := ⟨new_coherent program,fun _ marked => by cases marked⟩

theorem Dated.insert (dated : Dated e) (fact : Fact) : Dated (e.insert fact).2 := by
  obtain ⟨_,roster,_⟩ := insert_rest e fact
  refine dated.of_coherent (dated.toCoherent.insert fact) (insert_markers e fact).fired fun i known => ?_
  rw [roster]
  exact known.allocate

theorem Dated.update (dated : Dated e) (updated : e.update handle fact = .ok next) : Dated next := by
  obtain ⟨_,roster,_⟩ := update_rest updated
  refine dated.of_coherent (dated.toCoherent.update updated) (update_markers updated).fired fun i known => ?_
  rw [roster]
  exact known.bump handle

theorem Dated.delete (dated : Dated e) (deleted : e.delete handle = .ok (fact,next)) : Dated next := by
  obtain ⟨_,roster,_⟩ := delete_rest deleted
  refine dated.of_coherent (dated.toCoherent.delete deleted) (delete_markers deleted).fired fun i known => ?_
  rw [roster]
  exact known.retire handle

theorem Dated.globals (dated : Dated e) (globals : Globals) : Dated { e with globals } :=
  dated.of_coherent (dated.toCoherent.globals globals) rfl fun _ known => known

-- A marker is made while its facts are live at its versions.
theorem Dated.recorded (dated : Dated e) {sequence : Sequence} {a : Activation} {agenda : Map Sequence Activation}
    (popped : e.network.agenda.pop? = some ((sequence,a),agenda)) : Dated ((e.taken a agenda).recorded a) := by
  refine ⟨recorded_coherent dated.toCoherent popped,fun b marked i member => ?_⟩
  rcases hasFired_record.mp marked with rfl | before
  · have genuine := dated.genuine b (pending_pop popped ▸ List.mem_cons_self)
    have current := genuine.current i member
    refine ⟨dated.below i.handle ?_,fun version held => ?_⟩
    · rw [Roster.isLive_eq,current]
      rfl
    · cases current.symm.trans held
      exact Nat.le_refl _
  · obtain ⟨given,reached⟩ := dated.markers b before i member
    exact ⟨given,reached⟩

theorem Dated.of_holds (dated : Dated e) (coherent : Coherent next) (holds : Holds next e.stores) : Dated next := by
  have same : next.roster = e.roster := holds.roster.trans dated.toCoherent.holds.roster.symm
  exact dated.of_coherent coherent (congrArg Roster.fired same) fun i known => same ▸ known

-- Nothing of a fact that was out of the network is pending yet, so what has not
-- fired is scheduled when the fact comes in.
theorem enter_awaited (aligned : Aligned e) (out : e.facts.get? handle = none)
    (unfired : ∀ a, (e.enter handle fact).Satisfied a → a.involves handle = true → e.roster.hasFired a = false) :
    Awaited (e.enter handle fact) handle := by
  obtain ⟨same,_,members⟩ := enter_spec aligned out fact
  intro a satisfied involved
  exact (members a).mpr (.inr ⟨⟨satisfied.same same,involved⟩,unfired a satisfied involved⟩)

theorem Satisfied.identity {a : Activation} (satisfied : e.Satisfied a) (involved : a.involves handle = true) :
    ∃ i ∈ a.tuple, i.handle = handle ∧ e.roster.versions.get? handle = some i.version := by
  obtain ⟨i,member,rfl⟩ := List.mem_map.mp (involves_iff.mp involved)
  obtain ⟨_,_,_,_,fits⟩ := satisfied
  exact ⟨i,member,rfl,fits.current i member⟩

-- No marker names a handle that is still to be handed out.
theorem Dated.inserted_awaited (dated : Dated e) (fact : Fact) : Awaited (e.insert fact).2 (e.insert fact).1 := by
  rw [insert_eq]
  refine enter_awaited (allocated_aligned dated.toCoherent) dated.next_out fun a satisfied involved => ?_
  refine Bool.eq_false_iff.mpr fun marked => ?_
  obtain ⟨i,member,same,_⟩ := satisfied.identity involved
  have given := (dated.markers a marked i member).given
  rw [same] at given
  exact Nat.lt_irrefl _ given

-- Nor one of the version that an update comes to.
theorem Dated.updated_awaited (dated : Dated e) (updated : e.update handle fact = .ok next) : Awaited next handle := by
  obtain ⟨_,roster,_⟩ := update_rest updated
  have versions := Roster.bump_versions e.roster handle
  rw [← roster] at versions
  obtain ⟨_,rfl⟩ := update_ok updated
  refine enter_awaited (bumped_aligned dated.toAligned handle) (withdraw_out e handle) fun a satisfied involved => ?_
  refine Bool.eq_false_iff.mpr fun marked => ?_
  obtain ⟨i,member,same,current⟩ := satisfied.identity involved
  obtain ⟨before,held,moved⟩ := Option.map_eq_some_iff.mp (versions.symm.trans current)
  have earlier : e.roster.hasFired a = true := by
    rw [Roster.hasFired,(Roster.bump_other _ handle).1,withdraw_roster] at marked
    exact marked
  have reached := (dated.markers a earlier i member).reached before (same ▸ held)
  exact absurd reached (Nat.not_le_of_lt (moved ▸ Nat.lt_succ_self before))

structure Fresh (m : Moment) : Prop where
  dated : Dated m.engine
  issued : ∀ handle, m.deed = .issued handle → Awaited m.engine handle

theorem fresh_neither (dated : Dated e) : Fresh ⟨.neither,e⟩ := ⟨dated,nofun⟩

theorem inserting_fresh (dated : Dated e) (fact : Fact) : Fresh (e.inserting fact) := by
  refine ⟨dated.insert fact,fun handle issued => ?_⟩
  cases issued
  exact dated.inserted_awaited fact

theorem deleting_fresh (dated : Dated e) (handle : Handle) : Fresh (e.deleting handle) := by
  unfold deleting
  rw [dated.toCoherent.founded.retract_eq]
  cases deleted : e.delete handle with
  | ok result => exact ⟨dated.delete deleted,nofun⟩
  | error cause => exact fresh_neither dated

section Courses
variable {last : Engine} {moments : List Moment}

theorem Course.dated (course : Course e moments last) (start : Dated e) (fresh : ∀ m ∈ moments, Fresh m) : Dated last := by
  rw [← course.ends]
  cases ending : moments.getLast? with
  | none => exact start
  | some m => exact (fresh m (List.mem_of_getLast? ending)).dated

theorem along_fresh {α : Type} (act : Engine → α → Moment) (each : ∀ e item, Dated e → Fresh (act e item))
    (dated : Dated e) (items : List α) : ∀ m ∈ along act e items, Fresh m := by
  induction items generalizing e with
  | nil => simp [along]
  | cons item rest ih =>
    have first := each e item dated
    exact List.forall_mem_cons.mpr ⟨first,ih first.dated⟩

theorem applying_fresh (dated : Dated e) (effects : Effects) : ∀ m ∈ e.applying effects, Fresh m := by
  have pushes := along_fresh pushing (fun _ _ held => fresh_neither (held.globals _)) dated effects.pushes
  have pushed := (along_course (fun _ entry held => pushing_leads held entry) dated.toCoherent effects.pushes).dated dated pushes
  have inserts := along_fresh inserting (fun _ fact held => inserting_fresh held fact) pushed effects.inserts
  have inserted := (along_course (fun _ fact held => inserting_leads held fact) pushed.toCoherent effects.inserts).dated pushed inserts
  have deletes := along_fresh deleting (fun _ handle held => deleting_fresh held handle) inserted effects.deletes
  intro m present
  rcases List.mem_append.mp present with earlier | here
  · rcases List.mem_append.mp earlier with here | here
    · exact pushes m here
    · exact inserts m here
  · exact deletes m here

theorem firing_fresh (dated : Dated e) (limit : Nat) : ∀ m ∈ firing limit e, Fresh m := by
  induction limit generalizing e with
  | zero => simp [firing]
  | succ limit ih =>
    unfold firing
    rcases step_cases dated.toCoherent with ⟨empty,_⟩ | ⟨sequence,a,agenda,rule,facts,popped,ready,_⟩
    · have none : e.network.agenda.pop? = none := Map.pop?_eq_none.mpr (List.map_eq_nil_iff.mp empty)
      simp [none]
    · have recorded := dated.recorded popped
      have carried := applying_fresh recorded (rule.action facts)
      have after := (applying_course recorded.toCoherent (rule.action facts)).dated recorded carried
      simp only [popped,ready]
      refine List.forall_mem_cons.mpr ⟨fresh_neither recorded,fun m present => ?_⟩
      rcases List.mem_append.mp present with here | later
      · exact carried m here
      · exact ih after m later

theorem asking_fresh (dated : Dated e) (demand : Demand) : ∀ m ∈ e.asking demand, Fresh m := by
  cases demand with
  | insert fact => exact List.forall_mem_singleton.mpr (inserting_fresh dated fact)
  | update handle fact =>
    refine List.forall_mem_singleton.mpr (fresh_neither ?_)
    cases done : e.update handle fact with
    | ok next =>
      rw [ask_updated done]
      exact dated.update done
    | error cause =>
      rw [ask_not_updated done]
      exact dated
  | delete handle => exact List.forall_mem_singleton.mpr (deleting_fresh dated handle)
  | fire limit => exact firing_fresh dated limit
  | clear name => exact List.forall_mem_singleton.mpr (fresh_neither (dated.globals _))
  | find fact => exact List.forall_mem_singleton.mpr (fresh_neither dated)
  | look name => exact List.forall_mem_singleton.mpr (fresh_neither dated)

theorem turn_fresh (dated : Dated e) (turn : Turn) : ∀ m ∈ turn.moments e, Fresh m := by
  cases turn with
  | demand asked => exact asking_fresh dated asked
  | rebuild program =>
    refine List.forall_mem_singleton.mpr (fresh_neither ?_)
    cases accepted : rebuild program e.stores with
    | error cause => exact dated
    | ok next =>
      obtain ⟨holds,coherent,_⟩ := rebuild_ok accepted
      exact dated.of_holds coherent holds
  | adopt program =>
    refine List.forall_mem_singleton.mpr (fresh_neither ?_)
    cases accepted : adopt program e.stores e.network with
    | error cause => exact dated
    | ok next =>
      exact dated.of_holds (adopt_coherent accepted dated.inhabited dated.orderly.once) (adopt_ok accepted).1

theorem chronicle_fresh (dated : Dated e) (turns : List Turn) : ∀ m ∈ chronicle e turns, Fresh m := by
  induction turns generalizing e with
  | nil => simp [chronicle]
  | cons turn rest ih =>
    have first := turn_fresh dated turn
    have after := (turn_course dated.toCoherent turn).dated dated first
    intro m present
    rcases List.mem_append.mp present with here | later
    · exact first m here
    · exact ih after m later

end Courses

theorem turns_dated (program : Program) (turns : List Turn) : Dated (turns.foldl Turn.after (new program)) :=
  (chronicle_course (new_coherent program) turns).dated (new_dated program) (chronicle_fresh (new_dated program) turns)

-- Old markers never stand in the way of a new match. At every moment of a
-- history, those inside of a firing included, markers speak of the past only, a
-- fact that has just come in is awaited with whatever it completes, and so is
-- one that any further update gives a new value.
theorem history_awaited (program : Program) (turns : List Turn) :
    (∀ m ∈ history program turns, (∀ a, m.engine.roster.hasFired a = true → ∀ i ∈ a.tuple, m.engine.roster.Knows i) ∧
      ∀ handle, m.deed = .issued handle → Awaited m.engine handle) ∧
    ∀ handle fact next, (turns.foldl Turn.after (new program)).update handle fact = .ok next → Awaited next handle := by
  have fresh : ∀ m ∈ history program turns, Fresh m :=
    List.forall_mem_cons.mpr ⟨fresh_neither (new_dated program),chronicle_fresh (new_dated program) turns⟩
  refine ⟨fun m present => ⟨(fresh m present).dated.markers,(fresh m present).issued⟩,fun handle fact next updated => ?_⟩
  exact (turns_dated program turns).updated_awaited updated

theorem chronicle_last {turns : List Turn} {turn : Turn} (present : m ∈ turn.moments (turns.foldl Turn.after e)) :
    m ∈ chronicle e (turns ++ [turn]) := by
  induction turns generalizing e with
  | nil => exact List.mem_append_left _ present
  | cons first rest ih => exact List.mem_append_right _ (ih present)

def matching : Program := Program.empty.add
  { name := "match"
    patterns := ["Item","Item"]
    action := fun _ => Effects.none.push "matched" (.int 1) }

-- Both pairs of two items have fired before the engine is put back from its stores.
def repeated : List Turn := [.demand (.insert item),.demand (.insert item),.demand (.fire 4),.rebuild matching]

def spent : Engine := repeated.foldl Turn.after (new matching)

theorem repeated_awaited : spent.roster.hasFired ⟨"match",[⟨1,0⟩,⟨2,0⟩]⟩ = true ∧
    Awaited (spent.insert item).2 3 ∧ ∃ next, spent.update 1 item = .ok next ∧ Awaited next 1 ∧
      next.pending = [⟨"match",[⟨1,1⟩,⟨2,0⟩]⟩,⟨"match",[⟨2,0⟩,⟨1,1⟩]⟩] := by
  have came : spent.inserting item ∈ history matching (repeated ++ [.demand (.insert item)]) :=
    List.mem_cons_of_mem _ (chronicle_last (List.mem_singleton_self _))
  have third : (spent.insert item).1 = 3 := by decide
  have issued := ((history_awaited matching _).1 _ came).2 3 (congrArg Deed.issued third)
  have live : spent.roster.isLive 1 = true := by decide
  have updated : ∃ next, spent.update 1 item = .ok next ∧
      next.pending = [⟨"match",[⟨1,1⟩,⟨2,0⟩]⟩,⟨"match",[⟨2,0⟩,⟨1,1⟩]⟩] := by
    unfold update
    rw [if_pos live]
    exact ⟨_,rfl,by decide⟩
  obtain ⟨next,done,pending⟩ := updated
  exact ⟨by decide,issued,next,done,(history_awaited matching repeated).2 1 item next done,pending⟩

end Engine
end DurableRules
