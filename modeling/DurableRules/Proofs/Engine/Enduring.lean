import DurableRules.Proofs.Engine.Demand

namespace DurableRules.Engine
variable {e next : Engine} {program : Program} {handle : Handle} {fact : Fact} {a : Activation}

section Checking

theorem Checked.schedule (checked : Checked e) (known : (e.program.rule? a.rule).isSome = true)
    (current : e.roster.isCurrent a = true) : Checked (e.schedule a) := by
  unfold Engine.schedule
  split
  · exact checked
  · next new =>
    rw [Bool.or_eq_true,not_or,Bool.not_eq_true,Bool.not_eq_true] at new
    refine ⟨checked.indexed,fun sequence b found => ?_⟩
    have put : (e.network.agenda.put e.network.nextSequence a).get? sequence = some b := found
    rw [Map.get?_put] at put
    split at put
    · next last =>
      cases put
      exact ⟨last ▸ Nat.lt_succ_self _,known,current,new.2⟩
    · obtain ⟨early,rest⟩ := checked.agenda sequence b put
      exact ⟨Nat.lt_succ_of_lt early,rest⟩

theorem Checked.foldl_schedule (checked : Checked e) {list : List Activation}
    (each : ∀ a ∈ list, (e.program.rule? a.rule).isSome = true ∧ e.roster.isCurrent a = true) :
    Checked (list.foldl Engine.schedule e) := by
  induction list generalizing e with
  | nil => exact checked
  | cons head rest ih =>
    obtain ⟨known,current⟩ := each head List.mem_cons_self
    have same := schedule_facts e head
    apply ih (checked.schedule known current)
    rw [same.program,same.roster]
    exact fun a later => each a (List.mem_cons_of_mem _ later)

theorem Checked.enter (checked : Checked e) (out : e.facts.get? handle = none) (fact : Fact) :
    Checked (e.enter handle fact) := by
  have indexed := attach_indexed checked.indexed out fact
  have held : (e.attach handle fact).facts.get? handle = some fact := Map.get?_put_self _ _ _
  have attached : Checked (e.attach handle fact) := ⟨indexed,checked.agenda⟩
  unfold Engine.enter propagate
  simp only [held,foldl_consider]
  apply attached.foldl_schedule
  intro a offered
  obtain ⟨⟨rule,known,named,found,fits⟩,_⟩ := (mem_offers indexed held).mp offered
  exact ⟨named ▸ rule?_isSome known,isCurrent_iff.mpr fits.current⟩

theorem Checked.withdraw (checked : Checked e) (handle : Handle) : Checked (e.withdraw handle) := by
  obtain ⟨_,_,_,agenda,sequence,_⟩ := detach_other (e.cancel handle) handle
  refine ⟨withdraw_indexed checked.indexed handle,fun number a found => ?_⟩
  rw [Engine.withdraw,agenda] at found
  have kept : (e.network.agenda.filter fun _ a => !a.involves handle).get? number = some a := found
  rw [Map.get?_filter] at kept
  rw [withdraw_program,withdraw_roster,Engine.withdraw,sequence]
  exact checked.agenda number a (Option.filter_eq_some_iff.mp kept).1

theorem Checked.reroster (checked : Checked e) {roster : Roster} (fired : roster.fired = e.roster.fired)
    (apart : ∀ a ∈ e.pending, a.involves handle = false)
    (versions : ∀ other, other ≠ handle → roster.versions.get? other = e.roster.versions.get? other) :
    Checked { e with roster } := by
  refine ⟨checked.indexed,fun sequence a found => ?_⟩
  obtain ⟨early,known,current,unfired⟩ := checked.agenda sequence a found
  have uninvolved := apart a (Map.mem_values.mpr ⟨sequence,found⟩)
  refine ⟨early,known,isCurrent_iff.mpr fun i member => ?_,?_⟩
  · have other : i.handle ≠ handle := by
      rintro rfl
      rw [involves_iff.mpr (List.mem_map_of_mem member)] at uninvolved
      cases uninvolved
    exact (versions i.handle other).trans (isCurrent_iff.mp current i member)
  · rwa [Roster.hasFired,← fired] at unfired

theorem Checked.dead_apart (checked : Checked e) (dead : e.roster.isLive handle = false) :
    ∀ a ∈ e.pending, a.involves handle = false := by
  intro a present
  obtain ⟨sequence,found⟩ := Map.mem_values.mp present
  obtain ⟨_,_,current,_⟩ := checked.agenda sequence a found
  refine Bool.eq_false_iff.mpr fun involved => ?_
  obtain ⟨i,member,rfl⟩ := List.mem_map.mp (involves_iff.mp involved)
  rw [Roster.isLive_eq,isCurrent_iff.mp current i member] at dead
  cases dead

theorem Checked.insert (checked : Checked e) (founded : Founded e) (fact : Fact) : Checked (e.insert fact).2 := by
  have allocated : Checked { e with roster := e.roster.allocate.2 } :=
    checked.reroster rfl (checked.dead_apart founded.next_dead) fun _ other => Map.get?_put_other _ _ other
  exact allocated.enter founded.next_out fact

theorem withdraw_apart (e : Engine) (handle : Handle) : ∀ a ∈ (e.withdraw handle).pending, a.involves handle = false :=
  fun _ present => (mem_withdraw_pending.mp present).2

theorem Checked.update (checked : Checked e) (updated : e.update handle fact = .ok next) : Checked next := by
  obtain ⟨_,rfl⟩ := update_ok updated
  obtain ⟨fired,_,versions⟩ := Roster.bump_other (e.withdraw handle).roster handle
  have bumped := (checked.withdraw handle).reroster fired (withdraw_apart e handle) versions
  exact bumped.enter (withdraw_out e handle) fact

theorem Checked.delete (checked : Checked e) (deleted : e.delete handle = .ok (fact,next)) : Checked next := by
  obtain ⟨_,_,rfl⟩ := delete_ok deleted
  exact (checked.withdraw handle).reroster rfl (withdraw_apart e handle) fun _ other => Map.get?_erase_other _ other

theorem Checked.globals (checked : Checked e) (globals : Globals) : Checked { e with globals } :=
  ⟨checked.indexed,checked.agenda⟩

theorem checked_of_empty (indexed : Indexed e) (empty : e.pending = []) : Checked e := by
  refine ⟨indexed,fun sequence a found => ?_⟩
  have present : a ∈ e.pending := Map.mem_values.mpr ⟨sequence,found⟩
  rw [empty] at present
  cases present

end Checking

section Firing

theorem Founded.apply (founded : Founded e) (effects : Effects) : Founded (e.apply effects) :=
  apply_induct effects founded (fun _ _ _ held => held.globals _) (fun _ fact _ held => held.insert fact)
    (fun _ _ _ _ held deleted => held.delete deleted) fun _ _ held live out => absurd out (held.known live)

theorem Founded.step (founded : Founded e) {fired : Option Activation} (stepped : e.step = some (fired,next)) :
    Founded next := by
  have taken (a : Activation) (agenda : Map Sequence Activation) : Founded (e.taken a agenda) :=
    ⟨founded.indexed,founded.handles,founded.below⟩
  have recorded (a : Activation) (agenda : Map Sequence Activation) : Founded ((e.taken a agenda).recorded a) :=
    ⟨founded.indexed,founded.handles,founded.below⟩
  obtain ⟨_,a,agenda,_,rfl | ⟨rule,facts,_,rfl⟩⟩ := step_inv stepped
  · exact taken a agenda
  · exact (recorded a agenda).apply _

theorem step_program {fired : Option Activation} (stepped : e.step = some (fired,next)) : next.program = e.program := by
  obtain ⟨_,a,agenda,_,rfl | ⟨rule,facts,_,rfl⟩⟩ := step_inv stepped
  · rfl
  · exact (apply_markers _ _).program

theorem Founded.fire (founded : Founded e) (limit : Nat) : Founded (e.fire limit).2 :=
  fire_induct (fun _ _ _ held stepped => held.step stepped) limit e founded

end Firing

section Numbering

theorem numbered_insert (numbered : e.roster.Numbered) (fact : Fact) : (e.insert fact).2.roster.Numbered :=
  (insert_rest e fact).2.1 ▸ numbered.allocate

theorem numbered_update (numbered : e.roster.Numbered) (updated : e.update handle fact = .ok next) :
    next.roster.Numbered := (update_rest updated).2.1 ▸ numbered.bump handle

theorem numbered_delete (numbered : e.roster.Numbered) (deleted : e.delete handle = .ok (fact,next)) :
    next.roster.Numbered := (delete_rest deleted).2.1 ▸ numbered.retire handle

theorem numbered_step (numbered : e.roster.Numbered) {fired : Option Activation}
    (stepped : e.step = some (fired,next)) : next.roster.Numbered := by
  obtain ⟨_,a,agenda,_,rfl | ⟨rule,facts,_,rfl⟩⟩ := step_inv stepped
  · exact numbered
  · have recorded : ((e.taken a agenda).recorded a).roster.Numbered := ⟨numbered.next,numbered.positive⟩
    exact apply_induct (motive := fun e => e.roster.Numbered) _ recorded (fun _ _ _ held => held)
      (fun _ fact _ held => numbered_insert held fact) (fun _ _ _ _ held deleted => numbered_delete held deleted)
      fun e handle held _ _ => (withdraw_roster e handle).symm ▸ held

theorem numbered_ask (numbered : e.roster.Numbered) (demand : Demand) : (e.ask demand).2.roster.Numbered :=
  ask_induct (motive := fun e => e.roster.Numbered) demand numbered (numbered_insert numbered)
    (fun _ _ _ _ done => numbered_update numbered done) (fun _ _ _ done => numbered_delete numbered done)
    (fun handle _ _ => (withdraw_roster e handle).symm ▸ numbered)
    (fun limit => fire_induct (motive := fun e => e.roster.Numbered) (fun _ _ _ held stepped => numbered_step held stepped)
      limit e numbered)
    fun _ => numbered

theorem numbered_askAll (numbered : e.roster.Numbered) (demands : List Demand) :
    (DurableRules.askAll Engine.ask demands e).2.roster.Numbered := by
  induction demands generalizing e with
  | nil => exact numbered
  | cons demand rest ih => exact ih (numbered_ask numbered demand)

end Numbering

-- An engine that passes the checks of recovery as long as no handle is zero.
structure Enduring (program : Program) (e : Engine) : Prop where
  program : e.program = program
  founded : Founded e
  checked : Checked e

theorem Enduring.adopted {stores : Stores} {network : Network} (adopted : adopt program stores network = .ok e) :
    Enduring program e := by
  obtain ⟨holds,same,_,checked,_,range⟩ := adopt_ok adopted
  refine ⟨same,⟨checked.indexed,holds.handles,fun handle live => ?_⟩,checked⟩
  rw [holds.roster]
  exact (range handle live).2

theorem Enduring.rebuilt {stores : Stores} (rebuilt : rebuild program stores = .ok e) : Enduring program e := by
  obtain ⟨_,coherent,_,same⟩ := rebuild_ok rebuilt
  exact ⟨same,coherent.founded,coherent.checked⟩

-- The engines that a program begins with. Those that are restored are made of
-- any stores and any network at all.
inductive Origin (program : Program) : Engine → Prop where
  | new : Origin program (new program)
  | rebuilt {stores : Stores} {e : Engine} (rebuilt : rebuild program stores = .ok e) : Origin program e
  | adopted {stores : Stores} {network : Network} {e : Engine} (adopted : adopt program stores network = .ok e) :
      Origin program e

theorem Origin.enduring (origin : Origin program e) : Enduring program e := by
  cases origin with
  | new =>
    have coherent := new_coherent program
    exact ⟨rfl,coherent.founded,coherent.checked⟩
  | rebuilt rebuilt => exact .rebuilt rebuilt
  | adopted adopted => exact .adopted adopted

-- Only where the next handle was zero is zero ever given to a fact.
theorem Origin.numbered (origin : Origin program e) (next : 0 < e.roster.nextHandle) : e.roster.Numbered := by
  cases origin with
  | new => exact (new_tidy program).numbered
  | rebuilt rebuilt =>
    obtain ⟨_,restored⟩ := rebuild_roster rebuilt
    exact ⟨next,fun _ => (rebuild_ok rebuilt).1.positive restored⟩
  | adopted adopted =>
    obtain ⟨_,restored⟩ := adopt_roster adopted
    exact ⟨next,fun _ => (adopt_ok adopted).1.positive restored⟩

def exhausts (e : Engine) : Demand → Bool
  | .fire limit => (e.fire limit).2.pending.isEmpty
  | _ => true

def exhaustsAll : List Demand → Engine → Bool
  | [], _ => true
  | demand :: rest, e => e.exhausts demand && exhaustsAll rest (e.ask demand).2

section Asking

theorem Enduring.insert (enduring : Enduring program e) (fact : Fact) : Enduring program (e.insert fact).2 :=
  ⟨(insert_markers e fact).program.trans enduring.program,enduring.founded.insert fact,
    enduring.checked.insert enduring.founded fact⟩

theorem Enduring.update (enduring : Enduring program e) (updated : e.update handle fact = .ok next) :
    Enduring program next :=
  ⟨(update_markers updated).program.trans enduring.program,enduring.founded.update updated,
    enduring.checked.update updated⟩

theorem Enduring.delete (enduring : Enduring program e) (deleted : e.delete handle = .ok (fact,next)) :
    Enduring program next :=
  ⟨(delete_markers deleted).program.trans enduring.program,enduring.founded.delete deleted,
    enduring.checked.delete deleted⟩

-- Between the first activation and the last the agenda may hold what has fired
-- already, so only the agenda at the end is known to be without faults.
theorem Enduring.fire (enduring : Enduring program e) {limit : Nat} (empty : (e.fire limit).2.pending = []) :
    Enduring program (e.fire limit).2 := by
  have founded := enduring.founded.fire limit
  refine ⟨?_,founded,checked_of_empty founded.indexed empty⟩
  exact fire_induct (motive := fun next => next.program = program)
    (fun _ _ _ held stepped => (step_program stepped).trans held) limit e enduring.program

theorem Enduring.ask (enduring : Enduring program e) {demand : Demand} :
    e.exhausts demand = true → Enduring program (e.ask demand).2 :=
  ask_cases (motive := fun demand next => e.exhausts demand = true → Enduring program next) demand
    (fun _ => enduring) (fun fact _ => enduring.insert fact) (fun _ _ _ done _ => enduring.update done)
    (fun _ _ _ done _ => enduring.delete done) (fun _ live out => absurd out (enduring.founded.known live)) (fun _ exhausts => enduring.fire (List.isEmpty_iff.mp exhausts))
    fun _ _ => ⟨enduring.program,enduring.founded.globals _,enduring.checked.globals _⟩

theorem Enduring.askAll (enduring : Enduring program e) {demands : List Demand}
    (exhausts : exhaustsAll demands e = true) : Enduring program (DurableRules.askAll Engine.ask demands e).2 := by
  induction demands generalizing e with
  | nil => exact enduring
  | cons demand rest ih =>
    obtain ⟨first,later⟩ := Bool.and_eq_true_iff.mp exhausts
    exact ih (enduring.ask first) later

end Asking

end DurableRules.Engine
