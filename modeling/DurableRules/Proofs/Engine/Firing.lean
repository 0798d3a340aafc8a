import DurableRules.Proofs.Engine.Preservation

namespace DurableRules.Engine
variable {e next : Engine} {handle : Handle} {fact : Fact} {a : Activation}

theorem Coherent.globals (coherent : Coherent e) (globals : Globals) : Coherent { e with globals } :=
  ⟨⟨coherent.indexed,coherent.inhabited,⟨coherent.orderly.queued,coherent.orderly.once,coherent.orderly.early⟩,
    fun a present => ⟨(coherent.genuine a present).known,(coherent.genuine a present).current,
      (coherent.genuine a present).facts,(coherent.genuine a present).unfired⟩⟩,coherent.handles,coherent.below⟩

theorem Exact.globals (exact : Exact e) (globals : Globals) : Exact { e with globals } := by
  intro a
  have same : Satisfied { e with globals } a ↔ e.Satisfied a :=
    ⟨fun satisfied => satisfied.congr rfl (fun _ _ => rfl) (fun _ _ => rfl),
      fun satisfied => satisfied.congr rfl (fun _ _ => rfl) (fun _ _ => rfl)⟩
  exact (exact a).trans (and_congr_left' same.symm)

-- What an action asks for changes an engine one operation at a time.
theorem apply_induct {motive : Engine → Prop} (effects : Effects) (start : motive e)
    (push : ∀ e, ∀ entry ∈ effects.pushes, motive e → motive (e.pushGlobal entry))
    (insert : ∀ e, ∀ fact ∈ effects.inserts, motive e → motive (e.insert fact).2)
    (delete : ∀ e handle fact next, motive e → e.delete handle = .ok (fact,next) → motive next)
    (withdraw : ∀ e handle, motive e → e.roster.isLive handle = true → e.facts.get? handle = none →
      motive (e.withdraw handle)) : motive (e.apply effects) := by
  unfold apply
  have pushed : motive (effects.pushes.foldl pushGlobal e) :=
    List.foldlRecOn effects.pushes pushGlobal start fun e held entry asked => push e entry asked held
  have inserted := List.foldlRecOn effects.inserts (fun e fact => (Engine.insert e fact).2) pushed
    fun e held fact asked => insert e fact asked held
  refine List.foldlRecOn effects.deletes deleteLive inserted fun e held handle _ => ?_
  unfold deleteLive
  rcases retract_cases e handle with ⟨_,went⟩ | ⟨live,out,went⟩ | ⟨fact,_,_,went⟩
  · exact went ▸ held
  · exact went ▸ withdraw e handle held live out
  · exact went ▸ delete e handle fact _ held (delete_retract.mpr went)

theorem Coherent.apply (coherent : Coherent e) (effects : Effects) : Coherent (e.apply effects) :=
  apply_induct effects coherent (fun _ _ _ held => held.globals _) (fun _ fact _ held => held.insert fact)
    (fun _ _ _ _ held deleted => held.delete deleted) fun _ _ held live out => absurd out (held.founded.known live)

theorem Exact.apply (exact : Exact e) (coherent : Coherent e) (effects : Effects) : Exact (e.apply effects) :=
  (apply_induct (motive := fun e => Coherent e ∧ Exact e) effects ⟨coherent,exact⟩
    (fun _ _ _ held => ⟨held.1.globals _,held.2.globals _⟩)
    (fun _ fact _ held => ⟨held.1.insert fact,held.2.insert held.1 fact⟩)
    (fun _ _ _ _ held deleted => ⟨held.1.delete deleted,held.2.delete deleted⟩)
    fun _ _ held live out => absurd out (held.1.founded.known live)).2

def taken (e : Engine) (a : Activation) (agenda : Map Sequence Activation) : Engine :=
  { e with network := { e.network with agenda }, queued := e.queued.erase a }

def recorded (e : Engine) (a : Activation) : Engine := { e with roster := (e.roster.record a).2 }

theorem hasFired_record {r : Roster} {b : Activation} :
    (r.record a).2.hasFired b = true ↔ b = a ∨ r.hasFired b = true := by
  unfold Roster.hasFired
  rw [Members.contains_iff_mem,Members.contains_iff_mem]
  exact Members.mem_insert

theorem unfired_record {r : Roster} {b : Activation} :
    (r.record a).2.hasFired b = false ↔ b ≠ a ∧ r.hasFired b = false := by
  rw [← Bool.not_eq_true,hasFired_record,not_or,Bool.not_eq_true]

theorem pending_pop {sequence : Sequence} {agenda : Map Sequence Activation}
    (popped : e.network.agenda.pop? = some ((sequence,a),agenda)) : e.pending = a :: agenda.values := by
  rw [pending,Map.values,Map.pop?_rows popped]
  rfl

theorem matched_length {tuple : List Identity} (facts : ∀ i ∈ tuple, (e.facts.get? i.handle).isSome = true) :
    (e.matched (tuple.map Identity.handle)).length = tuple.length := by
  unfold matched
  induction tuple with
  | nil => rfl
  | cons i rest ih =>
    obtain ⟨fact,held⟩ := Option.isSome_iff_exists.mp (facts i List.mem_cons_self)
    have later := ih fun j member => facts j (List.mem_cons_of_mem _ member)
    simp only [List.map_cons,List.filterMap_cons,held,Option.map_some,List.length_cons,later]

theorem ready_of_genuine (genuine : Genuine e a) : ∃ rule facts, e.ready a = some (rule,facts) := by
  obtain ⟨rule,known⟩ := Option.isSome_iff_exists.mp genuine.known
  have current : e.roster.isCurrent a = true := by
    simpa [Roster.isCurrent] using genuine.current
  have complete := matched_length genuine.facts
  refine ⟨rule,e.matched (a.tuple.map Identity.handle),?_⟩
  simp [ready,current,genuine.unfired,known,complete]

theorem take_head (e : Engine) : (e.pending = [] ∧ e.take? = none) ∨
    ∃ sequence a agenda, e.network.agenda.pop? = some ((sequence,a),agenda) ∧
      (((e.taken a agenda).ready a = none ∧ e.take? = some (none,e.taken a agenda)) ∨
        ∃ rule facts, (e.taken a agenda).ready a = some (rule,facts) ∧
          e.take? = some (some (a,rule.action facts),(e.taken a agenda).recorded a)) := by
  cases popped : e.network.agenda.pop? with
  | none =>
    have rows := Map.pop?_eq_none.mp popped
    refine .inl ⟨?_,by rw [take?,popped]⟩
    rw [pending,Map.values,rows,List.map_nil]
  | some row =>
    obtain ⟨⟨sequence,a⟩,agenda⟩ := row
    refine .inr ⟨sequence,a,agenda,rfl,?_⟩
    unfold take?
    cases ready : (e.taken a agenda).ready a with
    | none =>
      unfold taken at ready
      refine .inl ⟨rfl,?_⟩
      simp only [popped,ready]
      rfl
    | some found =>
      obtain ⟨rule,facts⟩ := found
      unfold taken at ready
      refine .inr ⟨rule,facts,rfl,?_⟩
      simp only [popped,ready]
      rfl

-- All that one step can do: the head of the agenda is dropped or it is fired.
theorem step_head (e : Engine) : (e.pending = [] ∧ e.step = none) ∨
    ∃ sequence a agenda, e.network.agenda.pop? = some ((sequence,a),agenda) ∧
      (((e.taken a agenda).ready a = none ∧ e.step = some (none,e.taken a agenda)) ∨
        ∃ rule facts, (e.taken a agenda).ready a = some (rule,facts) ∧
          e.step = some (some a,((e.taken a agenda).recorded a).apply (rule.action facts))) := by
  obtain ⟨empty,went⟩ | ⟨sequence,a,agenda,popped,⟨unready,went⟩ | ⟨rule,facts,ready,went⟩⟩ := take_head e
  · exact .inl ⟨empty,by rw [step,went]⟩
  · exact .inr ⟨sequence,a,agenda,popped,.inl ⟨unready,by rw [step,went]⟩⟩
  · exact .inr ⟨sequence,a,agenda,popped,.inr ⟨rule,facts,ready,by rw [step,went]⟩⟩

theorem step_inv {fired : Option Activation} (stepped : e.step = some (fired,next)) : ∃ sequence a agenda,
    e.network.agenda.pop? = some ((sequence,a),agenda) ∧
      (next = e.taken a agenda ∨ ∃ rule facts, (e.taken a agenda).ready a = some (rule,facts) ∧
        next = ((e.taken a agenda).recorded a).apply (rule.action facts)) := by
  obtain ⟨_,stops⟩ | ⟨sequence,a,agenda,popped,⟨_,went⟩ | ⟨rule,facts,ready,went⟩⟩ := step_head e
  · cases stops.symm.trans stepped
  · cases went.symm.trans stepped
    exact ⟨sequence,a,agenda,popped,.inl rfl⟩
  · cases went.symm.trans stepped
    exact ⟨sequence,a,agenda,popped,.inr ⟨rule,facts,ready,rfl⟩⟩

theorem step_genuine (genuine : ∀ a ∈ e.pending, e.Genuine a) : (e.pending = [] ∧ e.step = none) ∨
    ∃ sequence a agenda rule facts, e.network.agenda.pop? = some ((sequence,a),agenda) ∧
      (e.taken a agenda).ready a = some (rule,facts) ∧
      e.step = some (some a,((e.taken a agenda).recorded a).apply (rule.action facts)) := by
  obtain stops | ⟨sequence,a,agenda,popped,⟨unready,_⟩ | ⟨rule,facts,ready,went⟩⟩ := step_head e
  · exact .inl stops
  · have head := genuine a (pending_pop popped ▸ List.mem_cons_self)
    obtain ⟨rule,facts,ready⟩ := ready_of_genuine (e := e.taken a agenda)
      ⟨head.known,head.current,head.facts,head.unfired⟩
    cases unready.symm.trans ready
  · exact .inr ⟨sequence,a,agenda,rule,facts,popped,ready,went⟩

theorem step_cases (coherent : Coherent e) : (e.pending = [] ∧ e.step = none) ∨
    ∃ sequence a agenda rule facts, e.network.agenda.pop? = some ((sequence,a),agenda) ∧
      (e.taken a agenda).ready a = some (rule,facts) ∧
      e.step = some (some a,((e.taken a agenda).recorded a).apply (rule.action facts)) := step_genuine coherent.genuine

theorem taken_orderly (orderly : Orderly e) {sequence : Sequence} {agenda : Map Sequence Activation}
    (popped : e.network.agenda.pop? = some ((sequence,a),agenda)) : Orderly (e.taken a agenda) := by
  have all := pending_pop popped
  have apart : a ∉ agenda.values ∧ agenda.values.Nodup := List.nodup_cons.mp (all ▸ orderly.once)
  refine ⟨fun b => ?_,apart.2,fun number b found => ?_⟩
  · rw [Members.contains_iff_mem]
    change b ∈ Members.toList (Map.erase e.queued a) ↔ b ∈ agenda.values
    rw [Members.mem_erase,← Members.contains_iff_mem,orderly.queued,all,List.mem_cons]
    constructor
    · intro ⟨other,listed⟩
      rcases listed with rfl | later
      · exact absurd rfl other
      · exact later
    · intro later
      exact ⟨fun equal => apart.1 (equal ▸ later),.inr later⟩
  · refine orderly.early number b (Map.get?_eq_some_iff.mpr ?_)
    rw [Map.pop?_rows popped]
    exact List.mem_cons_of_mem _ (Map.get?_eq_some_iff.mp found)

theorem recorded_coherent (coherent : Coherent e) {sequence : Sequence} {agenda : Map Sequence Activation}
    (popped : e.network.agenda.pop? = some ((sequence,a),agenda)) : Coherent ((e.taken a agenda).recorded a) := by
  have all := pending_pop popped
  have apart : a ∉ agenda.values := (List.nodup_cons.mp (all ▸ coherent.orderly.once)).1
  have orderly := taken_orderly coherent.orderly popped
  refine ⟨⟨coherent.indexed,coherent.inhabited,⟨orderly.queued,orderly.once,orderly.early⟩,fun b present => ?_⟩,
    coherent.handles,coherent.below⟩
  have later : b ∈ agenda.values := present
  have genuine := coherent.genuine b (all ▸ List.mem_cons_of_mem _ later)
  refine ⟨genuine.known,genuine.current,genuine.facts,unfired_record.mpr ⟨?_,genuine.unfired⟩⟩
  intro same
  subst same
  exact apart later

theorem recorded_exact (exact : Exact e) (coherent : Coherent e) {sequence : Sequence}
    {agenda : Map Sequence Activation} (popped : e.network.agenda.pop? = some ((sequence,a),agenda)) :
    Exact ((e.taken a agenda).recorded a) := by
  have all := pending_pop popped
  have apart : a ∉ agenda.values := (List.nodup_cons.mp (all ▸ coherent.orderly.once)).1
  intro b
  have same : ((e.taken a agenda).recorded a).Satisfied b ↔ e.Satisfied b :=
    ⟨fun satisfied => satisfied.congr rfl (fun _ _ => rfl) (fun _ _ => rfl),
      fun satisfied => satisfied.congr rfl (fun _ _ => rfl) (fun _ _ => rfl)⟩
  have before : b = a ∨ b ∈ agenda.values ↔ e.Satisfied b ∧ e.roster.hasFired b = false := by
    rw [← exact b,all,List.mem_cons]
  change b ∈ agenda.values ↔ ((e.taken a agenda).recorded a).Satisfied b ∧ (e.roster.record a).2.hasFired b = false
  rw [same,unfired_record]
  constructor
  · intro later
    obtain ⟨satisfied,unfired⟩ := before.mp (.inr later)
    exact ⟨satisfied,fun equal => apart (equal ▸ later),unfired⟩
  · intro settled
    obtain ⟨satisfied,other,unfired⟩ := settled
    exact (before.mpr ⟨satisfied,unfired⟩).resolve_left other

theorem step_applies (coherent : Coherent e) {fired : Option Activation} (stepped : e.step = some (fired,next)) :
    ∃ sequence a agenda effects, e.network.agenda.pop? = some ((sequence,a),agenda) ∧ fired = some a ∧
      next = ((e.taken a agenda).recorded a).apply effects := by
  rcases step_cases coherent with ⟨_,stops⟩ | ⟨sequence,a,agenda,rule,facts,popped,_,went⟩
  · rw [stops] at stepped
    cases stepped
  · rw [went] at stepped
    cases stepped
    exact ⟨sequence,a,agenda,_,popped,rfl,rfl⟩

theorem Coherent.step (coherent : Coherent e) {fired : Option Activation} (stepped : e.step = some (fired,next)) :
    Coherent next := by
  obtain ⟨_,_,_,effects,popped,_,rfl⟩ := step_applies coherent stepped
  exact (recorded_coherent coherent popped).apply effects

theorem Exact.step (exact : Exact e) (coherent : Coherent e) {fired : Option Activation}
    (stepped : e.step = some (fired,next)) : Exact next := by
  obtain ⟨_,_,_,effects,popped,_,rfl⟩ := step_applies coherent stepped
  exact (recorded_exact exact coherent popped).apply (recorded_coherent coherent popped) effects

theorem fire_induct {motive : Engine → Prop}
    (step : ∀ e fired next, motive e → e.step = some (fired,next) → motive next) (limit : Nat) :
    ∀ e, motive e → motive (e.fire limit).2 := by
  induction limit with
  | zero => exact fun e held => held
  | succ limit ih =>
    intro e held
    unfold fire
    split
    · exact held
    · next fired next stepped => exact ih next (step e fired next held stepped)

theorem Coherent.fire (coherent : Coherent e) (limit : Nat) : Coherent (e.fire limit).2 :=
  fire_induct (fun _ _ _ held stepped => held.step stepped) limit e coherent

theorem Exact.fire (exact : Exact e) (coherent : Coherent e) (limit : Nat) : Exact (e.fire limit).2 :=
  (fire_induct (motive := fun e => Coherent e ∧ Exact e)
    (fun _ _ _ held stepped => ⟨held.1.step stepped,held.2.step held.1 stepped⟩) limit e ⟨coherent,exact⟩).2

theorem step_empty (empty : e.pending = []) : e.step = none := by
  have rows : e.network.agenda.rows = [] := List.map_eq_nil_iff.mp empty
  rw [step,take?,Map.pop?_eq_none.mpr rows]

-- Nothing but a fired activation leaves the agenda, so firing none is doing nothing.
theorem fire_nothing (genuine : ∀ a ∈ e.pending, e.Genuine a) {limit : Nat} (none : (e.fire limit).1 = []) :
    (e.fire limit).2 = e := by
  cases limit with
  | zero => rfl
  | succ limit =>
    rcases step_genuine genuine with ⟨_,stops⟩ | ⟨_,_,_,_,_,_,_,went⟩
    · simp [fire,stops]
    · simp [fire,went] at none

end DurableRules.Engine
