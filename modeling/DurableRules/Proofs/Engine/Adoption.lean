import DurableRules.Proofs.Engine.Enduring
import DurableRules.Proofs.Engine.Reachable
import DurableRules.Proofs.Snapshot.RoundTrip

namespace DurableRules.Engine
variable {e next : Engine} {program : Program} {stores : Stores} {network : Network} {handle : Handle} {fact : Fact}
  {a : Activation} {excused : Activation → Prop}

section Shapes
variable {one two : Engine} {rule : Rule}

-- The facts of the tuple are of the kinds the rule asks for, one for each
-- pattern, and none of them stands there twice.
def Shaped (e : Engine) (a : Activation) : Prop :=
  (∃ rule ∈ e.program.rule? a.rule, a.tuple.map (fun i => (e.facts.get? i.handle).map Fact.kind) = rule.patterns.map some) ∧
    (a.tuple.map Identity.handle).Nodup

instance (e : Engine) (a : Activation) : Decidable (e.Shaped a) := inferInstanceAs (Decidable (_ ∧ _))

theorem Shaped.holds (shaped : e.Shaped a) (inside : a.involves handle = true) :
    ∃ fact, e.facts.get? handle = some fact := by
  obtain ⟨⟨rule,_,kinds⟩,_⟩ := shaped
  obtain ⟨i,member,rfl⟩ := List.mem_map.mp (involves_iff.mp inside)
  have kind : (e.facts.get? i.handle).map Fact.kind ∈ rule.patterns.map some := kinds ▸ List.mem_map_of_mem member
  obtain ⟨_,_,same⟩ := List.mem_map.mp kind
  obtain ⟨fact,known,_⟩ := Option.map_eq_some_iff.mp same.symm
  exact ⟨fact,known⟩

theorem Shaped.congr (shaped : one.Shaped a) (program : one.program = two.program)
    (facts : ∀ handle, a.involves handle = true → one.facts.get? handle = two.facts.get? handle) : two.Shaped a := by
  obtain ⟨⟨rule,known,kinds⟩,apart⟩ := shaped
  refine ⟨⟨rule,program ▸ known,?_⟩,apart⟩
  rw [← kinds]
  exact List.map_congr_left fun i member => by rw [facts i.handle (involves_iff.mpr (List.mem_map_of_mem member))]

theorem rule?_of_mem (known : rule ∈ program.rules) : program.rule? rule.name = some rule := by
  obtain ⟨other,found⟩ := Option.isSome_iff_exists.mp (rule?_isSome known)
  have named : other.name = rule.name := by simpa using List.find?_some found
  rw [found]
  exact congrArg some (List.inj_on_of_nodup_map program.distinct (List.mem_of_find?_eq_some found) known named)

theorem Satisfied.shaped (satisfied : e.Satisfied a) : e.Shaped a := by
  obtain ⟨rule,known,named,found,fits⟩ := satisfied
  refine ⟨⟨rule,named ▸ rule?_of_mem known,?_⟩,fits.apart⟩
  calc a.tuple.map (fun i => (e.facts.get? i.handle).map Fact.kind)
    _ = (a.tuple.map Identity.handle).map fun handle => (e.facts.get? handle).map Fact.kind := by rw [List.map_map]; rfl
    _ = found.map fun row => (e.facts.get? row.1).map Fact.kind := by rw [← fits.handles,List.map_map]; rfl
    _ = found.map fun row => some row.2.kind := List.map_congr_left fun row member => by rw [fits.facts row member]; rfl
    _ = rule.patterns.map some := by rw [← fits.kinds,List.map_map]; rfl

-- The facts an action is handed: one for each pattern and of its kind, none of them twice.
def Matches (rule : Rule) (facts : Match) : Prop :=
  facts.map (·.2.kind) = rule.patterns ∧ (facts.map Prod.fst).Nodup

instance (rule : Rule) (facts : Match) : Decidable (Matches rule facts) := inferInstanceAs (Decidable (_ ∧ _))

theorem Fits.matches {found : Match} (fits : e.Fits rule a.tuple found) : Matches rule found :=
  ⟨fits.kinds,fits.handles ▸ fits.apart⟩

theorem matched_kinds {patterns : List String} {tuple : List Identity}
    (kinds : tuple.map (fun i => (e.facts.get? i.handle).map Fact.kind) = patterns.map some) :
    (e.matched (tuple.map Identity.handle)).map (·.2.kind) = patterns ∧
      (e.matched (tuple.map Identity.handle)).map Prod.fst = tuple.map Identity.handle := by
  unfold matched
  induction tuple generalizing patterns with
  | nil => exact ⟨(List.map_eq_nil_iff.mp kinds.symm).symm,rfl⟩
  | cons i rest ih =>
    obtain ⟨pattern,others,rfl,kind,later⟩ := List.map_eq_cons_iff.mp kinds.symm
    obtain ⟨fact,known,rfl⟩ := Option.map_eq_some_iff.mp kind.symm
    obtain ⟨same,handles⟩ := ih later.symm
    simp only [List.map_cons,List.filterMap_cons,known,Option.map_some]
    exact ⟨by rw [same],by rw [handles]⟩

theorem Shaped.matches (shaped : e.Shaped a) (known : e.program.rule? a.rule = some rule) :
    Matches rule (e.matched (a.tuple.map Identity.handle)) := by
  obtain ⟨⟨other,found,kinds⟩,apart⟩ := shaped
  cases known.symm.trans found
  obtain ⟨same,handles⟩ := matched_kinds kinds
  refine ⟨same,?_⟩
  rw [handles]
  exact apart

end Shapes

-- Whatever is pending is of the right shape or was let in otherwise.
structure PendingShaped (program : Program) (excused : Activation → Prop) (e : Engine) : Prop where
  program : e.program = program
  founded : e.Founded
  shaped : ∀ a ∈ e.pending, e.Shaped a ∨ excused a

section Scheduling
variable {b : Activation}

-- Here the agenda may hold an activation twice, so only what it holds is followed.
theorem mem_enqueue (present : b ∈ (e.enqueue a).pending) : b ∈ e.pending ∨ b = a := by
  obtain ⟨sequence,found⟩ := Map.mem_values.mp present
  have put : (e.network.agenda.put e.network.nextSequence a).get? sequence = some b := found
  rw [Map.get?_put] at put
  split at put
  · exact .inr (Option.some.inj put).symm
  · exact .inl (Map.mem_values.mpr ⟨sequence,put⟩)

theorem mem_schedule (present : b ∈ (e.schedule a).pending) : b ∈ e.pending ∨ b = a := by
  unfold schedule at present
  split at present
  · exact .inl present
  · exact mem_enqueue present

theorem mem_foldl_schedule {list : List Activation} (present : b ∈ (list.foldl schedule e).pending) :
    b ∈ e.pending ∨ b ∈ list := by
  induction list generalizing e with
  | nil => exact .inl present
  | cons head rest ih =>
    rcases ih present with before | later
    · rcases mem_schedule before with old | rfl
      · exact .inl old
      · exact .inr List.mem_cons_self
    · exact .inr (List.mem_cons_of_mem _ later)

theorem mem_enter (indexed : e.Indexed) (out : e.facts.get? handle = none) (present : b ∈ (e.enter handle fact).pending) :
    b ∈ e.pending ∨ (e.enter handle fact).Satisfied b := by
  have held : (e.attach handle fact).facts.get? handle = some fact := Map.get?_put_self _ _ _
  have same : SameFacts (e.enter handle fact) (e.attach handle fact) := propagate_facts _ _
  unfold Engine.enter propagate at present
  simp only [held,foldl_consider] at present
  rcases mem_foldl_schedule present with old | offered
  · exact .inl old
  · obtain ⟨satisfied,_⟩ := (mem_offers (attach_indexed indexed out fact) held).mp offered
    exact .inr (satisfied.same same.symm)

end Scheduling

section Keeping

theorem Shaped.enter (shaped : e.Shaped a) (out : e.facts.get? handle = none) : (e.enter handle fact).Shaped a := by
  have same : SameFacts (e.enter handle fact) (e.attach handle fact) := propagate_facts _ _
  refine shaped.congr same.program.symm fun other inside => ?_
  rw [same.facts]
  refine (Map.get?_put_other e.facts fact fun equal => ?_).symm
  obtain ⟨held,known⟩ := shaped.holds inside
  rw [equal,out] at known
  cases known

theorem shaped_enter (indexed : e.Indexed) (out : e.facts.get? handle = none)
    (shaped : ∀ a ∈ e.pending, e.Shaped a ∨ excused a) :
    ∀ a ∈ (e.enter handle fact).pending, (e.enter handle fact).Shaped a ∨ excused a := by
  intro a present
  rcases mem_enter indexed out present with old | satisfied
  · exact (shaped a old).imp_left fun held => held.enter out
  · exact .inl satisfied.shaped

theorem shaped_withdraw (shaped : ∀ a ∈ e.pending, e.Shaped a ∨ excused a) (handle : Handle) :
    ∀ a ∈ (e.withdraw handle).pending, (e.withdraw handle).Shaped a ∨ excused a := by
  intro a present
  obtain ⟨old,apart⟩ := mem_withdraw_pending.mp present
  refine (shaped a old).imp_left fun held => held.congr (withdraw_program e handle).symm fun other inside => ?_
  rw [withdraw_facts]
  refine (Map.get?_erase_other _ fun equal => ?_).symm
  rw [equal,apart] at inside
  cases inside

theorem PendingShaped.insert (admitted : PendingShaped program excused e) (fact : Fact) : PendingShaped program excused (e.insert fact).2 := by
  refine ⟨(insert_markers e fact).program.trans admitted.program,admitted.founded.insert fact,?_⟩
  have allocated : Indexed { e with roster := e.roster.allocate.2 } := admitted.founded.indexed
  exact shaped_enter allocated admitted.founded.next_out admitted.shaped

theorem PendingShaped.update (admitted : PendingShaped program excused e) (updated : e.update handle fact = .ok next) :
    PendingShaped program excused next := by
  refine ⟨(update_markers updated).program.trans admitted.program,admitted.founded.update updated,?_⟩
  obtain ⟨_,rfl⟩ := update_ok updated
  have bumped : Indexed { e.withdraw handle with roster := ((e.withdraw handle).roster.bump handle).2 } :=
    withdraw_indexed admitted.founded.indexed handle
  exact shaped_enter bumped (withdraw_out e handle) (shaped_withdraw admitted.shaped handle)

theorem PendingShaped.delete (admitted : PendingShaped program excused e) (deleted : e.delete handle = .ok (fact,next)) :
    PendingShaped program excused next := by
  refine ⟨(delete_markers deleted).program.trans admitted.program,admitted.founded.delete deleted,?_⟩
  obtain ⟨_,_,rfl⟩ := delete_ok deleted
  exact shaped_withdraw admitted.shaped handle

theorem PendingShaped.globals (admitted : PendingShaped program excused e) (globals : Globals) : PendingShaped program excused { e with globals } :=
  ⟨admitted.program,admitted.founded.globals globals,admitted.shaped⟩

theorem PendingShaped.apply (admitted : PendingShaped program excused e) (effects : Effects) : PendingShaped program excused (e.apply effects) :=
  apply_induct effects admitted (fun _ _ _ held => held.globals _) (fun _ fact _ held => held.insert fact)
    (fun _ _ _ _ held deleted => held.delete deleted) fun _ _ held live out => absurd out (held.founded.known live)

theorem PendingShaped.step (admitted : PendingShaped program excused e) {fired : Option Activation} (stepped : e.step = some (fired,next)) :
    PendingShaped program excused next := by
  obtain ⟨_,a,agenda,popped,went⟩ := step_inv stepped
  have fewer : ∀ b ∈ agenda.values, e.Shaped b ∨ excused b := fun b later =>
    admitted.shaped b (pending_pop popped ▸ List.mem_cons_of_mem _ later)
  have founded : Founded (e.taken a agenda) := ⟨admitted.founded.indexed,admitted.founded.handles,admitted.founded.below⟩
  rcases went with rfl | ⟨rule,facts,_,rfl⟩
  · exact ⟨admitted.program,founded,fewer⟩
  · have recorded : PendingShaped program excused ((e.taken a agenda).recorded a) :=
      ⟨admitted.program,⟨founded.indexed,founded.handles,founded.below⟩,fewer⟩
    exact recorded.apply _

theorem PendingShaped.ask (admitted : PendingShaped program excused e) (demand : Demand) : PendingShaped program excused (e.ask demand).2 :=
  ask_induct demand admitted admitted.insert (fun _ _ _ _ done => admitted.update done) (fun _ _ _ done => admitted.delete done)
    (fun _ live out => absurd out (admitted.founded.known live))
    (fun limit => fire_induct (fun _ _ _ held stepped => held.step stepped) limit e admitted) fun _ => admitted.globals _

end Keeping

-- An engine that goes on, by demands or by single steps of the firing, and no
-- number runs over.
inductive Onward (e : Engine) : Engine → Prop where
  | here : Onward e e
  | asked {next : Engine} (before : Onward e next) (demand : Demand) (narrow : (next.ask demand).2.Narrow) :
      Onward e (next.ask demand).2
  | stepped {next after : Engine} {fired : Option Activation} (before : Onward e next)
      (stepped : next.step = some (fired,after)) (narrow : after.Narrow) : Onward e after

theorem PendingShaped.onward (admitted : PendingShaped program excused e) (onward : Onward e next) : PendingShaped program excused next := by
  induction onward with
  | here => exact admitted
  | asked _ demand _ ih => exact ih.ask demand
  | stepped _ stepped _ ih => exact ih.step stepped

theorem step_acts (stepped : e.step = some (some a,next)) : ∃ sequence agenda rule,
    e.network.agenda.pop? = some ((sequence,a),agenda) ∧ e.program.rule? a.rule = some rule ∧
      next = ((e.taken a agenda).recorded a).apply (rule.action (e.matched (a.tuple.map Identity.handle))) := by
  obtain ⟨_,stops⟩ | ⟨sequence,b,agenda,popped,⟨_,went⟩ | ⟨rule,facts,ready,went⟩⟩ := step_head e
  · cases stops.symm.trans stepped
  · cases went.symm.trans stepped
  · cases went.symm.trans stepped
    simp only [Engine.ready,Option.ite_none_right_eq_some,Option.bind_eq_some_iff,Option.some.injEq,Prod.mk.injEq] at ready
    obtain ⟨_,other,known,_,rfl,rfl⟩ := ready
    exact ⟨sequence,agenda,other,popped,known,rfl⟩

section Adopting

-- All that stores and a network are checked for, each entry on its own.
structure Acceptable (program : Program) (stores : Stores) (network : Network) : Prop where
  range : ∀ handle, (stores.facts.get? handle).isSome = true → 0 < handle ∧ handle < stores.nextHandle
  memories : ∀ kind handle, handle ∈ memory network.alpha kind ↔
    ∃ stored, stores.facts.get? handle = some stored ∧ stored.fact.kind = kind
  agenda : ∀ sequence a, network.agenda.get? sequence = some a → sequence < network.nextSequence ∧
    (program.rule? a.rule).isSome = true ∧
    (∀ i ∈ a.tuple, (stores.facts.get? i.handle).map StoredFact.version = some i.version) ∧ stores.fired.contains a = false

theorem stored_kind {kind : String} (holds : Holds e stores) :
    (∃ fact, e.facts.get? handle = some fact ∧ fact.kind = kind) ↔
      ∃ stored, stores.facts.get? handle = some stored ∧ stored.fact.kind = kind := by
  simp [holds.facts]

theorem stored_live (holds : Holds e stores) : e.roster.isLive handle = (stores.facts.get? handle).isSome := by
  simp [← holds.handles,holds.facts]

theorem adopt_iff : (∃ e, adopt program stores network = .ok e) ↔ Acceptable program stores network := by
  constructor
  · intro accepted
    obtain ⟨e,adopted⟩ := accepted
    obtain ⟨holds,rfl,rfl,checked,_,range⟩ := adopt_ok adopted
    refine ⟨fun handle stored => range handle ((stored_live holds).trans stored),fun kind handle => ?_,
      fun sequence a found => ?_⟩
    · rw [checked.indexed]
      exact stored_kind holds
    · obtain ⟨early,known,current,unfired⟩ := checked.agenda sequence a found
      rw [holds.roster] at current unfired
      refine ⟨early,known,fun i member => ?_,unfired⟩
      rw [← versions_get?]
      exact isCurrent_iff.mp current i member
  · intro acceptable
    obtain ⟨range,memories,agenda⟩ := acceptable
    have none : stores.versions.keys.find? (fun handle => !Roster.allocated stores.nextHandle handle) = none := by
      rw [List.find?_eq_none]
      intro handle present
      have live := Map.mem_keys.mp present
      rw [Map.contains_eq,versions_get?,Option.isSome_map] at live
      simp [Roster.allocated_iff.mpr (range handle live)]
    have restored : stores.roster = .ok ⟨stores.nextHandle,stores.versions,stores.fired⟩ := by
      rw [Stores.roster,Roster.restore,none]
    have facts (handle : Handle) : (stores.facts.mapValues fun _ stored => stored.fact).get? handle =
        (stores.facts.get? handle).map StoredFact.fact := Map.get?_mapValues _ _ _
    have own : alphaFault (stores.facts.mapValues fun _ stored => stored.fact) network.alpha = Option.none := by
      refine alphaFault_none.mpr fun kind handle present => ?_
      obtain ⟨stored,known,same⟩ := (memories kind handle).mp present
      exact ⟨stored.fact,by rw [facts,known]; rfl,same⟩
    have listed : factFault (stores.facts.mapValues fun _ stored => stored.fact) network.alpha = Option.none := by
      refine factFault_none.mpr fun handle fact known => ?_
      rw [facts] at known
      obtain ⟨stored,held,rfl⟩ := Option.map_eq_some_iff.mp known
      exact (memories _ handle).mpr ⟨stored,held,rfl⟩
    have good : agendaFault program ⟨stores.nextHandle,stores.versions,stores.fired⟩ network = Option.none := by
      refine agendaFault_none.mpr fun sequence a found => ?_
      obtain ⟨early,known,current,unfired⟩ := agenda sequence a found
      exact ⟨early,known,isCurrent_iff.mpr fun i member => (versions_get? _ _).trans (current i member),unfired⟩
    unfold adopt
    rw [restored]
    simp only [own,listed,good]
    exact ⟨_,rfl⟩

-- Every memory has the live handles of its kind, nothing is pending twice, and
-- what is pending is an activation that the matcher could have scheduled, up to
-- the condition of its rule.
structure Authentic (e : Engine) : Prop where
  memories : ∀ kind handle, handle ∈ memory e.network.alpha kind ↔
    e.roster.isLive handle = true ∧ ∃ fact, e.facts.get? handle = some fact ∧ fact.kind = kind
  once : ∀ one two a, e.network.agenda.get? one = some a → e.network.agenda.get? two = some a → one = two
  genuine : ∀ a ∈ e.pending, e.Genuine a
  shaped : ∀ a ∈ e.pending, e.Shaped a

-- What is adopted is what was checked, and two things are not: whether an
-- activation stands twice on the agenda and whether its tuple is of the right
-- shape. A later step only hands an action facts that do not match its rule for
-- an activation that came in so.
theorem adopted_authentic_iff (program : Program) (stores : Stores) (network : Network) :
    ((∃ e, adopt program stores network = .ok e) ↔ Acceptable program stores network) ∧
      ∀ e, adopt program stores network = .ok e →
        (Authentic e ↔
          (∀ one two a, network.agenda.get? one = some a → network.agenda.get? two = some a → one = two) ∧
            ∀ a ∈ network.agenda.values, e.Shaped a) ∧
        ∀ next, Onward e next → ∀ a after, next.step = some (some a,after) → after.Narrow → ∃ sequence agenda rule,
          next.network.agenda.pop? = some ((sequence,a),agenda) ∧ program.rule? a.rule = some rule ∧
            after = ((next.taken a agenda).recorded a).apply (rule.action (next.matched (a.tuple.map Identity.handle))) ∧
            (Matches rule (next.matched (a.tuple.map Identity.handle)) ∨ a ∈ network.agenda.values ∧ ¬ e.Shaped a) := by
  refine ⟨adopt_iff,fun e adopted => ?_⟩
  have enduring := Enduring.adopted adopted
  obtain ⟨holds,_,rfl,checked,_,_⟩ := adopt_ok adopted
  refine ⟨⟨fun authentic => ⟨authentic.once,authentic.shaped⟩,fun held => ⟨fun kind handle => ?_,held.1,fun a present => ?_,held.2⟩⟩,
    fun next onward a after stepped _ => ?_⟩
  · rw [checked.indexed,← holds.handles]
    exact ⟨fun found => ⟨Option.isSome_iff_exists.mpr (found.imp fun _ => And.left),found⟩,And.right⟩
  · obtain ⟨sequence,found⟩ := Map.mem_values.mp present
    obtain ⟨_,known,current,unfired⟩ := checked.agenda sequence a found
    have versions := isCurrent_iff.mp current
    refine ⟨known,versions,fun i member => ?_,unfired⟩
    rw [holds.handles,Roster.isLive_eq,versions i member]
    rfl
  · have start : PendingShaped program (fun a => a ∈ e.pending ∧ ¬ e.Shaped a) e :=
      ⟨enduring.program,enduring.founded,fun a present => (em (e.Shaped a)).imp_right fun other => ⟨present,other⟩⟩
    have admitted := start.onward onward
    obtain ⟨sequence,agenda,rule,popped,known,went⟩ := step_acts stepped
    refine ⟨sequence,agenda,rule,popped,admitted.program ▸ known,went,?_⟩
    exact (admitted.shaped a (pending_pop popped ▸ List.mem_cons_self)).imp_left fun shaped => shaped.matches known

end Adopting

-- The rule took one item before it was edited to take two.
def taking : Program := Program.empty.add { name := "pair", patterns := ["Item"] }
def lone : Engine := ((new taking).insert item).2
def edited : Engine := { lone with program := pairing }

theorem edited_authentic :
    (adopt taking lone.stores lone.network = .ok lone ∧ Authentic lone) ∧
      adopt pairing lone.stores lone.network = .ok edited ∧ ¬ Authentic edited ∧
      ∃ after rule, edited.step = some (some ⟨"pair",[⟨1,0⟩]⟩,after) ∧ pairing.rule? "pair" = some rule ∧
        ¬ Matches rule (edited.matched [1]) ∧ ⟨"pair",[⟨1,0⟩]⟩ ∈ lone.network.agenda.values ∧ ¬ edited.Shaped ⟨"pair",[⟨1,0⟩]⟩ := by
  have kept : adopt taking lone.stores lone.network = .ok lone := rfl
  have taken : adopt pairing lone.stores lone.network = .ok edited := rfl
  obtain ⟨_,plain⟩ := adopted_authentic_iff taking lone.stores lone.network
  obtain ⟨_,strange⟩ := adopted_authentic_iff pairing lone.stores lone.network
  have misfit : ¬ edited.Shaped ⟨"pair",[⟨1,0⟩]⟩ := by decide
  have only : lone.network.agenda.rows = [(0,⟨"pair",[⟨1,0⟩]⟩)] := by decide
  refine ⟨⟨kept,(plain lone kept).1.mpr ⟨fun one two a first second => ?_,by decide⟩⟩,taken,fun authentic => ?_,?_⟩
  · have first := Map.get?_eq_some_iff.mp first
    have second := Map.get?_eq_some_iff.mp second
    simp only [only,List.mem_singleton,Prod.mk.injEq] at first second
    rw [first.1,second.1]
  · exact misfit (((strange edited taken).1.mp authentic).2 _ (by decide))
  · have stepped : edited.step = some (some ⟨"pair",[⟨1,0⟩]⟩,_) := rfl
    obtain ⟨_,_,rule,_,known,_⟩ := (strange edited taken).2 edited .here _ _ stepped (by decide)
    refine ⟨_,rule,stepped,known,fun fits => ?_,by decide,misfit⟩
    have patterns : (pairing.rule? "pair").map Rule.patterns = some ["Item","Item"] := by decide
    have handed : (edited.matched [1]).map (·.2.kind) = ["Item"] := by decide
    have asks : rule.patterns = ["Item","Item"] := by simpa [known] using patterns
    cases handed.symm.trans (fits.1.trans asks)

end DurableRules.Engine
