import DurableRules.Proofs.Engine.Adoption

namespace DurableRules

def Program.addAll (program : Program) (rules : List Rule) : Program := rules.foldl Program.add program

-- A program that these rules have made, one after the other: their names in the order
-- in which they first come up, with the last rule of each name. Rules are found under
-- their names where they stand in the order, and nothing is found under another name.
structure Program.Merges (rules : List Rule) (program : Program) : Prop where
  distinct : program.names.Nodup
  names : program.names = (rules.map Rule.name).eraseDups
  last : ∀ name, program.rule? name = (rules.filter (·.name == name)).getLast?
  place : ∀ (index : Nat) name, program.names[index]? = some name → program.rule? name = program.rules[index]?
  other : ∀ name, name ∉ program.names → program.rule? name = none

section Merging
variable {rule : Rule} {rules : List Rule} {program : Program} {name : String}

theorem eraseDups_concat (names : List String) (name : String) : (names ++ [name]).eraseDups =
    if name ∈ names then names.eraseDups else names.eraseDups ++ [name] := by
  rw [List.eraseDups_append]
  split
  · next known =>
    have nothing : [name].removeAll names = [] := by simp [List.removeAll,known]
    simp [nothing]
  · next new =>
    have itself : [name].removeAll names = [name] := by simp [List.removeAll,new]
    rw [itself]
    rfl

theorem find?_addRule (rule : Rule) (rules : List Rule) (name : String) : (addRule rule rules).find? (·.name == name) =
    if rule.name = name then some rule else rules.find? (·.name == name) := by
  induction rules with
  | nil =>
    by_cases same : rule.name = name <;> simp [addRule,same]
  | cons head rest ih =>
    unfold addRule
    split
    · next replaced =>
      by_cases same : rule.name = name <;> simp [replaced,same]
    · next apart =>
      by_cases first : head.name = name
      · have other : rule.name ≠ name := fun same => apart (first.trans same.symm)
        simp [first,other]
      · simp [first,ih]

theorem Program.rule?_add (program : Program) (rule : Rule) (name : String) :
    (program.add rule).rule? name = if rule.name = name then some rule else program.rule? name :=
  find?_addRule rule program.rules name

theorem Program.names_add (program : Program) (rule : Rule) : (program.add rule).names =
    if rule.name ∈ program.names then program.names else program.names ++ [rule.name] :=
  addRule_names rule program.rules

theorem Program.Merges.of_names (names : program.names = (rules.map Rule.name).eraseDups)
    (last : ∀ name, program.rule? name = (rules.filter (·.name == name)).getLast?) : program.Merges rules := by
  refine ⟨program.distinct,names,last,fun index name named => ?_,fun name absent => ?_⟩
  · obtain ⟨here,stands,rfl⟩ : ∃ here, program.rules[index]? = some here ∧ here.name = name := by
      simpa [Program.names] using named
    rw [stands,Engine.rule?_of_mem (List.mem_of_getElem? stands)]
  · rw [Program.rule?,List.find?_eq_none]
    rintro rule known found
    exact absent (List.mem_map.mpr ⟨rule,known,by simpa using found⟩)

theorem Program.Merges.add (merges : program.Merges rules) (rule : Rule) : (program.add rule).Merges (rules ++ [rule]) := by
  refine .of_names ?_ fun name => ?_
  · rw [Program.names_add,merges.names,List.map_append,List.map_singleton,eraseDups_concat]
    simp only [List.mem_eraseDups]
  · rw [Program.rule?_add,merges.last,List.filter_append,List.getLast?_append]
    by_cases same : rule.name = name <;> simp [same]

theorem Program.merges_empty : Program.empty.Merges [] := .of_names rfl fun _ => rfl

theorem Program.Merges.addAll (merges : program.Merges rules) (more : List Rule) :
    (program.addAll more).Merges (rules ++ more) := by
  induction more generalizing program rules with
  | nil => rwa [List.append_nil]
  | cons rule rest ih =>
    rw [List.append_cons]
    exact ih (merges.add rule)

end Merging

namespace Engine
variable {program : Program} {log : List (Rule × Activation)} {e next : Engine}
  {handle : Handle} {fact : Fact} {a b : Activation}

-- An engine and what was ever put on its agenda, with the rule that it was put there
-- for, the last one first. A candidate of the program's rules is considered and joins
-- the agenda. By nothing else does the agenda get more than it had.
inductive Logged (program : Program) : List (Rule × Activation) → Engine → Prop
  | starts {e : Engine} (same : e.program = program) (idle : e.pending = []) : Logged program [] e
  | schedules {log : List (Rule × Activation)} {e : Engine} {kind : String} {handle : Handle} {rule : Rule}
      {handles : List Handle} {a : Activation} (before : Logged program log e)
      (offered : (rule,handles) ∈ candidates e.program.rules e.network.alpha kind handle)
      (joins : e.consider (rule,handles) = e.enqueue a) : Logged program ((rule,a) :: log) (e.consider (rule,handles))
  | changes {log : List (Rule × Activation)} {e next : Engine} (before : Logged program log e)
      (same : next.program = e.program) (fewer : ∀ a ∈ next.pending, a ∈ e.pending) : Logged program log next

theorem enqueue_inj (same : e.enqueue a = e.enqueue b) : a = b := by
  have last (a : Activation) : (e.enqueue a).network.agenda.get? e.network.nextSequence = some a := Map.get?_put_self _ _ _
  have found := last a
  rw [same,last b] at found
  exact (Option.some.inj found).symm

theorem enqueue_ne (e : Engine) (a : Activation) : e.enqueue a ≠ e := fun same =>
  Nat.succ_ne_self e.network.nextSequence (congrArg (fun e : Engine => e.network.nextSequence) same)

theorem consider_cases (e : Engine) (candidate : Rule × List Handle) : e.consider candidate = e ∨
    ∃ a, a.rule = candidate.1.name ∧ e.consider candidate = e.enqueue a := by
  unfold consider
  split
  · exact .inl rfl
  · next a found =>
    refine .inr ⟨a,?_,rfl⟩
    unfold due at found
    split at found
    · cases found
    · dsimp only at found
      split at found
      · cases found
      · split at found
        · cases found
          rfl
        · cases found

theorem Logged.kept (logged : Logged program log e) : e.program = program ∧
    (∀ a ∈ e.pending, ∃ rule, (rule,a) ∈ log) ∧ ∀ rule a, (rule,a) ∈ log → rule ∈ program.rules ∧ rule.name = a.rule := by
  induction logged with
  | starts same idle => exact ⟨same,by simp [idle],fun _ _ none => nomatch none⟩
  | @schedules log e kind handle rule handles a _ offered joins ih =>
    obtain ⟨same,listed,genuine⟩ := ih
    have named : a.rule = rule.name := by
      obtain stays | ⟨b,named,joined⟩ := consider_cases e (rule,handles)
      · exact absurd (joins.symm.trans stays) (enqueue_ne e a)
      · exact enqueue_inj (joins.symm.trans joined) ▸ named
    rw [joins]
    refine ⟨same,fun b present => ?_,fun other b inside => ?_⟩
    · rcases mem_enqueue present with before | rfl
      · obtain ⟨other,inside⟩ := listed b before
        exact ⟨other,List.mem_cons_of_mem _ inside⟩
      · exact ⟨rule,List.mem_cons_self⟩
    · rcases List.mem_cons.mp inside with first | later
      · cases first
        exact ⟨same ▸ (mem_offered.mp offered).1,named.symm⟩
      · exact genuine other b later
  | changes _ same fewer ih => exact ⟨same.trans ih.1,fun a present => ih.2.1 a (fewer a present),ih.2.2⟩

def Traced (program : Program) (e : Engine) : Prop := ∃ log, Logged program log e

section Tracing

theorem Traced.changes (traced : Traced program e) (same : next.program = e.program)
    (fewer : ∀ a ∈ next.pending, a ∈ e.pending) : Traced program next :=
  traced.imp fun _ logged => .changes logged same fewer

theorem Traced.consider (traced : Traced program e) {kind : String} {candidate : Rule × List Handle}
    (offered : candidate ∈ candidates e.program.rules e.network.alpha kind handle) : Traced program (e.consider candidate) := by
  obtain ⟨log,logged⟩ := traced
  obtain stays | ⟨a,_,joins⟩ := consider_cases e candidate
  · exact ⟨log,stays.symm ▸ logged⟩
  · exact ⟨_,.schedules logged offered joins⟩

theorem Traced.propagate (traced : Traced program e) (handle : Handle) : Traced program (e.propagate handle) := by
  unfold Engine.propagate
  split
  · exact traced
  · refine (List.foldlRecOn (motive := fun next => Traced program next ∧ next.program = e.program ∧
      next.network.alpha = e.network.alpha) _ Engine.consider ⟨traced,rfl,rfl⟩ fun next held candidate offered => ?_).1
    obtain ⟨traced,same,alpha⟩ := held
    refine ⟨traced.consider (same ▸ alpha ▸ offered),?_⟩
    obtain stays | ⟨a,_,joins⟩ := consider_cases next candidate
    · rw [stays]
      exact ⟨same,alpha⟩
    · rw [joins]
      exact ⟨same,alpha⟩

theorem Traced.enter (traced : Traced program e) (handle : Handle) (fact : Fact) : Traced program (e.enter handle fact) :=
  Traced.propagate (e := e.attach handle fact) (traced.changes rfl fun _ => id) handle

theorem Traced.withdraw (traced : Traced program e) (handle : Handle) : Traced program (e.withdraw handle) :=
  traced.changes (withdraw_program e handle) fun _ present => (mem_withdraw_pending.mp present).1

theorem Traced.insert (traced : Traced program e) (fact : Fact) : Traced program (e.insert fact).2 := by
  rw [insert_eq]
  have allocated : Traced program { e with roster := e.roster.allocate.2 } := traced.changes rfl fun _ => id
  exact allocated.enter _ fact

theorem Traced.update (traced : Traced program e) (updated : e.update handle fact = .ok next) : Traced program next := by
  obtain ⟨_,rfl⟩ := update_ok updated
  have bumped : Traced program { e.withdraw handle with roster := ((e.withdraw handle).roster.bump handle).2 } :=
    (traced.withdraw handle).changes rfl fun _ => id
  exact bumped.enter handle fact

theorem Traced.delete (traced : Traced program e) (deleted : e.delete handle = .ok (fact,next)) : Traced program next := by
  obtain ⟨_,_,rfl⟩ := delete_ok deleted
  exact (traced.withdraw handle).changes rfl fun _ => id

theorem Traced.globals (traced : Traced program e) (globals : Globals) : Traced program { e with globals } :=
  traced.changes rfl fun _ => id

theorem Traced.step (traced : Traced program e) {fired : Option Activation} (stepped : e.step = some (fired,next)) :
    Traced program next := by
  obtain ⟨sequence,a,agenda,popped,went⟩ := step_inv stepped
  have taken : Traced program (e.taken a agenda) :=
    traced.changes rfl fun _ present => pending_pop popped ▸ List.mem_cons_of_mem a present
  obtain rfl | ⟨rule,facts,_,rfl⟩ := went
  · exact taken
  · have recorded : Traced program ((e.taken a agenda).recorded a) := taken.changes rfl fun _ => id
    exact apply_induct _ recorded (fun _ _ _ held => held.globals _) (fun _ fact _ held => held.insert fact)
      (fun _ _ _ _ held deleted => held.delete deleted) fun _ handle held _ _ => held.withdraw handle

theorem Traced.rebuilt {stores : Stores} (accepted : rebuild program stores = .ok e) : Traced program e := by
  unfold rebuild at accepted
  split at accepted
  · cases accepted
  · cases accepted
    exact List.foldlRecOn _ replay ⟨[],.starts rfl rfl⟩ fun _ held row _ => held.enter row.1 row.2.fact

theorem Reachable.traced (reached : Reachable program e) : Traced program e := by
  induction reached with
  | new => exact ⟨[],.starts rfl rfl⟩
  | rebuilt accepted => exact .rebuilt accepted
  | adopted before accepted ih =>
    obtain ⟨rfl,coherent,_⟩ := before.kept
    cases adopt_self coherent accepted
    exact ih
  | inserted _ fact ih => exact ih.insert fact
  | updated _ done ih => exact ih.update done
  | deleted _ done ih => exact ih.delete done
  | fired _ limit ih => exact fire_induct (fun _ _ _ held stepped => held.step stepped) limit _ ih
  | cleared _ _ ih => exact ih.globals _

end Tracing

theorem Logged.fires (logged : Logged program log e) (stepped : e.step = some (some a,next)) : ∃ sequence agenda rule,
    e.network.agenda.pop? = some ((sequence,a),agenda) ∧
      next = ((e.taken a agenda).recorded a).apply (rule.action (e.matched (a.tuple.map Identity.handle))) ∧
      (rule,a) ∈ log ∧ ∀ other, (other,a) ∈ log → other = rule := by
  obtain ⟨rfl,listed,genuine⟩ := logged.kept
  obtain ⟨sequence,agenda,rule,popped,known,went⟩ := step_acts stepped
  have found (other : Rule) (inside : (other,a) ∈ log) : other = rule := by
    obtain ⟨member,named⟩ := genuine other a inside
    exact Option.some.inj ((rule?_of_mem member).symm.trans (named ▸ known))
  obtain ⟨other,inside⟩ := listed a (pending_pop popped ▸ List.mem_cons_self)
  exact ⟨sequence,agenda,rule,popped,went,found other inside ▸ inside,found⟩

-- The order of the rules and the look-up by name agree in every program that is made
-- rule by rule. So in every engine what fires was put on the agenda before, and the rule
-- whose action is carried out is the rule that put it there.
theorem program_agrees (rules more : List Rule) (program : Program) :
    ((Program.ofRules rules).addAll more).Merges (rules ++ more) ∧
      (∀ e, Reachable program e → ∃ log, Logged program log e) ∧
      ∀ log e a next, Logged program log e → e.step = some (some a,next) → ∃ sequence agenda rule,
        e.network.agenda.pop? = some ((sequence,a),agenda) ∧
          next = ((e.taken a agenda).recorded a).apply (rule.action (e.matched (a.tuple.map Identity.handle))) ∧
          (rule,a) ∈ log ∧ ∀ other, (other,a) ∈ log → other = rule :=
  ⟨(Program.merges_empty.addAll rules).addAll more,fun _ => Reachable.traced,fun _ _ _ _ => Logged.fires⟩

-- The rule that counts is drafted twice. It stays in the first place and takes items.
def drafts : List Rule :=
  [{ name := "count", patterns := ["Box"] }, { name := "pair", patterns := ["Item","Item"] },
    { name := "count", patterns := ["Item"], action := fun _ => Effects.none.push "counted" (.bool true) }]

def counting : Engine := ((new (Program.ofRules drafts)).insert item).2

theorem drafts_agree : (Program.ofRules drafts).names = ["count","pair"] ∧
    ((Program.ofRules drafts).rule? "count").map Rule.patterns = some ["Item"] ∧
    Reachable (Program.ofRules drafts) counting ∧ ∃ log next rule, Logged (Program.ofRules drafts) log counting ∧
      counting.step = some (some ⟨"count",[⟨1,0⟩]⟩,next) ∧ (rule,⟨"count",[⟨1,0⟩]⟩) ∈ log ∧
      ∀ other, (other,⟨"count",[⟨1,0⟩]⟩) ∈ log → other = rule := by
  obtain ⟨merges,traced,fires⟩ := program_agrees drafts [] (Program.ofRules drafts)
  have reached : Reachable (Program.ofRules drafts) counting := Reachable.new.inserted item
  obtain ⟨log,logged⟩ := traced counting reached
  have stepped : counting.step = some (some ⟨"count",[⟨1,0⟩]⟩,_) := rfl
  obtain ⟨_,_,rule,_,_,inside,only⟩ := fires log counting _ _ logged stepped
  exact ⟨merges.names,congrArg (Option.map Rule.patterns) (merges.last "count"),reached,log,_,rule,logged,stepped,inside,only⟩

end Engine
end DurableRules
