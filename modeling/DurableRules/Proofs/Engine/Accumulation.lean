import DurableRules.Proofs.Engine.Replay
import DurableRules.Proofs.Engine.Stratification

namespace DurableRules

-- The actions of the program add to the results and ask for nothing else. Only
-- facts that the rule fits count, since an action is handed no others.
def Program.Accumulates (program : Program) : Prop := ∀ rule ∈ program.rules, ∀ facts,
  Engine.Matches rule facts → rule.condition facts = true →
    (rule.action facts).inserts = [] ∧ (rule.action facts).deletes = []

theorem Program.Accumulates.ranked {program : Program} (accumulates : program.Accumulates) :
    program.Ranked fun _ => 0 := by
  intro rule known facts handed holds fact inserted
  rw [(accumulates rule known facts handed holds).1] at inserted
  cases inserted

-- A list of results with more at its end. A name comes about with its first result.
def extended (values : Option (List Value)) (more : List Value) : Option (List Value) :=
  if more = [] then values else some (values.getD [] ++ more)

section Extended
variable (values : Option (List Value)) (one two : List Value)

theorem extended_append : extended values (one ++ two) = extended (extended values one) two := by
  unfold extended
  by_cases none : one = [] <;> by_cases nothing : two = [] <;> simp [none,nothing]

theorem extended_getD : (extended values one).getD [] = values.getD [] ++ one := by
  unfold extended
  split
  · next none => rw [none,List.append_nil]
  · rfl

theorem extended_isSome : (extended values one).isSome = (values.isSome || !one.isEmpty) := by
  unfold extended
  cases one <;> simp

end Extended

def under (name : String) (entries : List (String × Value)) : List Value :=
  (entries.filter fun entry => entry.1 == name).map Prod.snd

theorem under_append (name : String) (one two : List (String × Value)) :
    under name (one ++ two) = under name one ++ under name two := by
  rw [under,List.filter_append,List.map_append]
  rfl

namespace Engine
variable {e next last one two : Engine} {program : Program} {a : Activation} {x : Execution} {run : List Execution}

theorem pushGlobal_get? (e : Engine) (entry : String × Value) (name : String) :
    (e.pushGlobal entry).globals.get? name =
      extended (e.globals.get? name) (under name [entry]) := by
  change (e.globals.put entry.1 (e.global entry.1 ++ [entry.2])).get? name = _
  rw [Map.get?_put]
  by_cases same : name = entry.1
  · subst same
    simp [extended,under,Engine.global]
  · simp [extended,under,same,Ne.symm same]

theorem foldl_pushGlobal (e : Engine) (entries : List (String × Value)) :
    ∃ globals, entries.foldl pushGlobal e = { e with globals } ∧
      ∀ name, globals.get? name = extended (e.globals.get? name) (under name entries) := by
  induction entries generalizing e with
  | nil => exact ⟨e.globals,rfl,fun _ => rfl⟩
  | cons entry rest ih =>
    obtain ⟨globals,same,lists⟩ := ih (e.pushGlobal entry)
    refine ⟨globals,same,fun name => ?_⟩
    rw [lists,pushGlobal_get?,← extended_append,← under_append,List.singleton_append]

def gives (e : Engine) (name : String) (a : Activation) : List Value :=
  match e.program.rule? a.rule with
  | none => []
  | some rule => under name (rule.action (e.matched (a.tuple.map Identity.handle))).pushes

theorem gives_congr (program : one.program = two.program) (facts : one.facts = two.facts) : one.gives = two.gives := by
  funext name a
  unfold gives matched
  rw [program,facts]

-- What executions have come to that only add results: the markers and the
-- results are there, and nothing else has moved.
structure Accumulated (e : Engine) (fired : List Activation) (last : Engine) : Prop where
  program : last.program = e.program
  facts : last.facts = e.facts
  nextHandle : last.roster.nextHandle = e.roster.nextHandle
  versions : last.roster.versions = e.roster.versions
  pending : e.pending = fired ++ last.pending
  markers : ∀ a, last.roster.hasFired a = true ↔ a ∈ fired ∨ e.roster.hasFired a = true
  globals : ∀ name, last.globals.get? name = extended (e.globals.get? name) (fired.flatMap (e.gives name))

theorem Accumulated.refl (e : Engine) : Accumulated e [] e :=
  ⟨rfl,rfl,rfl,rfl,rfl,fun _ => (or_iff_right List.not_mem_nil).symm,fun _ => rfl⟩

theorem Accumulated.trans {before after : List Activation} (left : Accumulated e before next)
    (right : Accumulated next after last) : Accumulated e (before ++ after) last := by
  refine ⟨right.program.trans left.program,right.facts.trans left.facts,right.nextHandle.trans left.nextHandle,
    right.versions.trans left.versions,?_,fun a => ?_,fun name => ?_⟩
  · rw [left.pending,right.pending,List.append_assoc]
  · rw [right.markers,left.markers,List.mem_append]
    tauto
  · rw [right.globals,left.globals,gives_congr left.program left.facts,List.flatMap_append,extended_append]

theorem Executed.accumulated (accumulates : e.program.Accumulates) (one : e.Executed x next) :
    Accumulated e [x.activation] next := by
  obtain ⟨sequence,agenda,popped,rfl⟩ := one.ran
  obtain ⟨inserts,deletes⟩ := accumulates x.rule one.known x.facts one.fits.matches one.fits.condition
  have facts : e.matched (x.activation.tuple.map Identity.handle) = x.facts := one.fits.handles ▸ matched_eq one.fits.facts
  have found : e.program.rule? x.activation.rule = some x.rule := one.named ▸ rule?_of_mem one.known
  obtain ⟨globals,same,lists⟩ :=
    foldl_pushGlobal ((e.taken x.activation agenda).recorded x.activation) (x.rule.action x.facts).pushes
  have ends : ((e.taken x.activation agenda).recorded x.activation).apply (x.rule.action x.facts) =
      { (e.taken x.activation agenda).recorded x.activation with globals } := by
    unfold apply
    rw [inserts,deletes]
    exact same
  rw [ends]
  refine ⟨rfl,rfl,rfl,rfl,pending_pop popped,fun a => ?_,fun name => ?_⟩
  · exact hasFired_record.trans (or_congr_left List.mem_singleton.symm)
  · rw [List.flatMap_singleton,gives,found,facts]
    exact lists name

-- The program does not change on the way, so each execution only adds results.
theorem Executes.accumulated (executes : Executes e run last) (accumulates : e.program.Accumulates) :
    Accumulated e (run.map Execution.activation) last := by
  induction executes with
  | nil => exact .refl _
  | cons one _ ih =>
    have first := one.accumulated accumulates
    exact first.trans (ih (first.program ▸ accumulates))

-- Everything that is pending is executed, and no number is used on the way.
theorem accumulates_returns (accumulates : program.Accumulates) (reached : Reached program e) :
    ∃ last, (∀ b, e.ReturnsIn b e.pending.length last) ∧ Accumulated e e.pending last := by
  obtain ⟨before,within⟩ := reached.plain
  obtain ⟨run,last,executes,returns,empty⟩ := ranked_returns accumulates.ranked before
  have same := before.kept.1
  have whole := executes.accumulated (same.symm ▸ accumulates)
  have still : Unmoved e last := executes.unmoved
    (fun rule known facts handed holds => (accumulates rule known facts handed holds).1) same
  have all : e.pending = run.map Execution.activation := by
    have nothing : last.pending = [] := by rw [pending,empty]; rfl
    rw [whole.pending,nothing,List.append_nil]
  refine ⟨last,fun b => ?_,all ▸ whole⟩
  rw [all,List.length_map]
  exact returns.counted within (still.within within) b

theorem stores_alike (first : Reachable program one) (second : Reachable program two) (stores : one.stores = two.stores) :
    one.program = two.program ∧ one.facts = two.facts ∧ one.roster = two.roster ∧ one.globals = two.globals ∧
      one.pending.Perm two.pending := by
  obtain ⟨program,coherent,exact⟩ := first.kept
  obtain ⟨program',coherent',exact'⟩ := second.kept
  have same := program.trans program'.symm
  have facts : one.facts = two.facts := by rw [coherent.holds.facts,coherent'.holds.facts,stores]
  have roster : one.roster = two.roster := by rw [coherent.holds.roster,coherent'.holds.roster,stores]
  refine ⟨same,facts,roster,congrArg Stores.globals stores,?_⟩
  exact (List.perm_ext_iff_of_nodup coherent.orderly.once coherent'.orderly.once).mpr
    (exact.alike exact' same facts roster)

-- Where actions only add results the order of the agenda shows in the order of
-- the results and nowhere else.
theorem accumulates_unordered (accumulates : program.Accumulates) (first : Reached program one)
    (second : Reached program two) (stores : one.stores = two.stores) :
    one.pending.Perm two.pending ∧ ∃ count last other, (∀ b, one.ReturnsIn b count last ∧ two.ReturnsIn b count other) ∧
      last.facts = other.facts ∧ last.roster = other.roster ∧
      (∀ name, last.globals.contains name = other.globals.contains name) ∧
      ∀ name, (last.global name).Perm (other.global name) := by
  obtain ⟨same,facts,roster,globals,pending⟩ := stores_alike first.plain.1 second.plain.1 stores
  obtain ⟨last,returns,left⟩ := accumulates_returns accumulates first
  obtain ⟨other,also,right⟩ := accumulates_returns accumulates second
  have results (name : String) : (one.pending.flatMap (one.gives name)).Perm (two.pending.flatMap (two.gives name)) :=
    gives_congr same facts ▸ pending.flatMap_right _
  refine ⟨pending,_,last,other,fun b => ⟨returns b,pending.length_eq ▸ also b⟩,left.facts.trans (facts.trans right.facts.symm),?_,
    fun name => ?_,fun name => ?_⟩
  · have markers : last.roster.fired = other.roster.fired := by
      refine Members.ext_mem fun a => ?_
      rw [← Members.contains_iff_mem,← Members.contains_iff_mem]
      exact (left.markers a).trans ((or_congr pending.mem_iff (by rw [roster])).trans (right.markers a).symm)
    calc last.roster = ⟨last.roster.nextHandle,last.roster.versions,last.roster.fired⟩ := rfl
      _ = other.roster := by rw [left.nextHandle,left.versions,markers,roster,← right.nextHandle,← right.versions]
  · rw [Map.contains_eq,Map.contains_eq,left.globals,right.globals,extended_isSome,extended_isSome,globals,(results name).isEmpty_eq]
  · rw [Engine.global,Engine.global,left.globals,right.globals,extended_getD,extended_getD,globals]
    exact (results name).append_left _

def tallying : Program := Program.empty.add
  { name := "pair"
    patterns := ["Item","Item"]
    action := fun facts => (facts.take 1).foldl (fun effects row => effects.push "first" (.int (.ofNat row.1))) Effects.none }

def tallied : Engine := (askAll ask [.insert item,.insert item,.update 1 item] (new tallying)).2

theorem tallying_accumulates : tallying.Accumulates := by
  intro rule known facts _ _
  have only : rule ∈ tallying.rules ↔ rule = _ := List.mem_singleton
  cases only.mp known
  cases facts with
  | nil => exact ⟨rfl,rfl⟩
  | cons row rest => exact ⟨rfl,rfl⟩

-- A restart from the stores turns the agenda round, and the results with it.
theorem tallied_unordered : ∃ two, Reached tallying tallied ∧ rebuild tallying tallied.stores = .ok two ∧
    tallied.stores = two.stores ∧ tallying.Accumulates ∧ tallied.pending.Perm two.pending ∧
    ∃ count last other, (∀ b, tallied.ReturnsIn b count last ∧ two.ReturnsIn b count other) ∧
      last.facts = other.facts ∧ last.roster = other.roster ∧
      (∀ name, last.globals.contains name = other.globals.contains name) ∧
      ∀ name, (last.global name).Perm (other.global name) := by
  have inserted := ((Reached.new : Reached tallying (new tallying)).insert item ⟨by decide,by decide⟩).insert item ⟨by decide,by decide⟩
  have updated : (((new tallying).insert item).2.insert item).2.update 1 item = .ok tallied := rfl
  have reached : Reached tallying tallied := inserted.update updated ⟨by decide,by decide⟩ fun _ held => by cases held; decide
  obtain ⟨two,accepted⟩ : ∃ two, rebuildIn .checked tallying tallied.stores = some (.ok two) := ⟨_,rfl⟩
  have rebuilt := ((rebuildIn_tracks .checked tallying tallied.stores).went accepted).2
  have same := (rebuild_ok rebuilt).1.stores_eq.symm
  exact ⟨two,reached,rebuilt,same,tallying_accumulates,
    accumulates_unordered tallying_accumulates reached (.rebuilt (by decide) accepted) same⟩

example : (tallied.fire 2).2.global "first" = [.int 1,.int 2] ∧
    (rebuild tallying tallied.stores).toOption.map (fun e => (e.fire 2).2.global "first") = some [.int 2,.int 1] := by
  decide

-- A number that has run over tells them apart. The item is still pending where
-- a stray fact has its handle, and after a restart nothing is.
example : let live := (overrun .wrapping).map fun e => [0,wordLimit - 1].foldl deleteLive e
    let restarted := live.bind fun e => (rebuildIn .wrapping noticing e.stores).bind Except.toOption
    live.map stores = restarted.map stores ∧
      (live.bind fun e => (e.fireIn .wrapping 1).map (·.1.length)) = some 1 ∧
      (restarted.bind fun e => (e.fireIn .wrapping 1).map (·.1.length)) = some 0 := by
  decide

end Engine
end DurableRules
