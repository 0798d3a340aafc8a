import DurableRules.Proofs.Engine.Adoption
import DurableRules.Proofs.Engine.Counting

namespace DurableRules.Engine

structure Execution where
  activation : Activation
  rule : Rule
  facts : Match

-- What it takes and what it does. The rule fits the facts just before it is
-- executed, and the action is handed these facts and no others.
structure Executed (e : Engine) (x : Execution) (next : Engine) : Prop where
  known : x.rule ∈ e.program.rules
  named : x.rule.name = x.activation.rule
  fits : e.Fits x.rule x.activation.tuple x.facts
  unfired : e.roster.hasFired x.activation = false
  ran : ∃ sequence agenda, e.network.agenda.pop? = some ((sequence,x.activation),agenda) ∧
    next = ((e.taken x.activation agenda).recorded x.activation).apply (x.rule.action x.facts)

inductive Executes : Engine → List Execution → Engine → Prop
  | nil {e : Engine} : Executes e [] e
  | cons {e next last : Engine} {x : Execution} {run : List Execution} (one : e.Executed x next)
      (rest : Executes next run last) : Executes e (x :: run) last

-- Firing all rules comes to an end with this engine, and this is the count it returns.
def Returns (e : Engine) (count : Nat) (last : Engine) : Prop :=
  ∃ limit, (e.fire limit).1.length = count ∧ (e.fire limit).2 = last ∧ last.step = none

def ReturnsIn (b : Build) (e : Engine) (count : Nat) (last : Engine) : Prop :=
  ∃ limit run, e.fireIn b limit = some (run,last) ∧ run.length = count ∧ last.step = none

variable {e next last : Engine} {program : Program} {a : Activation} {run : List Execution} {count : Nat}

-- What is on the agenda fits now, so no step passes anything over.
theorem step_executed (exact : Exact e) (coherent : Coherent e) {fired : Option Activation}
    (stepped : e.step = some (fired,next)) : ∃ x, fired = some x.activation ∧ e.Executed x next := by
  obtain ⟨_,_,_,_,_,rfl,_⟩ := step_applies coherent stepped
  obtain ⟨sequence,agenda,rule,popped,found,went⟩ := step_acts stepped
  obtain ⟨satisfied,unfired⟩ := (exact _).mp (pending_pop popped ▸ List.mem_cons_self)
  obtain ⟨other,known,named,facts,fits⟩ := satisfied
  have same : other = rule := Option.some.inj ((rule?_of_mem known).symm.trans (named ▸ found))
  subst same
  have handed : e.matched (Activation.tuple _ |>.map Identity.handle) = facts := fits.handles ▸ matched_eq fits.facts
  rw [handed] at went
  exact ⟨⟨_,other,facts⟩,rfl,known,named,fits,unfired,sequence,agenda,popped,went⟩

theorem fire_executes (exact : Exact e) (coherent : Coherent e) (limit : Nat) :
    ∃ run, Executes e run (e.fire limit).2 ∧ run.map Execution.activation = (e.fire limit).1 := by
  induction limit generalizing e with
  | zero => exact ⟨[],.nil,rfl⟩
  | succ limit ih =>
    unfold fire
    split
    · exact ⟨[],.nil,rfl⟩
    · next fired next stepped =>
      obtain ⟨x,rfl,one⟩ := step_executed exact coherent stepped
      obtain ⟨run,rest,same⟩ := ih (exact.step coherent stepped) (coherent.step stepped)
      exact ⟨x :: run,.cons one rest,congrArg (x.activation :: ·) same⟩

theorem Executed.program_same {x : Execution} (one : e.Executed x next) : next.program = e.program := by
  obtain ⟨sequence,agenda,_,rfl⟩ := one.ran
  exact (apply_markers ((e.taken x.activation agenda).recorded x.activation) (x.rule.action x.facts)).program

theorem Executes.rules (executes : Executes e run last) :
    last.program = e.program ∧ ∀ x ∈ run, x.rule ∈ e.program.rules := by
  induction executes with
  | nil => exact ⟨rfl,fun _ present => nomatch present⟩
  | cons one _ ih =>
    have same := one.program_same
    refine ⟨ih.1.trans same,fun y present => ?_⟩
    rcases List.mem_cons.mp present with rfl | later
    · exact one.known
    · exact same ▸ ih.2 y later

theorem Executes.unmoved (quiet : ∀ rule ∈ program.rules, ∀ facts, Matches rule facts → rule.condition facts = true →
    (rule.action facts).inserts = []) (executes : Executes e run last) (same : e.program = program) : Unmoved e last := by
  induction executes with
  | nil => exact ⟨rfl,rfl⟩
  | @cons e next last x run one _ ih =>
    have first : Unmoved e next := by
      have inserts := quiet x.rule (same ▸ one.known) x.facts one.fits.matches one.fits.condition
      obtain ⟨sequence,agenda,_,rfl⟩ := one.ran
      have recorded : Unmoved e ((e.taken x.activation agenda).recorded x.activation) := ⟨rfl,rfl⟩
      unfold apply
      rw [inserts]
      exact (recorded.trans (pushes_unmoved _ _)).trans (deletes_unmoved _ _)
    exact first.trans (ih (one.program_same.trans same))

theorem ReturnsIn.plain (within : e.Within) (returns : e.ReturnsIn .checked count last) : e.Returns count last ∧ last.Within := by
  obtain ⟨limit,run,went,counted,stops⟩ := returns
  obtain ⟨fits,same⟩ := (fireIn_tracks .checked limit within).went went
  rw [same] at fits
  exact ⟨⟨limit,by rw [same]; exact counted,by rw [same],stops⟩,fits⟩

theorem Returns.counted (within : e.Within) (returns : e.Returns count last) (fits : last.Within) (b : Build) :
    e.ReturnsIn b count last := by
  obtain ⟨limit,counted,rfl,stops⟩ := returns
  exact ⟨limit,_,(fireIn_tracks b limit within).agrees fits,counted,stops⟩

theorem Returns.stopped (within : e.Within) (returns : e.Returns count last) (past : ¬ last.Within) :
    ∃ limit, e.fireIn .checked limit = none := by
  obtain ⟨limit,_,rfl,_⟩ := returns
  exact ⟨limit,(fireIn_tracks .checked limit within).stops rfl past⟩

theorem nothing_left (stops : e.step = none) : e.network.agenda = Map.empty := by
  obtain ⟨empty,_⟩ | ⟨_,_,_,_,⟨_,went⟩ | ⟨_,_,_,went⟩⟩ := step_head e
  · exact Map.ext (List.map_eq_nil_iff.mp empty)
  · cases stops.symm.trans went
  · cases stops.symm.trans went

-- Whatever is counted was executed, each of them once and with facts that its
-- rule fitted at that moment. In the end nothing is pending, and nothing that a
-- rule fits is left unfired. With checks that is so of every engine, and without
-- them as long as no number has run over.
theorem fired_exhaustively (reached : Reached program e) (returns : e.ReturnsIn .checked count last) :
    e.ReturnsIn .wrapping count last ∧ last.program = program ∧ ∃ run, Executes e run last ∧ run.length = count ∧
      (∀ x ∈ run, x.rule ∈ program.rules) ∧ (run.map Execution.activation).Nodup ∧ (∀ x ∈ run, e.roster.hasFired x.activation = false) ∧
      (∀ a, last.roster.hasFired a = true ↔ a ∈ run.map Execution.activation ∨ e.roster.hasFired a = true) ∧
      last.network.agenda = Map.empty ∧ last.queued = Map.empty ∧
      ∀ a, last.Satisfied a → last.roster.hasFired a = true := by
  obtain ⟨before,within⟩ := reached.plain
  obtain ⟨plain,fits⟩ := returns.plain within
  refine ⟨plain.counted within fits .wrapping,?_⟩
  obtain ⟨rfl,coherent,exact⟩ := before.kept
  obtain ⟨limit,counted,rfl,stops⟩ := plain
  obtain ⟨run,executes,same⟩ := fire_executes exact coherent limit
  obtain ⟨once,fresh,marked⟩ := fire_markers coherent limit
  have empty := nothing_left stops
  have nothing (a : Activation) : a ∉ (e.fire limit).2.pending := by
    rw [pending,empty]
    exact List.not_mem_nil
  refine ⟨executes.rules.1,run,executes,?_,executes.rules.2,same ▸ once,fun x present => ?_,same ▸ marked,empty,?_,
    fun a satisfied => ?_⟩
  · rw [← counted,← same,List.length_map]
  · exact fresh _ (same ▸ List.mem_map_of_mem present)
  · refine Members.ext_mem fun a => ?_
    rw [← Members.contains_iff_mem,(coherent.fire limit).orderly.queued]
    exact iff_of_false (nothing a) List.not_mem_nil
  · by_contra unfired
    exact nothing a (((exact.fire coherent limit) a).mpr ⟨satisfied,Bool.eq_false_iff.mpr unfired⟩)

theorem paired_reached : Reached pairing paired :=
  ((Reached.new.insert item ⟨by decide,by decide⟩).insert item ⟨by decide,by decide⟩).insert item ⟨by decide,by decide⟩

-- Two of three items make a pair, which takes the second of them and all that
-- is pending with it, and then the other two do.
theorem paired_exhaustively : paired.ReturnsIn .checked 2 (paired.fire 3).2 ∧
    ∃ run, Executes paired run (paired.fire 3).2 ∧ run.length = 2 ∧
      ∀ a, (paired.fire 3).2.Satisfied a → (paired.fire 3).2.roster.hasFired a = true := by
  have within := paired_reached.plain.2
  have plain : paired.Returns 2 (paired.fire 3).2 := ⟨3,by decide,rfl,step_empty (by decide)⟩
  have returns := plain.counted within ⟨by decide,by decide⟩ .checked
  obtain ⟨_,_,run,executes,counted,_,_,_,_,_,_,all⟩ := fired_exhaustively paired_reached returns
  exact ⟨returns,run,executes,counted,all⟩

def noticing : Program := Program.empty.add
  { name := "notice"
    patterns := ["Item"]
    action := fun facts => facts.foldl (fun effects row => effects.push "seen" (.text row.2.kind)) Effects.none }

def brimful : Stores := ⟨wordLimit - 1,Map.empty.put 1 ⟨0,item⟩,Map.empty,Map.empty⟩

def overrun (b : Build) : Option Engine := do
  let rebuilt ← rebuildIn b noticing brimful
  let e ← rebuilt.toOption
  let stray : Fact := ⟨"Stray",Map.empty⟩
  [stray,stray,stray].foldlM (fun e fact => (e.insertIn b fact).map Prod.snd) e

-- Without checks the third of them has the first handle again, and what is pending with the
-- item is executed with the stray fact.
example : overrun .checked = none ∧ (overrun .wrapping).map (fun e => (e.facts.keys,e.pending)) =
      some ([0,1,wordLimit - 1],[⟨"notice",[⟨1,0⟩]⟩]) ∧
    ((overrun .wrapping).bind fun e => (e.fireIn .wrapping 1).map fun fired => fired.2.global "seen") =
      some [.text "Stray"] := by
  refine ⟨?_,by decide,by decide⟩
  rfl

end DurableRules.Engine
