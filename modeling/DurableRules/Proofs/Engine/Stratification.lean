import DurableRules.Proofs.Engine.Execution
import DurableRules.Proofs.Engine.Order
import Mathlib.Data.List.MinMax
import Mathlib.Data.Multiset.DershowitzManna
import Mathlib.Order.Nat

namespace DurableRules

-- Kinds can be ranked so that what a rule inserts is of a higher rank than all
-- that it matches. Only facts that the rule fits count, since an action is
-- handed no others.
def Program.Ranked (program : Program) (rank : String → Nat) : Prop := ∀ rule ∈ program.rules, ∀ facts,
  Engine.Matches rule facts → rule.condition facts = true →
    ∀ fact ∈ (rule.action facts).inserts, ∀ pattern ∈ rule.patterns, rank pattern < rank fact.kind

def Program.Stratified (program : Program) : Prop := ∃ rank, program.Ranked rank

theorem Program.stratified_of_quiet {program : Program}
    (quiet : ∀ rule ∈ program.rules, ∀ facts, (rule.action facts).inserts = []) : program.Stratified := by
  refine ⟨fun _ => 0,fun rule known facts _ _ fact inserted => ?_⟩
  rw [quiet rule known facts] at inserted
  cases inserted

namespace Engine
variable {e next : Engine} {program : Program} {handle : Handle} {fact : Fact}

def Awaits (program : Program) (kind : String) (a : Activation) : Prop :=
  ∃ rule ∈ program.rules, rule.name = a.rule ∧ kind ∈ rule.patterns

theorem Satisfied.awaits {a : Activation} (satisfied : e.Satisfied a) (inside : a.involves handle = true)
    (known : e.facts.get? handle = some fact) : Awaits e.program fact.kind a := by
  obtain ⟨rule,present,named,found,fits⟩ := satisfied
  obtain ⟨other,member⟩ := fits.fact_of_handle (involves_iff.mp inside)
  cases Option.some.inj ((fits.facts _ member).symm.trans known)
  exact ⟨rule,present,named,fits.kinds ▸ List.mem_map_of_mem (f := fun row => row.2.kind) member⟩

-- What has become of the agenda: some of it is gone, and at the end stands what
-- waited for one of these facts.
def Grown (program : Program) (before : List Activation) (facts : List Fact) (after : List Activation) : Prop :=
  ∃ kept fresh, after = kept ++ fresh ∧ kept.Sublist before ∧ ∀ a ∈ fresh, ∃ fact ∈ facts, Awaits program fact.kind a

theorem insert_grown {before : List Activation} {facts : List Fact} (coherent : Coherent e) (asked : fact ∈ facts)
    (grown : Grown e.program before facts e.pending) : Grown e.program before facts (e.insert fact).2.pending := by
  obtain ⟨kept,fresh,all,fewer,awaiting⟩ := grown
  rw [insert_eq]
  dsimp only
  have aligned : Aligned { e with roster := e.roster.allocate.2 } := allocated_aligned coherent
  rw [enter_pending aligned coherent.next_out]
  refine ⟨kept,fresh ++ _,by rw [← List.append_assoc,← all]; rfl,fewer,fun a present => ?_⟩
  rcases List.mem_append.mp present with old | new
  · exact awaiting a old
  · have offered := (List.mem_filter.mp new).1
    have held : (e.facts.put e.roster.nextHandle fact).get? e.roster.nextHandle = some fact := Map.get?_put_self _ _ _
    obtain ⟨satisfied,inside⟩ := (mem_offers (attach_indexed aligned.indexed coherent.next_out fact) held).mp offered
    exact ⟨fact,asked,satisfied.awaits inside held⟩

theorem delete_grown {before : List Activation} {facts : List Fact} (deleted : e.delete handle = .ok (fact,next))
    (grown : Grown program before facts e.pending) : Grown program before facts next.pending := by
  obtain ⟨kept,fresh,all,fewer,awaiting⟩ := grown
  obtain ⟨_,_,rfl⟩ := delete_ok deleted
  have left : (e.withdraw handle).pending = kept.filter (!·.involves handle) ++ fresh.filter (!·.involves handle) := by
    rw [withdraw_pending,all,List.filter_append]
  exact ⟨_,_,left,List.filter_sublist.trans fewer,fun a present => awaiting a (List.mem_of_mem_filter present)⟩

theorem apply_grown (coherent : Coherent e) (effects : Effects) :
    Grown e.program e.pending effects.inserts (e.apply effects).pending := by
  refine (apply_induct (motive := fun next => (Coherent next ∧ next.program = e.program) ∧
    Grown e.program e.pending effects.inserts next.pending) effects ?_ ?_ ?_ ?_ ?_).2
  · exact ⟨⟨coherent,rfl⟩,e.pending,[],(List.append_nil _).symm,.refl _,fun _ none => nomatch none⟩
  · exact fun _ _ _ held => ⟨⟨held.1.1.globals _,held.1.2⟩,held.2⟩
  · intro next fact asked held
    obtain ⟨⟨coherent,same⟩,grown⟩ := held
    exact ⟨⟨coherent.insert fact,(insert_markers next fact).program.trans same⟩,
      same ▸ insert_grown coherent asked (same.symm ▸ grown)⟩
  · intro one handle fact next held deleted
    exact ⟨⟨held.1.1.delete deleted,(delete_markers deleted).program.trans held.1.2⟩,delete_grown deleted held.2⟩
  · exact fun _ _ held live out => absurd out (held.1.1.founded.known live)

end Engine

section Weights
variable {rank : String → Nat} {program : Program} {rule : Rule} {a b : Activation} {kind : String}

def Rule.height (rank : String → Nat) (rule : Rule) : Nat := (rule.patterns.map rank).foldr max ⊥

def Program.height (rank : String → Nat) (program : Program) (name : String) : Nat :=
  ((program.rule? name).map (Rule.height rank)).getD 0

def Program.ceiling (rank : String → Nat) (program : Program) : Nat :=
  (program.rules.map (Rule.height rank)).foldr max ⊥

-- The higher the rule stands, the less its activation weighs.
def Activation.weight (rank : String → Nat) (program : Program) (a : Activation) : Nat :=
  program.ceiling rank - program.height rank a.rule

theorem height_of_mem (known : rule ∈ program.rules) : program.height rank rule.name = rule.height rank := by
  rw [Program.height,Engine.rule?_of_mem known]
  rfl

theorem height_le_ceiling (known : rule ∈ program.rules) : rule.height rank ≤ program.ceiling rank :=
  List.le_max_of_le (List.mem_map_of_mem known) (Nat.le_refl _)

-- What waits for a kind above all patterns of a rule is lighter than what the rule scheduled.
theorem weight_lt (known : rule ∈ program.rules) (named : rule.name = a.rule) (patterned : rule.patterns ≠ [])
    (above : ∀ pattern ∈ rule.patterns, rank pattern < rank kind) (awaits : Engine.Awaits program kind b) :
    b.weight rank program < a.weight rank program := by
  obtain ⟨other,present,called,waiting⟩ := awaits
  obtain ⟨first,inside⟩ := List.exists_mem_of_ne_nil _ patterned
  have low : rule.height rank < rank kind := by
    refine Nat.lt_of_le_pred (Nat.zero_lt_of_lt (above first inside)) (List.max_le_of_forall_le _ _ fun value member => ?_)
    obtain ⟨pattern,listed,rfl⟩ := List.mem_map.mp member
    exact Nat.le_pred_of_lt (above pattern listed)
  have high : rank kind ≤ other.height rank := List.le_max_of_le (List.mem_map_of_mem waiting) (Nat.le_refl _)
  have most : other.height rank ≤ program.ceiling rank := height_le_ceiling present
  rw [Activation.weight,Activation.weight,← named,← called,height_of_mem known,height_of_mem present]
  omega

end Weights

namespace Engine
variable {e next : Engine} {program : Program} {x : Execution} {rank : String → Nat}

def burden (rank : String → Nat) (e : Engine) : Multiset Nat :=
  (e.pending.map (Activation.weight rank e.program) : List Nat)

-- The head is traded for any number of lighter ones, and of the rest some may go.
theorem traded_lt {α : Type} {weight : α → Nat} {head : α} {tail kept fresh : List α} (fewer : kept.Sublist tail)
    (lighter : ∀ a ∈ fresh, weight a < weight head) : Multiset.IsDershowitzMannaLT
      (((kept ++ fresh).map weight : List Nat) : Multiset Nat) (((head :: tail).map weight : List Nat) : Multiset Nat) := by
  obtain ⟨gone,whole⟩ := Multiset.le_iff_exists_add.mp (Multiset.coe_le.mpr fewer.subperm)
  refine ⟨kept.map weight,fresh.map weight,weight head ::ₘ gone.map weight,Multiset.cons_ne_zero,?_,?_,?_⟩
  · rw [List.map_append,Multiset.coe_add]
  · rw [← Multiset.map_coe,← Multiset.cons_coe,Multiset.map_cons,whole,Multiset.map_add,Multiset.add_cons]
    rfl
  · intro value present
    obtain ⟨a,member,rfl⟩ := List.mem_map.mp present
    exact ⟨_,Multiset.mem_cons_self _ _,lighter a member⟩

theorem Executed.lighter (ranked : e.program.Ranked rank) (coherent : Coherent e) (one : e.Executed x next) :
    Multiset.IsDershowitzMannaLT (burden rank next) (burden rank e) := by
  have same := one.program_same
  obtain ⟨_,agenda,popped,rfl⟩ := one.ran
  obtain ⟨kept,fresh,all,fewer,awaiting⟩ := apply_grown (recorded_coherent coherent popped) (x.rule.action x.facts)
  rw [burden,burden,same,all,pending_pop popped]
  refine traded_lt fewer fun a member => ?_
  obtain ⟨fact,inserted,awaits⟩ := awaiting a member
  refine weight_lt one.known one.named one.fits.patterned ?_ awaits
  exact ranked x.rule one.known x.facts one.fits.matches one.fits.condition fact inserted

-- The agenda may grow with every firing, but its burden falls.
theorem ranked_halts (ranked : program.Ranked rank) (e : Engine) :
    e.program = program → Coherent e → Exact e → ∃ limit, (e.fire limit).2.step = none := by
  have founded : WellFounded fun one two => Multiset.IsDershowitzMannaLT (burden rank one) (burden rank two) :=
    InvImage.wf (burden rank) Multiset.wellFounded_isDershowitzMannaLT
  induction e using founded.induction with
  | _ e ih =>
    intro same coherent exact
    cases stepped : e.step with
    | none => exact ⟨0,stepped⟩
    | some result =>
      obtain ⟨fired,next⟩ := result
      obtain ⟨x,_,one⟩ := step_executed exact coherent stepped
      have lighter := one.lighter (same.symm ▸ ranked) coherent
      have kept := one.program_same.trans same
      obtain ⟨limit,stops⟩ := ih next lighter kept (coherent.step stepped) (exact.step coherent stepped)
      refine ⟨limit + 1,?_⟩
      rw [fire,stepped]
      exact stops

theorem ranked_returns (ranked : program.Ranked rank) (reached : Reachable program e) :
    ∃ run last, Executes e run last ∧ e.Returns run.length last ∧ last.network.agenda = Map.empty := by
  obtain ⟨same,coherent,exact⟩ := reached.kept
  obtain ⟨limit,stops⟩ := ranked_halts ranked e same coherent exact
  obtain ⟨run,executes,activations⟩ := fire_executes exact coherent limit
  refine ⟨run,_,executes,⟨limit,?_,rfl,stops⟩,nothing_left stops⟩
  rw [← activations,List.length_map]

-- Firing comes to an end in a stratified program, whatever its actions push and
-- delete, unless what they insert uses up the numbers. A program that inserts
-- nothing is stratified, and uses none.
theorem stratified_returns (program : Program) :
    ((∀ rule ∈ program.rules, ∀ facts, (rule.action facts).inserts = []) → program.Stratified ∧
      ∀ e, Reached program e → ∃ count last, (∀ b, e.ReturnsIn b count last) ∧ last.network.agenda = Map.empty) ∧
    (program.Stratified → ∀ e, Reached program e → ∃ count last, e.Returns count last ∧ last.network.agenda = Map.empty ∧
      (last.Within → ∀ b, e.ReturnsIn b count last) ∧ (¬ last.Within → ∃ limit, e.fireIn .checked limit = none)) := by
  constructor
  · intro quiet
    have stratified := Program.stratified_of_quiet quiet
    refine ⟨stratified,fun e reached => ?_⟩
    obtain ⟨before,within⟩ := reached.plain
    obtain ⟨_,ranked⟩ := stratified
    obtain ⟨_,last,executes,returns,empty⟩ := ranked_returns ranked before
    have still : Unmoved e last :=
      executes.unmoved (fun rule known facts _ _ => quiet rule known facts) before.kept.1
    exact ⟨_,last,returns.counted within (still.within within),empty⟩
  · intro stratified e reached
    obtain ⟨before,within⟩ := reached.plain
    obtain ⟨_,ranked⟩ := stratified
    obtain ⟨_,last,_,returns,empty⟩ := ranked_returns ranked before
    exact ⟨_,last,returns,empty,returns.counted within,returns.stopped within⟩

def egg : Fact := ⟨"Egg",Map.empty⟩
def bird : Fact := ⟨"Bird",Map.empty⟩

def hatching : Program := (Program.empty.add
  { name := "hatch"
    patterns := ["Egg"]
    action := fun facts => facts.foldl (fun effects row => effects.delete row.1) (Effects.none.insert bird) }).add
  { name := "flock", patterns := ["Bird","Bird"] }

def nest : Engine := (((new hatching).insert egg).2.insert egg).2

theorem deletes_inserts (facts : Match) (effects : Effects) :
    (facts.foldl (fun effects row => effects.delete row.1) effects).inserts = effects.inserts := by
  induction facts generalizing effects with
  | nil => rfl
  | cons row rest ih => exact ih (effects.delete row.1)

theorem hatching_ranked : hatching.Ranked fun kind => if kind = "Egg" then 0 else 1 := by
  intro rule known facts _ _ fact inserted pattern member
  rcases List.mem_pair.mp known with rfl | rfl
  · rw [deletes_inserts] at inserted
    cases List.mem_singleton.mp inserted
    cases List.mem_singleton.mp member
    decide
  · cases inserted

theorem nest_returns : hatching.Stratified ∧
    (∃ count last, nest.Returns count last ∧ last.network.agenda = Map.empty ∧
      (last.Within → ∀ b, nest.ReturnsIn b count last) ∧ (¬ last.Within → ∃ limit, nest.fireIn .checked limit = none)) ∧
    ∃ count last, (∀ b, paired.ReturnsIn b count last) ∧ last.network.agenda = Map.empty := by
  have stratified : hatching.Stratified := ⟨_,hatching_ranked⟩
  have reached : Reached hatching nest := (Reached.new.insert egg ⟨by decide,by decide⟩).insert egg ⟨by decide,by decide⟩
  refine ⟨stratified,(stratified_returns hatching).2 stratified nest reached,?_⟩
  have quiet : ∀ rule ∈ pairing.rules, ∀ facts, (rule.action facts).inserts = [] := fun rule known facts => by
    cases List.mem_singleton.mp known
    exact deletes_inserts (facts.drop 1) Effects.none
  exact ((stratified_returns pairing).1 quiet).2 paired paired_reached

example : ((nest.fire 9).1.length,(nest.fire 9).2.pending) = (4,[]) := by decide

end Engine
end DurableRules
