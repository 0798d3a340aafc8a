import DurableRules.Proofs.Engine.Refinement
import Mathlib.Data.List.Pairwise

namespace DurableRules

-- What stores owe to earlier ones: handles are handed out upwards, none of them
-- comes back, and the fact of a handle changes with its version only.
structure Stores.Succeeds (one two : Stores) : Prop where
  next : one.nextHandle ≤ two.nextHandle
  dead : ∀ handle, handle < one.nextHandle → one.facts.get? handle = none → two.facts.get? handle = none
  facts : ∀ handle before after, one.facts.get? handle = some before → two.facts.get? handle = some after →
    before.version ≤ after.version ∧ (before.version = after.version → before = after)

namespace Stores
variable {one two three : Stores} {handle : Handle}

theorem Succeeds.of_facts (next : two.nextHandle = one.nextHandle) (facts : two.facts = one.facts) : Succeeds one two := by
  refine ⟨Nat.le_of_eq next.symm,fun handle _ absent => facts ▸ absent,fun handle before after held still => ?_⟩
  rw [facts,held] at still
  cases still
  exact ⟨Nat.le_refl _,fun _ => rfl⟩

theorem Succeeds.of_one (handle : Handle) (next : one.nextHandle ≤ two.nextHandle)
    (others : ∀ other, other ≠ handle → two.facts.get? other = one.facts.get? other)
    (dead : handle < one.nextHandle → one.facts.get? handle = none → two.facts.get? handle = none)
    (facts : ∀ before after, one.facts.get? handle = some before → two.facts.get? handle = some after →
      before.version < after.version) : Succeeds one two := by
  refine ⟨next,fun other given absent => ?_,fun other before after held still => ?_⟩
  · by_cases same : other = handle
    · subst same
      exact dead given absent
    · exact (others other same).trans absent
  · by_cases same : other = handle
    · subst same
      have more := facts before after held still
      exact ⟨Nat.le_of_lt more,fun level => absurd level (Nat.ne_of_lt more)⟩
    · rw [others other same,held] at still
      cases still
      exact ⟨Nat.le_refl _,fun _ => rfl⟩

-- Whatever is held was handed out, so what is gone in between stays gone.
theorem Succeeds.trans (below : ∀ handle stored, one.facts.get? handle = some stored → handle < one.nextHandle)
    (left : Succeeds one two) (right : Succeeds two three) : Succeeds one three := by
  refine ⟨Nat.le_trans left.next right.next,fun handle given absent => ?_,fun handle before after held still => ?_⟩
  · exact right.dead handle (Nat.lt_of_lt_of_le given left.next) (left.dead handle given absent)
  · cases middle : two.facts.get? handle with
    | none =>
      have gone := right.dead handle (Nat.lt_of_lt_of_le (below handle before held) left.next) middle
      cases gone.symm.trans still
    | some between =>
      obtain ⟨less,same⟩ := left.facts handle before between held middle
      obtain ⟨more,alike⟩ := right.facts handle between after middle still
      refine ⟨Nat.le_trans less more,fun equal => ?_⟩
      have level : before.version = between.version := Nat.le_antisymm less (Nat.le_trans more (Nat.le_of_eq equal.symm))
      exact (same level).trans (alike (level.symm.trans equal))

end Stores

inductive Deed where
  | issued (handle : Handle)
  | deleted (handle : Handle)
  | neither
deriving DecidableEq

def Deed.issued? : Deed → Option Handle
  | issued handle => some handle
  | _ => none

structure Moment where
  deed : Deed
  engine : Engine

namespace Engine

def inserting (e : Engine) (fact : Fact) : Moment := ⟨.issued (e.insert fact).1,(e.insert fact).2⟩

def deleting (e : Engine) (handle : Handle) : Moment :=
  match e.retract handle with
  | (.ok _,next) => ⟨.deleted handle,next⟩
  | (.error _,next) => ⟨.neither,next⟩

def pushing (e : Engine) (entry : String × Value) : Moment := ⟨.neither,e.pushGlobal entry⟩

def along {α : Type} (act : Engine → α → Moment) : Engine → List α → List Moment
  | _, [] => []
  | e, item :: rest => act e item :: along act (act e item).engine rest

def applying (e : Engine) (effects : Effects) : List Moment :=
  let pushed := effects.pushes.foldl pushGlobal e
  let inserted := effects.inserts.foldl (fun e fact => (e.insert fact).2) pushed
  along pushing e effects.pushes ++ along inserting pushed effects.inserts ++ along deleting inserted effects.deletes

def firing : Nat → Engine → List Moment
  | 0, _ => []
  | limit + 1, e =>
    match e.network.agenda.pop? with
    | none => []
    | some ((_,a),agenda) =>
      match (e.taken a agenda).ready a with
      | none => ⟨.neither,e.taken a agenda⟩ :: firing limit (e.taken a agenda)
      | some (rule,facts) =>
        let recorded := (e.taken a agenda).recorded a
        let effects := rule.action facts
        ⟨.neither,recorded⟩ :: (recorded.applying effects ++ firing limit (recorded.apply effects))

def asking (e : Engine) : Demand → List Moment
  | .insert fact => [e.inserting fact]
  | .delete handle => [e.deleting handle]
  | .fire limit => firing limit e
  | demand => [⟨.neither,(e.ask demand).2⟩]

-- A demand, or another engine in place of this one: rebuilt from its stores or
-- adopted with its network. What is refused changes nothing.
inductive Turn where
  | demand (demand : Demand)
  | rebuild (program : Program)
  | adopt (program : Program)

def replaced (e : Engine) : Except Inconsistency Engine → Engine
  | .ok next => next
  | .error _ => e

def Turn.after (e : Engine) : Turn → Engine
  | demand asked => (e.ask asked).2
  | rebuild program => e.replaced (Engine.rebuild program e.stores)
  | adopt program => e.replaced (Engine.adopt program e.stores e.network)

def Turn.moments (e : Engine) : Turn → List Moment
  | demand asked => e.asking asked
  | rebuild program => [⟨.neither,e.replaced (Engine.rebuild program e.stores)⟩]
  | adopt program => [⟨.neither,e.replaced (Engine.adopt program e.stores e.network)⟩]

def chronicle : Engine → List Turn → List Moment
  | _, [] => []
  | e, turn :: rest => turn.moments e ++ chronicle (turn.after e) rest

def history (program : Program) (turns : List Turn) : List Moment :=
  ⟨.neither,new program⟩ :: chronicle (new program) turns

variable {e next : Engine} {m : Moment} {handle : Handle} {fact : Fact}

structure Leads (e : Engine) (m : Moment) : Prop where
  coherent : Coherent m.engine
  stores : e.stores.Succeeds m.engine.stores
  issued : ∀ handle, m.deed = .issued handle → e.stores.nextHandle ≤ handle ∧ handle < m.engine.stores.nextHandle
  deleted : ∀ handle, m.deed = .deleted handle →
    handle < m.engine.stores.nextHandle ∧ m.engine.stores.facts.get? handle = none

theorem Coherent.stored_below (coherent : Coherent e) (handle : Handle) (stored : StoredFact)
    (held : e.stores.facts.get? handle = some stored) : handle < e.stores.nextHandle := by
  apply coherent.below
  rw [coherent.live_stored,held]
  rfl

theorem Leads.after (coherent : Coherent e) (first : Leads e m) {later : Moment} (second : Leads m.engine later) :
    Leads e later := by
  refine ⟨second.coherent,first.stores.trans coherent.stored_below second.stores,fun handle issued => ?_,second.deleted⟩
  obtain ⟨fresh,given⟩ := second.issued handle issued
  exact ⟨Nat.le_trans first.stores.next fresh,given⟩

theorem leads_same (coherent : Coherent next) (nextHandle : next.stores.nextHandle = e.stores.nextHandle)
    (facts : next.stores.facts = e.stores.facts) : Leads e ⟨.neither,next⟩ :=
  ⟨coherent,.of_facts nextHandle facts,nofun,nofun⟩

theorem inserting_leads (coherent : Coherent e) (fact : Fact) : Leads e (e.inserting fact) := by
  have stores : (e.insert fact).2.stores = { e.stores with
      nextHandle := e.stores.nextHandle + 1, facts := e.stores.facts.put e.stores.nextHandle ⟨0,fact⟩ } :=
    congrArg (fun result => result.2.stores) (insert_naive coherent fact)
  have free : e.stores.facts.get? e.stores.nextHandle = none :=
    Option.eq_none_iff_forall_ne_some.mpr fun stored held => Nat.lt_irrefl _ (coherent.stored_below _ stored held)
  refine ⟨coherent.insert fact,?_,fun handle issued => ?_,nofun⟩
  · change e.stores.Succeeds (e.insert fact).2.stores
    rw [stores]
    refine .of_one e.stores.nextHandle (Nat.le_succ _) (fun other apart => Map.get?_put_other _ _ apart) (fun given => ?_) fun before _ held => ?_
    · exact absurd given (Nat.lt_irrefl _)
    · cases free.symm.trans held
  · cases issued
    change e.stores.nextHandle ≤ e.stores.nextHandle ∧ e.stores.nextHandle < (e.insert fact).2.stores.nextHandle
    rw [stores]
    exact ⟨Nat.le_refl _,Nat.lt_succ_self _⟩

theorem updated_leads (coherent : Coherent e) (updated : e.update handle fact = .ok next) : Leads e ⟨.neither,next⟩ := by
  have simple := update_naive coherent handle fact
  rw [updated] at simple
  cases held : e.stores.facts.get? handle with
  | none =>
    rw [Naive.update_out (n := e.naive) held] at simple
    cases simple
  | some stored =>
    rw [Naive.update_held (n := e.naive) held] at simple
    have stores : next.stores = { e.stores with
        facts := (e.stores.facts.erase handle).put handle ⟨stored.version + 1,fact⟩ } :=
      congrArg Naive.stores (Except.ok.inj simple)
    refine ⟨coherent.update updated,?_,nofun,nofun⟩
    change e.stores.Succeeds next.stores
    rw [stores]
    refine .of_one handle (Nat.le_refl _) (fun other apart => ?_) (fun _ absent => ?_) fun before after was is => ?_
    · exact (Map.get?_put_other _ _ apart).trans (Map.get?_erase_other _ apart)
    · cases held.symm.trans absent
    · cases held.symm.trans was
      cases (Map.get?_put_self _ _ _).symm.trans is
      exact Nat.lt_succ_self _

theorem deleting_leads (coherent : Coherent e) (handle : Handle) : Leads e (e.deleting handle) := by
  unfold deleting
  rw [coherent.founded.retract_eq]
  cases deleted : e.delete handle with
  | error cause => exact leads_same coherent rfl rfl
  | ok result =>
    obtain ⟨fact,next⟩ := result
    have simple := delete_naive coherent handle
    rw [deleted] at simple
    cases held : e.stores.facts.get? handle with
    | none =>
      rw [Naive.delete_out (n := e.naive) held] at simple
      cases simple
    | some stored =>
      rw [Naive.delete_held (n := e.naive) held] at simple
      have stores : next.stores = { e.stores with facts := e.stores.facts.erase handle } :=
        congrArg (fun result => result.2.stores) (Except.ok.inj simple)
      refine ⟨coherent.delete deleted,?_,nofun,fun other gone => ?_⟩
      · change e.stores.Succeeds next.stores
        rw [stores]
        refine .of_one handle (Nat.le_refl _) (fun other apart => Map.get?_erase_other _ apart)
          (fun _ _ => Map.get?_erase_self _ _) fun _ _ _ is => ?_
        cases (Map.get?_erase_self _ _).symm.trans is
      · cases gone
        change handle < next.stores.nextHandle ∧ next.stores.facts.get? handle = none
        rw [stores]
        exact ⟨coherent.stored_below handle stored held,Map.get?_erase_self _ _⟩

inductive Course : Engine → List Moment → Engine → Prop
  | rests {e : Engine} : Course e [] e
  | goes {e last : Engine} {m : Moment} {rest : List Moment} (first : Leads e m) (later : Course m.engine rest last) :
      Course e (m :: rest) last

section Courses
variable {middle last : Engine} {moments more : List Moment}

theorem Course.append (course : Course e moments middle) (later : Course middle more last) :
    Course e (moments ++ more) last := by
  induction course with
  | rests => exact later
  | goes first _ ih => exact .goes first (ih later)

theorem Course.coherent (course : Course e moments last) (start : Coherent e) : Coherent last := by
  induction course with
  | rests => exact start
  | goes first _ ih => exact ih first.coherent

theorem Course.ends (course : Course e moments last) : (moments.getLast?.map Moment.engine).getD e = last := by
  induction course with
  | rests => rfl
  | @goes _ _ m rest _ _ ih =>
    rw [List.getLast?_cons,← ih]
    cases rest.getLast? <;> rfl

theorem Leads.course (leads : Leads e m) : Course e [m] m.engine := .goes leads .rests

theorem Course.all (course : Course e moments last) (start : Coherent e) :
    (∀ m ∈ moments, Leads e m) ∧ moments.Pairwise fun one two => Leads one.engine two := by
  induction course with
  | rests => exact ⟨by simp,.nil⟩
  | goes first _ ih =>
    obtain ⟨beyond,pairs⟩ := ih first.coherent
    refine ⟨fun m present => ?_,.cons beyond pairs⟩
    rcases List.mem_cons.mp present with rfl | present
    · exact first
    · exact first.after start (beyond m present)

theorem along_course {α : Type} {act : Engine → α → Moment} (each : ∀ e item, Coherent e → Leads e (act e item))
    (coherent : Coherent e) (items : List α) :
    Course e (along act e items) (items.foldl (fun e item => (act e item).engine) e) := by
  induction items generalizing e with
  | nil => exact .rests
  | cons item rest ih =>
    have first := each e item coherent
    exact .goes first (ih first.coherent)

end Courses

theorem deleting_engine (e : Engine) (handle : Handle) : (e.deleting handle).engine = e.deleteLive handle := by
  unfold deleting deleteLive
  rcases e.retract handle with ⟨_ | _,_⟩ <;> rfl

theorem pushing_leads (coherent : Coherent e) (entry : String × Value) : Leads e (e.pushing entry) :=
  leads_same (coherent.globals _) rfl rfl

theorem applying_course (coherent : Coherent e) (effects : Effects) :
    Course e (e.applying effects) (e.apply effects) := by
  have pushed := along_course (fun _ entry held => pushing_leads held entry) coherent effects.pushes
  have inserted := along_course (fun _ fact held => inserting_leads held fact) (pushed.coherent coherent) effects.inserts
  have deleted := along_course (fun _ handle held => deleting_leads held handle)
    (inserted.coherent (pushed.coherent coherent)) effects.deletes
  simp only [deleting_engine] at deleted
  exact (pushed.append inserted).append deleted

theorem firing_course (coherent : Coherent e) (limit : Nat) : Course e (firing limit e) (e.fire limit).2 := by
  induction limit generalizing e with
  | zero => exact .rests
  | succ limit ih =>
    unfold firing fire
    rcases step_cases coherent with ⟨empty,stops⟩ | ⟨sequence,a,agenda,rule,facts,popped,ready,went⟩
    · have none : e.network.agenda.pop? = none := Map.pop?_eq_none.mpr (List.map_eq_nil_iff.mp empty)
      simp only [none,stops]
      exact .rests
    · have recorded := recorded_coherent coherent popped
      have carried := applying_course recorded (rule.action facts)
      simp only [popped,ready,went]
      exact .goes (leads_same recorded rfl rfl) (carried.append (ih (carried.coherent recorded)))

theorem asking_course (coherent : Coherent e) (demand : Demand) : Course e (e.asking demand) (e.ask demand).2 := by
  cases demand with
  | insert fact => exact (inserting_leads coherent fact).course
  | update handle fact =>
    suffices leads : Leads e ⟨.neither,(e.ask (.update handle fact)).2⟩ from leads.course
    cases done : e.update handle fact with
    | ok next =>
      rw [ask_updated done]
      exact updated_leads coherent done
    | error cause =>
      rw [ask_not_updated done]
      exact leads_same coherent rfl rfl
  | delete handle =>
    have same : (e.ask (.delete handle)).2 = (e.deleting handle).engine := by
      rcases done : e.retract handle with ⟨_ | _,_⟩ <;> simp [ask,deleting,done]
    rw [same]
    exact (deleting_leads coherent handle).course
  | fire limit => exact firing_course coherent limit
  | clear name =>
    have leads : Leads e ⟨.neither,(e.clear name).2⟩ := leads_same (coherent.globals _) rfl rfl
    exact leads.course
  | find fact => exact (leads_same coherent rfl rfl).course
  | look name => exact (leads_same coherent rfl rfl).course

theorem rebuilt_leads (coherent : Coherent e) (program : Program) :
    Leads e ⟨.neither,e.replaced (rebuild program e.stores)⟩ := by
  cases accepted : rebuild program e.stores with
  | error cause => exact leads_same coherent rfl rfl
  | ok next =>
    obtain ⟨holds,sound,_⟩ := rebuild_ok accepted
    exact leads_same sound (congrArg Stores.nextHandle holds.stores_eq) (congrArg Stores.facts holds.stores_eq)

theorem adopted_leads (coherent : Coherent e) (program : Program) :
    Leads e ⟨.neither,e.replaced (adopt program e.stores e.network)⟩ := by
  cases accepted : adopt program e.stores e.network with
  | error cause => exact leads_same coherent rfl rfl
  | ok next =>
    have sound := adopt_coherent accepted coherent.inhabited coherent.orderly.once
    have holds := (adopt_ok accepted).1
    exact leads_same sound (congrArg Stores.nextHandle holds.stores_eq) (congrArg Stores.facts holds.stores_eq)

theorem turn_course (coherent : Coherent e) (turn : Turn) : Course e (turn.moments e) (turn.after e) := by
  cases turn with
  | demand asked => exact asking_course coherent asked
  | rebuild program => exact (rebuilt_leads coherent program).course
  | adopt program => exact (adopted_leads coherent program).course

theorem chronicle_course (coherent : Coherent e) (turns : List Turn) :
    Course e (chronicle e turns) (turns.foldl Turn.after e) := by
  induction turns generalizing e with
  | nil => exact .rests
  | cons turn rest ih =>
    have first := turn_course coherent turn
    exact first.append (ih (first.coherent coherent))

theorem Coherent.names (coherent : Coherent e) {i : Identity} (held : e.roster.identity i.handle = some i) :
    ∃ stored, e.stores.facts.get? i.handle = some stored ∧ stored.version = i.version ∧ e.fact? i.handle = some stored.fact := by
  obtain ⟨version,found,same⟩ := Option.map_eq_some_iff.mp held
  obtain ⟨stored,lying,level⟩ := Option.map_eq_some_iff.mp ((coherent.version_get? i.handle).symm.trans found)
  refine ⟨stored,lying,level.trans (congrArg Identity.version same),?_⟩
  rw [fact?,coherent.fact_get?,lying]
  rfl

def Agree (one two : Moment) : Prop := ∀ i : Identity, one.engine.roster.identity i.handle = some i →
  two.engine.roster.identity i.handle = some i →
    ∃ fact, one.engine.fact? i.handle = some fact ∧ two.engine.fact? i.handle = some fact

instance : Std.Symm Agree where
  symm _ _ agree i before after := by
    obtain ⟨fact,here,there⟩ := agree i after before
    exact ⟨fact,there,here⟩

theorem agree_of_succeeds {one two : Moment} (first : Coherent one.engine) (second : Coherent two.engine)
    (succeeds : one.engine.stores.Succeeds two.engine.stores) : Agree one two := by
  intro i before after
  obtain ⟨stored,lying,version,fact⟩ := first.names before
  obtain ⟨later,still,level,same⟩ := second.names after
  obtain ⟨_,equal⟩ := succeeds.facts i.handle stored later lying still
  cases equal (version.trans level.symm)
  exact ⟨stored.fact,fact,same⟩

theorem Agree.tuples {one two : Moment} (agree : Agree one two) {a : Activation}
    (before : one.engine.roster.isCurrent a = true) (after : two.engine.roster.isCurrent a = true) :
    one.engine.matched (a.tuple.map Identity.handle) = two.engine.matched (a.tuple.map Identity.handle) ∧
      (one.engine.matched (a.tuple.map Identity.handle)).length = a.tuple.length := by
  have identified {e : Engine} (current : e.roster.isCurrent a = true) (i : Identity) (member : i ∈ a.tuple) :
      e.roster.identity i.handle = some i := by
    rw [Roster.identity,isCurrent_iff.mp current i member]
    rfl
  have shared (i : Identity) (member : i ∈ a.tuple) :=
    agree i (identified before i member) (identified after i member)
  constructor
  · apply List.filterMap_congr
    intro handle present
    obtain ⟨i,member,rfl⟩ := List.mem_map.mp present
    obtain ⟨fact,here,there⟩ := shared i member
    rw [show one.engine.facts.get? i.handle = some fact from here,show two.engine.facts.get? i.handle = some fact from there]
  · apply matched_length
    intro i member
    obtain ⟨fact,here,_⟩ := shared i member
    exact Option.isSome_of_mem here

structure Unambiguous (moments : List Moment) : Prop where
  issued : (moments.filterMap fun m => m.deed.issued?).Pairwise (· < ·)
  deleted : ∀ earlier m later, moments = earlier ++ m :: later → ∀ handle, m.deed = .deleted handle →
    ∀ since ∈ m :: later, since.engine.roster.isLive handle = false
  facts : ∀ one ∈ moments, ∀ two ∈ moments, ∀ i : Identity, one.engine.roster.identity i.handle = some i →
    two.engine.roster.identity i.handle = some i →
      ∃ fact, one.engine.fact? i.handle = some fact ∧ two.engine.fact? i.handle = some fact
  tuples : ∀ one ∈ moments, ∀ two ∈ moments, ∀ a, one.engine.roster.isCurrent a = true →
    two.engine.roster.isCurrent a = true →
      one.engine.matched (a.tuple.map Identity.handle) = two.engine.matched (a.tuple.map Identity.handle) ∧
        (one.engine.matched (a.tuple.map Identity.handle)).length = a.tuple.length

theorem Course.issued {last : Engine} {moments : List Moment} (course : Course e moments last) (start : Coherent e) :
    (moments.filterMap fun m => m.deed.issued?).Pairwise (· < ·) := by
  obtain ⟨own,pairs⟩ := course.all start
  refine List.pairwise_filterMap.mpr (pairs.imp_of_mem fun {one two} first _ leads handle issued other later => ?_)
  have known {m : Moment} {handle : Handle} (issued : m.deed.issued? = some handle) : m.deed = .issued handle := by
    obtain ⟨deed,_⟩ := m
    cases deed <;> cases issued
    rfl
  exact Nat.lt_of_lt_of_le ((own one first).issued handle (known issued)).2 (leads.issued other (known later)).1

theorem Course.deleted {last : Engine} {earlier later : List Moment} (course : Course e (earlier ++ m :: later) last)
    (start : Coherent e) (deed : m.deed = .deleted handle) :
    ∀ since ∈ m :: later, since.engine.roster.isLive handle = false := by
  obtain ⟨own,pairs⟩ := course.all start
  have beyond := (List.pairwise_cons.mp (List.pairwise_append.mp pairs).2.1).1
  obtain ⟨given,gone⟩ := (own m (by simp)).deleted handle deed
  intro since present
  have coherent := (own since (List.mem_append_right _ present)).coherent
  rw [coherent.live_stored,Option.isSome_eq_false_iff,Option.isNone_iff_eq_none]
  rcases List.mem_cons.mp present with rfl | later
  · exact gone
  · exact (beyond since later).stores.dead handle given gone

theorem Course.agree {last : Engine} {moments : List Moment} (course : Course e moments last) (start : Coherent e) :
    ∀ one ∈ moments, ∀ two ∈ moments, Agree one two := by
  obtain ⟨own,pairs⟩ := course.all start
  have forward : moments.Pairwise Agree := pairs.imp_of_mem fun first second leads =>
    agree_of_succeeds (own _ first).coherent (own _ second).coherent leads.stores
  exact fun one first two second => forward.forall_of_forall
    (fun m present => agree_of_succeeds (own m present).coherent (own m present).coherent (.of_facts rfl rfl)) first second

theorem history_course (program : Program) (turns : List Turn) :
    Course (new program) (history program turns) (turns.foldl Turn.after (new program)) :=
  .goes (leads_same (new_coherent program) rfl rfl) (chronicle_course (new_coherent program) turns)

-- However an engine is used, changed by its own rules and put back from its
-- stores, no handle is handed out twice and no identity changes its fact.
theorem history_unambiguous (program : Program) (turns : List Turn) : Unambiguous (history program turns) := by
  have start := new_coherent program
  have course := history_course program turns
  refine ⟨course.issued start,?_,course.agree start,fun one first two second a => (course.agree start one first two second).tuples⟩
  intro earlier m later same handle deed
  rw [same] at course
  exact course.deleted start deed

def splitting : Program := Program.empty.add
  { name := "split"
    patterns := ["Item"]
    action := fun facts => facts.foldl (fun effects row =>
      ((effects.insert ⟨"Half",Map.empty⟩).insert ⟨"Half",Map.empty⟩).delete row.1) Effects.none }

example : (history splitting [.demand (.insert item),.demand (.fire 2),.adopt splitting,.demand (.delete 2),
      .rebuild splitting,.demand (.insert item)]).map Moment.deed =
    [.neither,.issued 1,.neither,.issued 2,.issued 3,.deleted 1,.neither,.deleted 2,.neither,.issued 4] := by decide

end Engine
end DurableRules
