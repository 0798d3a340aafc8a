import DurableRules.Proofs.Session.Confined
import DurableRules.Proofs.Session.Standing

namespace DurableRules

-- The session an operation is addressed to. Two operations are about all of them.
def Operation.addressee : Operation → Option SessionId
  | create id _ _ | restore id _ _ | send id _ _ | destroy id => some id
  | recoverAll _ | failover => none

inductive Inquiry where
  | isLive
  | options
  | facts
  | fact (handle : Handle)
  | handleOf (fact : Fact)
  | global (name : String)
  | pending

inductive Finding where
  | truth (live : Bool)
  | options (options : Options)
  | facts (rows : List (Handle × Fact))
  | fact (fact : Option Fact)
  | handle (handle : Option Handle)
  | values (values : List Value)
  | count (count : Nat)
deriving DecidableEq

def Inquiry.look {σ : Type} [Store σ] (r : Registry σ) (id : SessionId) : Inquiry → Except SessionError Finding
  | isLive => .ok (.truth (r.isLive id))
  | options => (r.session? id).map fun s => .options s.options
  | facts => (r.session? id).map fun s => .facts s.engine.facts.rows
  | fact handle => (r.session? id).map fun s => .fact (s.engine.fact? handle)
  | handleOf wanted => (r.session? id).map fun s => .handle (s.engine.findHandle wanted)
  | global name => (r.session? id).map fun s => .values (s.engine.global name)
  | pending => (r.session? id).map fun s => .count s.engine.pending.length

inductive Errand (id : SessionId) where
  | change (operation : Operation) (addressed : operation.addressee = some id)
  | look (inquiry : Inquiry)

inductive Answer where
  | replied (reply : Reply)
  | found (finding : Finding)
deriving DecidableEq

structure Letter where
  id : SessionId
  errand : Errand id

section Delivery
variable {σ : Type} [Store σ]

def Letter.perform (r : Registry σ) (letter : Letter) : Except SessionError Answer × Registry σ :=
  match letter.errand with
  | .change operation _ => ((operation.perform r).1.map .replied,(operation.perform r).2)
  | .look inquiry => ((inquiry.look r letter.id).map .found,r)

def deliver (r : Registry σ) : List Letter → List (SessionId × Except SessionError Answer) × Registry σ
  | [] => ([],r)
  | letter :: rest =>
    let (answer,next) := letter.perform r
    let (answers,last) := deliver next rest
    ((letter.id,answer) :: answers,last)

end Delivery

variable {σ : Type} [Store σ] [Faithful σ]

structure Registry.Alike (id : SessionId) (one two : Registry σ) : Prop where
  store : DurableRules.Alike id one.store two.store
  live : one.live.get? id = two.live.get? id

def Agrees {α : Type} (id : SessionId) (one two : α × Registry σ) : Prop := one.1 = two.1 ∧ Registry.Alike id one.2 two.2

section Sessions

theorem Session.mutate_alike (s : Session) (command : Command) {one two : σ} (alike : Alike s.id one two) :
    (s.mutate command one).1 = (s.mutate command two).1 ∧ (s.mutate command one).2.1 = (s.mutate command two).2.1 ∧
      Alike s.id (s.mutate command one).2.2 (s.mutate command two).2.2 := by
  unfold mutate
  cases operate s.engine command with
  | error cause => exact ⟨rfl,rfl,alike⟩
  | ok result =>
    obtain ⟨outcome,engine⟩ := result
    dsimp only
    split
    · obtain ⟨answer,next,next',first,second,after⟩ :=
        (confined_afterMutation s.writer engine (s.stateVersion + 1)).runs alike
      rw [first,second]
      cases answer with
      | ok written => exact ⟨rfl,rfl,after⟩
      | error cause => exact ⟨rfl,rfl,after⟩
    · exact ⟨rfl,rfl,alike⟩

theorem Session.safepoint_alike (s : Session) {one two : σ} (alike : Alike s.id one two) :
    (s.process .safepoint one).1 = (s.process .safepoint two).1 ∧
      (s.process .safepoint one).2.1 = (s.process .safepoint two).2.1 ∧
      Alike s.id (s.process .safepoint one).2.2 (s.process .safepoint two).2.2 := by
  obtain ⟨answer,next,next',first,second,after⟩ := (confined_safepoint s.writer s.engine s.stateVersion).runs alike
  simp only [process,first,second]
  cases answer with
  | ok written => exact ⟨rfl,rfl,after⟩
  | error cause => exact ⟨rfl,rfl,after⟩

theorem Session.process_alike (s : Session) (command : Command) (stays : Mailbox.closes command = false) {one two : σ}
    (alike : Alike s.id one two) :
    (s.process command one).1 = (s.process command two).1 ∧ (s.process command one).2.1 = (s.process command two).2.1 ∧
      Alike s.id (s.process command one).2.2 (s.process command two).2.2 := by
  cases command with
  | safepoint => exact s.safepoint_alike alike
  | discard => cases stays
  | insert fact => exact s.mutate_alike (.insert fact) alike
  | update handle fact => exact s.mutate_alike (.update handle fact) alike
  | delete handle => exact s.mutate_alike (.delete handle) alike
  | fire limit => exact s.mutate_alike (.fire limit) alike
  | clear name => exact s.mutate_alike (.clear name) alike

end Sessions

namespace Registry
variable {id : SessionId} {one two : Registry σ}

theorem Alike.isLive (alike : Alike id one two) : one.isLive id = two.isLive id := by
  simp only [Registry.isLive,Map.contains_eq,alike.live]

theorem Alike.session? (alike : Alike id one two) : one.session? id = two.session? id := by
  simp only [Registry.session?,alike.live]

theorem Alike.put {first second : σ} (stores : DurableRules.Alike id first second) (s : Session) :
    Alike id ⟨first,one.live.put id s⟩ ⟨second,two.live.put id s⟩ :=
  ⟨stores,by simp⟩

theorem Alike.erase {first second : σ} (stores : DurableRules.Alike id first second) :
    Alike id ⟨first,one.live.erase id⟩ ⟨second,two.live.erase id⟩ :=
  ⟨stores,by simp⟩

theorem create_alike (alike : Alike id one two) (program : Program) (options : Options) :
    Agrees id (one.create id program options) (two.create id program options) := by
  unfold Agrees create
  cases options.validate with
  | error cause => exact ⟨rfl,alike⟩
  | ok _ =>
    rw [alike.isLive]
    cases two.isLive id with
    | true => exact ⟨rfl,alike⟩
    | false =>
      obtain ⟨answer,next,next',first,second,after⟩ := (confined_prepare id program options).runs alike.store
      rw [first,second]
      cases answer with
      | ok s => exact ⟨rfl,.put after s⟩
      | error cause => exact ⟨rfl,after,alike.live⟩

theorem restore_alike (alike : Alike id one two) (program : Program) (options : Options) :
    Agrees id (one.restore id program options) (two.restore id program options) := by
  unfold Agrees restore
  cases options.validate with
  | error cause => exact ⟨rfl,alike⟩
  | ok _ =>
    obtain ⟨answer,next,next',first,second,after⟩ := (confined_recover id program options.persistence).runs alike.store
    rw [first,second]
    cases answer with
    | ok found => exact ⟨rfl,.put after _⟩
    | error cause => exact ⟨rfl,after,alike.live⟩

theorem send_alike (alike : Alike id one two) (named : Named one) (command : Command)
    (stays : Mailbox.closes command = false) : Agrees id (one.send id command) (two.send id command) := by
  unfold Agrees send session?
  rw [← alike.live]
  cases held : one.live.get? id with
  | none => exact ⟨rfl,alike⟩
  | some s =>
    have own := named id s held
    subst own
    obtain ⟨answer,same,after⟩ := s.process_alike command stays alike.store
    refine ⟨answer,?_⟩
    dsimp only
    rw [same]
    exact .put after _

theorem destroy_alike (alike : Alike id one two) : Agrees id (one.destroy id) (two.destroy id) := by
  obtain ⟨answer,next,next',first,second,after⟩ := (confined_discard id).runs alike.store
  unfold Agrees destroy
  rw [first,second]
  cases answer with
  | ok _ => exact ⟨rfl,.erase after⟩
  | error cause => exact ⟨rfl,.erase after⟩

end Registry

section Letters
variable {id : SessionId} {one two : Registry σ}

theorem Inquiry.look_alike (alike : Registry.Alike id one two) (inquiry : Inquiry) :
    inquiry.look one id = inquiry.look two id := by
  cases inquiry <;> simp only [look,alike.isLive,alike.session?]

-- A session answers by what it is and goes on by it.
theorem perform_alike (alike : Registry.Alike id one two) (named : Named one) {operation : Operation}
    (addressed : operation.addressee = some id) : Agrees id (operation.perform one) (operation.perform two) := by
  have mapped {α : Type} {first second : Except SessionError α × Registry σ} (agrees : Agrees id first second)
      (f : α → Reply) : Agrees id (first.1.map f,first.2) (second.1.map f,second.2) :=
    ⟨congrArg (Except.map f) agrees.1,agrees.2⟩
  cases operation with
  | recoverAll program => cases addressed
  | failover => cases addressed
  | create other program options =>
    cases addressed
    exact mapped (Registry.create_alike alike program options) .opened
  | restore other program options =>
    cases addressed
    exact mapped (Registry.restore_alike alike program options) .opened
  | send other command stays =>
    cases addressed
    exact mapped (Registry.send_alike alike named command stays) .handled
  | destroy other =>
    cases addressed
    exact mapped (Registry.destroy_alike alike) fun _ => .done

-- An operation passes by every session it is not addressed to.
theorem perform_apart {r : Registry σ} (named : Named r) {operation : Operation} {other : SessionId}
    (addressed : operation.addressee = some other) (apart : other ≠ id) :
    shelf (operation.perform r).2.store id = shelf r.store id ∧
      (operation.perform r).2.live.get? id = r.live.get? id ∧
      (Steady r.store → Steady (operation.perform r).2.store) := by
  obtain ⟨edits,touches,steady⟩ := step_touches ⟨r,operation⟩ named id
  have change := touches.change
  have shelves := touches.shelf
  suffices passed : edits = [] ∧ (Step.after ⟨r,operation⟩).live.get? id = r.live.get? id by
    obtain ⟨rfl,live⟩ := passed
    exact ⟨shelves,live,steady⟩
  generalize (Step.after ⟨r,operation⟩).live.get? id = after at change
  dsimp only at change
  generalize r.live.get? id = before at change
  -- Every kind of change but one is asked for by name.
  cases change with
  | idle unowned =>
    exact ⟨List.eq_nil_iff_forall_not_mem.mpr fun edit present => unowned edit present (touches.own edit present),rfl⟩
  | handled asked =>
    cases asked
    exact absurd (Option.some.inj addressed).symm apart
  | lost asked =>
    cases asked
    cases addressed
  | destroyed asked =>
    cases asked
    exact absurd (Option.some.inj addressed).symm apart
  | created asked =>
    cases asked
    exact absurd (Option.some.inj addressed).symm apart
  | restored asked =>
    rcases asked with asked | asked
    · cases asked
      exact absurd (Option.some.inj addressed).symm apart
    · cases asked
      cases addressed

theorem Letter.perform_alike (letter : Letter) (alike : Registry.Alike letter.id one two) (named : Named one) :
    Agrees letter.id (letter.perform one) (letter.perform two) := by
  obtain ⟨id,errand⟩ := letter
  cases errand with
  | change operation addressed =>
    obtain ⟨answer,after⟩ := DurableRules.perform_alike alike named addressed
    exact ⟨congrArg (Except.map _) answer,after⟩
  | look inquiry => exact ⟨congrArg (Except.map _) (inquiry.look_alike alike),alike⟩

theorem Letter.perform_apart (letter : Letter) (apart : letter.id ≠ id) (alike : Registry.Alike id one two)
    (named : Named one) : Registry.Alike id (letter.perform one).2 two := by
  obtain ⟨other,errand⟩ := letter
  cases errand with
  | change operation addressed =>
    obtain ⟨shelf,live,steady⟩ := DurableRules.perform_apart named addressed apart
    exact ⟨⟨shelf.trans alike.store.shelf,steady alike.store.first,alike.store.second⟩,live.trans alike.live⟩
  | look inquiry => exact alike

theorem Letter.named (letter : Letter) (named : Named one) : Named (letter.perform one).2 := by
  obtain ⟨other,errand⟩ := letter
  cases errand with
  | change operation addressed => exact named_step ⟨one,operation⟩ named
  | look inquiry => exact named

end Letters

theorem deliver_alike {id : SessionId} {one two : Registry σ} (alike : Registry.Alike id one two) (named : Named one)
    (letters : List Letter) :
    (deliver one letters).1.filter (·.1 = id) = (deliver two (letters.filter (·.id = id))).1 ∧
      Registry.Alike id (deliver one letters).2 (deliver two (letters.filter (·.id = id))).2 := by
  induction letters generalizing one two with
  | nil => exact ⟨rfl,alike⟩
  | cons letter rest ih =>
    by_cases own : letter.id = id
    · subst own
      obtain ⟨same,after⟩ := letter.perform_alike alike named
      obtain ⟨answers,last⟩ := ih after (letter.named named)
      simp only [deliver,List.filter_cons,decide_true,if_true,same,answers,true_and]
      exact last
    · obtain ⟨answers,last⟩ := ih (letter.perform_apart own alike named) (letter.named named)
      simp only [deliver,List.filter_cons,own,decide_false]
      exact ⟨answers,last⟩

-- Sessions are isolated: with all letters to others taken out of a run, a
-- session gives the same answers and the same bytes are stored of it.
theorem sessions_isolated (start : Registry σ) (named : Named start) (steady : Steady start.store) (letters : List Letter)
    (id : SessionId) :
    (deliver start letters).1.filter (·.1 = id) = (deliver start (letters.filter (·.id = id))).1 ∧
      ∀ tag, (Faithful.view (deliver start letters).2.store).contents ⟨id,tag⟩ =
        (Faithful.view (deliver start (letters.filter (·.id = id))).2.store).contents ⟨id,tag⟩ := by
  have alike : Registry.Alike id start start := ⟨⟨rfl,steady,steady⟩,rfl⟩
  obtain ⟨answers,last⟩ := deliver_alike alike named letters
  exact ⟨answers,congrFun last.store.shelf⟩

def Letter.asked (operation : Operation) (id : SessionId) (addressed : operation.addressee = some id) : Letter :=
  ⟨id,.change operation addressed⟩

def neighbour : SessionId := .ofNat 1

-- Two sessions take turns until one of them is destroyed.
def turns : List Letter :=
  [.asked (.create .zero noting .standard) .zero rfl,.asked (.create neighbour noting .standard) neighbour rfl,
    .asked (.insert neighbour parcel) neighbour rfl,.asked (.insert .zero parcel) .zero rfl,
    .asked (.fire .zero 4) .zero rfl,⟨neighbour,.look .pending⟩,.asked (.destroy neighbour) neighbour rfl,
    ⟨.zero,.look (.global "noted")⟩,⟨neighbour,.look .isLive⟩]

theorem turns_isolated :
    Named (Registry.new Memory.empty) ∧ Steady Memory.empty ∧
      ((deliver (Registry.new Memory.empty) turns).1.filter (·.1 = SessionId.zero) =
          (deliver (Registry.new Memory.empty) (turns.filter (·.id = .zero))).1 ∧
        ∀ tag, (Faithful.view (deliver (Registry.new Memory.empty) turns).2.store).contents ⟨.zero,tag⟩ =
          (Faithful.view (deliver (Registry.new Memory.empty) (turns.filter (·.id = .zero))).2.store).contents ⟨.zero,tag⟩) ∧
      (deliver (Registry.new Memory.empty) turns).1 =
        [(.zero,.ok (.replied (.opened .zero))),(neighbour,.ok (.replied (.opened neighbour))),
          (neighbour,.ok (.replied (.handled (.inserted 1)))),(.zero,.ok (.replied (.handled (.inserted 1)))),
          (.zero,.ok (.replied (.handled (.fired 1)))),(neighbour,.ok (.found (.count 1))),
          (neighbour,.ok (.replied .done)),
          (.zero,.ok (.found (.values [.int 1]))),(neighbour,.ok (.found (.truth false)))] := by
  have named := new_named Memory.empty
  have steady : Steady Memory.empty := Memory.steady rfl
  exact ⟨named,steady,sessions_isolated (Registry.new Memory.empty) named steady turns .zero,by decide +kernel⟩

end DurableRules
