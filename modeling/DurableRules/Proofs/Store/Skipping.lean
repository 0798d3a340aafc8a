import DurableRules.Proofs.Session.Saving
import DurableRules.Proofs.Store.Renewal

namespace DurableRules
open Recovery

-- What a writer is asked to do: to write a state, to write it after a mutation
-- or at a safepoint if that is called for, or to take the snapshot away.
inductive Task where
  | write (e : Engine) (version : Nat)
  | afterMutation (e : Engine) (version : Nat)
  | safepoint (e : Engine) (version : Nat)
  | discard

def Task.state? : Task → Option (Engine × Nat)
  | write e version | afterMutation e version | safepoint e version => some (e,version)
  | discard => none

def Task.perform {σ : Type} [Store σ] (w : Writer) : Task → Call σ (Bool × Writer)
  | write e version => do return (true,← w.write e version)
  | afterMutation e version => w.afterMutation e version
  | safepoint e version => w.safepoint e version
  | discard => do return (false,← w.discard)

structure Desk (σ : Type) where
  writer : Writer
  store : σ

structure Turn (σ : Type) where
  before : Desk σ
  task : Task

namespace Turn
variable {σ : Type} [Store σ]

def outcome (turn : Turn σ) : Except StoreError (Bool × Writer) × σ :=
  turn.task.perform turn.before.writer turn.before.store

def answer (turn : Turn σ) : Except StoreError Bool := turn.outcome.1.map Prod.fst

-- A task that fails leaves the writer as it was, whatever it did to the store.
def after (turn : Turn σ) : Desk σ where
  writer := match turn.outcome.1 with
    | .ok (_,next) => next
    | .error _ => turn.before.writer
  store := turn.outcome.2

def failed (turn : Turn σ) : Bool := !turn.answer.isOk

def discards (turn : Turn σ) : Bool := turn.task.state?.isNone

def settles (turn : Turn σ) : Bool :=
  turn.discards || match turn.answer with
    | .ok wrote => wrote
    | .error _ => false

end Turn

-- No task was about a later version, and those about this one had this state.
def Follows {σ : Type} (history : List (Turn σ)) (e : Engine) (version : Nat) : Prop :=
  ∀ turn ∈ history, ∀ earlier number, turn.task.state? = some (earlier,number) →
    number ≤ version ∧ (number = version → earlier = e)

-- Tasks one after the other, in the order of their versions. The last one stands first.
inductive Served {σ : Type} [Store σ] (start : Desk σ) : List (Turn σ) → Desk σ → Prop where
  | start : Served start [] start
  | next {history : List (Turn σ)} {desk : Desk σ} (served : Served start history desk) (task : Task)
      (follows : ∀ e version, task.state? = some (e,version) → Follows history e version) :
      Served start (⟨desk,task⟩ :: history) (Turn.mk desk task).after

inductive Turned (w : Writer) : Task → List Edit → Except StoreError Bool → Writer → Prop where
  | idle {task : Task} {e : Engine} {version : Nat} (state : task.state? = some (e,version)) :
      Turned w task [] (.ok false) w
  | written {task : Task} {e : Engine} {version : Nat} (state : task.state? = some (e,version)) :
      Turned w task (w.edits e version) (.ok true) { w with durable := some version }
  | unwritten {task : Task} {e : Engine} {version : Nat} (state : task.state? = some (e,version)) (count : Nat)
      (short : count < (w.edits e version).length) (cause : StoreError) :
      Turned w task ((w.edits e version).take count) (.error cause) w
  | discarded : Turned w .discard (discards w.id) (.ok false) { w with durable := none }
  | undiscarded (count : Nat) (cause : StoreError) : Turned w .discard ((discards w.id).take count) (.error cause) w

theorem safepoint_skips {σ : Type} [Store σ] {w : Writer} {version : Nat} (always : w.options.safepoint = .always)
    (durable : w.durable = some version) (e : Engine) (store : σ) :
    w.safepoint e version store = (.ok (false,w),store) := by
  rw [Writer.safepoint,if_pos ⟨always,durable⟩]
  rfl

theorem safepoint_skipped {σ : Type} [Store σ] {w next : Writer} {e : Engine} {version : Nat} {store place : σ}
    (skipped : w.safepoint e version store = (.ok (false,next),place)) : w.durable = some version ∧ store = place := by
  unfold Writer.safepoint at skipped
  split at skipped
  · next held => exact ⟨held.2,congrArg Prod.snd skipped⟩
  · rw [write_flagged] at skipped
    cases went : (w.write e version : Call σ Writer) store with
    | mk answer after =>
      rw [went] at skipped
      cases answer <;> cases skipped

section Turns
variable {σ : Type} [Store σ] [Faithful σ]

theorem performs_discarding (w : Writer) :
    Performs (discards w.id) { w with durable := none } (w.discard : Call σ Writer) := by
  have whole : Performs (discards w.id ++ []) { w with durable := none } (w.discard : Call σ Writer) :=
    (performs_discard w.id).bind (performs_pure _)
  rwa [List.append_nil] at whole

omit [Faithful σ] in
theorem perform_cases (w : Writer) (task : Task) : (∃ e version, task.state? = some (e,version) ∧
      ((task.perform w : Call σ (Bool × Writer)) = pure (false,w) ∨
        (task.perform w : Call σ (Bool × Writer)) = do return (true,← w.write e version))) ∨
    task = .discard := by
  cases task with
  | write e version => exact .inl ⟨e,version,rfl,.inr rfl⟩
  | afterMutation e version =>
    refine .inl ⟨e,version,rfl,?_⟩
    simp only [Task.perform,Writer.afterMutation]
    cases w.options.safepoint with
    | always => exact .inr rfl
    | explicit => exact .inl rfl
  | safepoint e version =>
    refine .inl ⟨e,version,rfl,?_⟩
    simp only [Task.perform,Writer.safepoint]
    split
    · exact .inl rfl
    · exact .inr rfl
  | discard => exact .inr rfl

theorem turn_spec (turn : Turn σ) : ∃ edits, Turned turn.before.writer turn.task edits turn.answer turn.after.writer ∧
    Faithful.view turn.after.store = (Faithful.view turn.before.store).edits Faithful.written edits := by
  obtain ⟨⟨w,store⟩,task⟩ := turn
  rcases @perform_cases σ _ w task with ⟨e,version,state,idle | writes⟩ | rfl
  · refine ⟨[],?_,?_⟩
    · simp only [Turn.answer,Turn.after,Turn.outcome,idle]
      exact .idle state
    · simp only [Turn.after,Turn.outcome,idle]
      rfl
  · simp only [Turn.answer,Turn.after,Turn.outcome,writes,write_flagged]
    obtain ⟨edits,done,attempt,view,-,went⟩ := write_attempt w e version store
    refine ⟨edits,?_,view⟩
    cases attempt with
    | whole =>
      rw [went]
      exact .written state
    | cut count short =>
      obtain ⟨cause,failed⟩ := went
      rw [failed]
      exact .unwritten state count short cause
  · have discarding : (do return (false,← w.discard) : Call σ (Bool × Writer)) store =
        (((w.discard : Call σ Writer) store).1.map (false,·),((w.discard : Call σ Writer) store).2) := by
      cases went : (w.discard : Call σ Writer) store with
      | mk answer after =>
        cases answer with
        | ok next => exact bind_of_ok went
        | error cause => exact bind_of_error went
    simp only [Turn.answer,Turn.after,Turn.outcome,Task.perform,discarding]
    obtain ⟨cut,_,view,went | ⟨⟨cause,failed⟩,_⟩,_⟩ := performs_discarding w store
    · obtain ⟨ok,rfl⟩ := went
      rw [List.take_length] at view
      refine ⟨_,?_,view⟩
      rw [ok]
      exact .discarded
    · refine ⟨_,?_,view⟩
      rw [failed]
      exact .undiscarded cut cause

end Turns

section Claims
variable {σ : Type} [Store σ] [Faithful σ] {start desk : Desk σ} {history : List (Turn σ)} {id : SessionId}
  {options : Options} {program : Program} {e : Engine} {version : Nat}

theorem Writer.edits_agree {w : Writer} {edit : Edit} (present : edit ∈ w.edits e version)
    {component : Tag × ByteArray} (inside : component ∈ Snapshot.encode w.id e w.options version)
    (same : component.1 = edit.key.tag) : edit.bytes = some component.2 := by
  unfold Writer.edits Writer.componentEdits Snapshot.encode Snapshot.components at *
  cases kind : w.options.persistence <;> simp [kind] at present inside ⊢
  all_goals rcases present with rfl | rfl | rfl | rfl | rfl <;> rcases inside with rfl | rfl | rfl | rfl | rfl <;> simp_all

theorem Complete.rewritten {shelf : Shelf} {w : Writer} (complete : Complete shelf w.id e w.options version)
    {edits : List Edit} (each : ∀ edit ∈ edits, edit ∈ w.edits e version) :
    Complete (edits.foldl Shelf.edit shelf) w.id e w.options version := by
  induction edits generalizing shelf with
  | nil => exact complete
  | cons edit rest ih =>
    refine @ih (shelf.edit edit) (fun component inside => ?_) fun other present => each other (List.mem_cons_of_mem _ present)
    rw [Shelf.edit,Function.update_apply]
    split
    · next same => exact Writer.edits_agree (each edit List.mem_cons_self) inside same
    · exact complete component inside

theorem Complete.headed {shelf : Shelf} (complete : Complete shelf id e options version) : shelf .header ≠ none := by
  obtain ⟨tree,inside⟩ := components_hold id e options version (show Tag.header ≠ .network by decide)
  rw [complete (.header,tree.text.toUTF8) (mem_encode.mpr ⟨tree,inside,rfl⟩)]
  exact Option.some_ne_none _

theorem cut_header (shelf : Shelf) {w : Writer} {count : Nat} (short : count < (w.edits e version).length) :
    ((w.edits e version).take count).foldl Shelf.edit shelf .header = shelf .header := by
  have body : ∀ edit ∈ (w.edits e version).take count, edit.key.tag ≠ .header := fun edit present =>
    (Writer.bodyEdits_spec (Writer.cut_body short present)).2.1
  generalize (w.edits e version).take count = edits at body
  induction edits generalizing shelf with
  | nil => rfl
  | cons edit rest ih =>
    refine (@ih (shelf.edit edit) fun other present => body other (List.mem_cons_of_mem _ present)).trans ?_
    exact Function.update_of_ne (body edit List.mem_cons_self).symm _ _

-- What the writer's claim is worth as long as no later version was tried: with
-- a header all of that checkpoint is there, and the header is only gone after a
-- discard that failed.
structure Claims (id : SessionId) (options : Options) (history : List (Turn σ)) (desk : Desk σ) : Prop where
  named : desk.writer.id = id
  strategy : desk.writer.options = options
  lying : ∀ version, desk.writer.durable = some version → ∃ e,
    (∃ turn ∈ history, turn.task.state? = some (e,version)) ∧
      (Follows history e version → shelf desk.store id .header ≠ none →
        Complete (shelf desk.store id) id e options version)
  stranded : desk.writer.durable ≠ none → shelf desk.store id .header = none →
    ∃ turn, history.find? Turn.settles = some turn ∧ turn.discards = true ∧ turn.failed = true

theorem Turned.own {w next : Writer} {task : Task} {edits : List Edit} {answer : Except StoreError Bool}
    (turned : Turned w task edits answer next) : ∀ edit ∈ edits, edit.key.id = w.id := by
  intro edit present
  cases turned with
  | idle => cases present
  | written => exact Writer.edits_own present
  | unwritten => exact Writer.edits_own (List.mem_of_mem_take present)
  | discarded => exact discards_own present
  | undiscarded => exact discards_own (List.mem_of_mem_take present)

section Tasks
variable {turn : Turn σ} {after : Desk σ}

-- A task that settles nothing keeps the claim, if the header stays and so does
-- the checkpoint that was claimed last.
theorem Claims.unsettled (claims : Claims id options history desk) (idle : turn.settles = false)
    (stays : after.writer = desk.writer) (header : shelf after.store id .header = shelf desk.store id .header)
    (keeps : ∀ e version, (∃ turn ∈ history, turn.task.state? = some (e,version)) → Follows (turn :: history) e version →
      Complete (shelf desk.store id) id e options version → Complete (shelf after.store id) id e options version) :
    Claims id options (turn :: history) after := by
  refine ⟨stays ▸ claims.named,stays ▸ claims.strategy,fun version holds => ?_,fun holds gone => ?_⟩
  · obtain ⟨e,claimed,all⟩ := claims.lying version (stays ▸ holds)
    have both := claimed
    obtain ⟨earlier,present,state⟩ := both
    refine ⟨e,⟨earlier,List.mem_cons_of_mem _ present,state⟩,fun follows lies => ?_⟩
    exact keeps e version claimed follows
      (all (fun other among => follows other (List.mem_cons_of_mem _ among)) (header ▸ lies))
  · rw [List.find?_cons,idle]
    exact claims.stranded (stays ▸ holds) (header ▸ gone)

-- A checkpoint that is cut short can only write over one of its own state, as
-- long as the versions are in order.
theorem Claims.unwritten (claims : Claims id options history desk) (idle : turn.settles = false)
    (stays : after.writer = desk.writer) (state : turn.task.state? = some (e,version)) (follows : Follows history e version)
    {count : Nat} (short : count < (desk.writer.edits e version).length)
    (lies : shelf after.store id = ((desk.writer.edits e version).take count).foldl Shelf.edit (shelf desk.store id)) :
    Claims id options (turn :: history) after := by
  refine claims.unsettled idle stays (lies ▸ cut_header _ short) fun before number claimed still complete => ?_
  obtain ⟨earlier,present,last⟩ := claimed
  obtain ⟨most,same⟩ := still turn List.mem_cons_self e version state
  have least := (follows earlier present before number last).1
  have level : version = number := Nat.le_antisymm most least
  have alike : e = before := same level
  subst level alike
  rw [lies]
  have own := claims.named
  have kind := claims.strategy
  subst own kind
  exact complete.rewritten fun edit among => List.mem_of_mem_take among

theorem Claims.written (claims : Claims id options history desk) (state : turn.task.state? = some (e,version))
    (claimed : after.writer = { desk.writer with durable := some version })
    (lies : shelf after.store id = (desk.writer.edits e version).foldl Shelf.edit (shelf desk.store id)) :
    Claims id options (turn :: history) after := by
  have own := claims.named
  have kind := claims.strategy
  subst own kind
  have all : Complete (shelf after.store desk.writer.id) desk.writer.id e desk.writer.options version := by
    rw [lies]
    exact desk.writer.edits_complete _ e version
  refine ⟨by rw [claimed],by rw [claimed],fun number holds => ?_,fun _ gone => absurd gone all.headed⟩
  rw [claimed] at holds
  cases holds
  exact ⟨e,⟨turn,List.mem_cons_self,state⟩,fun _ _ => all⟩

theorem Claims.undiscarded (claims : Claims id options history desk) (discards : turn.discards = true)
    (failed : turn.failed = true) (stays : after.writer = desk.writer) {count : Nat}
    (lies : shelf after.store id = ((DurableRules.discards id).take count).foldl Shelf.edit (shelf desk.store id)) :
    Claims id options (turn :: history) after := by
  refine ⟨stays ▸ claims.named,stays ▸ claims.strategy,fun version holds => ?_,fun _ _ => ?_⟩
  · obtain ⟨e,⟨earlier,present,state⟩,all⟩ := claims.lying version (stays ▸ holds)
    refine ⟨e,⟨earlier,List.mem_cons_of_mem _ present,state⟩,fun still header => ?_⟩
    rw [lies] at header ⊢
    rcases @discards_header id (shelf desk.store id) count with none | gone
    · rw [none] at header ⊢
      exact all (fun other among => still other (List.mem_cons_of_mem _ among)) header
    · exact absurd gone header
  · have settles : turn.settles = true := by rw [Turn.settles,discards,Bool.true_or]
    exact ⟨turn,by rw [List.find?_cons,settles],discards,failed⟩

end Tasks

theorem Claims.next (claims : Claims id options history desk) (task : Task)
    (follows : ∀ e version, task.state? = some (e,version) → Follows history e version) :
    Claims id options (⟨desk,task⟩ :: history) (Turn.mk desk task).after := by
  obtain ⟨edits,turned,view⟩ := turn_spec (Turn.mk desk task)
  have lies : shelf (Turn.mk desk task).after.store id = edits.foldl Shelf.edit (shelf desk.store id) := by
    rw [shelf,view,shelf_edits_own fun edit present => (turned.own edit present).trans claims.named]
    rfl
  generalize answered : (Turn.mk desk task).answer = answer at turned
  generalize stays : (Turn.mk desk task).after.writer = next at turned
  cases turned with
  | idle state =>
    have idle : (Turn.mk desk task).settles = false := by simp [Turn.settles,Turn.discards,state,answered]
    refine claims.unsettled idle stays (lies ▸ rfl) fun e version _ _ complete => ?_
    rw [lies]
    exact complete
  | unwritten state count short cause =>
    have idle : (Turn.mk desk task).settles = false := by simp [Turn.settles,Turn.discards,state,answered]
    exact claims.unwritten idle stays state (follows _ _ state) short lies
  | written state => exact claims.written state stays lies
  | discarded =>
    refine ⟨stays ▸ claims.named,stays ▸ claims.strategy,fun version holds => ?_,fun holds _ => ?_⟩
    · rw [stays] at holds
      cases holds
    · rw [stays] at holds
      exact absurd rfl holds
  | undiscarded count cause =>
    have failed : (Turn.mk desk .discard).failed = true := by rw [Turn.failed,answered]; rfl
    exact claims.undiscarded rfl failed stays (claims.named ▸ lies)

theorem Served.claims (served : Served ⟨.new id options,start.store⟩ history desk) : Claims id options history desk := by
  induction served with
  | start => exact ⟨rfl,rfl,fun _ holds => (nomatch holds),fun holds => absurd rfl holds⟩
  | next _ task follows ih => exact ih.next task follows

-- A safepoint that is skipped can be recovered exactly when the header of its
-- checkpoint is still there and no fact has the handle zero. Both are so unless
-- the last task that settled anything was a discard that failed after the header
-- was deleted, or the next handle was zero to begin with.
theorem skipped_restored_iff {store : σ} (served : Served ⟨.new id options,store⟩ history desk) {first : Engine}
    (origin : Engine.Origin program first) {demands : List Demand} {responses : List Response}
    (asked : askAll Engine.ask demands first = (responses,e)) (exhausts : Engine.exhaustsAll demands first = true)
    (representable : ∀ value ∈ e.stores.values, value.Representable) (legible : Legible e.stores.values)
    (bounded : Bounded e version) (follows : Follows history e version) {w : Writer} {place : σ}
    (skipped : desk.writer.safepoint e version desk.store = (.ok (false,w),place))
    (reads : reached (recover id program options.persistence place).1 = true) :
    ((∃ found, (recover id program options.persistence place).1 = .ok found ∧ found.engine.stores = e.stores ∧
        found.header.stateVersion = version) ↔ shelf place id .header ≠ none ∧ e.roster.isLive 0 = false) ∧
      (shelf place id .header = none → (recover id program options.persistence place).1 = .error (.notFound id) ∧
        ∃ turn, history.find? Turn.settles = some turn ∧ turn.discards = true ∧ turn.failed = true) ∧
      (e.roster.isLive 0 = true → first.roster.nextHandle = 0) := by
  have claims : Claims id options history desk := @Served.claims σ _ _ ⟨.new id options,store⟩ _ _ _ _ served
  have last : (askAll Engine.ask demands first).2 = e := congrArg Prod.snd asked
  have enduring : e.Enduring program := last ▸ origin.enduring.askAll exhausts
  have answer : (recover id program options.persistence place).1 = stored (shelf place id) id program options.persistence := by
    refine (answers_recover program options.persistence place).read.resolve_right fun failed => ?_
    obtain ⟨cause,failed⟩ := failed
    rw [failed] at reads
    cases reads
  obtain ⟨durable,rfl⟩ := safepoint_skipped skipped
  obtain ⟨before,⟨turn,present,state⟩,all⟩ := claims.lying version durable
  have level : before = e := (follows turn present before version state).2 rfl
  subst level
  have restored (header : shelf desk.store id .header ≠ none) := (all follows header).regained_iff bounded enduring.founded
    enduring.checked
  rw [enduring.program,Stores.portable_iff,portable_iff legible] at restored
  rw [answer]
  refine ⟨⟨fun held => ?_,fun held => ?_⟩,fun gone => ⟨?_,claims.stranded (durable ▸ Option.some_ne_none _) gone⟩,
    fun live => ?_⟩
  · obtain ⟨found,went,same,_⟩ := held
    obtain ⟨_,_,_,pieces,_⟩ := stored_ok.mp went
    obtain ⟨bytes,lying,_⟩ := pieces.isHeader
    have header : shelf desk.store id .header ≠ none := lying ▸ Option.some_ne_none _
    exact ⟨header,((restored header).mp ⟨found,went,same⟩).2⟩
  · obtain ⟨header,dead⟩ := held
    obtain ⟨found,went,same⟩ := (restored header).mpr ⟨representable,dead⟩
    obtain ⟨_,_,_,pieces,_⟩ := stored_ok.mp went
    have own := (all follows header).header_is bounded pieces.isHeader
    exact ⟨found,went,same,(congrArg Snapshot.Header.stateVersion own).symm⟩
  · rw [stored,gone]
    rfl
  · by_contra next
    have numbered : before.roster.Numbered :=
      last ▸ Engine.numbered_askAll (origin.numbered (Nat.pos_of_ne_zero next)) demands
    exact Nat.lt_irrefl 0 (numbered.positive 0 live)

end Claims

section Stranding
open Engine

def stocked : Engine := ((Engine.new noting).insert parcel).2
def stocking {σ : Type} (store : σ) : Turn σ := ⟨⟨.new .zero ⟨.storesOnly,.always⟩,store⟩,.afterMutation stocked 1⟩

-- A store that refuses its seventh call. It is the second deletion of the
-- discard, so only the header is gone.
def breaking : Watched Memory := { Watched.unlimited Memory.empty with refuses := fun number => number == 6 }
def stranding : Turn (Watched Memory) := ⟨(stocking breaking).after,.discard⟩

theorem stranded_skipped :
    (∃ found, (recover .zero noting .storesOnly (stocking Memory.empty).after.store).1 = .ok found ∧
      found.engine.stores = stocked.stores ∧ found.header.stateVersion = 1) ∧
    (¬ ∃ found, (recover .zero noting .storesOnly stranding.after.store).1 = .ok found ∧
      found.engine.stores = stocked.stores ∧ found.header.stateVersion = 1) ∧
    (recover .zero noting .storesOnly stranding.after.store).1 = .error (.notFound .zero) := by
  have plain : stocked.stores.values = [] := by decide +kernel
  have asked : askAll Engine.ask [.insert parcel] (Engine.new noting) = (_,stocked) := rfl
  have first {σ : Type} [Store σ] (store : σ) : Served ⟨.new .zero ⟨.storesOnly,.always⟩,store⟩ [stocking store]
      (stocking store).after := .next .start _ fun _ _ _ _ among => by cases among
  constructor
  · have durable : (stocking Memory.empty).after.writer.durable = some 1 := by decide +kernel
    have skipped := safepoint_skips (by decide +kernel) durable stocked (stocking Memory.empty).after.store
    have online : (stocking Memory.empty).after.store.available = true := by decide +kernel
    have restored := skipped_restored_iff (first Memory.empty) .new asked rfl (by simp [plain]) (by simp [plain,Legible])
      (by decide) (by simp [Follows,stocking,Task.state?]) skipped ((Memory.steady online).readable.reached ..)
    exact restored.1.mpr ⟨by decide +kernel,by decide +kernel⟩
  · have served := Served.next (first breaking) .discard fun _ _ state => by cases state
    have durable : stranding.after.writer.durable = some 1 := by decide +kernel
    have skipped := safepoint_skips (by decide +kernel) durable stocked stranding.after.store
    have restored := skipped_restored_iff served .new asked rfl (by simp [plain]) (by simp [plain,Legible]) (by decide)
      (by simp [Follows,stocking,Task.state?]) skipped (by decide +kernel)
    have gone : shelf stranding.after.store .zero .header = none := by decide +kernel
    exact ⟨fun held => (restored.1.mp held).1 gone,(restored.2.1 gone).1⟩

end Stranding
end DurableRules
