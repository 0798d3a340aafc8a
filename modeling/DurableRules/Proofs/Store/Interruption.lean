import DurableRules.Proofs.Engine.Lineage
import DurableRules.Proofs.Snapshot.Inverse
import DurableRules.Proofs.Store.Skipping

namespace DurableRules
open Recovery

-- A checkpoint is a row of changes, made one after the other, as a discard is.
section Rows
variable {σ : Type}

theorem forM_flatMap {α β : Type} (items : List α) (rows : α → List β) (act : β → Call σ Unit) :
    (items.flatMap rows).forM act = items.forM fun item => (rows item).forM act := by
  induction items with
  | nil => rfl
  | cons item rest ih =>
    rw [List.flatMap_cons]
    exact (List.forM_append ..).trans (congrArg (do (rows item).forM act; ·) ih)

variable [Store σ]

theorem writeComponent_rows (w : Writer) (component : Tag × ByteArray) :
    (w.writeComponent component : Call σ Unit) = (w.componentEdits component).forM Edit.run := by
  unfold Writer.writeComponent Writer.componentEdits
  split <;> simp [Edit.run]

theorem write_rows (w : Writer) (e : Engine) (version : Nat) : (w.write e version : Call σ Writer) = do
    (w.edits e version).forM Edit.run
    return { w with durable := some version } := by
  have rows : ((Snapshot.encode w.id e w.options version).forM w.writeComponent : Call σ Unit) =
      (w.edits e version).forM Edit.run := by
    rw [Writer.edits,forM_flatMap,funext (writeComponent_rows w)]
  rw [← rows]
  rfl

end Rows

namespace Watched
variable {σ : Type}

def upTo (store : σ) (count : Nat) : Watched σ := (unlimited store).allow (some count)

def Allows (w : Watched σ) (count : Nat) : Prop := ∀ number, w.refuses (w.asked + number) = decide (count ≤ number)

theorem upTo_allows (store : σ) (count : Nat) : (upTo store count).Allows count := fun number => by
  simp [upTo,allow,unlimited]

section Asking
variable {α : Type} {w : Watched σ} {count : Nat}

theorem ask_counts (request : Request) (call : Call σ α) (w : Watched σ) :
    (ask request call w).2.asked = w.asked + 1 ∧ (ask request call w).2.refuses = w.refuses := by
  unfold ask
  split <;> exact ⟨rfl,rfl⟩

theorem Allows.refused (allows : w.Allows 0) : w.refuses w.asked = true := by simpa using allows 0

theorem Allows.passed (allows : w.Allows (count + 1)) : ¬ w.refuses w.asked = true := by simpa using allows 0

theorem Allows.next (allows : w.Allows (count + 1)) (request : Request) (call : Call σ α) :
    (ask request call w).2.Allows count := by
  intro number
  obtain ⟨asked,refuses⟩ := ask_counts request call w
  rw [refuses,asked,Nat.add_assoc,allows,Nat.add_comm 1]
  simp

end Asking
end Watched

def cutOff {σ α : Type} (call : Call (Watched σ) α) (store : σ) (count : Nat) : Except StoreError α × σ :=
  let (answer,place) := call (.upTo store count)
  (answer,place.store)

section Limits
variable {σ : Type} [Store σ] [Faithful σ] {edits : List Edit} {count : Nat} {w : Watched σ}

-- What comes of a row of changes when so many calls pass: those are made, and
-- the row succeeds if they are all of it.
structure Limited (edits : List Edit) (count : Nat) (w : Watched σ)
    (outcome : Except StoreError Unit × Watched σ) : Prop where
  view : Faithful.view outcome.2.store = (Faithful.view w.store).edits Faithful.written (edits.take count)
  steady : Steady outcome.2.store
  passed : edits.length ≤ count → outcome.1 = .ok ()
  refused : count < edits.length → ∃ cause, outcome.1 = .error cause

theorem run_limited (steady : Steady w.store) (allows : w.Allows count) :
    Limited edits count w ((edits.forM Edit.run : Call (Watched σ) Unit) w) := by
  induction edits generalizing count w with
  | nil => exact ⟨by rw [List.take_nil]; rfl,steady,fun _ => rfl,fun more => absurd more (Nat.not_lt_zero _)⟩
  | cons edit rest ih =>
    change Limited _ _ _ ((edit.run >>= fun _ => rest.forM Edit.run) w)
    cases count with
    | zero =>
      have failing : (∃ cause, (edit.run w).1 = .error cause) ∧ (edit.run w).2.store = w.store := by
        rw [Watched.edit_run]
        exact Watched.ask_refused allows.refused
      obtain ⟨⟨cause,failed⟩,same⟩ := failing
      rw [bind_of_error (Prod.ext failed rfl)]
      exact ⟨congrArg Faithful.view same,same ▸ steady,fun more => absurd more (Nat.not_succ_le_zero _),fun _ => ⟨cause,rfl⟩⟩
    | succ count =>
      obtain ⟨ok,view,after⟩ := steady.edit edit
      have passing : (edit.run w).1 = .ok () ∧ (edit.run w).2.store = (edit.run w.store).2 ∧ (edit.run w).2.Allows count := by
        rw [Watched.edit_run,← ok]
        exact ⟨(Watched.ask_passed allows.passed).1,(Watched.ask_passed allows.passed).2,allows.next _ _⟩
      obtain ⟨went,store,fewer⟩ := passing
      rw [bind_of_ok (Prod.ext went rfl)]
      have later := ih (store ▸ after) fewer
      refine ⟨?_,later.steady,fun enough => later.passed (Nat.le_of_succ_le_succ enough),
        fun short => later.refused (Nat.lt_of_succ_lt_succ short)⟩
      rw [later.view,store,view]
      rfl

structure Leaves {α : Type} (edits : List Edit) (value : α) (id : SessionId) (store : σ) (count : Nat)
    (outcome : Except StoreError α × σ) : Prop where
  lies : shelf outcome.2 id = (edits.take count).foldl Shelf.edit (shelf store id)
  steady : Steady outcome.2
  whole : edits.length ≤ count → outcome.1 = .ok value
  short : count < edits.length → ∃ cause, outcome.1 = .error cause

theorem leaves_rows {α : Type} {value : α} {id : SessionId} {store : σ} (own : ∀ edit ∈ edits, edit.key.id = id)
    (steady : Steady store) (count : Nat) :
    Leaves edits value id store count (cutOff (do edits.forM Edit.run; return value) store count) := by
  have limited : Limited edits count (.upTo store count) _ := run_limited steady (Watched.upTo_allows store count)
  have lies : shelf ((edits.forM Edit.run : Call (Watched σ) Unit) (.upTo store count)).2.store id =
      (edits.take count).foldl Shelf.edit (shelf store id) := by
    rw [shelf,limited.view]
    exact shelf_edits_own fun edit present => own edit (List.mem_of_mem_take present)
  unfold cutOff
  by_cases enough : edits.length ≤ count
  · rw [bind_of_ok (Prod.ext (limited.passed enough) rfl)]
    exact ⟨lies,limited.steady,fun _ => rfl,fun short => absurd enough (Nat.not_le.mpr short)⟩
  · obtain ⟨cause,failed⟩ := limited.refused (Nat.not_le.mp enough)
    rw [bind_of_error (Prod.ext failed rfl)]
    exact ⟨lies,limited.steady,fun whole => absurd whole enough,fun _ => ⟨cause,rfl⟩⟩

end Limits

section Refusals
variable {shelf : Shelf} {id : SessionId} {header : Snapshot.Header} {facts : Snapshot.Facts}

-- The facts are the first part that is checked against the header.
theorem stored_torn (isHeader : Lies shelf .header Snapshot.Header.read header)
    (format : header.formatVersion = Snapshot.formatVersion) (own : header.id = id)
    (isFacts : Lies shelf .facts Snapshot.Facts.read facts) (apart : facts.stateVersion ≠ header.stateVersion) (program : Program) (persistence : Persistence) :
    stored shelf id program persistence = .error (.torn .facts header.stateVersion facts.stateVersion) := by
  obtain ⟨bytes,lying,read⟩ := isFacts
  have checked : checkHeader id header = .ok () := checkHeader_ok.mpr ⟨format,own⟩
  have torn : partOf header id .facts Snapshot.Facts.read (·.stateVersion) (shelf .facts) =
      .error (.torn .facts header.stateVersion facts.stateVersion) := by
    rw [lying,partOf,(decoded_ok _).mpr read]
    exact if_neg apart
  rw [stored,headerOf_ok.mpr isHeader]
  simp only [bind,Except.bind,checked,torn]

inductive Prior (shelf : Shelf) (id : SessionId) : Option Nat → Prop
  | snapshot {e : Engine} {options : Options} {version : Nat} (bounded : Bounded e version)
      (complete : Complete shelf id e options version) : Prior shelf id (some version)
  | headless (absent : shelf .header = none) : Prior shelf id none

-- How recovery turns down what is left of a checkpoint that was cut.
def refusal (id : SessionId) (version : Nat) : Option Nat → RecoveryError
  | some before => .torn .facts before version
  | none => .notFound id

end Refusals

section Cuts
variable {shelf : Shelf} {w : Writer} {e : Engine} {version count : Nat} {before : Option Nat}

def Writer.factsEdit (w : Writer) (e : Engine) (version : Nat) : Edit :=
  ⟨⟨w.id,.facts⟩,some (Snapshot.Facts.mk version (Snapshot.factEntries e.stores)).toTree.text.toUTF8⟩

theorem Writer.edits_facts (w : Writer) (e : Engine) (version : Nat) : ∃ rest, w.edits e version = w.factsEdit e version :: rest ∧
    rest.length = 4 ∧ ∀ edit ∈ rest, edit.key.tag ≠ .facts := by
  unfold edits factsEdit componentEdits Snapshot.encode Snapshot.components
  cases w.options.persistence <;> simp

theorem untouched {tag : Tag} {edits : List Edit} (apart : ∀ edit ∈ edits, edit.key.tag ≠ tag) :
    edits.foldl Shelf.edit shelf tag = shelf tag := by
  induction edits generalizing shelf with
  | nil => rfl
  | cons edit rest ih =>
    refine (@ih (shelf.edit edit) fun other present => apart other (List.mem_cons_of_mem _ present)).trans ?_
    exact Function.update_of_ne (apart edit List.mem_cons_self).symm _ _

-- With the first call the facts are those of the new checkpoint, and until the
-- last one the header is the old one.
theorem cut_refused (prior : Prior shelf w.id before) (storable : Storable e version) (apart : before ≠ some version)
    (some : 0 < count) (short : count < (w.edits e version).length) (program : Program) (persistence : Persistence) :
    stored (((w.edits e version).take count).foldl Shelf.edit shelf) w.id program persistence =
      .error (refusal w.id version before) := by
  have header := cut_header shelf short
  cases prior with
  | headless absent => exact stored_missing (header.trans absent) program persistence
  | @snapshot old options number bounded complete =>
    have facts : Lies (((w.edits e version).take count).foldl Shelf.edit shelf) .facts Snapshot.Facts.read
        ⟨version,Snapshot.factEntries e.stores⟩ := by
      refine ⟨_,?_,(conveys_storedFacts storable).decode⟩
      obtain ⟨rest,edits,_,clear⟩ := w.edits_facts e version
      obtain ⟨more,rfl⟩ := Nat.exists_eq_succ_of_ne_zero (Nat.ne_of_gt some)
      rw [edits,List.take_succ_cons,List.foldl_cons,untouched fun edit present => clear edit (List.mem_of_mem_take present)]
      exact Function.update_self _ _ _
    have lies : Lies (((w.edits e version).take count).foldl Shelf.edit shelf) .header Snapshot.Header.read
        (Snapshot.header w.id old options number) := by
      have before : Lies shelf .header Snapshot.Header.read (Snapshot.header w.id old options number) :=
        complete.lies (mem_components.mpr (by simp)) (conveys_storedHeader bounded)
      obtain ⟨bytes,lying,read⟩ := before
      exact ⟨bytes,header.trans lying,read⟩
    exact stored_torn lies rfl rfl facts (fun same => apart (congrArg Option.some same.symm)) program persistence

theorem discards_all (shelf : Shelf) (id : SessionId) (tag : Tag) : (discards id).foldl Shelf.edit shelf tag = none := by
  cases tag <;> rfl

end Cuts

section Interrupted
variable {σ : Type} [Store σ] [Faithful σ] {store : σ} {w : Writer} {program : Program}
  {responses : List Response} {e : Engine} {version : Nat} {before : Option Nat}

theorem discarded_bare (steady : Steady store) (w : Writer) :
    (w.discard store).1 = .ok { w with durable := none } ∧ ∀ tag, shelf (w.discard store).2 w.id tag = none := by
  obtain ⟨cut,_,view,answer,served⟩ := performs_discarding w store
  refine ⟨(served steady).1,fun tag => ?_⟩
  cases answer with
  | inl went =>
    obtain ⟨_,rfl⟩ := went
    rw [shelf,view,List.take_length,shelf_edits_own fun _ => discards_own]
    exact discards_all _ _ tag
  | inr failed =>
    obtain ⟨⟨cause,failed⟩,_⟩ := failed
    cases (served steady).1.symm.trans failed

-- A checkpoint takes five calls. Before the first one nothing has changed,
-- after the last one the new checkpoint is recovered, and in between recovery
-- tells that what is there is torn. A discard has no snapshot left from its
-- first call on, and one that goes through leaves nothing at all.
theorem interruption_detected (steady : Steady store) (prior : Prior (shelf store w.id) w.id before)
    (line : Engine.Lineage program responses e) (representable : ∀ value ∈ e.stores.values, value.Representable)
    (legible : Legible e.stores.values) (bounded : Bounded e version) (apart : before ≠ some version) (count : Nat) :
    ((count = 0 → ∀ other persistence, (recover w.id other persistence (cutOff (w.write e version) store count).2).1 =
        (recover w.id other persistence store).1) ∧
      (count < 5 → ∃ cause, (cutOff (w.write e version) store count).1 = .error cause) ∧
      (0 < count → count < 5 → ∀ other persistence,
        (recover w.id other persistence (cutOff (w.write e version) store count).2).1 = .error (refusal w.id version before)) ∧
      (5 ≤ count → (cutOff (w.write e version) store count).1 = .ok { w with durable := some version } ∧
        ∃ found, (recover w.id program w.options.persistence (cutOff (w.write e version) store count).2).1 = .ok found ∧
          found.engine.stores = e.stores ∧ found.header.stateVersion = version)) ∧
    (0 < count → (∀ other persistence,
        (recover w.id other persistence (cutOff w.discard store count).2).1 = .error (.notFound w.id)) ∧
      (w.discard (cutOff w.discard store count).2).1 = .ok { w with durable := none } ∧
      ∀ tag, shelf (w.discard (cutOff w.discard store count).2).2 w.id tag = none) := by
  have storable : Storable e version := ⟨bounded,Stores.portable_iff.mpr ((portable_iff legible).mpr representable)⟩
  have five : (w.edits e version).length = 5 := by
    obtain ⟨rest,edits,four,_⟩ := w.edits_facts e version
    rw [edits,List.length_cons,four]
  have written : Leaves (w.edits e version) _ w.id store count (cutOff (w.write e version) store count) :=
    @write_rows (Watched σ) _ w e version ▸ leaves_rows (fun _ => Writer.edits_own) steady count
  have discarded : Leaves (discards w.id) _ w.id store count (cutOff w.discard store count) :=
    leaves_rows (fun _ => discards_own) steady count
  refine ⟨⟨fun none other persistence => ?_,fun short => written.short (five ▸ short),fun some short other persistence => ?_,
    fun all => ⟨written.whole (five ▸ all),?_⟩⟩,fun some => ⟨fun other persistence => ?_,?_⟩⟩
  · subst none
    rw [written.steady.readable.recovers,steady.readable.recovers,written.lies]
    rfl
  · rw [written.steady.readable.recovers,written.lies]
    exact cut_refused prior storable apart some (five ▸ short) other persistence
  · obtain ⟨rfl,coherent,_⟩ := line.reachable.kept
    have complete := w.edits_complete (shelf store w.id) e version
    rw [← List.take_of_length_le (five ▸ all : (w.edits e version).length ≤ count),← written.lies] at complete
    obtain ⟨next,went,stores,_⟩ := complete.recovers storable coherent line.tidy
    exact ⟨_,(written.steady.readable.recovers ..).trans went,stores,rfl⟩
  · rw [discarded.steady.readable.recovers,discarded.lies]
    refine stored_missing ((discards_header count).resolve_left fun none => ?_) other persistence
    have length := congrArg List.length none
    simp [discards,Tag.all,Nat.ne_of_gt some] at length
  · exact discarded_bare discarded.steady w

end Interrupted

section Overwriting
open Engine

-- A full checkpoint of three items lies there, and the stores alone are written
-- over it after a pair has fired. The fourth call takes the old network away.
def overwritten : Memory := (paging.write paired 1 Memory.empty).2

theorem overwriting_detected :
    (recover .zero pairing .full (cutOff (shelving.write (paired.fire 1).2 2) overwritten 3).2).1 = .error (.torn .facts 1 2) ∧
    (recover .zero pairing .full (cutOff (shelving.write (paired.fire 1).2 2) Memory.empty 4).2).1 = .error (.notFound .zero) ∧
    (∃ found, (recover .zero pairing .storesOnly (cutOff (shelving.write (paired.fire 1).2 2) overwritten 5).2).1 = .ok found ∧
      found.engine.stores = (paired.fire 1).2.stores ∧ found.header.stateVersion = 2) ∧
    (recover .zero pairing .full (cutOff shelving.discard overwritten 1).2).1 = .error (.notFound .zero) := by
  have line : Lineage pairing _ (paired.fire 1).2 :=
    (((Lineage.new.asked (.insert item)).asked (.insert item)).asked (.insert item)).asked (.fire 1)
  have plain : (paired.fire 1).2.stores.values = [] := by decide
  obtain ⟨written,steady⟩ := write_steady (@Memory.steady Memory.empty rfl) paging paired 1
  have prior : Prior (shelf overwritten .zero) .zero (some 1) := .snapshot (by decide) (write_complete written)
  have empty : Prior (shelf Memory.empty .zero) .zero none := .headless rfl
  have detected (count : Nat) := @interruption_detected _ _ _ overwritten shelving _ _ _ 2 _ steady prior line
    (by simp [plain]) (by simp [plain,Legible]) (by decide) (by decide) count
  have first := @interruption_detected _ _ _ _ shelving _ _ _ 2 _ (@Memory.steady Memory.empty rfl) empty line
    (by simp [plain]) (by simp [plain,Legible]) (by decide) (by decide) 4
  exact ⟨(detected 3).1.2.2.1 (by decide) (by decide) pairing .full,first.1.2.2.1 (by decide) (by decide) pairing .full,
    ((detected 5).1.2.2.2 (by decide)).2,((detected 1).2 (by decide)).1 pairing .full⟩

end Overwriting
end DurableRules
