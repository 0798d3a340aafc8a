import DurableRules.Proofs.Ordered.Walk
import DurableRules.Store.Memory
import DurableRules.Store.Watched
import Mathlib.Logic.Function.Basic

namespace DurableRules

section Answers
variable {ε α β : Type} {f : α → β} {answer : Except ε α}

theorem map_ok {value : β} (went : answer.map f = .ok value) : ∃ first, answer = .ok first ∧ f first = value := by
  cases answer with
  | ok first => exact ⟨first,rfl,Except.ok.inj went⟩
  | error _ => cases went

theorem map_error {cause : ε} (failed : answer.map f = .error cause) : answer = .error cause := by
  cases answer with
  | ok value => cases failed
  | error _ =>
    cases failed
    rfl

end Answers

section Calls
variable {ε σ α β : Type} {call : ExceptT ε (StateM σ) α} {next : α → ExceptT ε (StateM σ) β} {store after : σ}

theorem bind_of_ok {value : α} (went : call store = (.ok value,after)) : (call >>= next) store = next value after := by
  change (match call store with | (answer,state) => ExceptT.bindCont next answer state) = _
  rw [went]
  rfl

theorem bind_of_error {cause : ε} (went : call store = (.error cause,after)) :
    (call >>= next) store = (.error cause,after) := by
  change (match call store with | (answer,state) => ExceptT.bindCont next answer state) = _
  rw [went]
  rfl

end Calls

structure Edit where
  key : Key
  bytes : Option ByteArray

def Edit.run {σ : Type} [Store σ] (edit : Edit) : Call σ Unit :=
  match edit.bytes with
  | some bytes => Store.put edit.key.id edit.key.tag bytes
  | none => Store.delete edit.key.id edit.key.tag

-- What is seen of a store: the bytes under each key, and a past that every
-- put that succeeds prolongs.
structure View (π : Type) where
  contents : Key → Option ByteArray
  past : π

def View.edit {π : Type} (written : Key → π → π) (v : View π) (edit : Edit) : View π where
  contents := Function.update v.contents edit.key edit.bytes
  past := if edit.bytes.isSome then written edit.key v.past else v.past

-- A store that keeps what it is given. Any call may fail, and then it changes nothing.
class Faithful (σ : Type) [Store σ] where
  Past : Type
  written : Key → Past → Past
  view : σ → View Past
  edit (store : σ) (edit : Edit) :
    (edit.run store).1 = .ok () ∧ view (edit.run store).2 = (view store).edit written edit ∨
      (∃ cause, (edit.run store).1 = .error cause) ∧ view (edit.run store).2 = view store
  get (store : σ) (id : SessionId) (tag : Tag) :
    view ((Store.get id tag : Call σ _) store).2 = view store ∧
      (((Store.get id tag : Call σ _) store).1 = .ok ((view store).contents ⟨id,tag⟩) ∨
        ∃ cause, ((Store.get id tag : Call σ _) store).1 = .error cause)
  sessions (store : σ) : view ((Store.sessions : Call σ _) store).2 = view store

inductive Ask where
  | change (edit : Edit)
  | get (id : SessionId) (tag : Tag)
  | sessions

def Ask.run {σ : Type} [Store σ] (store : σ) : Ask → Bool × σ
  | change edit => ((edit.run store).1.isOk,(edit.run store).2)
  | get id tag => (((Store.get id tag : Call σ _) store).1.isOk,((Store.get id tag : Call σ _) store).2)
  | sessions => (((Store.sessions : Call σ _) store).1.isOk,((Store.sessions : Call σ _) store).2)

def Ask.Reads (ask : Ask) : Prop := ∃ id tag, ask = .get id tag

-- No such call fails, now or after other such calls.
def Serves {σ : Type} [Store σ] (such : Ask → Prop) (store : σ) : Prop :=
  ∃ good : σ → Prop, good store ∧ ∀ store, good store → ∀ ask, such ask → (ask.run store).1 = true ∧ good (ask.run store).2

def Steady {σ : Type} [Store σ] (store : σ) : Prop := Serves (fun _ => True) store
def Readable {σ : Type} [Store σ] (store : σ) : Prop := Serves Ask.Reads store

section Laws
variable {σ : Type} [Store σ] {store : σ}

theorem Serves.ask {such : Ask → Prop} (serves : Serves such store) (ask : Ask) (asked : such ask) :
    (ask.run store).1 = true ∧ Serves such (ask.run store).2 := by
  obtain ⟨good,held,keeps⟩ := serves
  obtain ⟨answered,after⟩ := keeps store held ask asked
  exact ⟨answered,good,after,keeps⟩

theorem Steady.readable (steady : Steady store) : Readable store := by
  obtain ⟨good,held,keeps⟩ := steady
  exact ⟨good,held,fun store held ask _ => keeps store held ask trivial⟩

theorem Steady.get (steady : Steady store) (id : SessionId) (tag : Tag) :
    Steady ((Store.get id tag : Call σ _) store).2 := (steady.ask (.get id tag) trivial).2

variable [Faithful σ]

theorem Readable.get (readable : Readable store) (id : SessionId) (tag : Tag) :
    ((Store.get id tag : Call σ _) store).1 = .ok ((Faithful.view store).contents ⟨id,tag⟩) ∧
      Readable ((Store.get id tag : Call σ _) store).2 := by
  obtain ⟨answered,after⟩ := readable.ask (.get id tag) ⟨id,tag,rfl⟩
  refine ⟨?_,after⟩
  cases (Faithful.get store id tag).2 with
  | inl found => exact found
  | inr failed =>
    obtain ⟨cause,failed⟩ := failed
    rw [Ask.run,failed] at answered
    cases answered

theorem Steady.edit (steady : Steady store) (edit : Edit) : (edit.run store).1 = .ok () ∧
    Faithful.view (edit.run store).2 = (Faithful.view store).edit Faithful.written edit ∧ Steady (edit.run store).2 := by
  obtain ⟨answered,after⟩ := steady.ask (.change edit) trivial
  cases Faithful.edit store edit with
  | inl went => exact ⟨went.1,went.2,after⟩
  | inr failed =>
    obtain ⟨⟨cause,failed⟩,_⟩ := failed
    rw [Ask.run,failed] at answered
    cases answered

end Laws

section Instances

def Memory.change (edit : Edit) (entries : Map Key ByteArray) : Map Key ByteArray :=
  match edit.bytes with
  | some bytes => entries.put edit.key bytes
  | none => entries.erase edit.key

theorem Memory.edit_run (edit : Edit) (m : Memory) : edit.run m =
    Memory.whenOnline (fun entries => ((),Memory.change edit entries)) m := by
  obtain ⟨key,_ | bytes⟩ := edit <;> rfl

@[simp] theorem Memory.change_get? (edit : Edit) (entries : Map Key ByteArray) :
    (Memory.change edit entries).get? = Function.update entries.get? edit.key edit.bytes := by
  funext key
  rw [Function.update_apply]
  obtain ⟨changed,_ | bytes⟩ := edit
  · exact Map.get?_erase entries changed key
  · exact Map.get?_put entries changed key bytes

instance : Faithful Memory where
  Past := Unit
  written _ _ := ()
  view m := ⟨m.entries.get?,()⟩
  edit m edit := by
    rw [Memory.edit_run]
    by_cases available : m.available = true
    · simp [Memory.whenOnline,available,View.edit,Memory.change_get?]
    · simp [Memory.whenOnline,available]
  get m id tag := by
    by_cases available : m.available = true
    · simp [Store.get,Memory.whenOnline,available]
    · simp [Store.get,Memory.whenOnline,available]
  sessions m := by
    by_cases available : m.available = true
    · simp [Store.sessions,Memory.whenOnline,available]
    · simp [Store.sessions,Memory.whenOnline,available]

theorem Memory.steady {m : Memory} (available : m.available = true) : Steady m := by
  refine ⟨fun m => m.available = true,available,fun m available ask _ => ?_⟩
  cases ask with
  | change edit => simp [Ask.run,Memory.edit_run,Memory.whenOnline,available,Except.isOk,Except.toBool]
  | get id tag => simp [Ask.run,Store.get,Memory.whenOnline,available,Except.isOk,Except.toBool]
  | sessions => simp [Ask.run,Store.sessions,Memory.whenOnline,available,Except.isOk,Except.toBool]

section Watching
variable {σ α : Type} {request : Request} {call : Call σ α} {w : Watched σ}

theorem Watched.ask_refused (refused : w.refuses w.asked = true) :
    (∃ cause, (ask request call w).1 = .error cause) ∧ (ask request call w).2.store = w.store := by
  simp [ask,refused]

theorem Watched.ask_passed (passed : ¬ w.refuses w.asked = true) :
    (ask request call w).1 = (call w.store).1 ∧ (ask request call w).2.store = (call w.store).2 := by
  rw [ask,if_neg passed]
  exact ⟨rfl,rfl⟩

end Watching

variable {σ : Type} [Store σ]

theorem Watched.edit_run (edit : Edit) (w : Watched σ) : edit.run w =
    Watched.ask (match edit.bytes with
      | some _ => .put edit.key.tag
      | none => .delete edit.key.tag) edit.run w := by
  obtain ⟨key,_ | bytes⟩ := edit <;> rfl

instance [Faithful σ] : Faithful (Watched σ) where
  Past := Faithful.Past σ
  written := Faithful.written
  view w := Faithful.view w.store
  edit w edit := by
    rw [Watched.edit_run]
    by_cases refused : w.refuses w.asked = true
    · obtain ⟨failed,same⟩ := Watched.ask_refused refused
      exact .inr ⟨failed,by rw [same]⟩
    · obtain ⟨answer,store⟩ := Watched.ask_passed refused
      rw [answer,store]
      exact Faithful.edit w.store edit
  get w id tag := by
    change Faithful.view (Watched.ask _ _ w).2.store = _ ∧ ((Watched.ask _ _ w).1 = _ ∨ ∃ cause, (Watched.ask _ _ w).1 = _)
    by_cases refused : w.refuses w.asked = true
    · obtain ⟨failed,same⟩ := Watched.ask_refused refused
      exact ⟨congrArg Faithful.view same,.inr failed⟩
    · obtain ⟨answer,store⟩ := Watched.ask_passed refused
      rw [answer,store]
      exact Faithful.get w.store id tag
  sessions w := by
    by_cases refused : w.refuses w.asked = true
    · exact congrArg Faithful.view (Watched.ask_refused refused).2
    · exact (congrArg Faithful.view (Watched.ask_passed refused).2).trans (Faithful.sessions w.store)

end Instances

-- A store that keeps in mind which puts went through, the last one first.
structure Logged (σ : Type) where
  store : σ
  puts : List Key

namespace Logged

section Note
variable {σ α : Type}

def note (put : Option Key) (call : Call σ α) : Call (Logged σ) α := fun l =>
  match call l.store with
  | (.ok value,store) => (.ok value,⟨store,put.toList ++ l.puts⟩)
  | (.error cause,store) => (.error cause,⟨store,l.puts⟩)

theorem note_answer (put : Option Key) (call : Call σ α) (l : Logged σ) :
    (note put call l).1 = (call l.store).1 ∧ (note put call l).2.store = (call l.store).2 := by
  unfold note
  split <;> next same => simp [same]

theorem note_puts (put : Option Key) (call : Call σ α) (l : Logged σ) :
    (note put call l).2.puts = if (call l.store).1.isOk then put.toList ++ l.puts else l.puts := by
  unfold note
  split <;> next same => simp [same,Except.isOk,Except.toBool]

theorem note_none (call : Call σ α) (l : Logged σ) : (note none call l).2.puts = l.puts := by
  rw [note_puts]
  split <;> rfl

end Note

variable {σ : Type} [Store σ]

instance : Store (Logged σ) where
  put id tag bytes := note (some ⟨id,tag⟩) (Store.put id tag bytes)
  get id tag := note none (Store.get id tag)
  delete id tag := note none (Store.delete id tag)
  sessions := note none Store.sessions

theorem edit_run (edit : Edit) (l : Logged σ) :
    edit.run l = note (edit.bytes.map fun _ => edit.key) edit.run l := by
  obtain ⟨key,_ | bytes⟩ := edit <;> rfl

theorem get_run (id : SessionId) (tag : Tag) :
    (Store.get id tag : Call (Logged σ) _) = note none (Store.get id tag) := rfl

theorem sessions_run : (Store.sessions : Call (Logged σ) _) = note none Store.sessions := rfl

instance [Faithful σ] : Faithful (Logged σ) where
  Past := List Key
  written := List.cons
  view l := ⟨(Faithful.view l.store).contents,l.puts⟩
  edit l edit := by
    obtain ⟨answer,store⟩ := note_answer (edit.bytes.map fun _ => edit.key) edit.run l
    rw [edit_run,answer,store,note_puts]
    cases Faithful.edit l.store edit with
    | inl went =>
      left
      rw [went.1,went.2]
      cases held : edit.bytes <;> simp [View.edit,held,Except.isOk,Except.toBool]
    | inr failed =>
      right
      obtain ⟨⟨cause,failed⟩,same⟩ := failed
      simp [failed,same,Except.isOk,Except.toBool]
  get l id tag := by
    obtain ⟨answer,store⟩ := note_answer none (Store.get id tag : Call σ _) l
    obtain ⟨same,found⟩ := Faithful.get l.store id tag
    rw [get_run,note_none,store,same,answer]
    exact ⟨rfl,found⟩
  sessions l := by
    rw [sessions_run,note_none,(note_answer none (Store.sessions : Call σ _) l).2,Faithful.sessions l.store]

end Logged
end DurableRules
