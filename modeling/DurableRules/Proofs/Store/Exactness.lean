import DurableRules.Proofs.Store.Atomicity
import DurableRules.Proofs.Store.Filing
import DurableRules.Proofs.Store.Interruption

namespace DurableRules

-- A call that has nothing left to do.
def Spent {σ : Type} [Store σ] (edit : Edit) (store : σ) : Prop := edit.run store = (.ok (),store)

-- A store in which a call that went through is seen and has nothing left to
-- do, also after calls for other components of its session.
class Lasting (σ : Type) [Store σ] : Prop where
  reads {store : σ} {edit : Edit} : (edit.run store).1 = .ok () →
    reading (edit.run store).2 = Function.update (reading store) edit.key (.ok edit.bytes)
  again {store : σ} {edit : Edit} : (edit.run store).1 = .ok () → Spent edit (edit.run store).2
  aside {store : σ} {one other : Edit} : Spent one store → (other.run store).1 = .ok () →
    other.key.id = one.key.id → other.key.tag ≠ one.key.tag → Spent one (other.run store).2

namespace Memory
variable {m : Memory} {edit one other : Edit}

theorem edit_ok (went : (edit.run m).1 = .ok ()) :
    m.available = true ∧ (edit.run m).2 = { m with entries := change edit m.entries } := by
  rw [edit_run] at went ⊢
  unfold whenOnline at went ⊢
  by_cases available : m.available = true
  · simp [available]
  · simp [available] at went

theorem reading_eq (available : m.available = true) : reading m = Except.ok ∘ m.entries.get? := by
  funext key
  change (whenOnline (fun entries => (entries.get? key,entries)) m).1 = _
  rw [whenOnline,if_pos available]
  rfl

theorem spent_iff : Spent edit m ↔ m.available = true ∧ m.entries.get? edit.key = edit.bytes := by
  constructor
  · intro spent
    obtain ⟨available,after⟩ := edit_ok (congrArg Prod.fst spent)
    rw [show (edit.run m).2 = m from congrArg Prod.snd spent] at after
    refine ⟨available,?_⟩
    rw [after,change_get?,Function.update_self]
  · intro lies
    obtain ⟨available,lies⟩ := lies
    have same : change edit m.entries = m.entries := Map.ext_get? fun key => by
      rw [change_get?,← lies,Function.update_eq_self]
    rw [Spent,edit_run,whenOnline,if_pos available,same]

instance : Lasting Memory where
  reads {m edit} went := by
    obtain ⟨available,after⟩ := edit_ok went
    rw [after,reading_eq available,@reading_eq { m with entries := change edit m.entries } available,change_get?]
    exact Function.comp_update ..
  again went := by
    obtain ⟨available,after⟩ := edit_ok went
    rw [after,spent_iff,change_get?]
    exact ⟨available,Function.update_self ..⟩
  aside {_ one other} spent went _ apart := by
    obtain ⟨available,lies⟩ := spent_iff.mp spent
    rw [(edit_ok went).2,spent_iff,change_get?,Function.update_of_ne fun same => apart (congrArg Key.tag same.symm)]
    exact ⟨available,lies⟩

end Memory

namespace Table
variable {t : Table} {edit one other : Edit}

def contents (t : Table) (key : Key) : Option ByteArray := t.rows.get? (.of key.id key.tag)

theorem contents_change (t : Table) (edit : Edit) :
    contents (t.change edit) = Function.update t.contents edit.key edit.bytes := by
  funext key
  rw [contents,change_get?,Function.update_apply]
  by_cases same : key = edit.key
  · rw [if_pos same,if_pos (congrArg (fun key : Key => RowKey.of key.id key.tag) same)]
  · rw [if_neg same,if_neg fun equal => same (of_injective equal)]
    rfl

theorem spent_iff : Spent edit t ↔ t.contents edit.key = edit.bytes := by
  rw [Spent,edit_run]
  constructor
  · intro spent
    have lies := congrFun (contents_change t edit) edit.key
    rw [(Prod.mk.inj spent).2,Function.update_self] at lies
    exact lies
  · intro lies
    have same : (t.change edit).rows = t.rows := Map.ext_get? fun key => by
      rw [change_get?]
      split
      · next here => rw [here,← lies,contents]
      · rfl
    exact congrArg (fun rows => (Except.ok (),Table.mk rows)) same

instance : Lasting Table where
  reads {t edit} _ := by
    rw [edit_run]
    exact (congrArg (Except.ok ∘ ·) (contents_change t edit)).trans (Function.comp_update ..)
  again {t edit} _ := by
    rw [edit_run,spent_iff,contents_change,Function.update_self]
  aside {t one other} spent _ _ apart := by
    rw [edit_run,spent_iff,contents_change,Function.update_of_ne fun same => apart (congrArg Key.tag same.symm)]
    exact spent_iff.mp spent

end Table

namespace Directory
open Disk
variable {d : Directory} {disk next : Node} {home : Path} {id : SessionId} {tag : Tag} {bytes : ByteArray} {edit one other : Edit}

theorem draftName_injective {one two : Tag} (same : draftName one = draftName two) : one = two := by
  revert same
  cases one <;> cases two <;> decide

theorem refilled_same {files : List (String × Node)} (lies : files.lookup (finalName tag) = some (.file bytes))
    (gone : files.lookup (draftName tag) = none) : refilled tag bytes files = files := by
  have undrafted : removeEntry (draftName tag) (replaceEntry (draftName tag) (.file bytes) files) = files :=
    (putEntry_replaceEntry none).trans (removeEntry_absent gone)
  rw [refilled,replaceEntry_again,undrafted,replaceEntry_self lies]

theorem folder_of_file (lies : find disk (component home id tag) = .ok (.file bytes)) : ∃ files,
    find disk (sessionFolder home id) = .ok (.folder files) ∧ files.lookup (finalName tag) = some (.file bytes) := by
  have inside := lies
  rw [component,find_append] at inside
  cases found : find disk (sessionFolder home id) with
  | error fault =>
    rw [found] at inside
    cases inside
  | ok node =>
    rw [found] at inside
    cases node with
    | file => cases inside
    | folder files => exact ⟨files,rfl,held_ok.mp (find_slot.symm.trans inside)⟩

theorem put_spent (lies : find disk (component home id tag) = .ok (.file bytes))
    (gone : find disk (draft home id tag) = .error .notFound) : run (putSteps home id tag bytes) disk = (.ok (),disk) := by
  obtain ⟨files,found,file⟩ := folder_of_file lies
  have undrafted : files.lookup (draftName tag) = none := held_missing.mp ((find_inside found _).symm.trans gone)
  rw [put_inside (makeFolders_there found) found (by simp [undrafted]) (by simp [file]),refilled_same file undrafted,graft_self found]

theorem remove_spent (gone : find disk (component home id tag) = .error .notFound)
    (tidy : find disk (sessionFolder home id) ≠ .ok (.folder [])) : remove disk home id tag = (.ok (),disk) := by
  rw [remove,alter_missing gone rfl,prune_full tidy]

def Done (d : Directory) (edit : Edit) : Prop :=
  match edit.bytes with
  | some bytes => find d.disk (component d.home edit.key.id edit.key.tag) = .ok (.file bytes) ∧
      find d.disk (draft d.home edit.key.id edit.key.tag) = .error .notFound
  | none => find d.disk (component d.home edit.key.id edit.key.tag) = .error .notFound ∧
      find d.disk (sessionFolder d.home edit.key.id) ≠ .ok (.folder [])

structure Around (home : Path) (id : SessionId) (tag : Tag) (disk next : Node) : Prop where
  others {key : String} : key ≠ draftName tag → key ≠ finalName tag → find next (spot home id key) = find disk (spot home id key)
  tidy : find next (sessionFolder home id) ≠ .ok (.folder [])

theorem around_put (stored : Stored home id tag bytes disk next) : Around home id tag disk next := by
  refine ⟨fun draft final => stored.others fun same => same.2.elim draft final,fun empty => ?_⟩
  obtain ⟨files,found,lies⟩ := folder_of_file stored.lies
  cases found.symm.trans empty
  cases lies

theorem done_edit (went : (edit.run d).1 = .ok ()) : (edit.run d).2.Done edit ∧
    Around d.home edit.key.id edit.key.tag d.disk (edit.run d).2.disk := by
  obtain ⟨⟨id,tag⟩,_ | bytes⟩ := edit
  · rw [delete_eq] at went ⊢
    rcases remove_cases d.disk d.home id tag with ⟨_,removed,_⟩ | ⟨refused,_⟩
    · exact ⟨⟨removed.gone,removed.tidy⟩,fun _ final => removed.others fun same => final same.2,removed.tidy⟩
    · rw [refused] at went
      cases went
  · rw [put_eq] at went ⊢
    cases puts : run (putSteps d.home id tag bytes) d.disk with
    | mk answer next =>
      rw [puts] at went
      cases answer with
      | error => cases went
      | ok =>
        have stored := put_ok puts
        exact ⟨⟨stored.lies,stored.gone⟩,around_put stored⟩

theorem spent_iff : Spent edit d ↔ d.Done edit := by
  constructor
  · intro spent
    have done := (done_edit (congrArg Prod.fst spent)).1
    rwa [show (edit.run d).2 = d from congrArg Prod.snd spent] at done
  · intro done
    obtain ⟨⟨id,tag⟩,_ | bytes⟩ := edit
    · rw [Spent,delete_eq,remove_spent done.1 done.2]
    · rw [Spent,put_eq,put_spent done.1 done.2]
      rfl

theorem Done.aside (done : d.Done one) (went : (other.run d).1 = .ok ()) (own : other.key.id = one.key.id)
    (apart : other.key.tag ≠ one.key.tag) : (other.run d).2.Done one := by
  have home : (other.run d).2.home = d.home := by
    obtain ⟨key,_ | bytes⟩ := other <;> rfl
  have around := (done_edit went).2
  rw [own] at around
  have final : find (other.run d).2.disk (component d.home one.key.id one.key.tag) = find d.disk (component d.home one.key.id one.key.tag) :=
    around.others (draftName_apart _ _) fun same => apart (finalName_injective same).symm
  have drafted : find (other.run d).2.disk (draft d.home one.key.id one.key.tag) = find d.disk (draft d.home one.key.id one.key.tag) :=
    around.others (fun same => apart (draftName_injective same).symm) fun same => draftName_apart _ _ same.symm
  unfold Done at done ⊢
  rw [home,final,drafted]
  cases held : one.bytes with
  | some bytes => rwa [held] at done
  | none =>
    rw [held] at done
    exact ⟨done.1,around.tidy⟩

instance : Lasting Directory where
  reads {d edit} went := by
    rcases edit_cases d edit with ⟨_,reads⟩ | ⟨failed,_⟩
    · exact reads
    · cases went.symm.trans failed
  again went := spent_iff.mpr (done_edit went).1
  aside spent went own apart := spent_iff.mpr ((spent_iff.mp spent).aside went own apart)

end Directory

section Passing
variable {σ τ : Type} [Store σ] [Store τ] {wrap : τ → σ} {store : τ} {edit one other : Edit}

structure Passes (wrap : τ → σ) : Prop where
  injective : Function.Injective wrap
  edit (edit : Edit) (store : τ) : edit.run (wrap store) = ((edit.run store).1,wrap (edit.run store).2)
  reading (store : τ) : reading (wrap store) = reading store

namespace Passes

theorem spent_iff (passes : Passes wrap) : Spent edit (wrap store) ↔ Spent edit store := by
  rw [Spent,Spent,passes.edit,Prod.ext_iff,Prod.ext_iff]
  exact and_congr_right fun _ => passes.injective.eq_iff

variable [Lasting τ]

theorem reads (passes : Passes wrap) (went : (edit.run (wrap store)).1 = .ok ()) : DurableRules.reading (edit.run (wrap store)).2 =
    Function.update (DurableRules.reading (wrap store)) edit.key (.ok edit.bytes) := by
  rw [passes.edit] at went ⊢
  rw [passes.reading,passes.reading]
  exact Lasting.reads went

theorem again (passes : Passes wrap) (went : (edit.run (wrap store)).1 = .ok ()) : Spent edit (edit.run (wrap store)).2 := by
  rw [passes.edit] at went ⊢
  exact passes.spent_iff.mpr (Lasting.again went)

theorem aside (passes : Passes wrap) (spent : Spent one (wrap store)) (went : (other.run (wrap store)).1 = .ok ())
    (own : other.key.id = one.key.id) (apart : other.key.tag ≠ one.key.tag) : Spent one (other.run (wrap store)).2 := by
  rw [passes.edit] at went ⊢
  exact passes.spent_iff.mpr (Lasting.aside (passes.spent_iff.mp spent) went own apart)

end Passes

theorem Backend.passes_memory : Passes Backend.memory :=
  ⟨fun _ _ => Backend.memory.inj,fun edit _ => by obtain ⟨key,_ | bytes⟩ := edit <;> rfl,fun _ => rfl⟩

theorem Backend.passes_directory : Passes Backend.directory :=
  ⟨fun _ _ => Backend.directory.inj,fun edit _ => by obtain ⟨key,_ | bytes⟩ := edit <;> rfl,fun _ => rfl⟩

theorem Backend.passes_table : Passes Backend.table :=
  ⟨fun _ _ => Backend.table.inj,fun edit _ => by obtain ⟨key,_ | bytes⟩ := edit <;> rfl,fun _ => rfl⟩

instance : Lasting Backend where
  reads {b edit} went := by
    cases b with
    | memory m => exact Backend.passes_memory.reads went
    | directory d => exact Backend.passes_directory.reads went
    | table t => exact Backend.passes_table.reads went
  again {b edit} went := by
    cases b with
    | memory m => exact Backend.passes_memory.again went
    | directory d => exact Backend.passes_directory.again went
    | table t => exact Backend.passes_table.again went
  aside {b one other} spent went own apart := by
    cases b with
    | memory m => exact Backend.passes_memory.aside spent went own apart
    | directory d => exact Backend.passes_directory.aside spent went own apart
    | table t => exact Backend.passes_table.aside spent went own apart

end Passing

section Rows
variable {σ : Type} [Store σ] {edits : List Edit} {edit one : Edit} {w : Watched σ}

theorem Watched.edit_ok (went : (edit.run w).1 = .ok ()) :
    (edit.run w.store).1 = .ok () ∧ (edit.run w).2.store = (edit.run w.store).2 := by
  rw [edit_run] at went ⊢
  by_cases refused : w.refuses w.asked = true
  · obtain ⟨⟨cause,failed⟩,_⟩ := @ask_refused _ _ (match edit.bytes with | some _ => .put edit.key.tag | none => .delete edit.key.tag) edit.run _ refused
    cases went.symm.trans failed
  · obtain ⟨answer,store⟩ := ask_passed refused
    exact ⟨answer.symm.trans went,store⟩

theorem row_ok {rest : List Edit} (went : ((edit :: rest).forM Edit.run w).1 = .ok ()) : (edit.run w).1 = .ok () ∧
    ((edit :: rest).forM Edit.run : Call (Watched σ) Unit) w = rest.forM Edit.run (edit.run w).2 := by
  change ((edit.run >>= fun _ => rest.forM Edit.run : Call (Watched σ) Unit) w).1 = .ok () at went
  change _ ∧ (edit.run >>= fun _ => rest.forM Edit.run : Call (Watched σ) Unit) w = _
  cases first : edit.run w with
  | mk answer next =>
    cases answer with
    | ok => exact ⟨rfl,bind_of_ok first⟩
    | error cause =>
      rw [bind_of_error first] at went
      cases went

variable [Lasting σ]

theorem row_aside (spent : Spent one w.store) (went : (edits.forM Edit.run w).1 = .ok ())
    (apart : ∀ other ∈ edits, other.key.id = one.key.id ∧ other.key.tag ≠ one.key.tag) :
    Spent one (edits.forM Edit.run w).2.store := by
  induction edits generalizing w with
  | nil => exact spent
  | cons edit rest ih =>
    obtain ⟨first,same⟩ := row_ok went
    obtain ⟨passed,store⟩ := Watched.edit_ok first
    obtain ⟨own,differ⟩ := apart edit List.mem_cons_self
    rw [same] at went ⊢
    exact ih (store ▸ Lasting.aside spent passed own differ) went fun other present => apart other (List.mem_cons_of_mem _ present)

theorem row_spent {id : SessionId} (own : ∀ edit ∈ edits, edit.key.id = id)
    (distinct : edits.Pairwise fun one other => one.key.tag ≠ other.key.tag) (went : (edits.forM Edit.run w).1 = .ok ()) :
    ∀ edit ∈ edits, Spent edit (edits.forM Edit.run w).2.store := by
  induction edits generalizing w with
  | nil => exact fun edit none => absurd none List.not_mem_nil
  | cons edit rest ih =>
    obtain ⟨first,same⟩ := row_ok went
    obtain ⟨passed,store⟩ := Watched.edit_ok first
    obtain ⟨differ,later⟩ := List.pairwise_cons.mp distinct
    have others : ∀ other ∈ rest, other.key.id = id := fun other present => own other (List.mem_cons_of_mem _ present)
    rw [same] at went ⊢
    refine List.forall_mem_cons.mpr ⟨?_,ih others later went⟩
    refine row_aside (store ▸ Lasting.again passed) went fun other present => ⟨?_,(differ other present).symm⟩
    rw [others other present,own edit List.mem_cons_self]

theorem row_beside {key : Key} (went : (edits.forM Edit.run w).1 = .ok ()) (apart : ∀ edit ∈ edits, key ≠ edit.key) :
    reading (edits.forM Edit.run w).2.store key = reading w.store key := by
  induction edits generalizing w with
  | nil => rfl
  | cons edit rest ih =>
    obtain ⟨first,same⟩ := row_ok went
    obtain ⟨passed,store⟩ := Watched.edit_ok first
    rw [same] at went ⊢
    rw [ih went fun other present => apart other (List.mem_cons_of_mem _ present),store,Lasting.reads passed]
    exact Function.update_of_ne (apart edit List.mem_cons_self) _ _

theorem Spent.reads {store : σ} (spent : Spent edit store) : reading store edit.key = .ok edit.bytes := by
  have reads := Lasting.reads (congrArg Prod.fst spent)
  rw [show (edit.run store).2 = store from congrArg Prod.snd spent] at reads
  rw [reads]
  exact Function.update_self ..

omit [Lasting σ] in
-- A call with nothing left to do changes nothing, also when it is refused.
theorem Spent.idle (spent : Spent edit w.store) : (edit.run w).2.store = w.store ∧
    (edit.run w).2.refuses = w.refuses ∧ (w.refuses w.asked = false → (edit.run w).1 = .ok ()) := by
  rw [Watched.edit_run]
  refine ⟨?_,(Watched.ask_counts ..).2,fun passes => ?_⟩
  · by_cases refused : w.refuses w.asked = true
    · exact (Watched.ask_refused refused).2
    · exact (Watched.ask_passed refused).2.trans (congrArg Prod.snd spent)
  · exact (Watched.ask_passed (by simp [passes])).1.trans (congrArg Prod.fst spent)

omit [Lasting σ] in
theorem row_idle (edits : List Edit) (w : Watched σ) (spent : ∀ edit ∈ edits, Spent edit w.store) : (edits.forM Edit.run w).2.store = w.store ∧
    ((∀ number, w.refuses number = false) → (edits.forM Edit.run w).1 = .ok ()) := by
  induction edits generalizing w with
  | nil => exact ⟨rfl,fun _ => rfl⟩
  | cons edit rest ih =>
    obtain ⟨same,refuses,passes⟩ := (spent edit List.mem_cons_self).idle
    change ((edit.run >>= fun _ => rest.forM Edit.run : Call (Watched σ) Unit) w).2.store = _ ∧
      (_ → ((edit.run >>= fun _ => rest.forM Edit.run : Call (Watched σ) Unit) w).1 = _)
    cases first : edit.run w with
    | mk answer next =>
      rw [first] at same refuses passes
      cases answer with
      | error cause =>
        rw [bind_of_error first]
        exact ⟨same,fun free => nomatch passes (free _)⟩
      | ok =>
        rw [bind_of_ok first]
        obtain ⟨later,free⟩ := @ih next fun other present => same ▸ spent other (List.mem_cons_of_mem _ present)
        exact ⟨later.trans same,fun all => free fun number => (congrFun refuses number).trans (all number)⟩

end Rows

section Checkpoints
variable {σ : Type} [Store σ] {w durable : Writer} {e : Engine} {version : Nat} {place : Watched σ}

theorem Writer.edits_distinct (w : Writer) (e : Engine) (version : Nat) :
    (w.edits e version).Pairwise fun one other => one.key.tag ≠ other.key.tag := by
  unfold edits componentEdits Snapshot.encode Snapshot.components
  cases w.options.persistence <;> simp

theorem Writer.edits_cover (w : Writer) (e : Engine) (version : Nat) (tag : Tag) : ∃ bytes : Option ByteArray,
    ⟨⟨w.id,tag⟩,bytes⟩ ∈ w.edits e version ∧
      ∀ found, bytes = some found ↔ (tag,found) ∈ Snapshot.encode w.id e w.options version := by
  unfold edits componentEdits Snapshot.encode Snapshot.components
  cases w.options.persistence <;> cases tag <;> simp <;> exact fun _ => eq_comm

theorem write_ok (went : (w.write e version place).1 = .ok durable) : ((w.edits e version).forM Edit.run place).1 = .ok () ∧
    durable = { w with durable := some version } ∧
    (w.write e version place).2 = ((w.edits e version).forM Edit.run place).2 := by
  rw [write_rows] at went ⊢
  cases rows : (w.edits e version).forM Edit.run place with
  | mk answer next =>
    cases answer with
    | ok =>
      rw [bind_of_ok rows] at went ⊢
      cases went
      exact ⟨rfl,rfl,rfl⟩
    | error cause =>
      rw [bind_of_error rows] at went
      cases went

-- The components of the session that are there after a checkpoint are those of
-- the snapshot, whatever was there before, and those of other sessions are as
-- they were. When it is made again the store stays as it is, whatever is refused.
theorem checkpoint_exact [Lasting σ] (went : (w.write e version place).1 = .ok durable) :
    durable = { w with durable := some version } ∧
    (∀ tag, ∃ bytes, reading (w.write e version place).2.store ⟨w.id,tag⟩ = .ok bytes ∧
      ∀ found, bytes = some found ↔ (tag,found) ∈ Snapshot.encode w.id e w.options version) ∧
    (w.options.persistence = .storesOnly → reading (w.write e version place).2.store ⟨w.id,.network⟩ = .ok none) ∧
    (∀ key, key.id ≠ w.id → reading (w.write e version place).2.store key = reading place.store key) ∧
    ∀ later : Watched σ, later.store = (w.write e version place).2.store →
      (durable.write e version later).2.store = later.store ∧
      ((∀ number, later.refuses number = false) → (durable.write e version later).1 = .ok durable) := by
  obtain ⟨rows,rfl,same⟩ := write_ok went
  have spent := row_spent (fun _ => Writer.edits_own) (w.edits_distinct e version) rows
  have lies (tag : Tag) : ∃ bytes, reading (w.write e version place).2.store ⟨w.id,tag⟩ = .ok bytes ∧
      ∀ found, bytes = some found ↔ (tag,found) ∈ Snapshot.encode w.id e w.options version := by
    obtain ⟨bytes,present,exactly⟩ := w.edits_cover e version tag
    rw [same]
    exact ⟨bytes,(spent _ present).reads,exactly⟩
  refine ⟨rfl,lies,fun only => ?_,fun key apart => ?_,fun later found => ?_⟩
  · obtain ⟨bytes,reads,exactly⟩ := lies .network
    cases bytes with
    | none => exact reads
    | some found =>
      obtain ⟨tree,inside,_⟩ := mem_encode.mp ((exactly found).mp rfl)
      have paged := mem_components.mp inside
      simp [only] at paged
  · rw [same]
    exact row_beside rows fun edit present own => apart (own ▸ Writer.edits_own present)
  · have again : ({ w with durable := some version } : Writer).edits e version = w.edits e version := rfl
    obtain ⟨idle,passes⟩ := row_idle (w.edits e version) later fun edit present => found ▸ same ▸ spent edit present
    rw [write_rows,again]
    cases rows : (w.edits e version).forM Edit.run later with
    | mk answer next =>
      rw [rows] at idle passes
      cases answer with
      | ok =>
        rw [bind_of_ok rows]
        exact ⟨idle,fun _ => rfl⟩
      | error cause =>
        rw [bind_of_error rows]
        exact ⟨idle,fun free => nomatch passes free⟩

-- An old network, what is no header, and a draft of the facts, beside another session.
def strewn : Backend := .directory ⟨.folder [("sessions",.folder [
  (SessionId.zero.toText,.folder [("network.json",.file "1".toUTF8),("header.json",.file "2".toUTF8),("facts.tmp",.file "3".toUTF8)]),
  (ten.toText,.folder [("header.json",.file "4".toUTF8)])])],[]⟩

def resumed : Writer := .resumed .zero shelving.options 2

theorem strewn_exact : (shelving.write Engine.paired 2 (Watched.unlimited strewn)).1 = .ok resumed ∧
    reading (shelving.write Engine.paired 2 (Watched.unlimited strewn)).2.store ⟨.zero,.network⟩ = .ok none ∧
    reading (shelving.write Engine.paired 2 (Watched.unlimited strewn)).2.store ⟨ten,.header⟩ = .ok (some "4".toUTF8) ∧
    ∀ later : Watched Backend, later.store = (shelving.write Engine.paired 2 (Watched.unlimited strewn)).2.store →
      (resumed.write Engine.paired 2 later).2.store = later.store := by
  have went : (shelving.write Engine.paired 2 (Watched.unlimited strewn)).1 = .ok resumed := by decide +kernel
  have other : reading strewn ⟨ten,.header⟩ = .ok (some "4".toUTF8) := by decide +kernel
  obtain ⟨_,_,paged,beside,again⟩ := checkpoint_exact went
  exact ⟨went,paged rfl,(beside ⟨ten,.header⟩ (by decide)).trans other,fun later same => (again later same).1⟩

end Checkpoints
end DurableRules
