import DurableRules.Checkpoint
import DurableRules.Proofs.Store.Faithful

namespace DurableRules

def View.edits {π : Type} (written : Key → π → π) (v : View π) (edits : List Edit) : View π :=
  edits.foldl (View.edit written) v

section Performing
variable {σ α β : Type} [Store σ] [Faithful σ]

-- The call makes these changes in this order, all of them when it succeeds
-- and those before some cut when it fails. On a steady store it succeeds.
def Performs (edits : List Edit) (value : α) (call : Call σ α) : Prop := ∀ store : σ, ∃ cut ≤ edits.length,
  Faithful.view (call store).2 = (Faithful.view store).edits Faithful.written (edits.take cut) ∧
    ((call store).1 = .ok value ∧ cut = edits.length ∨
      (∃ cause, (call store).1 = .error cause) ∧ cut < edits.length) ∧
    (Steady store → (call store).1 = .ok value ∧ Steady (call store).2)

theorem performs_pure (value : α) : Performs [] value (pure value : Call σ α) := fun _ =>
  ⟨0,Nat.le_refl _,rfl,.inl ⟨rfl,rfl⟩,fun steady => ⟨rfl,steady⟩⟩

theorem performs_edit (edit : Edit) : Performs [edit] () (edit.run : Call σ Unit) := by
  intro store
  have served (steady : Steady store) : (edit.run store).1 = .ok () ∧ Steady (edit.run store).2 :=
    ⟨(steady.edit edit).1,(steady.edit edit).2.2⟩
  cases Faithful.edit store edit with
  | inl went => exact ⟨1,Nat.le_refl _,went.2,.inl ⟨went.1,rfl⟩,served⟩
  | inr failed => exact ⟨0,Nat.zero_le _,failed.2,.inr ⟨failed.1,Nat.one_pos⟩,served⟩

theorem Performs.bind {first later : List Edit} {value : α} {last : β} {call : Call σ α} {next : α → Call σ β}
    (one : Performs first value call) (two : Performs later last (next value)) :
    Performs (first ++ later) last (call >>= next) := by
  intro store
  obtain ⟨cut,bound,view,answer,steady⟩ := one store
  cases answer with
  | inl went =>
    obtain ⟨ok,rfl⟩ := went
    have run : (call >>= next) store = next value (call store).2 := bind_of_ok (Prod.ext ok rfl)
    obtain ⟨more,less,seen,answer,steadier⟩ := two (call store).2
    refine ⟨first.length + more,by simpa using less,?_,?_,?_⟩
    · rw [run,seen,view,View.edits,View.edits,View.edits,List.take_length,List.take_length_add_append,List.foldl_append]
    · rw [run,List.length_append]
      cases answer with
      | inl went => exact .inl ⟨went.1,congrArg _ went.2⟩
      | inr failed => exact .inr ⟨failed.1,Nat.add_lt_add_left failed.2 _⟩
    · rw [run]
      exact fun held => steadier (steady held).2
  | inr failed =>
    obtain ⟨⟨cause,failed⟩,short⟩ := failed
    have run : (call >>= next) store = (.error cause,(call store).2) := bind_of_error (Prod.ext failed rfl)
    refine ⟨cut,by rw [List.length_append]; omega,?_,?_,?_⟩
    · rw [run,view,List.take_append_of_le_length bound]
    · rw [run,List.length_append]
      exact .inr ⟨⟨cause,rfl⟩,by omega⟩
    · intro held
      rw [(steady held).1] at failed
      cases failed

theorem performs_forM {ι : Type} {edits : ι → List Edit} {act : ι → Call σ Unit} {items : List ι}
    (each : ∀ item ∈ items, Performs (edits item) () (act item)) : Performs (items.flatMap edits) () (items.forM act) := by
  induction items with
  | nil => exact performs_pure ()
  | cons item rest ih =>
    change Performs _ _ (act item >>= fun _ => rest.forM act)
    exact (each item List.mem_cons_self).bind (ih fun other present => each other (List.mem_cons_of_mem _ present))

end Performing

def discards (id : SessionId) : List Edit := Tag.all.map fun tag => ⟨⟨id,tag⟩,none⟩

theorem discards_own {id : SessionId} {edit : Edit} (present : edit ∈ discards id) : edit.key.id = id := by
  obtain ⟨tag,_,rfl⟩ := List.mem_map.mp present
  rfl

theorem discards_blank {id : SessionId} {edit : Edit} (present : edit ∈ discards id) : edit.bytes = none := by
  obtain ⟨tag,_,rfl⟩ := List.mem_map.mp present
  rfl

namespace Writer

def componentEdits (w : Writer) (component : Tag × ByteArray) : List Edit :=
  (if component.1 = .header ∧ w.options.persistence = .storesOnly then [⟨⟨w.id,.network⟩,none⟩] else []) ++
    [⟨⟨w.id,component.1⟩,some component.2⟩]

def edits (w : Writer) (e : Engine) (version : Nat) : List Edit :=
  (Snapshot.encode w.id e w.options version).flatMap w.componentEdits

end Writer

section Checkpoints
variable {σ : Type} [Store σ] [Faithful σ]

theorem performs_discard (id : SessionId) : Performs (discards id) () (discard id : Call σ Unit) :=
  performs_forM fun tag (_ : tag ∈ Tag.all) => performs_edit ⟨⟨id,tag⟩,none⟩

theorem performs_component (w : Writer) (component : Tag × ByteArray) :
    Performs (w.componentEdits component) () (w.writeComponent component : Call σ Unit) := by
  have put : Performs _ () (Store.put w.id component.1 component.2 : Call σ Unit) :=
    performs_edit ⟨⟨w.id,component.1⟩,some component.2⟩
  have delete : Performs _ () (Store.delete w.id .network : Call σ Unit) := performs_edit ⟨⟨w.id,.network⟩,none⟩
  unfold Writer.componentEdits Writer.writeComponent
  split
  · exact delete.bind put
  · exact put

theorem performs_write (w : Writer) (e : Engine) (version : Nat) :
    Performs (w.edits e version) { w with durable := some version } (w.write e version : Call σ Writer) := by
  have all : Performs (w.edits e version) ()
      ((Snapshot.encode w.id e w.options version).forM w.writeComponent : Call σ Unit) :=
    performs_forM fun component _ => performs_component w component
  have whole : Performs (w.edits e version ++ []) { w with durable := some version } (w.write e version : Call σ Writer) :=
    all.bind (performs_pure _)
  rwa [List.append_nil] at whole

end Checkpoints
end DurableRules
