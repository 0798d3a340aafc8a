import DurableRules.Proofs.Engine.Frame
import DurableRules.Proofs.Snapshot.RoundTrip
import DurableRules.Proofs.Store.Performing
import DurableRules.Proofs.Store.Recovering

namespace DurableRules
open Recovery

-- All numbers of the engine are words.
structure Bounded (e : Engine) (version : Nat) : Prop where
  words : e.stores.Narrow
  network : e.network.Narrow
  version : version < wordLimit

structure Storable (e : Engine) (version : Nat) : Prop extends Bounded e version where
  values : e.stores.Portable

instance (e : Engine) (version : Nat) : Decidable (Bounded e version) :=
  decidable_of_iff (e.stores.Narrow ∧ e.network.Narrow ∧ version < wordLimit)
    ⟨fun held => ⟨held.1,held.2.1,held.2.2⟩,fun held => ⟨held.words,held.network,held.version⟩⟩

instance (e : Engine) (version : Nat) : Decidable (Storable e version) :=
  decidable_of_iff (Bounded e version ∧ e.stores.Portable)
    ⟨fun held => ⟨held.1,held.2⟩,fun held => ⟨held.toBounded,held.values⟩⟩

def Complete (shelf : Shelf) (id : SessionId) (e : Engine) (options : Options) (version : Nat) : Prop :=
  ∀ component ∈ Snapshot.encode id e options version, shelf component.1 = some component.2

instance (shelf : Shelf) (id : SessionId) (e : Engine) (options : Options) (version : Nat) :
    Decidable (Complete shelf id e options version) :=
  inferInstanceAs (Decidable (∀ component ∈ Snapshot.encode id e options version, shelf component.1 = some component.2))

section Components
variable {shelf : Shelf} {id : SessionId} {e : Engine} {options : Options} {version : Nat} {tag : Tag} {bytes : ByteArray}

theorem mem_encode : (tag,bytes) ∈ Snapshot.encode id e options version ↔
    ∃ tree, (tag,tree) ∈ Snapshot.components id e options version ∧ bytes = tree.text.toUTF8 := by
  unfold Snapshot.encode
  constructor
  · intro present
    obtain ⟨row,inside,same⟩ := List.mem_map.mp present
    cases same
    exact ⟨row.2,inside,rfl⟩
  · intro held
    obtain ⟨tree,inside,rfl⟩ := held
    exact List.mem_map.mpr ⟨(tag,tree),inside,rfl⟩

theorem mem_components {tree : Json.Tree} : (tag,tree) ∈ Snapshot.components id e options version ↔
    tag = .facts ∧ tree = (Snapshot.Facts.mk version (Snapshot.factEntries e.stores)).toTree ∨
    tag = .markers ∧ tree = (Snapshot.Markers.mk version e.stores.fired).toTree ∨
    tag = .globals ∧ tree = (Snapshot.Globals.mk version e.stores.globals).toTree ∨
    (options.persistence = .full ∧ tag = .network ∧ tree = (Snapshot.Propagation.mk version e.network).toTree) ∨
    tag = .header ∧ tree = (Snapshot.header id e options version).toTree := by
  unfold Snapshot.components
  cases options.persistence <;> simp

theorem conveys_storedHeader (bounded : Bounded e version) : Json.Conveys Snapshot.Header.read
    (Snapshot.header id e options version).toTree (Snapshot.header id e options version) :=
  Snapshot.conveys_header (show Snapshot.formatVersion < _ by decide) bounded.version bounded.words.next

theorem conveys_storedFacts (storable : Storable e version) : Json.Conveys Snapshot.Facts.read
    (Snapshot.Facts.mk version (Snapshot.factEntries e.stores)).toTree ⟨version,Snapshot.factEntries e.stores⟩ := by
  apply Snapshot.conveys_facts storable.version
  · intro entry present
    obtain ⟨row,inside,rfl⟩ := List.mem_map.mp present
    exact storable.words.facts row inside
  · intro entry present
    obtain ⟨row,inside,rfl⟩ := List.mem_map.mp present
    exact storable.values.facts row inside

theorem conveys_storedMarkers (bounded : Bounded e version) : Json.Conveys Snapshot.Markers.read
    (Snapshot.Markers.mk version e.stores.fired).toTree ⟨version,e.stores.fired⟩ :=
  Snapshot.conveys_markers bounded.version bounded.words.fired

theorem conveys_storedGlobals (storable : Storable e version) : Json.Conveys Snapshot.Globals.read
    (Snapshot.Globals.mk version e.stores.globals).toTree ⟨version,e.stores.globals⟩ :=
  Snapshot.conveys_globals storable.version storable.values.globals

theorem conveys_storedNetwork (bounded : Bounded e version) : Json.Conveys Snapshot.Propagation.read
    (Snapshot.Propagation.mk version e.network).toTree ⟨version,e.network⟩ :=
  Snapshot.conveys_propagation bounded.version bounded.network

theorem Complete.lies (complete : Complete shelf id e options version) {tree : Json.Tree}
    (present : (tag,tree) ∈ Snapshot.components id e options version) {α : Type} {reader : Json.Reader α} {value : α}
    (conveys : Json.Conveys reader tree value) : Lies shelf tag reader value :=
  ⟨tree.text.toUTF8,complete (tag,tree.text.toUTF8) (mem_encode.mpr ⟨tree,present,rfl⟩),conveys.decode⟩

theorem Complete.pieces (complete : Complete shelf id e options version) (storable : Storable e version) :
    Pieces shelf id (Snapshot.header id e options version) ⟨version,Snapshot.factEntries e.stores⟩
      ⟨version,e.stores.fired⟩ ⟨version,e.stores.globals⟩ where
  isHeader := complete.lies (mem_components.mpr (by simp)) (conveys_storedHeader storable.toBounded)
  format := rfl
  own := rfl
  isFacts := ⟨complete.lies (mem_components.mpr (by simp)) (conveys_storedFacts storable),rfl⟩
  isMarkers := ⟨complete.lies (mem_components.mpr (by simp)) (conveys_storedMarkers storable.toBounded),rfl⟩
  isGlobals := ⟨complete.lies (mem_components.mpr (by simp)) (conveys_storedGlobals storable),rfl⟩

theorem Complete.restores (complete : Complete shelf id e options version) (storable : Storable e version)
    (founded : e.Founded) (checked : e.Checked) (positive : ∀ handle, e.roster.isLive handle = true → 0 < handle) :
    ∃ next, stored shelf id e.program options.persistence = .ok ⟨next,Snapshot.header id e options version⟩ ∧
      next.stores = e.stores ∧
      (options.persistence = .full → next = { e with queued := Members.ofList e.network.agenda.values }) := by
  have pieces := complete.pieces storable
  have same := Snapshot.stores_components id e options version
  cases kind : options.persistence with
  | full =>
    have network : Lies shelf .network Snapshot.Propagation.read ⟨version,e.network⟩ :=
      complete.lies (mem_components.mpr (by simp [kind])) (conveys_storedNetwork storable.toBounded)
    have adopted := founded.adopt checked positive
    rw [← same] at adopted
    exact ⟨_,stored_ok.mpr ⟨_,_,_,pieces,⟨version,e.network⟩,network,rfl,adopted⟩,rfl,fun _ => rfl⟩
  | storesOnly =>
    obtain ⟨next,rebuilt⟩ := founded.rebuild positive e.program
    refine ⟨next,stored_ok.mpr ⟨_,_,_,pieces,?_⟩,(Engine.rebuild_ok rebuilt).1.stores_eq,by simp⟩
    change Engine.rebuild e.program _ = .ok next
    rw [same]
    exact rebuilt

theorem Complete.recovers (complete : Complete shelf id e options version) (storable : Storable e version)
    (coherent : e.Coherent) (tidy : e.Tidy) : ∃ next,
      stored shelf id e.program options.persistence = .ok ⟨next,Snapshot.header id e options version⟩ ∧
        next.stores = e.stores ∧ (options.persistence = .full → next = e) := by
  obtain ⟨next,went,stores,full⟩ := complete.restores storable coherent.founded coherent.checked tidy.numbered.positive
  exact ⟨next,went,stores,fun kind => (full kind).trans coherent.requeued⟩

end Components

section Edits
variable {π : Type} {written : Key → π → π} {v : View π} {id : SessionId}

def Shelf.edit (shelf : Shelf) (edit : Edit) : Shelf := Function.update shelf edit.key.tag edit.bytes

theorem shelf_edit_own {edit : Edit} (own : edit.key.id = id) :
    (v.edit written edit).shelf id = (v.shelf id).edit edit := by
  funext tag
  obtain ⟨⟨_,changed⟩,bytes⟩ := edit
  cases own
  simp only [View.shelf,View.edit,Shelf.edit,Function.update_apply,Key.mk.injEq,true_and]

theorem shelf_edit_other {edit : Edit} (apart : edit.key.id ≠ id) : (v.edit written edit).shelf id = v.shelf id := by
  funext tag
  apply Function.update_of_ne
  intro same
  exact apart (congrArg Key.id same).symm

theorem shelf_edits_own {edits : List Edit} (own : ∀ edit ∈ edits, edit.key.id = id) :
    (v.edits written edits).shelf id = edits.foldl Shelf.edit (v.shelf id) := by
  induction edits generalizing v with
  | nil => rfl
  | cons edit rest ih =>
    have later := @ih (v.edit written edit) fun other present => own other (List.mem_cons_of_mem _ present)
    rw [List.foldl_cons,← shelf_edit_own (own edit List.mem_cons_self)]
    exact later

theorem shelf_edits_other {edits : List Edit} (apart : ∀ edit ∈ edits, edit.key.id ≠ id) :
    (v.edits written edits).shelf id = v.shelf id := by
  induction edits generalizing v with
  | nil => rfl
  | cons edit rest ih =>
    have later := @ih (v.edit written edit) fun other present => apart other (List.mem_cons_of_mem _ present)
    exact later.trans (shelf_edit_other (apart edit List.mem_cons_self))

end Edits

namespace Writer
variable {w : Writer} {e : Engine} {version : Nat}

def bodyEdits (w : Writer) (e : Engine) (version : Nat) : List Edit :=
  ((Snapshot.encode w.id e w.options version).dropLast.map fun component => ⟨⟨w.id,component.1⟩,some component.2⟩) ++
    match w.options.persistence with
    | .full => []
    | .storesOnly => [⟨⟨w.id,.network⟩,none⟩]

def headerEdit (w : Writer) (e : Engine) (version : Nat) : Edit :=
  ⟨⟨w.id,.header⟩,some (Snapshot.header w.id e w.options version).toTree.text.toUTF8⟩

theorem edits_eq (w : Writer) (e : Engine) (version : Nat) :
    w.edits e version = w.bodyEdits e version ++ [w.headerEdit e version] := by
  unfold edits bodyEdits headerEdit componentEdits Snapshot.encode Snapshot.components
  cases w.options.persistence <;> simp

theorem bodyEdits_spec {edit : Edit} (present : edit ∈ w.bodyEdits e version) : edit.key.id = w.id ∧
    edit.key.tag ≠ .header ∧
      ∀ bytes, edit.bytes = some bytes → (edit.key.tag,bytes) ∈ Snapshot.encode w.id e w.options version := by
  unfold bodyEdits Snapshot.encode Snapshot.components at *
  cases kind : w.options.persistence <;> simp [kind] at present ⊢
  all_goals rcases present with rfl | rfl | rfl | rfl <;> simp

theorem edits_own {edit : Edit} (present : edit ∈ w.edits e version) : edit.key.id = w.id := by
  rw [edits_eq] at present
  cases List.mem_append.mp present with
  | inl body => exact (bodyEdits_spec body).1
  | inr last =>
    rw [List.mem_singleton.mp last]
    rfl

theorem edits_complete (shelf : Shelf) (w : Writer) (e : Engine) (version : Nat) :
    Complete ((w.edits e version).foldl Shelf.edit shelf) w.id e w.options version := by
  rw [edits_eq]
  unfold bodyEdits headerEdit Complete Snapshot.encode Snapshot.components
  cases w.options.persistence <;> simp [Shelf.edit,Function.update_apply]

end Writer
end DurableRules
