import DurableRules.Proofs.Session.Operating
import DurableRules.Proofs.Snapshot.Complete
import DurableRules.Proofs.Snapshot.Shape

namespace DurableRules
open Recovery

structure Written (id : SessionId) (e : Engine) (version : Nat) (tag : Tag) (bytes : ByteArray) : Prop where
  bounded : Bounded e version
  sound : e.Sound
  encoded : ∃ options, (tag,bytes) ∈ Snapshot.encode id e options version

-- All that lies there was written of some engine, and this can be said about it.
def Bears (id : SessionId) (shelf : Shelf) (about : Tag → Engine → Nat → Prop) : Prop := ∀ tag bytes,
  shelf tag = some bytes → ∃ e version, Written id e version tag bytes ∧ about tag e version

def Anything (_ : Tag) (_ : Engine) (_ : Nat) : Prop := True

-- The header is of these stores at this version. The other parts, the network
-- apart, are of what a snapshot brings back, and of the same stores whenever
-- they are of the same version.
def Of (stores : Stores) (version : Nat) : Tag → Engine → Nat → Prop
  | .header, e, found => found = version ∧ e.stores = stores
  | .network, _, _ => True
  | _, e, found => e.stores.Portable ∧ (found = version → e.stores = stores)

section Written
variable {id : SessionId} {e : Engine} {version : Nat} {bytes : ByteArray}

theorem Written.tree {tag : Tag} (written : Written id e version tag bytes) : ∃ options tree,
    (tag,tree) ∈ Snapshot.components id e options version ∧ bytes = tree.text.toUTF8 := by
  obtain ⟨options,encoded⟩ := written.encoded
  exact ⟨options,mem_encode.mp encoded⟩

theorem Written.header (written : Written id e version .header bytes) : ∃ options,
    Json.decode Snapshot.Header.read bytes = .ok (Snapshot.header id e options version) := by
  obtain ⟨options,tree,inside,rfl⟩ := written.tree
  have same : tree = (Snapshot.header id e options version).toTree := by simpa using mem_components.mp inside
  exact ⟨options,same ▸ (conveys_storedHeader written.bounded).decode⟩

theorem Written.facts (written : Written id e version .facts bytes) (portable : e.stores.Portable) :
    Json.decode Snapshot.Facts.read bytes = .ok ⟨version,Snapshot.factEntries e.stores⟩ := by
  obtain ⟨options,tree,inside,rfl⟩ := written.tree
  have same : tree = (Snapshot.Facts.mk version (Snapshot.factEntries e.stores)).toTree := by
    simpa using mem_components.mp inside
  exact same ▸ (conveys_storedFacts ⟨written.bounded,portable⟩).decode

theorem Written.markers (written : Written id e version .markers bytes) :
    Json.decode Snapshot.Markers.read bytes = .ok ⟨version,e.stores.fired⟩ := by
  obtain ⟨options,tree,inside,rfl⟩ := written.tree
  have same : tree = (Snapshot.Markers.mk version e.stores.fired).toTree := by simpa using mem_components.mp inside
  exact same ▸ (conveys_storedMarkers written.bounded).decode

theorem Written.globals (written : Written id e version .globals bytes) (portable : e.stores.Portable) :
    Json.decode Snapshot.Globals.read bytes = .ok ⟨version,e.stores.globals⟩ := by
  obtain ⟨options,tree,inside,rfl⟩ := written.tree
  have same : tree = (Snapshot.Globals.mk version e.stores.globals).toTree := by simpa using mem_components.mp inside
  exact same ▸ (conveys_storedGlobals ⟨written.bounded,portable⟩).decode

theorem Written.filled (written : Written id e version .globals bytes) {part : Snapshot.Globals}
    (read : Json.decode Snapshot.Globals.read bytes = .ok part) :
    ∀ name values, part.globals.get? name = some values → values ≠ [] := by
  obtain ⟨options,tree,inside,rfl⟩ := written.tree
  have same : tree = (Snapshot.Globals.mk version e.stores.globals).toTree := by simpa using mem_components.mp inside
  subst same
  refine Snapshot.globals_filled ((Snapshot.spelled_globals _).decode _ ▸ read) fun row present => ?_
  exact written.sound.tidy.filled row.1 row.2 (Map.get?_eq_some_iff.mpr present)

theorem Written.network (written : Written id e version .network bytes) :
    Json.decode Snapshot.Propagation.read bytes = .ok ⟨version,e.network⟩ := by
  obtain ⟨options,tree,inside,rfl⟩ := written.tree
  obtain ⟨_,same⟩ : _ ∧ tree = (Snapshot.Propagation.mk version e.network).toTree := by
    simpa using mem_components.mp inside
  exact same ▸ (conveys_storedNetwork written.bounded).decode

end Written

section Reading
variable {id : SessionId} {shelf : Shelf} {about : Tag → Engine → Nat → Prop} {program : Program}
  {persistence : Persistence} {found : Recovered}

theorem Bears.lies (bears : Bears id shelf about) {α : Type} {tag : Tag} {reader : Json.Reader α} {value : α}
    (lies : Lies shelf tag reader value) : ∃ e version bytes, Written id e version tag bytes ∧ about tag e version ∧
      Json.decode reader bytes = .ok value := by
  obtain ⟨bytes,lying,read⟩ := lies
  obtain ⟨e,version,written,said⟩ := bears tag bytes lying
  exact ⟨e,version,bytes,written,said,read⟩

theorem Bears.header (bears : Bears id shelf about) {header : Snapshot.Header}
    (lies : Lies shelf .header Snapshot.Header.read header) : ∃ e options, e.Sound ∧ about .header e header.stateVersion ∧
      header = Snapshot.header id e options header.stateVersion := by
  obtain ⟨e,version,bytes,written,said,read⟩ := bears.lies lies
  obtain ⟨options,decoded⟩ := written.header
  cases read.symm.trans decoded
  exact ⟨e,options,written.sound,said,rfl⟩

theorem stored_stores (went : stored shelf id program persistence = .ok found) : ∃ facts markers globals,
    Pieces shelf id found.header facts markers globals ∧
      found.engine.stores = Snapshot.stores found.header facts markers globals := by
  obtain ⟨facts,markers,globals,pieces,built⟩ := stored_ok.mp went
  refine ⟨facts,markers,globals,pieces,?_⟩
  cases persistence with
  | storesOnly => exact (Engine.rebuild_ok built).1.stores_eq
  | full =>
    obtain ⟨_,_,_,adopted⟩ := built
    exact (Engine.adopt_ok adopted).1.stores_eq

theorem stored_sound (bears : Bears id shelf about) (went : stored shelf id program persistence = .ok found) :
    found.engine.Sound ∧ found.engine.program = program := by
  obtain ⟨facts,markers,globals,pieces,built⟩ := stored_ok.mp went
  obtain ⟨first,_,sound,_,header⟩ := bears.header pieces.isHeader
  obtain ⟨_,_,_,last,_,read⟩ := bears.lies pieces.isGlobals.1
  have tidy {e : Engine} (holds : Engine.Holds e (Snapshot.stores found.header facts markers globals)) {roster : Roster}
      (restored : (Snapshot.stores found.header facts markers globals).roster = .ok roster) : e.Tidy := by
    refine holds.tidy restored ?_ (last.filled read)
    rw [header]
    exact sound.tidy.numbered.next
  cases persistence with
  | storesOnly =>
    have rebuilt : Engine.rebuild program _ = .ok found.engine := built
    obtain ⟨holds,coherent,_,same⟩ := Engine.rebuild_ok rebuilt
    obtain ⟨roster,restored⟩ := Engine.rebuild_roster rebuilt
    exact ⟨⟨coherent,tidy holds restored⟩,same⟩
  | full =>
    obtain ⟨part,lies,_,adopted⟩ := built
    obtain ⟨e,_,_,written,_,read⟩ := bears.lies lies
    cases read.symm.trans written.network
    obtain ⟨holds,same,_⟩ := Engine.adopt_ok adopted
    obtain ⟨roster,restored⟩ := Engine.adopt_roster adopted
    have coherent := Engine.adopt_coherent adopted written.sound.coherent.inhabited written.sound.coherent.orderly.once
    exact ⟨⟨coherent,tidy holds restored⟩,same⟩

-- A snapshot of which only the header is sure to be of these stores is
-- recovered as these stores, or not at all.
theorem Bears.recovered {stores : Stores} {version : Nat} (bears : Bears id shelf (Of stores version))
    (went : stored shelf id program persistence = .ok found) :
    found.engine.stores = stores ∧ found.header.stateVersion = version := by
  obtain ⟨facts,markers,globals,pieces,same⟩ := stored_stores went
  obtain ⟨e,options,_,⟨versions,rfl⟩,header⟩ := bears.header pieces.isHeader
  refine ⟨?_,versions⟩
  obtain ⟨ofFacts,_,_,written,⟨portable,agrees⟩,read⟩ := bears.lies pieces.isFacts.1
  cases read.symm.trans (written.facts portable)
  have isFacts := agrees (pieces.isFacts.2.trans versions)
  obtain ⟨ofMarkers,_,_,written,⟨_,agrees⟩,read⟩ := bears.lies pieces.isMarkers.1
  cases read.symm.trans written.markers
  have isMarkers := agrees (pieces.isMarkers.2.trans versions)
  obtain ⟨ofGlobals,_,_,written,⟨portable,agrees⟩,read⟩ := bears.lies pieces.isGlobals.1
  cases read.symm.trans (written.globals portable)
  have isGlobals := agrees (pieces.isGlobals.2.trans versions)
  rw [same,header,isFacts,isMarkers,isGlobals]
  exact Snapshot.stores_components id e options found.header.stateVersion

end Reading

section Changing
variable {id : SessionId} {shelf : Shelf} {about : Tag → Engine → Nat → Prop}

theorem Bears.edit (bears : Bears id shelf about) {edit : Edit} (each : ∀ bytes, edit.bytes = some bytes →
    ∃ e version, Written id e version edit.key.tag bytes ∧ about edit.key.tag e version) : Bears id (shelf.edit edit) about := by
  intro tag bytes lying
  rw [Shelf.edit,Function.update_apply] at lying
  split at lying
  · next same => exact same ▸ each bytes lying
  · exact bears tag bytes lying

theorem Bears.edits (bears : Bears id shelf about) {edits : List Edit} (each : ∀ edit ∈ edits, ∀ bytes, edit.bytes = some bytes →
    ∃ e version, Written id e version edit.key.tag bytes ∧ about edit.key.tag e version) :
    Bears id (edits.foldl Shelf.edit shelf) about := by
  induction edits generalizing shelf with
  | nil => exact bears
  | cons edit rest ih =>
    exact ih (bears.edit (each edit List.mem_cons_self)) fun other present => each other (List.mem_cons_of_mem _ present)

theorem Bears.discards (bears : Bears id shelf about) (count : Nat) :
    Bears id (((discards id).take count).foldl Shelf.edit shelf) about := by
  refine bears.edits fun edit present bytes put => ?_
  rw [discards_blank (List.mem_of_mem_take present)] at put
  cases put

end Changing

section Checkpoints
variable {shelf : Shelf} {w : Writer} {e : Engine} {version : Nat} {edit : Edit} {bytes : ByteArray}

theorem Writer.edits_written (bounded : Bounded e version) (sound : e.Sound) (present : edit ∈ w.edits e version)
    (put : edit.bytes = some bytes) : Written w.id e version edit.key.tag bytes := by
  refine ⟨bounded,sound,w.options,?_⟩
  rw [edits_eq] at present
  cases List.mem_append.mp present with
  | inl body => exact (bodyEdits_spec body).2.2 bytes put
  | inr last =>
    cases List.mem_singleton.mp last
    cases put
    exact mem_encode.mpr ⟨_,mem_components.mpr (by simp [headerEdit]),rfl⟩

theorem Writer.cut_body {count : Nat} (short : count < (w.edits e version).length)
    (present : edit ∈ (w.edits e version).take count) : edit ∈ w.bodyEdits e version := by
  rw [edits_eq] at short present
  rw [List.length_append,List.length_singleton] at short
  rw [List.take_append_of_le_length (by omega)] at present
  exact List.mem_of_mem_take present

end Checkpoints
end DurableRules
