import DurableRules.Proofs.Engine.Supply
import DurableRules.Proofs.Snapshot.Written

namespace DurableRules
open Json Recovery

section Reading
variable {shelf : Shelf} {id : SessionId} {e : Engine} {options : Options} {version : Nat} {tag : Tag} {tree : Tree}

theorem entry_read {entry other : Snapshot.FactEntry} (narrow : entry.handle < wordLimit)
    (read : Snapshot.FactEntry.read entry.toTree = .ok other) :
    other.handle = entry.handle ∧ Fact.read entry.fact.toTree = .ok other.fact := by
  simp [Snapshot.FactEntry.read,Snapshot.FactEntry.toTree,Json.record,readRecord,fillMembers,strict_pieces,
    except_bind_ok,readWord,(conveys_nat narrow).reads] at read
  obtain ⟨version,_,fact,read,rfl⟩ := read
  exact ⟨rfl,read⟩

-- The rows are compared by their handles, since an entry may be read as another.
theorem facts_regained {part : Snapshot.Facts} (narrow : e.stores.Narrow)
    (read : Snapshot.Facts.read (Snapshot.Facts.mk version (Snapshot.factEntries e.stores)).toTree = .ok part)
    (same : Map.ofList (part.facts.map fun entry => (entry.handle,StoredFact.mk entry.version entry.fact)) = e.stores.facts) :
    ∀ row ∈ e.stores.facts.rows, row.2.fact.Portable := by
  simp [Snapshot.Facts.read,Snapshot.Facts.toTree,Json.record,readRecord,fillMembers,strict_pieces,except_bind_ok] at read
  obtain ⟨_,_,entries,read,rfl⟩ := read
  intro row present
  obtain ⟨handle,stored⟩ := row
  have found := same ▸ Map.get?_eq_some_iff.mpr present
  obtain ⟨entry,among,equal⟩ := List.mem_map.mp (ofList_member found)
  cases equal
  obtain ⟨_,inside,entryRead⟩ := readItems_member read entry among
  obtain ⟨written,inWritten,rfl⟩ := List.mem_map.mp inside
  obtain ⟨source,atSource,rfl⟩ := List.mem_map.mp inWritten
  obtain ⟨sameHandle,factRead⟩ := entry_read (narrow.facts source atSource).1 entryRead
  cases row_unique e.stores.facts.ascending atSource present sameHandle.symm
  exact fact_back factRead

theorem Complete.reads (complete : Complete shelf id e options version)
    (present : (tag,tree) ∈ Snapshot.components id e options version) (spelled : Spelled tree) {α : Type}
    {reader : Reader α} {value : α} (lies : Lies shelf tag reader value) : reader tree = .ok value := by
  obtain ⟨bytes,lying,read⟩ := lies
  have written : shelf tag = some tree.text.toUTF8 :=
    complete (tag,tree.text.toUTF8) (mem_encode.mpr ⟨tree,present,rfl⟩)
  cases lying.symm.trans written
  exact (spelled.decode reader).symm.trans read

theorem Complete.header_is (complete : Complete shelf id e options version) (bounded : Bounded e version)
    {header : Snapshot.Header} (lies : Lies shelf .header Snapshot.Header.read header) :
    Snapshot.header id e options version = header := by
  have conveys : Json.Conveys Snapshot.Header.read (Snapshot.header id e options version).toTree
      (Snapshot.header id e options version) := conveys_storedHeader bounded
  exact Except.ok.inj (conveys.reads.symm.trans (complete.reads (mem_components.mpr (by simp)) conveys.spelled lies))

theorem stored_enduring {program : Program} {persistence : Persistence} {found : Recovered}
    (went : stored shelf id program persistence = .ok found) : found.engine.Enduring program ∧
      found.engine.roster.nextHandle = found.header.nextHandle ∧
      ∀ handle, found.engine.roster.isLive handle = true → 0 < handle := by
  obtain ⟨facts,markers,globals,_,built⟩ := stored_ok.mp went
  cases persistence with
  | full =>
    obtain ⟨_,_,_,adopted⟩ := built
    obtain ⟨holds,_⟩ := Engine.adopt_ok adopted
    obtain ⟨_,restored⟩ := Engine.adopt_roster adopted
    exact ⟨.adopted adopted,congrArg Roster.nextHandle holds.roster,fun _ => holds.positive restored⟩
  | storesOnly =>
    have rebuilt : Engine.rebuild program _ = .ok found.engine := built
    obtain ⟨holds,_⟩ := Engine.rebuild_ok rebuilt
    obtain ⟨_,restored⟩ := Engine.rebuild_roster rebuilt
    exact ⟨.rebuilt rebuilt,congrArg Roster.nextHandle holds.roster,fun _ => holds.positive restored⟩

theorem Complete.regained_iff (complete : Complete shelf id e options version) (bounded : Bounded e version)
    (founded : e.Founded) (checked : e.Checked) :
    (∃ again, stored shelf id e.program options.persistence = .ok again ∧ again.engine.stores = e.stores) ↔
      e.stores.Portable ∧ e.roster.isLive 0 = false := by
  constructor
  · intro held
    obtain ⟨again,went,same⟩ := held
    obtain ⟨facts,markers,globals,pieces,stores⟩ := stored_stores went
    have all : Snapshot.stores again.header facts markers globals = e.stores := stores.symm.trans same
    have head := complete.header_is bounded pieces.isHeader
    have isFacts : Snapshot.Facts.read (Snapshot.Facts.mk version (Snapshot.factEntries e.stores)).toTree = .ok facts :=
      complete.reads (mem_components.mpr (by simp)) (Snapshot.spelled_facts _) pieces.isFacts.1
    have isGlobals : Snapshot.Globals.read (Snapshot.Globals.mk version e.stores.globals).toTree = .ok globals :=
      complete.reads (mem_components.mpr (by simp)) (Snapshot.spelled_globals _) pieces.isGlobals.1
    have regained : globals = ⟨version,e.stores.globals⟩ := by
      obtain ⟨state,map⟩ := globals
      have states : state = version := pieces.isGlobals.2.trans (congrArg Snapshot.Header.stateVersion head.symm)
      have maps : map = e.stores.globals := congrArg Stores.globals all
      rw [states,maps]
    refine ⟨⟨facts_regained bounded.words isFacts (congrArg Stores.facts all),?_⟩,?_⟩
    · exact Snapshot.globals_back (regained ▸ isGlobals)
    · obtain ⟨enduring,_,positive⟩ := stored_enduring went
      have roster : again.engine.roster = e.roster := by
        rw [enduring.founded.holds.roster,founded.holds.roster,same]
      exact Bool.eq_false_iff.mpr fun live => Nat.lt_irrefl 0 (positive 0 (roster ▸ live))
  · intro held
    obtain ⟨portable,dead⟩ := held
    have positive (handle : Handle) (live : e.roster.isLive handle = true) : 0 < handle := by
      refine Nat.pos_of_ne_zero fun zero => ?_
      rw [zero,dead] at live
      cases live
    obtain ⟨next,went,stores,_⟩ := complete.restores ⟨bounded,portable⟩ founded checked positive
    exact ⟨_,went,stores⟩

end Reading

section Renewing
variable {σ : Type} [Store σ] [Faithful σ]

theorem write_complete {store : σ} {w durable : Writer} {e : Engine} {version : Nat}
    (written : (w.write e version store).1 = .ok durable) :
    Complete (shelf (w.write e version store).2 w.id) w.id e w.options version := by
  obtain ⟨cut,_,view,answer,_⟩ := performs_write w e version store
  cases answer with
  | inl went =>
    obtain ⟨_,rfl⟩ := went
    rw [shelf,view,List.take_length,shelf_edits_own fun _ => Writer.edits_own]
    exact w.edits_complete _ e version
  | inr failed =>
    obtain ⟨⟨cause,failed⟩,_⟩ := failed
    cases written.symm.trans failed

theorem write_steady {store : σ} (steady : Steady store) (w : Writer) (e : Engine) (version : Nat) :
    (w.write e version store).1 = .ok { w with durable := some version } ∧ Steady (w.write e version store).2 := by
  obtain ⟨_,_,_,_,served⟩ := performs_write w e version store
  exact served steady

-- An engine that was recovered from any bytes at all, went on and was written
-- is recovered with its stores exactly when the values that are left of those
-- bytes are such that a snapshot brings back and no fact has the handle zero.
-- Zero is only handed out after a header whose next handle was zero.
theorem recovered_again_iff {store place : σ} {id : SessionId} {program : Program} {persistence : Persistence}
    {found : Recovered} (went : (recover id program persistence store).1 = .ok found) {demands : List Demand}
    {responses : List Response} {e : Engine} (asked : askAll Engine.ask demands found.engine = (responses,e))
    (exhausts : Engine.exhaustsAll demands found.engine = true)
    (representable : ∀ value ∈ Engine.suppliedAll demands found.engine, value.Representable)
    (legible : Legible (Engine.suppliedAll demands found.engine)) {version : Nat} (bounded : Bounded e version)
    {w durable : Writer} (own : w.id = id) (kind : w.options.persistence = persistence)
    (written : (w.write e version place).1 = .ok durable) (readable : Readable (w.write e version place).2) :
    ((∃ again, (recover id program persistence (w.write e version place).2).1 = .ok again ∧ again.engine.stores = e.stores) ↔
      (∀ value ∈ e.stores.values, value ∈ found.engine.stores.values → value.Portable) ∧ e.roster.isLive 0 = false) ∧
      (0 < found.header.nextHandle → e.roster.isLive 0 = false) := by
  have read : stored (shelf store id) id program persistence = .ok found := by
    cases (answers_recover program persistence store).read with
    | inl read => exact read.symm.trans went
    | inr failed =>
      obtain ⟨cause,failed⟩ := failed
      cases went.symm.trans failed
  obtain ⟨start,next,positive⟩ := stored_enduring read
  have last : (askAll Engine.ask demands found.engine).2 = e := congrArg Prod.snd asked
  have enduring : e.Enduring program := last ▸ start.askAll exhausts
  subst own kind
  constructor
  · rw [((answers_recover program w.options.persistence (w.write e version place).2).readable readable).1,← enduring.program,
      (write_complete written).regained_iff bounded enduring.founded enduring.checked,Stores.portable_iff]
    refine and_congr_left' ⟨fun all value present _ => all value present,fun all value present => ?_⟩
    have origin := start.supplied exhausts
    rw [last] at origin
    rcases origin value present with before | supplied
    · exact all value present before
    · exact (portable_iff legible).mpr representable value supplied
  · intro numbered
    have starting : found.engine.roster.Numbered := ⟨next ▸ numbered,positive⟩
    have numbered : e.roster.Numbered := last ▸ Engine.numbered_askAll starting demands
    exact Bool.eq_false_iff.mpr fun live => Nat.lt_irrefl 0 (numbered.positive 0 live)

end Renewing

section Strays
open Engine

-- A header may give zero as the next handle, and then zero is given to a fact.
def unnumbered : Engine := bare pairing ⟨0,Map.empty,Map.empty⟩ Map.empty
def paging : Writer := .new .zero ⟨.full,.always⟩
def zeroed : Memory := (paging.write unnumbered 1 Memory.empty).2

def filling : List Demand := [.insert item,.insert item]
def clearing : List Demand := [.insert item,.insert item,.delete 0,.insert item,.fire 3]

theorem zeroed_recovered : Steady zeroed ∧ (recover .zero pairing .full zeroed).1 =
    .ok ⟨unnumbered,Snapshot.header .zero unnumbered paging.options 1⟩ := by
  obtain ⟨written,steady⟩ := write_steady (@Memory.steady Memory.empty rfl) paging unnumbered 1
  have founded : unnumbered.Founded := ⟨bare_aligned.indexed,fun _ => rfl,fun _ live => by cases live⟩
  have checked : unnumbered.Checked := checked_of_empty founded.indexed rfl
  obtain ⟨next,went,_,full⟩ := (write_complete written).restores (by decide) founded checked fun _ live => by cases live
  cases full rfl
  exact ⟨steady,((answers_recover pairing .full zeroed).readable steady.readable).1.trans went⟩

-- A time with a sign, five digits for the year and one for the month and the
-- day is as long as a time should be, and is read.
def due : Tree := Json.record [("type",Json.string "Timestamp"),("value",Json.string "+12345-6-7T08:09:10")]
def dueFact : Tree := Json.record [("kind",Json.string "Item"),("fields",mapTree id (Map.empty.put "due" due))]
def dueEntry : Tree := Json.record [("handle",Json.nat 1),("version",Json.nat 0),("fact",dueFact)]
def dueFacts : Tree := Json.record [("state_version",Json.nat 1),("facts",.array [dueEntry])]

def far : Timestamp := ⟨⟨12345,6,7,8,9,10,0⟩,by decide⟩
def farItem : Fact := ⟨"Item",Map.empty.put "due" (.timestamp far)⟩

theorem dueFacts_read : Snapshot.Facts.read dueFacts = .ok ⟨1,[⟨1,0,farItem⟩]⟩ := by decide +kernel

theorem dueFacts_spelled : Spelled dueFacts := by
  have number (n : Nat) : Spelled (Json.nat n) := .number (numeric_decimal n)
  have value : Spelled due := by
    apply spelled_record
    simp [spelled_string]
  have fields : Spelled (mapTree id (Map.empty.put "due" due)) := by
    refine spelled_mapTree fun row present => ?_
    cases List.mem_singleton.mp present
    exact value
  have fact : Spelled dueFact := by
    apply spelled_record
    simp [fields,spelled_string]
  have entry : Spelled dueEntry := by
    apply spelled_record
    simp [number,fact]
  have entries : Spelled (.array [dueEntry]) := .array (by simp [entry])
  apply spelled_record
  simp [number,entries]

def unfilled : Engine := bare pairing ⟨2,Map.empty,Map.empty⟩ Map.empty
def shelving : Writer := .new .zero ⟨.storesOnly,.always⟩
def dueEdit : Edit := ⟨⟨.zero,.facts⟩,some dueFacts.text.toUTF8⟩
def dated : Memory := (dueEdit.run (shelving.write unfilled 1 Memory.empty).2).2
def farEngine : Engine := (bare pairing ⟨2,Map.empty.put 1 0,Map.empty⟩ Map.empty).replay (1,⟨0,farItem⟩)

theorem dated_recovered : Steady dated ∧ (recover .zero pairing .storesOnly dated).1 =
    .ok ⟨farEngine,Snapshot.header .zero unfilled shelving.options 1⟩ := by
  obtain ⟨written,before⟩ := write_steady (@Memory.steady Memory.empty rfl) shelving unfilled 1
  obtain ⟨_,view,steady⟩ := before.edit dueEdit
  have edited : shelf dated .zero = (shelf (shelving.write unfilled 1 Memory.empty).2 .zero).edit dueEdit := by
    rw [shelf,dated,view]
    exact shelf_edit_own rfl
  have pieces := (write_complete written).pieces (by decide)
  have other {α : Type} {tag : Tag} {reader : Reader α} {value : α} (apart : tag ≠ .facts)
      (lies : Lies (shelf (shelving.write unfilled 1 Memory.empty).2 .zero) tag reader value) :
      Lies (shelf dated .zero) tag reader value := by
    obtain ⟨bytes,lying,read⟩ := lies
    refine ⟨bytes,?_,read⟩
    rw [edited]
    exact (Function.update_of_ne apart _ _).trans lying
  have facts : Lies (shelf dated .zero) .facts Snapshot.Facts.read ⟨1,[⟨1,0,farItem⟩]⟩ := by
    refine ⟨dueFacts.text.toUTF8,?_,(dueFacts_spelled.decode _).trans dueFacts_read⟩
    rw [edited]
    exact Function.update_self _ _ _
  have all : Pieces (shelf dated .zero) .zero (Snapshot.header .zero unfilled shelving.options 1) ⟨1,[⟨1,0,farItem⟩]⟩
      ⟨1,unfilled.stores.fired⟩ ⟨1,unfilled.stores.globals⟩ :=
    ⟨other (by decide) pieces.isHeader,rfl,rfl,⟨facts,rfl⟩,⟨other (by decide) pieces.isMarkers.1,rfl⟩,
      ⟨other (by decide) pieces.isGlobals.1,rfl⟩⟩
  have went : stored (shelf dated .zero) .zero pairing .storesOnly =
      .ok ⟨farEngine,Snapshot.header .zero unfilled shelving.options 1⟩ := stored_ok.mpr ⟨_,_,_,all,rfl⟩
  exact ⟨steady,((answers_recover pairing .storesOnly dated).readable steady.readable).1.trans went⟩

theorem strays_again :
    (¬ ∃ again, (recover .zero pairing .full (paging.write (askAll ask filling unnumbered).2 2 zeroed).2).1 = .ok again ∧
      again.engine.stores = (askAll ask filling unnumbered).2.stores) ∧
    (∃ again, (recover .zero pairing .full (paging.write (askAll ask clearing unnumbered).2 2 zeroed).2).1 = .ok again ∧
      again.engine.stores = (askAll ask clearing unnumbered).2.stores) ∧
    ¬ ∃ again, (recover .zero pairing .storesOnly (shelving.write farEngine 2 dated).2).1 = .ok again ∧
      again.engine.stores = farEngine.stores := by
  obtain ⟨steady,went⟩ := zeroed_recovered
  refine ⟨fun held => ?_,?_,fun held => ?_⟩
  · have nothing : suppliedAll filling unnumbered = [] := by decide
    obtain ⟨written,after⟩ := write_steady steady paging (askAll ask filling unnumbered).2 2
    have both := recovered_again_iff went (Prod.eta (askAll ask filling unnumbered)).symm (by decide) (by simp [nothing])
      (by simp [nothing,Legible]) (by decide) rfl rfl written after.readable
    have dead := (both.1.mp held).2
    revert dead
    decide
  · have nothing : suppliedAll clearing unnumbered = [] := by decide
    obtain ⟨written,after⟩ := write_steady steady paging (askAll ask clearing unnumbered).2 2
    have both := recovered_again_iff went (Prod.eta (askAll ask clearing unnumbered)).symm (by decide) (by simp [nothing])
      (by simp [nothing,Legible]) (by decide) rfl rfl written after.readable
    have plain : (askAll ask clearing unnumbered).2.stores.values = [] := by decide
    exact both.1.mpr ⟨by simp [plain],by decide⟩
  · obtain ⟨steady,went⟩ := dated_recovered
    obtain ⟨written,after⟩ := write_steady steady shelving farEngine 2
    have asked : askAll ask [] farEngine = ([],farEngine) := rfl
    have both := recovered_again_iff went asked rfl (by simp [suppliedAll]) (by simp [suppliedAll,Legible]) (by decide)
      rfl rfl written after.readable
    have present : Value.timestamp far ∈ farEngine.stores.values := by decide
    have portable : far.Portable := (both.1.mp held).1 _ present present
    revert portable
    decide

end Strays
end DurableRules
