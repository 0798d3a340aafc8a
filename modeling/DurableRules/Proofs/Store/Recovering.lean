import DurableRules.Proofs.Store.Faithful
import DurableRules.Recovery

namespace DurableRules

abbrev Shelf := Tag → Option ByteArray

def View.shelf {π : Type} (v : View π) (id : SessionId) : Shelf := fun tag => v.contents ⟨id,tag⟩

def shelf {σ : Type} [Store σ] [Faithful σ] (store : σ) (id : SessionId) : Shelf := (Faithful.view store).shelf id

theorem shelf_of_view {σ : Type} [Store σ] [Faithful σ] {store after : σ}
    (same : Faithful.view after = Faithful.view store) (id : SessionId) : shelf after id = shelf store id := by
  rw [shelf,same,shelf]

namespace Recovery

section Stored

def headerOf : Option ByteArray → Except RecoveryError (Option Snapshot.Header)
  | none => .ok none
  | some bytes => (decoded Snapshot.Header.read .header bytes).map some

def partOf {α : Type} (header : Snapshot.Header) (id : SessionId) (tag : Tag) (reader : Json.Reader α)
    (version : α → Nat) : Option ByteArray → Except RecoveryError α
  | none => .error (.missingComponent id tag)
  | some bytes =>
    match decoded reader tag bytes with
    | .error cause => .error cause
    | .ok part =>
      if version part = header.stateVersion then .ok part
      else .error (.torn tag header.stateVersion (version part))

def stored (shelf : Shelf) (id : SessionId) (program : Program) (persistence : Persistence) :
    Except RecoveryError Recovered := do
  match ← headerOf (shelf .header) with
  | none => throw (.notFound id)
  | some header =>
    checkHeader id header
    let facts ← partOf header id .facts Snapshot.Facts.read (·.stateVersion) (shelf .facts)
    let markers ← partOf header id .markers Snapshot.Markers.read (·.stateVersion) (shelf .markers)
    let globals ← partOf header id .globals Snapshot.Globals.read (·.stateVersion) (shelf .globals)
    let stores := Snapshot.stores header facts markers globals
    match persistence with
    | .full =>
      let part ← partOf header id .network Snapshot.Propagation.read (·.stateVersion) (shelf .network)
      return ⟨← orInconsistent (Engine.adopt program stores part.network),header⟩
    | .storesOnly => return ⟨← orInconsistent (Engine.rebuild program stores),header⟩

end Stored

section Calls
variable {σ α : Type} [Store σ]

theorem readHeader_eq (id : SessionId) :
    (readHeader id : Recovery σ _) = fetch id .header >>= fun bytes => orFail (headerOf bytes) := by
  refine congrArg (fetch id .header >>= ·) (funext fun bytes => ?_)
  cases bytes with
  | none => rfl
  | some bytes =>
    change (orFail (decoded Snapshot.Header.read .header bytes) >>= fun header => pure (some header)) = _
    rw [headerOf]
    cases decoded Snapshot.Header.read .header bytes <;> rfl

theorem load_eq (header : Snapshot.Header) (id : SessionId) (tag : Tag) (reader : Json.Reader α) (version : α → Nat) :
    (load header id tag reader version : Recovery σ α) =
      fetch id tag >>= fun bytes => orFail (partOf header id tag reader version bytes) := by
  refine congrArg (fetch id tag >>= ·) (funext fun bytes => ?_)
  cases bytes with
  | none => rfl
  | some bytes =>
    simp only [partOf]
    cases decoded reader tag bytes with
    | error cause => rfl
    | ok part =>
      by_cases same : version part = header.stateVersion
      · simp only [if_pos same]
        exact if_pos same
      · simp only [if_neg same]
        exact if_neg same

end Calls

section Reading
variable {σ α β : Type} [Store σ] [Faithful σ] {id : SessionId}

-- The call changes nothing. It answers by what is stored, unless some read
-- fails, and a read that can be relied on never does.
structure Answers (call : Recovery σ α) (id : SessionId) (answer : Shelf → Except RecoveryError α) (store : σ) : Prop where
  view : Faithful.view (call store).2 = Faithful.view store
  read : (call store).1 = answer (shelf store id) ∨ ∃ cause, (call store).1 = .error (.store cause)
  readable : Readable store → (call store).1 = answer (shelf store id) ∧ Readable (call store).2
  steady : Steady store → Steady (call store).2

theorem answers_orFail (answer : Except RecoveryError α) (store : σ) :
    Answers (orFail answer) id (fun _ => answer) store :=
  ⟨rfl,.inl rfl,fun readable => ⟨rfl,readable⟩,fun steady => steady⟩

theorem answers_pure (value : α) (store : σ) : Answers (pure value) id (fun _ => pure value) store :=
  answers_orFail (.ok value) store

theorem answers_fetch (tag : Tag) (store : σ) : Answers (fetch id tag) id (fun shelf => .ok (shelf tag)) store := by
  have run : (fetch id tag : Recovery σ _) store = (((Store.get id tag : Call σ _) store).1.mapError .store,
    ((Store.get id tag : Call σ _) store).2) := rfl
  obtain ⟨same,found⟩ := Faithful.get store id tag
  constructor
  · rw [run]
    exact same
  · rw [run]
    cases found with
    | inl found =>
      rw [found]
      exact .inl rfl
    | inr failed =>
      obtain ⟨cause,failed⟩ := failed
      rw [failed]
      exact .inr ⟨cause,rfl⟩
  · intro readable
    obtain ⟨found,after⟩ := readable.get id tag
    rw [run,found]
    exact ⟨rfl,after⟩
  · intro steady
    rw [run]
    exact steady.get id tag

theorem Answers.bind {call : Recovery σ α} {next : α → Recovery σ β} {answer : Shelf → Except RecoveryError α}
    {later : α → Shelf → Except RecoveryError β} {store : σ} (one : Answers call id answer store)
    (two : ∀ value store, Answers (next value) id (later value) store) :
    Answers (call >>= next) id (fun shelf => answer shelf >>= fun value => later value shelf) store := by
  have same : shelf (call store).2 id = shelf store id := shelf_of_view one.view id
  cases went : (call store).1 with
  | error cause =>
    have run : (call >>= next) store = (.error cause,(call store).2) := bind_of_error (Prod.ext went rfl)
    constructor
    · rw [run]
      exact one.view
    · rw [run]
      cases one.read with
      | inl read =>
        rw [went] at read
        rw [← read]
        exact .inl rfl
      | inr failed =>
        obtain ⟨fault,failed⟩ := failed
        rw [went] at failed
        cases failed
        exact .inr ⟨fault,rfl⟩
    · intro readable
      obtain ⟨read,after⟩ := one.readable readable
      rw [went] at read
      rw [run,← read]
      exact ⟨rfl,after⟩
    · rw [run]
      exact one.steady
  | ok value =>
    have run : (call >>= next) store = next value (call store).2 := bind_of_ok (Prod.ext went rfl)
    have rest := two value (call store).2
    have found : answer (shelf store id) = .ok value := by
      cases one.read with
      | inl read => rw [← read,went]
      | inr failed =>
        obtain ⟨cause,failed⟩ := failed
        rw [went] at failed
        cases failed
    have whole : (answer (shelf store id) >>= fun value => later value (shelf store id)) = later value (shelf (call store).2 id) := by
      rw [found,same]
      rfl
    constructor
    · rw [run]
      exact rest.view.trans one.view
    · rw [run,whole]
      exact rest.read
    · intro readable
      rw [run,whole]
      exact rest.readable (one.readable readable).2
    · intro steady
      rw [run]
      exact rest.steady (one.steady steady)

theorem answers_readHeader (store : σ) : Answers (readHeader id) id (fun shelf => headerOf (shelf .header)) store := by
  rw [readHeader_eq]
  exact (answers_fetch .header store).bind fun bytes store => answers_orFail (headerOf bytes) store

theorem answers_load (header : Snapshot.Header) (tag : Tag) (reader : Json.Reader α) (version : α → Nat) (store : σ) :
    Answers (load header id tag reader version) id (fun shelf => partOf header id tag reader version (shelf tag)) store := by
  rw [load_eq]
  exact (answers_fetch tag store).bind fun bytes store => answers_orFail (partOf header id tag reader version bytes) store

theorem answers_recover (program : Program) (persistence : Persistence) (store : σ) :
    Answers (recover id program persistence) id (fun shelf => stored shelf id program persistence) store := by
  refine (answers_readHeader store).bind fun header store => ?_
  cases header with
  | none => exact answers_orFail (.error (.notFound id)) store
  | some header =>
    refine (answers_orFail (checkHeader id header) store).bind fun _ store => ?_
    refine (answers_load header .facts Snapshot.Facts.read (·.stateVersion) store).bind fun facts store => ?_
    refine (answers_load header .markers Snapshot.Markers.read (·.stateVersion) store).bind fun markers store => ?_
    refine (answers_load header .globals Snapshot.Globals.read (·.stateVersion) store).bind fun globals store => ?_
    cases persistence with
    | full =>
      refine (answers_load header .network Snapshot.Propagation.read (·.stateVersion) store).bind fun part store => ?_
      exact (answers_orFail (orInconsistent (Engine.adopt program (Snapshot.stores header facts markers globals) part.network))
        store).bind fun engine store => answers_pure (Recovered.mk engine header) store
    | storesOnly =>
      exact (answers_orFail (orInconsistent (Engine.rebuild program (Snapshot.stores header facts markers globals)))
        store).bind fun engine store => answers_pure (Recovered.mk engine header) store

end Reading

section Spec
variable {shelf : Shelf} {id : SessionId} {program : Program} {persistence : Persistence} {found : Recovered}

def Lies {α : Type} (shelf : Shelf) (tag : Tag) (reader : Json.Reader α) (value : α) : Prop :=
  ∃ bytes, shelf tag = some bytes ∧ Json.decode reader bytes = .ok value

theorem except_bind_ok {ε α β : Type} {first : Except ε α} {next : α → Except ε β} {value : β} :
    (first >>= next) = .ok value ↔ ∃ middle, first = .ok middle ∧ next middle = .ok value := by
  cases first <;> simp [bind,Except.bind]

theorem decoded_ok {α : Type} {reader : Json.Reader α} (tag : Tag) {bytes : ByteArray} {value : α} :
    decoded reader tag bytes = .ok value ↔ Json.decode reader bytes = .ok value := by
  unfold decoded
  cases Json.decode reader bytes <;> simp

theorem headerOf_ok {header : Snapshot.Header} :
    headerOf (shelf .header) = .ok (some header) ↔ Lies shelf .header Snapshot.Header.read header := by
  unfold Lies
  cases shelf .header with
  | none => simp [headerOf]
  | some bytes =>
    rw [headerOf]
    cases read : decoded Snapshot.Header.read .header bytes with
    | error cause => simp [Except.map,← decoded_ok .header,read]
    | ok value => simp [Except.map,← decoded_ok .header,read]

theorem partOf_ok {α : Type} {header : Snapshot.Header} {tag : Tag} {reader : Json.Reader α} {version : α → Nat} {part : α} :
    partOf header id tag reader version (shelf tag) = .ok part ↔
      Lies shelf tag reader part ∧ version part = header.stateVersion := by
  unfold Lies
  cases shelf tag with
  | none => simp [partOf]
  | some bytes =>
    simp only [partOf,Option.some.injEq,exists_eq_left']
    rw [← decoded_ok tag]
    cases decoded reader tag bytes with
    | error cause => simp
    | ok value =>
      by_cases same : version value = header.stateVersion
      · simp only [if_pos same,Except.ok.injEq]
        exact ⟨fun equal => ⟨equal,equal ▸ same⟩,And.left⟩
      · simp only [if_neg same,Except.ok.injEq,reduceCtorEq,false_iff]
        intro held
        exact same (held.1 ▸ held.2)

theorem checkHeader_ok {header : Snapshot.Header} :
    checkHeader id header = .ok () ↔ header.formatVersion = Snapshot.formatVersion ∧ header.id = id := by
  unfold checkHeader
  by_cases format : header.formatVersion = Snapshot.formatVersion <;> by_cases own : header.id = id <;>
    simp [format,own]

theorem orInconsistent_ok {α : Type} {answer : Except Inconsistency α} {value : α} :
    orInconsistent answer = .ok value ↔ answer = .ok value := by
  cases answer <;> simp [orInconsistent]

structure Pieces (shelf : Shelf) (id : SessionId) (header : Snapshot.Header) (facts : Snapshot.Facts)
    (markers : Snapshot.Markers) (globals : Snapshot.Globals) : Prop where
  isHeader : Lies shelf .header Snapshot.Header.read header
  format : header.formatVersion = Snapshot.formatVersion
  own : header.id = id
  isFacts : Lies shelf .facts Snapshot.Facts.read facts ∧ facts.stateVersion = header.stateVersion
  isMarkers : Lies shelf .markers Snapshot.Markers.read markers ∧ markers.stateVersion = header.stateVersion
  isGlobals : Lies shelf .globals Snapshot.Globals.read globals ∧ globals.stateVersion = header.stateVersion

def Builds (shelf : Shelf) (program : Program) (persistence : Persistence) (header : Snapshot.Header) (stores : Stores)
    (e : Engine) : Prop :=
  match persistence with
  | .full => ∃ part, Lies shelf .network Snapshot.Propagation.read part ∧ part.stateVersion = header.stateVersion ∧
      Engine.adopt program stores part.network = .ok e
  | .storesOnly => Engine.rebuild program stores = .ok e

theorem stored_ok : stored shelf id program persistence = .ok found ↔ ∃ facts markers globals,
    Pieces shelf id found.header facts markers globals ∧
      Builds shelf program persistence found.header (Snapshot.stores found.header facts markers globals) found.engine := by
  unfold stored
  rw [except_bind_ok]
  constructor
  · intro held
    obtain ⟨header,read,rest⟩ := held
    cases header with
    | none => cases rest
    | some header =>
      simp only [except_bind_ok] at rest
      obtain ⟨_,checked,facts,isFacts,markers,isMarkers,globals,isGlobals,built⟩ := rest
      obtain ⟨format,own⟩ := checkHeader_ok.mp checked
      refine ⟨facts,markers,globals,?_⟩
      cases persistence with
      | full =>
        simp only [except_bind_ok] at built
        obtain ⟨part,isPart,e,adopted,last⟩ := built
        cases last
        obtain ⟨held,version⟩ := partOf_ok.mp isPart
        exact ⟨⟨headerOf_ok.mp read,format,own,partOf_ok.mp isFacts,partOf_ok.mp isMarkers,partOf_ok.mp isGlobals⟩,
          part,held,version,orInconsistent_ok.mp adopted⟩
      | storesOnly =>
        simp only [except_bind_ok] at built
        obtain ⟨e,rebuilt,last⟩ := built
        cases last
        exact ⟨⟨headerOf_ok.mp read,format,own,partOf_ok.mp isFacts,partOf_ok.mp isMarkers,partOf_ok.mp isGlobals⟩,
          orInconsistent_ok.mp rebuilt⟩
  · intro held
    obtain ⟨facts,markers,globals,pieces,built⟩ := held
    refine ⟨some found.header,headerOf_ok.mpr pieces.isHeader,?_⟩
    simp only [except_bind_ok]
    refine ⟨(),checkHeader_ok.mpr ⟨pieces.format,pieces.own⟩,facts,partOf_ok.mpr pieces.isFacts,markers,
      partOf_ok.mpr pieces.isMarkers,globals,partOf_ok.mpr pieces.isGlobals,?_⟩
    cases persistence with
    | full =>
      obtain ⟨part,held,version,adopted⟩ := built
      simp only [except_bind_ok]
      exact ⟨part,partOf_ok.mpr ⟨held,version⟩,found.engine,orInconsistent_ok.mpr adopted,rfl⟩
    | storesOnly =>
      simp only [except_bind_ok]
      exact ⟨found.engine,orInconsistent_ok.mpr built,rfl⟩

end Spec

section Reaching
variable {α β : Type}

-- No call to the store failed in the recovery.
def reached : Except RecoveryError α → Bool
  | .error (.store _) => false
  | _ => true

theorem reached_bind {first : Except RecoveryError α} {next : α → Except RecoveryError β} (held : reached first = true)
    (later : ∀ value, reached (next value) = true) : reached (first >>= next) = true := by
  cases first with
  | ok value => exact later value
  | error cause => cases cause <;> first | rfl | cases held

theorem reached_decoded (reader : Json.Reader α) (tag : Tag) (bytes : ByteArray) : reached (decoded reader tag bytes) = true := by
  unfold decoded
  split <;> rfl

theorem reached_partOf (header : Snapshot.Header) (id : SessionId) (tag : Tag) (reader : Json.Reader α) (version : α → Nat)
    (bytes : Option ByteArray) : reached (partOf header id tag reader version bytes) = true := by
  cases bytes with
  | none => rfl
  | some bytes =>
    have read := reached_decoded reader tag bytes
    simp only [partOf]
    generalize decoded reader tag bytes = went at read
    cases went with
    | error cause => exact read
    | ok part =>
      dsimp only
      split <;> rfl

theorem reached_orInconsistent (answer : Except Inconsistency α) : reached (orInconsistent answer) = true := by
  cases answer <;> rfl

-- What is stored is never at fault for a call that fails.
theorem reached_stored (shelf : Shelf) (id : SessionId) (program : Program) (persistence : Persistence) :
    reached (stored shelf id program persistence) = true := by
  have heading : reached (headerOf (shelf .header)) = true := by
    cases shelf .header with
    | none => rfl
    | some bytes => exact reached_bind (reached_decoded _ _ bytes) fun _ => rfl
  refine reached_bind heading fun header => ?_
  cases header with
  | none => rfl
  | some header =>
    have checked : reached (checkHeader id header) = true := by
      unfold checkHeader
      split
      · rfl
      · split <;> rfl
    refine reached_bind checked fun _ => reached_bind (reached_partOf ..) fun facts => ?_
    refine reached_bind (reached_partOf ..) fun markers => reached_bind (reached_partOf ..) fun globals => ?_
    cases persistence with
    | full =>
      exact reached_bind (reached_partOf ..) fun part => reached_bind (reached_orInconsistent _) fun _ => rfl
    | storesOnly => exact reached_bind (reached_orInconsistent _) fun _ => rfl

end Reaching
end Recovery

section Recovered
open Recovery
variable {σ : Type} [Store σ] [Faithful σ] {store : σ}

theorem stored_missing {shelf : Shelf} {id : SessionId} (absent : shelf .header = none) (program : Program)
    (persistence : Persistence) : stored shelf id program persistence = .error (.notFound id) := by
  rw [stored,absent]
  rfl

theorem Readable.recovers (readable : Readable store) (id : SessionId) (program : Program) (persistence : Persistence) :
    (recover id program persistence store).1 = stored (shelf store id) id program persistence :=
  ((answers_recover program persistence store).readable readable).1

theorem recover_ok {id : SessionId} {program : Program} {persistence : Persistence} {found : Recovered}
    (went : (recover id program persistence store).1 = .ok found) : stored (shelf store id) id program persistence = .ok found := by
  cases (answers_recover program persistence store).read with
  | inl read => exact read.symm.trans went
  | inr failed =>
    obtain ⟨cause,failed⟩ := failed
    cases went.symm.trans failed

theorem Readable.reached (readable : Readable store) (id : SessionId) (program : Program) (persistence : Persistence) :
    Recovery.reached (recover id program persistence store).1 = true := by
  rw [readable.recovers]
  exact reached_stored ..

end Recovered
end DurableRules
