import DurableRules.Proofs.Session.Changing
import DurableRules.Proofs.Store.Interchange
import DurableRules.Proofs.Store.Stability

namespace DurableRules
open Recovery

-- What the recovery of all sessions makes of what one of them has stored: the
-- header says under which options, and the rest must be recovered under these.
def revived (program : Program) (id : SessionId) (shelf : Shelf) : Option Session :=
  match headerOf (shelf .header) with
  | .ok (some header) =>
    if header.options.Supported then
      match stored shelf id program header.options.persistence with
      | .ok found => some ⟨found.engine,.resumed id header.options found.header.stateVersion,found.header.stateVersion⟩
      | .error _ => none
    else none
  | _ => none

def Revives {σ : Type} [Store σ] (program : Program) (store : σ) (id : SessionId) (s : Session) : Prop :=
  ∃ header found, (readHeader id store).1 = .ok (some header) ∧ header.options.Supported ∧
    (recover id program header.options.persistence store).1 = .ok found ∧
    s = ⟨found.engine,.resumed id header.options header.stateVersion,header.stateVersion⟩

theorem stored_header {shelf : Shelf} {id : SessionId} {program : Program} {persistence : Persistence} {found : Recovered}
    {header : Snapshot.Header} (read : headerOf (shelf .header) = .ok (some header))
    (went : stored shelf id program persistence = .ok found) : found.header = header := by
  obtain ⟨_,_,_,pieces,_⟩ := stored_ok.mp went
  have same := (headerOf_ok.mpr pieces.isHeader).symm.trans read
  cases same
  rfl

theorem revived_some {shelf : Shelf} {id : SessionId} {program : Program} {s : Session} :
    revived program id shelf = some s ↔ ∃ header found, headerOf (shelf .header) = .ok (some header) ∧
      header.options.Supported ∧ stored shelf id program header.options.persistence = .ok found ∧
      s = ⟨found.engine,.resumed id header.options header.stateVersion,header.stateVersion⟩ := by
  constructor
  · intro found
    unfold revived at found
    split at found
    · next header read =>
      obtain ⟨supported,went⟩ := Option.ite_none_right_eq_some.mp found
      split at went
      · next recovered went' =>
        cases went
        refine ⟨header,recovered,read,supported,went',?_⟩
        rw [stored_header read went']
      · cases went
    · cases found
  · rintro ⟨header,found,read,supported,went,rfl⟩
    unfold revived
    simp only [read,if_pos supported,went,stored_header read went]

section Walking
variable {σ : Type} [Store σ] [Faithful σ] {r : Registry σ} {program : Program} {before ids : List SessionId}
  {id other : SessionId} {s : Session}

theorem revives_iff {store : σ} (readable : Readable store) :
    Revives program store id s ↔ revived program id (shelf store id) = some s := by
  rw [revived_some,Revives,((answers_readHeader store).readable readable).1]
  simp only [readable.recovers]

-- What one round does: the store stays as it is and so do the other sessions.
structure Round (program : Program) (start : List SessionId × Registry σ) (ids : List SessionId)
    (last : List SessionId × Registry σ) : Prop where
  view : Faithful.view last.2.store = Faithful.view start.2.store
  steady : Steady last.2.store
  listed : last.1 = start.1 ++ ids.filter fun id => (revived program id (shelf start.2.store id)).isSome
  live : ∀ id, last.2.live.get? id = if id ∈ ids then
    (revived program id (shelf start.2.store id)).or (start.2.live.get? id) else start.2.live.get? id

theorem Round.trans {start middle last : List SessionId × Registry σ} {later : List SessionId}
    (one : Round program start ids middle) (two : Round program middle later last) : Round program start (ids ++ later) last := by
  refine ⟨two.view.trans one.view,two.steady,?_,fun id => ?_⟩
  · rw [two.listed,one.listed,List.filter_append,List.append_assoc]
    simp only [shelf_of_view one.view]
  · rw [two.live,one.live,shelf_of_view one.view]
    by_cases first : id ∈ ids <;> by_cases second : id ∈ later <;> simp [first,second]
    cases revived program id (shelf start.2.store id) <;> rfl

theorem Round.passed {store : σ} (view : Faithful.view store = Faithful.view r.store) (steady : Steady store)
    (none : revived program id (shelf r.store id) = none) :
    Round program (before,r) [id] (before,{ r with store }) := by
  refine ⟨view,steady,by simp [none],fun other => ?_⟩
  by_cases same : other = id
  · simp [same,none]
  · simp [same]

theorem Round.taken {store : σ} (view : Faithful.view store = Faithful.view r.store) (steady : Steady store)
    (some : revived program id (shelf r.store id) = some s) :
    Round program (before,r) [id] (before ++ [id],⟨store,r.live.put id s⟩) := by
  refine ⟨view,steady,by simp [some],fun other => ?_⟩
  dsimp only
  rw [Map.get?_put]
  by_cases same : other = id
  · simp [same,some]
  · simp [same]

-- A session can be restored exactly if its options are supported and what is
-- stored for it can be recovered under them.
theorem restore_ok_iff (readable : Readable r.store) (id : SessionId) (program : Program) (options : Options) :
    (r.restore id program options).1 = .ok id ↔ options.Supported ∧
      ∃ found, stored (shelf r.store id) id program options.persistence = .ok found := by
  unfold Registry.restore Options.validate
  rw [← readable.recovers]
  by_cases supported : options.Supported
  · rw [if_pos supported]
    cases went : recover id program options.persistence r.store with
    | mk answer store => cases answer <;> simp [supported]
  · simp [supported]

theorem recoverOne_round (program : Program) (steady : Steady r.store) (before : List SessionId) (id : SessionId) :
    Round program (before,r) [id] (Registry.recoverOne program (before,r) id) := by
  have heading : Answers (readHeader id) id _ r.store := answers_readHeader r.store
  have view := heading.view
  have still := heading.steady steady
  have read := (heading.readable steady.readable).1
  unfold Registry.recoverOne
  dsimp only
  cases went : readHeader id r.store with
  | mk answer middle =>
    rw [went] at view still read
    dsimp only at view still read
    rcases answer with cause | _ | header
    · exact .passed view still (by simp only [revived,← read])
    · exact .passed view still (by simp only [revived,← read])
    · have own : shelf middle id = shelf r.store id := shelf_of_view view id
      obtain ⟨seen,later,result⟩ := restore_spec { r with store := middle } id program header.options
      have exactly := restore_ok_iff (r := { r with store := middle }) still.readable id program header.options
      dsimp only
      cases done : ({ r with store := middle } : Registry σ).restore id program header.options with
      | mk answer next =>
        rw [done] at seen later result exactly
        dsimp only at seen later result exactly
        rw [own] at result exactly
        obtain ⟨store,live⟩ := next
        rcases result with ⟨⟨cause,rfl⟩,rfl⟩ | ⟨found,whole,rfl,rfl⟩
        · refine .passed (seen.trans view) (later still) (Option.eq_none_iff_forall_ne_some.mpr fun s some => ?_)
          obtain ⟨header',found,read',supported,whole,_⟩ := revived_some.mp some
          cases read.trans read'
          cases exactly.mpr ⟨supported,found,whole⟩
        · refine .taken (seen.trans view) (later still) (revived_some.mpr ?_)
          have version := stored_header read.symm whole
          exact ⟨header,found,read.symm,(exactly.mp rfl).1,whole,by rw [version]⟩

theorem foldl_recoverOne_round (program : Program) (steady : Steady r.store) (before ids : List SessionId) :
    Round program (before,r) ids (ids.foldl (Registry.recoverOne program) (before,r)) := by
  induction ids generalizing before r with
  | nil => exact ⟨rfl,steady,(List.append_nil _).symm,fun _ => rfl⟩
  | cons id rest ih =>
    have one := recoverOne_round program steady before id
    exact one.trans (ih one.steady _)

-- Where no header lies nothing is recovered, so it is enough to go through the
-- sessions that are listed.
theorem revived_headed {shelf : Shelf} (some : revived program id shelf = some s) : ∃ bytes, shelf .header = .some bytes := by
  obtain ⟨header,_,read,_⟩ := revived_some.mp some
  obtain ⟨bytes,lies,_⟩ := headerOf_ok.mp read
  exact ⟨bytes,lies⟩

theorem recoverAll_revived (steady : Steady r.store) (listed : Listed r.store) (program : Program) :
    ∃ ids, (r.recoverAll program).1 = .ok ids ∧ ids.Pairwise (fun one two => one.value < two.value) ∧
      Faithful.view (r.recoverAll program).2.store = Faithful.view r.store ∧
      (∀ id, id ∈ ids ↔ ∃ s, revived program id (shelf r.store id) = some s) ∧
      ∀ id, (r.recoverAll program).2.live.get? id =
        (revived program id (shelf r.store id)).or (r.live.get? id) := by
  obtain ⟨found,answered,ascending,headed⟩ := listed
  have asked := Faithful.sessions r.store
  have still := (steady.ask .sessions trivial).2
  unfold Registry.recoverAll
  cases went : (Store.sessions : Call σ _) r.store with
  | mk answer store =>
    rw [Ask.run,went] at still
    rw [went] at answered asked
    dsimp only at answered asked still
    subst answered
    have round := foldl_recoverOne_round program (r := { r with store }) still [] found
    have own (id : SessionId) : shelf store id = shelf r.store id := shelf_of_view asked id
    have inside {id : SessionId} {s : Session} (some : revived program id (shelf r.store id) = some s) :
        id ∈ found := by
      obtain ⟨bytes,lies⟩ := revived_headed some
      exact (headed id).mpr ⟨bytes,(steady.readable.get id .header).1.trans (congrArg _ lies)⟩
    refine ⟨_,congrArg Except.ok round.listed,ascending.filter _,round.view.trans asked,fun id => ?_,fun id => ?_⟩
    · rw [List.nil_append,List.mem_filter,own,Option.isSome_iff_exists]
      exact ⟨And.right,fun held => ⟨held.elim fun s some => inside some,held⟩⟩
    · rw [round.live,own]
      split
      · rfl
      · next outside =>
        cases some : revived program id (shelf r.store id) with
        | none => rfl
        | some s => exact absurd (inside some) outside

-- All sessions are recovered that can be, in order and each under the options
-- of its own header. Nothing else changes, and what becomes of a session rests
-- on what is stored for it alone, whatever else lies in the store.
theorem recoverAll_exact (steady : Steady r.store) (listed : Listed r.store) (program : Program) :
    ∃ ids, (r.recoverAll program).1 = .ok ids ∧ ids.Pairwise (fun one two => one.value < two.value) ∧
      Faithful.view (r.recoverAll program).2.store = Faithful.view r.store ∧
      (∀ id, id ∈ ids ↔ ∃ s, Revives program r.store id s) ∧
      (∀ id s, Revives program r.store id s → (r.recoverAll program).2.live.get? id = some s) ∧
      (∀ id, id ∉ ids → (r.recoverAll program).2.live.get? id = r.live.get? id) ∧
      ∀ {τ : Type} [Store τ] [Faithful τ] (other : Registry τ), Steady other.store → Listed other.store →
        ∀ id, shelf other.store id = shelf r.store id →
          other.live.get? id = r.live.get? id → ∃ others, (other.recoverAll program).1 = .ok others ∧
            (id ∈ others ↔ id ∈ ids) ∧ (other.recoverAll program).2.live.get? id = (r.recoverAll program).2.live.get? id := by
  obtain ⟨ids,answered,ascending,view,exactly,live⟩ := recoverAll_revived steady listed program
  refine ⟨ids,answered,ascending,view,fun id => ?_,fun id s held => ?_,fun id outside => ?_,?_⟩
  · simp only [revives_iff steady.readable]
    exact exactly id
  · rw [live,(revives_iff steady.readable).mp held]
    rfl
  · have none : revived program id (shelf r.store id) = none :=
      Option.eq_none_iff_forall_ne_some.mpr fun s some => outside ((exactly id).mpr ⟨s,some⟩)
    rw [live,none]
    rfl
  · intro τ _ _ other calm others id same still
    obtain ⟨also,went,_,_,members,lives⟩ := recoverAll_revived calm others program
    refine ⟨also,went,?_,?_⟩
    · rw [members,exactly,same]
    · rw [lives,live,same,still]

end Walking

section Salvage
open Engine

-- One session is whole, and under the id of another one there is a header that
-- cannot be read.
def salvage : Registry Memory where
  store := ⟨true,(shelving.write restored 1 Memory.empty).2.entries.put ⟨nine,.header⟩ jotted⟩
  live := Map.empty.put nine ⟨Engine.new pairing,.new nine shelving.options,0⟩

theorem salvage_recovered : Steady salvage.store ∧ Listed salvage.store ∧
    ∃ ids, (salvage.recoverAll pairing).1 = .ok ids ∧ .zero ∈ ids ∧ nine ∉ ids ∧
      (salvage.recoverAll pairing).2.live.get? .zero = some ⟨restored,.resumed .zero shelving.options 1,1⟩ ∧
      (salvage.recoverAll pairing).2.live.get? nine = salvage.live.get? nine := by
  have steady : Steady salvage.store := Memory.steady rfl
  have listed : Listed salvage.store := (Memory.keeping.sessions ⟨rfl,rfl⟩).1
  have own : shelf salvage.store .zero = shelf (shelving.write restored 1 Memory.empty).2 .zero :=
    funext fun tag => Map.get?_put_other _ _ (by cases tag <;> decide)
  have written := (write_steady (@Memory.steady Memory.empty rfl) shelving restored 1).1
  have rebuilt : rebuild pairing (paired.fire 1).2.stores = .ok restored := rfl
  have whole : stored (shelf salvage.store .zero) .zero pairing .storesOnly =
      .ok ⟨restored,Snapshot.header .zero restored shelving.options 1⟩ :=
    own ▸ (write_complete written).regains rfl (by decide) (Canonical.of_rebuild rebuilt).again
  have revives : Revives pairing salvage.store .zero ⟨restored,.resumed .zero shelving.options 1,1⟩ := by
    obtain ⟨_,_,_,pieces,_⟩ := stored_ok.mp whole
    exact (revives_iff steady.readable).mpr (revived_some.mpr ⟨_,_,headerOf_ok.mpr pieces.isHeader,by decide,whole,rfl⟩)
  have damaged : ¬ ∃ s, Revives pairing salvage.store nine s := by
    rintro ⟨s,held⟩
    obtain ⟨header,_,read,_⟩ := revived_some.mp ((revives_iff steady.readable).mp held)
    have lies : shelf salvage.store nine .header = some jotted :=
      Map.get?_put_self (shelving.write restored 1 Memory.empty).2.entries ⟨nine,.header⟩ jotted
    rw [lies] at read
    cases read
  obtain ⟨ids,answered,_,_,exactly,live,still,_⟩ := recoverAll_exact steady listed pairing
  have outside : nine ∉ ids := fun inside => damaged ((exactly nine).mp inside)
  exact ⟨steady,listed,ids,answered,(exactly _).mpr ⟨_,revives⟩,outside,live _ _ revives,still nine outside⟩

end Salvage
end DurableRules
