import DurableRules.Proofs.Session.Standing

namespace DurableRules

def Edit.heads (id : SessionId) (edit : Edit) : Bool := edit.bytes.isSome && edit.key == ⟨id,.header⟩

section Edits
variable {id : SessionId} {edits : List Edit} {shelf : Shelf} {w : Writer} {e : Engine} {version : Nat}

theorem count_edits (v : View (List Key)) (edits : List Edit) : (v.edits List.cons edits).past.count ⟨id,.header⟩ =
    v.past.count ⟨id,.header⟩ + edits.countP (Edit.heads id) := by
  induction edits generalizing v with
  | nil => rfl
  | cons edit rest ih =>
    have later := ih (v.edit List.cons edit)
    refine later.trans ?_
    rw [List.countP_cons]
    obtain ⟨key,bytes⟩ := edit
    cases bytes with
    | none => simp [View.edit,Edit.heads]
    | some bytes =>
      simp only [View.edit,Edit.heads,Option.isSome_some,if_true,List.count_cons,Bool.true_and]
      omega

theorem blank_quiet (blank : ∀ edit ∈ edits, edit.bytes = none) : edits.any (Edit.heads id) = false := by
  rw [List.any_eq_false]
  intro edit present
  simp [Edit.heads,blank edit present]

theorem discards_quiet (id other : SessionId) (count : Nat) : ((discards other).take count).any (Edit.heads id) = false :=
  blank_quiet fun _ present => discards_blank (List.mem_of_mem_take present)

theorem whole_heads : (w.edits e version).any (Edit.heads w.id) = true := by
  rw [Writer.edits_eq,List.any_append]
  simp [Edit.heads,Writer.headerEdit]

theorem cut_quiet {count : Nat} (short : count < (w.edits e version).length) :
    ((w.edits e version).take count).any (Edit.heads id) = false := by
  rw [List.any_eq_false]
  intro edit present heads
  obtain ⟨_,apart,_⟩ := Writer.bodyEdits_spec (Writer.cut_body short present)
  simp only [Edit.heads,Bool.and_eq_true,beq_iff_eq] at heads
  exact apart (congrArg Key.tag heads.2)

theorem header_absent (own : ∀ edit ∈ edits, edit.key.id = id) (quiet : edits.any (Edit.heads id) = false)
    (absent : shelf .header = none) : edits.foldl Shelf.edit shelf .header = none := by
  induction edits generalizing shelf with
  | nil => exact absent
  | cons edit rest ih =>
    rw [List.any_cons,Bool.or_eq_false_iff] at quiet
    refine ih (fun other present => own other (List.mem_cons_of_mem _ present)) quiet.2 ?_
    rw [Shelf.edit,Function.update_apply]
    split
    · next same =>
      obtain ⟨⟨named,tag⟩,bytes⟩ := edit
      cases own _ List.mem_cons_self
      cases same
      simpa [Edit.heads] using quiet.1
    · exact absent

theorem discards_header (count : Nat) : (discards id).take count = [] ∨
    ((discards id).take count).foldl Shelf.edit shelf .header = none := by
  cases count with
  | zero => exact .inl rfl
  | succ count =>
    right
    have own : ∀ edit ∈ ((discards id).drop 1).take count, edit.key.id = id := fun edit present =>
      discards_own (List.mem_of_mem_drop (List.mem_of_mem_take present))
    have quiet : (((discards id).drop 1).take count).any (Edit.heads id) = false :=
      blank_quiet fun edit present => discards_blank (List.mem_of_mem_drop (List.mem_of_mem_take present))
    have cleared : (shelf.edit ⟨⟨id,.header⟩,none⟩) .header = none := Function.update_self _ _ _
    change (((discards id).drop 1).take count).foldl Shelf.edit (shelf.edit ⟨⟨id,.header⟩,none⟩) .header = none
    exact header_absent own quiet cleared

end Edits

section Checkpoints
variable {edits : List Edit}

theorem components_hold (id : SessionId) (e : Engine) (options : Options) (version : Nat) {tag : Tag}
    (apart : tag ≠ .network) : ∃ tree, (tag,tree) ∈ Snapshot.components id e options version := by
  simp only [mem_components]
  cases tag <;> simp at apart ⊢

-- A whole checkpoint is all of one engine, whatever lay there before.
theorem Writer.whole_of {w : Writer} {e : Engine} {version : Nat} {shelf : Shelf} (bears : Bears w.id shelf Anything)
    (storable : Storable e version) (sound : e.Sound) :
    Bears w.id ((w.edits e version).foldl Shelf.edit shelf) (Of e.stores version) := by
  intro tag bytes lying
  by_cases network : tag = .network
  · subst network
    have still : Bears w.id ((w.edits e version).foldl Shelf.edit shelf) Anything :=
      bears.edits fun edit present bytes put =>
        ⟨e,version,Writer.edits_written storable.toBounded sound present put,trivial⟩
    obtain ⟨source,found,written,_⟩ := still .network bytes lying
    exact ⟨source,found,written,trivial⟩
  · obtain ⟨tree,inside⟩ := components_hold w.id e w.options version network
    have present : (tag,tree.text.toUTF8) ∈ Snapshot.encode w.id e w.options version := mem_encode.mpr ⟨tree,inside,rfl⟩
    cases lying.symm.trans (Writer.edits_complete shelf w e version _ present)
    refine ⟨e,version,⟨storable.toBounded,sound,w.options,present⟩,?_⟩
    cases tag with
    | header => exact ⟨rfl,rfl⟩
    | facts => exact ⟨storable.values,fun _ => rfl⟩
    | markers => exact ⟨storable.values,fun _ => rfl⟩
    | globals => exact ⟨storable.values,fun _ => rfl⟩
    | network => trivial

theorem Attempt.saves {steady : Prop} {w : Writer} {e : Engine} {version : Nat} {shelf : Shelf} {done : Option Writer}
    (attempt : Attempt steady w e version edits done) (loud : edits.any (Edit.heads w.id) = true)
    (bears : Bears w.id shelf Anything) (storable : Storable e version) (sound : e.Sound) :
    done = some { w with durable := some version } ∧
      Bears w.id (edits.foldl Shelf.edit shelf) (Of e.stores version) := by
  cases attempt with
  | whole => exact ⟨rfl,Writer.whole_of bears storable sound⟩
  | cut count short =>
    rw [cut_quiet short] at loud
    cases loud

theorem Attempt.over {steady : Prop} {w : Writer} {e : Engine} {version found : Nat} {shelf : Shelf} {stores : Stores}
    {done : Option Writer} (attempt : Attempt steady w e version edits done) (quiet : edits.any (Edit.heads w.id) = false)
    (bears : Bears w.id shelf (Of stores found)) (storable : Storable e version) (sound : e.Sound)
    (agrees : version = found → e.stores = stores) : Bears w.id (edits.foldl Shelf.edit shelf) (Of stores found) := by
  refine bears.edits fun edit present bytes put =>
    ⟨e,version,attempt.written storable.toBounded sound edit present bytes put,?_⟩
  cases attempt with
  | whole =>
    rw [whole_heads] at quiet
    cases quiet
  | cut count short =>
    obtain ⟨_,apart,_⟩ := Writer.bodyEdits_spec (Writer.cut_body short present)
    cases tag : edit.key.tag with
    | header => exact absurd tag apart
    | facts => exact ⟨storable.values,agrees⟩
    | markers => exact ⟨storable.values,agrees⟩
    | globals => exact ⟨storable.values,agrees⟩
    | network => trivial

end Checkpoints

section Parts
variable {steady : Prop} {s next saved : Session} {command : Command} {edits : List Edit} {id : SessionId}
  {answer : Except SessionError Outcome} {shelf : Shelf} {program : Program} {options : Options} {made : Option Session}

theorem Session.Processed.saves (processed : s.Processed steady command edits answer next)
    (loud : edits.any (Edit.heads s.id) = true) (bears : Bears s.id shelf Anything) (sound : next.engine.Sound)
    (storable : Storable next.engine next.stateVersion) :
    Bears s.id (edits.foldl Shelf.edit shelf) (Of next.engine.stores next.stateVersion) := by
  cases processed with
  | refused => cases loud
  | quiet => cases loud
  | kept => cases loud
  | written _ _ _ attempt => exact (attempt.saves loud bears storable sound).2
  | skipped => cases loud
  | checkpointed _ attempt => exact (attempt.saves loud bears storable sound).2

theorem Session.Processed.spares (processed : s.Processed steady command edits answer next)
    (quiet : edits.any (Edit.heads s.id) = false) (bears : Bears s.id shelf (Of saved.engine.stores saved.stateVersion))
    (sound : s.engine.Sound) (storable : Storable next.engine next.stateVersion)
    (ahead : saved.stateVersion ≤ s.stateVersion ∧ (s.stateVersion = saved.stateVersion → s.engine.stores = saved.engine.stores)) :
    Bears s.id (edits.foldl Shelf.edit shelf) (Of saved.engine.stores saved.stateVersion) ∧
      saved.stateVersion ≤ next.stateVersion ∧
      (next.stateVersion = saved.stateVersion → next.engine.stores = saved.engine.stores) := by
  have later : saved.stateVersion ≤ s.stateVersion + 1 := Nat.le_succ_of_le ahead.1
  have apart (same : s.stateVersion + 1 = saved.stateVersion) : False := by
    have := ahead.1
    omega
  have kept := processed.same.2.2 sound
  cases processed with
  | refused refused =>
    cases sound.coherent.founded.operate_refused refused
    exact ⟨bears,ahead⟩
  | quiet operated idle =>
    cases sound.unmutated operated idle
    exact ⟨bears,ahead⟩
  | kept => exact ⟨bears,later,fun same => (apart same).elim⟩
  | written _ _ _ attempt =>
    exact ⟨attempt.over quiet bears storable kept fun same => (apart same).elim,later,fun same => (apart same).elim⟩
  | skipped => exact ⟨bears,ahead⟩
  | checkpointed _ attempt => exact ⟨attempt.over quiet bears storable kept ahead.2,ahead⟩

theorem Prepared.saves (prepared : Prepared steady shelf id program options edits made)
    (loud : edits.any (Edit.heads id) = true) (bears : Bears id shelf Anything) : ∃ s, made = some s ∧
      Bears id (edits.foldl Shelf.edit shelf) (Of s.engine.stores s.stateVersion) := by
  have silent (count : Nat) : ((discards id).take count).any (Edit.heads id) = false := discards_quiet id id count
  have all := silent (discards id).length
  rw [List.take_length] at all
  cases prepared with
  | refused => cases loud
  | undiscarded count =>
    rw [silent] at loud
    cases loud
  | explicit =>
    rw [all] at loud
    cases loud
  | always _ _ attempt =>
    rw [List.any_append,all,Bool.false_or] at loud
    have blank := bears.discards (discards id).length
    rw [List.take_length] at blank
    obtain ⟨rfl,saved⟩ := attempt.saves loud blank (new_storable program) (Engine.new_sound program)
    refine ⟨_,rfl,?_⟩
    rw [List.foldl_append]
    exact saved

theorem Prepared.spares (prepared : Prepared steady shelf id program options edits made)
    (quiet : edits.any (Edit.heads id) = false) : edits = [] ∧ made = none ∨ edits.foldl Shelf.edit shelf .header = none := by
  have own (edit : Edit) (present : edit ∈ edits) : edit.key.id = id := prepared.own present
  cases prepared with
  | refused => exact .inl ⟨rfl,rfl⟩
  | undiscarded _ free => exact .inr (header_absent own quiet free)
  | explicit free => exact .inr (header_absent own quiet free)
  | always free => exact .inr (header_absent own quiet free)

end Parts

variable {σ : Type} [Store σ] [Faithful σ]

section Step
variable {id : SessionId} {step : Step σ} {edits : List Edit} {saved : Session}

-- What is stored is the checkpoint of this session, perhaps half written over
-- by another one, and a live session has gone on from it.
structure Stands (id : SessionId) (r : Registry σ) (saved : Session) : Prop where
  bears : Bears id (shelf r.store id) (Of saved.engine.stores saved.stateVersion)
  ahead : ∀ s, r.live.get? id = some s → saved.stateVersion ≤ s.stateVersion ∧
    (s.stateVersion = saved.stateVersion → s.engine.stores = saved.engine.stores)

theorem Touches.header_absent (touches : Touches id step edits) (quiet : edits.any (Edit.heads id) = false)
    (absent : DurableRules.shelf step.before.store id .header = none) :
    DurableRules.shelf step.after.store id .header = none := by
  rw [touches.shelf]
  exact DurableRules.header_absent touches.own quiet absent

theorem Touches.saves (touches : Touches id step edits) (loud : edits.any (Edit.heads id) = true)
    (named : Named step.before) (standing : Standing id step.before) (storable : step.Storable id) :
    ∃ s, step.after.live.get? id = some s ∧ Stands id step.after s := by
  have sound := touches.sound standing
  have bears := standing.bears
  have own := touches.own
  have change := touches.change
  have found (s : Session) (held : step.after.live.get? id = some s)
      (same : Bears id (edits.foldl Shelf.edit (DurableRules.shelf step.before.store id)) (Of s.engine.stores s.stateVersion)) :
      ∃ s, step.after.live.get? id = some s ∧ Stands id step.after s := by
    refine ⟨s,held,⟨touches.shelf ▸ same,fun other live => ?_⟩⟩
    cases held.symm.trans live
    exact ⟨Nat.le_refl _,fun _ => rfl⟩
  generalize step.before.live.get? id = before at change
  generalize held : step.after.live.get? id = after at change
  cases change with
  | idle apart =>
    obtain ⟨edit,present,_⟩ := List.any_eq_true.mp loud
    exact absurd (own edit present) (apart edit present)
  | handled _ live _ processed =>
    rw [← held]
    refine found _ held ?_
    have name := named id _ live
    subst name
    exact processed.saves loud bears (sound _ held) (storable _ held)
  | lost => cases loud
  | destroyed _ count =>
    rw [discards_quiet] at loud
    cases loud
  | created _ _ prepared =>
    obtain ⟨s,rfl,same⟩ := prepared.saves loud bears
    rw [← held]
    exact found s held same
  | restored => cases loud

theorem Touches.spares (touches : Touches id step edits) (quiet : edits.any (Edit.heads id) = false)
    (named : Named step.before) (standing : Standing id step.before) (storable : step.Storable id)
    (stands : Stands id step.before saved) : DurableRules.shelf step.after.store id .header = none ∨
      Stands id step.after saved ∧ step.creates id = false ∧ step.destroys id = false := by
  have own := touches.own
  have change := touches.change
  have ahead := stands.ahead
  have shelf := touches.shelf
  -- Where nothing is changed only the live session is left to look at.
  have still (none : edits = []) (live : ∀ s, step.after.live.get? id = some s → saved.stateVersion ≤ s.stateVersion ∧
      (s.stateVersion = saved.stateVersion → s.engine.stores = saved.engine.stores)) : Stands id step.after saved := by
    subst none
    exact ⟨shelf ▸ stands.bears,live⟩
  generalize held : step.before.live.get? id = before at change
  generalize next : step.after.live.get? id = after at change
  cases change with
  | idle apart creates _ _ _ destroys =>
    refine .inr ⟨still ?_ fun s live => ahead s (held.trans (next.symm.trans live)),creates,destroys⟩
    exact List.eq_nil_iff_forall_not_mem.mpr fun edit present => apart edit present (own edit present)
  | handled asked live _ processed =>
    have name := named id _ live
    subst name
    obtain ⟨bears,forward⟩ := processed.spares quiet stands.bears (standing.sound _ live) (storable _ next) (ahead _ live)
    refine .inr ⟨⟨shelf ▸ bears,fun s live => ?_⟩,by simp [Step.creates,asked],by simp [Step.destroys,asked]⟩
    cases next.symm.trans live
    exact forward
  | lost asked =>
    refine .inr ⟨still rfl fun s live => ?_,by simp [Step.creates,asked],by simp [Step.destroys,asked]⟩
    cases next.symm.trans live
  | destroyed asked count all =>
    cases discards_header count with
    | inr gone => exact .inl (shelf ▸ gone)
    | inl none =>
      refine .inr ⟨still none fun s live => ?_,by simp [Step.creates,asked],?_⟩
      · cases next.symm.trans live
      · refine Bool.eq_false_iff.mpr fun destroys => ?_
        rw [all destroys,List.take_length] at none
        cases none
  | created asked creates prepared =>
    cases prepared.spares quiet with
    | inr gone => exact .inl (shelf ▸ gone)
    | inl refused =>
      obtain ⟨rfl,rfl⟩ := refused
      refine .inr ⟨still rfl fun s live => ?_,creates,by simp [Step.destroys,asked]⟩
      cases next.symm.trans live
  | restored asked _ stored =>
    obtain ⟨stores,version⟩ := stands.bears.recovered stored
    refine .inr ⟨still rfl fun s live => ?_,?_,?_⟩
    · cases next.symm.trans live
      exact ⟨version.ge,fun _ => stores⟩
    · cases asked with
      | inl asked => simp [Step.creates,asked]
      | inr asked => simp [Step.creates,asked]
    · cases asked with
      | inl asked => simp [Step.destroys,asked]
      | inr asked => simp [Step.destroys,asked]

end Step

section Run
variable {id : SessionId} {store : σ}

def Step.saves (id : SessionId) (step : Step (Logged σ)) : Bool :=
  step.before.store.puts.count ⟨id,.header⟩ < step.after.store.puts.count ⟨id,.header⟩

theorem Touches.saves_eq {step : Step (Logged σ)} {edits : List Edit} (touches : Touches id step edits) :
    step.saves id = edits.any (Edit.heads id) := by
  have count : step.after.store.puts.count ⟨id,.header⟩ =
      step.before.store.puts.count ⟨id,.header⟩ + edits.countP (Edit.heads id) := by
    refine (touches.past (fun puts : List Key => puts.count ⟨id,.header⟩) fun key past apart => ?_).trans (count_edits _ _)
    refine List.count_cons_of_ne fun same => apart ?_
    rw [same]
  rw [Step.saves,count,Bool.eq_iff_iff,decide_eq_true_iff,List.any_eq_true]
  rw [Nat.lt_add_right_iff_pos,List.countP_pos_iff]

-- Since the header was put last no step has created or destroyed the session,
-- and what is stored is the session of that moment.
theorem run_stands {history : List (Step (Logged σ))} {r : Registry (Logged σ)}
    (run : Run (Registry.new ⟨store,[]⟩) history r) (empty : ∀ tag, shelf store id tag = none)
    (storable : ∀ step ∈ history, step.Storable id) : shelf r.store id .header = none ∨
      ∃ later save earlier saved, history = later ++ save :: earlier ∧ save.saves id = true ∧
        (∀ step ∈ later, step.saves id = false ∧ step.creates id = false ∧ step.destroys id = false) ∧
        save.after.live.get? id = some saved ∧ Stands id r saved := by
  induction run with
  | start => exact .inl (empty .header)
  | @next history r run operation ih =>
    have before : ∀ step ∈ history, step.Storable id := fun step present => storable step (List.mem_cons_of_mem _ present)
    have last := storable _ List.mem_cons_self
    have named := run_named run
    have standing := run_standing run empty fun step present => (before step present).bounded
    obtain ⟨edits,touches,_⟩ := step_touches ⟨r,operation⟩ named id
    cases loud : edits.any (Edit.heads id) with
    | true =>
      obtain ⟨saved,live,stands⟩ := touches.saves loud named standing last
      exact .inr ⟨[],⟨r,operation⟩,history,saved,rfl,touches.saves_eq.trans loud,by simp,live,stands⟩
    | false =>
      cases ih before with
      | inl absent => exact .inl (touches.header_absent loud absent)
      | inr held =>
        obtain ⟨later,save,earlier,saved,split,saves,since,live,stands⟩ := held
        cases touches.spares loud named standing last stands with
        | inl absent => exact .inl absent
        | inr kept =>
          refine .inr ⟨⟨r,operation⟩ :: later,save,earlier,saved,by rw [split,List.cons_append],saves,?_,live,kept.1⟩
          intro step present
          cases List.mem_cons.mp present with
          | inl same => exact same ▸ ⟨touches.saves_eq.trans loud,kept.2⟩
          | inr earlier => exact since step earlier

-- Whatever fails and whatever was begun again, a recovery that succeeds on what
-- is stored gives the stores and the version of the session for which its
-- header was last put, in the life the session is in.
theorem recovered_saved {history : List (Step (Logged σ))} {r : Registry (Logged σ)}
    (run : Run (Registry.new ⟨store,[]⟩) history r) (empty : ∀ key, (Faithful.view store).contents key = none)
    (storable : ∀ step ∈ history, step.Storable id) {τ : Type} [Store τ] [Faithful τ] {reader : τ}
    (same : (Faithful.view reader).contents = (Faithful.view r.store).contents) {program : Program}
    {persistence : Persistence} {found : Recovery.Recovered}
    (recovered : (Recovery.recover id program persistence reader).1 = .ok found) :
    ∃ later save earlier saved, history = later ++ save :: earlier ∧
      save.saves id = true ∧ save.after.live.get? id = some saved ∧
      (∀ step ∈ later, step.saves id = false ∧ step.creates id = false ∧ step.destroys id = false) ∧
      found.engine.stores = saved.engine.stores ∧ found.header.stateVersion = saved.stateVersion := by
  have stored : Recovery.stored (shelf r.store id) id program persistence = .ok found := by
    have lying : shelf reader id = shelf r.store id := congrArg (fun contents tag => contents ⟨id,tag⟩) same
    rw [← lying]
    cases (Recovery.answers_recover program persistence reader).read with
    | inl read => exact read.symm.trans recovered
    | inr failed =>
      obtain ⟨_,failed⟩ := failed
      cases failed.symm.trans recovered
  cases run_stands run (fun tag => empty ⟨id,tag⟩) storable with
  | inl absent =>
    obtain ⟨_,_,_,pieces,_⟩ := Recovery.stored_ok.mp stored
    obtain ⟨bytes,lying,_⟩ := pieces.isHeader
    cases absent.symm.trans lying
  | inr held =>
    obtain ⟨later,save,earlier,saved,split,saves,since,live,stands⟩ := held
    exact ⟨later,save,earlier,saved,split,saves,live,since,stands.bears.recovered stored⟩

end Run

def refusing : Watched Memory := { Watched.unlimited Memory.empty with refuses := fun number => number == 11 }

-- It is the first put of a second safepoint, so the first safepoint counts.
def refused : List (Step (Logged (Watched Memory))) × Registry (Logged (Watched Memory)) :=
  play (Registry.new ⟨refusing,[]⟩) [
    .checkpoint .zero,.insert .zero parcel,.checkpoint .zero,.insert .zero parcel,.create .zero noting ⟨.storesOnly,.explicit⟩]

theorem refused_saved : ∃ found,
    (Recovery.recover .zero noting .storesOnly refused.2.store.store.store).1 = .ok found ∧
    ∃ later save earlier saved, refused.1 = later ++ save :: earlier ∧
      save.saves .zero = true ∧ save.after.live.get? .zero = some saved ∧
      (∀ step ∈ later, step.saves .zero = false ∧ step.creates .zero = false ∧ step.destroys .zero = false) ∧
      found.engine.stores = saved.engine.stores ∧ found.header.stateVersion = saved.stateVersion := by
  have run : Run (Registry.new ⟨refusing,[]⟩) refused.1 refused.2 := play_run _ _
  have storable : ∀ step ∈ refused.1, step.Storable .zero := by decide +kernel
  have same (l : Logged (Watched Memory)) : (Faithful.view l.store.store).contents = (Faithful.view l).contents := rfl
  have complete : Complete (shelf refused.2.store.store.store .zero) .zero ((Engine.new noting).insert parcel).2
      ⟨.storesOnly,.explicit⟩ 1 := by decide +kernel
  have online : refused.2.store.store.store.available = true := by decide +kernel
  have coherent := (Engine.new_coherent noting).insert parcel
  obtain ⟨next,stored,_⟩ := complete.recovers (by decide) coherent ((Engine.new_tidy noting).insert parcel)
  have recovered := ((Recovery.answers_recover noting .storesOnly refused.2.store.store.store).readable
    (Memory.steady online).readable).1.trans stored
  exact ⟨_,recovered,recovered_saved run (fun _ => rfl) storable (same refused.2.store) recovered⟩

end DurableRules
