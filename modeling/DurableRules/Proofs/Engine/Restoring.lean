import DurableRules.Proofs.Engine.Preservation

namespace DurableRules

theorem Members.ext_mem {α : Type u} [Ord α] [Std.TransOrd α] [Std.LawfulEqOrd α] {one two : Members α}
    (same : ∀ item, item ∈ one.toList ↔ item ∈ two.toList) : one = two := by
  refine Map.ext_get? fun item => ?_
  have members : (Map.get? one item).isSome = (Map.get? two item).isSome := by
    rw [← Map.contains_eq,← Map.contains_eq,Bool.eq_iff_iff,contains_iff_mem,contains_iff_mem]
    exact same item
  cases first : Map.get? one item <;> cases second : Map.get? two item <;> simp_all

structure Roster.Numbered (r : Roster) : Prop where
  next : 0 < r.nextHandle
  positive : ∀ handle, r.isLive handle = true → 0 < handle

theorem Roster.allocated_iff {next handle : Handle} : Roster.allocated next handle = true ↔ 0 < handle ∧ handle < next := by
  simp [Roster.allocated,Nat.pos_iff_ne_zero]

namespace Roster.Numbered
variable {r : Roster}

theorem allocate (numbered : r.Numbered) : r.allocate.2.Numbered := by
  refine ⟨Nat.succ_pos _,fun other live => ?_⟩
  rw [isLive_allocate] at live
  split at live
  · next equal => exact equal ▸ numbered.next
  · exact numbered.positive other live

theorem bump (numbered : r.Numbered) (handle : Handle) : (r.bump handle).2.Numbered := by
  refine ⟨(bump_other r handle).2.1 ▸ numbered.next,fun other live => ?_⟩
  rw [isLive_bump] at live
  exact numbered.positive other live

theorem retire (numbered : r.Numbered) (handle : Handle) : (r.retire handle).2.Numbered := by
  refine ⟨numbered.next,fun other live => ?_⟩
  rw [isLive_retire] at live
  split at live
  · cases live
  · exact numbered.positive other live

end Roster.Numbered

namespace Engine
variable {e next : Engine} {program : Program} {stores : Stores} {network : Network}

structure Holds (e : Engine) (stores : Stores) : Prop where
  facts : e.facts = stores.facts.mapValues fun _ stored => stored.fact
  roster : e.roster = ⟨stores.nextHandle,stores.versions,stores.fired⟩
  globals : e.globals = stores.globals

@[simp] theorem versions_get? (stores : Stores) (handle : Handle) :
    stores.versions.get? handle = (stores.facts.get? handle).map StoredFact.version :=
  Map.get?_mapValues _ _ _

theorem Holds.stores_eq (holds : Holds e stores) : e.stores = stores := by
  have facts : e.stores.facts = stores.facts := by
    refine Map.ext_get? fun handle => ?_
    refine (Map.get?_filterMapValues _ _ handle).trans ?_
    rw [holds.facts,holds.roster,Map.get?_mapValues]
    simp only [Roster.identity,versions_get?]
    cases stores.facts.get? handle <;> rfl
  calc e.stores = ⟨e.stores.nextHandle,e.stores.facts,e.stores.fired,e.stores.globals⟩ := rfl
    _ = stores := by
      rw [facts]
      simp only [Engine.stores,holds.roster,holds.globals]

theorem stores_get? (e : Engine) (handle : Handle) : e.stores.facts.get? handle =
    (e.facts.get? handle).bind fun fact => (e.roster.versions.get? handle).map fun version => ⟨version,fact⟩ := by
  refine (Map.get?_filterMapValues _ _ handle).trans ?_
  simp only [Roster.identity,Option.map_map]
  rfl

-- The facts are the live handles, so the stores lose nothing.
theorem Founded.holds (founded : Founded e) : Holds e e.stores := by
  have together (handle : Handle) : (e.facts.get? handle).isSome = (e.roster.versions.get? handle).isSome :=
    (founded.handles handle).trans (Roster.isLive_eq _ _)
  refine ⟨Map.ext_get? fun handle => ?_,?_,rfl⟩
  · rw [Map.get?_mapValues,stores_get?]
    have same := together handle
    cases fact : e.facts.get? handle <;> cases version : e.roster.versions.get? handle <;> simp_all
  · have versions : e.stores.versions = e.roster.versions := by
      refine Map.ext_get? fun handle => ?_
      rw [versions_get?,stores_get?]
      have same := together handle
      cases fact : e.facts.get? handle <;> cases version : e.roster.versions.get? handle <;> simp_all
    rw [versions]
    rfl

theorem Coherent.holds (coherent : Coherent e) : Holds e e.stores := coherent.founded.holds

theorem Holds.handles (holds : Holds e stores) (handle : Handle) :
    (e.facts.get? handle).isSome = e.roster.isLive handle := by
  simp [Roster.isLive_eq,holds.facts,holds.roster]

theorem roster_ok {roster : Roster} (restored : stores.roster = .ok roster) :
    roster = ⟨stores.nextHandle,stores.versions,stores.fired⟩ ∧
      ∀ handle, roster.isLive handle = true → 0 < handle ∧ handle < stores.nextHandle := by
  unfold Stores.roster Roster.restore at restored
  split at restored
  · next kept found =>
    cases restored
    split at found
    · cases found
    · next none =>
      cases found
      refine ⟨rfl,fun handle live => ?_⟩
      have inRange := List.find?_eq_none.mp none handle (Map.mem_keys.mpr live)
      exact Roster.allocated_iff.mp (by simpa using inRange)
  · cases restored

theorem Founded.roster_ok (founded : Founded e) (positive : ∀ handle, e.roster.isLive handle = true → 0 < handle) :
    e.stores.roster = .ok e.roster := by
  have none : e.stores.versions.keys.find? (fun handle => !Roster.allocated e.stores.nextHandle handle) = none := by
    rw [List.find?_eq_none]
    intro handle present
    have live : e.roster.isLive handle = true := by
      have held := Map.mem_keys.mp present
      rwa [founded.holds.roster]
    have inRange : Roster.allocated e.stores.nextHandle handle = true :=
      Roster.allocated_iff.mpr ⟨positive handle live,founded.below handle live⟩
    simp [inRange]
  unfold Stores.roster Roster.restore
  rw [none]
  exact congrArg _ founded.holds.roster.symm

theorem replay_facts (aligned : Aligned e) {row : Handle × StoredFact} (out : e.facts.get? row.1 = none) :
    (e.replay row).facts = e.facts.put row.1 row.2.fact ∧ (e.replay row).roster = e.roster ∧
      (e.replay row).globals = e.globals ∧ (e.replay row).program = e.program := by
  obtain ⟨same,_,_⟩ := enter_spec aligned out row.2.fact
  exact ⟨same.facts,same.roster,same.globals,same.program⟩

theorem foldl_replay {rows : List (Handle × StoredFact)} (aligned : Aligned e) (exact : Exact e)
    (order : Ascending rows) (out : ∀ row ∈ rows, e.facts.get? row.1 = none) :
    Aligned (rows.foldl replay e) ∧ Exact (rows.foldl replay e) ∧
      (rows.foldl replay e).facts = rows.foldl (fun facts row => facts.put row.1 row.2.fact) e.facts ∧
      (rows.foldl replay e).roster = e.roster ∧ (rows.foldl replay e).globals = e.globals ∧
      (rows.foldl replay e).program = e.program := by
  induction rows generalizing e with
  | nil => exact ⟨aligned,exact,rfl,rfl,rfl,rfl⟩
  | cons row rest ih =>
    obtain ⟨above,later⟩ := List.pairwise_cons.mp order
    have first := out row List.mem_cons_self
    obtain ⟨facts,roster,globals,program⟩ := replay_facts aligned first
    have apart := ascending_irreflexive above
    have still : ∀ other ∈ rest, (e.replay row).facts.get? other.1 = none := by
      intro other present
      rw [facts,Map.get?_put_other _ _ (apart other present)]
      exact out other (List.mem_cons_of_mem _ present)
    have aligned' : Aligned (e.replay row) := aligned.enter first
    have exact' : Exact (e.replay row) := exact.enter aligned first
    obtain ⟨one,two,three,four,five,six⟩ := ih aligned' exact' later still
    refine ⟨one,two,?_,four.trans roster,five.trans globals,six.trans program⟩
    rw [List.foldl_cons,three,facts,List.foldl_cons]

theorem rebuild_ok (rebuilt : rebuild program stores = .ok e) :
    Holds e stores ∧ Coherent e ∧ Exact e ∧ e.program = program := by
  unfold rebuild at rebuilt
  split at rebuilt
  · cases rebuilt
  · next roster restored =>
    cases rebuilt
    obtain ⟨same,range⟩ := roster_ok restored
    obtain ⟨aligned,exact,facts,rosterAt,globals,programAt⟩ := foldl_replay
      (@bare_aligned program roster stores.globals) bare_exact
      stores.facts.ascending fun _ _ => rfl
    have all : stores.facts.rows.foldl (fun facts row => facts.put row.1 row.2.fact) Map.empty =
        stores.facts.mapValues fun _ stored => stored.fact := by
      rw [← Map.ofList_rows (stores.facts.mapValues fun _ stored => stored.fact),Map.ofList]
      change _ = (stores.facts.rows.map fun row => (row.1,row.2.fact)).foldl _ _
      rw [List.foldl_map]
    have holds : Holds (stores.facts.rows.foldl replay (bare program roster stores.globals)) stores :=
      ⟨facts.trans all,rosterAt.trans same,globals⟩
    refine ⟨holds,⟨aligned,holds.handles,fun handle live => ?_⟩,exact,programAt⟩
    change handle < (stores.facts.rows.foldl replay (bare program roster stores.globals)).roster.nextHandle
    have known : roster.isLive handle = true := (congrArg (Roster.isLive · handle) rosterAt).symm.trans live
    rw [holds.roster]
    exact (range handle known).2

theorem Founded.rebuild (founded : Founded e) (positive : ∀ handle, e.roster.isLive handle = true → 0 < handle)
    (program : Program) : ∃ next, rebuild program e.stores = .ok next := by
  unfold Engine.rebuild
  rw [founded.roster_ok positive]
  exact ⟨_,rfl⟩

theorem Coherent.rebuild (coherent : Coherent e) (numbered : e.roster.Numbered) (program : Program) :
    ∃ next, rebuild program e.stores = .ok next := coherent.founded.rebuild numbered.positive program

theorem alphaFault_none {facts : Map Handle Fact} {alpha : Map String (Members Handle)} :
    alphaFault facts alpha = none ↔
      ∀ kind handle, handle ∈ memory alpha kind → ∃ fact, facts.get? handle = some fact ∧ fact.kind = kind := by
  unfold alphaFault
  rw [List.findSome?_eq_none_iff]
  constructor
  · intro clean kind handle present
    obtain ⟨handles,found,member⟩ := mem_memory.mp present
    have row := clean (kind,handles) (Map.get?_eq_some_iff.mp found)
    have free := List.findSome?_eq_none_iff.mp row handle member
    cases known : facts.get? handle with
    | none => simp [known] at free
    | some fact => exact ⟨fact,rfl,by simpa [known] using free⟩
  · intro own entry row
    obtain ⟨kind,handles⟩ := entry
    refine List.findSome?_eq_none_iff.mpr fun handle member => ?_
    obtain ⟨fact,known,same⟩ := own kind handle (mem_memory.mpr ⟨handles,Map.get?_eq_some_iff.mpr row,member⟩)
    simp [known,same]

theorem factFault_none {facts : Map Handle Fact} {alpha : Map String (Members Handle)} :
    factFault facts alpha = none ↔
      ∀ handle fact, facts.get? handle = some fact → handle ∈ memory alpha fact.kind := by
  unfold factFault
  rw [List.findSome?_eq_none_iff]
  constructor
  · intro clean handle fact known
    have row := clean (handle,fact) (Map.get?_eq_some_iff.mp known)
    simpa using row
  · intro listed entry row
    obtain ⟨handle,fact⟩ := entry
    simpa using listed handle fact (Map.get?_eq_some_iff.mpr row)

theorem agendaFault_none {roster : Roster} : agendaFault program roster network = none ↔
    ∀ sequence a, network.agenda.get? sequence = some a → sequence < network.nextSequence ∧
      (program.rule? a.rule).isSome = true ∧ roster.isCurrent a = true ∧ roster.hasFired a = false := by
  unfold agendaFault
  rw [List.findSome?_eq_none_iff]
  have fits (sequence : Sequence) (a : Activation) :
      (if network.nextSequence ≤ sequence then some (Inconsistency.lateSequence sequence network.nextSequence)
        else if (program.rule? a.rule).isNone then some (.unknownRule a)
        else if !roster.isCurrent a then some (.stale a)
        else if roster.hasFired a then some (.alreadyFired a) else none) = none ↔
      sequence < network.nextSequence ∧ (program.rule? a.rule).isSome = true ∧ roster.isCurrent a = true ∧
        roster.hasFired a = false := by
    by_cases late : network.nextSequence ≤ sequence
    · simp [late,Nat.not_lt.mpr late]
    · cases known : program.rule? a.rule <;> cases roster.isCurrent a <;> cases roster.hasFired a <;>
        simp [late,Nat.lt_of_not_le late]
  constructor
  · intro clean sequence a found
    exact (fits sequence a).mp (clean (sequence,a) (Map.get?_eq_some_iff.mp found))
  · intro good entry row
    obtain ⟨sequence,a⟩ := entry
    exact (fits sequence a).mpr (good sequence a (Map.get?_eq_some_iff.mpr row))

theorem isCurrent_iff {roster : Roster} {a : Activation} :
    roster.isCurrent a = true ↔ ∀ i ∈ a.tuple, roster.versions.get? i.handle = some i.version := by
  simp [Roster.isCurrent]

structure Checked (e : Engine) : Prop where
  indexed : Indexed e
  agenda : ∀ sequence a, e.network.agenda.get? sequence = some a → sequence < e.network.nextSequence ∧
    (e.program.rule? a.rule).isSome = true ∧ e.roster.isCurrent a = true ∧ e.roster.hasFired a = false

theorem adopt_ok (adopted : adopt program stores network = .ok e) :
    Holds e stores ∧ e.program = program ∧ e.network = network ∧ Checked e ∧
      e.queued = Members.ofList network.agenda.values ∧
      ∀ handle, e.roster.isLive handle = true → 0 < handle ∧ handle < stores.nextHandle := by
  unfold adopt at adopted
  split at adopted
  · cases adopted
  · next roster restored =>
    obtain ⟨same,range⟩ := roster_ok restored
    dsimp only at adopted
    split at adopted
    · cases adopted
    · next clean =>
      cases adopted
      simp only [Option.orElse_eq_orElse,Option.orElse_eq_or,Option.or_eq_none_iff] at clean
      obtain ⟨own,listed,good⟩ := clean
      refine ⟨⟨rfl,same,rfl⟩,rfl,rfl,⟨fun kind handle => ⟨?_,?_⟩,agendaFault_none.mp good⟩,rfl,range⟩
      · exact alphaFault_none.mp own kind handle
      · intro held
        obtain ⟨fact,known,rfl⟩ := held
        exact factFault_none.mp listed handle fact known

theorem adopt_coherent (adopted : adopt program stores network = .ok e) (inhabited : Inhabited network.alpha)
    (once : network.agenda.values.Nodup) : Coherent e := by
  obtain ⟨holds,_,rfl,checked,queued,range⟩ := adopt_ok adopted
  refine ⟨⟨checked.indexed,inhabited,⟨fun a => ?_,once,fun sequence a found => (checked.agenda sequence a found).1⟩,
    fun a present => ?_⟩,holds.handles,fun handle live => ?_⟩
  · rw [queued,Members.contains_iff_mem,Members.mem_ofList]
    rfl
  · obtain ⟨sequence,found⟩ := Map.mem_values.mp present
    obtain ⟨_,known,current,unfired⟩ := checked.agenda sequence a found
    have versions := isCurrent_iff.mp current
    refine ⟨known,versions,fun i member => ?_,unfired⟩
    rw [holds.handles,Roster.isLive_eq,versions i member]
    rfl
  · rw [holds.roster]
    exact (range handle live).2

theorem Founded.adopt (founded : Founded e) (checked : Checked e)
    (positive : ∀ handle, e.roster.isLive handle = true → 0 < handle) :
    Engine.adopt e.program e.stores e.network = .ok { e with queued := Members.ofList e.network.agenda.values } := by
  have facts : e.stores.facts.mapValues (fun _ stored => stored.fact) = e.facts := founded.holds.facts.symm
  have own : alphaFault e.facts e.network.alpha = none :=
    alphaFault_none.mpr fun kind handle => (founded.indexed kind handle).mp
  have listed : factFault e.facts e.network.alpha = none :=
    factFault_none.mpr fun handle fact known => (founded.indexed _ _).mpr ⟨fact,known,rfl⟩
  have good : agendaFault e.program e.roster e.network = none := agendaFault_none.mpr checked.agenda
  unfold Engine.adopt
  rw [founded.roster_ok positive]
  simp only [facts,own,listed,good]
  rfl

theorem Coherent.checked (coherent : Coherent e) : Checked e := by
  refine ⟨coherent.indexed,fun sequence a found => ?_⟩
  have genuine := coherent.genuine a (Map.mem_values.mpr ⟨sequence,found⟩)
  exact ⟨coherent.orderly.early sequence a found,genuine.known,isCurrent_iff.mpr genuine.current,genuine.unfired⟩

theorem Coherent.requeued (coherent : Coherent e) : { e with queued := Members.ofList e.network.agenda.values } = e := by
  have queued : Members.ofList e.network.agenda.values = e.queued := by
    refine Members.ext_mem fun a => ?_
    rw [Members.mem_ofList,← Members.contains_iff_mem,coherent.orderly.queued]
    rfl
  rw [queued]

-- An engine that is coherent passes every check, and taking up its network gives it back.
theorem Coherent.adopt (coherent : Coherent e) (numbered : e.roster.Numbered) :
    Engine.adopt e.program e.stores e.network = .ok e := by
  rw [coherent.founded.adopt coherent.checked numbered.positive,coherent.requeued]

theorem adopt_self (coherent : Coherent e) (adopted : Engine.adopt e.program e.stores e.network = .ok next) :
    next = e := by
  obtain ⟨holds,program,network,_,queued,_⟩ := adopt_ok adopted
  have same : next.queued = e.queued := by
    refine Members.ext_mem fun a => ?_
    rw [queued,Members.mem_ofList,← Members.contains_iff_mem,coherent.orderly.queued]
    rfl
  calc next = ⟨next.program,next.facts,next.roster,next.network,next.queued,next.globals⟩ := rfl
    _ = e := by rw [program,holds.facts,← coherent.holds.facts,holds.roster,← coherent.holds.roster,network,same,
      holds.globals,← coherent.holds.globals]

end Engine
end DurableRules
