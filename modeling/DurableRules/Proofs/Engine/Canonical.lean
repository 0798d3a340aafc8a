import DurableRules.Proofs.Engine.Replay

namespace DurableRules

def Stores.Stray (stores : Stores) : Prop :=
  ∃ handle stored, stores.facts.get? handle = some stored ∧ (handle = 0 ∨ stores.nextHandle ≤ handle)

-- What there is to fire by the stores alone: a rule fits a tuple of the facts
-- and has not fired with it. A rule without patterns fits nothing.
def Stores.Due (program : Program) (stores : Stores) (a : Activation) : Prop :=
  ∃ rule ∈ program.rules, rule.patterns ≠ [] ∧ ∃ row : Row, (∀ entry ∈ row, entry ∈ stores.facts.rows) ∧
    rule.fits row = true ∧ a = ⟨rule.name,identitiesOf row⟩ ∧ stores.fired.contains a = false

namespace Engine
variable {e : Engine} {program : Program} {stores : Stores}

section Sequences

-- Sequence numbers were handed out without a gap, and none of them is gone.
def Sequenced (e : Engine) : Prop := e.network.agenda.keys = List.range e.network.nextSequence

theorem Sequenced.enqueue (sequenced : Sequenced e) (a : Activation) : Sequenced (e.enqueue a) := by
  have above : ∀ row ∈ e.network.agenda.rows, compare row.1 e.network.nextSequence = .lt := fun row present => by
    have listed : row.1 ∈ e.network.agenda.keys := List.mem_map_of_mem present
    rw [sequenced,List.mem_range] at listed
    exact Nat.compare_eq_lt.mpr listed
  change (e.network.agenda.put e.network.nextSequence a).keys = List.range (e.network.nextSequence + 1)
  rw [Map.keys_put_last above,sequenced,List.range_succ]

theorem Sequenced.schedule (sequenced : Sequenced e) (a : Activation) : Sequenced (e.schedule a) := by
  unfold Engine.schedule
  split
  · exact sequenced
  · exact sequenced.enqueue a

theorem Sequenced.replay (sequenced : Sequenced e) (row : Handle × StoredFact) : Sequenced (e.replay row) := by
  have attached : Sequenced (e.attach row.1 row.2.fact) := sequenced
  unfold Engine.replay propagate
  split
  · exact attached
  · rw [foldl_consider]
    exact List.foldlRecOn _ _ attached fun e held a _ => held.schedule a

theorem rebuild_sequenced (rebuilt : rebuild program stores = .ok e) : Sequenced e := by
  obtain ⟨roster,restored⟩ := rebuild_roster rebuilt
  unfold rebuild at rebuilt
  rw [restored] at rebuilt
  cases rebuilt
  exact List.foldlRecOn _ _ rfl fun e held row _ => held.replay row

theorem Sequenced.length (sequenced : Sequenced e) : e.pending.length = e.network.nextSequence := by
  have keys : e.network.agenda.keys.length = e.network.nextSequence := by rw [sequenced,List.length_range]
  rw [← keys,pending,Map.values,Map.keys,List.length_map,List.length_map]

end Sequences

theorem mem_versions {handle : Handle} :
    handle ∈ stores.versions.keys ↔ ∃ stored, stores.facts.get? handle = some stored := by
  rw [Map.mem_keys,Map.contains_eq,versions_get?,Option.isSome_map,Option.isSome_iff_exists]

theorem rebuild_cases (program : Program) (stores : Stores) :
    (stores.Stray ∧ ∃ handle, rebuild program stores = .error (.unallocated ⟨handle,stores.nextHandle⟩)) ∨
      (¬ stores.Stray ∧ ∃ e, rebuild program stores = .ok e) := by
  unfold rebuild Stores.roster Roster.restore
  cases found : stores.versions.keys.find? fun handle => !Roster.allocated stores.nextHandle handle with
  | some handle =>
    obtain ⟨stored,held⟩ := mem_versions.mp (List.mem_of_find?_eq_some found)
    have outside : ¬ (0 < handle ∧ handle < stores.nextHandle) := by
      simpa [← Roster.allocated_iff] using List.find?_some found
    have stray : handle = 0 ∨ stores.nextHandle ≤ handle := (Nat.eq_zero_or_pos handle).imp_right fun positive =>
      Nat.not_lt.mp fun below => outside ⟨positive,below⟩
    exact .inl ⟨⟨handle,stored,held,stray⟩,handle,rfl⟩
  | none =>
    refine .inr ⟨?_,_,rfl⟩
    rintro ⟨handle,stored,held,outside⟩
    have inside := List.find?_eq_none.mp found handle (mem_versions.mpr ⟨stored,held⟩)
    obtain ⟨positive,below⟩ := Roster.allocated_iff.mp (by simpa using inside)
    rcases outside with zero | above
    · exact Nat.ne_of_gt positive zero
    · exact Nat.not_lt.mpr above below

theorem rebuild_due (rebuilt : rebuild program stores = .ok e) (a : Activation) : a ∈ e.pending ↔ stores.Due program a := by
  obtain ⟨holds,coherent,exact,rfl⟩ := rebuild_ok rebuilt
  have fired : e.roster.hasFired a = stores.fired.contains a := by rw [Roster.hasFired,holds.roster]
  rw [exact a,fired]
  constructor
  · rintro ⟨⟨rule,known,named,found,fits⟩,unfired⟩
    obtain ⟨row,listed,fitting,tuple⟩ := (coherent.fits_row fits.patterned).mp ⟨found,fits⟩
    rw [holds.stores_eq] at listed
    exact ⟨rule,known,fits.patterned,row,listed,fitting,by rw [named,← tuple],unfired⟩
  · rintro ⟨rule,known,patterned,row,listed,fitting,rfl,unfired⟩
    rw [← holds.stores_eq] at listed
    exact ⟨⟨rule,known,rfl,(coherent.fits_row patterned).mpr ⟨row,listed,fitting,rfl⟩⟩,unfired⟩

-- The one engine that is made of these stores. What is pending is due and in
-- strict order, so there is no other such list.
structure Canonical (program : Program) (stores : Stores) (e : Engine) : Prop where
  holds : e.stores = stores
  numbered : e.network.agenda.keys = List.range e.pending.length
  next : e.network.nextSequence = e.pending.length
  due : ∀ a, a ∈ e.pending ↔ stores.Due program a
  once : e.pending.Nodup
  sorted : e.pending.Pairwise fun one two => one.moment program.names < two.moment program.names
  again : rebuild program e.stores = .ok e

theorem Canonical.of_rebuild (rebuilt : rebuild program stores = .ok e) : Canonical program stores e := by
  have sequenced := rebuild_sequenced rebuilt
  obtain ⟨holds,coherent,_,same⟩ := rebuild_ok rebuilt
  refine ⟨holds.stores_eq,sequenced.length ▸ sequenced,sequenced.length.symm,rebuild_due rebuilt,coherent.orderly.once,?_,?_⟩
  · rw [← same]
    exact rebuild_timely rebuilt
  · rw [holds.stores_eq]
    exact rebuilt

end Engine
end DurableRules
