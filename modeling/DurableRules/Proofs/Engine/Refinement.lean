import DurableRules.Proofs.Engine.Naive
import DurableRules.Proofs.Engine.Reachable

namespace DurableRules.Engine
variable {e next one two : Engine} {program : Program} {handle : Handle} {fact : Fact} {a : Activation}

def naive (e : Engine) : Naive := ⟨e.program,e.stores,e.pending⟩

section Matched
variable {rule : Rule} {tuple : List Identity}

theorem Coherent.fact_get? (coherent : Coherent e) (handle : Handle) :
    e.facts.get? handle = (e.stores.facts.get? handle).map StoredFact.fact := by
  conv_lhs => rw [coherent.holds.facts]
  exact Map.get?_mapValues _ _ _

theorem Coherent.version_get? (coherent : Coherent e) (handle : Handle) :
    e.roster.versions.get? handle = (e.stores.facts.get? handle).map StoredFact.version := by
  conv_lhs => rw [coherent.holds.roster]
  exact versions_get? _ _

theorem row_of_current {facts : Map Handle StoredFact}
    (current : ∀ i ∈ tuple, (facts.get? i.handle).map StoredFact.version = some i.version) :
    ∃ row : Row, (∀ entry ∈ row, entry ∈ facts.rows) ∧ identitiesOf row = tuple := by
  induction tuple with
  | nil => exact ⟨[],by simp,rfl⟩
  | cons i rest ih =>
    obtain ⟨stored,held,version⟩ := Option.map_eq_some_iff.mp (current i List.mem_cons_self)
    obtain ⟨row,listed,rfl⟩ := ih fun j member => current j (List.mem_cons_of_mem _ member)
    refine ⟨(i.handle,stored) :: row,List.forall_mem_cons.mpr ⟨Map.get?_eq_some_iff.mp held,listed⟩,?_⟩
    simp [identitiesOf,version]

theorem Coherent.row_facts (coherent : Coherent e) {row : Row} (listed : ∀ entry ∈ row, entry ∈ e.stores.facts.rows) :
    ∀ entry ∈ matchOf row, e.facts.get? entry.1 = some entry.2 := by
  intro entry present
  obtain ⟨source,member,rfl⟩ := List.mem_map.mp present
  rw [coherent.fact_get?,Map.get?_eq_some_iff.mpr (listed source member)]
  rfl

theorem Coherent.fits_row (coherent : Coherent e) (some : rule.patterns ≠ []) : (∃ found, e.Fits rule tuple found) ↔
    ∃ row : Row, (∀ entry ∈ row, entry ∈ e.stores.facts.rows) ∧ rule.fits row = true ∧ tuple = identitiesOf row := by
  constructor
  · rintro ⟨found,fits⟩
    obtain ⟨row,listed,rfl⟩ := row_of_current fun i member =>
      (coherent.version_get? i.handle).symm.trans (fits.current i member)
    have handles : found.map Prod.fst = (matchOf row).map Prod.fst := by
      rw [fits.handles,handles_identitiesOf,handles_matchOf]
    have same : found = matchOf row := by
      rw [← matched_eq fits.facts,handles,matched_eq (coherent.row_facts listed)]
    subst same
    refine ⟨row,listed,fits_iff.mpr ⟨?_,?_,fits.condition⟩,rfl⟩
    · rw [← kinds_matchOf]
      exact fits.kinds
    · rw [← handles_identitiesOf]
      exact fits.apart
  · rintro ⟨row,listed,fits,rfl⟩
    obtain ⟨kinds,apart,condition⟩ := fits_iff.mp fits
    refine ⟨matchOf row,some,?_,?_,coherent.row_facts listed,?_,?_,condition⟩
    · intro i member
      obtain ⟨entry,source,rfl⟩ := List.mem_map.mp member
      rw [coherent.version_get?,Map.get?_eq_some_iff.mpr (listed entry source)]
      rfl
    · rw [handles_matchOf,handles_identitiesOf]
    · rw [kinds_matchOf,kinds]
    · rwa [handles_identitiesOf]

theorem Coherent.mem_completed (coherent : Coherent e) (known : e.facts.get? handle = some fact) :
    a ∈ Naive.completed e.program.rules e.stores.facts handle fact.kind ↔ e.Satisfied a ∧ a.involves handle = true := by
  obtain ⟨stored,held,same⟩ := Option.map_eq_some_iff.mp ((coherent.fact_get? handle).symm.trans known)
  rw [Naive.mem_completed ⟨stored,held,by rw [same]⟩,involves_iff]
  constructor
  · rintro ⟨rule,inProgram,row,listed,fits,present,rfl⟩
    have some : rule.patterns ≠ [] := by
      rw [← (fits_iff.mp fits).1]
      rintro none
      rw [List.map_eq_nil_iff.mp none] at present
      cases present
    exact ⟨⟨rule,inProgram,rfl,(coherent.fits_row some).mpr ⟨row,listed,fits,rfl⟩⟩,handles_identitiesOf row ▸ present⟩
  · rintro ⟨⟨rule,inProgram,named,found,fits⟩,present⟩
    obtain ⟨row,listed,fitting,tuple⟩ := (coherent.fits_row fits.patterned).mp ⟨found,fits⟩
    refine ⟨rule,inProgram,row,listed,fitting,?_,?_⟩
    · rwa [← handles_identitiesOf,← tuple]
    · rw [named,← tuple]

end Matched

section Stored
variable {roster : Roster}

theorem stores_same (same : SameFacts one two) : one.stores = two.stores := by
  simp only [stores,same.facts,same.roster,same.globals]

theorem attach_stored {version : Version} (known : e.roster.versions.get? handle = some version) (fact : Fact) :
    (e.attach handle fact).stores.facts = e.stores.facts.put handle ⟨version,fact⟩ := by
  refine Map.ext_get? fun other => ?_
  rw [stores_get?,Map.get?_put,stores_get?]
  change ((e.facts.put handle fact).get? other).bind (fun fact => (e.roster.versions.get? other).map _) = _
  rw [Map.get?_put]
  split
  · next same => simp [same,known]
  · rfl

theorem withdraw_stored (e : Engine) (handle : Handle) :
    (e.withdraw handle).stores.facts = e.stores.facts.erase handle := by
  refine Map.ext_get? fun other => ?_
  rw [stores_get?,Map.get?_erase,stores_get?,withdraw_facts,withdraw_roster,Map.get?_erase]
  split <;> rfl

theorem reroster_stored (out : e.facts.get? handle = none)
    (versions : ∀ other, other ≠ handle → roster.versions.get? other = e.roster.versions.get? other) :
    ({ e with roster } : Engine).stores.facts = e.stores.facts := by
  refine Map.ext_get? fun other => ?_
  rw [stores_get?,stores_get?]
  by_cases same : other = handle
  · rw [same,out]
    rfl
  · rw [versions other same]

end Stored

-- The naive engine goes through all tuples and the other one through its
-- memories, and they find the same ones in the same order.
theorem enter_naive (aligned : Aligned e) (out : e.facts.get? handle = none) {version : Version}
    (known : e.roster.versions.get? handle = some version) (coherent : Coherent (e.enter handle fact)) :
    (e.enter handle fact).naive = e.naive.enter handle ⟨version,fact⟩ := by
  have same := enter_same e handle fact
  have facts : (e.enter handle fact).stores.facts = e.stores.facts.put handle ⟨version,fact⟩ := by
    rw [stores_same same,attach_stored known]
  have held : (e.enter handle fact).facts.get? handle = some fact := by
    rw [same.facts]
    exact Map.get?_put_self _ _ _
  have program : (e.enter handle fact).program = e.program := same.program
  have found : (e.attach handle fact).offers handle fact =
      Naive.completed e.program.rules (e.stores.facts.put handle ⟨version,fact⟩) handle fact.kind := by
    refine (offers_sorted (e.attach handle fact) handle fact).eq_of_mem_iff
      (Naive.completed_sorted e.program.distinct) fun a => ?_
    rw [← facts,← program,coherent.mem_completed held]
    exact (mem_offers (attach_indexed aligned.indexed out fact) (Map.get?_put_self _ _ _)).trans
      (and_congr_left' ⟨fun satisfied => satisfied.same same.symm,fun satisfied => satisfied.same same⟩)
  refine Naive.ext program ?_ ?_
  · calc (e.enter handle fact).stores = (e.attach handle fact).stores := stores_same same
      _ = { e.stores with facts := (e.attach handle fact).stores.facts } := rfl
      _ = _ := by rw [attach_stored known]; rfl
  · exact (enter_pending aligned out fact).trans (by rw [found]; rfl)

theorem insert_naive (coherent : Coherent e) (fact : Fact) : Prod.map id naive (e.insert fact) = e.naive.insert fact := by
  have entered := coherent.insert fact
  rw [insert_eq] at entered ⊢
  have inside : ({ e with roster := e.roster.allocate.2 } : Engine).naive =
      { e.naive with stores := { e.stores with nextHandle := e.roster.nextHandle + 1 } } :=
    Naive.ext rfl (congrArg (fun facts => { e.stores with nextHandle := e.roster.nextHandle + 1, facts })
      (reroster_stored coherent.next_out fun _ apart => Map.get?_put_other _ _ apart)) rfl
  refine Prod.ext rfl ((enter_naive (allocated_aligned coherent) coherent.next_out (Map.get?_put_self _ _ _) entered).trans ?_)
  rw [inside]
  rfl

theorem withdraw_naive {roster : Roster} (next : roster.nextHandle = (e.withdraw handle).roster.nextHandle)
    (fired : roster.fired = (e.withdraw handle).roster.fired)
    (versions : ∀ other, other ≠ handle → roster.versions.get? other = (e.withdraw handle).roster.versions.get? other) :
    ({ e.withdraw handle with roster } : Engine).naive = e.naive.drop handle := by
  have facts : ({ e.withdraw handle with roster } : Engine).stores.facts = e.stores.facts.erase handle := by
    rw [← withdraw_stored]
    exact reroster_stored (withdraw_out e handle) versions
  refine Naive.ext (withdraw_program e handle) ?_ (withdraw_pending e handle)
  calc ({ e.withdraw handle with roster } : Engine).stores
      = ⟨roster.nextHandle,({ e.withdraw handle with roster } : Engine).stores.facts,roster.fired,
          (e.withdraw handle).globals⟩ := rfl
    _ = _ := by rw [facts,next,fired,withdraw_globals,withdraw_roster]; rfl

theorem Coherent.live_stored (coherent : Coherent e) (handle : Handle) :
    e.roster.isLive handle = (e.stores.facts.get? handle).isSome := by
  rw [← coherent.handles,coherent.fact_get?,Option.isSome_map]

theorem update_naive (coherent : Coherent e) (handle : Handle) (fact : Fact) :
    (e.update handle fact).map naive = e.naive.update handle fact := by
  have live := coherent.live_stored handle
  cases held : e.stores.facts.get? handle with
  | none =>
    have dead : ¬ e.roster.isLive handle = true := by simp [live,held]
    rw [update,if_neg dead,Naive.update_out held]
    rfl
  | some stored =>
    have alive : e.roster.isLive handle = true := by simp [live,held]
    have done : e.update handle fact =
        .ok (({ e.withdraw handle with roster := ((e.withdraw handle).roster.bump handle).2 }).enter handle fact) :=
      if_pos alive
    have version : e.roster.versions.get? handle = some stored.version := by
      rw [coherent.version_get?,held]
      rfl
    have bumped : ((e.withdraw handle).roster.bump handle).2.versions.get? handle = some (stored.version + 1) := by
      rw [withdraw_roster,Roster.bump,version]
      exact Map.get?_put_self _ _ _
    obtain ⟨fired,next,versions⟩ := Roster.bump_other (e.withdraw handle).roster handle
    rw [done,Naive.update_held held,← withdraw_naive next fired versions]
    exact congrArg Except.ok (enter_naive (bumped_aligned coherent.toAligned handle) (withdraw_out e handle) bumped
      (coherent.update done))

theorem delete_naive (coherent : Coherent e) (handle : Handle) :
    (e.delete handle).map (Prod.map id naive) = e.naive.delete handle := by
  have live := coherent.live_stored handle
  have known := coherent.fact_get? handle
  cases held : e.stores.facts.get? handle with
  | none =>
    rw [held] at live known
    rw [delete_dead live,Naive.delete_out held]
    rfl
  | some stored =>
    have dropped := @withdraw_naive e handle ((e.withdraw handle).roster.retire handle).2 rfl rfl
      fun _ apart => Map.get?_erase_other _ apart
    rw [held] at live known
    rw [delete_known live known,Naive.delete_held held,← dropped]
    rfl

theorem foldl_naive {β : Type} (change : Engine → β → Engine) (simple : Naive → β → Naive)
    (each : ∀ e item, Coherent e → Coherent (change e item) ∧ (change e item).naive = simple e.naive item)
    (items : List β) (coherent : Coherent e) :
    Coherent (items.foldl change e) ∧ (items.foldl change e).naive = items.foldl simple e.naive := by
  induction items generalizing e with
  | nil => exact ⟨coherent,rfl⟩
  | cons item rest ih =>
    obtain ⟨kept,same⟩ := each e item coherent
    rw [List.foldl_cons,List.foldl_cons,← same]
    exact ih kept

theorem deleteLive_naive (coherent : Coherent e) (handle : Handle) :
    Coherent (e.deleteLive handle) ∧ (e.deleteLive handle).naive = e.naive.deleteLive handle := by
  have same := delete_naive coherent handle
  unfold deleteLive Naive.deleteLive
  rw [← same,coherent.founded.retract_eq]
  cases done : e.delete handle with
  | ok result => exact ⟨coherent.delete done,rfl⟩
  | error cause => exact ⟨coherent,rfl⟩

theorem apply_naive (coherent : Coherent e) (effects : Effects) :
    (e.apply effects).naive = e.naive.apply effects := by
  obtain ⟨pushed,one⟩ := foldl_naive pushGlobal Naive.push (fun _ _ held => ⟨held.globals _,rfl⟩) effects.pushes coherent
  obtain ⟨inserted,two⟩ := foldl_naive (fun e fact => (e.insert fact).2) (fun n fact => (n.insert fact).2)
    (fun e fact held => ⟨held.insert fact,congrArg Prod.snd (insert_naive held fact)⟩) effects.inserts pushed
  obtain ⟨_,three⟩ := foldl_naive deleteLive Naive.deleteLive (fun _ handle held => deleteLive_naive held handle)
    effects.deletes inserted
  rw [two,one] at three
  exact three

theorem effects_naive (coherent : Coherent e) {rule : Rule} {facts : Match} (ready : e.ready a = some (rule,facts)) :
    e.naive.effects a = rule.action facts := by
  unfold Engine.ready at ready
  split at ready
  · obtain ⟨known,found,complete⟩ := Option.bind_eq_some_iff.mp ready
    dsimp only at complete
    split at complete
    · cases complete
      have same (handle : Handle) : (e.facts.get? handle).map (handle,·) =
          (e.stores.facts.get? handle).map fun stored => (handle,stored.fact) := by
        rw [coherent.fact_get?,Option.map_map]
        rfl
      unfold Naive.effects
      rw [show e.naive.program.rule? a.rule = some rule from found]
      simp only [matched,same]
      rfl
    · cases complete
  · cases ready

theorem step_naive (coherent : Coherent e) :
    e.step.map (Prod.map id naive) = e.naive.step.map (Prod.map some id) := by
  rcases step_cases coherent with ⟨empty,stops⟩ | ⟨sequence,a,agenda,rule,facts,popped,ready,went⟩
  · unfold Naive.step
    rw [stops,show e.naive.pending = [] from empty]
    rfl
  · have recorded := recorded_coherent coherent popped
    have first : e.naive.pending = a :: agenda.values := pending_pop popped
    have wanted : e.naive.effects a = rule.action facts := effects_naive coherent ready
    unfold Naive.step
    rw [went,first]
    simp only [Option.map_some,Prod.map,id,apply_naive recorded,wanted]
    rfl

theorem fire_naive (coherent : Coherent e) (limit : Nat) :
    Prod.map id naive (e.fire limit) = e.naive.fire limit := by
  induction limit generalizing e with
  | zero => rfl
  | succ limit ih =>
    have same := step_naive coherent
    unfold fire Naive.fire
    cases stepped : e.step with
    | none =>
      rw [stepped] at same
      rw [Option.map_eq_none_iff.mp same.symm]
      rfl
    | some result =>
      obtain ⟨fired,next⟩ := result
      rw [stepped] at same
      obtain ⟨⟨a,simple⟩,went,equal⟩ := Option.map_eq_some_iff.mp same.symm
      cases equal
      have later : Prod.map id naive (next.fire limit) = next.naive.fire limit := ih (coherent.step stepped)
      rw [went]
      change _ = (a :: (next.naive.fire limit).1,(next.naive.fire limit).2)
      rw [← later]
      rfl

theorem findHandle_naive (coherent : Coherent e) (fact : Fact) : e.findHandle fact = e.naive.find fact := by
  unfold findHandle Naive.find
  rw [coherent.holds.facts,Map.mapValues,List.find?_map,Option.map_map]
  rfl

theorem ask_naive (coherent : Coherent e) (demand : Demand) : Prod.map id naive (e.ask demand) = e.naive.ask demand := by
  cases demand with
  | insert fact =>
    simp only [ask,Naive.ask,← insert_naive coherent]
    rfl
  | update handle fact =>
    simp only [ask,Naive.ask,← update_naive coherent]
    cases e.update handle fact <;> rfl
  | delete handle =>
    simp only [ask,Naive.ask,← delete_naive coherent,coherent.founded.retract_eq]
    cases e.delete handle <;> rfl
  | fire limit =>
    simp only [ask,Naive.ask,← fire_naive coherent]
    rfl
  | clear name => rfl
  | find fact =>
    simp only [ask,Naive.ask,← findHandle_naive coherent]
    rfl
  | look name => rfl

theorem askAll_naive (coherent : Coherent e) (demands : List Demand) :
    Prod.map id naive (askAll ask demands e) = askAll Naive.ask demands e.naive := by
  have step (e : Engine) (n : Naive) (demand : Demand) (held : Coherent e ∧ e.naive = n) :
      (e.ask demand).1 = (n.ask demand).1 ∧ Coherent (e.ask demand).2 ∧ (e.ask demand).2.naive = (n.ask demand).2 := by
    obtain ⟨coherent,rfl⟩ := held
    have same := ask_naive coherent demand
    exact ⟨congrArg Prod.fst same,ask_coherent coherent demand,congrArg Prod.snd same⟩
  obtain ⟨responses,_,same⟩ := askAll_related step demands ⟨coherent,rfl⟩
  exact Prod.ext responses same

-- The memories, the numbered agenda and the set of what is queued only save
-- work: a list of rows and one of what is pending behave the same.
theorem refines_naive (program : Program) (demands : List Demand) :
    let run := askAll ask demands (new program)
    let reference := askAll Naive.ask demands (Naive.new program)
    run.1 = reference.1 ∧ run.2.pending = reference.2.pending ∧
      (∀ name, run.2.global name = reference.2.global name) ∧ run.2.stores = reference.2.stores := by
  intro run reference
  have same : Prod.map id naive run = reference := askAll_naive (new_coherent program) demands
  rw [← same]
  exact ⟨rfl,rfl,fun _ => rfl,rfl⟩

example : (askAll Naive.ask [.insert item,.insert item,.insert item,.fire 1] (Naive.new pairing)).2.pending =
    (paired.fire 1).2.pending := by decide

end DurableRules.Engine
