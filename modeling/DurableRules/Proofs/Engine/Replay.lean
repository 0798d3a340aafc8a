import DurableRules.Proofs.Engine.Lineage
import DurableRules.Proofs.Engine.Refinement
import Mathlib.Data.List.MinMax
import Mathlib.Order.Nat

namespace DurableRules

def Activation.latest (a : Activation) : Handle := a.handles.foldr max ⊥

-- When an activation is scheduled as long as no fact changes: with the last of
-- its handles, and at the rank it has among what that one completes.
def Activation.moment (names : List String) (a : Activation) : ℕ ×ₗ ℕ ×ₗ ℕ ×ₗ List ℕ :=
  toLex (a.latest,a.rank names a.latest)

section Latest
variable {a b : Activation} {handle : Handle} {names : List String}

theorem latest_eq (present : handle ∈ a.handles) (others : ∀ other ∈ a.handles, other ≤ handle) : a.latest = handle :=
  Nat.le_antisymm (List.max_le_of_forall_le _ _ others) (List.le_max_of_le present (Nat.le_refl handle))

theorem latest_lt (positive : 0 < handle) (others : ∀ other ∈ a.handles, other < handle) : a.latest < handle :=
  Nat.lt_of_le_pred positive (List.max_le_of_forall_le _ _ fun other present => Nat.le_pred_of_lt (others other present))

theorem moment_lt : a.moment names < b.moment names ↔
    a.latest < b.latest ∨ a.latest = b.latest ∧ a.rank names a.latest < b.rank names b.latest := by
  rw [Activation.moment,Activation.moment,Prod.Lex.toLex_lt_toLex]

end Latest

namespace Engine
variable {e next : Engine} {program : Program} {responses : List Response} {handle : Handle} {fact : Fact} {a : Activation}

def Timely (e : Engine) : Prop :=
  e.pending.Pairwise fun one two => one.moment e.program.names < two.moment e.program.names

theorem Timely.sublist (timely : Timely e) (program : next.program = e.program) (less : next.pending.Sublist e.pending) :
    Timely next := by
  unfold Timely
  rw [program]
  exact List.Pairwise.sublist less timely

theorem mem_handles : handle ∈ a.handles ↔ a.involves handle = true := involves_iff.symm

theorem offers_live (aligned : Aligned e) (out : e.facts.get? handle = none)
    (offered : a ∈ (e.attach handle fact).offers handle fact) : handle ∈ a.handles ∧
      ∀ other ∈ a.handles, other = handle ∨ (e.facts.get? other).isSome = true := by
  obtain ⟨satisfied,inside⟩ :=
    (mem_offers (attach_indexed aligned.indexed out fact) (Map.get?_put_self _ _ _)).mp offered
  refine ⟨mem_handles.mpr inside,fun other present => ?_⟩
  obtain ⟨found,held⟩ := satisfied.fact (mem_handles.mp present)
  change (e.facts.put handle fact).get? other = some found at held
  rw [Map.get?_put] at held
  split at held
  · next same => exact .inl same
  · exact .inr (Option.isSome_of_mem held)

-- What a new handle completes comes after everything that was pending.
theorem Timely.enter (timely : Timely e) (aligned : Aligned e) (out : e.facts.get? handle = none)
    (positive : 0 < handle) (above : ∀ other, (e.facts.get? other).isSome = true → other < handle) :
    Timely (e.enter handle fact) := by
  have program : (e.enter handle fact).program = e.program := (enter_same e handle fact).program
  have newest {a : Activation} (offered : a ∈ (e.attach handle fact).offers handle fact) : a.latest = handle := by
    obtain ⟨inside,live⟩ := offers_live aligned out offered
    refine latest_eq inside fun other present => ?_
    rcases live other present with rfl | held
    · exact Nat.le_refl _
    · exact Nat.le_of_lt (above other held)
  have older {a : Activation} (present : a ∈ e.pending) : a.latest < handle := by
    refine latest_lt positive fun other inside => above other ?_
    obtain ⟨i,member,rfl⟩ := List.mem_map.mp inside
    exact (aligned.genuine a present).facts i member
  unfold Timely
  rw [enter_pending aligned out,program]
  refine List.pairwise_append.mpr ⟨timely,?_,fun a before b later => ?_⟩
  · refine List.Pairwise.filter _ ((offers_sorted (e.attach handle fact) handle fact).imp_of_mem fun left right less => ?_)
    rw [moment_lt,newest left,newest right]
    exact .inr ⟨rfl,less⟩
  · rw [moment_lt,newest (List.mem_filter.mp later).1]
    exact .inl (older before)

theorem Timely.insert (timely : Timely e) (coherent : Coherent e) (tidy : Tidy e) (fact : Fact) :
    Timely (e.insert fact).2 := by
  rw [insert_eq]
  refine Timely.enter timely (allocated_aligned coherent) coherent.next_out tidy.numbered.next fun other held => ?_
  exact coherent.below other ((coherent.handles other).symm.trans held)

theorem Timely.delete (timely : Timely e) (deleted : e.delete handle = .ok (fact,next)) : Timely next := by
  refine timely.sublist (delete_markers deleted).program ?_
  obtain ⟨_,_,rfl⟩ := delete_ok deleted
  change (e.withdraw handle).pending.Sublist e.pending
  rw [withdraw_pending]
  exact List.filter_sublist

-- Firing takes the head away, and what its action inserts comes after the rest.
theorem Timely.step (timely : Timely e) (coherent : Coherent e) (tidy : Tidy e) {fired : Option Activation}
    (stepped : e.step = some (fired,next)) : Timely next := by
  obtain ⟨_,a,agenda,effects,popped,_,rfl⟩ := step_applies coherent stepped
  have rest : Timely ((e.taken a agenda).recorded a) := by
    refine timely.sublist rfl ?_
    rw [pending_pop popped]
    exact List.sublist_cons_self a agenda.values
  refine (apply_induct (motive := fun e => Coherent e ∧ Tidy e ∧ Timely e) effects
    ⟨recorded_coherent coherent popped,tidy.recorded a agenda,rest⟩ ?_ ?_ ?_ ?_).2.2
  · exact fun _ entry _ held => ⟨held.1.globals _,held.2.1.push entry,held.2.2⟩
  · exact fun _ fact _ held => ⟨held.1.insert fact,held.2.1.insert fact,held.2.2.insert held.1 held.2.1 fact⟩
  · exact fun _ _ _ _ held deleted => ⟨held.1.delete deleted,held.2.1.delete deleted,held.2.2.delete deleted⟩
  · exact fun _ _ held live out => absurd out (held.1.founded.known live)

theorem Timely.fire (timely : Timely e) (coherent : Coherent e) (tidy : Tidy e) (limit : Nat) :
    Timely (e.fire limit).2 :=
  (fire_induct (motive := fun e => Coherent e ∧ Tidy e ∧ Timely e) (fun _ _ _ held stepped =>
    ⟨held.1.step stepped,held.2.1.step held.1 stepped,held.2.2.step held.1 held.2.1 stepped⟩) limit e
    ⟨coherent,tidy,timely⟩).2.2

-- An update lets an old handle complete something anew, everything else keeps the order.
theorem Timely.ask (timely : Timely e) (coherent : Coherent e) (tidy : Tidy e) (demand : Demand)
    (other : (e.ask demand).1 ≠ .updated) : Timely (e.ask demand).2 :=
  ask_induct demand timely (timely.insert coherent tidy) (fun done => absurd done other)
    (fun _ _ _ done => timely.delete done) (fun _ live out => absurd out (coherent.founded.known live)) (timely.fire coherent tidy) (fun _ => timely)

theorem foldl_replay_timely {rows : List (Handle × StoredFact)} (aligned : Aligned e) (timely : Timely e)
    (order : Ascending rows) (positive : ∀ row ∈ rows, 0 < row.1)
    (above : ∀ row ∈ rows, ∀ other, (e.facts.get? other).isSome = true → other < row.1) :
    Timely (rows.foldl replay e) := by
  induction rows generalizing e with
  | nil => exact timely
  | cons row rest ih =>
    obtain ⟨least,later⟩ := List.pairwise_cons.mp order
    have out : e.facts.get? row.1 = none := by
      refine Option.not_isSome_iff_eq_none.mp fun held => ?_
      exact Nat.lt_irrefl _ (above row List.mem_cons_self row.1 held)
    have entered : Timely (e.replay row) :=
      timely.enter aligned out (positive row List.mem_cons_self) (above row List.mem_cons_self)
    refine ih (aligned.enter out) entered later (fun other present => positive other (List.mem_cons_of_mem _ present)) ?_
    intro other present handle held
    have same : (e.replay row).facts = e.facts.put row.1 row.2.fact := (replay_facts aligned out).1
    rw [same,Map.get?_put] at held
    split at held
    · next equal => exact equal ▸ Nat.compare_eq_lt.mp (least other present)
    · exact above other (List.mem_cons_of_mem _ present) handle held

theorem rebuild_timely {stores : Stores} (rebuilt : rebuild program stores = .ok e) : Timely e := by
  obtain ⟨roster,restored⟩ := rebuild_roster rebuilt
  obtain ⟨same,range⟩ := roster_ok restored
  unfold rebuild at rebuilt
  rw [restored] at rebuilt
  cases rebuilt
  refine foldl_replay_timely bare_aligned .nil stores.facts.ascending (fun row present => ?_) fun _ _ _ held => ?_
  · have live : roster.isLive row.1 = true := by
      rw [same,Roster.isLive_eq,versions_get?,Map.get?_eq_some_iff.mpr present]
      rfl
    exact (range row.1 live).1
  · cases held

theorem Lineage.timely (line : Lineage program responses e) (never : .updated ∉ responses) : Timely e := by
  induction line with
  | new => exact .nil
  | asked before demand ih =>
    rw [List.mem_cons,not_or] at never
    exact (ih never.2).ask before.reachable.kept.2.1 before.tidy demand (Ne.symm never.1)
  | rebuilt _ accepted => exact rebuild_timely accepted
  | adopted before accepted ih =>
    obtain ⟨rfl,coherent,_⟩ := before.reachable.kept
    cases adopt_self coherent accepted
    exact ih never

theorem Exact.alike {one two : Engine} (exact : Exact one) (also : Exact two) (program : one.program = two.program)
    (facts : one.facts = two.facts) (roster : one.roster = two.roster) (a : Activation) :
    a ∈ one.pending ↔ a ∈ two.pending := by
  rw [exact,also,roster]
  refine and_congr_left' ⟨fun satisfied => ?_,fun satisfied => ?_⟩
  · exact satisfied.congr program (fun _ _ => by rw [roster]) (fun _ _ => by rw [facts])
  · exact satisfied.congr program.symm (fun _ _ => by rw [roster]) (fun _ _ => by rw [facts])

theorem Timely.alike {one two : Engine} (timely : Timely one) (also : Timely two) (program : one.program = two.program)
    (same : ∀ a, a ∈ one.pending ↔ a ∈ two.pending) : one.pending = two.pending := by
  unfold Timely at also
  rw [← program] at also
  exact timely.eq_of_mem_iff also same

-- The stores say what is pending, and without updates also in which order.
theorem lineage_replayed (line : Lineage program responses e) :
    ∃ next, rebuild program e.stores = .ok next ∧ next.stores = e.stores ∧
      next.pending.Nodup ∧ next.pending.Perm e.pending ∧
      (.updated ∉ responses → next.pending = e.pending ∧ ∀ demands,
        (askAll ask demands next).1 = (askAll ask demands e).1 ∧
        (askAll ask demands next).2.stores = (askAll ask demands e).2.stores ∧
        (askAll ask demands next).2.pending = (askAll ask demands e).2.pending) := by
  obtain ⟨rfl,coherent,exact⟩ := line.reachable.kept
  obtain ⟨next,rebuilt⟩ := coherent.rebuild line.tidy.numbered e.program
  obtain ⟨holds,again,same,program⟩ := rebuild_ok rebuilt
  have facts : next.facts = e.facts := holds.facts.trans coherent.holds.facts.symm
  have roster : next.roster = e.roster := holds.roster.trans coherent.holds.roster.symm
  have members := same.alike exact program facts roster
  refine ⟨next,rebuilt,holds.stores_eq,again.orderly.once,
    (List.perm_ext_iff_of_nodup again.orderly.once coherent.orderly.once).mpr members,fun never => ?_⟩
  have pending := (rebuild_timely rebuilt).alike (line.timely never) program members
  have simple : next.naive = e.naive := Naive.ext program holds.stores_eq pending
  refine ⟨pending,fun demands => ?_⟩
  -- Both do what one naive engine does.
  have runs : Prod.map id naive (askAll ask demands next) = Prod.map id naive (askAll ask demands e) := by
    rw [askAll_naive again,askAll_naive coherent,simple]
  obtain ⟨responses,ends⟩ := Prod.mk.inj runs
  exact ⟨responses,congrArg Naive.stores ends,congrArg Naive.pending ends⟩

theorem restored_replayed :
    Lineage pairing [.fired [⟨"pair",[⟨2,0⟩,⟨1,0⟩]⟩],.inserted 3,.inserted 2,.inserted 1] restored ∧
      ∃ next, rebuild pairing restored.stores = .ok next ∧ next.stores = restored.stores ∧
        next.pending.Nodup ∧ next.pending.Perm restored.pending ∧
        next.pending = restored.pending ∧ ∀ demands,
          (askAll ask demands next).1 = (askAll ask demands restored).1 ∧
          (askAll ask demands next).2.stores = (askAll ask demands restored).2.stores ∧
          (askAll ask demands next).2.pending = (askAll ask demands restored).2.pending := by
  obtain ⟨next,rebuilt,stores,once,same,order⟩ := lineage_replayed restored_line
  exact ⟨restored_line,next,rebuilt,stores,once,same,order (by decide)⟩

-- After an update the stores no longer tell which pair came first.
example : let e := (askAll ask [.insert item,.insert item,.update 1 item] (new pairing)).2
    e.pending = [⟨"pair",[⟨1,1⟩,⟨2,0⟩]⟩,⟨"pair",[⟨2,0⟩,⟨1,1⟩]⟩] ∧
      (rebuild pairing e.stores).toOption.map pending = some [⟨"pair",[⟨2,0⟩,⟨1,1⟩]⟩,⟨"pair",[⟨1,1⟩,⟨2,0⟩]⟩] := by
  decide

end Engine
end DurableRules
