import DurableRules.Proofs.Engine.Enduring
import DurableRules.Proofs.Snapshot.Inverse

namespace DurableRules

def Effects.values (effects : Effects) : List Value :=
  effects.pushes.map Prod.snd ++ effects.inserts.flatMap Fact.values

namespace Engine

def brought (e : Engine) : List Value :=
  match e.network.agenda.pop? with
  | none => []
  | some ((_,a),agenda) =>
    match (e.taken a agenda).ready a with
    | none => []
    | some (rule,facts) => (rule.action facts).values

def produced : Nat → Engine → List Value
  | 0, _ => []
  | limit + 1, e =>
    match e.step with
    | none => []
    | some (_,next) => e.brought ++ produced limit next

-- The values that come in with a demand, those of the actions it sets off included.
def supplied (e : Engine) : Demand → List Value
  | .insert fact | .update _ fact => fact.values
  | .fire limit => produced limit e
  | _ => []

def suppliedAll : List Demand → Engine → List Value
  | [], _ => []
  | demand :: rest, e => e.supplied demand ++ suppliedAll rest (e.ask demand).2

structure Carries (good : Value → Prop) (e : Engine) : Prop where
  facts : ∀ handle fact, e.facts.get? handle = some fact → ∀ value ∈ fact.values, good value
  globals : ∀ name values, e.globals.get? name = some values → ∀ value ∈ values, good value

variable {e next : Engine} {handle : Handle} {fact : Fact} {good : Value → Prop}

theorem Carries.same (carries : Carries good one) (facts : two.facts = one.facts) (globals : two.globals = one.globals) :
    Carries good two := by
  constructor
  · rw [facts]
    exact carries.facts
  · rw [globals]
    exact carries.globals

theorem Carries.enter (carries : Carries good e) (each : ∀ value ∈ fact.values, good value) :
    Carries good (e.enter handle fact) := by
  have same := enter_same e handle fact
  constructor
  · intro other held found
    rw [same.facts] at found
    change (e.facts.put handle fact).get? other = some held at found
    rw [Map.get?_put] at found
    split at found
    · cases found
      exact each
    · exact carries.facts other held found
  · rw [same.globals]
    exact carries.globals

theorem Carries.withdraw (carries : Carries good e) (handle : Handle) : Carries good (e.withdraw handle) := by
  constructor
  · intro other held found
    rw [withdraw_facts] at found
    exact carries.facts other held (Map.get?_of_erase found)
  · simpa using carries.globals

theorem Carries.insert (carries : Carries good e) (each : ∀ value ∈ fact.values, good value) :
    Carries good (e.insert fact).2 := by
  rw [insert_eq]
  have allocated : Carries good { e with roster := e.roster.allocate.2 } := carries.same rfl rfl
  exact allocated.enter each

theorem Carries.update (carries : Carries good e) (updated : e.update handle fact = .ok next)
    (each : ∀ value ∈ fact.values, good value) : Carries good next := by
  obtain ⟨_,rfl⟩ := update_ok updated
  have bumped : Carries good { e.withdraw handle with roster := ((e.withdraw handle).roster.bump handle).2 } :=
    (carries.withdraw handle).same rfl rfl
  exact bumped.enter each

theorem Carries.delete (carries : Carries good e) (deleted : e.delete handle = .ok (fact,next)) : Carries good next := by
  obtain ⟨_,_,rfl⟩ := delete_ok deleted
  exact (carries.withdraw handle).same rfl rfl

theorem Carries.push (carries : Carries good e) {entry : String × Value} (fits : good entry.2) :
    Carries good (e.pushGlobal entry) := by
  refine ⟨carries.facts,fun name values found => ?_⟩
  change (e.globals.put entry.1 (e.global entry.1 ++ [entry.2])).get? name = some values at found
  rw [Map.get?_put] at found
  split at found
  · cases found
    intro value present
    rcases List.mem_append.mp present with before | last
    · unfold Engine.global at before
      cases held : e.globals.get? entry.1 with
      | none => simp [held] at before
      | some list => exact carries.globals entry.1 list held value (by simpa [held] using before)
    · exact List.mem_singleton.mp last ▸ fits
  · exact carries.globals name values found

theorem Carries.clear (carries : Carries good e) (name : String) : Carries good (e.clear name).2 :=
  ⟨carries.facts,fun other values found => carries.globals other values (Map.get?_of_erase found)⟩

theorem Carries.apply (carries : Carries good e) {effects : Effects} (each : ∀ value ∈ effects.values, good value) :
    Carries good (e.apply effects) := by
  obtain ⟨pushes,inserts⟩ := List.forall_mem_append.mp each
  refine apply_induct effects carries (fun e entry asked held => ?_) (fun e fact asked held => ?_)
    (fun _ _ _ _ held deleted => held.delete deleted) fun _ handle held _ _ => held.withdraw handle
  · exact held.push (pushes entry.2 (List.mem_map_of_mem asked))
  · exact held.insert fun value inside => inserts value (List.mem_flatMap.mpr ⟨fact,asked,inside⟩)

theorem Carries.step (carries : Carries good e) {fired : Option Activation} (stepped : e.step = some (fired,next))
    (each : ∀ value ∈ e.brought, good value) : Carries good next := by
  obtain ⟨_,a,agenda,popped,rfl | ⟨rule,facts,ready,rfl⟩⟩ := step_inv stepped
  · exact carries.same rfl rfl
  · have recorded : Carries good ((e.taken a agenda).recorded a) := carries.same rfl rfl
    apply recorded.apply
    simpa only [brought,popped,ready] using each

theorem Carries.fire (carries : Carries good e) {limit : Nat} (each : ∀ value ∈ produced limit e, good value) :
    Carries good (e.fire limit).2 := by
  induction limit generalizing e with
  | zero => exact carries
  | succ limit ih =>
    unfold Engine.fire
    unfold produced at each
    split
    · exact carries
    · next fired next stepped =>
      rw [stepped] at each
      obtain ⟨first,later⟩ := List.forall_mem_append.mp each
      exact ih (carries.step stepped first) later

theorem Carries.ask (carries : Carries good e) {demand : Demand} :
    (∀ value ∈ e.supplied demand, good value) → Carries good (e.ask demand).2 :=
  ask_cases (motive := fun demand next => (∀ value ∈ e.supplied demand, good value) → Carries good next) demand
    (fun _ => carries) (fun _ each => carries.insert each) (fun _ _ _ done each => carries.update done each)
    (fun _ _ _ done _ => carries.delete done) (fun handle _ _ _ => carries.withdraw handle) (fun _ each => carries.fire each) fun name _ => carries.clear name

theorem Carries.askAll (carries : Carries good e) {demands : List Demand}
    (each : ∀ value ∈ suppliedAll demands e, good value) :
    Carries good (DurableRules.askAll Engine.ask demands e).2 := by
  induction demands generalizing e with
  | nil => exact carries
  | cons demand rest ih =>
    obtain ⟨first,later⟩ := List.forall_mem_append.mp each
    exact ih (carries.ask first) later

theorem Carries.iff_stores (founded : Founded e) : Carries good e ↔ ∀ value ∈ e.stores.values, good value := by
  have facts : (∀ stored ∈ e.stores.facts.values, ∀ value ∈ stored.fact.values, good value) ↔
      ∀ handle fact, e.facts.get? handle = some fact → ∀ value ∈ fact.values, good value := by
    rw [founded.holds.facts]
    constructor
    · intro all handle fact found
      rw [Map.get?_mapValues] at found
      obtain ⟨stored,held,rfl⟩ := Option.map_eq_some_iff.mp found
      exact all stored (Map.mem_values.mpr ⟨handle,held⟩)
    · intro all stored present
      obtain ⟨handle,held⟩ := Map.mem_values.mp present
      exact all handle stored.fact (by simp [held])
  have globals : (∀ values ∈ e.stores.globals.values, ∀ value ∈ values, good value) ↔
      ∀ name values, e.globals.get? name = some values → ∀ value ∈ values, good value := by
    constructor
    · intro all name values found
      exact all values (Map.mem_values.mpr ⟨name,found⟩)
    · intro all values present
      obtain ⟨name,held⟩ := Map.mem_values.mp present
      exact all name values held
  rw [Stores.values,List.forall_mem_append,List.forall_mem_flatMap,List.forall_mem_flatten,facts,globals]
  exact ⟨fun carries => ⟨carries.facts,carries.globals⟩,fun all => ⟨all.1,all.2⟩⟩

-- Nothing is stored that was not there before or did not come in.
theorem Enduring.supplied {program : Program} (enduring : Enduring program e) {demands : List Demand}
    (exhausts : exhaustsAll demands e = true) :
    ∀ value ∈ (DurableRules.askAll Engine.ask demands e).2.stores.values,
      value ∈ e.stores.values ∨ value ∈ suppliedAll demands e := by
  have carries : Carries (fun value => value ∈ e.stores.values ∨ value ∈ suppliedAll demands e) e :=
    (Carries.iff_stores enduring.founded).mpr fun _ present => .inl present
  exact (Carries.iff_stores (enduring.askAll exhausts).founded).mp (carries.askAll fun _ present => .inr present)

end Engine
end DurableRules
