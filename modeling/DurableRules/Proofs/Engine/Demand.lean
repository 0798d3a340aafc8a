import DurableRules.Proofs.Engine.Frame

namespace DurableRules

-- Firing comes with a limit on the activations that are taken from the agenda.
inductive Demand where
  | insert (fact : Fact)
  | update (handle : Handle) (fact : Fact)
  | delete (handle : Handle)
  | fire (limit : Nat)
  | clear (name : String)
  | find (fact : Fact)
  | look (name : String)

inductive Response where
  | inserted (handle : Handle)
  | updated
  | deleted (fact : Fact)
  | unknown (handle : Handle)
  | fired (activations : List Activation)
  | cleared (held : Bool)
  | found (handle : Option Handle)
  | listed (values : List Value)
deriving DecidableEq

def askAll {σ : Type} (ask : σ → Demand → Response × σ) : List Demand → σ → List Response × σ
  | [], s => ([],s)
  | demand :: rest, s =>
    let (responses,last) := askAll ask rest (ask s demand).2
    ((ask s demand).1 :: responses,last)

theorem askAll_related {σ τ : Type} {one : σ → Demand → Response × σ} {two : τ → Demand → Response × τ}
    {related : σ → τ → Prop} (step : ∀ s t demand, related s t →
      (one s demand).1 = (two t demand).1 ∧ related (one s demand).2 (two t demand).2)
    (demands : List Demand) {s : σ} {t : τ} (start : related s t) :
    (askAll one demands s).1 = (askAll two demands t).1 ∧
      related (askAll one demands s).2 (askAll two demands t).2 := by
  induction demands generalizing s t with
  | nil => exact ⟨rfl,start⟩
  | cons demand rest ih =>
    obtain ⟨first,next⟩ := step s t demand start
    obtain ⟨later,last⟩ := ih next
    exact ⟨by simp [askAll,first,later],last⟩

namespace Engine

def ask (e : Engine) : Demand → Response × Engine
  | .insert fact => (.inserted (e.insert fact).1,(e.insert fact).2)
  | .update handle fact =>
    match e.update handle fact with
    | .ok next => (.updated,next)
    | .error cause => (.unknown cause.handle,e)
  | .delete handle =>
    match e.retract handle with
    | (.ok fact,next) => (.deleted fact,next)
    | (.error cause,next) => (.unknown cause.handle,next)
  | .fire limit => (.fired (e.fire limit).1,(e.fire limit).2)
  | .clear name => (.cleared (e.clear name).1,(e.clear name).2)
  | .find fact => (.found (e.findHandle fact),e)
  | .look name => (.listed (e.global name),e)

variable {e next : Engine} {handle : Handle} {fact : Fact}

theorem ask_updated (done : e.update handle fact = .ok next) : e.ask (.update handle fact) = (.updated,next) := by
  simp [ask,done]

theorem ask_not_updated {cause : UnknownHandle} (refused : e.update handle fact = .error cause) :
    e.ask (.update handle fact) = (.unknown cause.handle,e) := by
  simp [ask,refused]

-- A demand is an operation that is carried out or it leaves the engine as it is, unless a
-- handle is live without a fact.
theorem ask_cases {motive : Demand → Engine → Prop} (demand : Demand) (same : motive demand e)
    (insert : ∀ fact, motive (.insert fact) (e.insert fact).2)
    (update : ∀ handle fact next, e.update handle fact = .ok next → motive (.update handle fact) next)
    (delete : ∀ handle fact next, e.delete handle = .ok (fact,next) → motive (.delete handle) next)
    (withdraw : ∀ handle, e.roster.isLive handle = true → e.facts.get? handle = none →
      motive (.delete handle) (e.withdraw handle))
    (fire : ∀ limit, motive (.fire limit) (e.fire limit).2) (clear : ∀ name, motive (.clear name) (e.clear name).2) :
    motive demand (e.ask demand).2 := by
  cases demand with
  | insert fact => exact insert fact
  | update handle fact =>
    cases done : e.update handle fact with
    | ok next =>
      rw [ask_updated done]
      exact update handle fact next done
    | error cause =>
      rw [ask_not_updated done]
      exact same
  | delete handle =>
    rcases retract_cases e handle with ⟨_,went⟩ | ⟨live,out,went⟩ | ⟨fact,_,_,went⟩
    · simpa [ask,went] using same
    · simpa [ask,went] using withdraw handle live out
    · simpa [ask,went] using delete handle fact _ (delete_retract.mpr went)
  | fire limit => exact fire limit
  | clear name => exact clear name
  | find fact => exact same
  | look name => exact same

theorem ask_induct {motive : Engine → Prop} (demand : Demand) (same : motive e)
    (insert : ∀ fact, motive (e.insert fact).2)
    (update : (e.ask demand).1 = .updated → ∀ handle fact next, e.update handle fact = .ok next → motive next)
    (delete : ∀ handle fact next, e.delete handle = .ok (fact,next) → motive next)
    (withdraw : ∀ handle, e.roster.isLive handle = true → e.facts.get? handle = none → motive (e.withdraw handle))
    (fire : ∀ limit, motive (e.fire limit).2) (clear : ∀ name, motive (e.clear name).2) :
    motive (e.ask demand).2 := by
  refine ask_cases (motive := fun asked next => asked = demand → motive next) demand (fun _ => same)
    (fun fact _ => insert fact) (fun handle fact next done asked => ?_) (fun handle fact next done _ => delete handle fact next done)
    (fun handle live out _ => withdraw handle live out)
    (fun limit _ => fire limit) (fun name _ => clear name) rfl
  refine update ?_ handle fact next done
  rw [← asked,ask_updated done]

theorem ask_coherent (coherent : Coherent e) (demand : Demand) : Coherent (e.ask demand).2 :=
  ask_induct demand coherent coherent.insert (fun _ _ _ _ done => coherent.update done)
    (fun _ _ _ done => coherent.delete done) (fun _ live out => absurd out (coherent.founded.known live)) coherent.fire
    (fun _ => coherent.globals _)

theorem ask_tidy (tidy : Tidy e) (coherent : Coherent e) (demand : Demand) : Tidy (e.ask demand).2 :=
  ask_induct demand tidy tidy.insert (fun _ _ _ _ done => tidy.update done)
    (fun _ _ _ done => tidy.delete done) (fun _ live out => absurd out (coherent.founded.known live))
    (tidy.fire coherent) tidy.clear

end Engine
end DurableRules
