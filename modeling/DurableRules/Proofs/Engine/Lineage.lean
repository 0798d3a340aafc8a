import DurableRules.Proofs.Engine.Reachable
import DurableRules.Proofs.Engine.Demand

namespace DurableRules.Engine

-- How an engine came about: from the empty one, by demands and by putting in
-- its place what is rebuilt from its stores or what adopts its network. The
-- responses that were given on the way are listed, the last one first.
inductive Lineage (program : Program) : List Response → Engine → Prop
  | new : Lineage program [] (new program)
  | asked {responses : List Response} {e : Engine} (before : Lineage program responses e) (demand : Demand) :
      Lineage program ((e.ask demand).1 :: responses) (e.ask demand).2
  | rebuilt {responses : List Response} {e next : Engine} (before : Lineage program responses e)
      (accepted : rebuild program e.stores = .ok next) : Lineage program responses next
  | adopted {responses : List Response} {e next : Engine} (before : Lineage program responses e)
      (accepted : adopt program e.stores e.network = .ok next) : Lineage program responses next

variable {program : Program} {responses : List Response} {e next : Engine}

theorem Tidy.rebuilt (tidy : Tidy e) (accepted : rebuild program e.stores = .ok next) : Tidy next := by
  obtain ⟨_,restored⟩ := rebuild_roster accepted
  exact (rebuild_ok accepted).1.tidy restored tidy.numbered.next tidy.filled

theorem Reachable.asked (before : Reachable program e) (demand : Demand) : Reachable program (e.ask demand).2 :=
  ask_induct demand before before.inserted (fun _ _ _ _ done => before.updated done) (fun _ _ _ done => before.deleted done)
    (fun _ live out => absurd out (before.kept.2.1.founded.known live)) before.fired before.cleared

theorem Lineage.reachable (line : Lineage program responses e) : Reachable program e := by
  induction line with
  | new => exact .new
  | asked _ demand ih => exact ih.asked demand
  | rebuilt _ accepted => exact .rebuilt accepted
  | adopted _ accepted ih => exact ih.adopted accepted

-- Stores that were never handed in from outside are numbered from one on.
theorem Lineage.tidy (line : Lineage program responses e) : Tidy e := by
  induction line with
  | new => exact new_tidy program
  | asked before demand ih => exact ask_tidy ih before.reachable.kept.2.1 demand
  | rebuilt _ accepted ih => exact ih.rebuilt accepted
  | adopted before accepted ih =>
    obtain ⟨rfl,coherent,_⟩ := before.reachable.kept
    cases adopt_self coherent accepted
    exact ih

-- No check turns down what the engine hands over, and what comes back is the
-- engine itself, with the same sequence numbers and the same set of what is queued.
theorem lineage_adopted (line : Lineage program responses e) :
    ∃ next, adopt program e.stores e.network = .ok next ∧ next = e ∧
      ∀ demands, askAll ask demands next = askAll ask demands e := by
  obtain ⟨rfl,coherent,_⟩ := line.reachable.kept
  exact ⟨e,coherent.adopt line.tidy.numbered,rfl,fun _ => rfl⟩

def restored : Engine :=
  (paired.fire 1).2.stores.facts.rows.foldl replay (bare pairing (paired.fire 1).2.roster (paired.fire 1).2.globals)

theorem restored_line :
    Lineage pairing [.fired [⟨"pair",[⟨2,0⟩,⟨1,0⟩]⟩],.inserted 3,.inserted 2,.inserted 1] restored :=
  ((((Lineage.new.asked (.insert item)).asked (.insert item)).asked (.insert item)).asked (.fire 1)).rebuilt rfl

theorem restored_adopted :
    Lineage pairing [.fired [⟨"pair",[⟨2,0⟩,⟨1,0⟩]⟩],.inserted 3,.inserted 2,.inserted 1] restored ∧
      ∃ next, adopt pairing restored.stores restored.network = .ok next ∧ next = restored ∧
        ∀ demands, askAll ask demands next = askAll ask demands restored :=
  ⟨restored_line,lineage_adopted restored_line⟩

end DurableRules.Engine
