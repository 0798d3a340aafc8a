import DurableRules.Proofs.Engine.Frame

namespace DurableRules.Engine

-- Engines as they stand between operations: fresh, out of any stores that are
-- accepted or out of what an engine of the same program handed over, and then
-- after any operations.
inductive Reachable (program : Program) : Engine → Prop
  | new : Reachable program (new program)
  | rebuilt {stores : Stores} {e : Engine} (accepted : rebuild program stores = .ok e) : Reachable program e
  | adopted {e next : Engine} (before : Reachable program e)
      (accepted : adopt program e.stores e.network = .ok next) : Reachable program next
  | inserted {e : Engine} (before : Reachable program e) (fact : Fact) : Reachable program (e.insert fact).2
  | updated {e next : Engine} (before : Reachable program e) {handle : Handle} {fact : Fact}
      (done : e.update handle fact = .ok next) : Reachable program next
  | deleted {e next : Engine} (before : Reachable program e) {handle : Handle} {fact : Fact}
      (done : e.delete handle = .ok (fact,next)) : Reachable program next
  | fired {e : Engine} (before : Reachable program e) (limit : Nat) : Reachable program (e.fire limit).2
  | cleared {e : Engine} (before : Reachable program e) (name : String) : Reachable program (e.clear name).2

variable {e next : Engine} {program : Program}

theorem Reachable.kept (reached : Reachable program e) : e.program = program ∧ Coherent e ∧ Exact e := by
  induction reached with
  | new => exact ⟨rfl,new_coherent program,new_exact program⟩
  | rebuilt accepted =>
    obtain ⟨_,coherent,exact,same⟩ := rebuild_ok accepted
    exact ⟨same,coherent,exact⟩
  | @adopted e _ _ accepted ih =>
    obtain ⟨rfl,coherent,exact⟩ := ih
    cases adopt_self coherent accepted
    exact ⟨rfl,coherent,exact⟩
  | inserted _ fact ih =>
    exact ⟨(insert_markers _ fact).program.trans ih.1,ih.2.1.insert fact,ih.2.2.insert ih.2.1 fact⟩
  | updated _ done ih =>
    exact ⟨(update_markers done).program.trans ih.1,ih.2.1.update done,ih.2.2.update ih.2.1 done⟩
  | deleted _ done ih =>
    exact ⟨(delete_markers done).program.trans ih.1,ih.2.1.delete done,ih.2.2.delete done⟩
  | fired _ limit ih =>
    exact ⟨(fire_program ih.2.1 limit).trans ih.1,ih.2.1.fire limit,ih.2.2.fire ih.2.1 limit⟩
  | cleared _ _ ih => exact ⟨ih.1,ih.2.1.globals _,ih.2.2.globals _⟩

-- The facts are those of the live handles, an alpha memory exists for the
-- kinds that have facts and holds their handles, the agenda has every
-- activation once, in the order it was scheduled, and the pending ones are
-- those that are matched and have not fired.
structure Settled (program : Program) (e : Engine) : Prop where
  program : e.program = program
  handles : ∀ handle, e.facts.contains handle = e.roster.versions.contains handle
  memories : ∀ kind handles, e.network.alpha.get? kind = some handles ↔ handles.toList ≠ [] ∧
    ∀ handle, handle ∈ handles.toList ↔ ∃ fact, e.facts.get? handle = some fact ∧ fact.kind = kind
  queued : ∀ a, e.queued.contains a = true ↔ a ∈ e.network.agenda.values
  once : e.network.agenda.values.Nodup
  early : ∀ sequence a, e.network.agenda.get? sequence = some a → sequence < e.network.nextSequence
  pending : ∀ a, a ∈ e.pending ↔ e.Satisfied a ∧ e.roster.hasFired a = false

theorem memories_exact (indexed : Indexed e) (inhabited : Inhabited e.network.alpha) (kind : String)
    (handles : Members Handle) : e.network.alpha.get? kind = some handles ↔ handles.toList ≠ [] ∧
      ∀ handle, handle ∈ handles.toList ↔ ∃ fact, e.facts.get? handle = some fact ∧ fact.kind = kind := by
  constructor
  · intro held
    refine ⟨inhabited kind handles held,fun handle => ?_⟩
    rw [← indexed,memory,held]
  · intro exactly
    obtain ⟨some,members⟩ := exactly
    obtain ⟨first,present⟩ := List.exists_mem_of_ne_nil _ some
    obtain ⟨others,held,_⟩ := mem_memory.mp ((indexed kind first).mpr ((members first).mp present))
    have same : others = handles := by
      refine Members.ext_mem fun handle => ?_
      rw [members,← indexed,memory,held]
    rw [held,same]

theorem reachable_settled (reached : Reachable program e) : Settled program e := by
  obtain ⟨same,coherent,exact⟩ := reached.kept
  refine ⟨same,fun handle => ?_,memories_exact coherent.indexed coherent.inhabited,coherent.orderly.queued,
    coherent.orderly.once,coherent.orderly.early,exact⟩
  rw [Map.contains_eq,Map.contains_eq,coherent.handles,Roster.isLive_eq]

-- Two items make a pair in either order, and the first pair takes its second item away.
def pairing : Program := Program.empty.add
  { name := "pair"
    patterns := ["Item","Item"]
    action := fun facts => (facts.drop 1).foldl (fun effects row => effects.delete row.1) Effects.none }

def item : Fact := ⟨"Item",Map.empty⟩

def paired : Engine := ((((new pairing).insert item).2.insert item).2.insert item).2

theorem pairing_settled : Reachable pairing (paired.fire 1).2 ∧ Settled pairing (paired.fire 1).2 :=
  have reached : Reachable pairing (paired.fire 1).2 := (((Reachable.new.inserted item).inserted item).inserted item).fired 1
  ⟨reached,reachable_settled reached⟩

example : (paired.fire 1).2.pending = [⟨"pair",[⟨3,0⟩,⟨2,0⟩]⟩,⟨"pair",[⟨2,0⟩,⟨3,0⟩]⟩] := by decide

end DurableRules.Engine
