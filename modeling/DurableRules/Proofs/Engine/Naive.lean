import DurableRules.Proofs.Engine.Demand
import DurableRules.Proofs.Engine.Order

namespace DurableRules

def rows {α : Type} (items : List α) : Nat → List (List α)
  | 0 => [[]]
  | length + 1 => items.flatMap fun item => (rows items length).map (item :: ·)

abbrev Row := List (Handle × StoredFact)

def handlesOf (row : Row) : List Handle := row.map Prod.fst
def matchOf (row : Row) : Match := row.map fun entry => (entry.1,entry.2.fact)
def identitiesOf (row : Row) : List Identity := row.map fun entry => ⟨entry.1,entry.2.version⟩

def Rule.fits (rule : Rule) (row : Row) : Bool :=
  row.map (·.2.fact.kind) == rule.patterns && (handlesOf row).Nodup && rule.condition (matchOf row)

-- A rule engine without any index: what there is in the stores and what is
-- pending, in the order in which it fires. Whenever a fact comes in, all
-- tuples are gone through.
@[ext] structure Naive where
  program : Program
  stores : Stores
  pending : List Activation

namespace Naive

def new (program : Program) : Naive := ⟨program,⟨1,Map.empty,Map.empty,Map.empty⟩,[]⟩

-- What the fact of a handle completes: by rule, by the positions of its kind
-- and then by all handles of the tuple.
def completed (rules : List Rule) (facts : Map Handle StoredFact) (handle : Handle) (kind : String) : List Activation :=
  rules.flatMap fun rule => rule.patterns.zipIdx.flatMap fun (pattern,position) =>
    if pattern = kind then
      ((rows facts.rows rule.patterns.length).filter fun row =>
        rule.fits row && (handlesOf row)[position]? == some handle).map fun row => ⟨rule.name,identitiesOf row⟩
    else []

def enter (n : Naive) (handle : Handle) (stored : StoredFact) : Naive :=
  let facts := n.stores.facts.put handle stored
  { n with
    stores := { n.stores with facts }
    pending := n.pending ++ (completed n.program.rules facts handle stored.fact.kind).filter fun a =>
      !n.stores.fired.contains a }

def drop (n : Naive) (handle : Handle) : Naive :=
  { n with
    stores := { n.stores with facts := n.stores.facts.erase handle }
    pending := n.pending.filter fun a => !a.involves handle }

def insert (n : Naive) (fact : Fact) : Handle × Naive :=
  let handle := n.stores.nextHandle
  (handle,({ n with stores := { n.stores with nextHandle := handle + 1 } }).enter handle ⟨0,fact⟩)

def update (n : Naive) (handle : Handle) (fact : Fact) : Except UnknownHandle Naive :=
  match n.stores.facts.get? handle with
  | some stored => .ok ((n.drop handle).enter handle ⟨stored.version + 1,fact⟩)
  | none => .error ⟨handle⟩

def delete (n : Naive) (handle : Handle) : Except UnknownHandle (Fact × Naive) :=
  match n.stores.facts.get? handle with
  | some stored => .ok (stored.fact,n.drop handle)
  | none => .error ⟨handle⟩

def global (n : Naive) (name : String) : List Value := (n.stores.globals.get? name).getD []

def setGlobals (n : Naive) (globals : Globals) : Naive := { n with stores := { n.stores with globals } }

def clear (n : Naive) (name : String) : Bool × Naive :=
  (!(n.global name).isEmpty,n.setGlobals (n.stores.globals.erase name))

def push (n : Naive) (entry : String × Value) : Naive :=
  n.setGlobals (n.stores.globals.put entry.1 (n.global entry.1 ++ [entry.2]))

def deleteLive (n : Naive) (handle : Handle) : Naive :=
  match n.delete handle with
  | .ok (_,next) => next
  | .error _ => n

def apply (n : Naive) (effects : Effects) : Naive :=
  let pushed := effects.pushes.foldl push n
  let inserted := effects.inserts.foldl (fun n fact => (n.insert fact).2) pushed
  effects.deletes.foldl deleteLive inserted

def effects (n : Naive) (a : Activation) : Effects :=
  match n.program.rule? a.rule with
  | some rule => rule.action (a.handles.filterMap fun handle =>
      (n.stores.facts.get? handle).map fun stored => (handle,stored.fact))
  | none => Effects.none

def step (n : Naive) : Option (Activation × Naive) :=
  match n.pending with
  | [] => none
  | a :: rest =>
    let recorded : Naive := { n with stores := { n.stores with fired := n.stores.fired.insert a }, pending := rest }
    some (a,recorded.apply (n.effects a))

def fire : Nat → Naive → List Activation × Naive
  | 0, n => ([],n)
  | limit + 1, n =>
    match n.step with
    | none => ([],n)
    | some (a,next) =>
      let (later,last) := fire limit next
      (a :: later,last)

def find (n : Naive) (fact : Fact) : Option Handle :=
  (n.stores.facts.rows.find? fun row => row.2.fact.same fact).map Prod.fst

def ask (n : Naive) : Demand → Response × Naive
  | .insert fact => (.inserted (n.insert fact).1,(n.insert fact).2)
  | .update handle fact =>
    match n.update handle fact with
    | .ok next => (.updated,next)
    | .error cause => (.unknown cause.handle,n)
  | .delete handle =>
    match n.delete handle with
    | .ok (fact,next) => (.deleted fact,next)
    | .error cause => (.unknown cause.handle,n)
  | .fire limit => (.fired (n.fire limit).1,(n.fire limit).2)
  | .clear name => (.cleared (n.clear name).1,(n.clear name).2)
  | .find fact => (.found (n.find fact),n)
  | .look name => (.listed (n.global name),n)

end Naive

section Rows
variable {α : Type} {items row : List α} {length : Nat}

theorem mem_rows : row ∈ rows items length ↔ row.length = length ∧ ∀ item ∈ row, item ∈ items := by
  induction length generalizing row with
  | zero =>
    rw [rows,List.mem_singleton,List.length_eq_zero_iff]
    refine ⟨?_,And.left⟩
    rintro rfl
    exact ⟨rfl,fun _ none => by cases none⟩
  | succ length ih =>
    cases row with
    | nil => simp [rows]
    | cons head rest =>
      simp only [rows,List.mem_flatMap,List.mem_map,List.cons.injEq,ih,List.length_cons,Nat.add_right_cancel_iff,
        List.forall_mem_cons]
      constructor
      · rintro ⟨_,first,_,later,rfl,rfl⟩
        exact ⟨later.1,first,later.2⟩
      · rintro ⟨count,first,later⟩
        exact ⟨head,first,rest,⟨count,later⟩,rfl,rfl⟩

theorem rows_sorted {β : Type} [LinearOrder β] {key : α → β} (order : items.Pairwise fun one two => key one < key two) :
    (rows items length).Pairwise fun one two => one.map key < two.map key := by
  induction length with
  | zero => exact List.pairwise_singleton _ _
  | succ length ih =>
    refine List.pairwise_flatMap.mpr ⟨fun item _ => ?_,order.imp fun less one left two right => ?_⟩
    · exact List.pairwise_map.mpr (ih.imp fun less => List.cons_lt_cons_iff.mpr (.inr ⟨rfl,less⟩))
    · obtain ⟨_,_,rfl⟩ := List.mem_map.mp left
      obtain ⟨_,_,rfl⟩ := List.mem_map.mp right
      exact List.cons_lt_cons_iff.mpr (.inl less)

end Rows

section Fitting
variable {row : Row} {rule : Rule}

@[simp] theorem handles_identitiesOf (row : Row) : (identitiesOf row).map Identity.handle = handlesOf row := by
  simp [identitiesOf,handlesOf]

theorem handles_matchOf (row : Row) : (matchOf row).map Prod.fst = handlesOf row := by
  simp [matchOf,handlesOf]

theorem kinds_matchOf (row : Row) : (matchOf row).map (·.2.kind) = row.map (·.2.fact.kind) := by
  simp [matchOf]

theorem fits_iff : rule.fits row = true ↔
    row.map (·.2.fact.kind) = rule.patterns ∧ (handlesOf row).Nodup ∧ rule.condition (matchOf row) = true := by
  simp [Rule.fits,and_assoc]

end Fitting

namespace Naive
variable {rules : List Rule} {facts : Map Handle StoredFact} {handle : Handle} {kind : String} {a : Activation}

section Steps
variable {n : Naive} {stored : StoredFact}

theorem update_held (held : n.stores.facts.get? handle = some stored) (fact : Fact) :
    n.update handle fact = .ok ((n.drop handle).enter handle ⟨stored.version + 1,fact⟩) := by
  rw [update,held]

theorem update_out (out : n.stores.facts.get? handle = none) (fact : Fact) : n.update handle fact = .error ⟨handle⟩ := by
  rw [update,out]

theorem delete_held (held : n.stores.facts.get? handle = some stored) :
    n.delete handle = .ok (stored.fact,n.drop handle) := by
  rw [delete,held]

theorem delete_out (out : n.stores.facts.get? handle = none) : n.delete handle = .error ⟨handle⟩ := by
  rw [delete,out]

end Steps

theorem facts_sorted (facts : Map Handle StoredFact) : facts.rows.Pairwise fun one two => one.1 < two.1 :=
  facts.ascending.imp fun less => Nat.compare_eq_lt.mp less

theorem completed_sorted (distinct : (rules.map Rule.name).Nodup) :
    (completed rules facts handle kind).Pairwise fun one two =>
      one.rank (rules.map Rule.name) handle < two.rank (rules.map Rule.name) handle := by
  apply arranged_sorted distinct Activation.rule Activation.handles
  · rintro rule _ ⟨pattern,position⟩ _ a present
    dsimp only at present
    split at present
    · obtain ⟨row,chosen,rfl⟩ := List.mem_map.mp present
      obtain ⟨fits,stands⟩ := Bool.and_eq_true_iff.mp (List.mem_filter.mp chosen).2
      refine ⟨rfl,?_⟩
      rw [Activation.handles,handles_identitiesOf]
      exact idxOf_pinned (fits_iff.mp fits).2.1 (eq_of_beq stands)
    · cases present
  · rintro rule _ ⟨pattern,position⟩ _
    dsimp only
    split
    · refine List.pairwise_map.mpr (((rows_sorted (facts_sorted facts)).filter _).imp fun less => ?_)
      rw [Activation.handles,Activation.handles,handles_identitiesOf,handles_identitiesOf]
      exact less
    · exact .nil

theorem mem_completed (own : ∃ stored, facts.get? handle = some stored ∧ stored.fact.kind = kind) :
    a ∈ completed rules facts handle kind ↔ ∃ rule ∈ rules, ∃ row : Row, (∀ entry ∈ row, entry ∈ facts.rows) ∧
      rule.fits row = true ∧ handle ∈ handlesOf row ∧ a = ⟨rule.name,identitiesOf row⟩ := by
  obtain ⟨stored,held,rfl⟩ := own
  simp only [completed,List.mem_flatMap,Prod.exists]
  constructor
  · rintro ⟨rule,known,pattern,position,_,present⟩
    split at present
    · obtain ⟨row,chosen,rfl⟩ := List.mem_map.mp present
      obtain ⟨listed,both⟩ := List.mem_filter.mp chosen
      obtain ⟨fits,stands⟩ := Bool.and_eq_true_iff.mp both
      exact ⟨rule,known,row,(mem_rows.mp listed).2,fits,List.mem_of_getElem? (eq_of_beq stands),rfl⟩
    · cases present
  · rintro ⟨rule,known,row,listed,fits,present,rfl⟩
    obtain ⟨kinds,_,_⟩ := fits_iff.mp fits
    have length : row.length = rule.patterns.length := by rw [← kinds,List.length_map]
    obtain ⟨position,bound,stands⟩ := List.mem_iff_getElem.mp present
    have inside : position < row.length := by simpa [handlesOf] using bound
    -- The fact at that place is the one of the handle, so the pattern is its kind.
    have entry : row[position].1 = handle := by simpa [handlesOf] using stands
    have same : row[position].2 = stored := by
      have found := Map.get?_eq_some_iff.mpr (listed _ (List.getElem_mem inside))
      rw [List.get_eq_getElem,entry,held] at found
      exact (Option.some.inj found).symm
    have pattern : rule.patterns[position]? = some stored.fact.kind := by
      simp [← kinds,List.getElem?_eq_getElem inside,same]
    refine ⟨rule,known,_,position,List.mk_mem_zipIdx_iff_getElem?.mpr pattern,?_⟩
    rw [if_pos rfl]
    refine List.mem_map.mpr ⟨row,List.mem_filter.mpr ⟨mem_rows.mpr ⟨length,listed⟩,?_⟩,rfl⟩
    rw [fits,Bool.true_and,beq_iff_eq,← stands]
    exact List.getElem?_eq_getElem bound

end Naive
end DurableRules
