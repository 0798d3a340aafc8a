import DurableRules.Engine.Matching
import Mathlib.Data.List.Forall2
import Mathlib.Data.List.Nodup

namespace DurableRules

theorem mem_choices {used : List Handle} {slots : List (List Handle)} {handles : List Handle} :
    handles ∈ choices used slots ↔
      List.Forall₂ (· ∈ ·) handles slots ∧ handles.Nodup ∧ ∀ handle ∈ handles, handle ∉ used := by
  induction slots generalizing used handles with
  | nil =>
    rw [choices,List.mem_singleton,List.forall₂_nil_right_iff]
    refine ⟨fun none => ?_,And.left⟩
    subst none
    exact ⟨rfl,List.nodup_nil,by simp⟩
  | cons slot rest ih =>
    simp only [choices,List.mem_flatMap,List.mem_filter,List.mem_map,List.forall₂_cons_right_iff]
    constructor
    · intro chosen
      obtain ⟨head,⟨choice,unused⟩,tail,present,rfl⟩ := chosen
      obtain ⟨fits,apart,fresh⟩ := ih.mp present
      have new : head ∉ used := by simpa using unused
      refine ⟨⟨head,tail,choice,fits,rfl⟩,?_,?_⟩
      · exact List.nodup_cons.mpr ⟨fun again => fresh head again List.mem_cons_self,apart⟩
      · intro handle member
        rcases List.mem_cons.mp member with rfl | later
        · exact new
        · exact fun earlier => fresh handle later (List.mem_cons_of_mem _ earlier)
    · intro shape
      obtain ⟨⟨head,tail,choice,fits,rfl⟩,apart,fresh⟩ := shape
      obtain ⟨once,tailApart⟩ := List.nodup_cons.mp apart
      refine ⟨head,⟨choice,by simpa using fresh head List.mem_cons_self⟩,tail,ih.mpr ⟨fits,tailApart,?_⟩,rfl⟩
      intro handle member
      rw [List.mem_cons,not_or]
      exact ⟨fun equal => once (equal ▸ member),fresh handle (List.mem_cons_of_mem _ member)⟩

def FromMemories (alpha : Map String (Members Handle)) (patterns : List String) (handles : List Handle) : Prop :=
  List.Forall₂ (fun handle pattern => handle ∈ memory alpha pattern) handles patterns

section Pinned
variable {alpha : Map String (Members Handle)} {patterns : List String} {kind : String} {handle : Handle}
  {handles : List Handle} {position : Nat}

theorem slots_length (position : Nat) : (slots alpha patterns position handle).length = patterns.length := by
  simp [slots]

-- One handle for each pattern and no handle twice: this one at its position, and
-- others, out of the memories of their patterns, at all other positions.
structure Pins (alpha : Map String (Members Handle)) (patterns : List String) (position : Nat) (handle : Handle)
    (handles : List Handle) : Prop where
  length : handles.length = patterns.length
  pinned : handles[position]? = some handle
  others {index : Nat} {other : Handle} {pattern : String} : index ≠ position → handles[index]? = some other →
    patterns[index]? = some pattern → other ≠ handle ∧ other ∈ memory alpha pattern
  distinct : handles.Nodup

theorem forall₂_getElem? {α β : Type} {related : α → β → Prop} {left : List α} {right : List β} :
    List.Forall₂ related left right ↔ left.length = right.length ∧
      ∀ (index : Nat) (a : α) (b : β), left[index]? = some a → right[index]? = some b → related a b := by
  rw [List.forall₂_iff_get]
  refine and_congr_right fun _ => ⟨fun each index a b first second => ?_,fun each index here there => ?_⟩
  · obtain ⟨here,rfl⟩ := List.getElem?_eq_some_iff.mp first
    obtain ⟨there,rfl⟩ := List.getElem?_eq_some_iff.mp second
    exact each index here there
  · exact each index _ _ (List.getElem?_eq_getElem here) (List.getElem?_eq_getElem there)

theorem slots_getElem? (index : Nat) : (slots alpha patterns position handle)[index]? =
    patterns[index]?.map fun pattern => if index = position then [handle] else (memory alpha pattern).filter (· != handle) := by
  simp [slots,List.getElem?_zipIdx,Function.comp_def]

theorem mem_tuplesWith (inside : position < patterns.length) :
    handles ∈ tuplesWith alpha patterns position handle ↔ Pins alpha patterns position handle handles := by
  rw [tuplesWith,mem_choices,forall₂_getElem?,slots_length]
  constructor
  · intro chosen
    obtain ⟨⟨length,each⟩,distinct,_⟩ := chosen
    have place {index : Nat} {other : Handle} {pattern : String} (stands : handles[index]? = some other)
        (fits : patterns[index]? = some pattern) :
        other ∈ if index = position then [handle] else (memory alpha pattern).filter (· != handle) :=
      each index other _ stands (by rw [slots_getElem?,fits]; rfl)
    refine ⟨length,?_,fun {index other pattern} apart stands fits => ?_,distinct⟩
    · have here : position < handles.length := length ▸ inside
      have choice := place (List.getElem?_eq_getElem here) (List.getElem?_eq_getElem inside)
      rw [if_pos rfl,List.mem_singleton] at choice
      rw [List.getElem?_eq_getElem here,choice]
    · have choice := place stands fits
      rw [if_neg apart,List.mem_filter,bne_iff_ne] at choice
      exact choice.symm
  · intro pins
    refine ⟨⟨pins.length,fun index other slot stands offered => ?_⟩,pins.distinct,fun _ _ => List.not_mem_nil⟩
    rw [slots_getElem?] at offered
    obtain ⟨pattern,fits,rfl⟩ := Option.map_eq_some_iff.mp offered
    by_cases same : index = position
    · subst same
      rw [if_pos rfl,List.mem_singleton]
      exact Option.some.inj (stands.symm.trans pins.pinned)
    · rw [if_neg same,List.mem_filter,bne_iff_ne]
      exact (pins.others same stands fits).symm

-- The fact is of its kind, and of other facts the memories know what they fit.
def Suits (alpha : Map String (Members Handle)) (kind : String) (handle : Handle) (patterns : List String)
    (handles : List Handle) : Prop :=
  List.Forall₂ (fun other pattern => if other = handle then pattern = kind else other ∈ memory alpha pattern) handles patterns

theorem Pins.suits (pins : Pins alpha patterns position handle handles) (kept : patterns[position]? = some kind) :
    handle ∈ handles ∧ Suits alpha kind handle patterns handles := by
  refine ⟨List.mem_of_getElem? pins.pinned,forall₂_getElem?.mpr ⟨pins.length,fun index other pattern stands fits => ?_⟩⟩
  by_cases same : index = position
  · subst same
    rw [if_pos (Option.some.inj (stands.symm.trans pins.pinned))]
    exact Option.some.inj (fits.symm.trans kept)
  · obtain ⟨differs,known⟩ := pins.others same stands fits
    rw [if_neg differs]
    exact known

theorem Suits.pins (suits : Suits alpha kind handle patterns handles) (distinct : handles.Nodup) (occurs : handle ∈ handles) :
    ∃ position, patterns[position]? = some kind ∧ Pins alpha patterns position handle handles := by
  obtain ⟨length,each⟩ := forall₂_getElem?.mp suits
  obtain ⟨position,here,stands⟩ := List.mem_iff_getElem.mp occurs
  have inside : position < patterns.length := length ▸ here
  have pinned : handles[position]? = some handle := List.getElem?_eq_some_iff.mpr ⟨here,stands⟩
  have own := each position _ _ pinned (List.getElem?_eq_getElem inside)
  rw [if_pos rfl] at own
  refine ⟨position,by rw [List.getElem?_eq_getElem inside,own],length,pinned,fun {index other pattern} apart there fits => ?_,distinct⟩
  have differs : other ≠ handle := by
    intro same
    subst same
    exact apart (((List.getElem?_inj (List.getElem?_eq_some_iff.mp there).1 distinct).mp (there.trans pinned.symm)))
  have known := each index other pattern there fits
  rw [if_neg differs] at known
  exact ⟨differs,known⟩

theorem suits_fromMemories (own : ∀ pattern, handle ∈ memory alpha pattern ↔ pattern = kind) :
    Suits alpha kind handle patterns handles ↔ FromMemories alpha patterns handles := by
  have same : (fun other pattern => if other = handle then pattern = kind else other ∈ memory alpha pattern) =
      fun other pattern => other ∈ memory alpha pattern := by
    funext other pattern
    split
    · next here => rw [here,own]
    · rfl
  rw [Suits,same,FromMemories]

theorem mem_offered {rules : List Rule} {rule : Rule} : (rule,handles) ∈ candidates rules alpha kind handle ↔
    rule ∈ rules ∧ ∃ position, rule.patterns[position]? = some kind ∧ handles ∈ tuplesWith alpha rule.patterns position handle := by
  simp only [candidates,List.mem_flatMap,Prod.exists]
  constructor
  · intro candidate
    obtain ⟨other,known,pattern,position,pinned,choice⟩ := candidate
    split at choice
    · next same =>
      obtain ⟨chosen,member,equal⟩ := List.mem_map.mp choice
      cases equal
      exact ⟨known,position,same ▸ List.mk_mem_zipIdx_iff_getElem?.mp pinned,member⟩
    · cases choice
  · intro candidate
    obtain ⟨known,position,pinned,chosen⟩ := candidate
    refine ⟨rule,known,kind,position,List.mk_mem_zipIdx_iff_getElem?.mpr pinned,?_⟩
    rw [if_pos rfl]
    exact List.mem_map.mpr ⟨handles,chosen,rfl⟩

theorem offered_iff : (∃ position, patterns[position]? = some kind ∧ handles ∈ tuplesWith alpha patterns position handle) ↔
    handle ∈ handles ∧ handles.Nodup ∧ Suits alpha kind handle patterns handles := by
  constructor
  · intro offered
    obtain ⟨position,pinned,chosen⟩ := offered
    have pins := (mem_tuplesWith (List.getElem?_eq_some_iff.mp pinned).1).mp chosen
    obtain ⟨occurs,suits⟩ := pins.suits pinned
    exact ⟨occurs,pins.distinct,suits⟩
  · intro offered
    obtain ⟨occurs,distinct,suits⟩ := offered
    obtain ⟨position,pinned,pins⟩ := suits.pins distinct occurs
    exact ⟨position,pinned,(mem_tuplesWith (List.getElem?_eq_some_iff.mp pinned).1).mpr pins⟩

theorem mem_candidates {rules : List Rule} {rule : Rule}
    (own : ∀ pattern, handle ∈ memory alpha pattern ↔ pattern = kind) :
    (rule,handles) ∈ candidates rules alpha kind handle ↔
      rule ∈ rules ∧ handle ∈ handles ∧ handles.Nodup ∧ FromMemories alpha rule.patterns handles := by
  rw [mem_offered,offered_iff,suits_fromMemories own]

end Pinned
end DurableRules
