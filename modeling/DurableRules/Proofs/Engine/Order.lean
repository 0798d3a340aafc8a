import DurableRules.Proofs.Engine.Change
import Mathlib.Data.List.Lex
import Mathlib.Data.List.Sort
import Mathlib.Data.Prod.Lex

namespace DurableRules

def Activation.handles (a : Activation) : List Handle := a.tuple.map Identity.handle

theorem handles_sorted (handles : Members Handle) : handles.toList.Pairwise (· < ·) :=
  List.pairwise_map.mpr (handles.ascending.imp fun less => Nat.compare_eq_lt.mp less)

section Tuples
variable {alpha : Map String (Members Handle)} {patterns : List String} {position : Nat} {handle : Handle}
  {handles : List Handle}

theorem memory_sorted (kind : String) : (memory alpha kind).Pairwise (· < ·) := by
  unfold memory
  split
  · exact handles_sorted _
  · exact .nil

theorem slots_sorted : ∀ slot ∈ slots alpha patterns position handle, slot.Pairwise (· < ·) := by
  intro slot present
  obtain ⟨place,_,rfl⟩ := List.mem_map.mp present
  dsimp only
  split
  · exact List.pairwise_singleton _ _
  · exact (memory_sorted _).filter _

theorem choices_sorted {used : List Handle} {slots : List (List Handle)}
    (each : ∀ slot ∈ slots, slot.Pairwise (· < ·)) : (choices used slots).Pairwise (· < ·) := by
  induction slots generalizing used with
  | nil => exact List.pairwise_singleton _ _
  | cons slot rest ih =>
    have first := each slot List.mem_cons_self
    have later (used : List Handle) := @ih used fun other present => each other (List.mem_cons_of_mem _ present)
    refine List.pairwise_flatMap.mpr ⟨fun head _ => ?_,(first.filter _).imp fun less one left two right => ?_⟩
    · exact List.pairwise_map.mpr ((later _).imp fun less => List.cons_lt_cons_iff.mpr (.inr ⟨rfl,less⟩))
    · obtain ⟨_,_,rfl⟩ := List.mem_map.mp left
      obtain ⟨_,_,rfl⟩ := List.mem_map.mp right
      exact List.cons_lt_cons_iff.mpr (.inl less)

theorem idxOf_pinned (apart : handles.Nodup) (stands : handles[position]? = some handle) :
    handles.idxOf handle = position := by
  obtain ⟨bound,rfl⟩ := List.getElem?_eq_some_iff.mp stands
  exact apart.idxOf_getElem position bound

theorem tuplesWith_pinned (inside : position < patterns.length)
    (chosen : handles ∈ tuplesWith alpha patterns position handle) : handles.idxOf handle = position := by
  have pins := (mem_tuplesWith inside).mp chosen
  exact idxOf_pinned pins.distinct pins.pinned

end Tuples

-- Where a tuple stands among those that are offered for the handle: by its
-- rule, by the position the handle takes and then by all of its handles.
def rank (names : List String) (handle : Handle) (rule : String) (handles : List Handle) : ℕ ×ₗ ℕ ×ₗ List ℕ :=
  toLex (names.idxOf rule,toLex (handles.idxOf handle,handles))

def Activation.rank (names : List String) (handle : Handle) (a : Activation) : ℕ ×ₗ ℕ ×ₗ List ℕ :=
  DurableRules.rank names handle a.rule a.handles

section Arranged
variable {names : List String} {handle : Handle}

theorem rank_lt {one two : String} {left right : List Handle} : rank names handle one left < rank names handle two right ↔
    names.idxOf one < names.idxOf two ∨ names.idxOf one = names.idxOf two ∧
      (left.idxOf handle < right.idxOf handle ∨ left.idxOf handle = right.idxOf handle ∧ left < right) := by
  simp [rank,Prod.Lex.toLex_lt_toLex]

theorem zipIdx_sorted (patterns : List String) : patterns.zipIdx.Pairwise fun one two => one.2 < two.2 := by
  refine List.pairwise_iff_getElem.mpr fun i j _ _ less => ?_
  simpa using less

theorem names_sorted {rules : List Rule} (distinct : (rules.map Rule.name).Nodup) : rules.Pairwise fun one two =>
    (rules.map Rule.name).idxOf one.name < (rules.map Rule.name).idxOf two.name := by
  refine List.pairwise_iff_getElem.mpr fun i j left right less => ?_
  have place (k : Nat) (bound : k < rules.length) : (rules.map Rule.name).idxOf rules[k].name = k := by
    have found := distinct.idxOf_getElem k (by simpa using bound)
    simpa using found
  rwa [place i left,place j right]

theorem arranged_sorted {β : Type} {rules : List Rule} (distinct : (rules.map Rule.name).Nodup)
    {list : Rule → String × Nat → List β} (rule : β → String) (handles : β → List Handle)
    (own : ∀ r ∈ rules, ∀ place ∈ r.patterns.zipIdx, ∀ item ∈ list r place,
      rule item = r.name ∧ (handles item).idxOf handle = place.2)
    (each : ∀ r ∈ rules, ∀ place ∈ r.patterns.zipIdx, (list r place).Pairwise fun one two => handles one < handles two) :
    (rules.flatMap fun r => r.patterns.zipIdx.flatMap (list r)).Pairwise fun one two =>
      rank (rules.map Rule.name) handle (rule one) (handles one) < rank (rules.map Rule.name) handle (rule two) (handles two) := by
  refine List.pairwise_flatMap.mpr ⟨fun r known => List.pairwise_flatMap.mpr ⟨fun place pinned => ?_,?_⟩,?_⟩
  · -- One rule and one position: the handles decide.
    refine (each r known place pinned).imp_of_mem fun {one two} left right less => rank_lt.mpr (.inr ⟨?_,.inr ⟨?_,less⟩⟩)
    · rw [(own r known place pinned one left).1,(own r known place pinned two right).1]
    · rw [(own r known place pinned one left).2,(own r known place pinned two right).2]
  · refine (zipIdx_sorted r.patterns).imp_of_mem fun {here there} first second less one left two right => ?_
    obtain ⟨named,stands⟩ := own r known here first one left
    obtain ⟨also,later⟩ := own r known there second two right
    refine rank_lt.mpr (.inr ⟨by rw [named,also],.inl ?_⟩)
    rwa [stands,later]
  · refine (names_sorted distinct).imp_of_mem fun {r s} first second less one left two right => rank_lt.mpr (.inl ?_)
    obtain ⟨here,pinned,inside⟩ := List.mem_flatMap.mp left
    obtain ⟨there,also,within⟩ := List.mem_flatMap.mp right
    rwa [(own r first here pinned one inside).1,(own s second there also two within).1]

end Arranged

namespace Engine
variable {e : Engine} {handle : Handle} {fact : Fact} {a : Activation}

def offers (e : Engine) (handle : Handle) (fact : Fact) : List Activation :=
  (candidates e.program.rules e.network.alpha fact.kind handle).filterMap e.offer

theorem offer_some {candidate : Rule × List Handle} (offered : e.offer candidate = some a) :
    a.rule = candidate.1.name ∧ a.handles = candidate.2 := by
  unfold offer at offered
  cases identities : candidate.2.mapM e.roster.identity with
  | none => simp [identities] at offered
  | some tuple =>
    simp only [identities,Option.ite_none_right_eq_some,Option.some.injEq] at offered
    obtain ⟨_,rfl⟩ := offered
    exact ⟨rfl,(mapM_identity.mp identities).1⟩

theorem offers_sorted (e : Engine) (handle : Handle) (fact : Fact) : (e.offers handle fact).Pairwise fun one two =>
    one.rank e.program.names handle < two.rank e.program.names handle := by
  have candidates : (candidates e.program.rules e.network.alpha fact.kind handle).Pairwise fun one two =>
      rank e.program.names handle one.1.name one.2 < rank e.program.names handle two.1.name two.2 := by
    apply arranged_sorted e.program.distinct (fun candidate : Rule × List Handle => candidate.1.name) Prod.snd
    · intro rule known place pinned candidate inside
      obtain ⟨pattern,position⟩ := place
      have bound : position < rule.patterns.length := by simpa using List.snd_lt_of_mem_zipIdx pinned
      dsimp only at inside
      split at inside
      · obtain ⟨handles,chosen,rfl⟩ := List.mem_map.mp inside
        exact ⟨rfl,tuplesWith_pinned bound chosen⟩
      · cases inside
    · intro rule known place pinned
      dsimp only
      split
      · exact List.pairwise_map.mpr (choices_sorted slots_sorted)
      · exact .nil
  refine candidates.filterMap e.offer fun one two less a first b second => ?_
  obtain ⟨rule,handles⟩ := offer_some first
  obtain ⟨other,others⟩ := offer_some second
  rw [Activation.rank,Activation.rank,rule,handles,other,others]
  exact less

theorem offers_once (e : Engine) (handle : Handle) (fact : Fact) : (e.offers handle fact).Nodup :=
  (offers_sorted e handle fact).nodup

theorem foldl_schedule_pending (orderly : Orderly e) {list : List Activation} (once : list.Nodup)
    (new : ∀ a ∈ list, a ∉ e.pending) :
    (list.foldl schedule e).pending = e.pending ++ list.filter fun a => !e.roster.hasFired a := by
  induction list generalizing e with
  | nil => simp
  | cons a rest ih =>
    obtain ⟨apart,later⟩ := List.nodup_cons.mp once
    rcases schedule_cases orderly a with ⟨same,known⟩ | ⟨next,_,unfired⟩
    · have fired : e.roster.hasFired a = true := known.resolve_left (new a List.mem_cons_self)
      rw [List.foldl_cons,same,ih orderly later fun b present => new b (List.mem_cons_of_mem _ present)]
      simp [fired]
    · have still : ∀ b ∈ rest, b ∉ (e.schedule a).pending := by
        intro b present
        rw [next,pending_enqueue orderly,List.mem_append,List.mem_singleton]
        rintro (old | rfl)
        · exact new b (List.mem_cons_of_mem _ present) old
        · exact apart present
      rw [List.foldl_cons,ih (orderly.schedule a) later still,(schedule_facts e a).roster,next,pending_enqueue orderly]
      simp [unfired]

theorem Aligned.uninvolved (aligned : Aligned e) (out : e.facts.get? handle = none) (present : a ∈ e.pending) :
    a.involves handle = false := by
  rw [Bool.eq_false_iff]
  intro inside
  obtain ⟨i,member,same⟩ := List.mem_map.mp (involves_iff.mp inside)
  have held := (aligned.genuine a present).facts i member
  rw [same,out] at held
  cases held

theorem enter_folds (e : Engine) (handle : Handle) (fact : Fact) : e.enter handle fact =
    ((e.attach handle fact).offers handle fact).foldl schedule (e.attach handle fact) := by
  have known : (e.attach handle fact).facts.get? handle = some fact := Map.get?_put_self _ _ _
  simp only [enter,propagate,known]
  exact foldl_consider _ _

theorem enter_pending (aligned : Aligned e) (out : e.facts.get? handle = none) (fact : Fact) :
    (e.enter handle fact).pending =
      e.pending ++ ((e.attach handle fact).offers handle fact).filter fun a => !e.roster.hasFired a := by
  have known : (e.attach handle fact).facts.get? handle = some fact := Map.get?_put_self _ _ _
  have indexed := attach_indexed aligned.indexed out fact
  rw [enter_folds]
  refine foldl_schedule_pending (attach_orderly aligned.orderly handle fact) (offers_once _ handle fact) fun a offered => ?_
  have inside := ((mem_offers indexed known).mp offered).2
  intro before
  rw [aligned.uninvolved out before] at inside
  cases inside

end Engine
end DurableRules
