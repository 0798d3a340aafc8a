import DurableRules.Engine.Operation
import DurableRules.Proofs.Engine.Matching
import DurableRules.Proofs.Ordered.Walk

namespace DurableRules.Engine

-- The facts a rule matches under a tuple: each identity is the current one of
-- a live fact, the kinds are those of the patterns in order, no fact stands
-- twice and the condition holds.
structure Fits (e : Engine) (rule : Rule) (tuple : List Identity) (found : Match) : Prop where
  patterned : rule.patterns ≠ []
  current : ∀ i ∈ tuple, e.roster.versions.get? i.handle = some i.version
  handles : found.map Prod.fst = tuple.map Identity.handle
  facts : ∀ row ∈ found, e.facts.get? row.1 = some row.2
  kinds : found.map (·.2.kind) = rule.patterns
  apart : (tuple.map Identity.handle).Nodup
  condition : rule.condition found = true

def Satisfied (e : Engine) (a : Activation) : Prop :=
  ∃ rule ∈ e.program.rules, rule.name = a.rule ∧ ∃ found, e.Fits rule a.tuple found

def Indexed (e : Engine) : Prop :=
  ∀ kind handle, handle ∈ memory e.network.alpha kind ↔ ∃ fact, e.facts.get? handle = some fact ∧ fact.kind = kind

-- The agenda and the set of what is pending say the same, and the next
-- sequence is above all that were handed out.
structure Orderly (e : Engine) : Prop where
  queued : ∀ a, e.queued.contains a = true ↔ a ∈ e.pending
  once : e.pending.Nodup
  early : ∀ sequence a, e.network.agenda.get? sequence = some a → sequence < e.network.nextSequence

def offer (e : Engine) (candidate : Rule × List Handle) : Option Activation :=
  match candidate.2.mapM e.roster.identity with
  | none => none
  | some tuple =>
    if candidate.1.condition (e.matched candidate.2) then some ⟨candidate.1.name,tuple⟩ else none

def schedule (e : Engine) (a : Activation) : Engine :=
  if e.queued.contains a || e.roster.hasFired a then e else e.enqueue a

theorem consider_eq (e : Engine) (candidate : Rule × List Handle) :
    e.consider candidate = ((e.offer candidate).map e.schedule).getD e := by
  unfold consider due offer schedule
  cases candidate.2.mapM e.roster.identity with
  | none => rfl
  | some tuple =>
    dsimp only
    cases known : e.queued.contains ⟨candidate.1.name,tuple⟩ || e.roster.hasFired ⟨candidate.1.name,tuple⟩ <;>
      cases candidate.1.condition (e.matched candidate.2) <;> simp_all

structure SameFacts (one two : Engine) : Prop where
  program : one.program = two.program
  facts : one.facts = two.facts
  roster : one.roster = two.roster
  alpha : one.network.alpha = two.network.alpha
  globals : one.globals = two.globals

theorem SameFacts.refl (e : Engine) : SameFacts e e := ⟨rfl,rfl,rfl,rfl,rfl⟩
theorem SameFacts.trans (left : SameFacts a b) (right : SameFacts b c) : SameFacts a c :=
  ⟨left.program.trans right.program,left.facts.trans right.facts,left.roster.trans right.roster,
    left.alpha.trans right.alpha,left.globals.trans right.globals⟩

theorem schedule_facts (e : Engine) (a : Activation) : SameFacts (e.schedule a) e := by
  unfold schedule
  split
  · exact .refl e
  · exact ⟨rfl,rfl,rfl,rfl,rfl⟩

theorem offer_facts (same : SameFacts one two) : one.offer = two.offer := by
  funext candidate
  unfold offer matched
  rw [same.roster,same.facts]

theorem foldl_consider (e : Engine) (list : List (Rule × List Handle)) :
    list.foldl consider e = (list.filterMap e.offer).foldl schedule e := by
  induction list generalizing e with
  | nil => rfl
  | cons head rest ih =>
    rw [List.foldl_cons,consider_eq]
    cases offered : e.offer head with
    | none =>
      rw [List.filterMap_cons_none offered,Option.map_none,Option.getD_none]
      exact ih e
    | some a =>
      rw [List.filterMap_cons_some offered,Option.map_some,Option.getD_some,List.foldl_cons,ih,
        offer_facts (schedule_facts e a)]

theorem foldl_schedule_facts (e : Engine) (list : List Activation) : SameFacts (list.foldl schedule e) e := by
  induction list generalizing e with
  | nil => exact .refl e
  | cons a rest ih => exact (ih (e.schedule a)).trans (schedule_facts e a)

theorem propagate_facts (e : Engine) (handle : Handle) : SameFacts (e.propagate handle) e := by
  unfold propagate
  split
  · exact .refl e
  · rw [foldl_consider]
    exact foldl_schedule_facts e _

theorem Orderly.last (orderly : Orderly e) :
    ∀ row ∈ e.network.agenda.rows, compare row.1 e.network.nextSequence = .lt := fun row present =>
  Nat.compare_eq_lt.mpr (orderly.early row.1 row.2 (Map.get?_eq_some_iff.mpr present))

theorem pending_enqueue (orderly : Orderly e) (a : Activation) : (e.enqueue a).pending = e.pending ++ [a] :=
  Map.values_put_last orderly.last

theorem Orderly.enqueue (orderly : Orderly e) (new : a ∉ e.pending) : Orderly (e.enqueue a) := by
  refine ⟨fun b => ?_,?_,fun sequence b found => ?_⟩
  · rw [pending_enqueue orderly,List.mem_append,List.mem_singleton,Members.contains_iff_mem]
    change b ∈ (e.queued.insert a).toList ↔ _
    rw [Members.mem_insert,← Members.contains_iff_mem,orderly.queued]
    exact or_comm
  · rw [pending_enqueue orderly]
    exact List.nodup_append_comm.mp (List.nodup_cons.mpr ⟨new,orderly.once⟩)
  · have known : (e.network.agenda.put e.network.nextSequence a).get? sequence = some b := found
    change sequence < e.network.nextSequence + 1
    rw [Map.get?_put] at known
    split at known
    · next same => exact same ▸ Nat.lt_succ_self _
    · exact Nat.lt_succ_of_lt (orderly.early sequence b known)

theorem schedule_cases (orderly : Orderly e) (a : Activation) :
    (e.schedule a = e ∧ (a ∈ e.pending ∨ e.roster.hasFired a = true)) ∨
    (e.schedule a = e.enqueue a ∧ a ∉ e.pending ∧ e.roster.hasFired a = false) := by
  unfold schedule
  by_cases known : (e.queued.contains a || e.roster.hasFired a) = true
  · rw [if_pos known]
    rw [Bool.or_eq_true,orderly.queued] at known
    exact .inl ⟨rfl,known⟩
  · rw [if_neg known]
    rw [Bool.or_eq_true,orderly.queued,not_or,Bool.not_eq_true] at known
    exact .inr ⟨rfl,known⟩

theorem Orderly.schedule (orderly : Orderly e) (a : Activation) : Orderly (e.schedule a) := by
  rcases schedule_cases orderly a with ⟨same,_⟩ | ⟨next,new,_⟩
  · rwa [same]
  · rw [next]
    exact orderly.enqueue new

theorem mem_pending_schedule (orderly : Orderly e) (a b : Activation) :
    b ∈ (e.schedule a).pending ↔ b ∈ e.pending ∨ (b = a ∧ e.roster.hasFired b = false) := by
  rcases schedule_cases orderly a with ⟨same,known⟩ | ⟨next,new,unfired⟩
  · rw [same]
    refine ⟨.inl,?_⟩
    intro either
    rcases either with present | ⟨rfl,unfired⟩
    · exact present
    · exact known.resolve_right (by simp [unfired])
  · rw [next,pending_enqueue orderly,List.mem_append,List.mem_singleton]
    refine or_congr_right ⟨?_,And.left⟩
    intro same
    subst same
    exact ⟨rfl,unfired⟩

theorem foldl_schedule (orderly : Orderly e) (list : List Activation) :
    Orderly (list.foldl schedule e) ∧ ∀ a, a ∈ (list.foldl schedule e).pending ↔
      a ∈ e.pending ∨ (a ∈ list ∧ e.roster.hasFired a = false) := by
  induction list generalizing e with
  | nil => exact ⟨orderly,fun a => by simp⟩
  | cons head rest ih =>
    obtain ⟨later,members⟩ := ih (orderly.schedule head)
    refine ⟨later,fun a => ?_⟩
    rw [List.foldl_cons,members,mem_pending_schedule orderly,(schedule_facts e head).roster,List.mem_cons]
    tauto

end DurableRules.Engine
