import DurableRules.Proofs.Engine.Schedule

namespace DurableRules

theorem mem_memory {alpha : Map String (Members Handle)} {kind : String} {handle : Handle} :
    handle ∈ memory alpha kind ↔ ∃ handles, alpha.get? kind = some handles ∧ handle ∈ handles.toList := by
  unfold memory
  cases alpha.get? kind with
  | none => simp
  | some handles => simp

def Inhabited (alpha : Map String (Members Handle)) : Prop :=
  ∀ kind handles, alpha.get? kind = some handles → handles.toList ≠ []

namespace Engine

section Forget
variable {alpha : Map String (Members Handle)} {kind : String} {handle : Handle}

theorem forget_get? (other : String) : (forget alpha kind handle).get? other =
    if other = kind then (alpha.get? kind).bind fun handles =>
      if (handles.erase handle).isEmpty then none else some (handles.erase handle)
    else alpha.get? other := by
  unfold forget
  cases held : alpha.get? kind with
  | none =>
    by_cases same : other = kind <;> simp [same,held]
  | some handles =>
    by_cases none : (handles.erase handle).isEmpty = true
    · simp only [if_pos none,Map.get?_erase,Option.bind_some]
    · simp only [if_neg none,Map.get?_put,Option.bind_some]

theorem mem_memory_forget {other : String} {x : Handle} :
    x ∈ memory (forget alpha kind handle) other ↔ x ∈ memory alpha other ∧ ¬(other = kind ∧ x = handle) := by
  rw [mem_memory,mem_memory,forget_get?]
  by_cases same : other = kind
  · subst same
    rw [if_pos rfl]
    cases held : alpha.get? other with
    | none => simp
    | some handles =>
      have left : x ∈ Members.toList (handles.erase handle) ↔ x ≠ handle ∧ x ∈ handles.toList := Members.mem_erase
      have present : x ∈ Members.toList (handles.erase handle) → (handles.erase handle).isEmpty = false := by
        intro member
        obtain ⟨row,inRows,_⟩ := List.mem_map.mp member
        exact List.isEmpty_eq_false_iff.mpr (List.ne_nil_of_mem inRows)
      simp only [Option.bind_some,Option.some.injEq,exists_eq_left',true_and]
      constructor
      · intro remains
        obtain ⟨rest,kept,member⟩ := remains
        split at kept
        · cases kept
        · cases kept
          exact ⟨(left.mp member).2,(left.mp member).1⟩
      · intro remains
        obtain ⟨member,apart⟩ := remains
        have stays := left.mpr ⟨apart,member⟩
        exact ⟨_,if_neg (by simp [present stays]),stays⟩
  · simp [same]

theorem inhabited_forget (inhabited : Inhabited alpha) : Inhabited (forget alpha kind handle) := by
  intro other handles found
  rw [forget_get?] at found
  split at found
  · obtain ⟨before,_,kept⟩ := Option.bind_eq_some_iff.mp found
    split at kept
    · cases kept
    · next more =>
      cases kept
      intro nothing
      exact more (List.isEmpty_iff.mpr (List.map_eq_nil_iff.mp nothing))
  · exact inhabited other handles found

end Forget

-- A pending activation names a rule of the program and live facts at their
-- current versions, and it has not fired.
structure Genuine (e : Engine) (a : Activation) : Prop where
  known : (e.program.rule? a.rule).isSome = true
  current : ∀ i ∈ a.tuple, e.roster.versions.get? i.handle = some i.version
  facts : ∀ i ∈ a.tuple, (e.facts.get? i.handle).isSome = true
  unfired : e.roster.hasFired a = false

-- What holds at any moment, also while one fact is out of the network.
structure Aligned (e : Engine) : Prop where
  indexed : e.Indexed
  inhabited : Inhabited e.network.alpha
  orderly : e.Orderly
  genuine : ∀ a ∈ e.pending, e.Genuine a

-- Nothing is missed and nothing else is pending.
def Exact (e : Engine) : Prop := ∀ a, a ∈ e.pending ↔ e.Satisfied a ∧ e.roster.hasFired a = false

theorem involves_iff {a : Activation} {handle : Handle} :
    a.involves handle = true ↔ handle ∈ a.tuple.map Identity.handle := by
  simp [Activation.involves]

theorem Fits.fact_of_handle (fits : Fits e rule tuple found) (present : handle ∈ tuple.map Identity.handle) :
    ∃ fact, (handle,fact) ∈ found := by
  rw [← fits.handles] at present
  obtain ⟨row,member,rfl⟩ := List.mem_map.mp present
  exact ⟨row.2,member⟩

theorem Satisfied.fact (satisfied : Satisfied e a) (present : a.involves handle = true) :
    ∃ fact, e.facts.get? handle = some fact := by
  obtain ⟨_,_,_,_,fits⟩ := satisfied
  obtain ⟨fact,member⟩ := fits.fact_of_handle (involves_iff.mp present)
  exact ⟨fact,fits.facts _ member⟩

theorem rule?_isSome {program : Program} {rule : Rule} (known : rule ∈ program.rules) :
    (program.rule? rule.name).isSome = true :=
  List.find?_isSome.mpr ⟨rule,known,beq_self_eq_true _⟩

theorem Satisfied.genuine (satisfied : Satisfied e a) (unfired : e.roster.hasFired a = false) : e.Genuine a := by
  obtain ⟨rule,known,named,found,fits⟩ := satisfied
  refine ⟨named ▸ rule?_isSome known,fits.current,fun i member => ?_,unfired⟩
  obtain ⟨fact,present⟩ := fits.fact_of_handle (List.mem_map_of_mem member)
  exact Option.isSome_of_mem (fits.facts _ present)

-- Whether a tuple is matched depends on its own facts and versions only.
theorem Satisfied.congr (satisfied : Satisfied one a) (program : one.program = two.program)
    (versions : ∀ handle, a.involves handle = true →
      one.roster.versions.get? handle = two.roster.versions.get? handle)
    (facts : ∀ handle, a.involves handle = true → one.facts.get? handle = two.facts.get? handle) :
    Satisfied two a := by
  obtain ⟨rule,known,named,found,fits⟩ := satisfied
  refine ⟨rule,program ▸ known,named,found,fits.patterned,?_,fits.handles,?_,fits.kinds,fits.apart,fits.condition⟩
  · intro i member
    rw [← versions i.handle (involves_iff.mpr (List.mem_map_of_mem member))]
    exact fits.current i member
  · intro row member
    have inside : row.1 ∈ a.tuple.map Identity.handle := fits.handles ▸ List.mem_map_of_mem member
    rw [← facts row.1 (involves_iff.mpr inside)]
    exact fits.facts row member

theorem mapM_identity {roster : Roster} {handles : List Handle} {tuple : List Identity} :
    handles.mapM roster.identity = some tuple ↔
      tuple.map Identity.handle = handles ∧ ∀ i ∈ tuple, roster.versions.get? i.handle = some i.version := by
  induction handles generalizing tuple with
  | nil =>
    rw [List.mapM_nil,List.map_eq_nil_iff]
    exact ⟨fun equal => by cases equal; simp,fun ⟨empty,_⟩ => empty ▸ rfl⟩
  | cons head rest ih =>
    simp only [List.mapM_cons,Option.bind_eq_bind,Option.bind_eq_some_iff,Option.pure_def,Option.some.injEq,
      Roster.identity,Option.map_eq_some_iff]
    constructor
    · intro identified
      obtain ⟨_,⟨version,found,rfl⟩,tail,later,rfl⟩ := identified
      obtain ⟨handles,current⟩ := ih.mp later
      refine ⟨by rw [List.map_cons,handles],fun i member => ?_⟩
      rcases List.mem_cons.mp member with rfl | inTail
      · exact found
      · exact current i inTail
    · intro identified
      obtain ⟨handles,current⟩ := identified
      obtain ⟨i,tail,rfl,rfl,rfl⟩ := List.map_eq_cons_iff.mp handles
      exact ⟨i,⟨i.version,current i List.mem_cons_self,rfl⟩,tail,
        ih.mpr ⟨rfl,fun j member => current j (List.mem_cons_of_mem _ member)⟩,rfl⟩

theorem matched_eq {e : Engine} {found : Match} (facts : ∀ row ∈ found, e.facts.get? row.1 = some row.2) :
    e.matched (found.map Prod.fst) = found := by
  unfold matched
  induction found with
  | nil => rfl
  | cons row rest ih =>
    have first : (e.facts.get? row.1).map (row.1,·) = some row := by rw [facts row List.mem_cons_self]; rfl
    have later := ih fun row member => facts row (List.mem_cons_of_mem _ member)
    simp only [List.map_cons,List.filterMap_cons,first,later]

theorem found_of_fromMemories (indexed : Indexed e) (whole : FromMemories e.network.alpha patterns handles) :
    ∃ found : Match, found.map Prod.fst = handles ∧ found.map (·.2.kind) = patterns ∧
      ∀ row ∈ found, e.facts.get? row.1 = some row.2 := by
  induction whole with
  | nil => exact ⟨[],rfl,rfl,by simp⟩
  | @cons handle pattern _ _ present _ ih =>
    obtain ⟨found,handles,kinds,facts⟩ := ih
    obtain ⟨fact,known,kind⟩ := (indexed pattern handle).mp present
    refine ⟨(handle,fact) :: found,by rw [List.map_cons,handles],by rw [List.map_cons,kinds,kind],?_⟩
    intro row member
    rcases List.mem_cons.mp member with rfl | later
    · exact known
    · exact facts row later

theorem fromMemories_of_found (indexed : Indexed e) {found : Match}
    (facts : ∀ row ∈ found, e.facts.get? row.1 = some row.2) :
    FromMemories e.network.alpha (found.map (·.2.kind)) (found.map Prod.fst) := by
  refine List.forall₂_map_left_iff.mpr (List.forall₂_map_right_iff.mpr (List.forall₂_same.mpr fun row member => ?_))
  exact (indexed _ _).mpr ⟨row.2,facts row member,rfl⟩

theorem mem_offers (indexed : Indexed e) (known : e.facts.get? handle = some fact) {a : Activation} :
    a ∈ (candidates e.program.rules e.network.alpha fact.kind handle).filterMap e.offer ↔
      e.Satisfied a ∧ a.involves handle = true := by
  have own (pattern : String) : handle ∈ memory e.network.alpha pattern ↔ pattern = fact.kind := by
    rw [indexed,known]
    simp [eq_comm]
  rw [List.mem_filterMap,Prod.exists]
  constructor
  · intro offering
    obtain ⟨rule,handles,candidate,offered⟩ := offering
    obtain ⟨inProgram,present,apart,whole⟩ := (mem_candidates own).mp candidate
    obtain ⟨found,foundHandles,kinds,facts⟩ := found_of_fromMemories indexed whole
    unfold offer at offered
    cases identities : handles.mapM e.roster.identity with
    | none => simp [identities] at offered
    | some tuple =>
      obtain ⟨tupleHandles,current⟩ := mapM_identity.mp identities
      simp only [identities,Option.ite_none_right_eq_some,Option.some.injEq] at offered
      obtain ⟨holds,rfl⟩ := offered
      rw [← foundHandles,matched_eq facts] at holds
      refine ⟨⟨rule,inProgram,rfl,found,?_,current,foundHandles.trans tupleHandles.symm,facts,kinds,?_,holds⟩,?_⟩
      · intro empty
        rw [FromMemories,empty,List.forall₂_nil_right_iff] at whole
        rw [whole] at present
        cases present
      · rwa [tupleHandles]
      · exact involves_iff.mpr (tupleHandles.symm ▸ present)
  · intro satisfied
    obtain ⟨⟨rule,inProgram,named,found,fits⟩,present⟩ := satisfied
    refine ⟨rule,a.tuple.map Identity.handle,(mem_candidates own).mpr ⟨inProgram,involves_iff.mp present,fits.apart,?_⟩,?_⟩
    · rw [← fits.handles,← fits.kinds]
      exact fromMemories_of_found indexed fits.facts
    · have identities : (a.tuple.map Identity.handle).mapM e.roster.identity = some a.tuple :=
        mapM_identity.mpr ⟨rfl,fits.current⟩
      have facts : e.matched (a.tuple.map Identity.handle) = found := fits.handles ▸ matched_eq fits.facts
      simp [offer,identities,facts,fits.condition,named]

theorem propagate_spec (indexed : Indexed e) (orderly : Orderly e) (known : e.facts.get? handle = some fact) :
    SameFacts (e.propagate handle) e ∧ Orderly (e.propagate handle) ∧
      ∀ a, a ∈ (e.propagate handle).pending ↔ a ∈ e.pending ∨
        ((e.Satisfied a ∧ a.involves handle = true) ∧ e.roster.hasFired a = false) := by
  have folds : e.propagate handle =
      ((candidates e.program.rules e.network.alpha fact.kind handle).filterMap e.offer).foldl schedule e := by
    simp only [propagate,known]
    exact foldl_consider e _
  rw [folds]
  obtain ⟨after,members⟩ := foldl_schedule orderly
    ((candidates e.program.rules e.network.alpha fact.kind handle).filterMap e.offer)
  exact ⟨foldl_schedule_facts e _,after,fun a => by rw [members,mem_offers indexed known]⟩

end Engine
end DurableRules
