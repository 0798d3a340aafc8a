import DurableRules.Proofs.Engine.Order

namespace DurableRules

section Growing
variable {used other tuple : List Handle} {partials slots : List (List Handle)}

theorem choices_congr (same : ∀ handle, handle ∈ used ↔ handle ∈ other) (slots : List (List Handle)) :
    choices used slots = choices other slots := by
  induction slots generalizing used other with
  | nil => rfl
  | cons slot rest ih =>
    have unused : (fun handle => !used.contains handle) = fun handle => !other.contains handle := by
      funext handle
      simp [same]
    have later (handle : Handle) : choices (handle :: used) rest = choices (handle :: other) rest :=
      ih fun taken => by simp [same]
    rw [choices,choices,unused]
    simp only [later]

def lengthened (partials : List (List Handle)) (slot : List Handle) : List (List Handle) :=
  partials.flatMap fun tuple => (slot.filter fun handle => !tuple.contains handle).map fun handle => tuple ++ [handle]

def grown (partials : List (List Handle)) : List (List Handle) → List (List Handle)
  | [] => partials
  | slot :: rest =>
    match lengthened partials slot with
    | [] => []
    | next => grown next rest

-- All tuples at once level by level are those of one tuple after the other.
theorem grown_eq (partials slots : List (List Handle)) :
    grown partials slots = partials.flatMap fun tuple => (choices tuple slots).map (tuple ++ ·) := by
  induction slots generalizing partials with
  | nil => simp [grown,choices]
  | cons slot rest ih =>
    have step : (lengthened partials slot).flatMap (fun tuple => (choices tuple rest).map (tuple ++ ·)) =
        partials.flatMap fun tuple => (choices tuple (slot :: rest)).map (tuple ++ ·) := by
      have moved (tuple : List Handle) (handle : Handle) : choices (tuple ++ [handle]) rest = choices (handle :: tuple) rest :=
        choices_congr (fun taken => by simp [or_comm]) rest
      simp [lengthened,choices,List.flatMap_assoc,List.flatMap_map,List.map_flatMap,moved,Function.comp_def]
    rw [grown,← step]
    cases next : lengthened partials slot with
    | nil => rfl
    | cons first others => exact ih (first :: others)

end Growing

section Pinning
variable {alpha : Map String (Members Handle)} {patterns : List String} {handle : Handle} {position one two : Nat}

theorem tuplesWith_disjoint (first : one < patterns.length) (second : two < patterns.length) (apart : one ≠ two) :
    List.Disjoint (tuplesWith alpha patterns one handle) (tuplesWith alpha patterns two handle) := by
  intro handles here there
  have one := tuplesWith_pinned first here
  have two := tuplesWith_pinned second there
  exact apart (one.symm.trans two)

theorem tuplesWith_sorted (position : Nat) : (tuplesWith alpha patterns position handle).Pairwise (· < ·) :=
  choices_sorted slots_sorted

end Pinning

def completions (alpha : Map String (Members Handle)) (rule : Rule) (kind : String) (handle : Handle) : List (List Handle) :=
  (candidates [rule] alpha kind handle).map Prod.snd

section Completing
variable {alpha : Map String (Members Handle)} {rule : Rule} {kind : String} {handle : Handle} {handles : List Handle}

theorem completions_eq (alpha : Map String (Members Handle)) (rule : Rule) (kind : String) (handle : Handle) :
    completions alpha rule kind handle = rule.patterns.zipIdx.flatMap fun place =>
      if place.1 = kind then tuplesWith alpha rule.patterns place.2 handle else [] := by
  simp only [completions,candidates,List.flatMap_cons,List.flatMap_nil,List.append_nil,List.map_flatMap]
  refine List.flatMap_congr fun place _ => ?_
  split
  · simp
  · rfl

theorem mem_completions : handles ∈ completions alpha rule kind handle ↔
    ∃ position, rule.patterns[position]? = some kind ∧ handles ∈ tuplesWith alpha rule.patterns position handle := by
  rw [completions,List.mem_map]
  constructor
  · intro offered
    obtain ⟨⟨same,_⟩,candidate,rfl⟩ := offered
    obtain ⟨known,offered⟩ := mem_offered.mp candidate
    rwa [List.mem_singleton.mp known] at offered
  · intro offered
    exact ⟨(rule,handles),mem_offered.mpr ⟨List.mem_singleton_self _,offered⟩,rfl⟩

theorem completions_once : (completions alpha rule kind handle).Nodup := by
  rw [completions_eq,List.nodup_flatMap]
  constructor
  · intro place _
    split
    · exact (tuplesWith_sorted _).nodup
    · exact List.nodup_nil
  · refine (zipIdx_sorted rule.patterns).imp_of_mem fun {here there} first second less => ?_
    have inside (place : String × Nat) (present : place ∈ rule.patterns.zipIdx) : place.2 < rule.patterns.length := by
      simpa using List.snd_lt_of_mem_zipIdx present
    change List.Disjoint (if _ then _ else _) (if _ then _ else _)
    split
    · split
      · exact tuplesWith_disjoint (inside here first) (inside there second) (Nat.ne_of_lt less)
      · exact List.disjoint_nil_right _
    · exact List.disjoint_nil_left _

-- For each position the loop over the patterns, which leaves off when no tuple
-- is left, lists the tuples with the handle there, in order and each once. Over
-- the positions of its kind they are, each once, the tuples in which it occurs.
theorem join_exact (alpha : Map String (Members Handle)) (rule : Rule) (kind : String) (handle : Handle) :
    (∀ position < rule.patterns.length,
      grown [[]] (slots alpha rule.patterns position handle) = tuplesWith alpha rule.patterns position handle ∧
      (tuplesWith alpha rule.patterns position handle).Pairwise (· < ·) ∧
      (tuplesWith alpha rule.patterns position handle).Nodup ∧
      ∀ handles, handles ∈ tuplesWith alpha rule.patterns position handle ↔ Pins alpha rule.patterns position handle handles) ∧
    (∀ one < rule.patterns.length, ∀ two < rule.patterns.length, one ≠ two →
      List.Disjoint (tuplesWith alpha rule.patterns one handle) (tuplesWith alpha rule.patterns two handle)) ∧
    (completions alpha rule kind handle).Nodup ∧
    (∀ handles, handles ∈ completions alpha rule kind handle ↔
      handle ∈ handles ∧ handles.Nodup ∧ Suits alpha kind handle rule.patterns handles) ∧
    ((∀ pattern, handle ∈ memory alpha pattern ↔ pattern = kind) → ∀ handles, handles ∈ completions alpha rule kind handle ↔
      handle ∈ handles ∧ handles.Nodup ∧ FromMemories alpha rule.patterns handles) := by
  have complete (handles : List Handle) := mem_completions.trans (@offered_iff alpha rule.patterns kind handle handles)
  refine ⟨fun position inside => ⟨?_,tuplesWith_sorted position,(tuplesWith_sorted position).nodup,fun _ => mem_tuplesWith inside⟩,
    fun one first two second => tuplesWith_disjoint first second,completions_once,complete,fun own handles => ?_⟩
  · rw [grown_eq]
    simp [tuplesWith]
  · rw [complete,suits_fromMemories own]

def boxed : Rule where
  name := "boxed"
  patterns := ["Item","Box","Item"]
  action := fun _ => Effects.none

def goods : Map String (Members Handle) :=
  (Map.empty.put "Item" (Members.ofList [1,2,3])).put "Box" (Members.ofList [7])

theorem boxed_exact : tuplesWith goods boxed.patterns 2 2 = grown [[]] (slots goods boxed.patterns 2 2) ∧
    (completions goods boxed "Item" 2).Nodup ∧ [3,7,2] ∈ completions goods boxed "Item" 2 ∧
    [2,7,2] ∉ completions goods boxed "Item" 2 ∧ List.Disjoint (tuplesWith goods boxed.patterns 0 2) (tuplesWith goods boxed.patterns 2 2) := by
  obtain ⟨each,apart,once,_,complete⟩ := join_exact goods boxed "Item" 2
  have own (pattern : String) : 2 ∈ memory goods pattern ↔ pattern = "Item" := by
    unfold memory goods
    rw [Map.get?_put,Map.get?_put]
    by_cases box : pattern = "Box"
    · subst box
      decide
    · by_cases item : pattern = "Item"
      · subst item
        decide
      · simp [box,item,Map.get?,Map.empty]
  refine ⟨(each 2 (by decide)).1.symm,once,(complete own _).mpr ⟨by decide,by decide,?_⟩,fun twice => ?_,apart 0 (by decide) 2 (by decide) (by decide)⟩
  · unfold FromMemories
    decide
  · have distinct := ((complete own _).mp twice).2.1
    revert distinct
    decide

end Completing
end DurableRules
