import DurableRules.Proofs.Store.Faithful
import DurableRules.Proofs.Store.Tree
import Mathlib.Data.List.Infix

namespace DurableRules.Disk
variable {disk next : Node} {path other base rest : Path} {name : String} {node : Node} {entries : List (String × Node)}
  {change : Option Node → Except DiskFault (Option Node)} {fault : DiskFault}

section Entries

theorem replaceEntry_self (lies : entries.lookup name = some node) : replaceEntry name node entries = entries := by
  induction entries with
  | nil => cases lies
  | cons entry rest ih =>
    obtain ⟨key,held⟩ := entry
    rw [lookup_entry] at lies
    unfold replaceEntry
    by_cases here : key = name
    · subst here
      rw [if_pos rfl] at lies
      cases lies
      rw [if_pos rfl]
    · rw [if_neg (Ne.symm here)] at lies
      rw [if_neg here,ih lies]

theorem removeEntry_absent (missing : entries.lookup name = none) : removeEntry name entries = entries := by
  refine List.filter_eq_self.mpr fun entry inside => bne_iff_ne.mpr fun same => ?_
  have apart := List.lookup_eq_none_iff.mp missing entry inside
  simp [same] at apart

theorem putEntry_self : putEntry name (entries.lookup name) entries = entries := by
  cases lies : entries.lookup name with
  | none => exact removeEntry_absent lies
  | some node => exact replaceEntry_self lies

end Entries

section Slots

def held : Option Node → Except DiskFault Node
  | some node => .ok node
  | none => .error .notFound

theorem held_ok {slot : Option Node} : held slot = .ok node ↔ slot = some node := by cases slot <;> simp [held]

theorem held_missing {slot : Option Node} : held slot = .error .notFound ↔ slot = none := by cases slot <;> simp [held]

theorem find_entry : find (.folder entries) (name :: rest) = (held (entries.lookup name) >>= fun node => find node rest) := by
  rw [find]
  cases entries.lookup name <;> rfl

theorem find_slot : find (.folder entries) [name] = held (entries.lookup name) := by
  rw [find]
  cases entries.lookup name <;> rfl

theorem find_error (failed : find disk path = .error fault) : fault ≠ .isFolder := by
  induction path generalizing disk with
  | nil => cases failed
  | cons name rest ih =>
    cases disk with
    | file =>
      cases failed
      simp
    | folder entries =>
      rw [find_entry] at failed
      cases lies : entries.lookup name with
      | none =>
        rw [lies] at failed
        cases failed
        simp
      | some node =>
        rw [lies] at failed
        exact ih failed

-- A change below a folder as the change of its entry that it comes to.
def below (change : Option Node → Except DiskFault (Option Node)) : Path → Option Node → Except DiskFault (Option Node)
  | [], slot => change slot
  | _ :: _, none => .error .notFound
  | first :: rest, some node => (alter change node (first :: rest)).map some

theorem alter_folder : alter change (.folder entries) (name :: rest) =
    (below change rest (entries.lookup name)).map fun slot => .folder (putEntry name slot entries) := by
  cases rest with
  | nil =>
    rw [alter,below]
    cases change (entries.lookup name) <;> rfl
  | cons first rest =>
    rw [alter,below.eq_def]
    · cases entries.lookup name with
      | none => rfl
      | some node =>
        dsimp only
        cases alter change node (first :: rest) <;> rfl
    · simp

theorem alter_ok (altered : alter change disk path = .ok next) : ∃ before after, change before = .ok after ∧
    find disk path = held before ∧ find next path = held after ∧ (after = before → next = disk) := by
  induction path generalizing disk next with
  | nil => cases disk <;> cases altered
  | cons name rest ih =>
    cases disk with
    | file => cases altered
    | folder entries =>
      rw [alter_folder] at altered
      obtain ⟨slot,inner,rfl⟩ := map_ok altered
      rw [find_entry,find_entry,lookup_putEntry,if_pos rfl]
      cases rest with
      | nil =>
        refine ⟨_,slot,inner,?_,?_,fun same => ?_⟩
        · cases entries.lookup name <;> rfl
        · cases slot <;> rfl
        · rw [same,putEntry_self]
      | cons first rest =>
        cases lies : entries.lookup name with
        | none =>
          rw [lies] at inner
          cases inner
        | some node =>
          rw [lies] at inner
          obtain ⟨tree,within,rfl⟩ := map_ok inner
          obtain ⟨before,after,changed,found,left,idle⟩ := ih within
          refine ⟨before,after,changed,found,left,fun same => ?_⟩
          rw [idle same,← lies,putEntry_self]

theorem alter_error (refused : alter change disk path = .error fault) (inside : path ≠ []) :
    (∃ before, change before = .error fault ∧ find disk path = held before) ∨ find disk path = .error fault := by
  induction path generalizing disk with
  | nil => exact absurd rfl inside
  | cons name rest ih =>
    cases disk with
    | file =>
      cases refused
      exact .inr rfl
    | folder entries =>
      rw [alter_folder] at refused
      have inner := map_error refused
      rw [find_entry]
      cases rest with
      | nil =>
        refine .inl ⟨_,inner,?_⟩
        cases entries.lookup name <;> rfl
      | cons first rest =>
        cases lies : entries.lookup name with
        | none =>
          rw [lies] at inner
          cases inner
          exact .inr rfl
        | some node =>
          rw [lies] at inner
          exact ih (map_error inner) (List.cons_ne_nil _ _)

end Slots

section Elsewhere

theorem alter_elsewhere (altered : alter change disk path = .ok next) (above : ¬ other <+: path) (beneath : ¬ path <+: other) :
    find next other = find disk other := by
  induction path generalizing disk next other with
  | nil => exact absurd List.nil_prefix beneath
  | cons name rest ih =>
    cases disk with
    | file => cases altered
    | folder entries =>
      rw [alter_folder] at altered
      obtain ⟨slot,inner,rfl⟩ := map_ok altered
      cases other with
      | nil => exact absurd List.nil_prefix above
      | cons key later =>
        rw [find_entry,find_entry,lookup_putEntry]
        by_cases same : key = name
        · subst same
          simp only [List.cons_prefix_cons,true_and] at above beneath
          rw [if_pos rfl]
          cases rest with
          | nil => exact absurd List.nil_prefix beneath
          | cons first rest =>
            cases lies : entries.lookup key with
            | none =>
              rw [lies] at inner
              cases inner
            | some node =>
              rw [lies] at inner
              obtain ⟨tree,within,rfl⟩ := map_ok inner
              exact ih within above beneath
        · rw [if_neg same]

theorem makeFolders_folder : makeFolders (.folder entries) (name :: rest) =
    (makeFolders ((entries.lookup name).getD (.folder [])) rest).map fun node => .folder (replaceEntry name node entries) := by
  rw [makeFolders]
  cases makeFolders ((entries.lookup name).getD (.folder [])) rest <;> rfl

-- Folders that were made are empty, so only their own paths lead somewhere new.
theorem makeFolders_elsewhere (made : makeFolders disk base = .ok next) (above : ¬ other <+: base) :
    find next other = find disk other := by
  induction base generalizing disk next other with
  | nil =>
    cases disk <;> cases made
    rfl
  | cons name rest ih =>
    cases disk with
    | file => cases made
    | folder entries =>
      rw [makeFolders_folder] at made
      obtain ⟨tree,inner,rfl⟩ := map_ok made
      cases other with
      | nil => exact absurd List.nil_prefix above
      | cons key later =>
        rw [find_entry,find_entry,lookup_replaceEntry]
        by_cases same : key = name
        · subst same
          simp only [List.cons_prefix_cons,true_and] at above
          rw [if_pos rfl]
          refine (ih inner above).trans ?_
          cases entries.lookup key with
          | some node => rfl
          | none =>
            cases later with
            | nil => exact absurd List.nil_prefix above
            | cons => rfl
        · rw [if_neg same]

end Elsewhere

section Again

theorem graft_self (found : find disk base = .ok node) : graft disk base node = disk := by
  induction base generalizing disk with
  | nil => cases found; rfl
  | cons name rest ih =>
    cases disk with
    | file => rfl
    | folder entries =>
      rw [find_entry] at found
      cases lies : entries.lookup name with
      | none =>
        rw [lies] at found
        cases found
      | some inner =>
        rw [lies] at found
        simp only [graft,lies]
        rw [ih found,replaceEntry_self lies]

theorem graft_again {first : Node} (found : find disk base = .ok node) (last : Node) :
    graft (graft disk base first) base last = graft disk base last := by
  induction base generalizing disk with
  | nil => rfl
  | cons name rest ih =>
    cases disk with
    | file => rfl
    | folder entries =>
      rw [find_entry] at found
      cases lies : entries.lookup name with
      | none =>
        rw [lies] at found
        cases found
      | some inner =>
        rw [lies] at found
        simp only [graft,lies,lookup_replaceEntry,if_true,replaceEntry_again]
        rw [ih found]

theorem graft_append (found : find disk base = .ok node) (rest : Path) (last : Node) :
    graft disk (base ++ rest) last = graft disk base (graft node rest last) := by
  induction base generalizing disk with
  | nil => cases found; rfl
  | cons name later ih =>
    cases disk with
    | file => cases found
    | folder entries =>
      rw [find_entry] at found
      rw [List.cons_append,graft,graft]
      cases lies : entries.lookup name with
      | none => rfl
      | some inner =>
        rw [lies] at found
        dsimp only
        rw [ih found]

theorem makeFolders_there (found : find disk base = .ok (.folder entries)) : makeFolders disk base = .ok disk := by
  have made := makeFolders_append found []
  rw [List.append_nil] at made
  rw [made,← graft_self found]
  exact congrArg Except.ok (graft_again found _)

-- The folders on the way to a folder are made first.
theorem makeFolders_stage (disk : Node) (base rest : Path) : makeFolders disk (base ++ rest) =
    (makeFolders disk base >>= fun next => makeFolders next (base ++ rest)) := by
  induction base generalizing disk with
  | nil =>
    cases disk with
    | file => cases rest <;> rfl
    | folder => rfl
  | cons name later ih =>
    cases disk with
    | file => rfl
    | folder entries =>
      rw [List.cons_append,makeFolders_folder,makeFolders_folder,ih]
      cases makeFolders ((entries.lookup name).getD (.folder [])) later with
      | error fault => rfl
      | ok node =>
        change (makeFolders node (later ++ rest)).map _ = makeFolders (.folder (replaceEntry name node entries)) _
        simp only [makeFolders_folder,lookup_replaceEntry,if_true,Option.getD_some,replaceEntry_again]

theorem makeFolders_empty (path : Path) : ∃ next, makeFolders (.folder []) path = .ok next := by
  induction path with
  | nil => exact ⟨_,rfl⟩
  | cons name rest ih =>
    obtain ⟨tree,made⟩ := ih
    rw [makeFolders_folder,List.lookup_nil,Option.getD_none,made]
    exact ⟨_,rfl⟩

-- Nothing is made before what is in the way is met.
theorem makeFolders_stopped (made : makeFolders disk base = .ok next) (refused : makeFolders disk (base ++ rest) = .error fault) :
    next = disk := by
  induction base generalizing disk next with
  | nil =>
    cases disk <;> cases made
    rfl
  | cons name later ih =>
    cases disk with
    | file => cases made
    | folder entries =>
      rw [makeFolders_folder] at made
      rw [List.cons_append,makeFolders_folder] at refused
      obtain ⟨tree,inner,rfl⟩ := map_ok made
      have stopped := map_error refused
      have same := ih inner stopped
      cases lies : entries.lookup name with
      | none =>
        obtain ⟨_,made⟩ := makeFolders_empty (later ++ rest)
        rw [lies] at stopped
        cases made.symm.trans stopped
      | some node =>
        rw [same,lies]
        exact congrArg Node.folder (replaceEntry_self lies)

theorem alter_found (found : find disk path = .ok node) (inside : path ≠ []) {later : Node}
    (changed : change (some node) = .ok (some later)) : alter change disk path = .ok (graft disk path later) := by
  induction path generalizing disk with
  | nil => exact absurd rfl inside
  | cons name rest ih =>
    cases disk with
    | file => cases found
    | folder entries =>
      rw [find_entry] at found
      rw [alter_folder,graft]
      cases lies : entries.lookup name with
      | none =>
        rw [lies] at found
        cases found
      | some inner =>
        rw [lies] at found
        cases rest with
        | nil =>
          cases found
          rw [below,changed]
          rfl
        | cons first rest =>
          rw [below,ih found (List.cons_ne_nil _ _)]
          rfl

theorem alter_inside (found : find disk base = .ok (.folder entries)) : alter change disk (base ++ [name]) =
    (change (entries.lookup name)).map fun slot => graft disk base (.folder (putEntry name slot entries)) := by
  rw [alter_append found,alter_folder,below]
  cases change (entries.lookup name) <;> rfl

theorem makeFolders_ok : (∃ next, makeFolders disk base = .ok next) ↔ find disk (base ++ [name]) ≠ .error .notFolder := by
  induction base generalizing disk with
  | nil =>
    cases disk with
    | file => exact iff_of_false (fun made => by cases made.choose_spec) (fun free => free rfl)
    | folder entries =>
      refine iff_of_true ⟨_,rfl⟩ ?_
      rw [List.nil_append,find_slot]
      cases entries.lookup name <;> simp [held]
  | cons first rest ih =>
    cases disk with
    | file => exact iff_of_false (fun made => by cases made.choose_spec) (fun free => free rfl)
    | folder entries =>
      rw [List.cons_append,find_entry,makeFolders_folder]
      cases lies : entries.lookup first with
      | none =>
        obtain ⟨tree,made⟩ := makeFolders_empty rest
        refine iff_of_true ⟨_,congrArg _ made⟩ ?_
        simp [held,bind,Except.bind]
      | some inner =>
        refine Iff.trans ⟨?_,?_⟩ ih
        · intro made
          obtain ⟨next,made⟩ := made
          obtain ⟨tree,below,_⟩ := map_ok made
          exact ⟨tree,below⟩
        · intro made
          obtain ⟨tree,below⟩ := made
          exact ⟨_,congrArg _ below⟩

end Again

section Steps
variable {α : Type} {one two steps : List (Node → Except DiskFault Node)}

theorem run_append (one two : List (Node → Except DiskFault Node)) (disk : Node) : run (one ++ two) disk =
    match run one disk with
    | (.ok _,next) => run two next
    | (.error fault,next) => (.error fault,next) := by
  induction one generalizing disk with
  | nil => rfl
  | cons step rest ih =>
    rw [List.cons_append,run,run]
    cases step disk with
    | ok next => exact ih next
    | error fault => rfl

theorem run_append_ok (one : List (Node → Except DiskFault Node)) (went : run (one ++ two) disk = (.ok (),next)) :
    ∃ middle, run one disk = (.ok (),middle) ∧ run two middle = (.ok (),next) := by
  rw [run_append] at went
  cases first : run one disk with
  | mk answer middle =>
    rw [first] at went
    cases answer with
    | ok => exact ⟨middle,rfl,went⟩
    | error => cases went

theorem run_single (step : Node → Except DiskFault Node) (disk : Node) : run [step] disk =
    match step disk with
    | .ok next => (.ok (),next)
    | .error fault => (.error fault,disk) := rfl

theorem run_single_ok {step : Node → Except DiskFault Node} (went : run [step] disk = (.ok (),next)) : step disk = .ok next := by
  rw [run_single] at went
  cases answer : step disk with
  | ok middle =>
    rw [answer] at went
    cases went
    rfl
  | error fault =>
    rw [answer] at went
    cases went

-- Steps that each leave something alone leave it alone together, however far they get.
theorem run_keeps (look : Node → α) (each : ∀ step ∈ steps, ∀ disk next, step disk = .ok next → look next = look disk)
    (disk : Node) : look (run steps disk).2 = look disk := by
  induction steps generalizing disk with
  | nil => rfl
  | cons step rest ih =>
    rw [run]
    cases went : step disk with
    | error fault => rfl
    | ok next =>
      exact (ih (fun other present => each other (List.mem_cons_of_mem _ present)) next).trans
        (each step List.mem_cons_self disk next went)

theorem run_stages (base : Path) (disk : Node) : run (base.inits.map fun path disk => makeFolders disk path) disk =
    run [fun disk => makeFolders disk base] disk := by
  induction base using List.reverseRecOn with
  | nil => rfl
  | append_singleton base name ih =>
    have stages : (base ++ [name]).inits = base.inits ++ [base ++ [name]] := by rw [List.inits_append]; rfl
    have stage := makeFolders_stage disk base [name]
    rw [stages,List.map_append,run_append,ih]
    simp only [run]
    cases made : makeFolders disk base with
    | error fault =>
      rw [made] at stage
      rw [stage]
      rfl
    | ok next =>
      rw [made] at stage
      change makeFolders disk (base ++ [name]) = makeFolders next (base ++ [name]) at stage
      simp only [List.map_cons,List.map_nil,run,stage]
      cases last : makeFolders next (base ++ [name]) with
      | ok => rfl
      | error fault => rw [makeFolders_stopped made (stage.trans last)]

end Steps
end DurableRules.Disk
