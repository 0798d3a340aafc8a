import DurableRules.Store.Disk
import Mathlib.Data.List.Nodup

namespace DurableRules.Disk
variable {entries : List (String × Node)} {name other : String} {node : Node}

section Entries

@[simp] theorem lookup_entry (key : String) (held : Node) (rest : List (String × Node)) :
    List.lookup other ((key,held) :: rest) = if other = key then some held else rest.lookup other := by
  rw [List.lookup_cons]
  by_cases same : other = key
  · simp [same]
  · simp [same,beq_false_of_ne same]

@[simp] theorem lookup_replaceEntry : (replaceEntry name node entries).lookup other =
    if other = name then some node else entries.lookup other := by
  induction entries with
  | nil => exact lookup_entry name node []
  | cons entry rest ih =>
    obtain ⟨key,held⟩ := entry
    unfold replaceEntry
    by_cases here : key = name
    · subst here
      rw [if_pos rfl,lookup_entry,lookup_entry]
      split <;> rfl
    · rw [if_neg here,lookup_entry,ih,lookup_entry]
      by_cases same : other = name
      · subst same
        rw [if_neg (Ne.symm here),if_pos rfl,if_pos rfl]
      · rw [if_neg same,if_neg same]

@[simp] theorem lookup_removeEntry : (removeEntry name entries).lookup other =
    if other = name then none else entries.lookup other := by
  unfold removeEntry
  induction entries with
  | nil => simp
  | cons entry rest ih =>
    obtain ⟨key,held⟩ := entry
    rw [List.filter_cons,lookup_entry]
    by_cases here : key = name
    · subst here
      rw [if_neg (by simp),ih]
      split <;> rfl
    · rw [if_pos (by simpa using here),lookup_entry,ih]
      by_cases same : other = name
      · subst same
        rw [if_neg (Ne.symm here),if_pos rfl,if_pos rfl]
      · rw [if_neg same,if_neg same]

theorem lookup_putEntry {slot : Option Node} : (putEntry name slot entries).lookup other =
    if other = name then slot else entries.lookup other := by
  cases slot with
  | none => exact lookup_removeEntry
  | some node => exact lookup_replaceEntry

theorem replaceEntry_again {later : Node} :
    replaceEntry name later (replaceEntry name node entries) = replaceEntry name later entries := by
  induction entries with
  | nil => simp [replaceEntry]
  | cons entry rest ih =>
    by_cases here : entry.1 = name <;> simp [replaceEntry,here,ih]

theorem putEntry_replaceEntry (slot : Option Node) :
    putEntry name slot (replaceEntry name node entries) = putEntry name slot entries := by
  cases slot with
  | some later => exact replaceEntry_again
  | none =>
    simp only [putEntry,removeEntry]
    induction entries with
    | nil => simp [replaceEntry]
    | cons entry rest ih =>
      by_cases here : entry.1 = name <;> simp [replaceEntry,here,ih]

theorem names_replaceEntry : (replaceEntry name node entries).map Prod.fst =
    if name ∈ entries.map Prod.fst then entries.map Prod.fst else entries.map Prod.fst ++ [name] := by
  induction entries with
  | nil => rfl
  | cons entry rest ih =>
    by_cases here : entry.1 = name
    · simp [replaceEntry,here]
    · by_cases later : name ∈ rest.map Prod.fst
      · simp_all [replaceEntry]
      · simp_all [replaceEntry,Ne.symm here]

theorem names_putEntry (name : String) (slot : Option Node) (distinct : (entries.map Prod.fst).Nodup) :
    ((putEntry name slot entries).map Prod.fst).Nodup ∧
      ∀ key ∈ (putEntry name slot entries).map Prod.fst, key = name ∨ key ∈ entries.map Prod.fst := by
  cases slot with
  | none =>
    have fewer : ((removeEntry name entries).map Prod.fst).Sublist (entries.map Prod.fst) :=
      (List.filter_sublist).map _
    exact ⟨distinct.sublist fewer,fun key present => .inr (fewer.subset present)⟩
  | some node =>
    rw [putEntry,names_replaceEntry]
    split
    · exact ⟨distinct,fun key present => .inr present⟩
    · next absent =>
      refine ⟨List.nodup_append_comm.mp (List.nodup_cons.mpr ⟨absent,distinct⟩),fun key present => ?_⟩
      rcases List.mem_append.mp present with before | last
      · exact .inr before
      · exact .inl (List.mem_singleton.mp last)

theorem mem_of_lookup (found : entries.lookup name = some node) : (name,node) ∈ entries := by
  obtain ⟨before,after,rfl,_⟩ := List.lookup_eq_some_iff.mp found
  simp

end Entries

section Paths
variable {disk next : Node} {base rest : Path}

theorem find_append (disk : Node) (base rest : Path) : find disk (base ++ rest) = (find disk base >>= fun node => find node rest) := by
  induction base generalizing disk with
  | nil => rfl
  | cons name later ih =>
    cases disk with
    | file => rfl
    | folder entries =>
      simp only [List.cons_append,find]
      cases entries.lookup name with
      | none => rfl
      | some node => exact ih node

def graft : Node → Path → Node → Node
  | _, [], node => node
  | .file bytes, _ :: _, _ => .file bytes
  | .folder entries, name :: rest, node =>
    match entries.lookup name with
    | none => .folder entries
    | some held => .folder (replaceEntry name (graft held rest node) entries)

theorem find_graft {held : Node} (found : find disk base = .ok held) (node : Node) : find (graft disk base node) base = .ok node := by
  induction base generalizing disk with
  | nil => rfl
  | cons name later ih =>
    cases disk with
    | file => cases found
    | folder entries =>
      unfold find at found
      cases known : entries.lookup name with
      | none => simp [known] at found
      | some inner =>
        simp only [known] at found
        simp only [graft,known,find,lookup_replaceEntry,if_true]
        exact ih found

theorem alter_append {held : Node} (found : find disk base = .ok held) (change : Option Node → Except DiskFault (Option Node))
    (name : String) (rest : Path) :
    alter change disk (base ++ name :: rest) = (alter change held (name :: rest)).map (graft disk base) := by
  induction base generalizing disk with
  | nil =>
    cases found
    change alter change held (name :: rest) = _
    cases alter change held (name :: rest) <;> rfl
  | cons first later ih =>
    cases disk with
    | file => cases found
    | folder entries =>
      unfold find at found
      cases known : entries.lookup first with
      | none => simp [known] at found
      | some inner =>
        simp only [known] at found
        have below := ih found
        obtain ⟨second,others,more⟩ : ∃ second others, later ++ name :: rest = second :: others := by
          cases later with
          | nil => exact ⟨_,_,rfl⟩
          | cons second others => exact ⟨_,_,rfl⟩
        rw [more] at below
        simp only [List.cons_append,more,alter,known,below]
        cases alter change held (name :: rest) with
        | error fault => rfl
        | ok node => simp [graft,known,Except.map,bind,Except.bind,pure,Except.pure]

theorem makeFolders_append {held : Node} (found : find disk base = .ok held) (rest : Path) :
    makeFolders disk (base ++ rest) = (makeFolders held rest).map (graft disk base) := by
  induction base generalizing disk with
  | nil =>
    cases found
    change makeFolders held rest = _
    cases makeFolders held rest <;> rfl
  | cons first later ih =>
    cases disk with
    | file => cases found
    | folder entries =>
      unfold find at found
      cases known : entries.lookup first with
      | none => simp [known] at found
      | some inner =>
        simp only [known] at found
        simp only [List.cons_append,makeFolders,known,Option.getD_some,ih found]
        cases makeFolders held rest with
        | error fault => rfl
        | ok node => simp [graft,known,Except.map,bind,Except.bind,pure,Except.pure]

-- What was missing of a path is made of empty folders, and the rest stays.
theorem makeFolders_find (made : makeFolders disk base = .ok next) : ∃ entries, find next base = .ok (.folder entries) ∧
    (find disk base = .ok (.folder entries) ∨ (∃ fault, find disk base = .error fault) ∧ entries = []) := by
  induction base generalizing disk next with
  | nil =>
    cases disk with
    | file => cases made
    | folder entries =>
      cases made
      exact ⟨entries,rfl,.inl rfl⟩
  | cons name later ih =>
    cases disk with
    | file => cases made
    | folder entries =>
      unfold makeFolders at made
      cases inner : makeFolders ((entries.lookup name).getD (.folder [])) later with
      | error fault => simp [inner,bind,Except.bind] at made
      | ok node =>
        simp only [inner,bind,Except.bind,pure,Except.pure,Except.ok.injEq] at made
        subst made
        obtain ⟨below,found,before⟩ := ih inner
        refine ⟨below,?_,?_⟩
        · simp only [find,lookup_replaceEntry,if_true]
          exact found
        · simp only [find]
          cases known : entries.lookup name with
          | none =>
            rw [known] at before
            refine .inr ⟨⟨_,rfl⟩,?_⟩
            rcases before with held | ⟨_,none⟩
            · cases later with
              | nil =>
                cases held
                rfl
              | cons => cases held
            · exact none
          | some held =>
            rw [known] at before
            exact before

end Paths
end DurableRules.Disk
