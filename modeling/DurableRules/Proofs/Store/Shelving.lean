import DurableRules.Proofs.Store.Elsewhere
import DurableRules.Proofs.Store.Keeping

namespace DurableRules
open Disk

namespace Disk
variable {disk : Node} {base : Path} {held next : Node}

theorem alter_within (found : find disk base = .ok held) {change : Option Node → Except DiskFault (Option Node)} {name : String}
    {rest : Path} (altered : alter change held (name :: rest) = .ok next) :
    ∃ tree, alter change disk (base ++ name :: rest) = .ok tree ∧ find tree base = .ok next := by
  rw [alter_append found,altered]
  exact ⟨_,rfl,find_graft found next⟩

theorem makeFolders_within (found : find disk base = .ok held) (rest : Path) (made : makeFolders held rest = .ok next) :
    ∃ tree, makeFolders disk (base ++ rest) = .ok tree ∧ find tree base = .ok next := by
  rw [makeFolders_append found,made]
  exact ⟨_,rfl,find_graft found next⟩

theorem alter_entry {entries : List (String × Node)} {change : Option Node → Except DiskFault (Option Node)} {name : String}
    {slot : Option Node} (changed : change (entries.lookup name) = .ok slot) :
    alter change (.folder entries) [name] = .ok (.folder (putEntry name slot entries)) := by
  rw [alter,changed]
  rfl

theorem alter_file {entries files : List (String × Node)} {change : Option Node → Except DiskFault (Option Node)}
    {folder name : String} {slot : Option Node} (lies : entries.lookup folder = some (.folder files))
    (changed : change (files.lookup name) = .ok slot) :
    alter change (.folder entries) [folder,name] =
      .ok (.folder (replaceEntry folder (.folder (putEntry name slot files)) entries)) := by
  simp only [alter,lies,changed]
  rfl

theorem alter_missing {change : Option Node → Except DiskFault (Option Node)} {path : Path}
    (missing : find disk path = .error .notFound) (refused : change none = .error .notFound) :
    alter change disk path = .error .notFound := by
  induction path generalizing disk with
  | nil => cases missing
  | cons name rest ih =>
    cases disk with
    | file => cases missing
    | folder entries =>
      unfold find at missing
      cases known : entries.lookup name with
      | none =>
        cases rest with
        | nil => simp [alter,known,refused,bind,Except.bind]
        | cons => simp [alter,known]
      | some node =>
        simp only [known] at missing
        cases rest with
        | nil => cases missing
        | cons => simp [alter,known,ih missing,bind,Except.bind]

theorem entries_eq_nil {entries : List (String × Node)} : entries = [] ↔ ∀ name, entries.lookup name = none := by
  constructor
  · rintro rfl name
    rfl
  · intro nothing
    cases entries with
    | nil => rfl
    | cons entry rest => simpa using nothing entry.1

end Disk

namespace Directory
variable {d : Directory} {disk : Node} {home : Path} {id other : SessionId} {tag : Tag} {bytes : ByteArray}
  {entries files : List (String × Node)} {contents after : Contents} {shelf : Tag → Option ByteArray}

section Folder

theorem finalName_injective {one two : Tag} (same : finalName one = finalName two) : one = two := by
  revert same
  cases one <;> cases two <;> decide

theorem draftName_apart (one two : Tag) : finalName one ≠ draftName two := by
  cases one <;> cases two <;> decide

-- The files of a folder are the components of one session, and there are no drafts.
structure Filled (shelf : Tag → Option ByteArray) (files : List (String × Node)) : Prop where
  final (tag : Tag) : files.lookup (finalName tag) = (shelf tag).map .file
  only {name : String} : (∀ tag, name ≠ finalName tag) → files.lookup name = none

-- A session without components has no folder.
inductive Shelved (shelf : Tag → Option ByteArray) : Option Node → Prop where
  | bare (nothing : ∀ tag, shelf tag = none) : Shelved shelf none
  | folder {files : List (String × Node)} (filled : Filled shelf files) (filed : files ≠ []) : Shelved shelf (some (.folder files))

theorem Shelved.filled {slot : Option Node} (shelved : Shelved shelf slot) : ∃ files, slot.getD (.folder []) = .folder files ∧
    Filled shelf files := by
  cases shelved with
  | bare nothing => exact ⟨[],rfl,fun tag => by simp [nothing],fun _ => rfl⟩
  | folder filled => exact ⟨_,rfl,filled⟩

theorem Filled.find (filled : Filled shelf files) (tag : Tag) : find (.folder files) [finalName tag] =
    match shelf tag with
    | some bytes => .ok (.file bytes)
    | none => .error .notFound := by
  rw [Disk.find,filled.final]
  cases shelf tag <;> rfl

theorem Shelved.find (shelved : Shelved shelf (entries.lookup id.toText)) (tag : Tag) :
    find (.folder entries) [id.toText,finalName tag] =
      match shelf tag with
      | some bytes => .ok (.file bytes)
      | none => .error .notFound := by
  rw [Disk.find]
  generalize entries.lookup id.toText = slot at shelved
  cases shelved with
  | bare nothing => rw [nothing]
  | folder filled => exact filled.find tag

theorem Filled.changed (filled : Filled shelf files) {later : List (String × Node)} {bytes : Option ByteArray}
    (own : later.lookup (finalName tag) = bytes.map .file)
    (others : ∀ name, name ≠ finalName tag → later.lookup name = files.lookup name) :
    Filled (Function.update shelf tag bytes) later := by
  refine ⟨fun other => ?_,fun {name} foreign => (others name (foreign tag)).trans (filled.only foreign)⟩
  rw [Function.update_apply]
  by_cases same : other = tag
  · rw [if_pos same,same,own]
  · rw [if_neg same,others _ fun equal => same (finalName_injective equal),filled.final]

-- The files after the steps of a put, the draft being gone again.
def refilled (tag : Tag) (bytes : ByteArray) (files : List (String × Node)) : List (String × Node) :=
  replaceEntry (finalName tag) (.file bytes) (removeEntry (draftName tag)
    (replaceEntry (draftName tag) (.file bytes) (replaceEntry (draftName tag) (.file ByteArray.empty) files)))

theorem Filled.refilled (filled : Filled shelf files) (tag : Tag) (bytes : ByteArray) :
    Filled (Function.update shelf tag (some bytes)) (refilled tag bytes files) := by
  have undrafted : files.lookup (draftName tag) = none := filled.only fun other => (draftName_apart other tag).symm
  refine filled.changed (lookup_replaceEntry.trans (if_pos rfl)) fun name apart => ?_
  simp only [Directory.refilled,lookup_replaceEntry,lookup_removeEntry,apart,if_false]
  split
  · next draft => rw [draft,undrafted]
  · rfl

theorem refilled_ne_nil : refilled tag bytes files ≠ [] := by
  intro nothing
  have there := entries_eq_nil.mp nothing (finalName tag)
  rw [refilled,lookup_replaceEntry,if_pos rfl] at there
  cases there

theorem Filled.removed (filled : Filled shelf files) (tag : Tag) :
    Filled (Function.update shelf tag none) (removeEntry (finalName tag) files) :=
  filled.changed (lookup_removeEntry.trans (if_pos rfl)) fun _ apart => lookup_removeEntry.trans (if_neg apart)

-- A folder without files is taken away, and only such a one.
theorem Filled.tidied (filled : Filled shelf files) : ∃ slot, removeIfEmpty (some (.folder files)) = .ok slot ∧ Shelved shelf slot := by
  cases files with
  | nil => exact ⟨none,rfl,.bare fun tag => Option.map_eq_none_iff.mp (filled.final tag).symm⟩
  | cons file rest => exact ⟨_,rfl,.folder filled (List.cons_ne_nil _ _)⟩

theorem Shelved.tidied {slot : Option Node} (shelved : Shelved shelf slot) : removeIfEmpty slot = .ok slot := by
  cases shelved with
  | bare => rfl
  | @folder files filled filed =>
    cases files with
    | nil => exact absurd rfl filed
    | cons => rfl

end Folder

section Sessions

-- The folder of the sessions for a map: each session with components is in the folder with its name.
structure Arranged (contents : Contents) (entries : List (String × Node)) : Prop where
  distinct : (entries.map Prod.fst).Nodup
  slots (id : SessionId) : Shelved (fun tag => contents ⟨id,tag⟩) (entries.lookup id.toText)
  named {name : String} : name ∈ entries.map Prod.fst → ∃ id : SessionId, name = id.toText

theorem Arranged.empty : Arranged (fun _ => none) [] := ⟨.nil,fun _ => .bare fun _ => rfl,fun inside => absurd inside List.not_mem_nil⟩

theorem Arranged.put (arranged : Arranged contents entries) {slot : Option Node} {bytes : Option ByteArray}
    (shelved : Shelved (Function.update (fun tag => contents ⟨id,tag⟩) tag bytes) slot) :
    Arranged (Function.update contents ⟨id,tag⟩ bytes) (putEntry id.toText slot entries) := by
  obtain ⟨distinct,names⟩ := names_putEntry id.toText slot arranged.distinct
  refine ⟨distinct,fun other => ?_,fun {name} inside => ?_⟩
  · rw [lookup_putEntry]
    by_cases same : other = id
    · subst same
      rw [if_pos rfl]
      convert shelved using 2 with tag'
      simp [Function.update_apply]
    · rw [if_neg fun equal => same (SessionId.toText_injective equal)]
      convert arranged.slots other using 2 with tag'
      exact Function.update_of_ne (fun equal => same (congrArg Key.id equal)) _ _
  · rcases names name inside with own | before
    · exact ⟨id,own⟩
    · exact arranged.named before

end Sessions

section Calls

theorem sessionFolder_eq (home : Path) (id : SessionId) : sessionFolder home id = sessionsFolder home ++ [id.toText] := by
  simp [sessionFolder,sessionsFolder]

theorem folder_inside : sessionFolder home id ≠ [] := by simp [sessionFolder]

theorem put_inside {made : Node} (makes : makeFolders disk (sessionFolder home id) = .ok made)
    (found : find made (sessionFolder home id) = .ok (.folder files)) (clear : ∀ entries, files.lookup (draftName tag) ≠ some (.folder entries))
    (free : ∀ entries, files.lookup (finalName tag) ≠ some (.folder entries)) : run (putSteps home id tag bytes) disk =
      (.ok (),graft made (sessionFolder home id) (.folder (refilled tag bytes files))) := by
  have writes {bytes : ByteArray} {slot : Option Node} (file : ∀ entries, slot ≠ some (.folder entries)) :
      writeFile bytes slot = .ok (some (.file bytes)) := by
    unfold writeFile
    split
    · exact absurd rfl (file _)
    · rfl
  have creates : alter (writeFile ByteArray.empty) made (draft home id tag) = .ok (graft made (sessionFolder home id)
      (.folder (replaceEntry (draftName tag) (.file ByteArray.empty) files))) := by
    rw [draft,alter_inside found,writes clear]
    rfl
  have fills : alter (writeFile bytes) (graft made (sessionFolder home id) (.folder (replaceEntry (draftName tag)
      (.file ByteArray.empty) files))) (draft home id tag) = .ok (graft made (sessionFolder home id) (.folder
        (replaceEntry (draftName tag) (.file bytes) (replaceEntry (draftName tag) (.file ByteArray.empty) files)))) := by
    rw [draft,alter_inside (find_graft found _),lookup_replaceEntry,if_pos rfl,writes (by simp)]
    exact congrArg Except.ok (graft_again found _)
  have renames : renameIn (draftName tag) (finalName tag) (some (.folder (replaceEntry (draftName tag) (.file bytes)
      (replaceEntry (draftName tag) (.file ByteArray.empty) files)))) = .ok (some (.folder (refilled tag bytes files))) := by
    simp only [renameIn,lookup_replaceEntry,draftName_apart,if_true,if_false]
    cases lies : files.lookup (finalName tag) with
    | none => rfl
    | some node =>
      cases node with
      | file => rfl
      | folder entries => exact absurd lies (free entries)
  have settles := alter_found (find_graft found _) folder_inside renames
  rw [graft_again found] at settles
  simp only [putSteps,run,makes,creates,fills,settles]

theorem put_run (found : find disk (sessionsFolder home) = .ok (.folder entries)) (filled : Filled shelf files)
    (before : (entries.lookup id.toText).getD (.folder []) = .folder files) (tag : Tag) (bytes : ByteArray) :
    ∃ next, run (putSteps home id tag bytes) disk = (.ok (),next) ∧
      find next (sessionsFolder home) =
        .ok (.folder (putEntry id.toText (some (.folder (refilled tag bytes files))) entries)) := by
  have inner : makeFolders (.folder entries) [id.toText] = .ok (.folder (replaceEntry id.toText (.folder files) entries)) := by
    rw [makeFolders,before]
    rfl
  have lies : (replaceEntry id.toText (.folder files) entries).lookup id.toText = some (.folder files) :=
    lookup_replaceEntry.trans (if_pos rfl)
  obtain ⟨made,makes,one⟩ := makeFolders_within found _ inner
  have there : find made (sessionFolder home id) = .ok (.folder files) := by
    rw [sessionFolder_eq,find_append,one]
    exact find_slot.trans (congrArg held lies)
  have undrafted : files.lookup (draftName tag) = none := filled.only fun other => (draftName_apart other tag).symm
  have clear : ∀ entries, files.lookup (draftName tag) ≠ some (.folder entries) := by simp [undrafted]
  have free : ∀ entries, files.lookup (finalName tag) ≠ some (.folder entries) := by
    rw [filled.final]
    cases shelf tag <;> simp
  refine ⟨_,put_inside (sessionFolder_eq home id ▸ makes) there clear free,?_⟩
  rw [sessionFolder_eq,graft_append one,find_graft one]
  simp only [graft,lies,replaceEntry_again,putEntry]

theorem prune_find (found : find disk (sessionsFolder home) = .ok (.folder entries)) {slot : Option Node}
    (tidied : removeIfEmpty (entries.lookup id.toText) = .ok slot) :
    find (prune disk home id) (sessionsFolder home) = .ok (.folder (putEntry id.toText slot entries)) := by
  obtain ⟨next,went,after⟩ := alter_within found (alter_entry tidied)
  rw [prune,sessionFolder_eq,went]
  exact after

theorem remove_find (found : find disk (sessionsFolder home) = .ok (.folder entries))
    (shelved : Shelved shelf (entries.lookup id.toText)) (tag : Tag) :
    (remove disk home id tag).1 = .ok () ∧ ∃ slot, Shelved (Function.update shelf tag none) slot ∧
      find (remove disk home id tag).2 (sessionsFolder home) = .ok (.folder (putEntry id.toText slot entries)) := by
  cases holds : shelf tag with
  | none =>
    have same : Function.update shelf tag none = shelf := holds ▸ Function.update_eq_self tag shelf
    have missing : find disk (component home id tag) = .error .notFound := by
      rw [find_component found,shelved.find,holds]
    rw [remove,alter_missing missing rfl,same]
    exact ⟨rfl,_,shelved,prune_find found shelved.tidied⟩
  | some bytes =>
    cases lies : entries.lookup id.toText with
    | none =>
      rw [lies] at shelved
      cases shelved with
      | bare nothing => cases (nothing tag).symm.trans holds
    | some node =>
      rw [lies] at shelved
      cases shelved with
      | @folder files filled =>
        have delete : removeFile (files.lookup (finalName tag)) = .ok none := by
          rw [filled.final,holds]
          rfl
        obtain ⟨next,went,after⟩ := alter_within found (alter_file lies delete)
        obtain ⟨slot,tidied,rest⟩ := (filled.removed tag).tidied
        have pruned : find (prune next home id) (sessionsFolder home) = _ :=
          prune_find after ((congrArg _ (lookup_replaceEntry.trans (if_pos rfl))).trans tidied)
        rw [putEntry_replaceEntry] at pruned
        rw [remove,component_eq,went]
        exact ⟨rfl,slot,rest,pruned⟩

end Calls

section Keeping

def Keeps (d : Directory) (contents : Contents) : Prop := ∃ entries,
  find d.disk (sessionsFolder d.home) = .ok (.folder entries) ∧ Arranged contents entries

theorem keeps_edit (kept : Keeps d contents) (edit : Edit) :
    (edit.run d).1 = .ok () ∧ Keeps (edit.run d).2 (Function.update contents edit.key edit.bytes) := by
  obtain ⟨entries,found,arranged⟩ := kept
  obtain ⟨⟨id,tag⟩,_ | bytes⟩ := edit
  · obtain ⟨went,slot,shelved,after⟩ := remove_find found (arranged.slots id) tag
    exact ⟨went,_,after,arranged.put shelved⟩
  · obtain ⟨files,before,filled⟩ := (arranged.slots id).filled
    obtain ⟨next,went,after⟩ := put_run found filled before tag bytes
    have done : (Store.put id tag bytes : Call Directory _) d = (.ok (),{ d with disk := next }) := by
      change (orIo (run (putSteps d.home id tag bytes) d.disk).1,
        { d with disk := (run (putSteps d.home id tag bytes) d.disk).2 }) = _
      rw [went]
      rfl
    change ((Store.put id tag bytes : Call Directory _) d).1 = _ ∧ Keeps ((Store.put id tag bytes : Call Directory _) d).2 _
    rw [done]
    exact ⟨rfl,_,after,arranged.put (.folder (filled.refilled tag bytes) refilled_ne_nil)⟩

theorem keeps_get (kept : Keeps d contents) (id : SessionId) (tag : Tag) :
    (Store.get id tag : Call Directory _) d = (.ok (contents ⟨id,tag⟩),d) := by
  obtain ⟨entries,found,arranged⟩ := kept
  change (read d.disk d.home id tag,d) = _
  rw [read,find_component found,(arranged.slots id).find]
  cases contents ⟨id,tag⟩ <;> rfl

-- Names that are written for a session read as that session only.
theorem keeps_listed (kept : Keeps d contents) : Listed d := by
  obtain ⟨entries,found,arranged⟩ := kept
  refine (listed_iff fun others same => ?_).mpr ⟨by simp [found],fun others same entry inside id heads => ?_⟩
  · cases found.symm.trans same
    exact arranged.distinct
  · cases found.symm.trans same
    obtain ⟨reads,lies⟩ := heading_some.mp heads
    obtain ⟨owner,canonical⟩ := arranged.named (List.mem_map_of_mem inside)
    refine ⟨?_,?_⟩
    · unfold named at reads
      split at reads
      · rw [canonical,SessionId.ofText?_some reads canonical]
      · cases reads
    · unfold present at lies
      rw [find_component found,(arranged.slots id).find] at lies ⊢
      cases holds : contents ⟨id,.header⟩ with
      | none => simp [holds] at lies
      | some bytes => exact ⟨bytes,rfl⟩

def reopen : StoreKind → Directory → Except StoreError Directory
  | .file, d => Directory.open d.disk d.home
  | .memory, d | .sqlite, d => .ok d

theorem keeps_again (kept : Keeps d contents) : ∃ next, Directory.open d.disk d.home = .ok next ∧ Keeps next contents := by
  obtain ⟨entries,found,arranged⟩ := kept
  have made := makeFolders_there found
  refine ⟨⟨d.disk,d.home⟩,?_,entries,found,arranged⟩
  rw [Directory.open,made]
  rfl

theorem keeping : Keeping reopen Keeps where
  edit := keeps_edit
  get := keeps_get
  sessions kept := ⟨keeps_listed kept,rfl⟩
  reopen kept kind :=
    match kind with
    | .file => keeps_again kept
    | .memory | .sqlite => ⟨_,rfl,kept⟩

theorem keeps_open (opened : Directory.open disk home = .ok d)
    (fresh : ∀ entries, find disk (sessionsFolder home) = .ok (.folder entries) → entries = []) : Keeps d fun _ => none := by
  unfold Directory.open at opened
  cases made : makeFolders disk (sessionsFolder home) with
  | error fault => simp [made,orIo,bind,Except.bind] at opened
  | ok next =>
    simp only [made,orIo,bind,Except.bind,pure,Except.pure,Except.ok.injEq] at opened
    subst opened
    obtain ⟨entries,found,before⟩ := makeFolders_find made
    have nothing : entries = [] := before.elim (fresh entries) And.right
    subst nothing
    exact ⟨[],found,.empty⟩

end Keeping

end Directory
end DurableRules
