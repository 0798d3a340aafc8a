import DurableRules.Proofs.Store.Shelving

namespace DurableRules
open Disk

def reading {σ : Type} [Store σ] (store : σ) (key : Key) : Except StoreError (Option ByteArray) :=
  ((Store.get key.id key.tag : Call σ _) store).1

namespace Directory
variable {disk next : Node} {home path : Path} {id other one two : SessionId} {tag : Tag} {bytes : ByteArray} {name key : String}
  {change : Option Node → Except DiskFault (Option Node)} {steps : List (Node → Except DiskFault Node)}

section Spots

def spot (home : Path) (id : SessionId) (name : String) : Path := sessionFolder home id ++ [name]

theorem folder_length (home : Path) (id : SessionId) : (sessionFolder home id).length = home.length + 2 := List.length_append

theorem spot_length (home : Path) (id : SessionId) (name : String) : (spot home id name).length = home.length + 3 := by
  rw [spot,List.length_append,folder_length]
  rfl

theorem folder_inj (same : sessionFolder home one = sessionFolder home two) : one = two := by
  have names := List.append_cancel_left same
  simp only [List.cons.injEq,true_and,and_true] at names
  exact SessionId.toText_injective names

theorem spot_inj (same : spot home one name = spot home two key) : one = two ∧ name = key := by
  obtain ⟨folders,names⟩ := List.append_inj same (by rw [folder_length,folder_length])
  exact ⟨folder_inj folders,List.cons.inj names |>.1⟩

theorem spot_above (leads : spot home one name <+: spot home two key) : one = two ∧ name = key :=
  spot_inj (leads.eq_of_length (by rw [spot_length,spot_length]))

theorem spot_outside : ¬ spot home one name <+: sessionFolder home two := by
  intro leads
  have length := leads.length_le
  rw [spot_length,folder_length] at length
  omega

theorem folder_above (leads : sessionFolder home one <+: sessionFolder home two) : one = two :=
  folder_inj (leads.eq_of_length (by rw [folder_length,folder_length]))

theorem folder_of_spot (leads : sessionFolder home one <+: spot home two name) : one = two :=
  folder_above (List.prefix_of_prefix_length_le leads (List.prefix_append _ _) (by rw [folder_length,folder_length]))

theorem spot_inside : spot home id name ≠ [] := by simp [spot]

theorem find_spot (home : Path) (id : SessionId) (name : String) (disk : Node) :
    find disk (spot home id name) = (find disk (sessionFolder home id) >>= fun node => find node [name]) := find_append _ _ _

theorem find_inside {entries : List (String × Node)} (found : find disk (sessionFolder home id) = .ok (.folder entries)) (name : String) :
    find disk (spot home id name) = held (entries.lookup name) := by
  rw [find_spot,found]
  exact find_slot

end Spots

section Steps

theorem made_spot (made : makeFolders disk path = .ok next) (way : path <+: sessionFolder home id) (other : SessionId) (key : String) :
    find next (spot home other key) = find disk (spot home other key) :=
  makeFolders_elsewhere made fun leads => spot_outside (leads.trans way)

theorem altered_spot (altered : alter change disk (spot home id name) = .ok next) (apart : ¬ (other = id ∧ key = name)) :
    find next (spot home other key) = find disk (spot home other key) :=
  alter_elsewhere altered (fun leads => apart (spot_above leads)) fun leads => apart ((spot_above leads).imp Eq.symm Eq.symm)

theorem renameIn_ok {source target : String} {before after : Option Node} (renamed : renameIn source target before = .ok after) :
    ∃ entries node, before = some (.folder entries) ∧ entries.lookup source = some node ∧
      (∀ files, entries.lookup target ≠ some (.folder files)) ∧
      after = some (.folder (replaceEntry target node (removeEntry source entries))) := by
  cases before with
  | none => cases renamed
  | some node =>
    cases node with
    | file => cases renamed
    | folder entries =>
      simp only [renameIn] at renamed
      split at renamed
      · cases renamed
      · cases renamed
      · next node lies free =>
        cases renamed
        exact ⟨entries,node,rfl,lies,free,rfl⟩

-- The file takes its new name in the folder of the session, and nothing else is touched.
structure Renamed (home : Path) (id : SessionId) (source target : String) (disk next : Node) : Prop where
  moved : ∃ node, find disk (spot home id source) = .ok node ∧ find next (spot home id target) = .ok node
  gone : find next (spot home id source) = .error .notFound
  free (entries : List (String × Node)) : find disk (spot home id target) ≠ .ok (.folder entries)
  others {other : SessionId} {key : String} (apart : ¬ (other = id ∧ (key = source ∨ key = target))) :
    find next (spot home other key) = find disk (spot home other key)

theorem renamed_spots {source target : String} (altered : alter (renameIn source target) disk (sessionFolder home id) = .ok next)
    (differ : source ≠ target) : Renamed home id source target disk next := by
  obtain ⟨before,after,changed,found,left,_⟩ := alter_ok altered
  obtain ⟨entries,node,rfl,lies,free,rfl⟩ := renameIn_ok changed
  have old (key : String) : find disk (spot home id key) = held (entries.lookup key) := find_inside found key
  have new (key : String) : find next (spot home id key) =
      held ((replaceEntry target node (removeEntry source entries)).lookup key) := find_inside left key
  refine ⟨⟨node,?_,?_⟩,?_,fun files lies => ?_,fun {other key} apart => ?_⟩
  · rw [old,lies]
    rfl
  · rw [new,lookup_replaceEntry,if_pos rfl]
    rfl
  · rw [new,lookup_replaceEntry,if_neg differ,lookup_removeEntry,if_pos rfl]
    rfl
  · rw [old] at lies
    exact free files (held_ok.mp lies)
  · by_cases own : other = id
    · subst own
      simp only [true_and,not_or] at apart
      rw [new,old,lookup_replaceEntry,if_neg apart.2,lookup_removeEntry,if_neg apart.1]
    · exact alter_elsewhere altered spot_outside fun leads => own (folder_of_spot leads).symm

theorem removeIfEmpty_ok {before after : Option Node} (tidied : removeIfEmpty before = .ok after) :
    before = some (.folder []) ∧ after = none ∨ before ≠ some (.folder []) ∧ after = before := by
  unfold removeIfEmpty at tidied
  split at tidied
  · cases tidied
    exact .inl ⟨rfl,rfl⟩
  · next full =>
    cases tidied
    exact .inr ⟨full,rfl⟩

theorem removeIfEmpty_total (before : Option Node) {fault : DiskFault} : removeIfEmpty before ≠ .error fault := by
  unfold removeIfEmpty
  split <;> simp

theorem prune_spot (disk : Node) (home : Path) (id other : SessionId) (key : String) :
    find (prune disk home id) (spot home other key) = find disk (spot home other key) := by
  unfold prune
  cases altered : alter removeIfEmpty disk (sessionFolder home id) with
  | error fault => rfl
  | ok next =>
    by_cases own : other = id
    · subst own
      obtain ⟨before,after,changed,found,left,_⟩ := alter_ok altered
      rw [find_spot,find_spot,found,left]
      rcases removeIfEmpty_ok changed with ⟨rfl,rfl⟩ | ⟨_,rfl⟩ <;> rfl
    · exact alter_elsewhere altered spot_outside fun leads => own (folder_of_spot leads).symm

theorem prune_folder (disk : Node) (home : Path) (id : SessionId) :
    find (prune disk home id) (sessionFolder home id) ≠ .ok (.folder []) := by
  unfold prune
  cases altered : alter removeIfEmpty disk (sessionFolder home id) with
  | error fault =>
    rcases alter_error altered folder_inside with ⟨before,refused,_⟩ | missing
    · exact absurd refused (removeIfEmpty_total before)
    · simp [missing]
  | ok next =>
    obtain ⟨before,after,changed,found,left,_⟩ := alter_ok altered
    rcases removeIfEmpty_ok changed with ⟨rfl,rfl⟩ | ⟨full,rfl⟩
    · simp [left,held]
    · intro empty
      rw [left] at empty
      cases after with
      | none => cases empty
      | some node =>
        cases empty
        exact full rfl

theorem prune_full (full : find disk (sessionFolder home id) ≠ .ok (.folder [])) : prune disk home id = disk := by
  unfold prune
  cases altered : alter removeIfEmpty disk (sessionFolder home id) with
  | error fault => rfl
  | ok next =>
    obtain ⟨before,after,changed,found,left,idle⟩ := alter_ok altered
    rcases removeIfEmpty_ok changed with ⟨rfl,_⟩ | ⟨_,same⟩
    · exact absurd found full
    · exact idle same

end Steps

section Putting

-- A step that touches nothing but the draft of one component.
def Quiet (home : Path) (id : SessionId) (tag : Tag) (step : Node → Except DiskFault Node) : Prop :=
  ∀ disk next, step disk = .ok next → ∀ other key, ¬ (other = id ∧ key = draftName tag) →
    find next (spot home other key) = find disk (spot home other key)

theorem quiet_folders (way : path <+: sessionFolder home id) : Quiet home id tag fun disk => makeFolders disk path :=
  fun _ _ made other key _ => made_spot made way other key

theorem quiet_draft (change : Option Node → Except DiskFault (Option Node)) :
    Quiet home id tag fun disk => alter change disk (draft home id tag) :=
  fun _ _ altered _ _ apart => altered_spot altered apart

theorem quiet_run (each : ∀ step ∈ steps, Quiet home id tag step) (disk : Node) (apart : ¬ (other = id ∧ key = draftName tag)) :
    find (run steps disk).2 (spot home other key) = find disk (spot home other key) :=
  run_keeps (fun disk => find disk (spot home other key))
    (fun step present disk next went => each step present disk next went other key apart) disk

def drafting (home : Path) (id : SessionId) (tag : Tag) (bytes : ByteArray) : List (Node → Except DiskFault Node) :=
  [fun disk => makeFolders disk (sessionFolder home id),
   fun disk => alter (writeFile ByteArray.empty) disk (draft home id tag),
   fun disk => alter (writeFile bytes) disk (draft home id tag)]

def settling (home : Path) (id : SessionId) (tag : Tag) (disk : Node) : Except DiskFault Node :=
  alter (renameIn (draftName tag) (finalName tag)) disk (sessionFolder home id)

theorem putSteps_eq (home : Path) (id : SessionId) (tag : Tag) (bytes : ByteArray) :
    putSteps home id tag bytes = drafting home id tag bytes ++ [settling home id tag] := rfl

theorem drafting_quiet : ∀ step ∈ drafting home id tag bytes, Quiet home id tag step := by
  simp only [drafting,List.forall_mem_cons]
  exact ⟨quiet_folders (List.prefix_refl _),quiet_draft _,quiet_draft _,fun _ none => absurd none List.not_mem_nil⟩

theorem drafted (went : run (drafting home id tag bytes) disk = (.ok (),next)) :
    find next (draft home id tag) = .ok (.file bytes) ∧
      ∀ entries, find disk (draft home id tag) ≠ .ok (.folder entries) := by
  obtain ⟨middle,first,rest⟩ := run_append_ok [fun disk => makeFolders disk (sessionFolder home id)] went
  obtain ⟨created,second,third⟩ := run_append_ok [fun disk => alter (writeFile ByteArray.empty) disk (draft home id tag)] rest
  have made := made_spot (run_single_ok first) (List.prefix_refl _) id (draftName tag)
  obtain ⟨before,_,creates,found,_,_⟩ := alter_ok (run_single_ok second)
  obtain ⟨_,after,writes,_,left,_⟩ := alter_ok (run_single_ok third)
  constructor
  · rw [left]
    unfold writeFile at writes
    split at writes <;> cases writes
    rfl
  · intro entries there
    have folder : find middle (draft home id tag) = .ok (.folder entries) := made.trans there
    cases before with
    | none => cases found.symm.trans folder
    | some node =>
      cases found.symm.trans folder
      cases creates

structure Stored (home : Path) (id : SessionId) (tag : Tag) (bytes : ByteArray) (disk next : Node) : Prop where
  lies : find next (component home id tag) = .ok (.file bytes)
  gone : find next (draft home id tag) = .error .notFound
  free (entries : List (String × Node)) : find disk (component home id tag) ≠ .ok (.folder entries)
  clear (entries : List (String × Node)) : find disk (draft home id tag) ≠ .ok (.folder entries)
  others {other : SessionId} {key : String} (apart : ¬ (other = id ∧ (key = draftName tag ∨ key = finalName tag))) :
    find next (spot home other key) = find disk (spot home other key)

theorem put_ok (went : run (putSteps home id tag bytes) disk = (.ok (),next)) : Stored home id tag bytes disk next := by
  rw [putSteps_eq] at went
  obtain ⟨middle,drafts,settles⟩ := run_append_ok _ went
  obtain ⟨lies,clear⟩ := drafted drafts
  have quiet {other : SessionId} {key : String} (apart : ¬ (other = id ∧ key = draftName tag)) :
      find middle (spot home other key) = find disk (spot home other key) := by
    rw [← quiet_run drafting_quiet disk apart,drafts]
  have renamed := renamed_spots (run_single_ok settles) (draftName_apart tag tag).symm
  have final : ¬ (id = id ∧ finalName tag = draftName tag) := fun same => draftName_apart tag tag same.2
  refine ⟨?_,renamed.gone,fun entries folder => renamed.free entries ((quiet final).trans folder),clear,
    fun {other key} apart => ?_⟩
  · obtain ⟨node,moved,there⟩ := renamed.moved
    cases lies.symm.trans moved
    exact there
  · exact (renamed.others apart).trans (quiet fun same => apart ⟨same.1,.inl same.2⟩)

theorem put_error (other : SessionId) (key : String) {fault : DiskFault}
    (failed : (run (putSteps home id tag bytes) disk).1 = .error fault) (apart : ¬ (other = id ∧ key = draftName tag)) :
    find (run (putSteps home id tag bytes) disk).2 (spot home other key) = find disk (spot home other key) := by
  rw [putSteps_eq,run_append] at failed ⊢
  have quiet := quiet_run (@drafting_quiet home id tag bytes) disk apart
  cases drafts : run (drafting home id tag bytes) disk with
  | mk answer middle =>
    rw [drafts] at failed quiet
    cases answer with
    | error => exact quiet
    | ok =>
      simp only [run_single] at failed ⊢
      cases settles : settling home id tag middle with
      | ok next => simp [settles] at failed
      | error => exact quiet

end Putting

section Removing

structure Removed (home : Path) (id : SessionId) (tag : Tag) (disk next : Node) : Prop where
  gone : find next (component home id tag) = .error .notFound
  tidy : find next (sessionFolder home id) ≠ .ok (.folder [])
  others {other : SessionId} {key : String} (apart : ¬ (other = id ∧ key = finalName tag)) :
    find next (spot home other key) = find disk (spot home other key)

theorem removeFile_ok {before after : Option Node} (removed : removeFile before = .ok after) :
    (∃ bytes, before = some (.file bytes)) ∧ after = none := by
  unfold removeFile at removed
  split at removed <;> cases removed
  exact ⟨⟨_,rfl⟩,rfl⟩

theorem remove_cases (disk : Node) (home : Path) (id : SessionId) (tag : Tag) :
    (remove disk home id tag).1 = .ok () ∧ Removed home id tag disk (remove disk home id tag).2 ∧
        (∃ found, read disk home id tag = .ok found) ∨
      remove disk home id tag = (.error .io,disk) ∧ read disk home id tag = .error .io := by
  unfold remove
  cases altered : alter removeFile disk (component home id tag) with
  | ok next =>
    obtain ⟨before,after,changed,found,left,_⟩ := alter_ok altered
    obtain ⟨⟨bytes,rfl⟩,rfl⟩ := removeFile_ok changed
    refine .inl ⟨rfl,⟨?_,prune_folder _ _ _,fun apart => ?_⟩,some bytes,?_⟩
    · exact (prune_spot ..).trans left
    · exact (prune_spot ..).trans (altered_spot altered apart)
    · rw [read,found]
      rfl
  | error fault =>
    have found : find disk (component home id tag) = .error fault ∨ ∃ files, find disk (component home id tag) = .ok (.folder files) ∧
        fault = .isFolder := by
      rcases alter_error altered (@spot_inside home id (finalName tag)) with ⟨before,refused,found⟩ | missing
      · unfold removeFile at refused
        split at refused <;> cases refused
        · exact .inl found
        · exact .inr ⟨_,found,rfl⟩
      · exact .inl missing
    cases fault with
    | notFound =>
      have missing := found.resolve_right fun there => by obtain ⟨_,_,other⟩ := there; cases other
      refine .inl ⟨rfl,⟨(prune_spot ..).trans missing,prune_folder _ _ _,fun _ => prune_spot ..⟩,none,?_⟩
      rw [read,missing]
    | notFolder | isFolder =>
      refine .inr ⟨rfl,?_⟩
      rcases found with blocked | ⟨files,folder,_⟩
      · rw [read,blocked]
      · rw [read,folder]

end Removing

section Going
variable {files : List (String × Node)}

theorem read_ok : (∃ stored, read disk home id tag = .ok stored) ↔ find disk (component home id tag) ≠ .error .notFolder ∧
    ∀ entries, find disk (component home id tag) ≠ .ok (.folder entries) := by
  unfold read
  cases found : find disk (component home id tag) with
  | ok node => cases node <;> simp
  | error fault =>
    cases fault with
    | notFound | notFolder => simp
    | isFolder => exact absurd rfl (find_error found)

-- Only a file on the way or a folder in the place of a file keeps a put from going through.
theorem put_goes : (∃ next, run (putSteps home id tag bytes) disk = (.ok (),next)) ↔ (∃ stored, read disk home id tag = .ok stored) ∧
    ∀ entries, find disk (draft home id tag) ≠ .ok (.folder entries) := by
  rw [read_ok,component,← makeFolders_ok]
  constructor
  · intro goes
    obtain ⟨next,went⟩ := goes
    have stored := put_ok went
    obtain ⟨made,makes,_⟩ := run_append_ok [fun disk => makeFolders disk (sessionFolder home id)] went
    exact ⟨⟨⟨made,run_single_ok makes⟩,stored.free⟩,stored.clear⟩
  · intro goes
    obtain ⟨⟨⟨made,makes⟩,free⟩,clear⟩ := goes
    obtain ⟨files,found,_⟩ := makeFolders_find makes
    have there (key : String) (entries : List (String × Node)) (lies : files.lookup key = some (.folder entries)) :
        find disk (spot home id key) = .ok (.folder entries) := by
      rw [← made_spot makes (List.prefix_refl _),find_inside found,lies]
      rfl
    exact ⟨_,put_inside makes found (fun entries lies => clear entries (there _ _ lies)) fun entries lies => free entries (there _ _ lies)⟩

end Going

section Calls

theorem read_same (same : find next (component home id tag) = find disk (component home id tag)) :
    read next home id tag = read disk home id tag := by
  unfold read
  rw [same]

theorem read_gone (gone : find disk (component home id tag) = .error .notFound) : read disk home id tag = .ok none := by
  rw [read,gone]

theorem key_apart {other : Key} (apart : other ≠ ⟨id,tag⟩) : ¬ (other.id = id ∧ finalName other.tag = finalName tag) := by
  intro same
  obtain ⟨owner,names⟩ := same
  cases other
  cases owner
  cases finalName_injective names
  exact apart rfl

theorem Stored.reads {edited : Directory} (stored : Stored home id tag bytes disk edited.disk) (stays : edited.home = home) :
    reading edited = Function.update (reading (Directory.mk disk home)) ⟨id,tag⟩ (.ok (some bytes)) := by
  subst stays
  rw [Function.eq_update_iff]
  refine ⟨read_some.mpr stored.lies,fun key apart => read_same (stored.others fun same => ?_)⟩
  exact same.2.elim (draftName_apart _ _) fun names => key_apart apart ⟨same.1,names⟩

theorem Removed.reads {edited : Directory} (removed : Removed home id tag disk edited.disk) (stays : edited.home = home) :
    reading edited = Function.update (reading (Directory.mk disk home)) ⟨id,tag⟩ (.ok none) := by
  subst stays
  rw [Function.eq_update_iff]
  exact ⟨read_gone removed.gone,fun key apart => read_same (removed.others (key_apart apart))⟩

theorem put_eq (d : Directory) (id : SessionId) (tag : Tag) (bytes : ByteArray) : (Edit.mk ⟨id,tag⟩ (some bytes)).run d =
    (orIo (run (putSteps d.home id tag bytes) d.disk).1,{ d with disk := (run (putSteps d.home id tag bytes) d.disk).2 }) := rfl

theorem delete_eq (d : Directory) (id : SessionId) (tag : Tag) : (Edit.mk ⟨id,tag⟩ none).run d =
    ((remove d.disk d.home id tag).1,{ d with disk := (remove d.disk d.home id tag).2 }) := rfl

theorem edit_cases (d : Directory) (edit : Edit) :
    (edit.run d).1 = .ok () ∧ reading (edit.run d).2 = Function.update (reading d) edit.key (.ok edit.bytes) ∨
      (edit.run d).1 = .error .io ∧ reading (edit.run d).2 = reading d := by
  obtain ⟨⟨id,tag⟩,_ | bytes⟩ := edit
  · rw [delete_eq]
    rcases remove_cases d.disk d.home id tag with ⟨went,removed,_⟩ | ⟨refused,_⟩
    · exact .inl ⟨went,removed.reads rfl⟩
    · rw [refused]
      exact .inr ⟨rfl,rfl⟩
  · rw [put_eq]
    cases went : run (putSteps d.home id tag bytes) d.disk with
    | mk answer next =>
      cases answer with
      | ok => exact .inl ⟨rfl,(put_ok went).reads rfl⟩
      | error fault =>
        have failed : (run (putSteps d.home id tag bytes) d.disk).1 = .error fault := congrArg Prod.fst went
        refine .inr ⟨rfl,funext fun key => ?_⟩
        have kept := put_error key.id (finalName key.tag) failed fun same => draftName_apart _ _ same.2
        rw [went] at kept
        exact read_same kept

theorem edit_goes (d : Directory) (edit : Edit) : (edit.run d).1 = .ok () ↔ (∃ stored, reading d edit.key = .ok stored) ∧
    (edit.bytes.isSome = true → ∀ entries, find d.disk (draft d.home edit.key.id edit.key.tag) ≠ .ok (.folder entries)) := by
  obtain ⟨⟨id,tag⟩,_ | bytes⟩ := edit
  · rw [delete_eq]
    rcases remove_cases d.disk d.home id tag with ⟨went,_,reads⟩ | ⟨refused,reads⟩
    · exact iff_of_true went ⟨reads,fun none => by cases none⟩
    · refine iff_of_false (by simp [refused]) fun goes => ?_
      obtain ⟨stored,other⟩ := goes.1
      cases reads.symm.trans other
  · rw [put_eq]
    refine Iff.trans ?_ ((@put_goes d.disk d.home id tag bytes).trans (and_congr_right fun _ => ⟨fun clear _ => clear,fun clear => clear rfl⟩))
    cases went : run (putSteps d.home id tag bytes) d.disk with
    | mk answer next => cases answer <;> simp [orIo]

end Calls

section Strokes
variable {piece : ByteArray} {pieces : List ByteArray}

def joined (pieces : List ByteArray) : ByteArray := pieces.foldr (· ++ ·) ByteArray.empty

def appendFile (piece : ByteArray) : Option Node → Except DiskFault (Option Node)
  | none => .error .notFound
  | some (.folder _) => .error .isFolder
  | some (.file bytes) => .ok (some (.file (bytes ++ piece)))

def filling (home : Path) (id : SessionId) (tag : Tag) (pieces : List ByteArray) : List (Node → Except DiskFault Node) :=
  (fun disk => alter (writeFile ByteArray.empty) disk (draft home id tag)) ::
    pieces.map fun piece disk => alter (appendFile piece) disk (draft home id tag)

-- A put in the smallest steps there are: folder by folder, and the bytes in pieces.
def preparing (home : Path) (id : SessionId) (tag : Tag) (pieces : List ByteArray) : List (Node → Except DiskFault Node) :=
  ((sessionFolder home id).inits.map fun path disk => makeFolders disk path) ++ filling home id tag pieces

def strokes (home : Path) (id : SessionId) (tag : Tag) (pieces : List ByteArray) : List (Node → Except DiskFault Node) :=
  preparing home id tag pieces ++ [settling home id tag]

theorem preparing_quiet : ∀ step ∈ preparing home id tag pieces, Quiet home id tag step := by
  intro step present
  simp only [preparing,filling,List.mem_append,List.mem_map,List.mem_inits,List.mem_cons] at present
  rcases present with ⟨path,way,rfl⟩ | rfl | ⟨piece,_,rfl⟩
  · exact quiet_folders way
  · exact quiet_draft _
  · exact quiet_draft _

theorem run_pieces (inside : path ≠ []) (found : find disk path = .ok (.file bytes)) (pieces : List ByteArray) :
    run (pieces.map fun piece disk => alter (appendFile piece) disk path) disk =
      (.ok (),graft disk path (.file (bytes ++ joined pieces))) := by
  induction pieces generalizing disk bytes with
  | nil =>
    change (_,disk) = (_,graft disk path (.file (bytes ++ ByteArray.empty)))
    rw [ByteArray.append_empty,graft_self found]
  | cons piece rest ih =>
    have appends : alter (appendFile piece) disk path = .ok (graft disk path (.file (bytes ++ piece))) :=
      alter_found found inside rfl
    rw [List.map_cons,run,appends]
    dsimp only
    rw [ih (find_graft found _),graft_again found,ByteArray.append_assoc]
    rfl

theorem run_preparing (home : Path) (id : SessionId) (tag : Tag) (pieces : List ByteArray) (disk : Node) :
    run (preparing home id tag pieces) disk = run (drafting home id tag (joined pieces)) disk := by
  have inside : draft home id tag ≠ [] := spot_inside
  have filled (disk : Node) : run (filling home id tag pieces) disk =
      run [fun disk => alter (writeFile ByteArray.empty) disk (draft home id tag),
        fun disk => alter (writeFile (joined pieces)) disk (draft home id tag)] disk := by
    rw [filling,run,run]
    cases creates : alter (writeFile ByteArray.empty) disk (draft home id tag) with
    | error fault => rfl
    | ok next =>
      obtain ⟨before,after,created,_,left,_⟩ := alter_ok creates
      have lies : find next (draft home id tag) = .ok (.file ByteArray.empty) := by
        unfold writeFile at created
        split at created <;> cases created
        exact left
      have writes : alter (writeFile (joined pieces)) next (draft home id tag) =
          .ok (graft next (draft home id tag) (.file (joined pieces))) := alter_found lies inside rfl
      dsimp only
      rw [run_pieces inside lies,run_single,writes,ByteArray.empty_append]
  rw [preparing,run_append,run_stages,funext filled]
  exact (run_append [fun disk => makeFolders disk (sessionFolder home id)] _ disk).symm

theorem run_strokes (home : Path) (id : SessionId) (tag : Tag) (pieces : List ByteArray) (disk : Node) :
    run (strokes home id tag pieces) disk = run (putSteps home id tag (joined pieces)) disk := by
  rw [strokes,putSteps_eq,run_append,run_append,run_preparing]

-- A put that comes to its end after so many of these steps.
def stopped (d : Directory) (id : SessionId) (tag : Tag) (pieces : List ByteArray) (count : Nat) : Directory :=
  { d with disk := (run ((strokes d.home id tag pieces).take count) d.disk).2 }

theorem stopped_short (d : Directory) {count : Nat} (short : count < (strokes d.home id tag pieces).length) :
    reading (d.stopped id tag pieces count) = reading d := by
  funext key
  have quiet : ∀ step ∈ (strokes d.home id tag pieces).take count, Quiet d.home id tag step := by
    intro step present
    rw [strokes,List.length_append,List.length_singleton] at short
    rw [strokes,List.take_append_of_le_length (Nat.le_of_lt_succ short)] at present
    exact preparing_quiet step (List.mem_of_mem_take present)
  exact read_same (quiet_run quiet d.disk fun same => draftName_apart _ _ same.2)

theorem stopped_whole (d : Directory) {count : Nat} (whole : (strokes d.home id tag pieces).length ≤ count) :
    d.stopped id tag pieces count = ((Edit.mk ⟨id,tag⟩ (some (joined pieces))).run d).2 := by
  rw [stopped,List.take_of_length_le whole,run_strokes,put_eq]

end Strokes

-- Each call is read as if it were made at once, whatever lies in the tree: all
-- of it is seen if it goes through and nothing of it if it fails, and what it
-- goes through on is known. A put that is stopped on its way, between any two
-- folders or any two pieces of the bytes, is seen with its last step.
theorem directory_atomic (d : Directory) (edit : Edit) :
    ((edit.run d).1 = .ok () ↔ (∃ stored, reading d edit.key = .ok stored) ∧ (edit.bytes.isSome = true →
      ∀ entries, find d.disk (draft d.home edit.key.id edit.key.tag) ≠ .ok (.folder entries))) ∧
    ((edit.run d).1 = .ok () ∧ reading (edit.run d).2 = Function.update (reading d) edit.key (.ok edit.bytes) ∨
      (edit.run d).1 = .error .io ∧ reading (edit.run d).2 = reading d) ∧
    ∀ pieces count, edit.bytes = some (joined pieces) →
      (count < (strokes d.home edit.key.id edit.key.tag pieces).length →
        reading (d.stopped edit.key.id edit.key.tag pieces count) = reading d) ∧
      ((strokes d.home edit.key.id edit.key.tag pieces).length ≤ count →
        d.stopped edit.key.id edit.key.tag pieces count = (edit.run d).2) := by
  refine ⟨edit_goes d edit,edit_cases d edit,fun pieces count whole => ⟨stopped_short d,fun all => ?_⟩⟩
  obtain ⟨⟨id,tag⟩,bytes⟩ := edit
  cases whole
  exact stopped_whole d all

-- A folder lies in the place of the header, and a draft was left of the facts.
def littered : Directory :=
  ⟨.folder [("sessions",.folder [(SessionId.zero.toText,.folder [("header.json",.folder []),("facts.tmp",.file "[".toUTF8)])])],[]⟩

def headerPut : Edit := ⟨⟨.zero,.header⟩,some "00".toUTF8⟩
def factsPut : Edit := ⟨⟨.zero,.facts⟩,some "00".toUTF8⟩

theorem littered_atomic :
    ((headerPut.run littered).1 = .error .io ∧ reading (headerPut.run littered).2 = reading littered) ∧
    ((factsPut.run littered).1 = .ok () ∧
      reading (factsPut.run littered).2 = Function.update (reading littered) ⟨.zero,.facts⟩ (.ok factsPut.bytes)) ∧
    ∀ count < 7, reading (littered.stopped .zero .facts ["0".toUTF8,"0".toUTF8] count) = reading littered := by
  have refused : (headerPut.run littered).1 ≠ .ok () := by
    intro went
    obtain ⟨⟨stored,read⟩,_⟩ := (directory_atomic littered headerPut).1.mp went
    cases read
  have goes : (factsPut.run littered).1 = .ok () :=
    (directory_atomic littered factsPut).1.mpr ⟨⟨none,rfl⟩,fun _ entries folder => by cases folder⟩
  refine ⟨?_,?_,fun count short => ?_⟩
  · rcases (directory_atomic littered headerPut).2.1 with ⟨went,_⟩ | failed
    · exact absurd went refused
    · exact failed
  · rcases (directory_atomic littered factsPut).2.1 with went | ⟨failed,_⟩
    · exact went
    · cases goes.symm.trans failed
  · exact ((directory_atomic littered factsPut).2.2 _ count rfl).1 short

end Directory
end DurableRules
