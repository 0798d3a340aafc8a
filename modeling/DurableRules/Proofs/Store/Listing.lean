import DurableRules.Proofs.Ordered.Walk
import DurableRules.Proofs.Store.Naming
import DurableRules.Proofs.Store.Tree
import Mathlib.Data.List.Pairwise

namespace DurableRules
open Disk

-- The sessions are listed whose header is found, each once and in ascending order.
def Listed {σ : Type} [Store σ] (store : σ) : Prop := ∃ ids, ((Store.sessions : Call σ _) store).1 = .ok ids ∧
  ids.Pairwise (fun one two => one.value < two.value) ∧
    ∀ id, id ∈ ids ↔ ∃ bytes, ((Store.get id .header : Call σ _) store).1 = .ok (some bytes)

def Covered {σ : Type} [Store σ] (store : σ) : Prop := ∀ ids, ((Store.sessions : Call σ _) store).1 = .ok ids →
  ∀ id bytes, ((Store.get id .header : Call σ _) store).1 = .ok (some bytes) → id ∈ ids

theorem filterMap_nodup {α β : Type} {f : α → Option β} {list : List α} (distinct : list.Nodup) :
    (list.filterMap f).Nodup ↔ ∀ a ∈ list, ∀ b ∈ list, ∀ c, f a = some c → f b = some c → a = b := by
  unfold List.Nodup
  rw [List.pairwise_filterMap]
  constructor
  · intro apart a first b second c isA isB
    by_contra other
    have symmetric : Std.Symm fun a b : α => ∀ c, f a = some c → ∀ d, f b = some d → c ≠ d :=
      ⟨fun _ _ apart c isC d isD => (apart d isD c isC).symm⟩
    exact apart.forall first second other c isA c isB rfl
  · intro single
    refine List.Pairwise.imp_of_mem (fun {a b} first second other c isA d isB same => ?_) distinct
    subst same
    exact other (single a first b second c isA isB)

namespace Directory
variable {d : Directory} {disk : Node} {home : Path} {id : SessionId} {tag : Tag} {entries : List (String × Node)} {bytes : ByteArray}

theorem component_eq (home : Path) (id : SessionId) (tag : Tag) :
    component home id tag = sessionsFolder home ++ [id.toText,finalName tag] := by
  simp [component,sessionFolder,sessionsFolder]

theorem read_some : read disk home id tag = .ok (some bytes) ↔ find disk (component home id tag) = .ok (.file bytes) := by
  unfold read
  split <;> simp_all

theorem find_component (found : find disk (sessionsFolder home) = .ok (.folder entries)) (id : SessionId) (tag : Tag) :
    find disk (component home id tag) = find (.folder entries) [id.toText,finalName tag] := by
  rw [component_eq,find_append,found]
  rfl

theorem folder_of_component {node : Node} (lies : find (.folder entries) [id.toText,finalName tag] = .ok node) :
    ∃ files, entries.lookup id.toText = some (.folder files) ∧ files.lookup (finalName tag) = some node := by
  unfold find at lies
  cases outer : entries.lookup id.toText with
  | none => simp [outer] at lies
  | some held =>
    simp only [outer] at lies
    cases held with
    | file => cases lies
    | folder files =>
      unfold find at lies
      cases inner : files.lookup (finalName tag) with
      | none => simp [inner] at lies
      | some last =>
        simp only [inner] at lies
        cases lies
        exact ⟨files,rfl,inner⟩

def heading (disk : Node) (home : Path) (entry : String × Node) : Option SessionId :=
  (named entry).filter fun id => present disk (component home id .header)

theorem heading_some {entry : String × Node} : heading disk home entry = some id ↔
    named entry = some id ∧ present disk (component home id .header) = true := Option.filter_eq_some_iff

theorem list_eq (found : find disk (sessionsFolder home) = .ok (.folder entries)) :
    list disk home = .ok (sorted (entries.filterMap (heading disk home))) := by
  unfold list
  rw [found]
  simp only [List.filter_filterMap]
  rfl

theorem own_heading (found : find disk (sessionsFolder home) = .ok (.folder entries))
    (lies : present disk (component home id .header) = true) :
    ∃ files, (id.toText,.folder files) ∈ entries ∧ heading disk home (id.toText,.folder files) = some id := by
  have there := lies
  unfold present at there
  rw [find_component found] at there
  cases held : find (.folder entries) [id.toText,finalName .header] with
  | error => simp [held] at there
  | ok node =>
    obtain ⟨files,known,_⟩ := folder_of_component held
    exact ⟨files,mem_of_lookup known,heading_some.mpr ⟨SessionId.ofText?_toText id,lies⟩⟩

theorem mem_headings (found : find disk (sessionsFolder home) = .ok (.folder entries)) :
    id ∈ entries.filterMap (heading disk home) ↔ present disk (component home id .header) = true := by
  rw [List.mem_filterMap]
  constructor
  · intro listed
    obtain ⟨_,_,heads⟩ := listed
    exact (heading_some.mp heads).2
  · intro lies
    obtain ⟨files,inside,heads⟩ := own_heading found lies
    exact ⟨_,inside,heads⟩

theorem present_of_read (read : read disk home id tag = .ok (some bytes)) : present disk (component home id tag) = true := by
  rw [present,read_some.mp read]

-- The list is in order at any rate, and it is strictly so if the folders that
-- are listed have the names that their sessions are written with.
theorem sorted_headings (found : find disk (sessionsFolder home) = .ok (.folder entries))
    (distinct : (entries.map Prod.fst).Nodup) :
    (sorted (entries.filterMap (heading disk home))).Pairwise (fun one two => one.value < two.value) ↔
      ∀ entry ∈ entries, ∀ id, heading disk home entry = some id → entry.1 = id.toText := by
  rw [sorted_strictly,filterMap_nodup distinct.of_map]
  constructor
  · intro single entry inside id heads
    obtain ⟨files,own,same⟩ := own_heading found (heading_some.mp heads).2
    rw [single entry inside _ own id heads same]
  · intro canonical one first two second id isOne isTwo
    exact List.inj_on_of_nodup_map distinct first second
      ((canonical one first id isOne).trans (canonical two second id isTwo).symm)

theorem covered (d : Directory) : Covered d := by
  intro ids listed id bytes got
  have lies := present_of_read got
  change list d.disk d.home = .ok ids at listed
  cases found : find d.disk (sessionsFolder d.home) with
  | error fault =>
    unfold present at lies
    rw [component_eq,find_append,found] at lies
    cases lies
  | ok node =>
    cases node with
    | file => simp [list,found] at listed
    | folder entries =>
      rw [list_eq found] at listed
      cases listed
      exact (sorted_perm _).mem_iff.mpr ((mem_headings found).mpr lies)

theorem ascending (d : Directory) {ids : List SessionId} (listed : ((Store.sessions : Call Directory _) d).1 = .ok ids) :
    ids.Pairwise fun one two => one.value ≤ two.value := by
  change list d.disk d.home = .ok ids at listed
  unfold list at listed
  split at listed
  · cases listed
    exact sorted_pairwise _
  · cases listed
  · cases listed
    exact .nil

theorem listed_iff (distinct : ∀ entries, find d.disk (sessionsFolder d.home) = .ok (.folder entries) → (entries.map Prod.fst).Nodup) :
    Listed d ↔ (∀ bytes, find d.disk (sessionsFolder d.home) ≠ .ok (.file bytes)) ∧
      ∀ entries, find d.disk (sessionsFolder d.home) = .ok (.folder entries) → ∀ entry ∈ entries, ∀ id,
        heading d.disk d.home entry = some id →
          entry.1 = id.toText ∧ ∃ bytes, find d.disk (component d.home id .header) = .ok (.file bytes) := by
  have got (id : SessionId) (bytes : ByteArray) : ((Store.get id .header : Call Directory _) d).1 = .ok (some bytes) ↔
      find d.disk (component d.home id .header) = .ok (.file bytes) := read_some
  have lists : ((Store.sessions : Call Directory _) d).1 = list d.disk d.home := rfl
  unfold Listed
  simp only [got,lists]
  cases found : find d.disk (sessionsFolder d.home) with
  | error fault =>
    have missing (id : SessionId) : find d.disk (component d.home id .header) = .error fault := by
      rw [component_eq,find_append,found]
      rfl
    refine iff_of_true ⟨[],by simp [list,found],.nil,by simp [missing]⟩ ⟨by simp,by simp⟩
  | ok node =>
    cases node with
    | file bytes => exact iff_of_false (by simp [list,found]) (by simp)
    | folder entries =>
      simp only [list_eq found,Except.ok.injEq,exists_eq_left',sorted_headings found (distinct entries found)]
      simp only [(sorted_perm _).mem_iff,mem_headings found]
      constructor
      · intro held
        obtain ⟨canonical,exactly⟩ := held
        refine ⟨by simp,fun others same entry inside id heads => ?_⟩
        cases same
        exact ⟨canonical entry inside id heads,(exactly id).mp (heading_some.mp heads).2⟩
      · intro held
        obtain ⟨_,own⟩ := held
        refine ⟨fun entry inside id heads => (own entries rfl entry inside id heads).1,fun id => ⟨fun lies => ?_,fun file => ?_⟩⟩
        · obtain ⟨files,inside,heads⟩ := own_heading found lies
          exact (own entries rfl _ inside id heads).2
        · obtain ⟨bytes,file⟩ := file
          rw [present,file]

end Directory

namespace Table
variable {rows : Map RowKey ByteArray} {id : SessionId} {key : RowKey}

def titles (rows : Map RowKey ByteArray) : List RowKey := rows.keys.filter (·.tag == Tag.header.name)

theorem headers_eq (rows : Map RowKey ByteArray) : headers rows = (titles rows).filterMap fun key => SessionId.ofText? key.session := rfl

theorem mem_titles : key ∈ titles rows ↔ (rows.get? key).isSome = true ∧ key.tag = Tag.header.name := by
  rw [titles,List.mem_filter,Map.mem_keys,Map.contains_eq,beq_iff_eq]

theorem titles_pairwise (rows : Map RowKey ByteArray) :
    (titles rows).Pairwise fun one two => compare one.session two.session = .lt := by
  have order : rows.keys.Pairwise fun one two => compare one two = .lt := List.pairwise_map.mpr rows.ascending
  refine List.Pairwise.imp_of_mem (fun {one two} first second less => ?_) (order.filter _)
  exact lt_of_compareLex less ((mem_titles.mp first).2.trans (mem_titles.mp second).2.symm)

theorem own_title (lies : (rows.get? (.of id .header)).isSome = true) : .of id .header ∈ titles rows ∧
    SessionId.ofText? (RowKey.of id .header).session = some id :=
  ⟨mem_titles.mpr ⟨lies,rfl⟩,SessionId.ofText?_toText id⟩

theorem mem_headers : id ∈ headers rows ↔ ∃ key, (rows.get? key).isSome = true ∧ key.tag = Tag.header.name ∧
    SessionId.ofText? key.session = some id := by
  rw [headers_eq,List.mem_filterMap]
  exact exists_congr fun key => by rw [mem_titles,and_assoc]

theorem own_header (lies : (rows.get? (.of id .header)).isSome = true) : id ∈ headers rows :=
  mem_headers.mpr ⟨_,lies,rfl,SessionId.ofText?_toText id⟩

theorem headers_pairwise (canonical : ∀ key, (rows.get? key).isSome = true → key.tag = Tag.header.name → ∀ id,
      SessionId.ofText? key.session = some id → key.session = id.toText) :
    (headers rows).Pairwise fun one two => one.value < two.value := by
  rw [headers_eq,List.pairwise_filterMap]
  refine List.Pairwise.imp_of_mem (fun {one two} first second less id isOne other isTwo => ?_) (titles_pairwise rows)
  obtain ⟨lies,tag⟩ := mem_titles.mp first
  obtain ⟨lies',tag'⟩ := mem_titles.mp second
  rw [canonical one lies tag id isOne,canonical two lies' tag' other isTwo] at less
  exact SessionId.compare_toText.mp less

theorem covered (t : Table) : Covered t := by
  intro ids listed id bytes got
  cases listed
  have lies : t.rows.get? (.of id .header) = some bytes := Except.ok.inj got
  exact own_header (lies ▸ rfl)

theorem listed_iff (t : Table) : Listed t ↔
    ∀ key, (t.rows.get? key).isSome = true → key.tag = Tag.header.name → ∀ id, SessionId.ofText? key.session = some id →
      key.session = id.toText := by
  have got (id : SessionId) : ((Store.get id .header : Call Table _) t).1 = .ok (t.rows.get? (.of id .header)) := rfl
  have lists : ((Store.sessions : Call Table _) t).1 = .ok (headers t.rows) := rfl
  unfold Listed
  simp only [got,lists,Except.ok.injEq,exists_eq_left',← Option.isSome_iff_exists]
  constructor
  · intro held key lies tag id reads
    obtain ⟨strict,exactly⟩ := held
    have apart : (headers t.rows).Nodup := by
      refine List.Pairwise.imp (fun {one two} less => ?_) strict
      rintro rfl
      exact Nat.lt_irrefl _ less
    have distinct : (titles t.rows).Nodup := by
      refine List.Pairwise.imp (fun {one two} less => ?_) (titles_pairwise t.rows)
      rintro rfl
      have level : compare one.session one.session = .eq := Std.ReflCmp.compare_self
      cases level.symm.trans less
    obtain ⟨own,same⟩ := own_title ((exactly id).mp (mem_headers.mpr ⟨key,lies,tag,reads⟩))
    rw [headers_eq] at apart
    rw [(filterMap_nodup distinct).mp apart key (mem_titles.mpr ⟨lies,tag⟩) _ own id reads same]
    rfl
  · intro canonical
    refine ⟨headers_pairwise canonical,fun id => ⟨fun listed => ?_,own_header⟩⟩
    obtain ⟨key,lies,tag,reads⟩ := mem_headers.mp listed
    have own : key = .of id .header := congrArg₂ RowKey.mk (canonical key lies tag id reads) tag
    exact own ▸ lies

end Table

-- No session with a header is missing. The list is otherwise right exactly when
-- every folder or row that reads as a session with a header is named as the
-- session is written, and the header in the folder is a file.
theorem sessions_listed_iff (d : Directory) (t : Table)
    (distinct : ∀ entries, find d.disk (Directory.sessionsFolder d.home) = .ok (.folder entries) →
      (entries.map Prod.fst).Nodup) :
    (Covered d ∧
      (∀ ids, ((Store.sessions : Call Directory _) d).1 = .ok ids → ids.Pairwise fun one two => one.value ≤ two.value) ∧
      (Listed d ↔ (∀ bytes, find d.disk (Directory.sessionsFolder d.home) ≠ .ok (.file bytes)) ∧
        ∀ entries, find d.disk (Directory.sessionsFolder d.home) = .ok (.folder entries) → ∀ entry ∈ entries, ∀ id,
          Directory.heading d.disk d.home entry = some id →
            entry.1 = id.toText ∧ ∃ bytes, find d.disk (Directory.component d.home id .header) = .ok (.file bytes))) ∧
    Covered t ∧
      (Listed t ↔ ∀ key, (t.rows.get? key).isSome = true → key.tag = Tag.header.name → ∀ id,
        SessionId.ofText? key.session = some id → key.session = id.toText) :=
  ⟨⟨Directory.covered d,fun _ => Directory.ascending d,Directory.listed_iff distinct⟩,Table.covered t,Table.listed_iff t⟩

section Foreign

def ten : SessionId := ⟨10,by decide⟩
def smallTen : String := "0000000000000000000000000a"

-- The session is in its folder. Beside it is an empty one with the same name in small letters.
def tidied : Directory := ⟨.folder [("sessions",.folder [(ten.toText,.folder [("header.json",.file ByteArray.empty)])])],[]⟩
def cluttered : Directory :=
  ⟨.folder [("sessions",.folder [(ten.toText,.folder [("header.json",.file ByteArray.empty)]),(smallTen,.folder [])])],[]⟩

-- A header of that name is a row that no get finds.
def scribbled : Table := ⟨Map.empty.put ⟨smallTen,Tag.header.name⟩ ByteArray.empty⟩

theorem foreign_listed : Listed tidied ∧
    (¬ Listed cluttered ∧ ((Store.sessions : Call Directory _) cluttered).1 = .ok [ten,ten]) ∧
    ¬ Listed scribbled ∧ ((Store.sessions : Call Table _) scribbled).1 = .ok [ten] ∧
      ((Store.get ten .header : Call Table _) scribbled).1 = .ok none := by
  have tidy : find tidied.disk (Directory.sessionsFolder tidied.home) =
      .ok (.folder [(ten.toText,.folder [("header.json",.file ByteArray.empty)])]) := rfl
  have clutter : find cluttered.disk (Directory.sessionsFolder cluttered.home) =
      .ok (.folder [(ten.toText,.folder [("header.json",.file ByteArray.empty)]),(smallTen,.folder [])]) := rfl
  obtain ⟨⟨_,_,clean⟩,_,_⟩ := sessions_listed_iff tidied scribbled fun entries found => by
    cases tidy.symm.trans found
    decide +kernel
  obtain ⟨⟨_,_,foreign⟩,_,rows⟩ := sessions_listed_iff cluttered scribbled fun entries found => by
    cases clutter.symm.trans found
    decide +kernel
  refine ⟨?_,⟨fun listed => ?_,by decide +kernel⟩,fun listed => ?_,by decide +kernel,by decide +kernel⟩
  · refine clean.mpr ⟨by simp [tidy],fun entries found entry inside id heads => ?_⟩
    cases tidy.symm.trans found
    cases List.mem_singleton.mp inside
    have own : Directory.heading tidied.disk tidied.home (ten.toText,.folder [("header.json",.file ByteArray.empty)]) = some ten := by
      decide +kernel
    cases own.symm.trans heads
    exact ⟨rfl,ByteArray.empty,rfl⟩
  · have again : Directory.heading cluttered.disk cluttered.home (smallTen,.folder []) = some ten := by decide +kernel
    have same : smallTen = ten.toText := ((foreign.mp listed).2 _ clutter _ (by simp) ten again).1
    revert same
    decide +kernel
  · have canonical := rows.mp listed ⟨smallTen,Tag.header.name⟩ (by decide +kernel) rfl ten (by decide +kernel)
    revert canonical
    decide +kernel

end Foreign

end DurableRules
