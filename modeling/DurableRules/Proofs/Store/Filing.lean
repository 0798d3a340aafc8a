import DurableRules.Proofs.Json.RoundTrip
import DurableRules.Proofs.Store.Shelving
import DurableRules.Store.RowFile

namespace DurableRules
open Disk

namespace Table
variable {t : Table} {disk : Node} {home : Path} {id : SessionId} {tag : Tag} {bytes : ByteArray} {contents : Contents}

section Rows

theorem toList_loop (bytes : ByteArray) (place : Nat) (done : List UInt8) :
    ByteArray.toList.loop bytes place done = done.reverse ++ bytes.data.toList.drop place := by
  induction place, done using ByteArray.toList.loop.induct bytes with
  | case1 place done inside ih =>
    have small : place < bytes.data.toList.length := inside
    have byte : bytes.get! place = bytes.data.toList[place] := getElem!_pos bytes.data place inside
    rw [ByteArray.toList.loop,if_pos inside,ih,List.drop_eq_getElem_cons small,byte]
    simp
  | case2 place done outside =>
    have beyond : bytes.data.toList.length ≤ place := Nat.le_of_not_lt outside
    rw [ByteArray.toList.loop,if_neg outside,List.drop_eq_nil_of_le beyond,List.append_nil]

theorem bytesOf_hexByte (bytes : List UInt8) : bytesOf (bytes.flatMap hexByte) = some bytes := by
  induction bytes with
  | nil => rfl
  | cons byte rest ih =>
    have small : byte.toNat < 256 := byte.toNat_lt
    have whole : byte.toNat / 16 % 16 * 16 + byte.toNat % 16 = byte.toNat := by omega
    simp only [List.flatMap_cons,hexByte,List.cons_append,List.nil_append,bytesOf,Json.hexValue?_hexDigit,ih,
      Option.bind_eq_bind,Option.bind_some,whole,UInt8.ofNat_toNat]
    rfl

theorem ofHex_hex (bytes : ByteArray) : ofHex (hex bytes) = some bytes := by
  rw [ofHex,hex,String.toList_ofList,bytesOf_hexByte,ByteArray.toList,toList_loop]
  rfl

def writeRow (row : RowKey × ByteArray) : Json.Tree :=
  .array [Json.string row.1.session,Json.string row.1.tag,Json.string (hex row.2)]

theorem conveys_row (row : RowKey × ByteArray) : Json.Conveys readRow (writeRow row) row := by
  constructor
  · refine .array fun tree inside => ?_
    simp only [List.mem_cons,List.not_mem_nil,or_false] at inside
    rcases inside with rfl | rfl | rfl <;> exact Json.spelled_string _
  · simp only [writeRow,readRow,(Json.conveys_string _).reads,ofHex_hex,bind,Except.bind]
    rfl

theorem ofBytes_toBytes (t : Table) : ofBytes t.toBytes = .ok t := by
  have reads : Json.decode (Json.readList readRow) t.toBytes = .ok t.rows.rows :=
    (Json.conveys_list fun row _ => conveys_row row).decode
  have refused : Json.decode (Json.readList readRow) ByteArray.empty = .error .malformed := rfl
  have some : t.toBytes.size ≠ 0 := by
    intro nothing
    rw [ByteArray.size_eq_zero_iff.mp nothing,refused] at reads
    cases reads
  rw [ofBytes,if_neg some,reads]
  exact congrArg (fun rows => Except.ok (Table.mk rows)) (Map.ofList_rows t.rows)

end Rows

section Keys

theorem of_injective {one two : Key} (same : RowKey.of one.id one.tag = RowKey.of two.id two.tag) : one = two := by
  obtain ⟨id,tag⟩ := one
  obtain ⟨id',tag'⟩ := two
  simp only [RowKey.of,RowKey.mk.injEq] at same
  obtain ⟨texts,names⟩ := same
  cases SessionId.toText_injective texts
  have tags : tag = tag' := by
    revert names
    cases tag <;> cases tag' <;> decide
  rw [tags]

-- The rows are those of a map, under the texts of its keys.
structure Keeps (t : Table) (contents : Contents) : Prop where
  rows (id : SessionId) (tag : Tag) : t.rows.get? (.of id tag) = contents ⟨id,tag⟩
  own {key : RowKey} : (t.rows.get? key).isSome = true → ∃ id tag, key = .of id tag

theorem keeps_empty : Keeps empty fun _ => none := ⟨fun _ _ => rfl,fun lies => by cases lies⟩

def change (edit : Edit) (t : Table) : Table :=
  ⟨match edit.bytes with
    | some bytes => t.rows.put (.of edit.key.id edit.key.tag) bytes
    | none => t.rows.erase (.of edit.key.id edit.key.tag)⟩

theorem edit_run (edit : Edit) (t : Table) : edit.run t = (.ok (),change edit t) := by
  obtain ⟨key,_ | bytes⟩ := edit <;> rfl

@[simp] theorem change_get? (edit : Edit) (t : Table) (key : RowKey) : (change edit t).rows.get? key =
    if key = .of edit.key.id edit.key.tag then edit.bytes else t.rows.get? key := by
  obtain ⟨changed,_ | bytes⟩ := edit
  · exact Map.get?_erase t.rows _ key
  · exact Map.get?_put t.rows _ key bytes

theorem keeps_change (kept : Keeps t contents) (edit : Edit) :
    Keeps (change edit t) (Function.update contents edit.key edit.bytes) := by
  refine ⟨fun id tag => ?_,fun {key} lies => ?_⟩
  · rw [change_get?,Function.update_apply,kept.rows]
    by_cases same : (⟨id,tag⟩ : Key) = edit.key
    · rw [if_pos same,if_pos (congrArg (fun key : Key => RowKey.of key.id key.tag) same)]
    · rw [if_neg same,if_neg fun equal => same (@of_injective ⟨id,tag⟩ edit.key equal)]
  · rw [change_get?] at lies
    split at lies
    · next same => exact ⟨_,_,same⟩
    · exact kept.own lies

theorem keeps_listed (kept : Keeps t contents) : Listed t := by
  refine (listed_iff t).mpr fun key lies _ id reads => ?_
  obtain ⟨owner,tag,rfl⟩ := kept.own lies
  rw [SessionId.ofText?_some reads rfl]
  rfl

theorem keeping : Keeping (fun _ => .ok) Keeps where
  edit kept edit := by
    rw [edit_run]
    exact ⟨rfl,keeps_change kept edit⟩
  get {t} _ kept id tag := congrArg (fun bytes => (Except.ok bytes,t)) (kept.rows id tag)
  sessions kept := ⟨keeps_listed kept,rfl⟩
  reopen kept _ := ⟨_,rfl,kept⟩

end Keys
end Table

-- A table with the folder of its file, which is written when the table is closed.
structure Filed where
  table : Table
  disk : Node
  home : Path

namespace Filed
variable {f : Filed} {t : Table} {disk next : Node} {home : Path} {entries : List (String × Node)} {contents : Contents}

def through {α : Type} (call : Call Table α) : Call Filed α := fun f => Call.within ({ f with table := · }) f.table call f

instance : Store Filed where
  put id tag bytes := through (Store.put id tag bytes)
  get id tag := through (Store.get id tag)
  delete id tag := through (Store.delete id tag)
  sessions := through Store.sessions

def «open» (disk : Node) (home : Path) : Except StoreError Filed :=
  (Table.open disk home).map fun (table,disk) => ⟨table,disk,home⟩

def reopen : StoreKind → Filed → Except StoreError Filed
  | .sqlite, f => Filed.open (f.table.save f.disk f.home) f.home
  | .memory, f | .file, f => .ok f

theorem edit_run (edit : Edit) (f : Filed) : edit.run f = (.ok (),{ f with table := f.table.change edit }) := by
  obtain ⟨key,_ | bytes⟩ := edit <;> rfl

structure Keeps (f : Filed) (contents : Contents) : Prop where
  table : f.table.Keeps contents
  place : ∃ entries, find f.disk f.home = .ok (.folder entries) ∧ ∀ files, entries.lookup "snapshots.db" ≠ some (.folder files)

theorem find_file (found : find disk home = .ok (.folder entries)) : find disk (Table.file home) =
    match entries.lookup "snapshots.db" with
    | some node => .ok node
    | none => .error .notFound := by
  rw [Table.file,find_append,found]
  change find (.folder entries) ["snapshots.db"] = _
  rw [find]
  cases entries.lookup "snapshots.db" <;> rfl

theorem save_find (t : Table) (found : find disk home = .ok (.folder entries))
    (free : ∀ files, entries.lookup "snapshots.db" ≠ some (.folder files)) :
    find (t.save disk home) home = .ok (.folder (replaceEntry "snapshots.db" (.file t.toBytes) entries)) := by
  have write : writeFile t.toBytes (entries.lookup "snapshots.db") = .ok (some (.file t.toBytes)) := by
    cases lies : entries.lookup "snapshots.db" with
    | none => rfl
    | some node =>
      cases node with
      | file => rfl
      | folder files => exact absurd lies (free files)
  obtain ⟨tree,went,after⟩ := alter_within found (alter_entry write)
  rw [Table.save,Table.file,went]
  exact after

theorem open_file {bytes : ByteArray} (found : find disk home = .ok (.folder entries))
    (lies : entries.lookup "snapshots.db" = some (.file bytes)) (read : Table.ofBytes bytes = .ok t) :
    ∃ next, Filed.open disk home = .ok ⟨t,next,home⟩ ∧ find next home = .ok (.folder entries) := by
  have made := makeFolders_there found
  refine ⟨disk,?_,found⟩
  simp only [Filed.open,Table.open,made,Directory.orIo,find_file found,lies,read,bind,Except.bind,pure,Except.pure,Except.map]

theorem keeps_again (kept : Keeps f contents) :
    ∃ next, Filed.open (f.table.save f.disk f.home) f.home = .ok next ∧ Keeps next contents := by
  obtain ⟨table,entries,found,free⟩ := kept
  have lies : (replaceEntry "snapshots.db" (.file f.table.toBytes) entries).lookup "snapshots.db" =
      some (.file f.table.toBytes) := lookup_replaceEntry.trans (if_pos rfl)
  obtain ⟨next,opened,after⟩ := open_file (save_find f.table found free) lies (Table.ofBytes_toBytes f.table)
  exact ⟨_,opened,table,_,after,fun files same => by cases lies.symm.trans same⟩

theorem keeping : Keeping reopen Keeps where
  edit {f} _ kept edit := by
    rw [edit_run]
    exact ⟨rfl,Table.keeps_change kept.table edit,kept.place⟩
  get {f} _ kept id tag := congrArg (fun bytes => (Except.ok bytes,f)) (kept.table.rows id tag)
  sessions kept := ⟨Table.keeps_listed kept.table,rfl⟩
  reopen kept kind :=
    match kind with
    | .sqlite => keeps_again kept
    | .memory | .file => ⟨_,rfl,kept⟩

theorem keeps_open (opened : Filed.open disk home = .ok f)
    (fresh : ∀ bytes, find disk (Table.file home) = .ok (.file bytes) → bytes.size = 0) : Keeps f fun _ => none := by
  unfold Filed.open Table.open at opened
  cases made : makeFolders disk home with
  | error fault => simp [made,Directory.orIo,bind,Except.bind,Except.map] at opened
  | ok next =>
    obtain ⟨entries,found,before⟩ := makeFolders_find made
    have empties {bytes : ByteArray} (lies : entries.lookup "snapshots.db" = some (.file bytes)) : bytes.size = 0 := by
      rcases before with there | ⟨_,nothing⟩
      · exact fresh bytes (by rw [find_file there,lies])
      · rw [nothing] at lies
        cases lies
    simp only [made,Directory.orIo,find_file found,bind,Except.bind,pure,Except.pure] at opened
    cases lies : entries.lookup "snapshots.db" with
    | none =>
      simp only [lies,Except.map,Except.ok.injEq] at opened
      subst opened
      exact ⟨Table.keeps_empty,entries,found,fun files same => by cases lies.symm.trans same⟩
    | some node =>
      cases node with
      | folder files => simp [lies,throw,throwThe,MonadExceptOf.throw,Except.map] at opened
      | file bytes =>
        simp only [lies,Table.ofBytes,empties lies,if_true,Except.map,Except.ok.injEq] at opened
        subst opened
        exact ⟨Table.keeps_empty,entries,found,fun files same => by cases lies.symm.trans same⟩

end Filed
end DurableRules
