import DurableRules.Proofs.Store.Filing

namespace DurableRules
open Disk

namespace Memory
variable {m : Memory} {entries : Map Key ByteArray} {id : SessionId} {contents : Contents}

theorem mem_headers : id ∈ headers entries ↔ (entries.get? ⟨id,.header⟩).isSome = true := by
  rw [← Map.contains_eq,← Map.mem_keys]
  unfold headers
  rw [List.mem_map]
  constructor
  · intro listed
    obtain ⟨⟨owner,tag⟩,inside,rfl⟩ := listed
    obtain ⟨there,header⟩ := List.mem_filter.mp inside
    exact eq_of_beq header ▸ there
  · intro there
    exact ⟨_,List.mem_filter.mpr ⟨there,rfl⟩,rfl⟩

theorem headers_pairwise (entries : Map Key ByteArray) : (headers entries).Pairwise fun one two => one.value < two.value := by
  have order : entries.keys.Pairwise fun one two => compare one two = .lt := List.pairwise_map.mpr entries.ascending
  unfold headers
  rw [List.pairwise_map]
  refine List.Pairwise.imp_of_mem (fun {one two} first second less => ?_) (order.filter _)
  have tags : one.tag = two.tag :=
    (eq_of_beq (List.mem_filter.mp first).2).trans (eq_of_beq (List.mem_filter.mp second).2).symm
  have ids : compare one.id two.id = .lt := lt_of_compareLex less (congrArg Tag.rank tags)
  exact Nat.compare_eq_lt.mp ids

structure Keeps (m : Memory) (contents : Contents) : Prop where
  online : m.available = true
  entries : m.entries.get? = contents

theorem online_run {α : Type} (kept : Keeps m contents) (act : Map Key ByteArray → α × Map Key ByteArray) :
    whenOnline act m = (.ok (act m.entries).1,{ m with entries := (act m.entries).2 }) := by
  rw [whenOnline,if_pos kept.online]

theorem keeping : Keeping (fun _ => .ok) Keeps where
  edit {m} _ kept edit := by
    rw [edit_run,online_run kept]
    exact ⟨rfl,kept.online,by rw [change_get?,kept.entries]⟩
  get {m} _ kept id tag := (online_run kept _).trans (congrArg (fun bytes => (Except.ok bytes,m)) (congrFun kept.entries ⟨id,tag⟩))
  sessions {m} _ kept := by
    have lists : (Store.sessions : Call Memory _) m = (.ok (headers m.entries),m) := online_run kept _
    have got (id : SessionId) : (Store.get id .header : Call Memory _) m = (.ok (m.entries.get? ⟨id,.header⟩),m) := online_run kept _
    refine ⟨⟨_,congrArg Prod.fst lists,headers_pairwise m.entries,fun id => ?_⟩,congrArg Prod.snd lists⟩
    rw [mem_headers,got,Option.isSome_iff_exists]
    simp only [Except.ok.injEq]
  reopen kept _ := ⟨_,rfl,kept⟩

theorem keeps_empty : Keeps empty fun _ => none := ⟨rfl,rfl⟩

end Memory

open Query

-- What is said is what a map says, and that is one thing only. Tables in memory
-- are stores too, which are never opened again.
theorem stores_interchangeable {disk place : Node} {home root : Path} {d : Directory} {f : Filed}
    (opened : Directory.open disk home = .ok d)
    (bare : ∀ entries, find disk (Directory.sessionsFolder home) = .ok (.folder entries) → entries = [])
    (filed : Filed.open place root = .ok f)
    (blank : ∀ bytes, find place (Table.file root) = .ok (.file bytes) → bytes.size = 0) (queries : List Query) :
    ∃ said, (∀ others, Recited (fun _ => none) queries others ↔ others = said) ∧
      answers (fun _ => .ok) queries Memory.empty = said.map .ok ∧ answers (fun _ => .ok) queries Table.empty = said.map .ok ∧
      answers Directory.reopen queries d = said.map .ok ∧ answers Filed.reopen queries f = said.map .ok := by
  obtain ⟨said,recited,memory⟩ := Memory.keeping.recited Memory.keeps_empty queries
  refine ⟨said,fun others => ⟨fun other => other.unique recited,fun same => same ▸ recited⟩,memory,?_,?_,?_⟩
  · exact Table.keeping.answers_of_recited Table.keeps_empty recited
  · exact Directory.keeping.answers_of_recited (Directory.keeps_open opened bare) recited
  · exact Filed.keeping.answers_of_recited (Filed.keeps_open filed blank) recited

section Sequence

def nine : SessionId := ⟨9,by decide⟩
def jotted : ByteArray := ⟨#[7]⟩

-- The later session comes first, one is left without its header and the other is closed in between.
def asked : List Query :=
  [.change ⟨⟨ten,.header⟩,some ByteArray.empty⟩,.change ⟨⟨nine,.header⟩,some ByteArray.empty⟩,.change ⟨⟨nine,.facts⟩,some jotted⟩,
   .sessions,.reopen .file,.change ⟨⟨nine,.header⟩,none⟩,.get nine .facts,.reopen .sqlite,.sessions,
   .change ⟨⟨nine,.facts⟩,none⟩,.get nine .facts]
def replied : List Saying :=
  [.done,.done,.done,.listed [nine,ten],.done,.done,.found (some jotted),.done,.listed [ten],.done,.found none]

theorem replied_interchangeable : Recited (fun _ => none) asked replied ∧
    answers (fun _ => .ok) asked Memory.empty = replied.map .ok ∧
    (∃ d, Directory.open (.folder []) ["home"] = .ok d ∧ answers Directory.reopen asked d = replied.map .ok) ∧
    ∃ f, Filed.open (.folder [("home",.folder [("snapshots.db",.file ByteArray.empty)])]) ["home"] = .ok f ∧
      answers Filed.reopen asked f = replied.map .ok := by
  have recited : Recited (fun _ => none) asked replied := by
    refine .cons (.change _) (.cons (.change _) (.cons (.change _) (.cons (.sessions (by decide) fun id => ?_) (.cons (.reopen _)
      (.cons (.change _) (.cons (.get nine .facts) (.cons (.reopen _) (.cons (.sessions (by decide) fun id => ?_)
        (.cons (.change _) (.cons (.get nine .facts) .nil))))))))))
    · by_cases first : id = nine <;> by_cases second : id = ten <;> simp [Function.update_apply,first,second]
    · have apart : nine ≠ ten := by decide
      by_cases first : id = nine
      · simp [first,apart]
      · by_cases second : id = ten <;> simp [first,second,apart.symm]
  have opened : Directory.open (.folder []) ["home"] =
      .ok ⟨.folder [("home",.folder [("sessions",.folder [])])],["home"]⟩ := rfl
  have filed : Filed.open (.folder [("home",.folder [("snapshots.db",.file ByteArray.empty)])]) ["home"] =
      .ok ⟨Table.empty,.folder [("home",.folder [("snapshots.db",.file ByteArray.empty)])],["home"]⟩ := rfl
  obtain ⟨said,only,memory,_,directory,file⟩ := stores_interchangeable opened (fun entries found => by cases found) filed
    (fun bytes found => by cases found; rfl) asked
  cases (only replied).mp recited
  exact ⟨recited,memory,⟨_,opened,directory⟩,_,filed,file⟩

end Sequence

end DurableRules
