import DurableRules.Proofs.Store.Faithful
import DurableRules.Proofs.Store.Listing
import DurableRules.Store.Backend

namespace DurableRules

abbrev Contents := Key → Option ByteArray

-- What may be asked of stores of every kind: the four calls. One of them may also be closed and opened again.
inductive Query where
  | change (edit : Edit)
  | get (id : SessionId) (tag : Tag)
  | sessions
  | reopen (kind : StoreKind)

namespace Query

inductive Saying where
  | done
  | found (bytes : Option ByteArray)
  | listed (ids : List SessionId)

variable {contents after later : Contents} {query : Query} {queries : List Query} {saying other : Saying}
  {said others : List Saying}

-- What a map answers. There is nothing in it but the bytes under each key.
inductive Told (contents : Contents) : Query → Saying → Contents → Prop where
  | change (edit : Edit) : Told contents (.change edit) .done (Function.update contents edit.key edit.bytes)
  | get (id : SessionId) (tag : Tag) : Told contents (.get id tag) (.found (contents ⟨id,tag⟩)) contents
  | sessions {ids : List SessionId} (ascending : ids.Pairwise fun one two => one.value < two.value)
      (headed : ∀ id, id ∈ ids ↔ (contents ⟨id,.header⟩).isSome = true) : Told contents .sessions (.listed ids) contents
  | reopen (kind : StoreKind) : Told contents (.reopen kind) .done contents

inductive Recited : Contents → List Query → List Saying → Prop where
  | nil {contents : Contents} : Recited contents [] []
  | cons {contents after : Contents} {query : Query} {saying : Saying} {queries : List Query} {said : List Saying}
      (told : Told contents query saying after) (rest : Recited after queries said) :
      Recited contents (query :: queries) (saying :: said)

theorem ascending_unique {one two : List SessionId} (first : one.Pairwise fun one two => one.value < two.value)
    (second : two.Pairwise fun one two => one.value < two.value) (same : ∀ id, id ∈ one ↔ id ∈ two) : one = two := by
  have apart {ids : List SessionId} (ascending : ids.Pairwise fun one two => one.value < two.value) : ids.Nodup :=
    ascending.imp fun less equal => Nat.ne_of_lt less (congrArg SessionId.value equal)
  have level := (List.perm_ext_iff_of_nodup (apart first) (apart second)).mpr same
  exact level.eq_of_pairwise (fun _ _ _ _ less more => absurd more (Nat.lt_asymm less)) first second

theorem Told.unique (one : Told contents query saying after) (two : Told contents query other later) :
    saying = other ∧ after = later := by
  cases one with
  | change | get | reopen =>
    cases two
    exact ⟨rfl,rfl⟩
  | sessions ascending headed =>
    cases two with
    | sessions ascending' headed' =>
      exact ⟨congrArg Saying.listed (ascending_unique ascending ascending' fun id => (headed id).trans (headed' id).symm),rfl⟩

theorem Recited.unique (one : Recited contents queries said) (two : Recited contents queries others) : said = others := by
  induction one generalizing others with
  | nil =>
    cases two
    rfl
  | cons told rest ih =>
    cases two with
    | cons told' rest' =>
      obtain ⟨rfl,rfl⟩ := told.unique told'
      rw [ih rest']

section Asking
variable {σ : Type} [Store σ]

def run (reopen : StoreKind → σ → Except StoreError σ) : Query → Call σ Saying
  | change edit => do edit.run; return .done
  | get id tag => return .found (← Store.get id tag)
  | sessions => return .listed (← Store.sessions)
  | .reopen kind => fun store =>
    match reopen kind store with
    | .ok next => (.ok .done,next)
    | .error cause => (.error cause,store)

def answers (reopen : StoreKind → σ → Except StoreError σ) : List Query → σ → List (Except StoreError Saying)
  | [], _ => []
  | query :: rest, store => (query.run reopen store).1 :: answers reopen rest (query.run reopen store).2

end Asking
end Query

-- A store is known to hold a map as long as only these calls are made.
structure Keeping {σ : Type} [Store σ] (reopen : StoreKind → σ → Except StoreError σ) (keeps : σ → Contents → Prop) : Prop where
  edit {store : σ} {contents : Contents} (kept : keeps store contents) (edit : Edit) :
    (edit.run store).1 = .ok () ∧ keeps (edit.run store).2 (Function.update contents edit.key edit.bytes)
  get {store : σ} {contents : Contents} (kept : keeps store contents) (id : SessionId) (tag : Tag) :
    (Store.get id tag : Call σ _) store = (.ok (contents ⟨id,tag⟩),store)
  sessions {store : σ} {contents : Contents} (kept : keeps store contents) :
    Listed store ∧ ((Store.sessions : Call σ _) store).2 = store
  reopen {store : σ} {contents : Contents} (kept : keeps store contents) (kind : StoreKind) :
    ∃ next, reopen kind store = .ok next ∧ keeps next contents

namespace Keeping
open Query
variable {σ : Type} [Store σ] {reopen : StoreKind → σ → Except StoreError σ} {keeps : σ → Contents → Prop}
  {store : σ} {contents : Contents}

theorem told (keeping : Keeping reopen keeps) (kept : keeps store contents) (query : Query) :
    ∃ saying after next, query.run reopen store = (.ok saying,next) ∧ Told contents query saying after ∧ keeps next after := by
  cases query with
  | change edit =>
    obtain ⟨went,next⟩ := keeping.edit kept edit
    exact ⟨_,_,_,bind_of_ok (Prod.ext went rfl),.change edit,next⟩
  | get id tag => exact ⟨_,_,_,bind_of_ok (keeping.get kept id tag),.get id tag,kept⟩
  | sessions =>
    obtain ⟨⟨ids,listed,ascending,exactly⟩,same⟩ := keeping.sessions kept
    refine ⟨_,_,_,bind_of_ok (Prod.ext listed same),.sessions ascending fun id => (exactly id).trans ?_,kept⟩
    simp only [keeping.get kept,Except.ok.injEq,Option.isSome_iff_exists]
  | reopen kind =>
    obtain ⟨next,opened,held⟩ := keeping.reopen kept kind
    exact ⟨.done,contents,next,by simp only [Query.run,opened],.reopen kind,held⟩

theorem recited (keeping : Keeping reopen keeps) (kept : keeps store contents) (queries : List Query) :
    ∃ said, Recited contents queries said ∧ answers reopen queries store = said.map .ok := by
  induction queries generalizing store contents with
  | nil => exact ⟨[],.nil,rfl⟩
  | cons query rest ih =>
    obtain ⟨saying,after,next,went,told,held⟩ := keeping.told kept query
    obtain ⟨said,recited,same⟩ := ih held
    refine ⟨saying :: said,.cons told recited,?_⟩
    rw [answers,went,same]
    rfl

theorem answers_of_recited (keeping : Keeping reopen keeps) (kept : keeps store contents) {queries : List Query}
    {said : List Saying} (recited : Recited contents queries said) : answers reopen queries store = said.map .ok := by
  obtain ⟨others,recites,same⟩ := keeping.recited kept queries
  rw [same,recites.unique recited]

end Keeping
end DurableRules
