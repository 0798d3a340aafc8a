import DurableRules.Store.Basic
import DurableRules.Store.Disk

namespace DurableRules
open Disk

-- A file for every component, in a folder for every session.
structure Directory where
  disk : Node
  home : Path

namespace Directory

def sessionsFolder (home : Path) : Path := home ++ ["sessions"]
def sessionFolder (home : Path) (id : SessionId) : Path := home ++ ["sessions",id.toText]
def finalName (tag : Tag) : String := tag.name ++ ".json"
def draftName (tag : Tag) : String := tag.name ++ ".tmp"
def component (home : Path) (id : SessionId) (tag : Tag) : Path := sessionFolder home id ++ [finalName tag]
def draft (home : Path) (id : SessionId) (tag : Tag) : Path := sessionFolder home id ++ [draftName tag]

-- The steps of a put: the folder, an empty draft, its bytes, and at last the
-- draft in place of the component.
def putSteps (home : Path) (id : SessionId) (tag : Tag) (bytes : ByteArray) :
    List (Node → Except DiskFault Node) :=
  [fun disk => makeFolders disk (sessionFolder home id),
   fun disk => alter (writeFile ByteArray.empty) disk (draft home id tag),
   fun disk => alter (writeFile bytes) disk (draft home id tag),
   fun disk => alter (renameIn (draftName tag) (finalName tag)) disk (sessionFolder home id)]

def read (disk : Node) (home : Path) (id : SessionId) (tag : Tag) : Except StoreError (Option ByteArray) :=
  match find disk (component home id tag) with
  | .ok (.file bytes) => .ok (some bytes)
  | .error .notFound => .ok none
  | _ => .error .io

-- The folder of a session goes with its last entry.
def prune (disk : Node) (home : Path) (id : SessionId) : Node :=
  match alter removeIfEmpty disk (sessionFolder home id) with
  | .ok next => next
  | .error _ => disk

def remove (disk : Node) (home : Path) (id : SessionId) (tag : Tag) : Except StoreError Unit × Node :=
  match alter removeFile disk (component home id tag) with
  | .ok next => (.ok (),prune next home id)
  | .error .notFound => (.ok (),prune disk home id)
  | .error _ => (.error .io,disk)

def present (disk : Node) (path : Path) : Bool :=
  match find disk path with
  | .ok _ => true
  | .error _ => false

def named (entry : String × Node) : Option SessionId :=
  match entry.2 with
  | .folder _ => SessionId.ofText? entry.1
  | .file _ => none

def placeId (id : SessionId) : List SessionId → List SessionId
  | [] => [id]
  | head :: rest => if id.value ≤ head.value then id :: head :: rest else head :: placeId id rest

def sorted (ids : List SessionId) : List SessionId := ids.foldr placeId []

def list (disk : Node) (home : Path) : Except StoreError (List SessionId) :=
  match find disk (sessionsFolder home) with
  | .ok (.folder entries) =>
    .ok (sorted ((entries.filterMap named).filter fun id => present disk (component home id .header)))
  | .ok (.file _) => .error .io
  | .error _ => .ok []

def orIo {α : Type} : Except DiskFault α → Except StoreError α
  | .ok answer => .ok answer
  | .error _ => .error .io

instance : Store Directory where
  put id tag bytes := fun d =>
    let (answer,disk) := run (putSteps d.home id tag bytes) d.disk
    (orIo answer,{ d with disk })
  get id tag := fun d => (read d.disk d.home id tag,d)
  delete id tag := fun d =>
    let (answer,disk) := remove d.disk d.home id tag
    (answer,{ d with disk })
  sessions := fun d => (list d.disk d.home,d)

-- The folder for the sessions is made if it is missing.
def «open» (disk : Node) (home : Path) : Except StoreError Directory := do
  return ⟨← orIo (makeFolders disk (sessionsFolder home)),home⟩

end Directory
end DurableRules
