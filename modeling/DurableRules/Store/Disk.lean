namespace DurableRules

-- A tree of folders and files. Of entries with one name the first counts.
inductive Node where
  | file (bytes : ByteArray)
  | folder (entries : List (String × Node))

abbrev Path := List String

inductive DiskFault where
  | notFound
  | notFolder
  | isFolder
deriving DecidableEq

namespace Disk

def replaceEntry (name : String) (node : Node) : List (String × Node) → List (String × Node)
  | [] => [(name,node)]
  | entry :: rest => if entry.1 = name then (name,node) :: rest else entry :: replaceEntry name node rest

def removeEntry (name : String) (entries : List (String × Node)) : List (String × Node) :=
  entries.filter (·.1 != name)

def putEntry (name : String) (slot : Option Node) (entries : List (String × Node)) : List (String × Node) :=
  match slot with
  | some node => replaceEntry name node entries
  | none => removeEntry name entries

def find : Node → Path → Except DiskFault Node
  | node, [] => .ok node
  | .file _, _ :: _ => .error .notFolder
  | .folder entries, name :: rest =>
    match entries.lookup name with
    | none => .error .notFound
    | some node => find node rest

-- The change of one entry. Nothing changes when the change is refused.
def alter (change : Option Node → Except DiskFault (Option Node)) : Node → Path → Except DiskFault Node
  | _, [] => .error .isFolder
  | .file _, _ :: _ => .error .notFolder
  | .folder entries, [name] => do return .folder (putEntry name (← change (entries.lookup name)) entries)
  | .folder entries, name :: rest =>
    match entries.lookup name with
    | none => .error .notFound
    | some node => do return .folder (replaceEntry name (← alter change node rest) entries)

def makeFolders : Node → Path → Except DiskFault Node
  | .file _, _ => .error .notFolder
  | .folder entries, [] => .ok (.folder entries)
  | .folder entries, name :: rest => do
    let node := (entries.lookup name).getD (.folder [])
    return .folder (replaceEntry name (← makeFolders node rest) entries)

def writeFile (bytes : ByteArray) : Option Node → Except DiskFault (Option Node)
  | some (.folder _) => .error .isFolder
  | _ => .ok (some (.file bytes))

def removeFile : Option Node → Except DiskFault (Option Node)
  | none => .error .notFound
  | some (.folder _) => .error .isFolder
  | some (.file _) => .ok none

def renameIn (source target : String) : Option Node → Except DiskFault (Option Node)
  | none => .error .notFound
  | some (.file _) => .error .notFolder
  | some (.folder entries) =>
    match entries.lookup source, entries.lookup target with
    | none, _ => .error .notFound
    | some _, some (.folder _) => .error .isFolder
    | some node, _ => .ok (some (.folder (replaceEntry target node (removeEntry source entries))))

def removeIfEmpty : Option Node → Except DiskFault (Option Node)
  | some (.folder []) => .ok none
  | slot => .ok slot

def run : List (Node → Except DiskFault Node) → Node → Except DiskFault Unit × Node
  | [], disk => (.ok (),disk)
  | step :: rest, disk =>
    match step disk with
    | .ok next => run rest next
    | .error fault => (.error fault,disk)

end Disk
end DurableRules
