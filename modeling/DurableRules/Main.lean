import DurableRules.CommandLine.Run

namespace DurableRules.Shell

def entryAt (folder name : String) : IO.FS.DirEntry := ⟨folder,name⟩

partial def load (entry : IO.FS.DirEntry) : IO Node := do
  if ← entry.path.isDir then
    let rows ← (← entry.path.readDir).mapM fun inner => do return (inner.fileName,← load inner)
    return .folder rows.toList
  else return .file (← IO.FS.readBinFile entry.path)

-- Of the home only what a store may keep there.
def loadHome (home : String) : IO (List (String × Node)) := do
  let rows ← ["sessions","snapshots.db"].mapM fun name => do
    let entry := entryAt home name
    if ← entry.path.pathExists then return [(name,← load entry)] else return []
  return rows.flatten

def place (path : Path) (node : Node) : Node :=
  path.foldr (fun name node => .folder [(name,node)]) node

def replaceFile (entry : IO.FS.DirEntry) (bytes : ByteArray) : IO Unit := do
  let draft := entryAt entry.root.toString (entry.fileName ++ ".new")
  IO.FS.writeBinFile draft.path bytes
  IO.FS.rename draft.path entry.path

partial def save (entry : IO.FS.DirEntry) : Option Node → Node → IO Unit
  | some (.file old), .file new => if old == new then pure () else replaceFile entry new
  | _, .file new => replaceFile entry new
  | old, .folder rows => do
    let before := match old with
      | some (.folder rows) => rows
      | _ => []
    IO.FS.createDirAll entry.path
    for (name,node) in rows do
      save (entryAt entry.path.toString name) (before.lookup name) node
    for (name,node) in before do
      if (rows.lookup name).isNone then
        let gone := entryAt entry.path.toString name
        match node with
        | .file _ => IO.FS.removeFile gone.path
        | .folder _ => IO.FS.removeDirAll gone.path

def randomId : IO SessionId := do
  let bytes ← IO.getRandomBytes 16
  return SessionId.ofNat (bytes.toList.foldl (fun n byte => n * 256 + byte.toNat) 0)

def environment : List String :=
  ["HOME","RULEWARD_HOME","RULEWARD_STORE","RULEWARD_PERSISTENCE","RULEWARD_SAFEPOINT"]

def report (printed : Printed) : IO UInt32 := do
  for line in printed.lines do IO.println line
  match printed.failure with
  | none => return 0
  | some failure =>
    for line in failure.lines do IO.eprintln line
    return 1

def makeHome (home : String) : IO Bool := do
  try
    IO.FS.createDirAll (entryAt home "").path
    return true
  catch _ => return false

def perform (settings : Settings) (action : Action) : IO UInt32 := do
  let fresh ← randomId
  if settings.store = .memory then
    report (Invocation.perform fresh settings action (.folder [])).1
  else if !(← makeHome settings.home) then report (Invocation.failed (Report.ofOpening .io))
  else
    let rows ← loadHome settings.home
    let path := Route.destination [] (Route.ofText settings.home)
    let (printed,disk) := Invocation.perform fresh settings action (place path (.folder rows))
    match Disk.find disk path with
    | .ok (.folder after) => save (entryAt settings.home "") (some (.folder rows)) (.folder after)
    | _ => pure ()
    report printed

def run (arguments : List String) : IO UInt32 := do
  match Invocation.ofArguments arguments with
  | none =>
    IO.eprintln "usage: [--home DIR] [--store KIND] [--persistence P] [--safepoint S] demo | sessions | show ID | destroy ID"
    return 2
  | some .version => report ⟨[Invocation.versionLine],none⟩
  | some (.command flags action) =>
    let vars ← environment.mapM fun name => do return (name,← IO.getEnv name)
    match Invocation.settings (fun name => (vars.lookup name).join) flags with
    | .error failure => report (Invocation.failed failure)
    | .ok settings => perform settings action

end DurableRules.Shell

def main (arguments : List String) : IO UInt32 := DurableRules.Shell.run arguments
