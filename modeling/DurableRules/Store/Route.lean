import DurableRules.Store.Disk

namespace DurableRules

-- Two dots lead back to the folder above.
abbrev Route := List String

namespace Route

def ofText (text : String) : Route := (text.splitOn "/").filter (fun name => name ≠ "" ∧ name ≠ ".")

def stations : Path → Route → List Path
  | _, [] => []
  | here, name :: rest =>
    let next := if name = ".." then here.dropLast else here ++ [name]
    next :: stations next rest

def destination (here : Path) (route : Route) : Path := (stations here route).getLastD here

-- The folders on the way are made one after the other, so two dots always lead
-- back from a folder that is there.
def travel (route : Route) (disk : Node) : Except DiskFault Unit × Node :=
  Disk.run ((stations [] route).map fun path disk => Disk.makeFolders disk path) disk

end Route
end DurableRules
