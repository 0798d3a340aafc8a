import DurableRules.Identity

namespace DurableRules

-- Which handles are live and at which version, which handle comes next, and
-- which activations have fired.
structure Roster where
  nextHandle : Handle
  versions : Map Handle Version
  fired : Members Activation
deriving DecidableEq

structure Unallocated where
  handle : Handle
  nextHandle : Handle
deriving DecidableEq

def Unallocated.message (e : Unallocated) : String :=
  "handle " ++ showHandle e.handle ++ " is outside the allocated range (next handle " ++
    showNat e.nextHandle ++ ")"

namespace Roster

def empty : Roster := ⟨1,Map.empty,Map.empty⟩

def allocated (nextHandle handle : Handle) : Bool := handle != 0 && handle < nextHandle

-- The least handle out of range is named.
def restore (nextHandle : Handle) (versions : Map Handle Version) (fired : Members Activation) :
    Except Unallocated Roster :=
  match versions.keys.find? (fun handle => !allocated nextHandle handle) with
  | some handle => .error ⟨handle,nextHandle⟩
  | none => .ok ⟨nextHandle,versions,fired⟩

-- The numbers that are counted up have no bound here. Engine/Counting has the same
-- operations with words.
def allocate (r : Roster) : Identity × Roster :=
  (⟨r.nextHandle,0⟩,
    { r with nextHandle := r.nextHandle + 1, versions := r.versions.put r.nextHandle 0 })

def identity (r : Roster) (handle : Handle) : Option Identity :=
  (r.versions.get? handle).map (fun version => ⟨handle,version⟩)

def bump (r : Roster) (handle : Handle) : Option Identity × Roster :=
  match r.versions.get? handle with
  | none => (none,r)
  | some version =>
    (some ⟨handle,version + 1⟩,{ r with versions := r.versions.put handle (version + 1) })

def retire (r : Roster) (handle : Handle) : Bool × Roster :=
  (r.versions.contains handle,{ r with versions := r.versions.erase handle })

def isLive (r : Roster) (handle : Handle) : Bool := r.versions.contains handle

def isCurrent (r : Roster) (activation : Activation) : Bool :=
  activation.tuple.all (fun i => r.versions.get? i.handle == some i.version)

def hasFired (r : Roster) (activation : Activation) : Bool := r.fired.contains activation

-- False when the marker was already there.
def record (r : Roster) (activation : Activation) : Bool × Roster :=
  (!r.hasFired activation,{ r with fired := r.fired.insert activation })

end Roster
end DurableRules
