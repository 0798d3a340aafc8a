import DurableRules.Json.Read
import DurableRules.Store.Directory
import DurableRules.Store.Table

namespace DurableRules
open Disk

namespace Table

def hexByte (byte : UInt8) : List Char := [Json.hexDigit (byte.toNat / 16),Json.hexDigit byte.toNat]

def hex (bytes : ByteArray) : String := String.ofList (bytes.toList.flatMap hexByte)

def bytesOf : List Char → Option (List UInt8)
  | [] => some []
  | high :: low :: rest => do
    let one ← Json.hexValue? high
    let two ← Json.hexValue? low
    return UInt8.ofNat (one * 16 + two) :: (← bytesOf rest)
  | [_] => none

def ofHex (text : String) : Option ByteArray := (bytesOf text.toList).map fun bytes => ⟨bytes.toArray⟩

def toBytes (table : Table) : ByteArray :=
  (Json.Tree.array (table.rows.rows.map fun (key,bytes) =>
    .array [Json.string key.session,Json.string key.tag,Json.string (hex bytes)])).text.toUTF8

def readRow : Json.Reader (RowKey × ByteArray)
  | .array [session,tag,bytes] => do
    let key : RowKey := ⟨← Json.readString session,← Json.readString tag⟩
    return (key,← Json.orMalformed (ofHex (← Json.readString bytes)))
  | _ => Json.malformed

-- An empty file is an empty table.
def ofBytes (bytes : ByteArray) : Except StoreError Table :=
  if bytes.size = 0 then .ok empty
  else match Json.decode (Json.readList readRow) bytes with
    | .ok rows => .ok ⟨Map.ofList rows⟩
    | .error _ => .error .database

def file (home : Path) : Path := home ++ ["snapshots.db"]

-- The folder and the file are made if they are missing.
def «open» (disk : Node) (home : Path) : Except StoreError (Table × Node) := do
  let disk ← Directory.orIo (makeFolders disk home)
  match find disk (file home) with
  | .ok (.file bytes) => return (← ofBytes bytes,disk)
  | .error .notFound => return (empty,disk)
  | _ => throw .database

def save (table : Table) (disk : Node) (home : Path) : Node :=
  match alter (writeFile table.toBytes) disk (file home) with
  | .ok next => next
  | .error _ => disk

end Table
end DurableRules
