import Std.Time.DateTime
import Entitlement.Signature.Ed25519
import Entitlement.Tool.Fresh
import Entitlement.Tool.Run

/-! # The issuing tool as a program

The program gathers what its command looks at, runs the tool on it, and puts the files in place that
the tool has changed. It decides nothing of its own.
-/

namespace Entitlement.Program

open Calendar Signature Tool

/-- Adds what stands at a path to a folder. -/
def look (folder : Folder) (path : String) : IO Folder := do
  try
    let bytes ← IO.FS.readBinFile path
    return { folder with files := folder.files.set path bytes.toList }
  catch
    | .noFileOrDirectory .. => return folder
    | _ => return { folder with directories := folder.directories.insert path }

/-- The folder of what stands at some paths and above them. -/
def gather (paths : List String) : IO Folder := do
  let places := paths.flatMap fun path =>
    let steps := Folder.steps path
    (List.range steps.length).map fun count => Folder.settle (steps.take (count + 1))
  (places.map Folder.pathOf).foldlM look (.ofFiles ∅)

/-- The present time. -/
def present : IO Timestamp := do
  let now ← Std.Time.Timestamp.now
  let nanos := now.toNanosecondsSinceUnixEpoch.val
  return ((Timestamp.ofEpoch? 0).bind (·.addNanos? nanos)).getD Grant.License.epoch

/-- A secret key of random bytes. -/
def freshSecret : IO SecretKey := do
  let bytes := (← IO.getRandomBytes 32).toList
  if h : bytes.length = 32 then return ⟨bytes, h⟩
  else throw (IO.userError "no random bytes")

/-- An id of random bytes. -/
def randomId : IO String := do
  return freshId (← IO.getRandomBytes 16).toList

/-- Puts the changed files of a folder in place. -/
def store (before after : Folder) : IO Unit :=
  after.files.toList.forM fun (path, bytes) => do
    if before.files.get? path ≠ some bytes then
      let directory := Folder.pathOf (Folder.steps path).dropLast
      if directory ≠ "" then
        IO.FS.createDirAll directory
      IO.FS.writeBinFile path ⟨bytes.toArray⟩

/-- Runs the tool with some arguments. -/
def run (arguments : List String) : IO UInt32 := do
  let paths :=
    match Command.ofArguments arguments with
    | .ok command => command.paths
    | .error _ => []
  let folder ← gather paths
  let surroundings : Surroundings :=
    { folder, now := ← present, freshSecret := ← freshSecret
      freshLicenseId := ← randomId, freshCustomerId := ← randomId }
  let outcome := Tool.run Ed25519.scheme surroundings arguments
  store folder outcome.folder
  IO.print outcome.output
  IO.eprint (outcome.errors.getD "")
  return UInt32.ofNat outcome.exit

end Entitlement.Program

def main (arguments : List String) : IO UInt32 :=
  Entitlement.Program.run arguments
