import Entitlement.Ascending
import Entitlement.Text.Blank
import Entitlement.Text.Bytes

/-! # Folders

A folder holds files under relative paths; a directory exists where it has been made and where a
file stands below it. Paths are followed step by step, so that a path through a file or through
nothing is told from one that leads to nothing. Writing a file changes that file and no other.
-/

namespace Entitlement

/-- Files by their paths, of which each is written in its shortest form, and the directories that
have been made. -/
structure Folder where
  files : Table (List UInt8)
  directories : NameSet
  deriving DecidableEq

/-- The folder that holds some files. -/
def Folder.ofFiles (files : Table (List UInt8)) : Folder := ⟨files, ∅⟩

/-- Why a file cannot be read or written. -/
inductive FileError where
  | notFound | exists | notDirectory | isDirectory | notText
  deriving DecidableEq

def FileError.message : FileError → String
  | .notFound => "No such file or directory (os error 2)"
  | .exists => "File exists (os error 17)"
  | .notDirectory => "Not a directory (os error 20)"
  | .isDirectory => "Is a directory (os error 21)"
  | .notText => "stream did not contain valid UTF-8"

namespace Folder

/-- The steps of a path. A path from the root starts with an empty step. -/
def steps (path : String) : List String :=
  let named := (Text.split '/' path).filter fun step => step ≠ "" ∧ step ≠ "."
  if path.startsWith "/" then "" :: named else named

/-- The path of some steps. -/
def pathOf (steps : List String) : String :=
  String.intercalate "/" steps

/-- The content of a file. -/
def file? (folder : Folder) (place : List String) : Option (List UInt8) :=
  folder.files.get? (pathOf place)

/-- Whether there is a directory at a place. The folder itself, those above it and the root are
always there. -/
def hasDirectory (folder : Folder) (place : List String) : Bool :=
  place.all (· == "..") || place == [""] || folder.directories.has (pathOf place) ||
    folder.files.toList.any fun file => place.isPrefixOf (steps file.1).dropLast

/-- The directory that holds a place. -/
def above (place : List String) : List String :=
  if place.all (· == "..") then place ++ [".."]
  else if place = [""] then place
  else place.dropLast

/-- The place that some steps lead to, whatever is there. -/
def settle (steps : List String) : List String :=
  steps.foldl (fun place step => if step = ".." then above place else place ++ [step]) []

/-- Follows steps from a directory. The last step may lead to nothing. -/
def follow (folder : Folder) (place : List String) :
    List String → Except FileError (List String)
  | [] => .ok place
  | ".." :: rest => folder.follow (above place) rest
  | step :: rest =>
    let place := place ++ [step]
    if rest = [] then .ok place
    else if (folder.file? place).isSome then .error .notDirectory
    else if folder.hasDirectory place then folder.follow place rest
    else .error .notFound

/-- The place that a path leads to. -/
def place (folder : Folder) (path : String) : Except FileError (List String) :=
  if path = "" then .error .notFound
  else
    match folder.follow [] (steps path) with
    | .error e => .error e
    | .ok place =>
      if path.endsWith "/" ∧ (folder.file? place).isSome then .error .notDirectory else .ok place

/-- The bytes of a file. -/
def read (folder : Folder) (path : String) : Except FileError (List UInt8) := do
  let place ← folder.place path
  match folder.file? place with
  | some bytes => return bytes
  | none => throw (if folder.hasDirectory place then .isDirectory else .notFound)

/-- The text of a file. -/
def readText (folder : Folder) (path : String) : Except FileError String := do
  let bytes ← folder.read path
  match Text.ofBytes? bytes with
  | some text => return text
  | none => throw .notText

/-- Writes a file, in place of any content it has. -/
def write (folder : Folder) (path text : String) : Except FileError Folder := do
  let place ← folder.place path
  if folder.hasDirectory place ∨ path.endsWith "/" then
    throw .isDirectory
  return { folder with files := folder.files.set (pathOf place) (Text.bytes text) }

/-- Makes a directory and those above it, where they are not there already. -/
def makeDirectory (folder : Folder) (path : String) : Except FileError Folder :=
  walk [] folder.directories (steps path)
where
  walk (place : List String) (made : NameSet) : List String → Except FileError Folder
    | [] => .ok { folder with directories := made }
    | ".." :: rest => walk (above place) made rest
    | step :: rest =>
      let place := place ++ [step]
      if (folder.file? place).isSome then .error (if rest = [] then .exists else .notDirectory)
      else walk place (made.insert (pathOf place)) rest

/-- The path of a file in a directory. -/
def inDirectory (directory name : String) : String :=
  if directory = "" ∨ directory.endsWith "/" then directory ++ name else directory ++ "/" ++ name

end Folder

end Entitlement
