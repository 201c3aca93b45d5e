import Entitlement.Grant.License
import Entitlement.Key.Verify

/-! # The log of a service

A service notes what happens to the license in force. Which notes are shown is decided by a filter:
directives that set a level for everything, or for the targets whose names start with a given text.
The directive with the longest such text decides, and a target that no directive covers shows
nothing.
-/

namespace Entitlement.Service

open Grant

/-- How much a note matters, the least first. -/
inductive Level where
  | trace | debug | info | warn | error
  deriving DecidableEq

/-- The rank of a level. -/
def Level.rank : Level → Nat
  | .trace => 5
  | .debug => 4
  | .info => 3
  | .warn => 2
  | .error => 1

def Level.name : Level → String
  | .trace => "TRACE"
  | .debug => "DEBUG"
  | .info => "INFO"
  | .warn => "WARN"
  | .error => "ERROR"

/-! ## Notes -/

/-- What a service notes while it starts. -/
inductive Note where
  /-- The build trusts no public key. -/
  | nothingTrusted
  | licenseLoaded (license : License)
  | communityEdition (license : License)
  | keyRejected (cause : Key.VerificationError)
  | recheckStarted (seconds : Nat)

namespace Note

def level : Note → Level
  | .licenseLoaded _ | .communityEdition _ => .info
  | .nothingTrusted | .keyRejected _ => .warn
  | .recheckStarted _ => .debug

/-- The part of the service that a note comes from. -/
def target : Note → String
  | .nothingTrusted | .keyRejected _ => "ddui"
  | _ => "ddui_licensing::license::manager"

def text : Note → String
  | .nothingTrusted =>
    "no license public key embedded in this build; commercial keys cannot be verified"
  | .licenseLoaded license =>
    s!"license loaded license_id={license.id} tier={license.tier.name}"
  | .communityEdition license => s!"running as Community edition tier={license.tier.name}"
  | .keyRejected cause =>
    "license key rejected; running as Community edition reason=" ++
      Text.quoted cause.kind.name ++ " error=" ++ cause.message
  | .recheckStarted seconds => s!"license revalidation started interval_secs={seconds}"

/-- The lines of a note. -/
def lines (note : Note) : List String :=
  (Text.split '\n' (note.level.name ++ " " ++ note.target ++ ": " ++ note.text)).map Text.trim

end Note

/-! ## Filters -/

/-- The largest rank of the notes that a directive shows, for the targets that start with a text. -/
structure Directive where
  target : String
  rank : Nat
  deriving DecidableEq

/-- The largest rank that the name or the number of a level shows. -/
def rankOf? (text : String) : Option Nat :=
  let names := ["off", "error", "warn", "info", "debug", "trace"]
  (names.idxOf? (Text.lowerAscii text)).or (["0", "1", "2", "3", "4", "5"].idxOf? text)

/-- The characters of a target. -/
def isTargetChar (c : Char) : Bool :=
  c.isAlphanum || c == '_' || c == ':' || c == '-' || 0x80 ≤ c.toNat

/-- Reads a directive. A target without a level shows everything. -/
def Directive.ofText? (text : String) : Option Directive :=
  match rankOf? text with
  | some rank => some ⟨"", rank⟩
  | none =>
    let target := text.toList.takeWhile isTargetChar
    let directive (rank : Nat) : Directive :=
      let name := String.ofList target
      ⟨if (rankOf? name).isSome then "" else name, rank⟩
    if target = [] then none
    else
      match text.toList.drop target.length with
      | [] | ['='] => some (directive Level.trace.rank)
      | '=' :: level => (rankOf? (String.ofList level)).map directive
      | _ => none

/-- Directives of which the last ones come first. -/
abbrev Filter := List Directive

namespace Filter

/-- The filter of a service that is not told otherwise. -/
def usual : Filter := [⟨"", Level.info.rank⟩]

/-- Reads directives with commas between them. -/
def ofText? (text : String) : Option Filter := do
  let directives ← ((Text.split ',' text).filter (· ≠ "")).mapM Directive.ofText?
  return directives.reverse

/-- The rank that a filter shows of a target: that of the longest directive, of several the last. -/
def rankFor (filter : Filter) (target : String) : Nat :=
  let covering := filter.filter fun directive => target.startsWith directive.target
  let longest := (covering.map fun directive => directive.target.utf8ByteSize).foldl max 0
  match covering.find? fun directive => directive.target.utf8ByteSize == longest with
  | some directive => directive.rank
  | none => 0

/-- Whether a note is shown. -/
def shows (filter : Filter) (note : Note) : Bool :=
  note.level.rank ≤ filter.rankFor note.target

end Filter

end Entitlement.Service
