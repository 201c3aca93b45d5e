import Entitlement.Text.Blank
import Entitlement.Text.Bytes

/-! # Settings

The settings of a service come from named texts, such as the variables of its environment. Each
setting has a default; a text that is present is taken as it stands, also when it is empty, and only
intervals and truth values are looked into. The license key itself is not a setting: the settings
say where to look for it.
-/

namespace Entitlement

/-! ## Intervals -/

/-- A text that is no interval. -/
inductive IntervalError where
  | notANumber (text : String)
  | unknownUnit (unit text : String)
  | zero
  deriving DecidableEq

def IntervalError.message : IntervalError → String
  | .notANumber text => s!"invalid interval '{text}'"
  | .unknownUnit unit text => s!"unknown interval unit '{unit}' in '{text}'"
  | .zero => "interval must be greater than zero"

/-- The seconds in a unit of intervals; a number without a unit counts seconds. -/
def intervalUnit? (unit : String) : Option Nat :=
  if unit = "" ∨ unit = "s" then some 1
  else if unit = "m" then some 60
  else if unit = "h" then some 3600
  else if unit = "d" then some 86400
  else none

/-- The largest number of seconds. An interval that would be longer is cut to it. -/
def longestInterval : Nat := UInt64.size - 1

/-- Reads an interval in seconds: a number and a unit, with blanks around either. -/
def intervalOfText (text : String) : Except IntervalError UInt64 :=
  let text := Text.trim text
  let digits := text.toList.takeWhile Char.isDigit
  let unit := Text.trim (String.ofList (text.toList.dropWhile Char.isDigit))
  match Text.decimal? digits with
  | none => .error (.notANumber text)
  | some n =>
    if longestInterval < n then .error (.notANumber text)
    else
      match intervalUnit? unit with
      | none => .error (.unknownUnit unit text)
      | some seconds =>
        if n = 0 then .error .zero
        else .ok (UInt64.ofNat (min (n * seconds) longestInterval))

/-! ## Truth values -/

/-- Reads a truth value. A text of blanks is false; a text that is none is given back with small
letters. -/
def truthOfText (text : String) : Except String Bool :=
  let word := Text.lowerAscii (Text.trim text)
  if ["1", "true", "yes", "on"].contains word then .ok true
  else if ["0", "false", "no", "off", ""].contains word then .ok false
  else .error word

/-! ## Settings -/

/-- The settings of a service. -/
structure Settings where
  /-- The address on which requests are answered. -/
  bindAddress : String
  /-- The variable that may hold the license key. -/
  keyVariable : String
  /-- The file that may hold the license key. -/
  keyPath : String
  /-- The seconds between two checks of the license key. -/
  refreshSeconds : UInt64
  /-- Whether the service may not start without a verified license. -/
  isLicenseRequired : Bool
  deriving DecidableEq

/-- A setting that cannot be read. -/
inductive SettingsError where
  | interval (cause : IntervalError)
  | truth (word : String)
  deriving DecidableEq

namespace Settings

/-! The names of the settings. -/

def bindName : String := "DDUI_BIND"

def keyVariableName : String := "DDUI_LICENSE_ENV"

def keyPathName : String := "DDUI_LICENSE_PATH"

def intervalName : String := "DDUI_LICENSE_REFRESH_INTERVAL"

def requiredName : String := "DDUI_LICENSE_REQUIRED"

end Settings

/-- The messages of an error and of its cause, the error itself first. -/
def SettingsError.chain : SettingsError → List String
  | .interval cause => [Settings.intervalName, cause.message]
  | .truth word => [Settings.requiredName, s!"expected a boolean, got '{word}'"]

namespace Settings

/-- Reads the settings from named texts. -/
def ofLookup (lookup : String → Option String) : Except SettingsError Settings := do
  let text (name default : String) := (lookup name).getD default
  let refreshSeconds ← (intervalOfText (text intervalName "1h")).mapError .interval
  let isLicenseRequired ← (truthOfText (text requiredName "false")).mapError .truth
  return {
    bindAddress := text bindName "0.0.0.0:3000"
    keyVariable := text keyVariableName "DDUI_LICENSE"
    keyPath := text keyPathName "/run/secrets/ddui_license"
    refreshSeconds, isLicenseRequired }

end Settings

/-! ## The license key -/

/-- Whether a name can name a variable of an environment. -/
def isVariableName (name : String) : Bool :=
  name ≠ "" && !name.toList.contains '=' && !name.toList.contains '\x00'

/-- The license key, where the content of the variable and of the file are given as they are found.
A variable that holds text is preferred to the file, also where that text is blank; blank text holds
no key. -/
def keyOfSources (inVariable inFile : Option (List UInt8)) : Option String := do
  let text ← (inVariable.bind Text.ofBytes?).or (inFile.bind Text.ofBytes?)
  let key := Text.trim text
  if key = "" then none else some key

/-- The license key that the settings point to. -/
def Settings.licenseKey (settings : Settings) (environment files : String → Option (List UInt8)) :
    Option String :=
  keyOfSources
    (if isVariableName settings.keyVariable then environment settings.keyVariable else none)
    (files settings.keyPath)

end Entitlement
