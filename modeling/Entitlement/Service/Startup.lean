import Entitlement.Folder
import Entitlement.Service.Address
import Entitlement.Service.Log
import Entitlement.Settings
import Entitlement.Site.Basic
import Entitlement.Text.Report

/-! # Start of a service

A service reads its settings and the public keys of its build, looks for a license key and puts the
license of the key in force before it answers the first request. Where a license is required nothing
less than a verified one will do; otherwise a missing or rejected key leaves Community in force. A
key that is there is checked again at every interval, also when it was rejected, so that it takes
effect once its window opens.
-/

namespace Entitlement.Service

open Calendar Grant Signature

/-- What a service finds around it. -/
structure Surroundings where
  /-- The variables, those included that a file of variables has added before the start. -/
  environment : Table (List UInt8)
  folder : Folder
  now : Timestamp

/-- Why a service does not start. -/
inductive StartupError where
  | settings (cause : SettingsError)
  /-- The public keys of the build cannot be read. -/
  | badBuild (cause : Key.KeyError)
  | noKey (keyVariable keyPath : String)
  | rejected (cause : Key.VerificationError)
  | badAddress
  deriving DecidableEq

def StartupError.message : StartupError → String
  | .settings cause => String.intercalate "" (cause.chain.take 1)
  | .badBuild _ => "embedded license public key is malformed"
  | .noKey keyVariable keyPath =>
    s!"DDUI_LICENSE_REQUIRED is set but no license key was found in ${keyVariable} or {keyPath}"
  | .rejected _ => "license key rejected"
  | .badAddress => "invalid socket address syntax"

def StartupError.causes : StartupError → List String
  | .settings cause => cause.chain.drop 1
  | .badBuild cause => cause.chain
  | .rejected cause => [cause.message]
  | .noKey _ _ | .badAddress => []

/-- The report of an error. -/
def StartupError.report (e : StartupError) : String :=
  Text.report e.message e.causes

/-! ## The license -/

/-- The name of the task that checks the configured key. -/
def recheckName : String := "configured key"

/-- The milliseconds in a second. -/
def millis : Nat := 1000

/-- Has a key checked again at every interval. -/
def startRecheck (settings : Settings) (key : String) (site : Site) : Site × Note :=
  let interval := millis * settings.refreshSeconds.toNat
  ({ site with schedule := site.schedule.start recheckName key interval site.time },
    .recheckStarted (max Schedule.shortestInterval interval / millis))

/-- Puts the license in force with which a service starts. -/
def activate (verdict : Verdict) (settings : Settings) (key : Option String) (site : Site) :
    Except StartupError (Site × List Note) :=
  match key with
  | none =>
    if settings.isLicenseRequired then .error (.noKey settings.keyVariable settings.keyPath)
    else
      let custody := site.custody.useCommunity
      .ok ({ site with custody }, [.communityEdition custody.license])
  | some key =>
    match site.custody.load verdict key with
    | (custody, .ok license) =>
      let (site, note) := startRecheck settings key { site with custody }
      .ok (site, [.licenseLoaded license, note])
    | (custody, .error cause) =>
      if settings.isLicenseRequired then .error (.rejected cause)
      else
        let custody := custody.useCommunity
        let (site, note) := startRecheck settings key { site with custody }
        .ok (site, [.keyRejected cause, .communityEdition custody.license, note])

/-! ## The start -/

/-- The text of a variable. -/
def Surroundings.text? (surroundings : Surroundings) (name : String) : Option String :=
  (surroundings.environment.get? name).bind Text.ofBytes?

/-- The license key that the settings point to. -/
def Surroundings.licenseKey (surroundings : Surroundings) (settings : Settings) : Option String :=
  settings.licenseKey surroundings.environment.get? fun path =>
    (surroundings.folder.read path).toOption

/-- The variable that holds the filter of the log. -/
def filterName : String := "RUST_LOG"

/-- The filter of the log. -/
def Surroundings.filter (surroundings : Surroundings) : Filter :=
  ((surroundings.text? filterName).bind Filter.ofText?).getD .usual

/-- What has come of the start of a service, with the notes made until then. -/
structure Startup where
  notes : List Note
  result : Except StartupError Site

/-- What is noted of the keys that a build trusts. -/
def trustNotes (trusted : Key.TrustSet) : List Note :=
  if trusted = [] then [.nothingTrusted] else []

/-- Starts a service up to the point where it listens at its address. The public keys are those of
the build, as they were read from the list in it. -/
def start (scheme : Scheme) (embedded : Except Key.KeyError Key.TrustSet)
    (surroundings : Surroundings) : Startup :=
  match Settings.ofLookup surroundings.text? with
  | .error cause => ⟨[], .error (.settings cause)⟩
  | .ok settings =>
    match embedded with
    | .error cause => ⟨[], .error (.badBuild cause)⟩
    | .ok trusted =>
      match activate (Key.verify scheme trusted) settings (surroundings.licenseKey settings)
          (.start surroundings.now) with
      | .error e => ⟨trustNotes trusted, .error e⟩
      | .ok (site, notes) =>
        ⟨trustNotes trusted ++ notes,
          if isSocketAddress settings.bindAddress then .ok site else .error .badAddress⟩

/-- The lines of the log that are shown. -/
def Startup.log (startup : Startup) (filter : Filter) : List String :=
  (startup.notes.filter filter.shows).flatMap Note.lines

end Entitlement.Service
