import Entitlement.Tool.Failure
import Entitlement.Tool.Help

/-! # Carrying out commands of the issuing tool

A command is carried out in surroundings that hold files, the time and what is made up freshly for
new keys and licenses. Everything that can fail is done before the first file is touched. A window
whose end in days leaves the calendar is not reported but stops the tool.
-/

namespace Entitlement.Tool

open Calendar Grant Key Plan Signature

/-- What the tool finds around it. -/
structure Surroundings where
  folder : Folder
  now : Timestamp
  freshSecret : SecretKey
  freshLicenseId : String
  freshCustomerId : String

/-- What the tool leaves behind. -/
structure Outcome where
  exit : Nat
  /-- What is printed. -/
  output : String
  /-- What is printed beside it; nothing is promised about it when the tool stops. -/
  errors : Option String
  folder : Folder

/-- Why a command is not carried out. -/
inductive Stop where
  | failed (failure : Failure)
  /-- The end of a window lies beyond the calendar. -/
  | beyondCalendar
  deriving DecidableEq

/-- A failure where there is one. -/
def orStop {ε α : Type} (failure : ε → Failure) (result : Except ε α) : Except Stop α :=
  result.mapError fun e => .failed (failure e)

/-! ## Reading orders -/

/-- Reads a time that is given with a flag. -/
def timeOf (flag text : String) : Except Stop Timestamp :=
  orStop (.badTime flag text) (Rfc3339.parse text)

/-- Reads a name and a value from both sides of the first equals sign. -/
def pairOf (flag text : String) : Except Failure (String × String) :=
  match Text.cut? '=' text.toList with
  | none => .error (.badPair flag text)
  | some (name, value) =>
    let name := Text.trim (String.ofList name)
    if name = "" then .error (.badPair flag text)
    else .ok (name, Text.trim (String.ofList value))

/-- Reads names and values; of several values for one name the last one counts. -/
def pairsOf (flag : String) (texts : List String) : Except Failure (Table String) := do
  return .ofList (← texts.mapM (pairOf flag))

/-- The largest number that can be looked at as a ceiling. -/
def largestWord : Nat := UInt64.size - 1

/-- Reads the ceiling of a name. -/
def ceilingOf (name text : String) : Except Failure UInt64 := do
  let n ← (Text.naturalOfText largestWord text).mapError (.badLimit name)
  if Limits.maxEncodable.toNat < n then
    throw (.limitTooLarge name)
  return UInt64.ofNat n

/-- Reads limits. All names are looked at before the first ceiling. -/
def limitsOf (texts : List String) : Except Failure Limits := do
  let pairs ← pairsOf "--limit" texts
  pairs.toList.foldlM (fun limits (name, text) => return limits.set name (← ceilingOf name text))
    Limits.empty

/-- The end of a window that starts at some time. -/
def endOf (issuedAt : Timestamp) : WindowEnd → Except Stop Timestamp
  | .expires text => timeOf "--expires" text
  | .days count =>
    match issuedAt.addDays? count with
    | some t => .ok t
    | none => .error .beyondCalendar

/-- The claims that are ordered. -/
def claimsOf (surroundings : Surroundings) (order : Order) : Except Stop Claims := do
  let issuedAt ←
    match order.issuedAt with
    | some text => timeOf "--issued-at" text
    | none => pure surroundings.now
  let expiresAt ← endOf issuedAt order.windowEnd
  let limits ← orStop id (limitsOf order.limits)
  let metadata ← orStop id (pairsOf "--meta" order.metadata)
  return {
    id := order.licenseId.getD surroundings.freshLicenseId
    customerId := order.customerId.getD surroundings.freshCustomerId
    customerName := order.customer
    email := order.email
    licenseType := order.licenseType
    tier := order.tier
    issuedAt, expiresAt
    features := .ofList order.features
    limits, metadata }

/-- The secret key in a file. -/
def secretIn (folder : Folder) (path : String) : Except Stop SecretKey := do
  let text ← orStop .keyFileUnread (folder.readText path)
  orStop .badPrivateKey (secretOfText text)

/-! ## Commands -/

/-- What is printed of a license that is accepted. -/
def inspection (license : License) : String :=
  let claims := license.claims
  let time (t : Timestamp) : String := (Rfc3339.format? t).getD t.display
  let granted := claims.features.toList
  let ceiling (c : UInt64) : String :=
    if c = Limits.unlimited then "unlimited" else toString c.toNat
  String.join <| List.map (· ++ "\n") <|
    ["License is VALID", "",
      "  License ID: " ++ claims.id,
      "  Type:       " ++ claims.licenseType.name,
      "  Tier:       " ++ claims.tier.name,
      "  Issued:     " ++ time claims.issuedAt,
      "  Expires:    " ++ time claims.expiresAt,
      "  Granted:    " ++ (if granted = [] then "-" else String.intercalate ", " granted)] ++
    claims.limits.entries.map fun (name, c) => "  Limit:      " ++ name ++ " = " ++ ceiling c

/-- What is printed when keys have been made. -/
def announcement (privatePath publicPath : String) : String :=
  String.join <| List.map (· ++ "\n")
    ["Generated keypair:",
      "  Private key: " ++ privatePath,
      "  Public key:  " ++ publicPath,
      "",
      "Keep the private key in the issuance environment. Never commit it or ship it.",
      "Build the product with DDUI_LICENSE_PUBKEYS set to the public key."]

/-- What a command prints, what it prints beside that, and the files it leaves. -/
structure Effect where
  output : String
  errors : String
  folder : Folder

variable (scheme : Scheme)

/-- Carries out an order. -/
def sign (surroundings : Surroundings) (order : Order) : Except Stop Effect := do
  let claims ← claimsOf surroundings order
  let secret ← secretIn surroundings.folder order.keyFile
  let key ← orStop .notIssued (issue scheme secret claims)
  match order.output with
  | none => return ⟨key ++ "\n", "", surroundings.folder⟩
  | some path =>
    let folder ← orStop .licenseUnwritten (surroundings.folder.write path (key ++ "\n"))
    return ⟨"", s!"License {claims.id} ({claims.tier.name}) written to {path}\n", folder⟩

/-- The public key that an inspection uses. -/
def publicKeyOf (folder : Folder) : KeySource → Except Stop PublicKey
  | .keyFile path => do return scheme.publicKey (← secretIn folder path)
  | .publicKey text => orStop .badPublicKey (publicOfText scheme text)

/-- Inspects a license. -/
def inspect (surroundings : Surroundings) (source : KeySource) (path : String) :
    Except Stop Effect := do
  let key ← publicKeyOf scheme surroundings.folder source
  let text ← orStop .licenseUnread (surroundings.folder.readText path)
  let license ← orStop .rejected (verify scheme [key] text surroundings.now)
  return ⟨inspection license, "", surroundings.folder⟩

/-- Shows the public half of a secret key. -/
def showPublicKey (surroundings : Surroundings) (path : String) : Except Stop Effect := do
  let secret ← secretIn surroundings.folder path
  return ⟨publicText (scheme.publicKey secret) ++ "\n", "", surroundings.folder⟩

/-- The name and version of the tool. -/
def versionLine : String := toolName ++ " 0.1.0\n"

/-- What the tool leaves behind when it fails. -/
def failed (failure : Failure) (folder : Folder) : Outcome :=
  ⟨1, "", some failure.report, folder⟩

/-- Makes a pair of keys. -/
def generateKeys (surroundings : Surroundings) (directory : String) : Outcome :=
  let privatePath := Folder.inDirectory directory "private.key"
  let publicPath := Folder.inDirectory directory "public.key"
  let secret := surroundings.freshSecret
  match surroundings.folder.makeDirectory directory with
  | .error e => failed (.noDirectory e) surroundings.folder
  | .ok folder =>
    match folder.write privatePath (secretText secret) with
    | .error e => failed (.privateKeyUnwritten e) folder
    | .ok folder =>
      match folder.write publicPath (publicText (scheme.publicKey secret)) with
      | .error e => failed (.publicKeyUnwritten e) folder
      | .ok folder => ⟨0, announcement privatePath publicPath, some "", folder⟩

/-- What the tool leaves behind when a command has its effect or stops. -/
def outcomeOf (folder : Folder) : Except Stop Effect → Outcome
  | .ok effect => ⟨0, effect.output, some effect.errors, effect.folder⟩
  | .error (.failed failure) => failed failure folder
  | .error .beyondCalendar => ⟨101, "", none, folder⟩

/-- Carries out a command. -/
def carryOut (surroundings : Surroundings) : Command → Outcome
  | .version => ⟨0, versionLine, some "", surroundings.folder⟩
  | .help subject => ⟨0, helpOn subject, some "", surroundings.folder⟩
  | .generateKeys directory => generateKeys scheme surroundings directory
  | .sign order => outcomeOf surroundings.folder (sign scheme surroundings order)
  | .inspect source path => outcomeOf surroundings.folder (inspect scheme surroundings source path)
  | .showPublicKey path => outcomeOf surroundings.folder (showPublicKey scheme surroundings path)

/-- Runs the tool with some arguments. -/
def run (surroundings : Surroundings) (arguments : List String) : Outcome :=
  match Command.ofArguments arguments with
  | .error e => ⟨2, "", some (e.message ++ "\n"), surroundings.folder⟩
  | .ok command => carryOut scheme surroundings command

end Entitlement.Tool
