import Entitlement.Plan.Tier
import Entitlement.Text.Integer
import Entitlement.Tool.Arguments

/-! # Commands of the issuing tool

The tool makes key pairs, signs licenses, inspects licenses and shows public keys, and it gives help
on all of these. A command is what its arguments ask for, in the types of the domain where a wrong
value is an error of usage; what an order says of times, limits and metadata is read only when the
order is carried out.
-/

namespace Entitlement.Tool

open Plan

/-- Where the window of an ordered license ends. -/
inductive WindowEnd where
  | expires (text : String)
  | days (count : Int)
  deriving DecidableEq

/-- An order for a license. -/
structure Order where
  keyFile : String
  customer : String
  email : String
  customerId : Option String
  licenseId : Option String
  tier : Tier
  licenseType : LicenseType
  features : List String
  limits : List String
  metadata : List String
  issuedAt : Option String
  windowEnd : WindowEnd
  output : Option String
  deriving DecidableEq

/-- Where the public key for an inspection comes from. -/
inductive KeySource where
  | keyFile (path : String)
  | publicKey (text : String)
  deriving DecidableEq

/-- What the tool can be told to do. -/
inductive Verb where
  | generateKeys
  | sign
  | inspect
  | showPublicKey
  | help
  deriving DecidableEq

namespace Verb

def all : List Verb := [generateKeys, sign, inspect, showPublicKey, help]

/-- The word that stands first among the arguments. -/
def word : Verb → String
  | generateKeys => "generate-keypair"
  | sign => "sign"
  | inspect => "inspect"
  | showPublicKey => "print-public-key"
  | help => "help"

def ofWord? (word : String) : Option Verb :=
  all.find? fun verb => verb.word == word

end Verb

/-- What the tool is asked for. -/
inductive Command where
  | version
  /-- Help on a verb, or on the tool as a whole. -/
  | help (subject : Option Verb)
  | generateKeys (directory : String)
  | sign (order : Order)
  | inspect (source : KeySource) (license : String)
  | showPublicKey (keyFile : String)
  deriving DecidableEq

/-! ## Options -/

/-- Accepts any value. -/
def anyText (_ : String) : Option ValueError := none

/-- Accepts a path, which is never empty. -/
def pathText (text : String) : Option ValueError :=
  if text = "" then some .missing else none

/-- Accepts what a reader accepts. -/
def readable {ε α : Type} (read : String → Except ε α) (message : ε → String) (text : String) :
    Option ValueError :=
  match read text with
  | .ok _ => none
  | .error e => some (.invalid (message e))

/-- The option that names the file of a secret key. -/
def keyFile (about : String) : Choice :=
  ⟨"key-file", some 'k', "KEY_FILE", about, none, false, pathText⟩

/-- The option that names the place of what is written. -/
def output (about : String) (usual : Option String) : Choice :=
  ⟨"output", some 'o', "OUTPUT", about, usual, false, pathText⟩

/-- An option with a long name and no other. -/
def long (name placeholder about : String) (check : String → Option ValueError) : Choice :=
  ⟨name, none, placeholder, about, none, false, check⟩

/-- The directory of a pair of keys, where none is named. -/
def usualDirectory : String := "."

def generateGrammar : Grammar where
  choices := [output "Output directory for keypair files" (some usualDirectory)]
  required := []
  alternatives := []

/-- The type of a license, where none is ordered. -/
def usualType : LicenseType := .subscription

def signGrammar : Grammar where
  choices :=
    [keyFile "Path to the private key file",
      long "customer" "CUSTOMER" "Customer name" anyText,
      long "email" "EMAIL" "Customer contact email" anyText,
      long "customer-id" "CUSTOMER_ID" "Customer ID (generated if not provided)" anyText,
      long "license-id" "LICENSE_ID" "License ID (generated if not provided)" anyText,
      long "tier" "TIER" "Tier: free, pro, business, enterprise"
        (readable Tier.ofText NameError.message),
      { long "type" "LICENSE_TYPE"
          "License type: trial, subscription, perpetual, enterprise_custom"
          (readable LicenseType.ofText NameError.message) with
        usual := some usualType.name },
      { long "feature" "FEATURES" "Explicitly granted feature (repeatable)" anyText with
        isRepeatable := true },
      { long "limit" "LIMITS" "Usage ceiling as name=value, 0 for unlimited (repeatable)"
          anyText with
        isRepeatable := true },
      { long "meta" "METADATA" "Opaque metadata as key=value (repeatable)" anyText with
        isRepeatable := true },
      long "issued-at" "ISSUED_AT" "Start of the validity window (RFC 3339, default: now)"
        anyText,
      long "expires" "EXPIRES" "End of the validity window (RFC 3339)" anyText,
      long "days" "DAYS" "Validity in days from the start of the window"
        (readable Text.integerOfText Text.IntegerError.message),
      output "Write the key to this file instead of stdout" none]
  required := ["key-file", "customer", "email", "tier"]
  alternatives := [("expires", "days")]

def inspectGrammar : Grammar where
  choices :=
    [keyFile "Private key file to derive the public key from",
      long "public-key" "PUBLIC_KEY" "Base64 public key" anyText,
      ⟨"license", some 'l', "LICENSE", "File containing the license key", none, false, pathText⟩]
  required := ["license"]
  alternatives := [("key-file", "public-key")]

def showGrammar : Grammar where
  choices := [keyFile "Path to the private key file"]
  required := ["key-file"]
  alternatives := []

/-! ## Commands -/

/-- The value of an option that has to be given. -/
def needed (given : Given) (long : String) : Except UsageError String :=
  match given.value? long with
  | some value => .ok value
  | none => .error .missingOptions

/-- The value of an option as a reader gives it. -/
def readAs {ε α : Type} (grammar : Grammar) (long : String) (read : String → Except ε α)
    (message : ε → String) (text : String) : Except UsageError α :=
  (read text).mapError fun e => .badValue text (grammar.label long) (.invalid (message e))

/-- The order that some options make. -/
def orderOf (given : Given) : Except UsageError Order := do
  let tierText ← needed given "tier"
  let windowEnd ←
    match given.value? "expires", given.value? "days" with
    | some text, _ => pure (.expires text)
    | none, some text =>
      WindowEnd.days <$>
        readAs signGrammar "days" Text.integerOfText Text.IntegerError.message text
    | none, none => throw .missingOptions
  return {
    keyFile := ← needed given "key-file"
    customer := ← needed given "customer"
    email := ← needed given "email"
    customerId := given.value? "customer-id"
    licenseId := given.value? "license-id"
    tier := ← readAs signGrammar "tier" Tier.ofText NameError.message tierText
    licenseType :=
      ← readAs signGrammar "type" LicenseType.ofText NameError.message
        ((given.value? "type").getD usualType.name)
    features := given.values "feature"
    limits := given.values "limit"
    metadata := given.values "meta"
    issuedAt := given.value? "issued-at"
    windowEnd
    output := given.value? "output" }

/-- The source of the public key that some options name. -/
def sourceOf (given : Given) : Except UsageError KeySource :=
  match given.value? "key-file", given.value? "public-key" with
  | some path, _ => .ok (.keyFile path)
  | none, some text => .ok (.publicKey text)
  | none, none => .error .missingOptions

/-- What help is asked for by the words behind the verb. -/
def subjectOf : List String → Except UsageError (Option Verb)
  | [] => .ok none
  | word :: rest =>
    match Verb.ofWord? word, rest with
    | none, _ => .error (.unknownCommand word)
    | some verb, [] => .ok (some verb)
    | some _, next :: _ => .error (.unknownCommand next)

/-- Reads the arguments of a verb that takes options, among which help may be asked for. -/
def readWith (verb : Verb) (grammar : Grammar) (make : Given → Except UsageError Command)
    (arguments : List String) : Except UsageError Command := do
  match ← grammar.read arguments with
  | .help => return .help (some verb)
  | .options given => make given

/-- Reads the arguments of a verb. -/
def Verb.read : Verb → List String → Except UsageError Command
  | .generateKeys => readWith .generateKeys generateGrammar fun given =>
    return .generateKeys ((given.value? "output").getD usualDirectory)
  | .sign => readWith .sign signGrammar fun given => return .sign (← orderOf given)
  | .inspect => readWith .inspect inspectGrammar fun given =>
    return .inspect (← sourceOf given) (← needed given "license")
  | .showPublicKey => readWith .showPublicKey showGrammar fun given =>
    return .showPublicKey (← needed given "key-file")
  | .help => fun arguments => return .help (← subjectOf arguments)

/-- The command that some arguments ask for. -/
def Command.ofArguments : List String → Except UsageError Command
  | [] => .error .noCommand
  | argument :: rest =>
    match Shape.of argument with
    | .endOfOptions =>
      match rest with
      | [] => .error .noCommand
      | next :: _ =>
        .error (if (Verb.ofWord? next).isSome then .unexpectedArgument next
          else .unknownCommand next)
    | .long "version" none => .ok .version
    | .long "version" (some value) => .error (.unexpectedValue value "--version")
    | .short 'V' _ => .ok .version
    | .plain =>
      match Verb.ofWord? argument with
      | some verb => verb.read rest
      | none => .error (.unknownCommand argument)
    | shape => if shape.asksHelp then .ok (.help none) else .error (shape.misplaced argument)

/-- The paths that a command looks at. -/
def Command.paths : Command → List String
  | .version | .help _ => []
  | .generateKeys directory => [directory]
  | .sign order => order.keyFile :: order.output.toList
  | .inspect (.keyFile path) license => [path, license]
  | .inspect (.publicKey _) license => [license]
  | .showPublicKey path => [path]

end Entitlement.Tool
