import Entitlement.Tool.Command

/-! # Help

Help says what the tool or one of its verbs is for, how it is used, and what can be said to it.
Where there is something to list it stands in two columns: the entries, and beside each what it is
for, on one line however long that gets.
-/

namespace Entitlement.Tool

/-- The name of the tool, as it is called. -/
def toolName : String := "ddui-license"

/-- What a verb is for. -/
def Verb.about : Verb → String
  | .generateKeys => "Generate a new Ed25519 keypair"
  | .sign => "Sign a license and print or write the distributable key"
  | .inspect => "Verify a license key and print its identifiers and window"
  | .showPublicKey => "Print the base64 public key for DDUI_LICENSE_PUBKEYS"
  | .help => "Print this message or the help of the given subcommand(s)"

/-! ## Parts -/

/-- An entry of a list, and what is said of it. -/
abbrev Entry := String × String

/-- A list under its title, with what is said of the entries in a column of its own. -/
def listing (title : String) (entries : List Entry) : String :=
  let width := (entries.map fun entry => entry.1.length).foldl max 0
  title ++ ":\n" ++ String.join (entries.map fun (entry, about) =>
    "  " ++ entry.pushn ' ' (width - entry.length) ++ "  " ++ about ++ "\n")

/-- An option in the list of options. An option without a letter leaves the place of the letter
empty. -/
def Choice.entry (choice : Choice) : Entry :=
  let letter :=
    match choice.short with
    | some letter => s!"-{letter}, "
    | none => "    "
  let usual :=
    match choice.usual with
    | some value => s!" [default: {value}]"
    | none => ""
  (letter ++ choice.label, choice.about ++ usual)

/-- The flag that asks for help, which every verb with options takes. -/
def helpEntry : Entry := ("-h, --help", "Print help")

/-- How a verb with options is used: the options that have to be given stand by name, the other ones
are summed up. -/
def Grammar.usage (grammar : Grammar) : List String :=
  let needed := grammar.choices.filter fun choice => grammar.required.contains choice.long
  (if needed.length = grammar.choices.length then [] else ["[OPTIONS]"]) ++
    needed.map Choice.label

/-! ## Pages -/

/-- A page of help: what its subject is for, how it is used, and lists. -/
def page (about : String) (usage : List String) (lists : List String) : String :=
  about ++ "\n\nUsage: " ++ String.intercalate " " usage ++ "\n\n" ++ String.intercalate "\n" lists

/-- Help on a verb with options. -/
def Grammar.help (grammar : Grammar) (verb : Verb) : String :=
  page verb.about (toolName :: verb.word :: grammar.usage)
    [listing "Options" (grammar.choices.map Choice.entry ++ [helpEntry])]

/-- Help on a subject. -/
def helpOn : Option Verb → String
  | none =>
    page purpose [toolName, "<COMMAND>"]
      [listing "Commands" (Verb.all.map fun verb => (verb.word, verb.about)),
        listing "Options" [helpEntry, ("-V, --version", "Print version")]]
  | some .generateKeys => generateGrammar.help .generateKeys
  | some .sign => signGrammar.help .sign
  | some .inspect => inspectGrammar.help .inspect
  | some .showPublicKey => showGrammar.help .showPublicKey
  | some .help =>
    page Verb.help.about [toolName, Verb.help.word, "[COMMAND]..."]
      [listing "Arguments" [("[COMMAND]...", "Print help for the subcommand(s)")]]

end Entitlement.Tool
