import Entitlement.Text.Blank

/-! # Arguments

A command takes options, each with one value, which stands in the same argument or in the next one.
An argument that starts with a hyphen is never the value of the option before it. A value is looked
at when the next option or the end of the arguments is reached, and an argument that has no place is
reported before the values around it. Whoever asks for help gets it, whatever else is given or
missing, if nothing is wrong with what stands before.
-/

namespace Entitlement.Tool

/-- What is wrong with the value of an option. -/
inductive ValueError where
  | missing
  | invalid (reason : String)
  deriving DecidableEq

/-- An option of a command. -/
structure Choice where
  long : String
  short : Option Char
  placeholder : String
  /-- What help says of the option. -/
  about : String
  /-- The value where none is given, if there is one. -/
  usual : Option String
  isRepeatable : Bool
  /-- What is wrong with a value, if anything is. -/
  check : String → Option ValueError

/-- How messages name an option. -/
def Choice.label (choice : Choice) : String :=
  s!"--{choice.long} <{choice.placeholder}>"

/-- Why arguments are not understood. -/
inductive UsageError where
  | noCommand
  | unknownCommand (text : String)
  | unexpectedArgument (text : String)
  | unexpectedValue (value flag : String)
  | badValue (text label : String) (cause : ValueError)
  | repeated (label : String)
  | conflict (label other : String)
  | missingOptions
  deriving DecidableEq

/-- What the tool is for. -/
def purpose : String := "Issue and inspect signed DDUI license keys"

/-- The first line of what is said about arguments that are not understood. The suggestions, the
usage and the pointer to help that stand on further lines are left out. -/
def UsageError.message : UsageError → String
  | .noCommand => purpose
  | .unknownCommand text => s!"error: unrecognized subcommand '{text}'"
  | .unexpectedArgument text => s!"error: unexpected argument '{text}' found"
  | .unexpectedValue value flag =>
    s!"error: unexpected value '{value}' for '{flag}' found; no more were expected"
  | .badValue _ label .missing => s!"error: a value is required for '{label}' but none was supplied"
  | .badValue text label (.invalid reason) =>
    s!"error: invalid value '{text}' for '{label}': {reason}"
  | .repeated label => s!"error: the argument '{label}' cannot be used multiple times"
  | .conflict label other => s!"error: the argument '{label}' cannot be used with '{other}'"
  | .missingOptions => "error: the following required arguments were not provided:"

/-- The options that are given, by their long names, with their values. -/
abbrev Given := List (String × String)

namespace Given

/-- The values of an option, in the order in which they are given. -/
def values (given : Given) (long : String) : List String :=
  (given.filter fun entry => entry.1 == long).map Prod.snd

/-- The value of an option that is not repeatable. -/
def value? (given : Given) (long : String) : Option String :=
  given.lookup long

/-- Whether an option is given. -/
def has (given : Given) (long : String) : Bool :=
  given.any fun entry => entry.1 == long

end Given

/-- What stands before an argument and is not finished. -/
inductive Pending where
  | nothing
  | awaiting (choice : Choice)
  | valued (choice : Choice) (value : String)

/-- Looks at what is pending and adds it to what is given. -/
def accept (given : Given) : Pending → Except UsageError Given
  | .nothing => .ok given
  | .awaiting choice => .error (.badValue "" choice.label .missing)
  | .valued choice value =>
    if given.has choice.long ∧ ¬ choice.isRepeatable then .error (.repeated choice.label)
    else
      match choice.check value with
      | none => .ok (given ++ [(choice.long, value)])
      | some cause => .error (.badValue value choice.label cause)

/-- What an argument looks like. -/
inductive Shape where
  | long (name : String) (attached : Option String)
  | short (letter : Char) (attached : Option String)
  | endOfOptions
  | plain

/-- The value that follows a short option in its argument; an equals sign may stand between. -/
def attachedToShort : List Char → Option String
  | [] => none
  | '=' :: rest => some (String.ofList rest)
  | rest => some (String.ofList rest)

/-- The shape of an argument. -/
def Shape.of (argument : String) : Shape :=
  match argument.toList with
  | ['-', '-'] => .endOfOptions
  | '-' :: '-' :: rest =>
    match Text.cut? '=' rest with
    | some (name, value) => .long (String.ofList name) (some (String.ofList value))
    | none => .long (String.ofList rest) none
  | '-' :: letter :: rest => .short letter (attachedToShort rest)
  | _ => .plain

/-- The option that an argument of some shape names. -/
def Shape.choice? (choices : List Choice) : Shape → Option (Choice × Option String)
  | .long name attached =>
    (choices.find? fun choice => choice.long == name).map fun choice => (choice, attached)
  | .short letter attached =>
    (choices.find? fun choice => choice.short == some letter).map fun choice =>
      (choice, attached)
  | _ => none

/-- How an argument of some shape is reported when it has no place. -/
def Shape.name (argument : String) : Shape → String
  | .long name _ => "--" ++ name
  | .short letter _ => "-" ++ String.singleton letter
  | _ => argument

/-- Whether an argument of some shape asks for help. -/
def Shape.asksHelp : Shape → Bool
  | .long name attached => name == "help" && attached.isNone
  | .short letter _ => letter == 'h'
  | _ => false

/-- The error of an argument of some shape that has no place. -/
def Shape.misplaced (argument : String) : Shape → UsageError
  | .long "help" (some value) => .unexpectedValue value "--help"
  | shape => .unexpectedArgument (shape.name argument)

/-- What the arguments of a command ask for. -/
inductive Asked where
  | help
  | options (given : Given)
  deriving DecidableEq

/-- Reads options. -/
def readOptions (choices : List Choice) (given : Given) (pending : Pending) :
    List String → Except UsageError Asked
  | [] => Asked.options <$> accept given pending
  | argument :: rest =>
    match Shape.of argument with
    | .endOfOptions =>
      match rest with
      | [] => Asked.options <$> accept given pending
      | next :: _ => .error (.unexpectedArgument next)
    | .plain =>
      match pending with
      | .awaiting choice => readOptions choices given (.valued choice argument) rest
      | _ => .error (.unexpectedArgument argument)
    | shape =>
      match shape.choice? choices with
      | none =>
        if shape.asksHelp then (fun _ => Asked.help) <$> accept given pending
        else .error (shape.misplaced argument)
      | some (choice, attached) =>
        match accept given pending with
        | .error e => .error e
        | .ok given =>
          match attached with
          | none => readOptions choices given (.awaiting choice) rest
          | some value =>
            match accept given (.valued choice value) with
            | .error e => .error e
            | .ok given => readOptions choices given .nothing rest

/-- The options of a command, those of them that have to be given, and pairs of which exactly one
has to be given. -/
structure Grammar where
  choices : List Choice
  required : List String
  alternatives : List (String × String)

namespace Grammar

/-- How messages name an option of the grammar. -/
def label (grammar : Grammar) (long : String) : String :=
  match grammar.choices.find? fun choice => choice.long == long with
  | some choice => choice.label
  | none => "--" ++ long

/-- Two alternatives that are both given, the earlier one first. -/
def conflict? (grammar : Grammar) (given : Given) : Option (String × String) :=
  (given.map Prod.fst).findSome? fun long =>
    grammar.alternatives.findSome? fun (a, b) =>
      if long = a ∧ given.has b then some (a, b)
      else if long = b ∧ given.has a then some (b, a)
      else none

/-- Whether everything is given that has to be. -/
def isComplete (grammar : Grammar) (given : Given) : Bool :=
  grammar.required.all given.has &&
    grammar.alternatives.all fun (a, b) => given.has a || given.has b

/-- Reads the arguments of a command. -/
def read (grammar : Grammar) (arguments : List String) : Except UsageError Asked := do
  match ← readOptions grammar.choices [] .nothing arguments with
  | .help => return .help
  | .options given =>
    match grammar.conflict? given with
    | some (first, second) => throw (.conflict (grammar.label first) (grammar.label second))
    | none => if grammar.isComplete given then return .options given else throw .missingOptions

end Grammar

end Entitlement.Tool
