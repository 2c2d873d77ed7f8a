-- SUMMARY: The command line: its options, and reading them from the arguments.
import Respell.Text.Fold

/-!
# Options

Options start with a dash; anything else is the script file. An option's value may be attached or
be the next argument, which then must not look like an option. Most options may be given once only.
Arguments are read from left to right, so the first fault or request for information wins.
-/

namespace Respell.Command

/-- When output is coloured. -/
inductive ColorChoice where
  | auto
  | always
  | never
deriving Repr, DecidableEq, Inhabited

/-- A text that should have been a colour choice. -/
structure InvalidColor where
  text : String
deriving Repr, DecidableEq

namespace ColorChoice

/-- How a colour choice is written. -/
def text : ColorChoice → String
  | .auto => "auto"
  | .always => "always"
  | .never => "never"

/-- The colour choice that a user names, in any case. -/
def read (s : String) : Except InvalidColor ColorChoice :=
  match [auto, always, never].find? fun c => c.text == Text.fold s with
  | some c => .ok c
  | none => .error ⟨s⟩

end ColorChoice

/-- The message for a text that is no colour choice. -/
def InvalidColor.message (e : InvalidColor) : String :=
  "Invalid color choice: " ++ e.text ++ ". Must be 'auto', 'always', or 'never'"

/-- What the arguments ask for. -/
structure Options where
  file : Option String
  eval : Option String
  keywords : Option String
  overrides : List String
  globals : Bool
  compact : Bool
  color : Option ColorChoice
  verbose : Bool
deriving Repr, DecidableEq, Inhabited

/-- Nothing is asked for. -/
def Options.none : Options :=
  ⟨.none, .none, .none, [], false, false, .none, false⟩

/-- Why the arguments were refused. -/
inductive UsageError where
  | unknownOption (text : String)
  | repeated (option : String)
  | missingValue (option : String)
  | unwantedValue (option : String)
  | invalidValue (option value : String)
  | extraFile (text : String)
  | fileAndEval
deriving Repr, DecidableEq

/-- The message for arguments that were refused. -/
def UsageError.message : UsageError → String
  | .unknownOption text => "unexpected argument '" ++ text ++ "' found"
  | .repeated option => "the argument '" ++ option ++ "' cannot be used multiple times"
  | .missingValue option => "a value is required for '" ++ option ++ "' but none was supplied"
  | .unwantedValue option => "'" ++ option ++ "' takes no value"
  | .invalidValue option value => "invalid value '" ++ value ++ "' for '" ++ option ++ "'"
  | .extraFile text => "unexpected argument '" ++ text ++ "' found"
  | .fileAndEval => "the argument '--eval <CODE>' cannot be used with '[FILE]'"

/-- What is to be done. -/
inductive Request where
  | help
  | version
  | run (options : Options)
deriving Repr, DecidableEq

/-! ## Single options -/

/-- The options that take a value. -/
inductive ValueOption where
  | eval
  | keywords
  | keyword
  | color
deriving Repr, DecidableEq

/-- The options that take none. -/
inductive Flag where
  | globals
  | compact
  | verbose
  | help
  | version
deriving Repr, DecidableEq

/-- An option of either sort. -/
inductive Switch where
  | value (option : ValueOption)
  | flag (flag : Flag)
deriving Repr, DecidableEq

/-- The option with the given long name. -/
def long? (name : List Char) : Option Switch :=
  match String.ofList name with
  | "eval" => some (.value .eval)
  | "keywords" => some (.value .keywords)
  | "keyword" => some (.value .keyword)
  | "color" => some (.value .color)
  | "globals" => some (.flag .globals)
  | "compact" => some (.flag .compact)
  | "verbose" => some (.flag .verbose)
  | "help" => some (.flag .help)
  | "version" => some (.flag .version)
  | _ => none

/-- The option with the given letter. -/
def short? (letter : Char) : Option Switch :=
  match letter with
  | 'e' => some (.value .eval)
  | 'k' => some (.value .keyword)
  | 'v' => some (.flag .verbose)
  | 'h' => some (.flag .help)
  | 'V' => some (.flag .version)
  | _ => none

namespace Options

/-- Take an option with its value. Files need a name. -/
def setValue (o : Options) (option : ValueOption) (value : String) :
    Except UsageError Options :=
  match option with
  | .eval =>
    if o.eval.isSome then .error (.repeated "--eval <CODE>")
    else .ok { o with eval := some value }
  | .keywords =>
    if o.keywords.isSome then .error (.repeated "--keywords <FILE.json>")
    else if value.isEmpty then .error (.missingValue "--keywords <FILE.json>")
    else .ok { o with keywords := some value }
  | .keyword => .ok { o with overrides := o.overrides ++ [value] }
  | .color =>
    if o.color.isSome then .error (.repeated "--color <WHEN>")
    else
      match ColorChoice.read value with
      | .ok c => .ok { o with color := some c }
      | .error e => .error (.invalidValue "--color <WHEN>" e.text)

/-- Take a flag; some of them end the reading with a request of their own. -/
def setFlag (o : Options) (flag : Flag) : Except UsageError (Options ⊕ Request) :=
  match flag with
  | .globals =>
    if o.globals then .error (.repeated "--globals")
    else .ok (.inl { o with globals := true })
  | .compact =>
    if o.compact then .error (.repeated "--compact")
    else .ok (.inl { o with compact := true })
  | .verbose =>
    if o.verbose then .error (.repeated "--verbose")
    else .ok (.inl { o with verbose := true })
  | .help => .ok (.inr .help)
  | .version => .ok (.inr .version)

/-- Take the script file. -/
def setFile (o : Options) (file : String) : Except UsageError Options :=
  if o.file.isSome then .error (.extraFile file)
  else if file.isEmpty then .error (.missingValue "[FILE]")
  else .ok { o with file := some file }

/-- Whether colours are used; nothing else shows a terminal. -/
def colored (o : Options) : Bool :=
  o.color == some .always

end Options

/-! ## Arguments -/

/-- What one argument came to. -/
inductive Reading where
  /-- the options after it -/
  | options (options : Options)
  /-- an option whose value is the next argument -/
  | awaits (options : Options) (option : ValueOption)
  /-- the end of the reading -/
  | request (request : Request)

/-- An argument `--name` or `--name=value`, without its dashes. -/
def readLong (o : Options) (cs : List Char) : Except UsageError Reading :=
  let name := cs.takeWhile (· != '=')
  let value := match cs.dropWhile (· != '=') with
    | [] => none
    | _ :: value => some (String.ofList value)
  match long? name, value with
  | none, _ => .error (.unknownOption ("--" ++ String.ofList name))
  | some (.value option), some value => (o.setValue option value).map .options
  | some (.value option), none => .ok (.awaits o option)
  | some (.flag _), some _ => .error (.unwantedValue ("--" ++ String.ofList name))
  | some (.flag flag), none =>
    match o.setFlag flag with
    | .error e => .error e
    | .ok (.inl o) => .ok (.options o)
    | .ok (.inr r) => .ok (.request r)

/-- An argument of letters, without its dash. What follows the letter of an option that takes a
    value is the value, less an equals sign at its front. -/
def readShort (o : Options) : List Char → Except UsageError Reading
  | [] => .ok (.options o)
  | c :: cs =>
    match short? c with
    | none => .error (.unknownOption ("-" ++ c.toString))
    | some (.value option) =>
      match cs with
      | [] => .ok (.awaits o option)
      | d :: rest =>
        (o.setValue option (String.ofList (if d = '=' then rest else d :: rest))).map .options
    | some (.flag flag) =>
      match o.setFlag flag with
      | .error e => .error e
      | .ok (.inl o) => readShort o cs
      | .ok (.inr r) => .ok (.request r)

/-- Whether an argument looks like an option: a dash alone does not. -/
def looksLikeOption (arg : String) : Bool :=
  match arg.toList with
  | '-' :: _ :: _ => true
  | _ => false

/-- Words that stand for another command and not for a file. No such command is offered here. -/
def commandWords : List String :=
  ["complete", "help"]

/-- All arguments are read: a script comes from one place. -/
def finish (o : Options) : Except UsageError Request :=
  if o.file.isSome && o.eval.isSome then .error .fileAndEval else .ok (.run o)

/-- Arguments after `--`, none of which is an option. -/
def readFiles (o : Options) : List String → Except UsageError Request
  | [] => finish o
  | arg :: args =>
    match o.setFile arg with
    | .error e => .error e
    | .ok o => readFiles o args

/-- The arguments after an option that awaits its value, or after none. -/
def readArguments (o : Options) (awaiting : Option ValueOption) :
    List String → Except UsageError Request
  | [] => if awaiting.isSome then .error (.missingValue "option") else finish o
  | arg :: args =>
    match awaiting with
    | some option =>
      if looksLikeOption arg then .error (.missingValue "option")
      else
        match o.setValue option arg with
        | .error e => .error e
        | .ok o => readArguments o none args
    | none =>
      if arg = "--" then readFiles o args
      else if looksLikeOption arg then
        let reading := match arg.toList with
          | '-' :: '-' :: name => readLong o name
          | cs => readShort o (cs.drop 1)
        match reading with
        | .error e => .error e
        | .ok (.request r) => .ok r
        | .ok (.options o) => readArguments o none args
        | .ok (.awaits o option) => readArguments o (some option) args
      else if commandWords.contains arg then .error (.extraFile arg)
      else
        match o.setFile arg with
        | .error e => .error e
        | .ok o => readArguments o none args

/-- What a command line asks for. -/
def Request.ofArguments (args : List String) : Except UsageError Request :=
  readArguments .none .none args

end Respell.Command
