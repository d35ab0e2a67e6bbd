import AsmLayout.Command

/-!
# Command-line arguments

`Arguments.parse` reads the arguments of the program into an `Invocation`. Options may be written
`--name value`, `--name=value`, `-n value`, `-nvalue` or `-n=value`, and short flags may be joined.
An option may be given once; the settings file and verbosity may be given before and after the name
of the command, and then the later ones count. After `--` every argument stands for itself.
-/

namespace AsmLayout

/-- Why the arguments call for no command. -/
inductive Stop
  | usage
  | help
  | version
  deriving DecidableEq, Repr

/-- An option of the program or of one of its commands. -/
inductive Flag
  | verbose
  | config
  | help
  | version
  | format
  | denyDiagnostics
  | layout
  | context
  | location
  deriving DecidableEq, Repr

namespace Flag

def long : Flag → String
  | verbose => "verbose"
  | config => "config"
  | help => "help"
  | version => "version"
  | format => "format"
  | denyDiagnostics => "deny-diagnostics"
  | layout => "layout"
  | context => "context"
  | location => "location"

def short? : Flag → Option Char
  | verbose => some 'v'
  | config => some 'c'
  | help => some 'h'
  | version => some 'V'
  | format => some 'f'
  | layout => some 'l'
  | denyDiagnostics | context | location => none

def takesValue : Flag → Bool
  | config | format | layout | context | location => true
  | verbose | help | version | denyDiagnostics => false

/-- The word that a value of the option `location` stands for. -/
def word? (value : String) : Option Int64 := (Text.signedDecimal? value.toList).bind int64?

/-- Whether the option takes a given value. Paths are not empty. -/
def accepts (value : String) : Flag → Bool
  | config | layout => !value.isEmpty
  | location => (word? value).isSome
  | _ => true

end Flag

/-- Where arguments are read: before the name of the command, or after it. -/
inductive Level
  | program
  | resolve
  | eval
  | tokens
  deriving DecidableEq, Repr

namespace Level

def flags : Level → List Flag
  | program => [.verbose, .config, .help, .version]
  | resolve => [.verbose, .config, .help, .format, .denyDiagnostics]
  | eval => [.verbose, .config, .help, .format, .layout, .context, .location]
  | tokens => [.verbose, .config, .help, .format]

/-- The command that a word names. -/
def ofName? : String → Option Level
  | "resolve" => some resolve
  | "eval" => some eval
  | "tokens" => some tokens
  | _ => none

/-- Whether the level takes an argument that is no option. -/
def acceptsOperand (value : String) : Level → Bool
  | program => false
  | resolve => !value.isEmpty
  | eval | tokens => true

end Level

/-- What has been read at one level. -/
structure Arguments where
  level : Level
  given : List (Flag × String)
  operand : Option String
  /-- An option whose value comes next. -/
  pending : Option Flag
  /-- Whether `--` has been read. -/
  literal : Bool
  deriving DecidableEq, Repr

namespace Arguments

def start (level : Level) : Arguments := ⟨level, [], none, none, false⟩

/-- The arguments with a value for an option. -/
def give (a : Arguments) (flag : Flag) (value : String) : Except Stop Arguments :=
  if (a.given.lookup flag).isSome || !flag.accepts value then .error .usage
  else .ok { a with given := a.given ++ [(flag, value)], pending := none }

/-- The arguments with a flag that has no value. -/
def raise (a : Arguments) (flag : Flag) : Except Stop Arguments :=
  match flag with
  | .help => .error .help
  | .version => .error .version
  | _ => a.give flag ""

/-- An argument that is no option. -/
def place (a : Arguments) (value : String) : Except Stop Arguments :=
  if a.operand.isSome || !a.level.acceptsOperand value then .error .usage
  else .ok { a with operand := some value }

/-- A long option, without its hyphens. -/
def stepLong (a : Arguments) (text : List Char) : Except Stop Arguments :=
  let name := String.ofList (text.takeWhile (· != '='))
  match a.level.flags.find? (·.long == name), text.dropWhile (· != '=') with
  | none, _ => .error .usage
  | some flag, [] => if flag.takesValue then .ok { a with pending := some flag } else a.raise flag
  | some flag, _ :: value =>
    if flag.takesValue then a.give flag (String.ofList value) else .error .usage

/-- Short options, without their hyphen. The first that takes a value takes all that follows. -/
def stepShort (a : Arguments) : List Char → Except Stop Arguments
  | [] => .ok a
  | c :: rest =>
    match a.level.flags.find? (·.short? == some c) with
    | none => .error .usage
    | some flag =>
      if flag.takesValue then
        match rest with
        | [] => .ok { a with pending := some flag }
        | '=' :: value => a.give flag (String.ofList value)
        | value => a.give flag (String.ofList value)
      else do stepShort (← a.raise flag) rest

/-- What may follow the digits before and after the point of a number. -/
def isExponentOrNothing : List Char → Bool
  | [] => true
  | 'e' :: digits | 'E' :: digits => !digits.isEmpty && digits.all Char.isDigit
  | _ => false

/-- Whether what follows a hyphen looks like a number, with a point and an exponent or without. -/
def looksLikeNumber (cs : List Char) : Bool :=
  let rest := match cs.dropWhile Char.isDigit with
    | '.' :: rest => rest.dropWhile Char.isDigit
    | rest => rest
  cs.head?.any Char.isDigit && isExponentOrNothing rest

/-- One argument. -/
def step (a : Arguments) (arg : String) : Except Stop Arguments :=
  if a.literal then a.place arg
  else match arg.toList, a.pending with
    | ['-', '-'], none => .ok { a with literal := true }
    | '-' :: '-' :: text, none => a.stepLong text
    | '-' :: c :: text, none => a.stepShort (c :: text)
    | '-' :: c :: text, some flag =>
      if flag = .location && looksLikeNumber (c :: text) then a.give flag arg else .error .usage
    | _, some flag => a.give flag arg
    | _, none => a.place arg

/-- The value of an option. -/
def value? (a : Arguments) (flag : Flag) : Option String := a.given.lookup flag

def json (a : Arguments) : Bool := (a.value? .format).any (Text.sameAsciiLetters · "json")

/-- The command that complete arguments of a command stand for. -/
def command? (a : Arguments) : Option Command := do
  let operand ← a.operand
  match a.level with
  | .program => none
  | .resolve => some (.resolve operand a.json (a.value? .denyDiagnostics).isSome)
  | .eval =>
    let counter := ((a.value? .location).bind Flag.word?).getD 0
    some (.eval operand (a.value? .layout) ((a.value? .context).getD "") counter a.json)
  | .tokens => some (.tokens operand a.json)

/-- The arguments after the name of a command; `outer` holds those before it. -/
def invocation (outer : Arguments) (level : Level) (args : List String) :
    Except Stop Invocation := do
  let inner ← args.foldlM step (start level)
  match inner.pending, inner.command? with
  | none, some command => .ok ⟨(inner.value? .config).or (outer.value? .config), command⟩
  | _, _ => .error .usage

/-- The arguments after the word `help`: at most the name of a command. -/
def helpOn : List String → Stop
  | [] => .help
  | [name] => if (Level.ofName? name).isSome || name == "help" then .help else .usage
  | _ => .usage

/-- The arguments from a point before the name of the command. -/
def parseFrom (outer : Arguments) : List String → Except Stop Invocation
  | [] => .error .usage
  | arg :: rest =>
    let command := if outer.pending.isNone && !outer.literal then Level.ofName? arg else none
    match command with
    | some level => invocation outer level rest
    | none =>
      if outer.pending.isNone && !outer.literal && arg == "help" then .error (helpOn rest)
      else do parseFrom (← outer.step arg) rest

/-- The invocation that the arguments of the program stand for. -/
def parse (args : List String) : Except Stop Invocation := parseFrom (start .program) args

end Arguments

namespace Stop

/-- The name by which the program is called. -/
def programName : String := "open-mainframe-layout"

/-- How the program is used. -/
def usageText : String :=
  s!"Usage: {programName} [-v] [-c CONFIG] COMMAND\n\n" ++
  "Commands:\n" ++
  "  resolve LAYOUT [-f FORMAT] [--deny-diagnostics]\n" ++
  "  eval EXPR [-l LAYOUT] [--context CONTEXT] [--location LOCATION] [-f FORMAT]\n" ++
  "  tokens OPERAND [-f FORMAT]\n"

/-- What the program does instead of a command. -/
def outcome : Stop → Outcome
  | usage => ⟨2, "", some usageText⟩
  | help => .success usageText
  | version => .success s!"{programName} 0.1.0\n"

end Stop

/-- What the program does when it is called with the given arguments. -/
def Outcome.ofArguments (files : String → Option String) (args : List String) : Outcome :=
  match Arguments.parse args with
  | .ok invocation => invocation.run files
  | .error stop => stop.outcome

end AsmLayout
