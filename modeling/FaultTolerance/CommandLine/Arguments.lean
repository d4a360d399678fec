import FaultTolerance.Wire.Settings

/-! The arguments of the program.

`Invocation.parse` reads them from left to right. An option takes its value from the same argument,
after `=`, or from the next one, which then must not begin with a hyphen; every option but that for
dependencies is given at most once. After `--` no argument is an option. -/
namespace FaultTolerance.CommandLine

/-- What a request asks for. -/
inductive Task where
  /-- The properties of a project, in a scope if one is given. -/
  | properties (scope : Option Scope) (dependencies : List String)
  /-- The diagnostics of a project's documents, in a format if one is given. -/
  | diagnostics (format : Option DocumentFormat)
  deriving Repr

structure Request where
  /-- The path of the project or of a single file. -/
  path : String
  /-- The path of the settings, if one is given. -/
  settings : Option String
  /-- Whether the answer is to be JSON. -/
  json : Bool
  task : Task
  deriving Repr

/-- What arguments may amount to. -/
inductive Invocation where
  | request (request : Request)
  | version
  | help
  deriving Repr

/-! ## Options -/

inductive Command where
  | properties | diagnostics
  deriving DecidableEq, Repr

def Command.ofText? : String → Option Command
  | "properties" => some .properties
  | "diagnostics" => some .diagnostics
  | _ => none

/-- An option with a value. -/
inductive Key where
  | config | scope | dependency | format
  deriving DecidableEq, Repr

def Key.ofText? : String → Option Key
  | "config" => some .config
  | "scope" => some .scope
  | "dependency" => some .dependency
  | "format" => some .format
  | _ => none

/-- Whether an option may stand after a command, or before any. -/
def Key.suits : Key → Option Command → Bool
  | .config, _ => true
  | .scope, command => command = some .properties
  | .dependency, command => command = some .properties
  | .format, command => command = some .diagnostics

def scope? : String → Option Scope
  | "sources-only" => some .sourcesOnly
  | "sources-and-dependencies" => some .sourcesAndDependencies
  | _ => none

def format? : String → Option DocumentFormat
  | "markdown" => some .markdown
  | "plaintext" => some .plainText
  | _ => none

/-- An argument by its looks. -/
inductive Argument where
  /-- Two hyphens and a name, and what follows `=` if it is there. -/
  | long (name : String) (value : Option String)
  /-- One hyphen and letters. -/
  | short (letters : List Char)
  /-- Two hyphens alone. -/
  | separator
  | plain (text : String)
  deriving Repr

def Argument.ofText (text : String) : Argument :=
  match text.toList with
  | ['-', '-'] => .separator
  | '-' :: '-' :: cs =>
    .long (.ofList (cs.takeWhile (· ≠ '=')))
      (if cs.contains '=' then some (.ofList ((cs.dropWhile (· ≠ '=')).drop 1)) else none)
  | '-' :: c :: cs => .short (c :: cs)
  | _ => .plain text

/-! ## Reading arguments -/

/-- Why reading stops before the last argument. -/
inductive Stop where
  | version
  | help
  | refused
  deriving DecidableEq, Repr

/-- What has been read. -/
structure Draft where
  command : Option Command := none
  /-- The path of the settings as given before the command. -/
  outerConfig : Option String := none
  config : Option String := none
  path : Option String := none
  scope : Option Scope := none
  format : Option DocumentFormat := none
  dependencies : List String := []
  json : Bool := false
  /-- The option that still lacks its value. -/
  pending : Option Key := none
  /-- Whether the separator has been read. -/
  onlyPlain : Bool := false

namespace Draft

/-- Gives an option its value. -/
def set (d : Draft) (key : Key) (value : String) : Except Stop Draft :=
  if value.isEmpty then .error .refused
  else match key with
    | .config =>
      if d.config.isSome then .error .refused else .ok { d with config := some value }
    | .scope =>
      match d.scope, scope? value with
      | none, some scope => .ok { d with scope := some scope }
      | _, _ => .error .refused
    | .dependency => .ok { d with dependencies := d.dependencies ++ [value] }
    | .format =>
      match d.format, format? value with
      | none, some format => .ok { d with format := some format }
      | _, _ => .error .refused

/-- Reads an argument that is no option: the command, then the path. -/
def addPlain (d : Draft) (text : String) : Except Stop Draft :=
  match d.command with
  | none =>
    match Command.ofText? text with
    | some command =>
      if d.onlyPlain then .error .refused
      else .ok { d with command := some command, outerConfig := d.config, config := none }
    | none => .error .refused
  | some _ =>
    if d.path.isSome || text.isEmpty then .error .refused else .ok { d with path := some text }

/-- Reads an option by its long name. -/
def addLong (d : Draft) (name : String) (value : Option String) : Except Stop Draft :=
  match name, value with
  | "help", none => .error .help
  | "version", none => .error (if d.command.isNone then .version else .refused)
  | "json", none =>
    if d.command.isNone || d.json then .error .refused else .ok { d with json := true }
  | name, value =>
    match Key.ofText? name with
    | some key =>
      if !key.suits d.command then .error .refused
      else match value with
        | some value => d.set key value
        | none => .ok { d with pending := some key }
    | none => .error .refused

/-- Reads an option by its letter. -/
def addShort (d : Draft) (letters : List Char) : Except Stop Draft :=
  match letters.head? with
  | some 'h' => .error .help
  | some 'V' => .error (if d.command.isNone then .version else .refused)
  | _ => .error .refused

def add (d : Draft) (text : String) : Except Stop Draft :=
  match d.pending, Argument.ofText text with
  | some key, .plain value => { d with pending := none }.set key value
  | some _, _ => .error .refused
  | none, argument =>
    if d.onlyPlain then d.addPlain text
    else match argument with
      | .separator => .ok { d with onlyPlain := true }
      | .long name value => d.addLong name value
      | .short letters => d.addShort letters
      | .plain text => d.addPlain text

/-- Whether the words after `help` name a command, or nothing. -/
def namesTopic : List String → Bool
  | [] => true
  | [topic] => topic = "help" || (Command.ofText? topic).isSome
  | _ => false

/-- Reads all arguments. -/
def addAll (d : Draft) : List String → Except Stop Draft
  | [] => .ok d
  | text :: rest =>
    if text = "help" && d.command.isNone && d.pending.isNone && !d.onlyPlain then
      .error (if namesTopic rest then .help else .refused)
    else do (← d.add text).addAll rest

/-- The request of the arguments read. The settings given after the command count before those
given in front of it. -/
def toRequest (d : Draft) : Option Request :=
  match d.pending, d.command, d.path with
  | none, some command, some path =>
    some {
      path
      settings := d.config.or d.outerConfig
      json := d.json
      task := match command with
        | .properties => .properties d.scope d.dependencies
        | .diagnostics => .diagnostics d.format }
  | _, _, _ => none

end Draft

/-- What arguments amount to; nothing if they are refused. -/
def Invocation.parse (arguments : List String) : Option Invocation :=
  match Draft.addAll {} arguments with
  | .ok d => d.toRequest.map .request
  | .error .version => some .version
  | .error .help => some .help
  | .error .refused => none

end FaultTolerance.CommandLine
