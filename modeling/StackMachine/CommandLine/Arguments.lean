import StackMachine.Text.Reading

/-!
# Arguments of the command line

There are three commands: `asm`, `emu` and `objdump`. Arguments that begin with a dash are options;
the value of an option is attached to it, or is the next argument if that begins with no dash;
`--` ends the options. Every option can be given once, all other arguments are paths.

* An option or path is checked when the next one begins, or at the end; so of two mistakes the one
  that is complete first is told.
* `Command.ofArguments` reads a whole command line.
-/

namespace StackMachine.CommandLine

/-- When output is colored. -/
inductive ColorChoice where
  | auto
  | always
  | never
deriving DecidableEq, Repr

/-- A command with its settings. -/
inductive Command where
  /-- Assemble source files into an image. -/
  | assemble (sources : List String) (output : String) (color : ColorChoice)
  /-- Run an image; `fuel` limits the steps. -/
  | emulate (program : String) (debug : Bool) (fuel memory : Option Nat) (color : ColorChoice)
  /-- List an image. -/
  | disassemble (program : String) (color : ColorChoice)
deriving DecidableEq, Repr

/-- Why a command line is no command, or a request for help. -/
inductive UsageError where
  | commandMissing
  | helpRequested
  | unknownCommand
  | argumentMissing
  | unknownArgument
  /-- An option without its value, an empty path, or a value outside a list. -/
  | invalidValue
  /-- A value that is no number. -/
  | malformedNumber
  | repeatedOption
  /-- A value attached to an option that takes none. -/
  | unexpectedValue
deriving DecidableEq, Repr

/-- The names of commands. -/
inductive CommandName where
  | asm
  | emu
  | objdump
deriving DecidableEq, Repr

/-- The names of options. -/
inductive OptionName where
  | output
  | debug
  | fuel
  | memory
  | color
  | help
deriving DecidableEq, Repr

namespace CommandName

/-- The command with the given name. -/
def ofString? : String → Option CommandName
  | "asm" => some asm
  | "emu" => some emu
  | "objdump" => some objdump
  | _ => none

/-- The options of a command. -/
def options : CommandName → List OptionName
  | asm => [.output, .color, .help]
  | emu => [.debug, .fuel, .memory, .color, .help]
  | objdump => [.color, .help]

end CommandName

namespace OptionName

/-- The name of an option behind two dashes. -/
def long : OptionName → String
  | output => "output"
  | debug => "debug"
  | fuel => "fuel"
  | memory => "memory"
  | color => "color"
  | help => "help"

/-- The letter of an option behind one dash. -/
def letter? : OptionName → Option Char
  | output => some 'o'
  | debug => some 'd'
  | help => some 'h'
  | _ => none

/-- Whether an option has a value. -/
def takesValue : OptionName → Bool
  | debug | help => false
  | _ => true

end OptionName

/-- What the arguments of a command have set so far. -/
structure Settings where
  output : Option String
  debug : Bool
  fuel : Option Nat
  memory : Option Nat
  color : Option ColorChoice
  paths : List String
deriving DecidableEq, Repr

namespace Settings

/-- Nothing is set. -/
def empty : Settings :=
  ⟨none, false, none, none, none, []⟩

/-- Whether an option is set. -/
def isSet (s : Settings) : OptionName → Bool
  | .output => s.output.isSome
  | .debug => s.debug
  | .fuel => s.fuel.isSome
  | .memory => s.memory.isSome
  | .color => s.color.isSome
  | .help => false

/-- The number of 64 bits that a text stands for. A plus sign may stand in front. -/
def readNumber? (text : String) : Option Nat :=
  let digits := match text.toList with
    | '+' :: rest => rest
    | cs => cs
  (Text.readDecimal? digits).filter (· < 18446744073709551616)

/-- The choice of color with the given name. -/
def readColor? : String → Option ColorChoice
  | "auto" => some .auto
  | "always" => some .always
  | "never" => some .never
  | _ => none

/-- Set an option to a value. -/
def setValue (s : Settings) (name : OptionName) (value : String) : Except UsageError Settings :=
  if s.isSet name then .error .repeatedOption
  else
    match name with
    | .output => if value.isEmpty then .error .invalidValue else .ok { s with output := value }
    | .fuel =>
      match readNumber? value with
      | some n => .ok { s with fuel := n }
      | none => .error .malformedNumber
    | .memory =>
      match readNumber? value with
      | some n => .ok { s with memory := n }
      | none => .error .malformedNumber
    | .color =>
      match readColor? value with
      | some choice => .ok { s with color := choice }
      | none => .error .invalidValue
    | .debug | .help => .error .unexpectedValue

end Settings

/-- What was begun, but is not checked yet. -/
inductive Pending where
  | nothing
  | option (name : OptionName) (value : Option String)
  | paths (paths : List String)
deriving DecidableEq, Repr

/-- A command line that is read up to some argument. -/
structure Reading where
  command : CommandName
  settings : Settings
  pending : Pending
deriving DecidableEq, Repr

namespace Reading

/-- Check what was begun. -/
def complete (r : Reading) : Except UsageError Settings :=
  match r.pending with
  | .nothing => .ok r.settings
  | .option _ none => .error .invalidValue
  | .option name (some value) => r.settings.setValue name value
  | .paths paths =>
    if paths.any String.isEmpty then .error .invalidValue
    else .ok { r.settings with paths := r.settings.paths ++ paths }

/-- Check what was begun, and begin something else. -/
def begin (r : Reading) (pending : Pending) : Except UsageError Reading := do
  return { r with settings := ← r.complete, pending }

/-- An option that takes no value. -/
def flag (r : Reading) (name : OptionName) : Except UsageError Reading := do
  let settings ← r.complete
  match name with
  | .help => throw .helpRequested
  | _ =>
    if settings.debug then throw .repeatedOption
    else return { r with settings := { settings with debug := true }, pending := .nothing }

/-- An option with the value attached to it. -/
def attached (r : Reading) (name : OptionName) (value : String) : Except UsageError Reading := do
  let settings ← r.complete
  return { r with settings := ← settings.setValue name value, pending := .nothing }

/-- An argument that is no option, or stands behind `--`. Only `asm` takes more than one. -/
def path (r : Reading) (argument : String) : Except UsageError Reading :=
  match r.pending with
  | .paths paths =>
    if r.command = .asm then .ok { r with pending := .paths (paths ++ [argument]) }
    else .error .unknownArgument
  | _ =>
    if r.command = .asm ∨ r.settings.paths = [] then r.begin (.paths [argument])
    else .error .unknownArgument

/-- An option behind two dashes, perhaps with a value behind an equals sign. -/
def longOption (r : Reading) (name : String) (value : Option String) :
    Except UsageError Reading :=
  match r.command.options.find? fun o => o.long == name with
  | none => .error .unknownArgument
  | some o =>
    match value with
    | none => if o.takesValue then r.begin (.option o none) else r.flag o
    | some value => if o.takesValue then r.attached o value else .error .unexpectedValue

/-- Letters behind one dash. The first option that takes a value takes the rest for it. -/
def letters (r : Reading) : List Char → Except UsageError Reading
  | [] => .ok r
  | c :: rest =>
    match r.command.options.find? fun o => o.letter? == some c with
    | none => .error .unknownArgument
    | some o =>
      if o.takesValue then
        match rest with
        | [] => r.begin (.option o none)
        | '=' :: value => r.attached o (String.ofList value)
        | value => r.attached o (String.ofList value)
      else do
        letters (← r.flag o) rest

/-- An argument that may be an option. -/
def argument (r : Reading) (argument : String) : Except UsageError Reading :=
  match argument.toList with
  | '-' :: '-' :: rest =>
    let name := String.ofList (rest.takeWhile (· != '='))
    match rest.dropWhile (· != '=') with
    | [] => r.longOption name none
    | _ :: value => r.longOption name (some (String.ofList value))
  | '-' :: c :: rest => r.letters (c :: rest)
  | _ =>
    match r.pending with
    | .option name none => .ok { r with pending := .option name (some argument) }
    | _ => r.path argument

/-- All arguments of a command. -/
def arguments (r : Reading) : List String → Except UsageError Reading
  | [] => .ok r
  | "--" :: rest => rest.foldlM path r
  | first :: rest => do arguments (← r.argument first) rest

/-- The command, once all arguments are read. -/
def finish (r : Reading) : Except UsageError Command := do
  let s ← r.complete
  let color := s.color.getD .auto
  match r.command, s.paths with
  | _, [] => throw .argumentMissing
  | .asm, paths => return .assemble paths (s.output.getD "a.friday") color
  | .emu, program :: _ => return .emulate program s.debug s.fuel s.memory color
  | .objdump, program :: _ => return .disassemble program color

end Reading

namespace Command

/-- A request for help about a command, which has to be there. -/
def help : List String → UsageError
  | [] => .helpRequested
  | [name] =>
    if name = "help" ∨ (CommandName.ofString? name).isSome then .helpRequested else .unknownCommand
  | _ => .unknownCommand

/-- What is wrong with a first argument that names no command. -/
def noCommand : List Char → UsageError
  | '-' :: '-' :: rest =>
    if rest.takeWhile (· != '=') = "help".toList then
      if rest.contains '=' then .unexpectedValue else .helpRequested
    else
      .unknownArgument
  | '-' :: 'h' :: _ => .helpRequested
  | '-' :: _ :: _ => .unknownArgument
  | _ => .unknownCommand

/-- Read a command line, without the name of the program. -/
def ofArguments : List String → Except UsageError Command
  | [] | ["--"] => .error .commandMissing
  | "--" :: name :: _ =>
    if name = "help" ∨ (CommandName.ofString? name).isSome then .error .unknownArgument
    else .error .unknownCommand
  | "help" :: names => .error (help names)
  | name :: rest =>
    match CommandName.ofString? name with
    | some command => do
      let r ← (Reading.mk command .empty .nothing).arguments rest
      r.finish
    | none => .error (noCommand name.toList)

end Command

end StackMachine.CommandLine
