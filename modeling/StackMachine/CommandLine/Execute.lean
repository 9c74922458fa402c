import StackMachine.Assembly.Link
import StackMachine.CommandLine.Arguments
import StackMachine.FileStore
import StackMachine.Instruction.Standard
import StackMachine.Listing
import StackMachine.Machine.Trace

/-!
# Commands

What the three commands do with a file store and the bytes of standard input: the texts that they
print, the exit code, and the store that they leave.

* `disassemble` gives the whole listing, or the part before the failure with the failure.
* `execute` answers `none` only for a run without a limit that does not end within a budget.
-/

namespace StackMachine.CommandLine

open StackMachine.Assembly

/-- Why a command has failed. -/
inductive CommandError where
  | unreadable (path : String) (cause : FileError)
  | unloadable (path : String) (cause : FileError)
  | badImage (path : String) (cause : ImageError)
  | unwritable (path : String) (cause : FileError)
  | link (report : Report) (cause : LinkError)
  | load (cause : LoadError)
  | run (cause : Machine.RunError)
  | fault (halt : Halt)
  /-- A listing that ends at an offset where nothing can be read. -/
  | listing (shown : String) (offset : Nat)

namespace CommandError

/-- The text of a failure. -/
def message : CommandError → String
  | unreadable path cause => "cannot read `" ++ path ++ "`: " ++ cause.message
  | unloadable path cause => "cannot load `" ++ path ++ "`: io error: " ++ cause.message
  | badImage path cause => "cannot load `" ++ path ++ "`: " ++ cause.message
  | unwritable path cause => "cannot write `" ++ path ++ "`: io error: " ++ cause.message
  | link report cause => cause.message report
  | load cause => cause.message
  | run cause => cause.message
  | fault halt => halt.toText
  | listing _ offset => Listing.failureMessage offset

/-- The exit code of a failure: two if a program did not end by itself, else one. -/
def exitCode : CommandError → Nat
  | run _ | fault _ => 2
  | _ => 1

/-- The line that tells a failure. -/
def line (e : CommandError) : String :=
  "error: " ++ e.message ++ "\n"

end CommandError

/-- Whether a choice of color means color, where no output is a terminal. -/
def ColorChoice.isColored : ColorChoice → Bool
  | always => true
  | auto | never => false

/-- What a command leaves behind. -/
structure Execution where
  exitCode : Nat
  stdout : String
  stderr : String
  store : FileStore

/-- Link the files at some paths of a store. -/
def linkStore (store : FileStore) (paths : List String) : LinkResult :=
  linkPaths Registry.standard (fun path => (store.read path).mapError FileError.message) paths

/-- Link files and write the image; the report is told in any case but that of a failed write. -/
def assemble (store : FileStore) (sources : List String) (output : String) :
    Except CommandError (Report × FileStore) :=
  let result := linkStore store sources
  match result.outcome with
  | .error cause => .error (.link result.report cause)
  | .ok program =>
    match store.write output program.bytes with
    | .error cause => .error (.unwritable output cause)
    | .ok store => .ok (result.report, store)

/-- The machine with the image at a path, ready to run. -/
def loadProgram (store : FileStore) (path : String) (memory : Option Nat) :
    Except CommandError Machine :=
  match store.read path with
  | .error cause => .error (.unloadable path cause)
  | .ok bytes =>
    match Program.ofBytes bytes with
    | .error cause => .error (.badImage path cause)
    | .ok program =>
      let machine := Machine.create Registry.standard (memory.getD Machine.defaultMemorySize)
      match machine.load program.bytes with
      | (.ok (), machine) => .ok machine
      | (.error cause, _) => .error (.load cause)

/-- The listing of the image at a path. -/
def disassemble (store : FileStore) (path : String) (palette : Palette) :
    Except CommandError String :=
  match store.read path with
  | .error cause => .error (.unreadable path cause)
  | .ok bytes =>
    let listing := Listing.ofBytes Registry.standard bytes
    match listing.failure with
    | none => .ok (listing.linesText palette)
    | some offset => .error (.listing (listing.linesText palette) offset)

/-- The lines of a report, none if it says nothing. -/
def reportLines (report : Report) (colored : Bool) : String :=
  if report.diagnostics.isEmpty then ""
  else report.toText (ExcerptStyle.ofBool colored) ++ "\n"

/-- How a run that ends by a failure is told: behind its trace. -/
def tellFailedRun (stdout trace : String) (store : FileStore) (e : CommandError) : Execution :=
  ⟨e.exitCode, stdout, trace ++ e.line, store⟩

/-- How the end of a run is told. -/
def tellEnd (stdout trace : String) (store : FileStore) (outcome : Except Machine.RunError Halt) :
    Execution :=
  match outcome with
  | .ok halt =>
    if halt.isClean then ⟨0, stdout, trace, store⟩
    else tellFailedRun stdout trace store (.fault halt)
  | .error e => tellFailedRun stdout trace store (.run e)

/-- The console whose input is a byte string, and whose output has no limit. -/
def consoleOf (stdin : Bytes) : StreamingConsole :=
  ⟨[.chunk stdin.toList], "", none⟩

/-- How a command that has failed before it printed anything is told. -/
def tellError (store : FileStore) (colored : Bool) (e : CommandError) : Execution :=
  match e with
  | .link report _ => ⟨e.exitCode, "", reportLines report colored ++ e.line, store⟩
  | .listing shown _ => ⟨e.exitCode, shown, e.line, store⟩
  | _ => ⟨e.exitCode, "", e.line, store⟩

/-- Carry out a command. -/
def Command.execute (store : FileStore) (stdin : Bytes) (budget : Nat) :
    Command → Option Execution
  | assemble sources output color =>
    match CommandLine.assemble store sources output with
    | .ok (report, store) => some ⟨0, "", reportLines report color.isColored, store⟩
    | .error e => some (tellError store color.isColored e)
  | emulate program debug fuel memory color =>
    match loadProgram store program memory with
    | .error e => some (tellError store color.isColored e)
    | .ok machine =>
      if debug then
        let tracer := Tracer.printing (Palette.ofBool color.isColored)
        (machine.run? tracer fuel budget (consoleOf stdin) "").map fun (outcome, state) =>
          tellEnd state.console.output state.trace store outcome
      else
        (machine.run? Tracer.silent fuel budget (consoleOf stdin) ()).map fun (outcome, state) =>
          tellEnd state.console.output "" store outcome
  | disassemble program color =>
    match CommandLine.disassemble store program (Palette.ofBool color.isColored) with
    | .ok text => some ⟨0, text, "", store⟩
    | .error e => some (tellError store color.isColored e)

end StackMachine.CommandLine
