import StackMachine.CommandLine.Execute

/-!
# The program

Reads the files that a command names, carries out the command, prints what it says, and writes the
files that it changes.
-/

namespace StackMachine.CommandLine

/-- The paths that a command reads. -/
def Command.inputs : Command → List String
  | assemble sources _ _ => sources
  | emulate program .. => [program]
  | disassemble program _ => [program]

/-- The path that a command writes. -/
def Command.outputs : Command → List String
  | assemble _ output _ => [output]
  | _ => []

/-- The complaint about a command line. -/
def UsageError.message : UsageError → String
  | commandMissing => "a command is missing"
  | helpRequested => "usage: (asm [-o FILE] SOURCE... | emu [-d] PROGRAM | objdump PROGRAM)"
  | unknownCommand => "unknown command"
  | argumentMissing => "an argument is missing"
  | unknownArgument => "unknown argument"
  | invalidValue => "an option has no valid value"
  | malformedNumber => "an option needs a number"
  | repeatedOption => "an option is given twice"
  | unexpectedValue => "an option takes no value"

/-- The file error that an error of the system stands for. Its code may come with a minus sign. -/
def fileError? : IO.Error → Option FileError
  | .noFileOrDirectory .. => some .notFound
  | .inappropriateType _ code _ =>
    some (if code = 20 ∨ code = -20 then .notDirectory else .isDirectory)
  | _ => none

/-- The store in which reading a path fails in the given way. -/
def withFileError (store : FileStore) (path : String) : FileError → FileStore
  | .notFound | .nameTooLong | .invalidName => store
  | .isDirectory => store.add path .directory
  | .notDirectory =>
    let place := FileStore.placeOf path
    let parent := place.dropLast
    let inTheWay := if (store.lookup? parent).isSome then place else parent
    (store.addAbove inTheWay).set inTheWay (.file #[])

/-- Add the file at a path to a store. What cannot be read for some other reason is not there. -/
def loadFile (store : FileStore) (path : String) : IO FileStore := do
  try
    let content ← IO.FS.readBinFile path
    return store.add path (.file content.data)
  catch e =>
    return withFileError store path ((fileError? e).getD .notFound)

/-- All bytes of a stream. -/
partial def readAll (stream : IO.FS.Stream) (bytes : ByteArray) : IO ByteArray := do
  let more ← stream.read 65536
  if more.isEmpty then return bytes else readAll stream (bytes ++ more)

/-- Carry out a command with more and more steps until it ends. -/
partial def executeFully (store : FileStore) (stdin : Bytes) (budget : Nat) (command : Command) :
    IO Execution :=
  match command.execute store stdin budget with
  | some execution => return execution
  | none => executeFully store stdin (16 * budget) command

/-- Carry out a command on the files around the working directory. -/
def runCommand (command : Command) : IO UInt32 := do
  let store ← command.inputs.foldlM loadFile FileStore.empty
  -- Whether the directory of the output is there is seen when it is written.
  let store := command.outputs.foldl (fun store path => store.addParents path) store
  let stdin ← match command with
    | .emulate .. => readAll (← IO.getStdin) ByteArray.empty
    | _ => pure ByteArray.empty
  let execution ← executeFully store stdin.data 1048576 command
  IO.print execution.stdout
  let mut exitCode := execution.exitCode
  let mut complaint := ""
  for (path, content) in execution.store.changesSince store do
    try
      IO.FS.writeBinFile path ⟨content⟩
    catch e =>
      exitCode := 1
      complaint := (CommandError.unwritable path ((fileError? e).getD .notFound)).line
  IO.eprint (if complaint.isEmpty then execution.stderr else complaint)
  return UInt32.ofNat exitCode

end StackMachine.CommandLine

/-- Read the command line and carry it out. -/
def main (args : List String) : IO UInt32 := do
  match StackMachine.CommandLine.Command.ofArguments args with
  | .ok command => StackMachine.CommandLine.runCommand command
  | .error .helpRequested =>
    IO.println StackMachine.CommandLine.UsageError.helpRequested.message
    return 0
  | .error e =>
    IO.eprintln ("error: " ++ e.message)
    return 2
