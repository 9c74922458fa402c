import StackMachine.Assembly.Literal

/-!
# Directives

A directive is a name behind a point, with at most one argument, which is an integer.
-/

namespace StackMachine.Assembly

/-- A directive with its argument. -/
inductive Directive where
  /-- The version of the instruction set that a source is written for. -/
  | version (number : Option Int)
  /-- The number of registers that a source asks for. -/
  | registers (count : Int)
deriving DecidableEq, Repr

namespace Directive

/-- The name of the directive for the version of the instruction set. -/
def versionName : String := "friday_asm"

/-- The name of the directive for the number of registers. -/
def registersName : String := "registers"

/-- The name of a directive. -/
def name : Directive → String
  | version _ => versionName
  | registers _ => registersName

/-- The argument of a directive, if it has one. -/
def argument? : Directive → Option Int
  | version number => number
  | registers count => some count

/-- Read at most one integer argument. -/
def readArgument (name : String) : List String → Except SyntaxError (Option Int)
  | [] => .ok none
  | [argument] =>
    match Literal.integer? argument with
    | some i =>
      if Literal.isModerate i then .ok (some i) else .error (.integerExpected name argument)
    | none => .error (.integerExpected name argument)
  | _ :: extra :: _ => .error (.tooManyArguments name extra)

/-- Read a directive from its name, without the point, and its arguments. -/
def read (name : String) (arguments : List String) : Except AssemblyError Directive :=
  if name = versionName then
    match readArgument name arguments with
    | .ok number => .ok (.version number)
    | .error cause => .error (.syntaxError cause)
  else if name = registersName then
    match readArgument name arguments with
    | .ok (some count) => .ok (.registers count)
    | .ok none => .error (.syntaxError .registerCountMissing)
    | .error cause => .error (.syntaxError cause)
  else
    .error (.unknownDirective name)

end Directive

end StackMachine.Assembly
