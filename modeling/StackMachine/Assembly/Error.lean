import StackMachine.Assembly.Diagnostic
import StackMachine.Instruction.Operand

/-!
# Assembly errors

The causes that reject a source file, with their texts.
-/

namespace StackMachine.Assembly

/-- Why a line is no statement of the language. -/
inductive SyntaxError where
  | unexpectedCharacters
  | invalidLabelName (text : String)
  | commaBeforeInstruction
  | commaBeforeArgument
  | commaAfterComma
  | commaInDirective
  | integerTooLarge (token : String)
  | badArgument (token : String)
  | registerCountMissing
  | integerExpected (directive argument : String)
  | tooManyArguments (directive argument : String)
deriving DecidableEq, Repr

/-- Why a source file is rejected. -/
inductive AssemblyError where
  | syntaxError (cause : SyntaxError)
  | undefinedInstruction (mnemonic : String) (operands : List OperandKind)
  | unresolvedLabel (name : String)
  | registerOutOfRange (register : String) (count : UInt8)
  | addressSpaceExceeded (offset : Nat)
  | duplicateLabel (name : String) (offset : UInt16)
  | labelMoved (name : String) (recorded : UInt16) (actual : Nat)
  | unknownDirective (name : String)
deriving DecidableEq, Repr

/-- The text of a syntax error. -/
def SyntaxError.message : SyntaxError → String
  | unexpectedCharacters => "unexpected characters"
  | invalidLabelName text => "invalid label name `" ++ text ++ "`"
  | commaBeforeInstruction => "expected an instruction before comma"
  | commaBeforeArgument => "argument expected before comma"
  | commaAfterComma => "argument expected after comma"
  | commaInDirective => "directive arguments are not comma separated"
  | integerTooLarge token => "integer `" ++ token ++ "` does not fit in 32 bits"
  | badArgument token => "bad argument `" ++ token ++ "`"
  | registerCountMissing => "`.registers` expects a register count"
  | integerExpected directive argument =>
    "`." ++ directive ++ "` expects an integer, found `" ++ argument ++ "`"
  | tooManyArguments directive argument =>
    "`." ++ directive ++ "` takes one argument, found `" ++ argument ++ "`"

namespace AssemblyError

/-- A code offset as it stands in an error. -/
def place (offset : Nat) : String :=
  "<file_start+" ++ Text.hex 4 offset ++ ">"

/-- The text of an assembly error. -/
def message : AssemblyError → String
  | syntaxError cause => cause.message
  | undefinedInstruction mnemonic operands =>
    "undefined instruction `" ++ mnemonic ++ "` with operands " ++ OperandKind.signature operands
  | unresolvedLabel name => "label not found: `" ++ name ++ "`"
  | registerOutOfRange register count =>
    "register " ++ register ++ " is out of range: the program has " ++ Text.decimal count.toNat ++
      " registers"
  | addressSpaceExceeded offset =>
    "code offset 0x" ++ Text.hex 1 offset ++ " exceeds the 16-bit address space"
  | duplicateLabel name offset =>
    "label `" ++ name ++ "` is already defined at " ++ place offset.toNat
  | labelMoved name recorded actual =>
    "label `" ++ name ++ "` was recorded at " ++ place recorded.toNat ++ " but is now at " ++
      place actual
  | unknownDirective name => "unknown directive `" ++ name ++ "`"

/-- The kind of diagnostic that tells an assembly error. -/
def kind : AssemblyError → DiagnosticKind
  | syntaxError _ => .syntaxError
  | undefinedInstruction .. => .undefinedInstruction
  | unresolvedLabel _ => .unresolvedLabel
  | registerOutOfRange .. => .registerOutOfRange
  | addressSpaceExceeded _ => .addressSpaceExceeded
  | duplicateLabel .. => .duplicateLabel
  | labelMoved .. => .labelMoved
  | unknownDirective _ => .unknownDirective

end AssemblyError

end StackMachine.Assembly
