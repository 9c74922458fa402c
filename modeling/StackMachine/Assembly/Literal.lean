import StackMachine.Assembly.Error
import StackMachine.Binary32.Decimal

/-!
# Operand tokens

What an operand is, told from its token alone and the number of registers: a numeric literal, else a
register, else a label.

* An integer is decimal, with leading zeros as it likes, or hexadecimal behind `0x`; it has an
  optional sign, and fits in 32 bits as a signed or an unsigned number.
* A float is any other decimal number that starts like a number.
* A register is `r` and its index.
* What starts with a digit and is none of these is an error; all else names a label.
-/

namespace StackMachine.Assembly

/-- An operand whose label, if it is one, is not looked up yet. -/
inductive OperandToken where
  | constant (bits : UInt32)
  | register (index : UInt8)
  | label (name : String)
deriving DecidableEq, Repr

namespace Literal

/-- The digits of an integer without sign, in base ten or behind `0x` in base sixteen. -/
def unsigned? : List Char → Option Nat
  | '0' :: 'x' :: digits => Text.readHex? digits
  | '0' :: 'X' :: digits => Text.readHex? digits
  | digits => Text.readDecimal? digits

/-- The exact value of an integer literal. -/
def integer? (token : String) : Option Int :=
  let (negative, rest) := Text.splitSign token.toList
  (unsigned? rest).map (Text.applySign negative)

/-- Whether the magnitude of an integer fits in 63 bits. -/
def isModerate (i : Int) : Bool :=
  i.natAbs < 9223372036854775808

/-- Whether a token consists of the characters of numbers, and begins like one behind its signs. -/
def looksNumeric (token : String) : Bool :=
  let body := token.toList.dropWhile fun c => c == '+' || c == '-'
  let begins := match body with
    | [] => false
    | c :: _ => c.isDigit || c == '.'
  begins && body.all fun c =>
    c.isDigit || c == '.' || c == 'e' || c == 'E' || c == '+' || c == '-'

/-- The bit pattern of a float literal. -/
def float? (token : String) : Option UInt32 :=
  if looksNumeric token then Binary32.read? token.toList else none

/-- The bit pattern of a numeric literal, or nothing if the token is none. -/
def constant (token : String) : Except SyntaxError (Option UInt32) :=
  match integer? token with
  | some i =>
    if -2147483648 ≤ i ∧ i < 4294967296 then .ok (some (Bytes.ofSigned i))
    else .error (.integerTooLarge token)
  | none => .ok (float? token)

/-- The index of a register, however large. -/
def register? (token : String) : Option Nat :=
  match token.toList with
  | 'r' :: digits => Text.readDecimal? digits
  | _ => none

/-- Whether a text starts with a decimal digit. -/
def startsWithDigit (text : String) : Bool :=
  text.toList.head?.any Char.isDigit

end Literal

/-- Tell what an operand is, in a program with `count` registers. -/
def OperandToken.classify (token : String) (count : UInt8) : Except AssemblyError OperandToken :=
  match Literal.constant token with
  | .error cause => .error (.syntaxError cause)
  | .ok (some bits) => .ok (.constant bits)
  | .ok none =>
    match Literal.register? token with
    | some index =>
      if index < count.toNat then .ok (.register (UInt8.ofNat index))
      else .error (.registerOutOfRange token count)
    | none =>
      if Literal.startsWithDigit token then .error (.syntaxError (.badArgument token))
      else .ok (.label token)

end StackMachine.Assembly
