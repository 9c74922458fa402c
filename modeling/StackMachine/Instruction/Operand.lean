import StackMachine.Bytes
import StackMachine.Text.Numeral

/-!
# Operands

An operand is a constant of four bytes, a register of one byte, or the code offset of a label, of
two bytes.

* `Operand.length_encode`: an encoded operand is as long as its kind says.
-/

namespace StackMachine

/-- The kinds of operand. -/
inductive OperandKind where
  | constant
  | register
  | label
deriving DecidableEq, Repr

/-- An operand: the bits of a constant, the index of a register, or the code offset of a label. -/
inductive Operand where
  | constant (bits : UInt32)
  | register (index : UInt8)
  | label (address : UInt16)
deriving DecidableEq, Repr

namespace OperandKind

/-- The number of bytes of an encoded operand. -/
def size : OperandKind → Nat
  | constant => 4
  | register => 1
  | label => 2

/-- The name of a kind. -/
def name : OperandKind → String
  | constant => "CONSTANT"
  | register => "REGISTER"
  | label => "LABEL"

/-- Read an operand of this kind. -/
def decode? (kind : OperandKind) (bytes : Bytes) (offset : Nat) : Option Operand :=
  match kind with
  | constant => (bytes.read32? offset).map .constant
  | register => (bytes.read8? offset).map .register
  | label => (bytes.read16? offset).map .label

/-- A list of kinds in brackets. -/
def signature (kinds : List OperandKind) : String :=
  "(" ++ String.intercalate ", " (kinds.map name) ++ ")"

end OperandKind

namespace Operand

/-- The kind of an operand. -/
def kind : Operand → OperandKind
  | constant _ => .constant
  | register _ => .register
  | label _ => .label

/-- The bytes of an operand, lowest first. -/
def encode : Operand → List UInt8
  | constant bits => Bytes.bytes32 bits
  | register index => [index]
  | label address => Bytes.bytes16 address

theorem length_encode (operand : Operand) : operand.encode.length = operand.kind.size := by
  cases operand <;> rfl

/-- An operand in a listing: a constant as a signed number, a register by its index, a label by its
code offset. -/
def toText : Operand → String
  | constant bits => Text.signedDecimal (Bytes.toSigned bits)
  | register index => "r" ++ Text.decimal index.toNat
  | label address => "<file_start+" ++ Text.hex 4 address.toNat ++ ">"

end Operand

end StackMachine
