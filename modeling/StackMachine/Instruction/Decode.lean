import StackMachine.Instruction.Registry

/-!
# Reading instructions

An instruction is a definition with its operands. It is encoded as the opcode followed by the
operands in order, and read back by looking its opcode up in a registry.
-/

namespace StackMachine

/-- A definition together with operands. -/
structure Instruction where
  definition : Definition
  operands : List Operand
deriving DecidableEq, Repr

/-- Why no instruction can be read. -/
inductive DecodeError where
  | unknownOpcode (opcode : UInt8)
  | truncated (mnemonic : String) (needed available : Nat)
  | outOfBounds
deriving DecidableEq, Repr

namespace DecodeError

/-- The text of a decoding error. -/
def message : DecodeError → String
  | unknownOpcode opcode => "unknown opcode 0x" ++ Text.hex 2 opcode.toNat
  | truncated mnemonic needed available =>
    "instruction `" ++ mnemonic ++ "` needs " ++ Text.decimal needed ++ " bytes, " ++
      Text.decimal available ++ " left"
  | outOfBounds => "offset is past the end of the image"

end DecodeError

namespace Instruction

/-- The number of bytes of the encoded instruction. -/
def size (i : Instruction) : Nat :=
  i.definition.size

/-- The opcode and the bytes of the operands. -/
def encode (i : Instruction) : List UInt8 :=
  i.definition.opcode :: i.operands.flatMap Operand.encode

/-- The mnemonic and the operands, with commas between them. -/
def toText (i : Instruction) : String :=
  match i.operands with
  | [] => i.definition.mnemonic
  | operands =>
    i.definition.mnemonic ++ " " ++ String.intercalate ", " (operands.map Operand.toText)

/-- Read operands of the given kinds, one after the other. -/
def decodeOperands? (bytes : Bytes) : List OperandKind → (offset : Nat) → Option (List Operand)
  | [], _ => some []
  | kind :: kinds, offset => do
    let operand ← kind.decode? bytes offset
    let operands ← decodeOperands? bytes kinds (offset + kind.size)
    return operand :: operands

/-- Read the instruction at an offset, none of whose bytes may lie at `stop` or behind. -/
def decodeUpTo (registry : Registry) (bytes : Bytes) (stop offset : Nat) :
    Except DecodeError Instruction :=
  if offset < stop then
    match bytes.read8? offset with
    | none => .error .outOfBounds
    | some opcode =>
      match registry.byOpcode? opcode with
      | none => .error (.unknownOpcode opcode)
      | some definition =>
        if stop - offset < definition.size then
          .error (.truncated definition.mnemonic definition.size (stop - offset))
        else
          match decodeOperands? bytes definition.operands (offset + 1) with
          | some operands => .ok ⟨definition, operands⟩
          | none => .error .outOfBounds
  else
    .error .outOfBounds

/-- Read the instruction at an offset. -/
def decode (registry : Registry) (bytes : Bytes) (offset : Nat) :
    Except DecodeError Instruction :=
  decodeUpTo registry bytes bytes.size offset

end Instruction

end StackMachine
