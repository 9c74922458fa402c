import StackMachine.Instruction.Operand

/-!
# Instruction definitions

An instruction is defined by a mnemonic, an opcode, the kinds of its operands, and what it does to
the machine. What it does is one of a closed list of effects, so that a machine can carry out any
set of definitions.
-/

namespace StackMachine

/-- How words on the stack are read as numbers. -/
inductive NumberKind where
  | int
  | float
deriving DecidableEq, Repr

/-- A comparison, of the left number with the right one. -/
inductive Comparison where
  | above
  | aboveEqual
  | below
  | belowEqual
  | equal
  | notEqual
deriving DecidableEq, Repr

/-- An arithmetic operation, with the left number first. -/
inductive Arithmetic where
  | add
  | sub
  | mul
  | div
  | rem
deriving DecidableEq, Repr

/-- What an instruction does. An effect on two numbers pops the right one first. -/
inductive Effect where
  /-- Stop with a clean exit. -/
  | halt
  /-- Push the constant operand. -/
  | pushConstant
  /-- Push the value of the register operand. -/
  | pushRegister
  /-- Pop into the register operand. -/
  | popRegister
  /-- Read an integer and push it. -/
  | readInt
  /-- Read a float and push it. -/
  | readFloat
  /-- Pop an integer and write it. -/
  | writeInt
  /-- Pop a float and write it. -/
  | writeFloat
  /-- Push the address of the next instruction. -/
  | depart
  /-- Push the address of the next instruction, then jump to the label operand. -/
  | call
  /-- Pop an address and jump to it. -/
  | return
  /-- Pop an integer and push the nearest float. -/
  | intToFloat
  /-- Pop a float and push it as an integer. -/
  | floatToInt
  /-- Jump to the label operand. -/
  | jump
  /-- Pop two numbers and jump to the label operand if the comparison holds. -/
  | branch (kind : NumberKind) (comparison : Comparison)
  /-- Pop two numbers and push the result of the operation. -/
  | arithmetic (kind : NumberKind) (operation : Arithmetic)
  /-- Pop a float and push its square root. -/
  | sqrt
deriving DecidableEq, Repr

/-- The definition of an instruction. -/
structure Definition where
  mnemonic : String
  opcode : UInt8
  operands : List OperandKind
  effect : Effect
deriving DecidableEq, Repr

namespace Definition

/-- The number of bytes of an encoded instruction: the opcode and every operand. -/
def size (d : Definition) : Nat :=
  1 + (d.operands.map OperandKind.size).foldr (· + ·) 0

theorem size_pos (d : Definition) : 0 < d.size := by
  simp only [size]
  omega

/-- The kinds of the operands, in brackets. -/
def signature (d : Definition) : String :=
  OperandKind.signature d.operands

end Definition

end StackMachine
