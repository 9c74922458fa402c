import StackMachine.Instruction.Decode
import StackMachine.Machine.Run
import StackMachine.Palette

/-!
# Traces

A printed trace has a line for each step, with the state before it and the instruction that comes
next, and a line for the halt.
-/

namespace StackMachine

/-- What a machine is about to execute. -/
inductive NextInstruction where
  | decoded (instruction : Instruction)
  /-- An unknown opcode, or an instruction that the end of the image cuts off. -/
  | raw (byte : UInt8)
  | outOfImage
deriving DecidableEq, Repr

namespace Machine

/-- What the machine is about to execute. -/
def nextInstruction (m : Machine) : NextInstruction :=
  match Instruction.decodeUpTo m.registry m.memory.bytes m.imageEnd m.ip with
  | .ok instruction => .decoded instruction
  | .error _ =>
    if m.ip < m.imageEnd then
      match m.memory.bytes[m.ip]? with
      | some byte => .raw byte
      | none => .outOfImage
    else
      .outOfImage

end Machine

/-- The text of the instruction that comes next. -/
def NextInstruction.toText (palette : Palette) : NextInstruction → String
  | decoded instruction => palette.mnemonic ++ instruction.toText ++ palette.reset
  | raw byte =>
    palette.fault ++ "unknown instruction 0x" ++ Text.hex 2 byte.toNat ++ palette.reset
  | outOfImage => palette.fault ++ "end of image" ++ palette.reset

namespace Tracer

/-- The line for a step. -/
def stepLine (palette : Palette) (m : Machine) : String :=
  palette.machine ++ "ip = 0x" ++ Text.hex 8 m.ip ++ ", sp = 0x" ++ Text.hex 8 m.sp ++
    ", ap = 0x" ++ Text.hex 8 m.ap ++ palette.reset ++ ", status = " ++ m.status.name ++ " | " ++
    m.nextInstruction.toText palette ++ "\n"

/-- The line for a halt. -/
def haltLine (palette : Palette) (h : Halt) : String :=
  (if h.status.isFault then palette.fault else palette.machine) ++ h.toText ++ palette.reset ++ "\n"

/-- The tracer that writes lines behind a text. -/
def printing (palette : Palette) : Tracer String :=
  ⟨fun m text => text ++ stepLine palette m, fun h text => text ++ haltLine palette h⟩

end Tracer

end StackMachine
