import StackMachine.Instruction.Registry

/-!
# The standard instruction set

The instructions that every assembler, machine and listing knows. Opcodes from `0x00` on serve the
stack, registers and the console, those from `0x10` on are jumps, those from `0x20` on arithmetic;
within a group the forms on floats come after the forms on integers.
-/

namespace StackMachine

namespace Definition

/-- An instruction that branches to its label operand. -/
def branch (mnemonic : String) (opcode : UInt8) (kind : NumberKind) (comparison : Comparison) :
    Definition :=
  ⟨mnemonic, opcode, [.label], .branch kind comparison⟩

/-- An instruction without operands that computes with two numbers. -/
def arithmetic (mnemonic : String) (opcode : UInt8) (kind : NumberKind) (operation : Arithmetic) :
    Definition :=
  ⟨mnemonic, opcode, [], .arithmetic kind operation⟩

/-- The standard instructions. -/
def standard : List Definition :=
  [⟨"end", 0x00, [], .halt⟩,
    ⟨"push", 0x01, [.constant], .pushConstant⟩,
    ⟨"push", 0x02, [.register], .pushRegister⟩,
    ⟨"pop", 0x03, [.register], .popRegister⟩,
    ⟨"in", 0x04, [], .readInt⟩,
    ⟨"out", 0x05, [], .writeInt⟩,
    ⟨"outf", 0x06, [], .writeFloat⟩,
    ⟨"dep", 0x07, [], .depart⟩,
    ⟨"call", 0x08, [.label], .call⟩,
    ⟨"ret", 0x09, [], .return⟩,
    ⟨"ci2f", 0x0a, [], .intToFloat⟩,
    ⟨"cf2i", 0x0b, [], .floatToInt⟩,
    ⟨"in_f", 0x0c, [], .readFloat⟩,
    ⟨"jmp", 0x10, [.label], .jump⟩,
    branch "ja" 0x11 .int .above,
    branch "jae" 0x12 .int .aboveEqual,
    branch "jb" 0x13 .int .below,
    branch "jbe" 0x14 .int .belowEqual,
    branch "je" 0x15 .int .equal,
    branch "jne" 0x16 .int .notEqual,
    branch "jaf" 0x1a .float .above,
    branch "jaef" 0x1b .float .aboveEqual,
    branch "jbf" 0x1c .float .below,
    branch "jbef" 0x1d .float .belowEqual,
    branch "jef" 0x1e .float .equal,
    branch "jnef" 0x1f .float .notEqual,
    arithmetic "add" 0x20 .int .add,
    arithmetic "sub" 0x21 .int .sub,
    arithmetic "mul" 0x22 .int .mul,
    arithmetic "div" 0x23 .int .div,
    arithmetic "mod" 0x24 .int .rem,
    arithmetic "addf" 0x2a .float .add,
    arithmetic "subf" 0x2b .float .sub,
    arithmetic "mulf" 0x2c .float .mul,
    arithmetic "divf" 0x2d .float .div,
    ⟨"sqrt", 0x2e, [], .sqrt⟩]

end Definition

namespace Registry

/-- The registry of the standard instructions. -/
def standard : Registry :=
  empty.registerAll Definition.standard

end Registry

end StackMachine
