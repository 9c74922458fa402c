import StackMachine.Instruction.Definition

/-!
# Registries

A registry holds the instruction definitions of a machine: one for each opcode, and one for each
mnemonic with a list of operand kinds. Opcodes are looked up in a dense index, which holds for each
opcode the place of its definition.

* `register` refuses a definition whose opcode, or whose mnemonic with the same operands, is taken,
  and says which; the opcode is tried first.
-/

namespace StackMachine

/-- Why a definition is refused. -/
inductive RegistryError where
  | duplicateOpcode (opcode : UInt8) (mnemonic existing : String)
  | duplicateSignature (mnemonic : String) (operands : List OperandKind)
deriving DecidableEq, Repr

namespace RegistryError

/-- The text of a refusal. -/
def message : RegistryError → String
  | duplicateOpcode opcode mnemonic existing =>
    "opcode 0x" ++ Text.hex 2 opcode.toNat ++ " of `" ++ mnemonic ++ "` is already taken by `" ++
      existing ++ "`"
  | duplicateSignature mnemonic operands =>
    "`" ++ mnemonic ++ "` with operands " ++ OperandKind.signature operands ++
      " is already registered"

end RegistryError

/-- Instruction definitions in the order of their registration, and the index of their opcodes. -/
structure Registry where
  definitions : Array Definition
  /-- For each opcode the place of its definition, which is below 256. -/
  index : Vector (Option UInt8) 256

namespace Registry

/-- The registry without definitions. -/
def empty : Registry where
  definitions := #[]
  index := Vector.replicate 256 none

/-- The number of definitions. -/
def size (r : Registry) : Nat :=
  r.definitions.size

/-- Whether there are no definitions. -/
def isEmpty (r : Registry) : Bool :=
  r.definitions.isEmpty

/-- The definitions in the order of their registration. -/
def toList (r : Registry) : List Definition :=
  r.definitions.toList

/-- The definition of an opcode. -/
def byOpcode? (r : Registry) (opcode : UInt8) : Option Definition := do
  let place ← (← r.index[opcode.toNat]?)
  r.definitions[place.toNat]?

/-- The definition of a mnemonic with the given kinds of operands. -/
def bySignature? (r : Registry) (mnemonic : String) (operands : List OperandKind) :
    Option Definition :=
  r.definitions.find? fun d => d.mnemonic == mnemonic && d.operands == operands

/-- Whether a mnemonic has a definition, with any operands. -/
def knows (r : Registry) (mnemonic : String) : Bool :=
  r.definitions.any fun d => d.mnemonic == mnemonic

/-- Add a definition. -/
def register (r : Registry) (d : Definition) : Except RegistryError Registry :=
  match r.byOpcode? d.opcode with
  | some existing => .error (.duplicateOpcode d.opcode d.mnemonic existing.mnemonic)
  | none =>
    match r.bySignature? d.mnemonic d.operands with
    | some _ => .error (.duplicateSignature d.mnemonic d.operands)
    | none =>
      .ok
        { definitions := r.definitions.push d
          index := r.index.setIfInBounds d.opcode.toNat (some (UInt8.ofNat r.definitions.size)) }

/-- Add the definitions of a list in order, leaving out those that are refused. -/
def registerAll (r : Registry) (ds : List Definition) : Registry :=
  ds.foldl (fun r d => (r.register d).toOption.getD r) r

/-- The size of a registry, written as a record with hidden fields. -/
def summary (r : Registry) : String :=
  "Registry \x7b len: " ++ Text.decimal r.size ++ ", .. \x7d"

end Registry

end StackMachine
