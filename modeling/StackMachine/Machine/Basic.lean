import StackMachine.Image.Program
import StackMachine.Instruction.Registry
import StackMachine.Machine.Memory

/-!
# Machines

A machine holds an image at the start of its memory, and a stack of words of 32 bits that grows down
from the end of memory, but never into the image.

* `load` either starts the machine afresh with an image, or leaves it not ready.
-/

namespace StackMachine

/-- A machine. Addresses are offsets in memory. -/
structure Machine where
  registry : Registry
  memory : Memory
  registers : Array UInt32
  /-- The address of the next instruction. -/
  ip : Nat
  /-- The address of the word on top of the stack, or the size of memory if the stack is empty. -/
  sp : Nat
  /-- The address of the operands of the last instruction. -/
  ap : Nat
  imageEnd : Nat
  status : Status

/-- Why an image cannot be loaded. -/
inductive LoadError where
  | image (error : ImageError)
  | tooLarge (size capacity : Nat)
deriving DecidableEq, Repr

/-- The text of a load error. -/
def LoadError.message : LoadError → String
  | image error => error.message
  | tooLarge size capacity =>
    "image of " ++ Text.decimal size ++ " bytes does not fit in " ++ Text.decimal capacity ++
      " bytes of memory"

namespace Machine

/-- The size of memory unless another is asked for: one mebibyte. -/
def defaultMemorySize : Nat := 1048576

/-- A machine without an image. -/
def create (registry : Registry) (memorySize : Nat) : Machine :=
  ⟨registry, Memory.zero memorySize, #[], 0, 0, 0, 0, .notReady⟩

/-- Start a machine with an image. When that fails, the machine is not ready, and else as it was. -/
def load (m : Machine) (image : Bytes) : Except LoadError Unit × Machine :=
  match Header.check image with
  | .error e => (.error (.image e), { m with status := .notReady })
  | .ok header =>
    match m.memory.load image with
    | .error _ =>
      (.error (.tooLarge image.size m.memory.size), { m with status := .notReady })
    | .ok memory =>
      (.ok (),
        { m with
          memory
          registers := Array.replicate header.registerCount.toNat 0
          ip := Header.size
          sp := memory.size
          ap := 0
          imageEnd := image.size
          status := .running })

/-- Where and how the machine stands. -/
def halt (m : Machine) : Halt :=
  ⟨m.status, m.ip, m.sp⟩

/-- The loaded image, as it stands in memory. -/
def image (m : Machine) : Bytes :=
  m.memory.bytes.extract 0 m.imageEnd

/-- The words on the stack, the top first, of which at most `limit` are told. -/
def stack (m : Machine) (limit : Nat) : List UInt32 :=
  (List.range (min limit ((m.memory.size - m.sp) / 4))).filterMap fun n =>
    m.memory.bytes.read32? (m.sp + 4 * n)

end Machine

end StackMachine
