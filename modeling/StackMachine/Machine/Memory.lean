import StackMachine.Bytes
import StackMachine.Machine.Status

/-!
# Memory

A region of bytes of fixed size. An access that does not lie wholly inside is a violation.

* `size_write32`, `size_load`: no operation changes the size.
-/

namespace StackMachine

/-- The memory of a machine. -/
structure Memory where
  bytes : Bytes

namespace Memory

/-- Memory of zeros. -/
def zero (size : Nat) : Memory :=
  ⟨Array.replicate size 0⟩

/-- The number of bytes. -/
def size (m : Memory) : Nat :=
  m.bytes.size

/-- Whether there are no bytes. -/
def isEmpty (m : Memory) : Bool :=
  m.bytes.isEmpty

/-- An image at the start of memory that holds zeros elsewhere. -/
def load (m : Memory) (image : Bytes) : Except Fault Memory :=
  if image.size ≤ m.size then .ok ⟨image ++ Array.replicate (m.size - image.size) 0⟩
  else .error .accessViolation

/-- The byte at an address. -/
def read8 (m : Memory) (address : Nat) : Except Fault UInt8 :=
  match m.bytes.read8? address with
  | some b => .ok b
  | none => .error .accessViolation

/-- The word of 16 bits at an address. -/
def read16 (m : Memory) (address : Nat) : Except Fault UInt16 :=
  match m.bytes.read16? address with
  | some w => .ok w
  | none => .error .accessViolation

/-- The word of 32 bits at an address. -/
def read32 (m : Memory) (address : Nat) : Except Fault UInt32 :=
  match m.bytes.read32? address with
  | some w => .ok w
  | none => .error .accessViolation

/-- The memory with a word of 32 bits at an address that is inside. -/
def store32 (m : Memory) (address : Nat) (w : UInt32) : Memory :=
  ⟨m.bytes.store32 address w⟩

/-- The memory with a word of 32 bits at an address. -/
def write32 (m : Memory) (address : Nat) (w : UInt32) : Except Fault Memory :=
  if address + 4 ≤ m.size then .ok (m.store32 address w) else .error .accessViolation

/-- The size of memory, written as a record with hidden fields. -/
def summary (m : Memory) : String :=
  "Memory \x7b len: " ++ Text.decimal m.size ++ ", .. \x7d"

@[simp]
theorem size_store32 (m : Memory) (address : Nat) (w : UInt32) :
    (m.store32 address w).size = m.size := by
  simp [size, store32]

theorem size_load {m n : Memory} {image : Bytes} (h : m.load image = .ok n) :
    n.size = m.size := by
  unfold load at h
  split at h
  · cases h
    simp only [size, Array.size_append, Array.size_replicate]
    simp only [size] at *
    omega
  · cases h

theorem size_write32 {m n : Memory} {address : Nat} {w : UInt32}
    (h : m.write32 address w = .ok n) : n.size = m.size := by
  unfold write32 at h
  split at h
  · cases h
    simp
  · cases h

end Memory

end StackMachine
