import StackMachine.Image.Header
import StackMachine.Text.Numeral

/-!
# Program images

A program is an image whose header is in order: long enough, with the expected magic bytes and
version, and with at most eight registers. The proof of that is part of the program.
-/

namespace StackMachine

/-- Why a byte string is no program image. -/
inductive ImageError where
  | tooSmall (size : Nat)
  | invalidMagic
  | unsupportedVersion (version : UInt16)
  | tooManyRegisters (count : UInt8)
deriving DecidableEq, Repr

namespace ImageError

/-- The text of an image error. -/
def message : ImageError → String
  | tooSmall size =>
    "image too small: " ++ Text.decimal size ++ " bytes (minimum " ++
      Text.decimal Header.size ++ ")"
  | invalidMagic => "invalid magic: expected FRDY"
  | unsupportedVersion version =>
    "unsupported version: " ++ Text.decimal version.toNat ++ " (expected " ++
      Text.decimal Header.expectedVersion.toNat ++ ")"
  | tooManyRegisters count =>
    "image requests " ++ Text.decimal count.toNat ++ " registers (maximum " ++
      Text.decimal Header.maxRegisterCount.toNat ++ ")"

end ImageError

/-- Read and check the header of an image. Of several faults the first in the order length, magic
bytes, version, registers is told. -/
def Header.check (bytes : Bytes) : Except ImageError Header :=
  match Header.ofBytes? bytes with
  | none => .error (.tooSmall bytes.size)
  | some header =>
    if header.hasMagic = false then .error .invalidMagic
    else if header.hasVersion = false then .error (.unsupportedVersion header.version)
    else if header.registerCount > Header.maxRegisterCount then
      .error (.tooManyRegisters header.registerCount)
    else .ok header

/-- An image with a checked header. -/
structure Program where
  bytes : Bytes
  header : Header
  check_eq : Header.check bytes = .ok header

namespace Program

/-- The program in a byte string. -/
def ofBytes (bytes : Bytes) : Except ImageError Program :=
  match h : Header.check bytes with
  | .ok header => .ok ⟨bytes, header, h⟩
  | .error e => .error e

/-- The number of registers that the program asks for. -/
def registerCount (p : Program) : UInt8 :=
  p.header.registerCount

/-- The length of the image. -/
def size (p : Program) : Nat :=
  p.bytes.size

/-- The bytes after the header. -/
def code (p : Program) : Bytes :=
  p.bytes.extract Header.size p.bytes.size

/-- Whether there is no code. -/
def isEmpty (p : Program) : Bool :=
  p.code.isEmpty

end Program

end StackMachine
