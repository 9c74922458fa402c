import StackMachine.Bytes

/-!
# Image headers

The first eight bytes of a program image: four magic bytes, the version of the instruction set as a
word of 16 bits, the number of registers, and a reserved byte.

* `ofBytes?_append`: a header is read back from its own bytes, whatever stands behind them.
-/

namespace StackMachine

/-- The fields of an image header. -/
structure Header where
  magic : Vector UInt8 4
  version : UInt16
  registerCount : UInt8
  reserved : UInt8
deriving DecidableEq

namespace Header

/-- The length of a header; the first instruction starts here. -/
def size : Nat := 8

/-- The magic bytes `FRDY`. -/
def expectedMagic : Vector UInt8 4 := #v[0x46, 0x52, 0x44, 0x59]

/-- The version of the instruction set. -/
def expectedVersion : UInt16 := 1

/-- The number of registers of a program that asks for none. -/
def defaultRegisterCount : UInt8 := 4

/-- The largest number of registers of a program. -/
def maxRegisterCount : UInt8 := 8

/-- The header with a given number of registers, and every other field as a reader expects it. -/
def withRegisters (count : UInt8) : Header :=
  ⟨expectedMagic, expectedVersion, count, 0⟩

/-- The header of a program that asks for no registers. -/
def standard : Header :=
  withRegisters defaultRegisterCount

/-- Read the header at the start of a byte string. -/
def ofBytes? (bytes : Bytes) : Option Header :=
  if h : 8 ≤ bytes.size then
    some
      { magic := #v[bytes[0], bytes[1], bytes[2], bytes[3]]
        version := Bytes.word16 bytes[4] bytes[5]
        registerCount := bytes[6]
        reserved := bytes[7] }
  else
    none

/-- The eight bytes of a header. -/
def toBytes (h : Header) : Bytes :=
  #[h.magic[0], h.magic[1], h.magic[2], h.magic[3], UInt8.ofNat h.version.toNat,
    UInt8.ofNat (h.version.toNat / 256), h.registerCount, h.reserved]

/-- Whether the magic bytes are the expected ones. -/
def hasMagic (h : Header) : Bool :=
  h.magic == expectedMagic

/-- Whether the version is the expected one. -/
def hasVersion (h : Header) : Bool :=
  h.version == expectedVersion

theorem size_toBytes (h : Header) : h.toBytes.size = size := rfl

theorem ofBytes?_append (h : Header) (rest : Bytes) :
    ofBytes? (h.toBytes ++ rest) = some h := by
  obtain ⟨⟨⟨magic⟩, hm⟩, version, count, reserved⟩ := h
  obtain ⟨rest⟩ := rest
  match magic, hm with
  | [a, b, c, d], _ => simpa [ofBytes?, toBytes] using Bytes.word16_bytes16 version

theorem ofBytes?_toBytes (h : Header) : ofBytes? h.toBytes = some h := by
  simpa using ofBytes?_append h #[]

end Header

end StackMachine
