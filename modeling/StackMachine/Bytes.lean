/-!
# Byte strings and little-endian words

Program images, files and the memory of a machine are byte strings. Words of 16 and 32 bits are
stored with the lowest byte first.

* A reader answers `none` exactly when the word does not lie wholly inside the string.
* `word16_bytes16`, `word32_bytes32`: the bytes of a word, put together again, are the word.
* `size_store32`: storing a word never changes the length of a byte string.
-/

namespace StackMachine

/-- A string of bytes. -/
abbrev Bytes := Array UInt8

namespace Bytes

/-! ## Words and their bytes -/

/-- The word of 16 bits with the given bytes, lowest first. -/
def word16 (b₀ b₁ : UInt8) : UInt16 :=
  UInt16.ofNat (b₀.toNat + 256 * b₁.toNat)

/-- The word of 32 bits with the given bytes, lowest first. -/
def word32 (b₀ b₁ b₂ b₃ : UInt8) : UInt32 :=
  UInt32.ofNat (b₀.toNat + 256 * b₁.toNat + 65536 * b₂.toNat + 16777216 * b₃.toNat)

/-- The two bytes of a word, lowest first. -/
def bytes16 (w : UInt16) : List UInt8 :=
  [UInt8.ofNat w.toNat, UInt8.ofNat (w.toNat / 256)]

/-- The four bytes of a word, lowest first. -/
def bytes32 (w : UInt32) : List UInt8 :=
  [UInt8.ofNat w.toNat, UInt8.ofNat (w.toNat / 256), UInt8.ofNat (w.toNat / 65536),
    UInt8.ofNat (w.toNat / 16777216)]

theorem word16_bytes16 (w : UInt16) :
    word16 (UInt8.ofNat w.toNat) (UInt8.ofNat (w.toNat / 256)) = w := by
  have hw := w.toNat_lt
  apply UInt16.toNat_inj.1
  simp only [word16, UInt16.toNat_ofNat', UInt8.toNat_ofNat']
  omega

theorem word32_bytes32 (w : UInt32) :
    word32 (UInt8.ofNat w.toNat) (UInt8.ofNat (w.toNat / 256)) (UInt8.ofNat (w.toNat / 65536))
      (UInt8.ofNat (w.toNat / 16777216)) = w := by
  have hw := w.toNat_lt
  apply UInt32.toNat_inj.1
  simp only [word32, UInt32.toNat_ofNat', UInt8.toNat_ofNat']
  omega

/-! ## Readers -/

/-- The byte at an offset. -/
def read8? (bytes : Bytes) (offset : Nat) : Option UInt8 :=
  bytes[offset]?

/-- The word of 16 bits that starts at an offset. -/
def read16? (bytes : Bytes) (offset : Nat) : Option UInt16 :=
  if h : offset + 2 ≤ bytes.size then
    some (word16 bytes[offset] bytes[offset + 1])
  else
    none

/-- The word of 32 bits that starts at an offset. -/
def read32? (bytes : Bytes) (offset : Nat) : Option UInt32 :=
  if h : offset + 4 ≤ bytes.size then
    some (word32 bytes[offset] bytes[offset + 1] bytes[offset + 2] bytes[offset + 3])
  else
    none

/-- The `count` bytes that start at an offset. -/
def slice? (bytes : Bytes) (offset count : Nat) : Option Bytes :=
  if offset + count ≤ bytes.size then some (bytes.extract offset (offset + count)) else none

/-! ## Writers -/

/-- The byte string with the four bytes from `offset` on replaced by those of a word; a byte that
would lie outside is dropped. -/
def store32 (bytes : Bytes) (offset : Nat) (w : UInt32) : Bytes :=
  let bytes := bytes.setIfInBounds offset (UInt8.ofNat w.toNat)
  let bytes := bytes.setIfInBounds (offset + 1) (UInt8.ofNat (w.toNat / 256))
  let bytes := bytes.setIfInBounds (offset + 2) (UInt8.ofNat (w.toNat / 65536))
  bytes.setIfInBounds (offset + 3) (UInt8.ofNat (w.toNat / 16777216))

@[simp]
theorem size_store32 (bytes : Bytes) (offset : Nat) (w : UInt32) :
    (bytes.store32 offset w).size = bytes.size := by
  simp [store32]

/-! ## Conversions -/

/-- The bytes of a text in UTF-8. -/
def ofString (s : String) : Bytes :=
  s.toUTF8.data

/-- The signed integer with the bit pattern of a word (two's complement). -/
def toSigned (w : UInt32) : Int :=
  if w.toNat < 2147483648 then (w.toNat : Int) else (w.toNat : Int) - 4294967296

/-- The word whose bit pattern is an integer taken modulo `2 ^ 32`. -/
def ofSigned (i : Int) : UInt32 :=
  UInt32.ofNat (i % 4294967296).toNat

theorem ofSigned_toSigned (w : UInt32) : ofSigned (toSigned w) = w := by
  have hw := w.toNat_lt
  apply UInt32.toNat_inj.1
  simp only [ofSigned, toSigned, UInt32.toNat_ofNat']
  split <;> omega

end Bytes

end StackMachine
