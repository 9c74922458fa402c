import StackMachine.Bytes

/-!
# Decoding UTF-8

A byte string is decoded as a whole or not at all; in the second case the offset of the first byte
that begins no character is told.

* `decode_ofString`: the bytes of a text are decoded to the text.
-/

namespace StackMachine.Text

/-- Whether a byte continues a character. -/
def isContinuation (b : Option UInt8) : Bool :=
  match b with
  | some b => 0x80 ≤ b && b ≤ 0xbf
  | none => false

/-- Whether a byte lies between two others. -/
def isBetween (low high : UInt8) (b : Option UInt8) : Bool :=
  match b with
  | some b => low ≤ b && b ≤ high
  | none => false

/-- The number of bytes of the character that starts at an offset, if one does: neither longer than
needed, nor a surrogate, nor beyond the last code point. -/
def characterSize? (bytes : Bytes) (offset : Nat) : Option Nat :=
  let second := bytes[offset + 1]?
  let third := bytes[offset + 2]?
  let fourth := bytes[offset + 3]?
  match bytes[offset]? with
  | none => none
  | some lead =>
    if lead < 0x80 then some 1
    else if lead < 0xc2 then none
    else if lead < 0xe0 then if isContinuation second then some 2 else none
    else if lead < 0xf0 then
      let low := if lead = 0xe0 then 0xa0 else 0x80
      let high := if lead = 0xed then 0x9f else 0xbf
      if isBetween low high second && isContinuation third then some 3 else none
    else if lead < 0xf5 then
      let low := if lead = 0xf0 then 0x90 else 0x80
      let high := if lead = 0xf4 then 0x8f else 0xbf
      if isBetween low high second && isContinuation third && isContinuation fourth then some 4
      else none
    else none

/-- The first offset, from `offset` on and reached in at most `budget` characters, where no
character starts. -/
def firstUndecodable (bytes : Bytes) : (budget offset : Nat) → Nat
  | 0, offset => offset
  | budget + 1, offset =>
    match characterSize? bytes offset with
    | some size => firstUndecodable bytes budget (offset + size)
    | none => offset

/-- The text of a byte string, or the offset of the first byte that begins no character. -/
def decode (bytes : Bytes) : Except Nat String :=
  match String.fromUTF8? ⟨bytes⟩ with
  | some s => .ok s
  | none => .error (firstUndecodable bytes bytes.size 0)

theorem decode_ofString (s : String) : decode (Bytes.ofString s) = .ok s := by
  have h : String.fromUTF8? ⟨Bytes.ofString s⟩ = some s := by
    have hv : (⟨Bytes.ofString s⟩ : ByteArray) = s.toByteArray := rfl
    rw [hv]
    unfold String.fromUTF8?
    rw [dif_pos s.isValidUTF8]
    rfl
  simp [decode, h]

end StackMachine.Text
