import StackMachine.Image.Program
import StackMachine.Instruction.Decode
import StackMachine.Palette

/-!
# Listings

The listing of an image shows its header and then its instructions, one to a line: the offset, the
raw bytes in pairs, and the decoded form. It ends at the end of the image, or at the first offset
where no header or instruction can be read.

* `raw` bytes of consecutive lines are consecutive parts of the image.
* A listing has at most one failure, and it comes last.
-/

namespace StackMachine

/-- One line of a listing. -/
inductive ListingLine where
  | header (raw : Bytes) (fields : Header)
  | instruction (offset : Nat) (raw : Bytes) (content : Instruction)

/-- The lines that could be read, and the offset where reading failed, if it did. -/
structure Listing where
  lines : Array ListingLine
  failure : Option Nat

namespace ListingLine

/-- The part of the image that a line shows. -/
def raw : ListingLine → Bytes
  | header raw _ => raw
  | instruction _ raw _ => raw

/-- The width of the column of raw bytes: eight bytes in pairs. -/
def rawWidth : Nat := 19

/-- Bytes in hexadecimal, a space after every second one. -/
def rawPairs : List UInt8 → List Char
  | [] => []
  | [b] => (Text.hex 2 b.toNat).toList
  | [b, c] => (Text.hex 2 b.toNat).toList ++ (Text.hex 2 c.toNat).toList
  | b :: c :: rest =>
    (Text.hex 2 b.toNat).toList ++ (Text.hex 2 c.toNat).toList ++ ' ' :: rawPairs rest

/-- The column of raw bytes. -/
def rawColumn (raw : Bytes) : String :=
  String.ofList (Text.padRight ' ' rawWidth (rawPairs raw.toList))

/-- The offset and the raw bytes, which every line starts with. -/
def margin (palette : Palette) (offset : Nat) (raw : Bytes) : String :=
  palette.machine ++ Text.hex 4 offset ++ "\t" ++ rawColumn raw ++ palette.reset ++ "\t"

/-- The text of a line. -/
def toText (palette : Palette) : ListingLine → String
  | header raw fields =>
    margin palette 0 raw ++ "\x7bFRIDAY EXECUTABLE\x7d Target arch version = " ++
      Text.decimal fields.version.toNat ++ "; number of registers = " ++
      Text.decimal fields.registerCount.toNat ++ "."
  | instruction offset raw content =>
    let operands := content.operands.map fun operand =>
      " " ++ palette.operand ++ operand.toText ++ palette.reset
    margin palette offset raw ++ palette.mnemonic ++ content.definition.mnemonic ++
      palette.reset ++ String.intercalate "," operands

end ListingLine

namespace Listing

/-- The text of a failure at an offset. -/
def failureMessage (offset : Nat) : String :=
  "<file_start+" ++ Text.hex 4 offset ++ "> error reading instruction or header"

/-- List the instructions from an offset on, after the lines that were read before. -/
def readFrom (registry : Registry) (bytes : Bytes) (offset : Nat) (lines : Array ListingLine) :
    Listing :=
  if offset < bytes.size then
    match Instruction.decode registry bytes offset with
    | .ok instruction =>
      have := instruction.definition.size_pos
      let next := offset + instruction.definition.size
      readFrom registry bytes next
        (lines.push (.instruction offset (bytes.extract offset next) instruction))
    | .error _ => ⟨lines, some offset⟩
  else
    ⟨lines, none⟩
termination_by bytes.size - offset

/-- List an image. Only the magic bytes of its header are checked. -/
def ofBytes (registry : Registry) (bytes : Bytes) : Listing :=
  match Header.ofBytes? bytes with
  | none => ⟨#[], some 0⟩
  | some header =>
    if header.hasMagic then
      readFrom registry bytes Header.size #[.header (bytes.extract 0 Header.size) header]
    else
      ⟨#[], some 0⟩

/-- The text of the lines, each with a line feed behind. -/
def linesText (palette : Palette) (listing : Listing) : String :=
  listing.lines.foldl (fun text line => text ++ line.toText palette ++ "\n") ""

/-- The text of the lines, and of the failure if there is one. -/
def toText (palette : Palette) (listing : Listing) : String :=
  match listing.failure with
  | none => listing.linesText palette
  | some offset =>
    listing.linesText palette ++ palette.fault ++ failureMessage offset ++ palette.reset ++ "\n"

end Listing

end StackMachine
