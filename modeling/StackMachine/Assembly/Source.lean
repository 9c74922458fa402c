import StackMachine.Text.Numeral
import StackMachine.Text.Utf8

/-!
# Source files

A source file is a path and a text. The bytes of a file make a source file only if they are UTF-8;
otherwise the first byte that begins no character is told, with its line.

* `SourceFile.ofBytes_ofString`: the bytes of a text make the file with that text.
-/

namespace StackMachine.Assembly

/-- A path, as the caller wrote it, and the text found there. -/
structure SourceFile where
  path : String
  text : String
deriving DecidableEq, Repr

/-- The place in a file that is no text. -/
structure EncodingError where
  path : String
  /-- The number of the line with the first bad byte, from one on. -/
  line : Nat
  offset : Nat
deriving DecidableEq, Repr

namespace EncodingError

/-- The text of an encoding error. -/
def message (e : EncodingError) : String :=
  "source is not valid UTF-8: bad byte at offset " ++ Text.decimal e.offset

end EncodingError

namespace SourceFile

/-- The source file that the bytes at a path make. -/
def ofBytes (path : String) (bytes : Bytes) : Except EncodingError SourceFile :=
  match Text.decode bytes with
  | .ok text => .ok ⟨path, text⟩
  | .error offset => .error ⟨path, 1 + (bytes.extract 0 offset).count 0x0a, offset⟩

theorem ofBytes_ofString (path text : String) :
    ofBytes path (Bytes.ofString text) = .ok ⟨path, text⟩ := by
  simp [ofBytes, Text.decode_ofString]

/-- The first of several files that has the given path. -/
def find? (files : Array SourceFile) (path : String) : Option SourceFile :=
  Array.find? (fun file => file.path == path) files

end SourceFile

end StackMachine.Assembly
