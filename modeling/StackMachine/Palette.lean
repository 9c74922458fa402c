/-!
# Palettes

The escape sequences that listings and traces put around their parts. A palette that is switched
off holds empty texts, so that a writer need not ask which one it has.
-/

namespace StackMachine

/-- Escape sequences, named for what they highlight. -/
structure Palette where
  /-- Mnemonics and decoded instructions. -/
  mnemonic : String
  /-- Values of operands. -/
  operand : String
  /-- Offsets, raw bytes and registers of the machine. -/
  machine : String
  /-- Faults and errors. -/
  fault : String
  /-- Back to plain text. -/
  reset : String
deriving DecidableEq, Repr

namespace Palette

/-- No highlighting. -/
def plain : Palette :=
  ⟨"", "", "", "", ""⟩

/-- Blue mnemonics, green operands, dim machine state, red faults. -/
def colored : Palette :=
  ⟨"\x1b[34m", "\x1b[32m", "\x1b[2m", "\x1b[31m", "\x1b[0m"⟩

/-- The palette with highlighting on or off. -/
def ofBool (enabled : Bool) : Palette :=
  if enabled then colored else plain

/-- Whether a palette highlights anything, told by its last sequence. -/
def isEnabled (p : Palette) : Bool :=
  !p.reset.isEmpty

end Palette

end StackMachine
