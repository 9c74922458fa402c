/-!
# Floats of 64 bits

A float is kept as its bit pattern: a sign, eleven bits of exponent and 52 bits of fraction. Every
finite magnitude is a whole number of units of `2 ^ -1074`, the smallest positive float, so that
comparisons with floats are comparisons of whole numbers.
-/

namespace StackMachine.Binary64

/-- The bit pattern of a positive infinity. -/
def infinity : Nat := 0x7ff0000000000000

/-- The number of units in one. -/
def unitsInOne : Nat := Nat.pow 2 1074

/-- Whether the sign bit is set. -/
def isNegative (bits : UInt64) : Bool :=
  9223372036854775808 ≤ bits.toNat

/-- The bit pattern without its sign. -/
def magnitude (bits : UInt64) : Nat :=
  bits.toNat % 9223372036854775808

/-- The bits of the exponent. -/
def exponent (bits : UInt64) : Nat :=
  magnitude bits / 4503599627370496

/-- The bits of the fraction. -/
def fraction (bits : UInt64) : Nat :=
  magnitude bits % 4503599627370496

/-- The size of a finite float in units of `2 ^ -1074`. -/
def units (bits : UInt64) : Nat :=
  if exponent bits = 0 then fraction bits
  else (4503599627370496 + fraction bits) * Nat.pow 2 (exponent bits - 1)

/-- The distance from a finite magnitude to the next one above, in units. -/
def gapAbove (bits : UInt64) : Nat :=
  Nat.pow 2 (exponent bits - 1)

/-- The distance from a positive finite magnitude to the next one below, in units: half as far at
the places where the exponent changes. -/
def gapBelow (bits : UInt64) : Nat :=
  if fraction bits = 0 ∧ 1 < exponent bits then gapAbove bits / 2 else gapAbove bits

end StackMachine.Binary64
