import StackMachine.Bytes

/-!
# Floats of 32 bits

A float is kept as its bit pattern: a sign, eight bits of exponent and 23 bits of fraction. Every
finite magnitude is a whole number of units of `2 ^ -149`, the smallest positive float, so that
exact arithmetic on floats is arithmetic on whole numbers.

* `ofRatio` rounds a ratio to the nearest float, a tie to the even neighbour, and beyond the largest
  float to infinity.
* `remainder`, `ofInt` and `toInt` are exact, or rounded once.
-/

namespace StackMachine.Binary32

/-! ## Parts of a bit pattern -/

/-- The bit pattern of a positive infinity. -/
def infinity : Nat := 0x7f800000

/-- The bit pattern of a quiet NaN. -/
def quietNaN : Nat := 0x7fc00000

/-- The number of units in one, as a power of two. -/
def unitsInOne : Nat := Nat.pow 2 149

/-- Whether the sign bit is set. -/
def isNegative (bits : UInt32) : Bool :=
  2147483648 ≤ bits.toNat

/-- The bit pattern without its sign. -/
def magnitude (bits : UInt32) : Nat :=
  bits.toNat % 2147483648

/-- Whether a bit pattern is no number. -/
def isNaN (bits : UInt32) : Bool :=
  infinity < magnitude bits

/-- Whether a bit pattern is one of the infinities. -/
def isInfinite (bits : UInt32) : Bool :=
  magnitude bits == infinity

/-- The float with a sign and a bit pattern without sign. -/
def ofParts (negative : Bool) (magnitude : Nat) : UInt32 :=
  UInt32.ofNat (if negative then 2147483648 + magnitude else magnitude)

/-- The size of a finite float in units of `2 ^ -149`. -/
def units (bits : UInt32) : Nat :=
  let exponent := magnitude bits / 8388608
  let fraction := magnitude bits % 8388608
  if exponent = 0 then fraction else (8388608 + fraction) * Nat.pow 2 (exponent - 1)

/-! ## Rounding -/

/-- A quotient rounded to the nearest whole number, a tie to the even one. -/
def roundHalfEven (num den : Nat) : Nat :=
  let quotient := num / den
  let twice := 2 * (num % den)
  if den < twice ∨ (twice = den ∧ quotient % 2 = 1) then quotient + 1 else quotient

/-- The bit pattern without sign of the float nearest to a ratio. -/
def ofRatio (num den : Nat) : Nat :=
  let exact := num * unitsInOne
  let shift := (exact / den).log2 - 23
  min infinity (shift * 8388608 + roundHalfEven exact (den * Nat.pow 2 shift))

/-- The bit pattern without sign of the float nearest to `digits * 10 ^ exponent`. -/
def ofDecimal (digits : Nat) (exponent : Int) : Nat :=
  if digits = 0 then 0
  else
    match exponent with
    | .ofNat e => if 39 < e then infinity else ofRatio (digits * Nat.pow 10 e) 1
    | .negSucc e =>
      -- A power of ten is at least eight: below `2 ^ -150` all rounds to zero.
      if digits.log2 + 151 < 3 * (e + 1) then 0 else ofRatio digits (Nat.pow 10 (e + 1))

/-! ## Conversions and the remainder -/

/-- The float nearest to an integer. -/
def ofInt (i : Int) : UInt32 :=
  ofParts (decide (i < 0)) (ofRatio i.natAbs 1)

/-- A float cut off to an integer of 32 bits: the nearest bound beyond the range, and zero for no
number. -/
def toInt (bits : UInt32) : Int :=
  if isNaN bits then 0
  else if isNegative bits then
    if isInfinite bits then -2147483648 else max (-2147483648) (-(units bits / unitsInOne : Nat))
  else
    if isInfinite bits then 2147483647 else min 2147483647 (units bits / unitsInOne : Nat)

/-- The remainder of a division whose quotient is cut off to a whole number; its sign is that of the
dividend. -/
def remainder (left right : UInt32) : UInt32 :=
  if isNaN left || isInfinite left || isNaN right || units right == 0 then UInt32.ofNat quietNaN
  else if isInfinite right then left
  else ofParts (isNegative left) (ofRatio (units left % units right) unitsInOne)

/-! ## Arithmetic and comparisons -/

/-- The sum of two floats. -/
def add (left right : UInt32) : UInt32 :=
  (Float32.ofBits left + Float32.ofBits right).toBits

/-- The difference of two floats. -/
def sub (left right : UInt32) : UInt32 :=
  (Float32.ofBits left - Float32.ofBits right).toBits

/-- The product of two floats. -/
def mul (left right : UInt32) : UInt32 :=
  (Float32.ofBits left * Float32.ofBits right).toBits

/-- The quotient of two floats. -/
def div (left right : UInt32) : UInt32 :=
  (Float32.ofBits left / Float32.ofBits right).toBits

/-- The square root of a float. -/
def sqrt (bits : UInt32) : UInt32 :=
  (Float32.ofBits bits).sqrt.toBits

/-- The place of a float that is a number on the line of all floats; both zeros are at zero. -/
def rank (bits : UInt32) : Int :=
  if isNegative bits then -(magnitude bits : Int) else magnitude bits

/-- Whether two floats are numbers in ascending order. -/
def less (left right : UInt32) : Bool :=
  !isNaN left && !isNaN right && rank left < rank right

/-- Whether two floats are equal numbers. -/
def equal (left right : UInt32) : Bool :=
  !isNaN left && !isNaN right && rank left == rank right

end StackMachine.Binary32
