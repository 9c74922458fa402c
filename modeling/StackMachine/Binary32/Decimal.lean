import StackMachine.Binary32.Basic
import StackMachine.Text.Numeral
import StackMachine.Text.Reading

/-!
# Decimal text of floats

Reading accepts an optional sign, digits with an optional point, and an optional exponent; the
result is the nearest float. The words `inf`, `infinity` and `nan` are read in any case.

Writing gives six significant digits of the exact value, without zeros at the end of the decimal
places; numbers below `10 ^ -4` or from `10 ^ 6` on have an exponent of at least two digits. All
others are rounded a second time from the exact value, to the places that their exponent leaves.
-/

namespace StackMachine.Binary32

/-! ## Reading -/

/-- An exponent from this value on is not read any further: the digits behind are left out. -/
def exponentLimit : Nat :=
  65536

/-- The value of the digits of an exponent, without those behind the limit. -/
def exponentOfDigits (digits : List Char) : Nat :=
  digits.foldl
    (fun n c => if n < exponentLimit then Nat.ofDigitChars 10 [c] n else n) 0

/-- The exponent behind a decimal number: nothing, or `e`, an optional sign and digits. -/
def readExponent? : List Char → Option Int
  | [] => some 0
  | c :: rest =>
    let (negative, digits) := Text.splitSign rest
    if (c = 'e' ∨ c = 'E') ∧ digits ≠ [] ∧ digits.all Char.isDigit then
      some (Text.applySign negative (exponentOfDigits digits))
    else
      none

/-- The bit pattern of a decimal number without sign. -/
def readUnsigned? (cs : List Char) : Option Nat :=
  let whole := cs.takeWhile Char.isDigit
  let rest := cs.dropWhile Char.isDigit
  let (places, rest) :=
    match rest with
    | '.' :: rest => (rest.takeWhile Char.isDigit, rest.dropWhile Char.isDigit)
    | rest => ([], rest)
  if whole.isEmpty && places.isEmpty then none
  else do
    let exponent ← readExponent? rest
    return ofDecimal (Nat.ofDigitChars 10 (whole ++ places) 0) (exponent - places.length)

/-- The bit pattern of a word for an infinity or for no number. -/
def readWord? (cs : List Char) : Option Nat :=
  let word := cs.map Char.toLower
  if word = "inf".toList ∨ word = "infinity".toList then some infinity
  else if word = "nan".toList then some quietNaN
  else none

/-- The float that a text stands for. -/
def read? (cs : List Char) : Option UInt32 :=
  let (negative, rest) := Text.splitSign cs
  ((readWord? rest).or (readUnsigned? rest)).map (ofParts negative)

/-! ## Writing -/

/-- The decimal exponent of a positive number of units: the greatest power of ten not above it.
The smallest float is above `10 ^ -45`. -/
def decimalExponent (n : Nat) : Int :=
  ((Nat.toDigits 10 (n * Nat.pow 10 45 / unitsInOne)).length : Int) - 46

/-- A number of units times a power of ten, rounded to a whole number. -/
def scaledRound (n : Nat) : (exponent : Int) → Nat
  | .ofNat e => roundHalfEven (n * Nat.pow 10 e) unitsInOne
  | .negSucc e => roundHalfEven n (unitsInOne * Nat.pow 10 (e + 1))

/-- Six significant digits, as a whole number, with the exponent of the first. -/
structure Significant where
  digits : Nat
  exponent : Int
deriving DecidableEq, Repr

/-- Six significant digits of a positive number of units. Rounding can carry into the exponent. -/
def significant (n : Nat) : Significant :=
  let exponent := decimalExponent n
  let digits := scaledRound n (5 - exponent)
  if digits = 1000000 then ⟨100000, exponent + 1⟩ else ⟨digits, exponent⟩

/-- The number `digits * 10 ^ -places` with all its places, and at least one digit in front. -/
def placesText (digits places : Nat) : List Char :=
  let cs := Text.padLeft '0' (places + 1) (Nat.toDigits 10 digits)
  if places = 0 then cs
  else cs.take (cs.length - places) ++ '.' :: cs.drop (cs.length - places)

/-- A text without the copies of a character at its end. -/
def trimEnd (c : Char) (cs : List Char) : List Char :=
  (cs.reverse.dropWhile (· = c)).reverse

/-- A decimal number without zeros at the end of its places, nor a point without places. -/
def trimFraction (cs : List Char) : List Char :=
  if '.' ∈ cs then trimEnd '.' (trimEnd '0' cs) else cs

/-- A decimal exponent: its sign, and at least two digits. -/
def exponentText (exponent : Int) : List Char :=
  ['e', if exponent < 0 then '-' else '+'] ++
    Text.padLeft '0' 2 (Nat.toDigits 10 exponent.natAbs)

/-- The text of a positive number of units, in one of the two notations. -/
def unsignedText (n : Nat) : List Char :=
  let rounded := significant n
  if rounded.exponent < -4 ∨ 6 ≤ rounded.exponent then
    trimFraction (placesText rounded.digits 5) ++ exponentText rounded.exponent
  else
    let places := (5 - rounded.exponent).toNat
    trimFraction (placesText (scaledRound n places) places)

/-- The text of a float with six significant digits. -/
def toText (bits : UInt32) : String :=
  let sign := if isNegative bits then ['-'] else []
  if isNaN bits then String.ofList (sign ++ "nan".toList)
  else if isInfinite bits then String.ofList (sign ++ "inf".toList)
  else if units bits = 0 then String.ofList (sign ++ ['0'])
  else String.ofList (sign ++ unsignedText (units bits))

end StackMachine.Binary32
