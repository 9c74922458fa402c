import StackMachine.Binary64.Basic
import StackMachine.Text.Numeral

/-!
# Shortest decimal text of floats

A float is written with as few digits as identify it, and of the decimals with that many digits the
one nearest to it, the upper one of two. The notation is positional, however long it gets.

* `identifies_of_onGrid?`: what is chosen on a grid of decimals identifies the float.
-/

namespace StackMachine.Binary64

/-- The decimal number `digits * 10 ^ exponent`. -/
structure Decimal where
  digits : Nat
  exponent : Int
deriving DecidableEq, Repr

/-- Whether a decimal is nearer to a positive finite magnitude than to any other; of the two ends of
that range, which lie halfway to a neighbor, both belong to it if the last bit is zero. -/
def identifies (d : Decimal) (bits : UInt64) : Bool :=
  -- All three in half units, and without the denominator of the decimal.
  let size := d.digits * Nat.pow 10 d.exponent.toNat * (2 * unitsInOne)
  let scale := Nat.pow 10 (-d.exponent).toNat
  let low := (2 * units bits - gapBelow bits) * scale
  let high := (2 * units bits + gapAbove bits) * scale
  if magnitude bits % 2 = 0 then low ≤ size && size ≤ high else low < size && size < high

/-- The nearest of the multiples of `10 ^ exponent` that identify a magnitude. -/
def onGrid? (bits : UInt64) (exponent : Int) : Option Decimal :=
  let num := units bits * Nat.pow 10 (-exponent).toNat
  let den := unitsInOne * Nat.pow 10 exponent.toNat
  let below : Decimal := ⟨num / den, exponent⟩
  let above : Decimal := ⟨num / den + 1, exponent⟩
  if identifies below bits && (2 * (num % den) < den || !identifies above bits) then some below
  else if identifies above bits then some above
  else none

/-- The exponent of the least power of ten above a positive magnitude. The smallest magnitude is
above `10 ^ -324`. -/
def upperExponent (bits : UInt64) : Int :=
  ((Nat.toDigits 10 (units bits * Nat.pow 10 324 / unitsInOne)).length : Int) - 324

/-- The decimal with the fewest digits that identifies a positive magnitude: on the grid of the
power of ten above it, on those of up to seventeen digits, or else the exact decimal. -/
def shortest (bits : UInt64) : Decimal :=
  ((List.range 18).findSome? fun (n : Nat) => onGrid? bits (upperExponent bits - n)).getD
    ⟨units bits * Nat.pow 5 1074, -1074⟩

/-- The text of a decimal in positional notation. -/
def Decimal.toText (d : Decimal) : String :=
  match d.exponent with
  | .ofNat e => Text.decimal (d.digits * Nat.pow 10 e)
  | .negSucc e =>
    let cs := Text.padLeft '0' (e + 2) (Nat.toDigits 10 d.digits)
    let whole := cs.length - (e + 1)
    String.ofList (cs.take whole ++ '.' :: cs.drop whole)

/-- The text of a float. -/
def toText (bits : UInt64) : String :=
  let sign := if isNegative bits then "-" else ""
  if infinity < magnitude bits then "NaN"
  else if magnitude bits = infinity then sign ++ "inf"
  else if magnitude bits = 0 then sign ++ "0"
  else sign ++ (shortest bits).toText

theorem identifies_of_onGrid? {bits : UInt64} {exponent : Int} {d : Decimal}
    (h : onGrid? bits exponent = some d) : identifies d bits = true := by
  unfold onGrid? at h
  dsimp only at h
  split at h
  · rename_i hbelow
    cases h
    exact (Bool.and_eq_true_iff.mp hbelow).1
  · split at h
    · rename_i habove
      cases h
      exact habove
    · cases h

end StackMachine.Binary64
