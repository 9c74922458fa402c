import StackMachine.Text.Numeral

/-!
# Reading whole numbers

* `readDecimal?_decimal`: the decimal digits of a number are read back as that number.
-/

namespace StackMachine.Text

/-- The value of a character as a hexadecimal digit. -/
def hexDigit? (c : Char) : Option Nat :=
  if '0' ≤ c ∧ c ≤ '9' then some (c.toNat - 48)
  else if 'a' ≤ c ∧ c ≤ 'f' then some (c.toNat - 87)
  else if 'A' ≤ c ∧ c ≤ 'F' then some (c.toNat - 55)
  else none

/-- The number with the given decimal digits, of which there is at least one. -/
def readDecimal? (cs : List Char) : Option Nat :=
  if !cs.isEmpty && cs.all Char.isDigit then some (Nat.ofDigitChars 10 cs 0) else none

/-- The number with the given hexadecimal digits, of which there is at least one. -/
def readHex? (cs : List Char) : Option Nat :=
  if cs.isEmpty then none
  else cs.foldlM (fun n c => (hexDigit? c).map (16 * n + ·)) 0

/-- A text without its sign, and whether the sign was a minus. -/
def splitSign : List Char → Bool × List Char
  | '-' :: rest => (true, rest)
  | '+' :: rest => (false, rest)
  | cs => (false, cs)

/-- The number below or above zero with the given magnitude. -/
def applySign (negative : Bool) (n : Nat) : Int :=
  if negative then -(n : Int) else n

/-- The number with an optional sign and decimal digits. -/
def readSigned? (cs : List Char) : Option Int :=
  let (negative, digits) := splitSign cs
  (readDecimal? digits).map (applySign negative)

theorem readDecimal?_toDigits (n : Nat) : readDecimal? (Nat.toDigits 10 n) = some n := by
  have hd : (Nat.toDigits 10 n).all Char.isDigit = true := by
    simp only [List.all_eq_true]
    exact fun c hc => Nat.isDigit_of_mem_toDigits (by decide) (by decide) hc
  have he : (Nat.toDigits 10 n).isEmpty = false := by
    cases h : Nat.toDigits 10 n with
    | nil => exact absurd h Nat.toDigits_ne_nil
    | cons => rfl
  simp [readDecimal?, hd, he, Nat.ofDigitChars_toDigits]

theorem readDecimal?_decimal (n : Nat) : readDecimal? (decimal n).toList = some n := by
  rw [decimal, String.toList_ofList, readDecimal?_toDigits]

end StackMachine.Text
