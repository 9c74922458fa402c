/-!
# Numerals

Decimal and hexadecimal text of whole numbers, and padding to a fixed width.

* `length_padLeft`, `length_padRight`: a padded text has at least the width asked for, and exactly
  that width when it fitted before.
* `exists_digitChar_of_mem_toDigits`: a digit stands for a number below the base.
-/

namespace StackMachine.Text

/-- The characters `cs` with copies of `fill` in front, up to `width` characters. -/
def padLeft (fill : Char) (width : Nat) (cs : List Char) : List Char :=
  List.replicate (width - cs.length) fill ++ cs

/-- The characters `cs` with copies of `fill` behind, up to `width` characters. -/
def padRight (fill : Char) (width : Nat) (cs : List Char) : List Char :=
  cs ++ List.replicate (width - cs.length) fill

theorem length_padLeft (fill : Char) (width : Nat) (cs : List Char) :
    (padLeft fill width cs).length = max width cs.length := by
  simp only [padLeft, List.length_append, List.length_replicate]
  omega

theorem length_padRight (fill : Char) (width : Nat) (cs : List Char) :
    (padRight fill width cs).length = max width cs.length := by
  simp only [padRight, List.length_append, List.length_replicate]
  omega

theorem exists_digitChar_of_mem_toDigits {base n : Nat} (hbase : 1 < base) {d : Char}
    (h : d ∈ Nat.toDigits base n) : ∃ k < base, d = Nat.digitChar k := by
  induction n using Nat.strongRecOn with
  | _ n ih =>
    rw [Nat.toDigits_eq_if hbase] at h
    split at h
    · exact ⟨n, by assumption, List.mem_singleton.mp h⟩
    · have hpos : 0 < n := by omega
      rcases List.mem_append.mp h with h | h
      · exact ih (n / base) (Nat.div_lt_self hpos hbase) h
      · exact ⟨n % base, Nat.mod_lt n (by omega), List.mem_singleton.mp h⟩

/-- The decimal digits of a number, `0` for zero. -/
def decimal (n : Nat) : String :=
  String.ofList (Nat.toDigits 10 n)

/-- The decimal digits of a number, after a minus sign if it is negative. -/
def signedDecimal (i : Int) : String :=
  if i < 0 then String.ofList ('-' :: Nat.toDigits 10 i.natAbs) else decimal i.natAbs

/-- The lower-case hexadecimal digits of a number, with zeros in front up to `width` digits. -/
def hex (width n : Nat) : String :=
  String.ofList (padLeft '0' width (Nat.toDigits 16 n))

end StackMachine.Text
