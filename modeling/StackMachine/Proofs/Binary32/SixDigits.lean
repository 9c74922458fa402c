import Mathlib.Algebra.Order.Field.Power
import StackMachine.Binary32.Decimal
import StackMachine.Proofs.Binary32.Rounding

/-!
# Six significant digits

A positive number is rounded to six significant digits if no other number that six digits can show
is nearer to it, and of two equally near ones it is the one whose digits are even. The digits and
the exponent of the rounded number are unique.

The exponent is not always that of the number itself, as rounding can carry. A number that is
rounded a second time, to the places that the exponent of the rounded one leaves, is rounded to the
same digits.

* `IsSixDigits`, `IsSixDigits.unique`: six significant digits of a number.
* `isSixDigits_significant`: the digits and the exponent that are computed for a float.
* `scaledRound_significant`: rounding a second time gives the same digits.
-/

namespace StackMachine.Binary32

/-- Whether a whole number has six digits. -/
def HasSixDigits (digits : Nat) : Prop :=
  100000 ≤ digits ∧ digits ≤ 999999

/-- The number with the given digits, the first of six standing for the given power of ten. -/
def sixDigits (digits : Nat) (exponent : Int) : ℚ :=
  digits * 10 ^ (exponent - 5)

/-- Whether six digits with an exponent show the number nearest to `q` that six digits can show; of
two such numbers, the even one. -/
structure IsSixDigits (q : ℚ) (digits : Nat) (exponent : Int) : Prop where
  six : HasSixDigits digits
  near : ∀ d e, HasSixDigits d → |q - sixDigits digits exponent| ≤ |q - sixDigits d e|
  even : ∀ d e, HasSixDigits d → sixDigits d e ≠ sixDigits digits exponent →
    |q - sixDigits digits exponent| = |q - sixDigits d e| → Even digits

variable {q : ℚ} {digits d d' n r : Nat} {exponent e e' : Int}

/-! ## The order of numbers with six digits -/

theorem ten_zpow_pos (e : Int) : (0 : ℚ) < 10 ^ e :=
  zpow_pos (by norm_num) e

theorem ten_zpow_add (e e' : Int) : (10 : ℚ) ^ (e + e') = 10 ^ e * 10 ^ e' :=
  zpow_add₀ (by norm_num) e e'

theorem ten_zpow_le_sixDigits (hd : HasSixDigits d) (e : Int) : 10 ^ e ≤ sixDigits d e := by
  have hlow : (10 : ℚ) ^ (5 : Int) ≤ d := by
    norm_num
    exact_mod_cast hd.1
  calc (10 : ℚ) ^ e = 10 ^ (5 : Int) * 10 ^ (e - 5) := by rw [← ten_zpow_add, add_sub_cancel]
    _ ≤ sixDigits d e := mul_le_mul_of_nonneg_right hlow (ten_zpow_pos _).le

theorem sixDigits_lt_ten_zpow (hd : HasSixDigits d) (e : Int) : sixDigits d e < 10 ^ (e + 1) := by
  have hhigh : (d : ℚ) < 10 ^ (6 : Int) := by
    norm_num
    exact_mod_cast Nat.lt_succ_of_le hd.2
  calc sixDigits d e < 10 ^ (6 : Int) * 10 ^ (e - 5) :=
        mul_lt_mul_of_pos_right hhigh (ten_zpow_pos _)
    _ = 10 ^ (e + 1) := by
      rw [← ten_zpow_add]
      congr 1
      omega

theorem sixDigits_lt_of_exponent_lt (hd : HasSixDigits d) (hd' : HasSixDigits d') (h : e < e') :
    sixDigits d e < sixDigits d' e' :=
  calc sixDigits d e < 10 ^ (e + 1) := sixDigits_lt_ten_zpow hd e
    _ ≤ 10 ^ e' := zpow_le_zpow_right₀ (by norm_num) h
    _ ≤ sixDigits d' e' := ten_zpow_le_sixDigits hd' e'

/-- Numbers with six digits are in the order of their exponents, and within one exponent in that of
their digits. -/
theorem sixDigits_lt_iff (hd : HasSixDigits d) (hd' : HasSixDigits d') :
    sixDigits d e < sixDigits d' e' ↔ e < e' ∨ e = e' ∧ d < d' := by
  rcases lt_trichotomy e e' with he | rfl | he
  · exact iff_of_true (sixDigits_lt_of_exponent_lt hd hd' he) (.inl he)
  · rw [sixDigits, sixDigits, mul_lt_mul_iff_left₀ (ten_zpow_pos _), Nat.cast_lt]
    simp
  · exact iff_of_false (sixDigits_lt_of_exponent_lt hd' hd he).not_gt (by omega)

namespace IsSixDigits

theorem le_of_isSixDigits (h : IsSixDigits q d e) (h' : IsSixDigits q d' e') :
    sixDigits d e ≤ sixDigits d' e' := by
  by_contra hlt
  rw [not_le] at hlt
  have heq := le_antisymm (h.near d' e' h'.six) (h'.near d e h.six)
  have heven := Nat.even_iff.1 (h.even d' e' h'.six hlt.ne heq)
  have heven' := Nat.even_iff.1 (h'.even d e h.six hlt.ne' heq.symm)
  -- Between two numbers with even digits there is one with odd digits, nearer than both.
  have hsix : HasSixDigits (d' + 1) := by
    obtain ⟨hlow, hhigh⟩ := h'.six
    exact ⟨by omega, by omega⟩
  have hnext : sixDigits d' e' < sixDigits (d' + 1) e' :=
    (sixDigits_lt_iff h'.six hsix).2 (.inr ⟨rfl, Nat.lt_succ_self d'⟩)
  have hnext' : sixDigits (d' + 1) e' < sixDigits d e := by
    rw [sixDigits_lt_iff h'.six h.six] at hlt
    rw [sixDigits_lt_iff hsix h.six]
    omega
  have hnear := h.near (d' + 1) e' hsix
  have hlow := le_abs_self (q - sixDigits d' e')
  have hhigh := neg_abs_le (q - sixDigits d e)
  rcases abs_cases (q - sixDigits (d' + 1) e') with ⟨habs, -⟩ | ⟨habs, -⟩ <;> linarith

/-- A number has one nearest number with six digits, and that has one exponent. -/
theorem unique (h : IsSixDigits q d e) (h' : IsSixDigits q d' e') : d = d' ∧ e = e' := by
  have hle := (h.le_of_isSixDigits h').not_gt
  have hle' := (h'.le_of_isSixDigits h).not_gt
  rw [sixDigits_lt_iff h'.six h.six] at hle
  rw [sixDigits_lt_iff h.six h'.six] at hle'
  omega

end IsSixDigits

/-! ## Rounding to six digits -/

/-- On the scale on which numbers with the exponent `e` are whole, those with a greater exponent are
whole as well, and those with a smaller one are below the first number of six digits. -/
theorem exists_whole {y : ℚ} (hy : 100000 ≤ y) (hd : HasSixDigits d) (e e' : Int) :
    ∃ j : Nat, sixDigits d e' * 10 ^ (5 - e) = j ∨
      |y - j| < |y - sixDigits d e' * 10 ^ (5 - e)| := by
  rcases le_or_gt e e' with he | he
  · obtain ⟨k, rfl⟩ := Int.le.dest he
    refine ⟨d * 10 ^ k, .inl ?_⟩
    rw [sixDigits, mul_assoc, ← ten_zpow_add, Nat.cast_mul, Nat.cast_pow, ← zpow_natCast]
    congr 2
    omega
  · refine ⟨100000, .inr ?_⟩
    have hlt : sixDigits d e' * 10 ^ (5 - e) < 100000 :=
      calc sixDigits d e' * 10 ^ (5 - e) < 10 ^ (e' + 1) * 10 ^ (5 - e) :=
            mul_lt_mul_of_pos_right (sixDigits_lt_ten_zpow hd e') (ten_zpow_pos _)
        _ = 10 ^ (e' + 1 + (5 - e)) := (ten_zpow_add _ _).symm
        _ ≤ 10 ^ (5 : Int) := zpow_le_zpow_right₀ (by norm_num) (by omega)
        _ = 100000 := by norm_num
    have hcast : ((100000 : Nat) : ℚ) = 100000 := by norm_num
    rw [hcast, abs_of_nonneg (by linarith), abs_of_nonneg (by linarith)]
    linarith

/-- A number with the exponent `e` that is rounded on the scale of its sixth digit is rounded to six
digits, even if the rounded number needs one digit more, a last one of zero. -/
theorem IsRounded.isSixDigits (hlow : 10 ^ e ≤ q) (hr : IsRounded (q * 10 ^ (5 - e)) r)
    (hsix : HasSixDigits digits) (hvalue : sixDigits digits exponent = r * 10 ^ (e - 5))
    (heven : Even r → Even digits) : IsSixDigits q digits exponent := by
  have hscale (v : ℚ) :
      |q - v| = |q * 10 ^ (5 - e) - v * 10 ^ (5 - e)| * 10 ^ (e - 5) := by
    rw [← sub_mul, abs_mul, abs_of_pos (ten_zpow_pos _), mul_assoc, ← ten_zpow_add]
    simp
  have hdigits : sixDigits digits exponent * 10 ^ (5 - e) = r := by
    rw [hvalue, mul_assoc, ← ten_zpow_add]
    simp
  have hy : 100000 ≤ q * 10 ^ (5 - e) :=
    calc (100000 : ℚ) = 10 ^ e * 10 ^ (5 - e) := by
          rw [← ten_zpow_add, add_sub_cancel]
          norm_num
      _ ≤ q * 10 ^ (5 - e) := mul_le_mul_of_nonneg_right hlow (ten_zpow_pos _).le
  have hnear (j : Nat) : |q * 10 ^ (5 - e) - r| ≤ |q * 10 ^ (5 - e) - j| := by
    by_cases hj : j = r
    · rw [hj]
    · exact (hr.nearest hj).1
  refine ⟨hsix, fun d e' hd => ?_, fun d e' hd hne h => ?_⟩
  · rw [hscale, hscale (sixDigits d e'), hdigits]
    refine mul_le_mul_of_nonneg_right ?_ (ten_zpow_pos _).le
    obtain ⟨j, hj | hj⟩ := exists_whole hy hd e e'
    · rw [hj]
      exact hnear j
    · exact (hnear j).trans hj.le
  · rw [hscale, hscale (sixDigits d e'), hdigits] at h
    have h := mul_right_cancel₀ (ten_zpow_pos _).ne' h
    obtain ⟨j, hj | hj⟩ := exists_whole hy hd e e'
    · rw [hj] at h
      refine heven ((hr.nearest fun hjr => hne ?_).2 h)
      rw [← hjr, ← hj] at hdigits
      exact (mul_right_cancel₀ (ten_zpow_pos _).ne' hdigits).symm
    · exact absurd h ((hnear j).trans_lt hj).ne

/-! ## The digits of floats -/

/-- The decimal exponent of a positive number of units. -/
theorem decimalExponent_bounds (hn : 0 < n) :
    (10 : ℚ) ^ decimalExponent n ≤ n / 2 ^ 149 ∧
      (n / 2 ^ 149 : ℚ) < 10 ^ (decimalExponent n + 1) := by
  have hunits : 0 < unitsInOne := Nat.two_pow_pos 149
  have hle : 1 ≤ n * Nat.pow 10 45 / unitsInOne := by
    rw [Nat.le_div_iff_mul_le hunits, Nat.one_mul]
    exact (by decide : unitsInOne ≤ Nat.pow 10 45).trans (Nat.le_mul_of_pos_left _ hn)
  unfold decimalExponent
  generalize hm : n * Nat.pow 10 45 / unitsInOne = m at hle
  obtain ⟨k, hk⟩ := Nat.exists_eq_succ_of_ne_zero
    (Nat.length_toDigits_pos (b := 10) (n := m)).ne'
  have hlow : 10 ^ k ≤ m := by
    rcases Nat.eq_zero_or_pos k with rfl | hpos
    · exact hle
    · have hlength := Nat.length_toDigits_le_iff (b := 10) (n := m) (by decide) hpos
      rw [hk] at hlength
      exact Nat.not_lt.1 (hlength.not.1 (by omega))
  have hhigh : m < 10 ^ (k + 1) :=
    (Nat.length_toDigits_le_iff (by decide) k.succ_pos).1 hk.le
  rw [← hm] at hlow hhigh
  rw [Nat.le_div_iff_mul_le hunits] at hlow
  rw [Nat.div_lt_iff_lt_mul hunits] at hhigh
  have hlow : 10 ^ k * 2 ^ 149 ≤ n * 10 ^ 45 := hlow
  have hhigh : n * 10 ^ 45 < 10 ^ (k + 1) * 2 ^ 149 := hhigh
  have hpow (i : Nat) : (10 : ℚ) ^ ((i : Int) - 45) = 10 ^ i / 10 ^ 45 := by
    rw [zpow_sub₀ (by norm_num), zpow_natCast]
    rfl
  have hexponent : ((k + 1 : Nat) : Int) - 46 = (k : Int) - 45 := by omega
  have hnext : (k : Int) - 45 + 1 = ((k + 1 : Nat) : Int) - 45 := by omega
  rw [hk, hexponent, hnext, hpow, hpow, div_le_div_iff₀ (by positivity) (by positivity),
    div_lt_div_iff₀ (by positivity) (by positivity)]
  exact_mod_cast And.intro hlow hhigh

theorem isRounded_scaledRound (n : Nat) (e : Int) :
    IsRounded (n / 2 ^ 149 * 10 ^ e) (scaledRound n e) := by
  have hunits : 0 < unitsInOne := Nat.two_pow_pos 149
  have hone : (unitsInOne : ℚ) = 2 ^ 149 := by
    rw [unitsInOne]
    norm_num
  have hpow (e : Nat) : ((Nat.pow 10 e : Nat) : ℚ) = 10 ^ e := Nat.cast_pow 10 e
  cases e with
  | ofNat e =>
    have h := isRounded_roundHalfEven (n * Nat.pow 10 e) hunits
    rw [Nat.cast_mul, hpow, hone] at h
    rwa [Int.ofNat_eq_natCast, zpow_natCast, div_mul_eq_mul_div]
  | negSucc e =>
    have h := isRounded_roundHalfEven n
      (Nat.mul_pos hunits (Nat.pow_pos (n := e + 1) (by decide : 0 < 10)))
    rw [Nat.cast_mul, Nat.cast_pow, hone] at h
    rwa [zpow_negSucc, ← div_eq_mul_inv, div_div]

/-- The rounded digits of a positive number of units: they are six, or a carry has made them the
first number of seven digits. -/
theorem significant_cases (hn : 0 < n) :
    HasSixDigits (scaledRound n (5 - decimalExponent n)) ∧
        significant n = ⟨scaledRound n (5 - decimalExponent n), decimalExponent n⟩ ∨
      scaledRound n (5 - decimalExponent n) = 1000000 ∧
        significant n = ⟨100000, decimalExponent n + 1⟩ := by
  obtain ⟨hlow, hhigh⟩ := decimalExponent_bounds hn
  have hr := isRounded_scaledRound n (5 - decimalExponent n)
  have hdefinition : significant n = if scaledRound n (5 - decimalExponent n) = 1000000
      then ⟨100000, decimalExponent n + 1⟩
      else ⟨scaledRound n (5 - decimalExponent n), decimalExponent n⟩ := rfl
  rw [hdefinition]
  generalize decimalExponent n = e at *
  generalize scaledRound n (5 - e) = r at hr ⊢
  have hle : 100000 ≤ r := hr.le_of_le <|
    calc ((100000 : Nat) : ℚ) = 10 ^ e * 10 ^ (5 - e) := by
          rw [← ten_zpow_add, add_sub_cancel]
          norm_num
      _ ≤ n / 2 ^ 149 * 10 ^ (5 - e) := mul_le_mul_of_nonneg_right hlow (ten_zpow_pos _).le
  have hge : r ≤ 1000000 := hr.le_of_ge <|
    calc (n / 2 ^ 149 * 10 ^ (5 - e) : ℚ) ≤ 10 ^ (e + 1) * 10 ^ (5 - e) :=
          mul_le_mul_of_nonneg_right hhigh.le (ten_zpow_pos _).le
      _ = 10 ^ (6 : Int) := by
          rw [← ten_zpow_add]
          congr 1
          omega
      _ = ((1000000 : Nat) : ℚ) := by norm_num
  by_cases hcarry : r = 1000000
  · exact .inr ⟨hcarry, if_pos hcarry⟩
  · exact .inl ⟨⟨hle, by omega⟩, if_neg hcarry⟩

/-- The digits and the exponent of a float are those of the number rounded to six digits. -/
theorem isSixDigits_significant (hn : 0 < n) :
    IsSixDigits (n / 2 ^ 149) (significant n).digits (significant n).exponent := by
  have hlow := (decimalExponent_bounds hn).1
  have hr := isRounded_scaledRound n (5 - decimalExponent n)
  obtain ⟨hsix, hsignificant⟩ | ⟨hcarry, hsignificant⟩ := significant_cases hn
  · rw [hsignificant]
    exact hr.isSixDigits hlow hsix rfl id
  · rw [hsignificant]
    have hsix : HasSixDigits 100000 := ⟨by decide, by decide⟩
    have heven : Even 100000 := by decide
    refine hr.isSixDigits hlow hsix ?_ fun _ => heven
    rw [hcarry, sixDigits, add_sub_right_comm, ten_zpow_add]
    norm_num
    ring

/-- Rounding a second time, to the places that the exponent of the rounded number leaves, gives the
same digits: after a carry, a zero less. -/
theorem scaledRound_significant (hn : 0 < n) :
    scaledRound n (5 - (significant n).exponent) = (significant n).digits := by
  obtain ⟨-, hsignificant⟩ | ⟨hcarry, hsignificant⟩ := significant_cases hn
  · rw [hsignificant]
  · rw [hsignificant]
    have hr := isRounded_scaledRound n (5 - decimalExponent n)
    have hten : (n / 2 ^ 149 * 10 ^ (5 - decimalExponent n) : ℚ) =
        10 * (n / 2 ^ 149 * 10 ^ (5 - (decimalExponent n + 1))) := by
      rw [show 5 - decimalExponent n = 5 - (decimalExponent n + 1) + 1 by omega, ten_zpow_add]
      ring
    rw [hten, hcarry] at hr
    exact (hr.of_mul_ten (r := 100000)).unique (isRounded_scaledRound n _)

end StackMachine.Binary32
