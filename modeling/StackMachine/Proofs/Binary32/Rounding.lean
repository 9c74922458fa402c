import Mathlib.Algebra.Order.Field.Basic
import Mathlib.Algebra.Order.Ring.Rat
import Mathlib.Tactic.FieldSimp
import Mathlib.Tactic.Linarith
import Mathlib.Tactic.NormNum
import Mathlib.Tactic.Positivity
import Mathlib.Tactic.Ring
import StackMachine.Binary32.Basic

/-!
# Rounding to floats

A ratio is rounded to a float that no other float is nearer to, and of two equally near floats to
the one whose bit pattern is even. This is told of the values of bit patterns; infinity takes part
with the power of two behind the largest float, so that everything from half a step behind that
float on is rounded to it.

* `grid_binade`, `grid_strictMono`: between two powers of two the floats are evenly spaced, and
  their bit patterns without sign are in the order of their values.
* `IsRounded`: whole numbers nearest to a number, of which there is one; `isRounded_roundHalfEven`
  says that it is what a quotient is rounded to.
* `isNearest_ofRatio`: a ratio is rounded to the nearest float.
-/

namespace StackMachine.Binary32

/-- The value of a bit pattern without sign. That of infinity is twice the power of two at the start
of the last binade. -/
def value (magnitude : Nat) : ℚ :=
  units (ofParts false magnitude) / 2 ^ 149

/-- Whether a bit pattern without sign stands for the float nearest to a number; of two such floats,
for the even one. -/
structure IsNearest (q : ℚ) (m : Nat) : Prop where
  le : m ≤ infinity
  near : ∀ k ≤ infinity, |q - value m| ≤ |q - value k|
  even : ∀ k ≤ infinity, k ≠ m → |q - value m| = |q - value k| → Even m

/-! ## The values of bit patterns -/

/-- The size in units of `2 ^ -149`, for all bit patterns as if there were no end of exponents. -/
def grid (m : Nat) : Nat :=
  if m / 2 ^ 23 = 0 then m % 2 ^ 23 else (2 ^ 23 + m % 2 ^ 23) * 2 ^ (m / 2 ^ 23 - 1)

theorem magnitude_ofParts {m : Nat} (h : m < 2147483648) : magnitude (ofParts false m) = m := by
  simp only [magnitude, ofParts, Bool.false_eq_true, if_false, UInt32.toNat_ofNat']
  omega

/-- The value of a float without its sign. -/
theorem value_magnitude (bits : UInt32) : value (magnitude bits) = units bits / 2 ^ 149 := by
  have hlt : magnitude bits < 2147483648 := Nat.mod_lt _ (by decide)
  simp only [value, units, magnitude_ofParts hlt]

theorem value_eq {m : Nat} (h : m ≤ infinity) : value m = grid m / 2 ^ 149 := by
  have hlt : m < 2147483648 := Nat.lt_of_le_of_lt h (by decide)
  simp only [value, units, magnitude_ofParts hlt, grid]
  rfl

/-- Within a binade, and at its end, the spacing is a power of two. -/
theorem grid_binade {s r : Nat} (hr : r ≤ 2 ^ 24) (hs : s = 0 ∨ 2 ^ 23 ≤ r) :
    grid (s * 2 ^ 23 + r) = r * 2 ^ s := by
  unfold grid
  by_cases hlow : r < 2 ^ 23
  · obtain rfl : s = 0 := by omega
    rw [if_pos (by omega)]
    omega
  · by_cases hend : r = 2 ^ 24
    · subst hend
      have hexponent : (s * 2 ^ 23 + 2 ^ 24) / 2 ^ 23 = s + 2 := by omega
      have hfraction : (s * 2 ^ 23 + 2 ^ 24) % 2 ^ 23 = 0 := by omega
      rw [if_neg (by omega), hexponent, hfraction]
      calc (2 ^ 23 + 0) * 2 ^ (s + 1) = 2 ^ 23 * 2 * 2 ^ s := by rw [Nat.pow_succ' (n := s)]; omega
        _ = 2 ^ 24 * 2 ^ s := rfl
    · have hexponent : (s * 2 ^ 23 + r) / 2 ^ 23 = s + 1 := by omega
      have hfraction : 2 ^ 23 + (s * 2 ^ 23 + r) % 2 ^ 23 = r := by omega
      rw [if_neg (by omega), hexponent, hfraction, Nat.add_sub_cancel]

/-- Every bit pattern is in a binade, or below all of them. -/
theorem exists_binade (m : Nat) :
    ∃ s r, m = s * 2 ^ 23 + r ∧ r < 2 ^ 24 ∧ (s = 0 ∨ 2 ^ 23 ≤ r) := by
  by_cases hm : m < 2 ^ 23
  · exact ⟨0, m, by omega, by omega, .inl rfl⟩
  · refine ⟨m / 2 ^ 23 - 1, m - (m / 2 ^ 23 - 1) * 2 ^ 23, ?_, ?_, .inr ?_⟩ <;> omega

theorem grid_strictMono : StrictMono grid := by
  refine strictMono_nat_of_lt_succ fun m => ?_
  obtain ⟨s, r, rfl, hr, hs⟩ := exists_binade m
  rw [grid_binade (by omega) hs, Nat.add_assoc, grid_binade (by omega) (by omega)]
  exact Nat.mul_lt_mul_of_pos_right (Nat.lt_succ_self r) (Nat.two_pow_pos s)

/-! ## Whole numbers -/

/-- Whether a whole number is a number rounded: it is away from it by at most one half, and if it is
by one half, then on the even side. -/
structure IsRounded (y : ℚ) (r : Nat) : Prop where
  half : |y - r| ≤ 1 / 2
  even : |y - r| = 1 / 2 → Even r

theorem isRounded_roundHalfEven (num : Nat) {den : Nat} (hden : 0 < den) :
    IsRounded (num / den) (roundHalfEven num den) := by
  have hpos : (0 : ℚ) < den := by exact_mod_cast hden
  have hdiv : (num : ℚ) / den = (num / den : Nat) + (num % den : Nat) / (den : ℚ) := by
    rw [div_eq_iff hpos.ne', add_mul, div_mul_cancel₀ _ hpos.ne']
    exact_mod_cast (Nat.div_add_mod' num den).symm
  have hrest := Nat.mod_lt num hden
  rw [hdiv]
  unfold roundHalfEven
  generalize num / den = quotient
  generalize num % den = rest at hrest ⊢
  have hhalf : (rest / den : ℚ) = 1 / 2 ↔ 2 * rest = den := by
    rw [div_eq_div_iff hpos.ne' two_ne_zero, one_mul, mul_comm]
    exact_mod_cast Iff.rfl
  dsimp only
  by_cases hup : den < 2 * rest ∨ 2 * rest = den ∧ quotient % 2 = 1
  · have hone : (rest / den : ℚ) < 1 := (div_lt_one hpos).2 (by exact_mod_cast hrest)
    have hle : 1 / 2 ≤ (rest / den : ℚ) := by
      rw [div_le_div_iff₀ two_pos hpos, one_mul, mul_comm]
      exact_mod_cast (by omega : den ≤ 2 * rest)
    have habs : |(quotient + rest / den : ℚ) - (quotient + 1 : Nat)| = 1 - rest / den := by
      rw [abs_of_nonpos] <;> push_cast <;> linarith
    rw [if_pos hup]
    refine ⟨habs.trans_le (by linarith), fun h => ?_⟩
    have := hhalf.1 (by linarith)
    exact Nat.even_iff.2 (by omega)
  · have hle : (rest / den : ℚ) ≤ 1 / 2 := by
      rw [div_le_div_iff₀ hpos two_pos, one_mul, mul_comm]
      exact_mod_cast (by omega : 2 * rest ≤ den)
    have habs : |(quotient + rest / den : ℚ) - quotient| = rest / den := by
      rw [add_sub_cancel_left, abs_of_nonneg (by positivity)]
    rw [if_neg hup]
    refine ⟨habs.trans_le hle, fun h => ?_⟩
    have := hhalf.1 (habs.symm.trans h)
    exact Nat.even_iff.2 (by omega)

namespace IsRounded

variable {y : ℚ} {r j : Nat}

/-- No other whole number is nearer to a number than the rounded one. -/
theorem nearest (h : IsRounded y r) (hj : j ≠ r) :
    |y - r| ≤ |y - j| ∧ (|y - r| = |y - j| → Even r) := by
  have hhalf := h.half
  have hone : (1 : ℚ) ≤ |(j : ℚ) - r| := by
    have hne : (j : ℤ) - r ≠ 0 := by omega
    exact_mod_cast Int.one_le_abs hne
  have htriangle := abs_sub_le (j : ℚ) y r
  rw [abs_sub_comm (j : ℚ) y] at htriangle
  exact ⟨by linarith, fun heq => h.even (by linarith)⟩

theorem unique (h : IsRounded y r) (hj : IsRounded y j) : j = r := by
  by_contra hne
  obtain ⟨hle, heven⟩ := h.nearest hne
  obtain ⟨hle', heven'⟩ := hj.nearest (Ne.symm hne)
  have heq := le_antisymm hle hle'
  obtain ⟨a, ha⟩ := heven heq
  obtain ⟨b, hb⟩ := heven' heq.symm
  -- Two even numbers are two apart, and both are at most one half away.
  have htwo : (2 : ℚ) ≤ |(j : ℚ) - r| := by
    have htwo : (2 : ℤ) ≤ |(j : ℤ) - r| := le_abs.2 (by omega)
    exact_mod_cast htwo
  have htriangle := abs_sub_le (j : ℚ) y r
  rw [abs_sub_comm (j : ℚ) y] at htriangle
  have hhalf := h.half
  have hhalf' := hj.half
  linarith

theorem le_of_le (h : IsRounded y r) (hj : j ≤ y) : j ≤ r := by
  by_contra hlt
  have hle : (r : ℚ) + 1 ≤ j := by exact_mod_cast Nat.not_le.1 hlt
  have hhalf := (le_abs_self _).trans h.half
  linarith

theorem le_of_ge (h : IsRounded y r) (hj : y ≤ j) : r ≤ j := by
  by_contra hlt
  have hle : (j : ℚ) + 1 ≤ r := by exact_mod_cast Nat.not_le.1 hlt
  have hhalf := (neg_abs_le _).trans' (neg_le_neg h.half)
  linarith

/-- A number that is rounded to a multiple of ten is rounded to the same one in tens. -/
theorem of_mul_ten (h : IsRounded (10 * y) (10 * r)) : IsRounded y r := by
  have hscale : |y - r| = |10 * y - (10 * r : Nat)| / 10 := by
    rw [Nat.cast_mul, Nat.cast_ofNat, ← mul_sub, abs_mul, abs_of_pos (by norm_num : (0 : ℚ) < 10)]
    ring
  have hhalf := h.half
  exact ⟨by linarith, fun heq => by linarith⟩

end IsRounded

/-! ## Nearest floats -/

/-- Whether a bit pattern stands for the number nearest to `x` units, among those up to a limit. -/
structure IsClosest (x : ℚ) (limit m : Nat) : Prop where
  le : m ≤ limit
  near : ∀ k ≤ limit, |x - grid m| ≤ |x - grid k|
  even : ∀ k ≤ limit, k ≠ m → |x - grid m| = |x - grid k| → Even m

variable {x q : ℚ} {limit m k s r : Nat}

theorem isNearest_iff : IsNearest q m ↔ IsClosest (q * 2 ^ 149) infinity m := by
  have hpos : (0 : ℚ) < 2 ^ 149 := by positivity
  have hscale {k : Nat} (hk : k ≤ infinity) :
      |q * 2 ^ 149 - grid k| = |q - value k| * 2 ^ 149 := by
    rw [value_eq hk, ← abs_of_pos hpos, ← abs_mul, abs_of_pos hpos, sub_mul,
      div_mul_cancel₀ _ hpos.ne']
  constructor
  · rintro ⟨hle, hnear, heven⟩
    refine ⟨hle, fun k hk => ?_, fun k hk hne h => heven k hk hne ?_⟩
    · rw [hscale hle, hscale hk]
      exact mul_le_mul_of_nonneg_right (hnear k hk) hpos.le
    · rw [hscale hle, hscale hk] at h
      exact mul_right_cancel₀ hpos.ne' h
  · rintro ⟨hle, hnear, heven⟩
    refine ⟨hle, fun k hk => ?_, fun k hk hne h => heven k hk hne ?_⟩
    · have := hnear k hk
      rw [hscale hle, hscale hk] at this
      exact le_of_mul_le_mul_right this hpos
    · rw [hscale hle, hscale hk, h]

theorem abs_sub_grid_lt (hkm : k < m) (hx : (grid m : ℚ) ≤ x) : |x - grid m| < |x - grid k| := by
  have hlt : (grid k : ℚ) < grid m := by exact_mod_cast grid_strictMono hkm
  rw [abs_of_nonneg (by linarith), abs_of_nonneg (by linarith)]
  linarith

theorem abs_sub_grid_lt' (hkm : m < k) (hx : x ≤ grid m) : |x - grid m| < |x - grid k| := by
  have hlt : (grid m : ℚ) < grid k := by exact_mod_cast grid_strictMono hkm
  rw [abs_of_nonpos (by linarith), abs_of_nonpos (by linarith)]
  linarith

/-- Outside of the binade around a number all floats are farther away from it than one of the ends
of the binade is. -/
theorem exists_in_binade (hzero : 0 ≤ x) (hlow : s = 0 ∨ 2 ^ 23 * 2 ^ s ≤ x)
    (hhigh : x ≤ 2 ^ 24 * 2 ^ s) (k : Nat) :
    ∃ j ≤ 2 ^ 24, (s = 0 ∨ 2 ^ 23 ≤ j) ∧
      (k = s * 2 ^ 23 + j ∨ |x - grid (s * 2 ^ 23 + j)| < |x - grid k|) := by
  have hstart : ∃ l ≤ 2 ^ 24, (s = 0 ∧ l = 0 ∨ l = 2 ^ 23) ∧ (grid (s * 2 ^ 23 + l) : ℚ) ≤ x := by
    by_cases hs : s = 0
    · refine ⟨0, by omega, .inl ⟨hs, rfl⟩, ?_⟩
      rw [grid_binade (by omega) (.inl hs)]
      simpa using hzero
    · refine ⟨2 ^ 23, by omega, .inr rfl, ?_⟩
      rw [grid_binade (by omega) (.inr (Nat.le_refl _))]
      exact_mod_cast hlow.resolve_left hs
  have hend : x ≤ grid (s * 2 ^ 23 + 2 ^ 24) := by
    rw [grid_binade (Nat.le_refl _) (.inr (by omega))]
    exact_mod_cast hhigh
  obtain ⟨l, hl, hinner, hlx⟩ := hstart
  by_cases hk : k < s * 2 ^ 23 + l
  · exact ⟨l, hl, by omega, .inr (abs_sub_grid_lt hk hlx)⟩
  · by_cases hk' : s * 2 ^ 23 + 2 ^ 24 < k
    · exact ⟨2 ^ 24, Nat.le_refl _, .inr (by omega), .inr (abs_sub_grid_lt' hk' hend)⟩
    · exact ⟨k - s * 2 ^ 23, by omega, by omega, .inl (by omega)⟩

/-- What is nearest within the binade around a number is nearest among all floats. -/
theorem isClosest_of_binade (hr : r ≤ 2 ^ 24) (hs : s = 0 ∨ 2 ^ 23 ≤ r) (hzero : 0 ≤ x)
    (hlow : s = 0 ∨ 2 ^ 23 * 2 ^ s ≤ x) (hhigh : x ≤ 2 ^ 24 * 2 ^ s)
    (hround : ∀ j : Nat, j ≠ r → |x - r * 2 ^ s| ≤ |x - j * 2 ^ s| ∧
      (|x - r * 2 ^ s| = |x - j * 2 ^ s| → Even r))
    (hlimit : s * 2 ^ 23 + r ≤ limit) : IsClosest x limit (s * 2 ^ 23 + r) := by
  have hgrid {j : Nat} (hj : j ≤ 2 ^ 24) (hsj : s = 0 ∨ 2 ^ 23 ≤ j) :
      (grid (s * 2 ^ 23 + j) : ℚ) = j * 2 ^ s := by
    rw [grid_binade hj hsj, Nat.cast_mul, Nat.cast_pow, Nat.cast_two]
  have hparity : Even r → Even (s * 2 ^ 23 + r) := by
    rw [Nat.even_iff, Nat.even_iff]
    omega
  have hinside {j : Nat} (hj : j ≤ 2 ^ 24) (hsj : s = 0 ∨ 2 ^ 23 ≤ j) :
      |x - grid (s * 2 ^ 23 + r)| ≤ |x - grid (s * 2 ^ 23 + j)| := by
    rw [hgrid hr hs, hgrid hj hsj]
    by_cases hne : j = r
    · rw [hne]
    · exact (hround j hne).1
  refine ⟨hlimit, fun k _ => ?_, fun k _ hne h => ?_⟩
  · obtain ⟨j, hj, hsj, rfl | hlt⟩ := exists_in_binade hzero hlow hhigh k
    · exact hinside hj hsj
    · exact (lt_of_le_of_lt (hinside hj hsj) hlt).le
  · obtain ⟨j, hj, hsj, rfl | hlt⟩ := exists_in_binade hzero hlow hhigh k
    · rw [hgrid hr hs, hgrid hj hsj] at h
      exact hparity ((hround j (by omega)).2 h)
    · exact absurd h (lt_of_le_of_lt (hinside hj hsj) hlt).ne

/-- From the value of the limit on, the limit is nearest. -/
theorem isClosest_limit (hx : (grid limit : ℚ) ≤ x) : IsClosest x limit limit := by
  have hfar {k : Nat} (hk : k ≤ limit) (hne : k ≠ limit) : |x - grid limit| < |x - grid k| :=
    abs_sub_grid_lt (by omega) hx
  refine ⟨Nat.le_refl _, fun k hk => ?_, fun k hk hne heq => absurd heq (hfar hk hne).ne⟩
  by_cases hne : k = limit
  · rw [hne]
  · exact (hfar hk hne).le

/-- What is nearest without a limit, or the limit if that is smaller, is nearest up to the limit. -/
theorem isClosest_min (h : ∀ limit, m ≤ limit → IsClosest x limit m) (limit : Nat) :
    IsClosest x limit (min limit m) := by
  by_cases hm : m ≤ limit
  · rw [Nat.min_eq_right hm]
    exact h limit hm
  · rw [Nat.min_eq_left (by omega)]
    refine isClosest_limit ?_
    by_contra hlt
    have hnear := (h m (Nat.le_refl m)).near limit (by omega)
    exact absurd hnear (not_le.2 (abs_sub_grid_lt' (by omega) (not_le.1 hlt).le))

theorem IsClosest.le_of_isClosest {m' : Nat} (h : IsClosest x limit m)
    (h' : IsClosest x limit m') : m ≤ m' := by
  by_contra hlt
  have heq : |x - grid m| = |x - grid m'| := le_antisymm (h.near m' h'.le) (h'.near m h.le)
  have heven := h.even m' h'.le (by omega) heq
  have heven' := h'.even m h.le (by omega) heq.symm
  -- Between two even bit patterns there is an odd one, which is nearer than both.
  have hnext : m' + 1 < m := by
    rw [Nat.even_iff] at heven heven'
    omega
  have hgrid' : (grid m' : ℚ) < grid (m' + 1) := by
    exact_mod_cast grid_strictMono (Nat.lt_succ_self m')
  have hgrid : (grid (m' + 1) : ℚ) < grid m := by exact_mod_cast grid_strictMono hnext
  have hnear := h.near (m' + 1) (by have := h.le; omega)
  have hlow := le_abs_self (x - grid m')
  have hhigh := neg_abs_le (x - grid m)
  rcases abs_cases (x - grid (m' + 1)) with ⟨habs, -⟩ | ⟨habs, -⟩ <;> linarith

/-- There is one nearest float. -/
theorem IsNearest.unique {m' : Nat} (h : IsNearest q m) (h' : IsNearest q m') : m = m' := by
  rw [isNearest_iff] at h h'
  exact Nat.le_antisymm (h.le_of_isClosest h') (h'.le_of_isClosest h)

/-- Numbers below half of the smallest float are rounded to zero. -/
theorem isNearest_zero (hq : 0 ≤ q) (h : q * 2 ^ 150 < 1) : IsNearest q 0 := by
  have hzero : grid 0 = 0 := by decide
  have hfar {k : Nat} (hk : k ≠ 0) :
      |q * 2 ^ 149 - grid 0| < |q * 2 ^ 149 - grid k| := by
    have hone : (1 : ℚ) ≤ grid k := by
      exact_mod_cast hzero ▸ grid_strictMono (Nat.pos_of_ne_zero hk)
    rw [hzero, Nat.cast_zero, sub_zero, abs_of_nonneg (by positivity),
      abs_of_nonpos (by linarith)]
    linarith
  rw [isNearest_iff]
  refine ⟨Nat.zero_le _, fun k _ => ?_, fun k _ hne heq => absurd heq (hfar hne).ne⟩
  by_cases hk : k = 0
  · rw [hk]
  · exact (hfar hk).le

/-- Numbers from the power of two behind the largest float on are rounded to infinity. -/
theorem isNearest_infinity (h : 2 ^ 128 ≤ q) : IsNearest q infinity := by
  have hgrid : grid infinity = 2 ^ 128 * 2 ^ 149 := by decide
  rw [isNearest_iff]
  refine isClosest_limit ?_
  rw [hgrid]
  push_cast
  linarith

/-! ## Rounding a ratio -/

theorem div_le_roundHalfEven (num den : Nat) : num / den ≤ roundHalfEven num den := by
  unfold roundHalfEven
  dsimp only
  split <;> omega

theorem roundHalfEven_le (num den : Nat) : roundHalfEven num den ≤ num / den + 1 := by
  unfold roundHalfEven
  dsimp only
  split <;> omega

/-- Behind a shift of this size, a number has 24 binary places, or fewer if there is no shift. -/
theorem shift_bounds (n : Nat) :
    (n.log2 - 23 = 0 ∨ 2 ^ 23 * 2 ^ (n.log2 - 23) ≤ n) ∧ n < 2 ^ 24 * 2 ^ (n.log2 - 23) := by
  rw [← Nat.pow_add, ← Nat.pow_add]
  constructor
  · by_cases hshift : n.log2 - 23 = 0
    · exact .inl hshift
    · have hne : n ≠ 0 := by
        rintro rfl
        exact hshift rfl
      have hlog : 23 + (n.log2 - 23) = n.log2 := by omega
      rw [hlog]
      exact .inr (Nat.log2_self_le hne)
  · exact Nat.lt_of_lt_of_le Nat.lt_log2_self (Nat.pow_le_pow_right two_pos (by omega))

/-- A ratio is rounded to the nearest float. -/
theorem isNearest_ofRatio (num : Nat) {den : Nat} (hden : 0 < den) :
    IsNearest (num / den) (ofRatio num den) := by
  have hpos : (0 : ℚ) < den := by exact_mod_cast hden
  have hexact : (num / den : ℚ) * 2 ^ 149 = (num * unitsInOne : Nat) / den := by
    rw [unitsInOne]
    push_cast
    ring
  rw [isNearest_iff, hexact]
  unfold ofRatio
  generalize num * unitsInOne = exact
  obtain ⟨hlow, hhigh⟩ := shift_bounds (exact / den)
  dsimp only
  generalize (exact / den).log2 - 23 = s at hlow hhigh ⊢
  have hden' : 0 < den * Nat.pow 2 s := Nat.mul_pos hden (Nat.two_pow_pos s)
  have hquotient : exact / (den * Nat.pow 2 s) = exact / den / 2 ^ s :=
    (Nat.div_div_eq_div_mul ..).symm
  have hr : roundHalfEven exact (den * Nat.pow 2 s) ≤ 2 ^ 24 := by
    have hle := roundHalfEven_le exact (den * Nat.pow 2 s)
    have hlt : exact / den / 2 ^ s < 2 ^ 24 := Nat.div_lt_of_lt_mul (Nat.mul_comm .. ▸ hhigh)
    omega
  have hr' : s = 0 ∨ 2 ^ 23 ≤ roundHalfEven exact (den * Nat.pow 2 s) := by
    have hle := div_le_roundHalfEven exact (den * Nat.pow 2 s)
    refine hlow.imp_right fun h => ?_
    have := (Nat.le_div_iff_mul_le (Nat.two_pow_pos s)).2 h
    omega
  have hscale (i : Nat) : |(exact / den : ℚ) - i * 2 ^ s| =
      |(exact : ℚ) / (den * Nat.pow 2 s : Nat) - i| * 2 ^ s := by
    have hpow : ((den * Nat.pow 2 s : Nat) : ℚ) = den * 2 ^ s := by
      rw [Nat.cast_mul]
      exact congrArg _ (Nat.cast_pow 2 s)
    have hshift : (exact / den : ℚ) - i * 2 ^ s = (exact / (den * 2 ^ s) - i) * 2 ^ s := by
      field_simp
    rw [hpow, hshift, abs_mul, abs_of_pos (a := (2 : ℚ) ^ s) (by positivity)]
  refine isClosest_min (fun limit hlimit => ?_) infinity
  refine isClosest_of_binade hr hr' (by positivity) ?_ ?_ (fun j hj => ?_) hlimit
  · refine hlow.imp_right fun h => ?_
    rw [le_div_iff₀ hpos]
    exact_mod_cast (Nat.le_div_iff_mul_le hden).1 h
  · rw [div_le_iff₀ hpos]
    exact_mod_cast ((Nat.div_lt_iff_lt_mul hden).1 hhigh).le
  · obtain ⟨hle, heven⟩ := (isRounded_roundHalfEven exact hden').nearest hj
    rw [hscale, hscale]
    refine ⟨mul_le_mul_of_nonneg_right hle (by positivity), fun h => heven ?_⟩
    exact mul_right_cancel₀ (by positivity) h

end StackMachine.Binary32
