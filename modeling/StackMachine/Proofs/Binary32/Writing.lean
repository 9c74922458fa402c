import Mathlib.Algebra.Order.Floor.Semifield
import Mathlib.Data.Rat.Floor
import StackMachine.Proofs.Binary32.Reading
import StackMachine.Proofs.Binary32.SixDigits

/-!
# Writing floats

What is written for a float is a decimal number, and as such it is exactly the float rounded to six
significant digits. Zeros at the end of the places are left out, those of a whole number are not.

* `exists_isTrimmed`: the text of a number with places, without superfluous zeros.
* `ShowsSixDigits`: the parts of a text that shows six digits with an exponent, in one of the two
  notations; `exists_showsSixDigits` says that these are the parts of what is written.
* `toText_sixDigits`: every float is written as what it is rounded to.
-/

namespace StackMachine.Binary32

open Text

variable {cs whole point places tail kept : List Char} {c : Char} {digits n k : Nat}

/-! ## Digits before and behind a point -/

/-- Filled up with zeros, the digits of a number are those of a tenth of it and one more. -/
theorem padLeft_toDigits (width n : Nat) :
    padLeft '0' (width + 2) (Nat.toDigits 10 n) =
      padLeft '0' (width + 1) (Nat.toDigits 10 (n / 10)) ++ [Nat.digitChar (n % 10)] := by
  by_cases hn : n < 10
  · rw [Nat.div_eq_of_lt hn, Nat.mod_eq_of_lt hn, Nat.toDigits_of_lt_base hn, Nat.toDigits_zero]
    simp [padLeft, List.replicate_succ']
  · rw [Nat.toDigits_of_base_le (by decide) (Nat.not_lt.1 hn)]
    simp [padLeft]

/-- The digits of a number, filled up with zeros, are those of its whole part and as many places as
are wanted. -/
theorem exists_padLeft_toDigits (places n : Nat) :
    ∃ tail, padLeft '0' (places + 1) (Nat.toDigits 10 n) =
      Nat.toDigits 10 (n / 10 ^ places) ++ tail ∧ tail.length = places := by
  induction places generalizing n with
  | zero =>
    have hpos : 0 < (Nat.toDigits 10 n).length := Nat.length_toDigits_pos
    have hwidth : 0 + 1 - (Nat.toDigits 10 n).length = 0 := by omega
    refine ⟨[], ?_, rfl⟩
    rw [padLeft, hwidth, Nat.pow_zero, Nat.div_one, List.append_nil]
    rfl
  | succ places ih =>
    obtain ⟨tail, htail, hlength⟩ := ih (n / 10)
    refine ⟨tail ++ [Nat.digitChar (n % 10)], ?_, by rw [List.length_append, hlength]; rfl⟩
    rw [padLeft_toDigits, htail, List.append_assoc, Nat.div_div_eq_div_mul, Nat.pow_succ']

/-- A number with places is written as its whole part, and a point before the places if there are
any. -/
theorem placesText_eq (digits places : Nat) :
    ∃ point tail, placesText digits places = Nat.toDigits 10 (digits / 10 ^ places) ++ point ∧
      IsPlaces point tail ∧ tail.length = places ∧
      IsNumeral 10 (Nat.toDigits 10 (digits / 10 ^ places) ++ tail) digits := by
  have hnumeral := (isNumeral_toDigits digits).padLeft (places + 1)
  obtain ⟨tail, htail, hlength⟩ := exists_padLeft_toDigits places digits
  rw [htail] at hnumeral
  unfold placesText
  dsimp only
  rw [htail]
  split
  · rename_i hplaces
    obtain rfl := List.eq_nil_of_length_eq_zero (hlength.trans hplaces)
    exact ⟨[], [], rfl, .none, hlength, hnumeral⟩
  · have hfront : (Nat.toDigits 10 (digits / 10 ^ places) ++ tail).length - places =
        (Nat.toDigits 10 (digits / 10 ^ places)).length := by
      rw [List.length_append, hlength, Nat.add_sub_cancel]
    rw [hfront, List.take_left, List.drop_left]
    exact ⟨'.' :: tail, tail, rfl, .point tail, hlength, hnumeral⟩

/-! ## Superfluous zeros -/

theorem trimEnd_append (h : ∀ x ∈ cs.getLast?, x ≠ c) (k : Nat) :
    trimEnd c (cs ++ List.replicate k c) = cs := by
  have hcopies : ∀ x ∈ List.replicate k c, decide (x = c) = true := fun x hx =>
    decide_eq_true (List.eq_of_mem_replicate hx)
  have hlast : ∀ x ∈ cs.reverse.head?, decide (x = c) = false := by
    rw [List.head?_reverse]
    exact fun x hx => decide_eq_false (h x hx)
  rw [trimEnd, List.reverse_append, List.reverse_replicate,
    (takeWhile_append_of_head hcopies hlast).2, List.reverse_reverse]

/-- Every text ends in some number of copies of a character, behind another one or nothing. -/
theorem exists_eq_append_replicate (c : Char) (cs : List Char) :
    ∃ kept k, cs = kept ++ List.replicate k c ∧ ∀ x ∈ kept.getLast?, x ≠ c := by
  induction cs using List.reverseRecOn with
  | nil => exact ⟨[], 0, rfl, nofun⟩
  | append_singleton cs d ih =>
    by_cases hd : d = c
    · obtain ⟨kept, k, rfl, hlast⟩ := ih
      refine ⟨kept, k + 1, ?_, hlast⟩
      rw [hd, List.append_assoc, ← List.replicate_succ']
    · refine ⟨cs ++ [d], 0, (List.append_nil _).symm, fun x hx => ?_⟩
      rw [List.getLast?_concat] at hx
      cases hx
      exact hd

theorem trimEnd_eq_self (h : ∀ x ∈ cs.getLast?, x ≠ c) : trimEnd c cs = cs := by
  have happend := trimEnd_append h 0
  rwa [List.replicate_zero, List.append_nil] at happend

/-- Of the places of a number, the zeros at the end are left out, and the point with the last
place. -/
theorem trimFraction_eq (hwhole : ∀ c ∈ whole, c.isDigit = true)
    (hkept : ∀ c ∈ kept, c.isDigit = true) (hlast : ∀ c ∈ kept.getLast?, c ≠ '0') (k : Nat) :
    trimFraction (whole ++ '.' :: (kept ++ List.replicate k '0')) =
      if kept = [] then whole else whole ++ '.' :: kept := by
  have hpoint {l : List Char} (hl : ∀ c ∈ l, c.isDigit = true) : ∀ c ∈ l.getLast?, c ≠ '.' := by
    rintro _ hc rfl
    cases hl _ (List.mem_of_getLast? hc)
  have hlast' : ∀ c ∈ (whole ++ '.' :: kept).getLast?, c ≠ '0' ∧ (kept ≠ [] → c ≠ '.') := by
    rcases List.eq_nil_or_concat kept with rfl | ⟨ds, d, rfl⟩
    · rw [List.getLast?_concat]
      rintro _ ⟨⟩
      exact ⟨by decide, fun h => absurd rfl h⟩
    · rw [List.concat_eq_append] at hlast hkept ⊢
      rw [← List.cons_append, ← List.append_assoc, List.getLast?_concat]
      rw [List.getLast?_concat] at hlast
      exact fun c hc => ⟨hlast c hc, fun _ => hpoint hkept c (by rwa [List.getLast?_concat])⟩
  have hzeros : trimEnd '0' (whole ++ '.' :: (kept ++ List.replicate k '0')) =
      whole ++ '.' :: kept := by
    rw [← List.cons_append, ← List.append_assoc]
    exact trimEnd_append (fun c hc => (hlast' c hc).1) k
  rw [trimFraction, if_pos (List.mem_append_right _ List.mem_cons_self), hzeros]
  split
  · rename_i hnil
    rw [hnil]
    exact trimEnd_append (hpoint hwhole) 1
  · rename_i hne
    exact trimEnd_eq_self fun c hc => (hlast' c hc).2 hne

/-- The parts of a number with places, without superfluous zeros. -/
structure IsTrimmed (digits places : Nat) (whole point kept : List Char) : Prop where
  isPlaces : IsPlaces point kept
  whole_eq : whole = Nat.toDigits 10 (digits / 10 ^ places)
  /-- Read as a decimal number, it is the same. -/
  value : ∃ n, IsNumeral 10 (whole ++ kept) n ∧ n * 10 ^ places = digits * 10 ^ kept.length
  /-- There is no zero at the end of the places, nor a point without places. -/
  last : point = [] ∨ ∃ c ∈ kept.getLast?, c ≠ '0'

theorem exists_isTrimmed (digits places : Nat) :
    ∃ whole point kept, trimFraction (placesText digits places) = whole ++ point ∧
      IsTrimmed digits places whole point kept := by
  obtain ⟨point, tail, htext, hplaces, hlength, hnumeral⟩ := placesText_eq digits places
  rw [htext]
  generalize hwhole : Nat.toDigits 10 (digits / 10 ^ places) = whole at hnumeral
  obtain ⟨-, hdigits, hvalue⟩ := isNumeral_ten_iff.1 hnumeral
  have hwhole' : ∀ c ∈ whole, c.isDigit = true := fun c hc =>
    hdigits c (List.mem_append_left _ hc)
  cases hplaces with
  | none =>
    have htrim : trimFraction (whole ++ []) = whole ++ [] := by
      rw [List.append_nil, trimFraction, if_neg]
      intro hpoint
      cases hwhole' _ hpoint
    exact ⟨whole, [], [], htrim, .none, hwhole.symm, ⟨digits, hnumeral, by rw [← hlength]⟩,
      .inl rfl⟩
  | point =>
    obtain ⟨kept, k, rfl, hlast⟩ := exists_eq_append_replicate '0' tail
    have hkept : ∀ c ∈ kept, c.isDigit = true := fun c hc =>
      hdigits c (List.mem_append_right _ (List.mem_append_left _ hc))
    have hnumeral' : IsNumeral 10 (whole ++ kept) (Nat.ofDigitChars 10 (whole ++ kept) 0) := by
      refine isNumeral_ten_iff.2 ⟨?_, fun c hc => ?_, rfl⟩
      · exact List.append_ne_nil_of_left_ne_nil (hwhole ▸ Nat.toDigits_ne_nil) _
      · exact (List.mem_append.1 hc).elim (hwhole' c) (hkept c)
    have hvalue' : Nat.ofDigitChars 10 (whole ++ kept) 0 * 10 ^ places =
        digits * 10 ^ kept.length := by
      rw [← List.append_assoc, Nat.ofDigitChars_append, Nat.ofDigitChars_replicate_zero] at hvalue
      rw [← hvalue, ← hlength, List.length_append, List.length_replicate, Nat.pow_add]
      ring
    rw [trimFraction_eq hwhole' hkept hlast]
    split
    · rename_i hnil
      subst hnil
      exact ⟨whole, [], [], (List.append_nil _).symm, .none, hwhole.symm, ⟨_, hnumeral', hvalue'⟩,
        .inl rfl⟩
    · rename_i hne
      obtain ⟨c, hc⟩ := Option.isSome_iff_exists.1 (List.getLast?_isSome.2 hne)
      exact ⟨whole, _, kept, rfl, .point kept, hwhole.symm, ⟨_, hnumeral', hvalue'⟩,
        .inr ⟨c, hc, hlast c hc⟩⟩

/-! ## Exponents -/

/-- An exponent is written with its sign and at least two digits. -/
theorem exponentText_spec (e : Int) : IsExponent (exponentText e) e ∧
    ∃ sign digits, exponentText e = 'e' :: sign :: digits ∧ (sign = '+' ∨ sign = '-') ∧
      2 ≤ digits.length := by
  obtain ⟨sign, negative, hchar, hsign, hchars, happly⟩ : ∃ sign negative,
      (if e < 0 then '-' else '+') = sign ∧ IsSign [sign] negative ∧ (sign = '+' ∨ sign = '-') ∧
        applySign negative e.natAbs = e := by
    by_cases he : e < 0
    · refine ⟨'-', true, if_pos he, .minus, .inr rfl, ?_⟩
      rw [applySign, if_pos rfl]
      omega
    · refine ⟨'+', false, if_neg he, .plus, .inl rfl, ?_⟩
      rw [applySign, if_neg Bool.false_ne_true]
      omega
  have hnumeral := (isNumeral_toDigits e.natAbs).padLeft 2
  have hexponent := IsExponent.some (.inl rfl) hsign hnumeral
  rw [happly] at hexponent
  have hlength : 2 ≤ (padLeft '0' 2 (Nat.toDigits 10 e.natAbs)).length := by
    rw [length_padLeft]
    exact Nat.le_max_left _ _
  rw [exponentText, hchar]
  exact ⟨hexponent, sign, _, rfl, hchars, hlength⟩

/-! ## The two notations -/

/-- How a text shows six digits with their exponent: its whole part, the places with the point in
front of them, and a tail with the exponent `e` that stands in it. -/
structure ShowsSixDigits (digits : Nat) (exponent : Int) (whole point places tail : List Char)
    (e : Int) : Prop where
  isPlaces : IsPlaces point places
  isExponent : IsExponent tail e
  /-- Read as a decimal number, the text is exactly what the digits show. -/
  value : ∃ n, IsNumeral 10 (whole ++ places) n ∧
    (n : ℚ) * 10 ^ (e - places.length) = sixDigits digits exponent
  /-- There is no zero at the end of the places, nor a point without places. -/
  last : point = [] ∨ ∃ c ∈ places.getLast?, c ≠ '0'
  /-- The text has an exponent for very small and for large numbers. -/
  scientific_iff : tail ≠ [] ↔ exponent < -4 ∨ 6 ≤ exponent
  /-- Then one digit stands before any point, and the exponent has a sign and two digits or more. -/
  scientific : tail ≠ [] → (∃ c, c ≠ '0' ∧ whole = [c]) ∧ e = exponent ∧
    ∃ sign ds, tail = 'e' :: sign :: ds ∧ (sign = '+' ∨ sign = '-') ∧ 2 ≤ ds.length
  /-- Without an exponent, the whole part keeps all its zeros. -/
  positional : tail = [] → whole = Nat.toDigits 10 ⌊sixDigits digits exponent⌋₊

theorem sixDigits_eq_div {places : Nat} (digits : Nat) {exponent : Int}
    (h : exponent = 5 - (places : Int)) :
    sixDigits digits exponent = (digits : ℚ) / (10 ^ places : Nat) := by
  rw [sixDigits, h, show 5 - (places : Int) - 5 = -places by omega, zpow_neg, zpow_natCast,
    Nat.cast_pow, div_eq_mul_inv]
  rfl

/-- The value of a trimmed text, behind which an exponent may stand. -/
theorem IsTrimmed.exists_value {places : Nat} (h : IsTrimmed digits places whole point kept)
    (e : Int) : ∃ n, IsNumeral 10 (whole ++ kept) n ∧
      (n : ℚ) * 10 ^ (e - kept.length) = digits * 10 ^ (e - places) := by
  obtain ⟨n, hn, hvalue⟩ := h.value
  refine ⟨n, hn, ?_⟩
  have hvalue : (n : ℚ) * 10 ^ places = digits * 10 ^ kept.length := by exact_mod_cast hvalue
  have hten : (10 : ℚ) ≠ 0 := by norm_num
  rw [zpow_sub₀ hten, zpow_sub₀ hten, zpow_natCast, zpow_natCast, mul_div_assoc', mul_div_assoc',
    div_eq_div_iff (by positivity) (by positivity), mul_right_comm, hvalue, mul_right_comm]

theorem showsSixDigits_scientific {exponent : Int} (hsix : HasSixDigits digits)
    (he : exponent < -4 ∨ 6 ≤ exponent) (h : IsTrimmed digits 5 whole point kept) :
    ShowsSixDigits digits exponent whole point kept (exponentText exponent) exponent := by
  obtain ⟨hexponent, sign, ds, htail, hsign⟩ := exponentText_spec exponent
  have hne : exponentText exponent ≠ [] := by
    rw [htail]
    exact List.cons_ne_nil _ _
  have hfirst : 1 ≤ digits / 10 ^ 5 ∧ digits / 10 ^ 5 < 10 := by
    obtain ⟨hlow, hhigh⟩ := hsix
    omega
  have hwhole : whole = [Nat.digitChar (digits / 10 ^ 5)] := by
    rw [h.whole_eq, Nat.toDigits_of_lt_base hfirst.2]
  have hzero : ∀ d < 10, 1 ≤ d → Nat.digitChar d ≠ '0' := by decide
  exact {
    isPlaces := h.isPlaces
    isExponent := hexponent
    value := h.exists_value exponent
    last := h.last
    scientific_iff := iff_of_true hne he
    scientific := fun _ => ⟨⟨_, hzero _ hfirst.2 hfirst.1, hwhole⟩, rfl, sign, ds, htail, hsign⟩
    positional := fun hnil => absurd hnil hne }

theorem showsSixDigits_positional {exponent : Int} (he : ¬ (exponent < -4 ∨ 6 ≤ exponent))
    (h : IsTrimmed digits (5 - exponent).toNat whole point kept) :
    ShowsSixDigits digits exponent whole point kept [] 0 := by
  have hexponent : exponent = 5 - ((5 - exponent).toNat : Int) := by omega
  have hvalue : sixDigits digits exponent = digits * 10 ^ (0 - ((5 - exponent).toNat : Int)) := by
    rw [sixDigits]
    congr 2
    omega
  exact {
    isPlaces := h.isPlaces
    isExponent := .none
    value := hvalue ▸ h.exists_value 0
    last := h.last
    scientific_iff := iff_of_false (fun hne => hne rfl) he
    scientific := fun hne => absurd rfl hne
    positional := fun _ => by
      rw [h.whole_eq, sixDigits_eq_div digits hexponent, Nat.floor_div_eq_div] }

/-- What is written for a positive number of units shows its significant digits. -/
theorem exists_showsSixDigits (hn : 0 < n) :
    ∃ whole point places tail e, unsignedText n = whole ++ point ++ tail ∧
      ShowsSixDigits (significant n).digits (significant n).exponent whole point places tail e := by
  have hsix := (isSixDigits_significant hn).six
  have hround := scaledRound_significant hn
  unfold unsignedText
  generalize significant n = rounded at hsix hround ⊢
  obtain ⟨digits, exponent⟩ := rounded
  dsimp only at hsix hround ⊢
  split
  · rename_i he
    obtain ⟨whole, point, kept, htext, htrimmed⟩ := exists_isTrimmed digits 5
    exact ⟨whole, point, kept, _, exponent, by rw [htext],
      showsSixDigits_scientific hsix he htrimmed⟩
  · rename_i he
    have hplaces : ((5 - exponent).toNat : Int) = 5 - exponent := by omega
    rw [hplaces, hround]
    obtain ⟨whole, point, kept, htext, htrimmed⟩ :=
      exists_isTrimmed digits (5 - exponent).toNat
    exact ⟨whole, point, kept, [], 0, by rw [htext, List.append_nil],
      showsSixDigits_positional he htrimmed⟩

/-- A float that is a number and not zero is written as the nearest number with six significant
digits, the even one of two, behind the sign of the float. It is written with an exponent if that is
below -4 or from 6 on, and positionally otherwise, in both notations exactly and without superfluous
zeros. -/
theorem toText_sixDigits {bits : UInt32} (hnan : isNaN bits = false)
    (hinfinite : isInfinite bits = false) (hzero : units bits ≠ 0) :
    ∃ digits exponent, IsSixDigits (value (magnitude bits)) digits exponent ∧
      (∀ d e, IsSixDigits (value (magnitude bits)) d e → d = digits ∧ e = exponent) ∧
      ∃ whole point places tail e,
        (toText bits).toList =
          (if isNegative bits then ['-'] else []) ++ (whole ++ point ++ tail) ∧
        ShowsSixDigits digits exponent whole point places tail e := by
  have hn : 0 < units bits := Nat.pos_of_ne_zero hzero
  have hsix := isSixDigits_significant hn
  rw [← value_magnitude] at hsix
  obtain ⟨whole, point, places, tail, e, htext, hshows⟩ := exists_showsSixDigits hn
  refine ⟨_, _, hsix, fun d e h => h.unique hsix, whole, point, places, tail, e, ?_, hshows⟩
  rw [toText, hnan, hinfinite, if_neg Bool.false_ne_true, if_neg Bool.false_ne_true, if_neg hzero,
    String.toList_ofList, htext]

/-- The float 999999.6875 is rounded to a million, which has an exponent. -/
theorem toText_sixDigits_carry :
    isNaN 0x497423fb = false ∧ isInfinite 0x497423fb = false ∧ units 0x497423fb ≠ 0 ∧
      toText 0x497423fb = "1e+06" ∧ IsSixDigits (value (magnitude 0x497423fb)) 100000 6 ∧
      ∃ whole point places tail e, "1e+06".toList = whole ++ point ++ tail ∧
        ShowsSixDigits 100000 6 whole point places tail e := by
  have hnan : isNaN 0x497423fb = false := by decide
  have hinfinite : isInfinite 0x497423fb = false := by decide
  have hzero : units 0x497423fb ≠ 0 := by decide +kernel
  have htext : toText 0x497423fb = "1e+06" := by decide +kernel
  have hsignificant : significant (units 0x497423fb) = ⟨100000, 6⟩ := by decide +kernel
  obtain ⟨digits, exponent, -, hunique, whole, point, places, tail, e, hparts, hshows⟩ :=
    toText_sixDigits hnan hinfinite hzero
  have hsix := isSixDigits_significant (Nat.pos_of_ne_zero hzero)
  rw [hsignificant, ← value_magnitude] at hsix
  obtain ⟨rfl, rfl⟩ := hunique _ _ hsix
  rw [htext] at hparts
  exact ⟨hnan, hinfinite, hzero, htext, hsix, whole, point, places, tail, e, hparts, hshows⟩

end StackMachine.Binary32
