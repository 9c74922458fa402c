import Mathlib.Algebra.Order.Field.Power
import Mathlib.Data.List.TakeWhile
import Mathlib.Tactic.GCongr
import StackMachine.Binary32.Decimal
import StackMachine.Proofs.Binary32.Rounding
import StackMachine.Proofs.Text.Numerals

/-!
# Reading floats

The texts that are read as floats, told without a reader: decimal numbers, which consist of an
optional sign, digits with an optional point, and an optional exponent, and the names of infinity and
of no number behind an optional sign. The reader accepts exactly these, and rounds the numbers to the
nearest float.

An exponent of more digits than any float could need is not read to its end. That does not show
unless there are as many digits in front of it, to bring the number back into the range of floats.

* `IsDecimal`: decimal numbers, with their digits and their exponent.
* `cutExponent`: what is read of an exponent.
* `Denotes`: the texts that are read as floats, with these floats.
* `isNearest_ofDecimal`: digits and an exponent are rounded to the nearest float.
* `read?_eq_some_iff`: the reader accepts what denotes a float.
* `exists_read?_iff`, `read?_of_isDecimal`: this without the names, where the exponent is read to its
  end or does not matter.
-/

namespace StackMachine.Binary32

open Text

/-! ## Texts of decimal numbers -/

/-- What stands behind the whole part of a decimal number: nothing, or a point and decimal
places. -/
inductive IsPlaces : List Char → List Char → Prop
  | none : IsPlaces [] []
  | point (places : List Char) : IsPlaces ('.' :: places) places

/-- The exponent of a decimal number: nothing, or `e` with an optional sign and digits. -/
inductive IsExponent : List Char → Int → Prop
  | none : IsExponent [] 0
  | some {e : Char} {sign digits : List Char} {negative : Bool} {n : Nat} :
      e = 'e' ∨ e = 'E' → IsSign sign negative → IsNumeral 10 digits n →
      IsExponent (e :: (sign ++ digits)) (applySign negative n)

/-- A decimal number without sign: all its digits as a whole number, how many of them are decimal
places, and its exponent. -/
inductive IsUnsignedDecimal : List Char → Nat → Nat → Int → Prop
  | mk {whole point places tail : List Char} {n : Nat} {e : Int} :
      IsPlaces point places → IsNumeral 10 (whole ++ places) n → IsExponent tail e →
      IsUnsignedDecimal (whole ++ point ++ tail) n places.length e

/-- A decimal number. -/
def IsDecimal (cs : List Char) (negative : Bool) (digits places : Nat) (exponent : Int) : Prop :=
  ∃ sign body, cs = sign ++ body ∧ IsSign sign negative ∧
    IsUnsignedDecimal body digits places exponent

/-- What is read of the value of digits: that of the digits up to the first one that brings it to the
limit. -/
def cutDigits (n : Nat) : Nat :=
  if n / 10 < exponentLimit then n else cutDigits (n / 10)
termination_by n
decreasing_by
  unfold exponentLimit at *
  omega

/-- What is read of an exponent. -/
def cutExponent (e : Int) : Int :=
  applySign (e < 0) (cutDigits e.natAbs)

/-- The names of infinity and of no number, in any case, with their bit patterns. -/
inductive IsName (cs : List Char) : Nat → Prop
  | infinity : cs.map Char.toLower = "inf".toList ∨ cs.map Char.toLower = "infinity".toList →
      IsName cs infinity
  | quietNaN : cs.map Char.toLower = "nan".toList → IsName cs quietNaN

/-- The texts that are read as floats: a name behind a sign is read as what it names, and a decimal
number as the float nearest to it, or to what is read of it. -/
inductive Denotes : List Char → UInt32 → Prop
  | name {sign body : List Char} {negative : Bool} {m : Nat} :
      IsSign sign negative → IsName body m → Denotes (sign ++ body) (ofParts negative m)
  | decimal {cs : List Char} {negative : Bool} {digits places m : Nat} {e : Int} :
      IsDecimal cs negative digits places e →
      IsNearest (digits * 10 ^ (cutExponent e - places)) m → Denotes cs (ofParts negative m)

/-! ## Rounding decimal numbers -/

variable {digits n m : Nat} {exponent e e' : Int} {cs tail : List Char}

theorem two_pow_le_decimal (hdigits : digits ≠ 0) (h : 39 < exponent) :
    (2 : ℚ) ^ 128 ≤ digits * 10 ^ exponent := by
  have hone : (1 : ℚ) ≤ digits := by exact_mod_cast Nat.pos_of_ne_zero hdigits
  calc (2 : ℚ) ^ 128 ≤ 1 * 10 ^ (40 : Int) := by norm_num
    _ ≤ (digits : ℚ) * 10 ^ exponent :=
      mul_le_mul hone (zpow_le_zpow_right₀ (by norm_num) h) (by positivity) (by positivity)

theorem decimal_mul_lt_one (hdigits : digits < 10 ^ n) (h : exponent + n ≤ -46) :
    (digits * 10 ^ exponent : ℚ) * 2 ^ 150 < 1 := by
  have hlt : (digits : ℚ) < 10 ^ n := by exact_mod_cast hdigits
  calc (digits * 10 ^ exponent : ℚ) * 2 ^ 150
      ≤ 10 ^ n * 10 ^ exponent * 2 ^ 150 := by gcongr
    _ = 10 ^ (exponent + n) * 2 ^ 150 := by
        rw [zpow_add₀ (by norm_num), zpow_natCast, mul_comm (10 ^ n : ℚ)]
    _ ≤ 10 ^ (-46 : Int) * 2 ^ 150 := by
        gcongr
        norm_num
    _ < 1 := by norm_num

/-- A power of ten is at least the same power of eight. -/
theorem mul_two_pow_lt {k : Nat} (h : digits.log2 + 151 < 3 * k) :
    digits * 2 ^ 150 < 10 ^ k :=
  calc digits * 2 ^ 150 < 2 ^ (digits.log2 + 1) * 2 ^ 150 :=
        Nat.mul_lt_mul_of_pos_right Nat.lt_log2_self (Nat.two_pow_pos 150)
    _ ≤ 2 ^ (3 * k) := by
        rw [← Nat.pow_add]
        exact Nat.pow_le_pow_right two_pos (by omega)
    _ ≤ 10 ^ k := by
        rw [Nat.pow_mul]
        exact Nat.pow_le_pow_left (by decide) k

/-- A decimal number is rounded to the nearest float. -/
theorem isNearest_ofDecimal (digits : Nat) (exponent : Int) :
    IsNearest (digits * 10 ^ exponent) (ofDecimal digits exponent) := by
  unfold ofDecimal
  by_cases hdigits : digits = 0
  · rw [if_pos hdigits, hdigits, Nat.cast_zero, zero_mul]
    exact isNearest_zero (le_refl 0) (by norm_num)
  · rw [if_neg hdigits]
    cases exponent with
    | ofNat e =>
      dsimp only
      by_cases hlarge : 39 < e
      · rw [if_pos hlarge]
        exact isNearest_infinity (two_pow_le_decimal hdigits (Int.ofNat_lt.2 hlarge))
      · rw [if_neg hlarge, Int.ofNat_eq_natCast, zpow_natCast]
        have hratio := isNearest_ofRatio (digits * Nat.pow 10 e) one_pos
        have hpow : ((Nat.pow 10 e : Nat) : ℚ) = 10 ^ e := Nat.cast_pow 10 e
        rwa [Nat.cast_one, div_one, Nat.cast_mul, hpow] at hratio
    | negSucc e =>
      dsimp only
      rw [zpow_negSucc, ← div_eq_mul_inv]
      by_cases hsmall : digits.log2 + 151 < 3 * (e + 1)
      · rw [if_pos hsmall]
        refine isNearest_zero (by positivity) ?_
        rw [div_mul_eq_mul_div, div_lt_one (by positivity)]
        exact_mod_cast mul_two_pow_lt hsmall
      · rw [if_neg hsmall]
        have hratio := isNearest_ofRatio digits (Nat.pow_pos (n := e + 1) (by decide : 0 < 10))
        rwa [Nat.cast_pow] at hratio

/-! ## Exponents -/

/-- That two exponents are the same, or both beyond a limit on the same side. -/
def AgreeWithin (limit : Nat) (e e' : Int) : Prop :=
  e = e' ∨ (limit : Int) ≤ e ∧ (limit : Int) ≤ e' ∨ e ≤ -(limit : Int) ∧ e' ≤ -(limit : Int)

/-- Exponents that many digits cannot balance are all alike. -/
theorem IsNearest.of_agreeWithin {places limit : Nat} (hdigits : digits < 10 ^ n)
    (hlimit : n + 46 ≤ limit) (hplaces : places + 46 ≤ limit) (h : AgreeWithin limit e e')
    (hm : IsNearest (digits * 10 ^ (e - places)) m) :
    IsNearest (digits * 10 ^ (e' - places)) m := by
  obtain rfl | ⟨he, he'⟩ | ⟨he, he'⟩ := h
  · exact hm
  · by_cases hzero : digits = 0
    · simpa [hzero] using hm
    · obtain rfl := hm.unique (isNearest_infinity (two_pow_le_decimal hzero (by omega)))
      exact isNearest_infinity (two_pow_le_decimal hzero (by omega))
  · obtain rfl := hm.unique
      (isNearest_zero (by positivity) (decimal_mul_lt_one hdigits (by omega)))
    exact isNearest_zero (by positivity) (decimal_mul_lt_one hdigits (by omega))

theorem cutDigits_of_lt (h : n / 10 < exponentLimit) : cutDigits n = n := by
  rw [cutDigits, if_pos h]

theorem cutDigits_of_le (h : exponentLimit ≤ n / 10) : cutDigits n = cutDigits (n / 10) := by
  rw [cutDigits, if_neg (Nat.not_lt.2 h)]

theorem le_cutDigits (h : exponentLimit ≤ n) : exponentLimit ≤ cutDigits n := by
  induction n using Nat.strong_induction_on with
  | _ n ih =>
    by_cases hcut : n / 10 < exponentLimit
    · rwa [cutDigits_of_lt hcut]
    · rw [cutDigits_of_le (Nat.not_lt.1 hcut)]
      refine ih _ ?_ (Nat.not_lt.1 hcut)
      unfold exponentLimit at h
      omega

/-- Digits are read until they reach the limit. -/
theorem exponentOfDigits_eq_cutDigits {ds : List Char} (h : ∀ c ∈ ds, c.isDigit = true) :
    exponentOfDigits ds = cutDigits (Nat.ofDigitChars 10 ds 0) := by
  induction ds using List.reverseRecOn with
  | nil => exact (cutDigits_of_lt (by decide)).symm
  | append_singleton ds c ih =>
    rw [List.forall_mem_append, List.forall_mem_singleton] at h
    have hc := toNat_of_isDigit h.2
    have hzero : '0'.toNat = 48 := rfl
    have hlast (n : Nat) : Nat.ofDigitChars 10 [c] n = 10 * n + (c.toNat - '0'.toNat) := rfl
    have hdiv (n : Nat) : (10 * n + (c.toNat - '0'.toNat)) / 10 = n := by omega
    have hfold : exponentOfDigits (ds ++ [c]) =
        if exponentOfDigits ds < exponentLimit then Nat.ofDigitChars 10 [c] (exponentOfDigits ds)
        else exponentOfDigits ds := by
      rw [exponentOfDigits, List.foldl_append]
      rfl
    rw [hfold, ih h.1, Nat.ofDigitChars_append, hlast, hlast]
    by_cases hlt : Nat.ofDigitChars 10 ds 0 < exponentLimit
    · have hcut : cutDigits (Nat.ofDigitChars 10 ds 0) = Nat.ofDigitChars 10 ds 0 :=
        cutDigits_of_lt (Nat.lt_of_le_of_lt (Nat.div_le_self _ _) hlt)
      rw [hcut, if_pos hlt, cutDigits_of_lt (by rwa [hdiv])]
    · have hle := Nat.not_lt.1 hlt
      have hcut := cutDigits_of_le (n := 10 * Nat.ofDigitChars 10 ds 0 + (c.toNat - '0'.toNat))
        (by rwa [hdiv])
      rw [if_neg (Nat.not_lt.2 (le_cutDigits hle)), hcut, hdiv]

theorem agreeWithin_cutExponent (e : Int) : AgreeWithin exponentLimit (cutExponent e) e := by
  unfold cutExponent AgreeWithin applySign
  by_cases hlt : e.natAbs < exponentLimit
  · rw [cutDigits_of_lt (Nat.lt_of_le_of_lt (Nat.div_le_self _ _) hlt)]
    by_cases hneg : e < 0
    · simp only [hneg, decide_true, if_true]
      omega
    · simp only [hneg, decide_false, Bool.false_eq_true, if_false]
      omega
  · have hcut := le_cutDigits (Nat.not_lt.1 hlt)
    by_cases hneg : e < 0
    · simp only [hneg, decide_true, if_true]
      omega
    · simp only [hneg, decide_false, Bool.false_eq_true, if_false]
      omega

theorem cutExponent_zero : cutExponent 0 = 0 := by
  rw [cutExponent, Int.natAbs_zero, cutDigits_of_lt (by decide)]
  rfl

theorem cutExponent_applySign (negative : Bool) (n : Nat) :
    cutExponent (applySign negative n) = applySign negative (cutDigits n) := by
  cases negative with
  | false =>
    have hneg : ¬ (n : Int) < 0 := by omega
    simp [cutExponent, applySign, hneg]
  | true =>
    rcases Nat.eq_zero_or_pos n with rfl | hpos
    · rw [cutDigits_of_lt (by decide)]
      exact cutExponent_zero
    · simp [cutExponent, applySign, hpos]

/-- The characters that can stand in front of an exponent. -/
theorem head_of_readExponent? (h : readExponent? tail = some e) :
    ∀ c ∈ tail.head?, c = 'e' ∨ c = 'E' := by
  cases tail with
  | nil => nofun
  | cons c rest =>
    rintro _ ⟨⟩
    unfold readExponent? at h
    dsimp only at h
    split at h
    · rename_i hc
      exact hc.1
    · cases h

theorem readExponent?_eq_some_iff :
    readExponent? tail = some e' ↔ ∃ e, IsExponent tail e ∧ cutExponent e = e' := by
  have hvalue {ds : List Char} {n : Nat} (negative : Bool) (hds : IsNumeral 10 ds n) :
      applySign negative (exponentOfDigits ds) = cutExponent (applySign negative n) := by
    obtain ⟨-, hall, rfl⟩ := isNumeral_ten_iff.1 hds
    rw [exponentOfDigits_eq_cutDigits hall, cutExponent_applySign]
  constructor
  · intro h
    cases tail with
    | nil =>
      cases h
      exact ⟨0, .none, cutExponent_zero⟩
    | cons c rest =>
      obtain ⟨sign, hsign, hrest⟩ := exists_sign rest
      unfold readExponent? at h
      dsimp only at h
      split at h
      · rename_i hc
        have hnumeral := isNumeral_ten_iff.2 ⟨hc.2.1, List.all_eq_true.1 hc.2.2, rfl⟩
        have hexponent := IsExponent.some hc.1 hsign hnumeral
        rw [← hrest] at hexponent
        exact ⟨_, hexponent, (hvalue _ hnumeral).symm.trans (Option.some.inj h)⟩
      · cases h
  · rintro ⟨e, he, rfl⟩
    cases he with
    | none => exact congrArg some cutExponent_zero.symm
    | @some c sign ds negative n hc hsign hds =>
      obtain ⟨hne, hall, -⟩ := isNumeral_ten_iff.1 hds
      have hhead : ∀ c ∈ ds.head?, c ≠ '+' ∧ c ≠ '-' := by
        intro c hc
        have := hall c (List.mem_of_mem_head? hc)
        constructor <;> rintro rfl <;> cases this
      simp only [readExponent?, splitSign_append hsign hhead]
      rw [if_pos ⟨hc, hne, List.all_eq_true.2 hall⟩, hvalue negative hds]

/-! ## Digits and places -/

/-- The bit pattern of a decimal number without sign that is cut into its parts. -/
def readParts? (whole places tail : List Char) : Option Nat :=
  if whole.isEmpty && places.isEmpty then none
  else do
    let exponent ← readExponent? tail
    return ofDecimal (Nat.ofDigitChars 10 (whole ++ places) 0) (exponent - places.length)

variable {whole point places : List Char}

theorem readParts?_eq_some_iff (hdigits : ∀ c ∈ whole ++ places, c.isDigit = true) :
    readParts? whole places tail = some m ↔ ∃ n e, IsNumeral 10 (whole ++ places) n ∧
      readExponent? tail = some e ∧ ofDecimal n (e - places.length) = m := by
  have hempty : (whole.isEmpty && places.isEmpty) = true ↔ whole ++ places = [] := by
    simp [List.isEmpty_iff]
  unfold readParts?
  simp only [hempty, isNumeral_ten_iff]
  by_cases hnil : whole ++ places = []
  · simp [hnil]
  · rw [if_neg hnil]
    simp only [Option.bind_eq_bind, Option.bind_eq_some_iff, Option.pure_def, Option.some.injEq]
    constructor
    · rintro ⟨e, he, hm⟩
      exact ⟨_, e, ⟨hnil, hdigits, rfl⟩, he, hm⟩
    · rintro ⟨_, e, ⟨-, -, rfl⟩, he, hm⟩
      exact ⟨e, he, hm⟩

/-- Every text is cut into digits, places and a rest. -/
theorem exists_parts (cs : List Char) :
    ∃ whole point places tail, cs = whole ++ point ++ tail ∧ IsPlaces point places ∧
      (∀ c ∈ whole ++ places, c.isDigit = true) ∧
      readUnsigned? cs = readParts? whole places tail := by
  have hwhole : ∀ c ∈ cs.takeWhile Char.isDigit, c.isDigit = true :=
    fun c hc => List.mem_takeWhile_imp hc
  have hcs := (List.takeWhile_append_dropWhile (p := Char.isDigit) (l := cs)).symm
  unfold readUnsigned?
  generalize cs.takeWhile Char.isDigit = whole at hwhole hcs
  generalize cs.dropWhile Char.isDigit = rest at hcs
  subst hcs
  dsimp only
  split
  · rename_i rest
    refine ⟨whole, _, rest.takeWhile Char.isDigit, rest.dropWhile Char.isDigit, ?_, .point _,
      fun c hc => ?_, rfl⟩
    · rw [List.append_assoc, List.cons_append, List.takeWhile_append_dropWhile]
    · exact (List.mem_append.1 hc).elim (hwhole c) fun hc => List.mem_takeWhile_imp hc
  · refine ⟨whole, [], [], rest, by rw [List.append_nil], .none, ?_, rfl⟩
    rwa [List.append_nil]

/-- What is put together from parts is cut into the same parts. -/
theorem readUnsigned?_append (hplaces : IsPlaces point places)
    (hdigits : ∀ c ∈ whole ++ places, c.isDigit = true)
    (htail : ∀ c ∈ tail.head?, c = 'e' ∨ c = 'E') :
    readUnsigned? (whole ++ point ++ tail) = readParts? whole places tail := by
  have hwhole : ∀ c ∈ whole, c.isDigit = true := fun c hc => hdigits c (List.mem_append_left _ hc)
  have hhead : ∀ c ∈ tail.head?, c.isDigit = false := by
    intro c hc
    obtain rfl | rfl := htail c hc <;> rfl
  unfold readUnsigned?
  cases hplaces with
  | none =>
    obtain ⟨htake, hdrop⟩ := takeWhile_append_of_head hwhole hhead
    rw [List.append_assoc, List.nil_append, htake, hdrop]
    cases tail with
    | nil => rfl
    | cons c rest => obtain rfl | rfl := htail c rfl <;> rfl
  | point =>
    obtain ⟨htake, hdrop⟩ :=
      takeWhile_append_of_head (r := '.' :: (places ++ tail)) hwhole (by rintro _ ⟨⟩; rfl)
    obtain ⟨htake', hdrop'⟩ :=
      takeWhile_append_of_head (fun c hc => hdigits c (List.mem_append_right _ hc)) hhead
    rw [List.append_assoc, List.cons_append, htake, hdrop]
    change readParts? whole ((places ++ tail).takeWhile Char.isDigit)
      ((places ++ tail).dropWhile Char.isDigit) = _
    rw [htake', hdrop']

/-- What a decimal number without sign consists of, as it is read. -/
theorem readUnsigned?_eq_some_iff :
    readUnsigned? cs = some m ↔ ∃ whole point places tail n e,
      cs = whole ++ point ++ tail ∧ IsPlaces point places ∧ IsNumeral 10 (whole ++ places) n ∧
        readExponent? tail = some e ∧ ofDecimal n (e - places.length) = m := by
  constructor
  · intro h
    obtain ⟨whole, point, places, tail, hcs, hplaces, hdigits, hread⟩ := exists_parts cs
    obtain ⟨n, e, hparts⟩ := (readParts?_eq_some_iff hdigits).1 (hread ▸ h)
    exact ⟨whole, point, places, tail, n, e, hcs, hplaces, hparts⟩
  · rintro ⟨whole, point, places, tail, n, e, rfl, hplaces, hnumeral, htail, hm⟩
    have hdigits := (isNumeral_ten_iff.1 hnumeral).2.1
    rw [readUnsigned?_append hplaces hdigits (head_of_readExponent? htail)]
    exact (readParts?_eq_some_iff hdigits).2 ⟨n, e, hnumeral, htail, hm⟩

/-! ## Texts that are accepted -/

/-- A decimal number without sign is read as the float nearest to what is read of it. -/
theorem readUnsigned?_eq_some_iff_isNearest :
    readUnsigned? cs = some m ↔ ∃ digits places e, IsUnsignedDecimal cs digits places e ∧
      IsNearest (digits * 10 ^ (cutExponent e - places)) m := by
  rw [readUnsigned?_eq_some_iff]
  constructor
  · rintro ⟨whole, point, places, tail, n, _, rfl, hplaces, hnumeral, htail, rfl⟩
    obtain ⟨e, he, rfl⟩ := readExponent?_eq_some_iff.1 htail
    exact ⟨n, _, e, .mk hplaces hnumeral he, isNearest_ofDecimal _ _⟩
  · rintro ⟨n, _, e, @⟨whole, point, places, tail, _, _, hplaces, hnumeral, htail⟩, hm⟩
    exact ⟨whole, point, places, tail, n, _, rfl, hplaces, hnumeral,
      readExponent?_eq_some_iff.2 ⟨e, htail, rfl⟩, (isNearest_ofDecimal _ _).unique hm⟩

theorem readWord?_eq_some_iff : readWord? cs = some m ↔ IsName cs m := by
  have hnan : "nan".toList ≠ "inf".toList ∧ "nan".toList ≠ "infinity".toList := by decide
  unfold readWord?
  dsimp only
  constructor
  · intro h
    split at h
    · rename_i hname
      cases h
      exact .infinity hname
    · split at h
      · rename_i hname
        cases h
        exact .quietNaN hname
      · cases h
  · rintro (hname | hname)
    · rw [if_pos hname]
    · rw [hname, if_neg (not_or_intro hnan.1 hnan.2), if_pos rfl]

/-- A name begins with one of two letters. -/
theorem IsName.head (h : IsName cs m) : ∀ c ∈ cs.head?, c.toLower = 'i' ∨ c.toLower = 'n' := by
  intro c hc
  have hlower : some c.toLower = (cs.map Char.toLower).head? := by
    rw [List.head?_map, Option.mem_def.1 hc, Option.map_some]
  rcases h with (hname | hname) | hname
  all_goals rw [hname] at hlower
  · exact .inl (Option.some.inj hlower)
  · exact .inl (Option.some.inj hlower)
  · exact .inr (Option.some.inj hlower)

theorem IsName.ne_nil (h : IsName cs m) : cs ≠ [] := by
  rintro rfl
  rcases h with (hname | hname) | hname <;> cases hname

theorem IsUnsignedDecimal.head {places : Nat} (h : IsUnsignedDecimal cs digits places e) :
    ∀ c ∈ cs.head?, c.isDigit = true ∨ c = '.' := by
  obtain @⟨whole, point, places, tail, _, _, hplaces, hnumeral, -⟩ := h
  obtain ⟨d, rest, hcons, hd⟩ := hnumeral.exists_cons
  rintro c hc
  cases whole with
  | cons w whole =>
    obtain rfl := (List.cons.inj hcons).1
    cases hc
    exact .inl hd
  | nil =>
    cases hplaces with
    | none => cases hcons
    | point =>
      cases hc
      exact .inr rfl

/-- A decimal number is no name: it begins with a digit or a point. -/
theorem IsUnsignedDecimal.readWord?_eq_none {places : Nat}
    (h : IsUnsignedDecimal cs digits places e) : readWord? cs = none := by
  rw [Option.eq_none_iff_forall_ne_some]
  intro m hm
  have hname := readWord?_eq_some_iff.1 hm
  obtain ⟨c, hc⟩ := Option.isSome_iff_exists.1 (List.isSome_head?.2 hname.ne_nil)
  rcases h.head c hc with hdigit | rfl
  · have hlower := hname.head c hc
    rw [toLower_of_isDigit hdigit] at hlower
    rcases hlower with rfl | rfl <;> cases hdigit
  · exact absurd (hname.head '.' hc) (by decide)

/-- What is read of an exponent does as well as the exponent, unless a huge one stands behind a huge
number of digits. -/
theorem IsUnsignedDecimal.isNearest_of_cutExponent {places : Nat}
    (h : IsUnsignedDecimal cs digits places e)
    (hlimit : cs.length ≤ 65000 ∨ e.natAbs < exponentLimit)
    (hm : IsNearest (digits * 10 ^ (cutExponent e - places)) m) :
    IsNearest (digits * 10 ^ (e - places)) m := by
  have hagree := agreeWithin_cutExponent e
  obtain @⟨whole, point, places, tail, _, _, hplaces, hnumeral, -⟩ := h
  rcases hlimit with hlength | hsmall
  · have hle : places.length ≤ point.length := by
      cases hplaces with
      | none => exact Nat.le_refl 0
      | point => exact Nat.le_succ _
    simp only [List.length_append] at hlength
    refine hm.of_agreeWithin (hnumeral.lt_pow (by decide)) ?_ ?_ hagree
    · rw [List.length_append, exponentLimit]
      omega
    · rw [exponentLimit]
      omega
  · have heq : cutExponent e = e := by
      unfold AgreeWithin at hagree
      omega
    rwa [heq] at hm

theorem read?_eq (cs : List Char) : read? cs =
    ((readWord? (splitSign cs).2).or (readUnsigned? (splitSign cs).2)).map
      (ofParts (splitSign cs).1) :=
  rfl

/-- The reader of floats accepts what denotes a float, and nothing else. -/
theorem read?_eq_some_iff {bits : UInt32} : read? cs = some bits ↔ Denotes cs bits := by
  rw [read?_eq, Option.map_eq_some_iff]
  simp only [Option.or_eq_some_iff, readWord?_eq_some_iff, readUnsigned?_eq_some_iff_isNearest]
  constructor
  · rintro ⟨m, hm, rfl⟩
    obtain ⟨sign, hsign, hcs⟩ := exists_sign cs
    rcases hm with hname | ⟨-, digits, places, e, hbody, hnearest⟩
    · have hdenotes := Denotes.name hsign hname
      rwa [← hcs] at hdenotes
    · exact .decimal ⟨sign, _, hcs, hsign, hbody⟩ hnearest
  · rintro (@⟨sign, body, negative, m, hsign, hname⟩ | ⟨⟨sign, body, rfl, hsign, hbody⟩, hm⟩)
    · have hhead : ∀ c ∈ body.head?, c ≠ '+' ∧ c ≠ '-' := by
        intro c hc
        rcases hname.head c hc with hlower | hlower
        all_goals constructor <;> rintro rfl <;> cases hlower
      rw [splitSign_append hsign hhead]
      exact ⟨m, .inl hname, rfl⟩
    · have hhead : ∀ c ∈ body.head?, c ≠ '+' ∧ c ≠ '-' := by
        intro c hc
        rcases hbody.head c hc with hdigit | rfl
        · constructor <;> rintro rfl <;> cases hdigit
        · decide
      rw [splitSign_append hsign hhead]
      exact ⟨_, .inr ⟨hbody.readWord?_eq_none, _, _, _, hbody, hm⟩, rfl⟩

/-- A text without the letter that all names have is accepted exactly if it is a decimal number. -/
theorem exists_read?_iff (h : ∀ c ∈ cs, c.toLower ≠ 'n') :
    (∃ bits, read? cs = some bits) ↔
      ∃ negative digits places e, IsDecimal cs negative digits places e := by
  simp only [read?_eq_some_iff]
  constructor
  · rintro ⟨_, @⟨sign, body, _, m, -, hname⟩ | ⟨hdecimal, -⟩⟩
    · have hmem : 'n' ∈ body.map Char.toLower := by
        rcases hname with (hname | hname) | hname <;> rw [hname] <;> decide
      obtain ⟨c, hc, hlower⟩ := List.mem_map.1 hmem
      exact absurd hlower (h c (List.mem_append_right _ hc))
    · exact ⟨_, _, _, _, hdecimal⟩
  · rintro ⟨negative, digits, places, e, hdecimal⟩
    exact ⟨_, .decimal hdecimal (isNearest_ofDecimal _ _)⟩

/-- A decimal number is read as the nearest float, unless a huge exponent stands behind a huge number
of digits. -/
theorem read?_of_isDecimal {negative : Bool} {places : Nat}
    (hdecimal : IsDecimal cs negative digits places e)
    (hlimit : cs.length ≤ 65000 ∨ e.natAbs < exponentLimit) :
    ∃ m, read? cs = some (ofParts negative m) ∧ IsNearest (digits * 10 ^ (e - places)) m := by
  have hnearest := isNearest_ofDecimal digits (cutExponent e - places)
  refine ⟨_, read?_eq_some_iff.2 (.decimal hdecimal hnearest), ?_⟩
  obtain ⟨sign, body, rfl, -, hbody⟩ := hdecimal
  refine hbody.isNearest_of_cutExponent (hlimit.imp_left fun hlength => ?_) hnearest
  rw [List.length_append] at hlength
  omega

end StackMachine.Binary32
