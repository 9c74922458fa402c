import Mathlib.Data.List.Forall2
import Mathlib.Data.Nat.Digits.Lemmas
import StackMachine.Text.Reading

/-!
# Numerals

The texts that are read as whole numbers, told without a reader: digits of a base with the value
that they have in it, of any number and with any zeros in front, and an optional sign.

* `IsNumeral`, `IsSign`: digits with their value, and signs.
* `readDecimal?_eq_some_iff`, `readHex?_eq_some_iff`: the readers accept numerals of their base, and
  nothing else.
* `exists_sign`, `splitSign_append`: a sign is what is split off.
* `readSigned?_eq_some_iff`: so the reader of signed numbers accepts a sign with a numeral.
* `readSigned?_signedDecimal`: a signed number that was written is read back.
-/

namespace StackMachine.Text

/-- Whether a character is the digit of a value in a base, in lower or upper case. -/
def IsDigit (base : Nat) (c : Char) (d : Nat) : Prop :=
  d < base ∧ (c = Nat.digitChar d ∨ c = (Nat.digitChar d).toUpper)

/-- Whether a text consists of the digits of a number in a base, the highest first; there is at
least one, and there may be zeros in front. -/
def IsNumeral (base : Nat) (cs : List Char) (n : Nat) : Prop :=
  cs ≠ [] ∧ ∃ digits, List.Forall₂ (IsDigit base) cs digits ∧ Nat.ofDigits base digits.reverse = n

/-- An optional sign, and whether it is a minus. -/
inductive IsSign : List Char → Bool → Prop
  | none : IsSign [] false
  | plus : IsSign ['+'] false
  | minus : IsSign ['-'] true

variable {base n d : Nat} {c : Char} {cs sign body : List Char} {digits : List Nat}
  {negative : Bool}

/-! ## Digits -/

theorem toNat_of_isDigit (h : c.isDigit = true) : 48 ≤ c.toNat ∧ c.toNat ≤ 57 := by
  simpa [Char.isDigit, UInt32.le_iff_toNat_le] using h

theorem toLower_of_isDigit (h : c.isDigit = true) : c.toLower = c := by
  have hrange := toNat_of_isDigit h
  unfold Char.toLower
  rw [dif_neg]
  rintro ⟨hA, -⟩
  have hA' : 65 ≤ c.toNat := UInt32.le_iff_toNat_le.1 hA
  omega

theorem isDigit_ten_iff : IsDigit 10 c d ↔ c.isDigit = true ∧ c.toNat - '0'.toNat = d := by
  have hall : ∀ d < 10, (Nat.digitChar d).isDigit = true ∧
      (Nat.digitChar d).toNat - '0'.toNat = d ∧ (Nat.digitChar d).toUpper = Nat.digitChar d := by
    decide
  constructor
  · rintro ⟨hd, hc⟩
    obtain ⟨hdigit, hvalue, hupper⟩ := hall d hd
    rw [hupper, or_self] at hc
    rw [hc]
    exact ⟨hdigit, hvalue⟩
  · rintro ⟨hc, rfl⟩
    have hrange := toNat_of_isDigit hc
    have hzero : '0'.toNat = 48 := rfl
    refine ⟨by omega, .inl ?_⟩
    rw [← Char.toNat_inj, Nat.toNat_digitChar_of_lt_ten (by omega)]
    omega

theorem toNat_lt_of_hexDigit? (h : hexDigit? c = some d) : c.toNat < 103 := by
  unfold hexDigit? at h
  simp only [Char.le_def, UInt32.le_iff_toNat_le] at h
  split at h
  · rename_i hc
    exact Nat.lt_of_le_of_lt hc.2 (by decide)
  · split at h
    · rename_i hc
      exact Nat.lt_of_le_of_lt hc.2 (by decide)
    · split at h
      · rename_i hc
        exact Nat.lt_of_le_of_lt hc.2 (by decide)
      · cases h

theorem isDigit_sixteen_iff : IsDigit 16 c d ↔ hexDigit? c = some d := by
  have hdigits : ∀ d < 16, hexDigit? (Nat.digitChar d) = some d ∧
      hexDigit? (Nat.digitChar d).toUpper = some d := by
    decide
  have hchars : ∀ k < 103, ∀ d ∈ hexDigit? (Char.ofNat k), d < 16 ∧
      (Char.ofNat k = Nat.digitChar d ∨ Char.ofNat k = (Nat.digitChar d).toUpper) := by
    decide
  constructor
  · rintro ⟨hd, rfl | rfl⟩
    · exact (hdigits d hd).1
    · exact (hdigits d hd).2
  · intro h
    rw [← Char.ofNat_toNat c] at h
    have hc := hchars c.toNat (toNat_lt_of_hexDigit? (by rwa [Char.ofNat_toNat] at h)) d h
    rwa [Char.ofNat_toNat] at hc

/-! ## Numerals -/

/-- The value of digits, as a reader builds it up from the highest digit on. -/
theorem ofDigits_reverse (base : Nat) (digits : List Nat) :
    Nat.ofDigits base digits.reverse = digits.foldl (fun n d => base * n + d) 0 := by
  rw [Nat.ofDigits_eq_foldr, List.foldr_reverse]
  simp only [Nat.cast_id, Nat.add_comm]

theorem forall₂_isDigit_ten_iff :
    List.Forall₂ (IsDigit 10) cs digits ↔
      (∀ c ∈ cs, c.isDigit = true) ∧ digits = cs.map fun c => c.toNat - '0'.toNat := by
  induction cs generalizing digits with
  | nil => simp
  | cons c cs ih =>
    rw [List.forall₂_cons_left_iff]
    simp only [isDigit_ten_iff, ih, List.forall_mem_cons, List.map_cons]
    constructor
    · rintro ⟨_, _, ⟨hc, rfl⟩, ⟨hcs, rfl⟩, rfl⟩
      exact ⟨⟨hc, hcs⟩, rfl⟩
    · rintro ⟨⟨hc, hcs⟩, rfl⟩
      exact ⟨_, _, ⟨hc, rfl⟩, ⟨hcs, rfl⟩, rfl⟩

theorem isNumeral_ten_iff :
    IsNumeral 10 cs n ↔
      cs ≠ [] ∧ (∀ c ∈ cs, c.isDigit = true) ∧ Nat.ofDigitChars 10 cs 0 = n := by
  have hvalue : Nat.ofDigits 10 (cs.map fun c => c.toNat - '0'.toNat).reverse =
      Nat.ofDigitChars 10 cs 0 := by
    rw [ofDigits_reverse, List.foldl_map]
    rfl
  unfold IsNumeral
  refine and_congr_right fun _ => ?_
  simp only [forall₂_isDigit_ten_iff]
  constructor
  · rintro ⟨_, ⟨hcs, rfl⟩, hn⟩
    exact ⟨hcs, hvalue ▸ hn⟩
  · rintro ⟨hcs, hn⟩
    exact ⟨_, ⟨hcs, rfl⟩, hvalue.trans hn⟩

theorem readDecimal?_eq_some_iff : readDecimal? cs = some n ↔ IsNumeral 10 cs n := by
  unfold readDecimal?
  rw [isNumeral_ten_iff]
  simp [and_assoc]

/-- Reading on behind a number that was read from the digits so far. -/
theorem foldlM_hexDigit?_eq_some_iff {start : Nat} :
    cs.foldlM (fun n c => (hexDigit? c).map (16 * n + ·)) start = some n ↔
      ∃ digits, List.Forall₂ (IsDigit 16) cs digits ∧
        digits.foldl (fun n d => 16 * n + d) start = n := by
  induction cs generalizing start with
  | nil => simp
  | cons c cs ih =>
    rw [List.foldlM_cons]
    simp only [Option.bind_eq_bind, Option.bind_eq_some_iff, Option.map_eq_some_iff, ih,
      List.forall₂_cons_left_iff, isDigit_sixteen_iff]
    constructor
    · rintro ⟨_, ⟨d, hd, rfl⟩, digits, hdigits, rfl⟩
      exact ⟨_, ⟨d, digits, hd, hdigits, rfl⟩, rfl⟩
    · rintro ⟨_, ⟨d, digits, hd, hdigits, rfl⟩, rfl⟩
      exact ⟨_, ⟨d, hd, rfl⟩, digits, hdigits, rfl⟩

theorem readHex?_eq_some_iff : readHex? cs = some n ↔ IsNumeral 16 cs n := by
  unfold readHex? IsNumeral
  by_cases hcs : cs = []
  · simp [hcs]
  · simp only [List.isEmpty_iff, hcs, if_false, foldlM_hexDigit?_eq_some_iff, ofDigits_reverse,
      ne_eq, not_false_eq_true, true_and]

namespace IsNumeral

/-- A numeral begins with a digit. -/
theorem exists_cons (h : IsNumeral 10 cs n) : ∃ c rest, cs = c :: rest ∧ c.isDigit = true := by
  obtain ⟨hcs, hall, -⟩ := isNumeral_ten_iff.1 h
  obtain ⟨c, rest, rfl⟩ := List.exists_cons_of_ne_nil hcs
  exact ⟨c, rest, rfl, hall c List.mem_cons_self⟩

theorem lt_pow (h : IsNumeral base cs n) (hbase : 1 < base) : n < base ^ cs.length := by
  obtain ⟨-, digits, hdigits, rfl⟩ := h
  have hlt : ∀ d ∈ digits.reverse, d < base := by
    intro d hd
    rw [List.mem_reverse] at hd
    clear hbase
    induction hdigits with
    | nil => cases hd
    | cons hc _ ih =>
      rcases List.mem_cons.1 hd with rfl | hd
      · exact hc.1
      · exact ih hd
  rw [hdigits.length_eq, ← List.length_reverse]
  exact Nat.ofDigits_lt_base_pow_length hbase hlt

end IsNumeral

/-! ## Signs and other parts -/

theorem takeWhile_append_of_head {p : Char → Bool} {l r : List Char} (hl : ∀ c ∈ l, p c = true)
    (hr : ∀ c ∈ r.head?, p c = false) :
    (l ++ r).takeWhile p = l ∧ (l ++ r).dropWhile p = r := by
  rw [List.takeWhile_append_of_pos hl, List.dropWhile_append_of_pos hl]
  cases r with
  | nil => simp
  | cons c r => simp [hr c rfl]

/-- What is split off is a sign. -/
theorem exists_sign (cs : List Char) :
    ∃ sign, IsSign sign (splitSign cs).1 ∧ cs = sign ++ (splitSign cs).2 := by
  unfold splitSign
  split
  · exact ⟨_, .minus, rfl⟩
  · exact ⟨_, .plus, rfl⟩
  · exact ⟨_, .none, rfl⟩

/-- A sign is split off from what does not begin with one. -/
theorem splitSign_append (hsign : IsSign sign negative)
    (hbody : ∀ c ∈ body.head?, c ≠ '+' ∧ c ≠ '-') :
    splitSign (sign ++ body) = (negative, body) := by
  cases hsign with
  | plus | minus => rfl
  | none =>
    rw [List.nil_append]
    unfold splitSign
    split
    · exact absurd rfl (hbody _ rfl).2
    · exact absurd rfl (hbody _ rfl).1
    · rfl

theorem readSigned?_eq_some_iff {v : Int} : readSigned? cs = some v ↔
    ∃ sign digits negative n, cs = sign ++ digits ∧ IsSign sign negative ∧ IsNumeral 10 digits n ∧
      applySign negative n = v := by
  unfold readSigned?
  rw [Option.map_eq_some_iff]
  simp only [readDecimal?_eq_some_iff]
  constructor
  · rintro ⟨n, hn, rfl⟩
    obtain ⟨sign, hsign, hcs⟩ := exists_sign cs
    exact ⟨sign, _, _, n, hcs, hsign, hn, rfl⟩
  · rintro ⟨sign, digits, negative, n, rfl, hsign, hn, rfl⟩
    have hhead : ∀ c ∈ digits.head?, c ≠ '+' ∧ c ≠ '-' := by
      obtain ⟨c, rest, rfl, hdigit⟩ := hn.exists_cons
      rintro _ ⟨⟩
      constructor <;> rintro rfl <;> cases hdigit
    rw [splitSign_append hsign hhead]
    exact ⟨n, hn, rfl⟩

/-! ## Numbers that are written -/

theorem isNumeral_toDigits (n : Nat) : IsNumeral 10 (Nat.toDigits 10 n) n :=
  readDecimal?_eq_some_iff.1 (readDecimal?_toDigits n)

theorem IsNumeral.padLeft (h : IsNumeral 10 cs n) (width : Nat) :
    IsNumeral 10 (padLeft '0' width cs) n := by
  obtain ⟨hcs, hall, hn⟩ := isNumeral_ten_iff.1 h
  refine isNumeral_ten_iff.2 ⟨List.append_ne_nil_of_right_ne_nil _ hcs, fun c hc => ?_, ?_⟩
  · rcases List.mem_append.1 hc with hc | hc
    · rw [List.eq_of_mem_replicate hc]
      rfl
    · exact hall c hc
  · rw [Text.padLeft, Nat.ofDigitChars_append, Nat.ofDigitChars_replicate_zero, Nat.mul_zero, hn]

/-- A signed number is written as a sign and a numeral. -/
theorem exists_signedDecimal (i : Int) : ∃ sign negative,
    (signedDecimal i).toList = sign ++ Nat.toDigits 10 i.natAbs ∧ IsSign sign negative ∧
      applySign negative i.natAbs = i := by
  by_cases hneg : i < 0
  · refine ⟨['-'], true, ?_, .minus, ?_⟩
    · rw [signedDecimal, if_pos hneg, String.toList_ofList, List.singleton_append]
    · rw [applySign, if_pos rfl]
      omega
  · refine ⟨[], false, ?_, .none, ?_⟩
    · rw [signedDecimal, if_neg hneg, decimal, String.toList_ofList, List.nil_append]
    · rw [applySign, if_neg Bool.false_ne_true]
      omega

theorem readSigned?_signedDecimal (i : Int) : readSigned? (signedDecimal i).toList = some i := by
  obtain ⟨sign, negative, htext, hsign, hvalue⟩ := exists_signedDecimal i
  exact readSigned?_eq_some_iff.2
    ⟨sign, _, negative, _, htext, hsign, isNumeral_toDigits i.natAbs, hvalue⟩

end StackMachine.Text
